import MessageDedup.Store.Agreement
import MessageDedup.Store.History

/-!
# Where a result that a store shows comes from

A reader of a message is shown a result. No operation on the store makes one up: it was shown
before, or it is what a `mark_completed` of the message has stored, as it comes back.
-/

namespace MessageDedup

variable {V R : Type}

namespace Backend

variable (backend : Backend V R)

/-- The result that `get_status` gives for `m`. -/
def shown (s : backend.State) (now : Int) (m : String) : Option V :=
  (backend.store.getStatus s now m).bind (·.result)

/-- `mark_completed` with `w` makes the store show `v`. -/
def Recorded : Backend V R → (w v : V) → Prop
  | .inMemory _, w, v => v = w
  | .redis _ codec, w, v => ∃ json result, codec.dumps w = .ok json ∧
      codec.cjson json = .ok result ∧ codec.loads result = some v

/-- What is shown in `s'` was shown in `s`, or comes from a mark with `marked`. -/
def ShownFrom (s s' : backend.State) (now : Int) (m : String) (marked : Option V) : Prop :=
  ∀ v, backend.shown s' now m = some v →
    backend.shown s now m = some v ∨ ∃ w, marked = some w ∧ backend.Recorded w v

variable {backend} {s s' : backend.State} {now : Int} {m : String} {marked : Option V}

theorem ShownFrom.of_eq (h : backend.shown s' now m = backend.shown s now m) :
    backend.ShownFrom s s' now m marked :=
  fun _ hv => .inl (h ▸ hv)

theorem ShownFrom.of_none (h : backend.shown s' now m = none) :
    backend.ShownFrom s s' now m marked := by
  intro v hv
  rw [h] at hv
  simp at hv

end Backend

/-- The result that an operation would store under `m`. -/
def StoreOp.marks (m : String) : StoreOp V → Option V
  | .markCompleted key result => if key = m then result else none
  | _ => none

/-! ## In memory -/

namespace InMemory

variable {config : DeduplicationConfig} {store : MemoryState V} {now : Int} {m : String}

theorem shown_eq : (Backend.inMemory (R := R) config).shown store now m =
    (store m).bind (·.result) := rfl

theorem claim_shownFrom {store' : MemoryState V} {key : String} {claimed : Bool}
    (h : claim config store now key = .ok (store', claimed)) :
    (Backend.inMemory (R := R) config).ShownFrom store store' now m none := by
  rcases eq_or_ne m key with rfl | hne
  · have hlease : TakesLease config now := takesLease_of_claim h
    cases hold : store m with
    | none =>
      rw [claim_none hlease hold] at h
      cases h
      apply Backend.ShownFrom.of_none
      simp only [shown_eq, Function.update_self, Option.bind_some]
    | some existing =>
      rw [claim_some hlease hold] at h
      split at h <;> cases h
      · apply Backend.ShownFrom.of_none
        simp only [shown_eq, Function.update_self, Option.bind_some]
      · exact .of_eq rfl
  · apply Backend.ShownFrom.of_eq
    rw [shown_eq, claim_other h hne, shown_eq]

theorem markCompleted_shownFrom (key : String) (result : Option V) :
    (Backend.inMemory (R := R) config).ShownFrom store (markCompleted store now key result) now m
      ((StoreOp.markCompleted key result).marks m) := by
  rcases eq_or_ne m key with rfl | hne
  · cases hold : store m with
    | none =>
      apply Backend.ShownFrom.of_eq
      simp only [markCompleted, hold]
    | some record =>
      by_cases hp : record.status = .processing
      · intro v hv
        rw [shown_eq] at hv
        simp only [markCompleted, hold, hp, ne_eq, not_true_eq_false, if_false,
          Function.update_self, Option.bind_some] at hv
        exact .inr ⟨v, (if_pos rfl).trans hv, rfl⟩
      · apply Backend.ShownFrom.of_eq
        simp only [markCompleted, hold, hp, ne_eq, not_false_eq_true, if_true]
  · apply Backend.ShownFrom.of_eq
    rw [shown_eq, markCompleted_other hne, shown_eq]

theorem markFailed_shownFrom (key error : String) (attempts : Int) :
    (Backend.inMemory (R := R) config).ShownFrom store (markFailed store now key error attempts) now
      m none := by
  apply Backend.ShownFrom.of_eq
  rw [shown_eq, shown_eq]
  rcases eq_or_ne m key with rfl | hne
  · unfold markFailed
    cases hold : store m with
    | none => simp only [hold]
    | some record => simp only [Function.update_self, Option.bind_some]
  · rw [markFailed_other hne]

theorem delete_shownFrom (key : String) :
    (Backend.inMemory (R := R) config).ShownFrom store (delete store key) now m none := by
  unfold delete
  rcases eq_or_ne m key with rfl | hne
  · apply Backend.ShownFrom.of_none
    simp only [shown_eq, Function.update_self, Option.bind_none]
  · apply Backend.ShownFrom.of_eq
    rw [shown_eq, Function.update_of_ne hne, shown_eq]

end InMemory

/-! ## On Redis -/

namespace Redis

variable {config : DeduplicationConfig} {codec : ResultCodec V R} {keys keys' : RedisState R}
  {now : Int} {m : String}

theorem shown_eq : (Backend.redis config codec).shown keys now m =
    (Keyspace.get keys (nowMs now) (redisKey m)).bind fun data => data.result.bind codec.loads := by
  change (getStatus codec keys now m).bind _ = _
  unfold getStatus
  cases Keyspace.get keys (nowMs now) (redisKey m) <;> rfl

theorem shown_congr (h : keys' (redisKey m) = keys (redisKey m)) :
    (Backend.redis config codec).shown keys' now m = (Backend.redis config codec).shown keys now m
    := by
  rw [shown_eq, shown_eq, Keyspace.get_congr h]

theorem claim_shownFrom {key : String} {claimed : Bool}
    (h : claim .exact config keys now key = .ok (keys', claimed)) :
    (Backend.redis config codec).ShownFrom keys keys' now m none := by
  rcases eq_or_ne m key with rfl | hne
  · obtain ⟨n, heval, -⟩ := evalClaim_of_claim h
    rcases evalClaim_ok heval with ⟨raw, hget, hraw, hvalid, rfl, -⟩ |
      ⟨data, hget, ⟨raw, -, hraw, rfl, -⟩ | ⟨-, rfl, -⟩⟩
    · obtain rfl := LuaRecord.written_exact_iff.mp hraw
      apply Backend.ShownFrom.of_none
      rw [shown_eq, get_first (of_decide_eq_true hvalid)]
      rfl
    · obtain rfl := LuaRecord.written_exact_iff.mp hraw
      apply Backend.ShownFrom.of_eq
      rw [shown_eq, shown_eq, Keyspace.get_setKeepTtl_self, hget]
      rfl
    · exact .of_eq rfl
  · exact .of_eq (shown_congr (claim_onKey.frame h _ (redisKey_injective.ne hne)))

theorem markCompleted_shownFrom {key : String} {result : Option V}
    (h : markCompleted .exact codec keys now key result = .ok keys') :
    (Backend.redis config codec).ShownFrom keys keys' now m
      ((StoreOp.markCompleted key result).marks m) := by
  unfold markCompleted at h
  obtain ⟨json, hjson, h⟩ := bind_ok h
  obtain ⟨⟨keys1, n⟩, hupdate, h⟩ := bind_ok h
  obtain rfl : keys1 = keys' := Except.ok.inj h
  rcases eq_or_ne m key with rfl | hne
  · rcases luaUpdateStatus_ok hupdate with
      ⟨rfl, -⟩ | ⟨data, stored, raw, hget, -, hstored, hraw, rfl, -⟩
    · exact .of_eq rfl
    obtain rfl := LuaRecord.written_exact_iff.mp hraw
    · unfold luaResult at hstored
      split at hstored
      · rename_i hpresent
        obtain ⟨r, hr, rfl⟩ : ∃ r, codec.cjson json = .ok r ∧ stored = some r := by
          cases hr : codec.cjson json with
          | error e => simp [hr] at hstored
          | ok r => exact ⟨r, rfl, by simpa [hr] using hstored.symm⟩
        intro v hv
        rw [shown_eq, Keyspace.get_setKeepTtl_self] at hv
        cases result with
        | none => exact absurd (Except.ok.inj hjson).symm hpresent
        | some w => exact .inr ⟨w, if_pos rfl, json, r, hjson, hr, hv⟩
      · obtain rfl := Except.ok.inj hstored
        apply Backend.ShownFrom.of_eq
        rw [shown_eq, shown_eq, Keyspace.get_setKeepTtl_self, hget]
        rfl
  · exact .of_eq (shown_congr (luaUpdateStatus_onKey.frame hupdate _ (redisKey_injective.ne hne)))

theorem markFailed_shownFrom {key error : String} {attempts : Int}
    (h : markFailed .exact codec keys now key error attempts = .ok keys') :
    (Backend.redis config codec).ShownFrom keys keys' now m none := by
  obtain ⟨n, hupdate⟩ := markFailed_ok h
  apply Backend.ShownFrom.of_eq
  rcases eq_or_ne m key with rfl | hne
  · rcases luaUpdateStatus_ok hupdate with
      ⟨rfl, -⟩ | ⟨data, stored, raw, hget, -, hstored, hraw, rfl, -⟩
    · rfl
    · obtain rfl := LuaRecord.written_exact_iff.mp hraw
      obtain rfl : data.result = stored := Except.ok.inj hstored
      rw [shown_eq, shown_eq, Keyspace.get_setKeepTtl_self, hget]
      rfl
  · exact shown_congr (luaUpdateStatus_onKey.frame hupdate _ (redisKey_injective.ne hne))

theorem delete_shownFrom (key : String) :
    (Backend.redis config codec).ShownFrom keys (delete keys key) now m none := by
  rcases eq_or_ne m key with rfl | hne
  · apply Backend.ShownFrom.of_none
    rw [shown_eq]
    simp [delete, Keyspace.get, Keyspace.entryAt, Keyspace.del]
  · exact .of_eq (shown_congr (Function.update_of_ne (redisKey_injective.ne hne) _ _))

end Redis

/-! ## On either store -/

namespace Backend

variable {backend : Backend V R} {s s' : backend.State} {now : Int} {m : String}

theorem claim_shownFrom {key : String} {claimed : Bool}
    (h : backend.store.claim s now key = .ok (s', claimed)) :
    backend.ShownFrom s s' now m none := by
  cases backend with
  | inMemory config =>
    exact InMemory.claim_shownFrom h
  | redis config codec => exact Redis.claim_shownFrom h

theorem markCompleted_shownFrom {key : String} {result : Option V}
    (h : backend.store.markCompleted s now key result = .ok s') :
    backend.ShownFrom s s' now m ((StoreOp.markCompleted key result).marks m) := by
  cases backend with
  | inMemory config =>
    obtain rfl : InMemory.markCompleted s now key result = s' := Except.ok.inj h
    exact InMemory.markCompleted_shownFrom key result
  | redis config codec => exact Redis.markCompleted_shownFrom h

theorem markFailed_shownFrom {key error : String} {attempts : Int}
    (h : backend.store.markFailed s now key error attempts = .ok s') :
    backend.ShownFrom s s' now m none := by
  cases backend with
  | inMemory config =>
    obtain rfl : InMemory.markFailed s now key error attempts = s' := Except.ok.inj h
    exact InMemory.markFailed_shownFrom key error attempts
  | redis config codec => exact Redis.markFailed_shownFrom h

theorem delete_shownFrom (key : String) :
    backend.ShownFrom s (backend.store.delete s key) now m none := by
  cases backend with
  | inMemory config => exact InMemory.delete_shownFrom key
  | redis config codec => exact Redis.delete_shownFrom key

theorem after_shownFrom (op : StoreOp V) :
    backend.ShownFrom s (backend.store.after s now op) now m (op.marks m) := by
  cases op with
  | isDuplicate key | getStatus key => exact .of_eq rfl
  | delete key => exact delete_shownFrom key
  | claim key =>
    cases hr : backend.store.claim s now key with
    | error e =>
      simp only [DeduplicationStore.after, DeduplicationStore.call, hr, Except.map]
      exact .of_eq rfl
    | ok r =>
      simp only [DeduplicationStore.after, DeduplicationStore.call, hr, Except.map]
      exact claim_shownFrom hr
  | markCompleted key result =>
    cases hr : backend.store.markCompleted s now key result with
    | error e =>
      simp only [DeduplicationStore.after, DeduplicationStore.call, hr, Except.map]
      exact .of_eq rfl
    | ok s' =>
      simp only [DeduplicationStore.after, DeduplicationStore.call, hr, Except.map]
      exact markCompleted_shownFrom hr
  | markFailed key error attempts =>
    cases hr : backend.store.markFailed s now key error attempts with
    | error e =>
      simp only [DeduplicationStore.after, DeduplicationStore.call, hr, Except.map]
      exact .of_eq rfl
    | ok s' =>
      simp only [DeduplicationStore.after, DeduplicationStore.call, hr, Except.map]
      exact markFailed_shownFrom hr

/-- As time goes by, a result can expire, and another one does not come. -/
theorem shown_later {t : Int} (h : now ≤ t) {v : V} (hv : backend.shown s t m = some v) :
    backend.shown s now m = some v := by
  cases backend with
  | inMemory config => exact hv
  | redis config codec =>
    rw [Redis.shown_eq] at hv ⊢
    rcases Keyspace.get_later s (redisKey m) (Redis.nowMs_mono h) with hsame | hnone
    · rwa [hsame] at hv
    · rw [hnone] at hv
      simp at hv

theorem shown_of_cell_none (h : backend.store.cell s now m = none) :
    backend.shown s now m = none := by
  unfold shown
  rw [Option.map_eq_none_iff.mp h]
  rfl

end Backend

end MessageDedup
