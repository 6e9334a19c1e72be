import MessageDedup.Store.Comparison

/-!
# Where the two stores agree

They part where a `mark_failed` meets a record that is not PROCESSING, and where one of them has no
room for a number.
-/

namespace MessageDedup

variable {V R : Type} {config : DeduplicationConfig} {codec : ResultCodec V R}
  {store store' : MemoryState V} {keys keys' : RedisState R} {now : Int} {m : String}
  {record : ProcessingStatus V} {data : LuaRecord R}

/-! ## Marks -/

namespace Redis

variable {numbers : Numbers} {key json error : String} {status : StatusValue} {nowIso : Int}
  {attempts : Option Int}

theorem luaUpdateStatus_idle
    (h : ∀ data, Keyspace.get keys (nowMs now) key = some data → data.status ≠ .processing) :
    ∃ n, luaUpdateStatus numbers codec keys now key status nowIso json error attempts =
      .ok (keys, n) := by
  unfold luaUpdateStatus
  cases hget : Keyspace.get keys (nowMs now) key with
  | none => exact ⟨_, rfl⟩
  | some data => exact ⟨_, if_pos (h data hget)⟩

theorem luaUpdateStatus_processing {result : Option R}
    (hget : Keyspace.get keys (nowMs now) key = some data) (hp : data.status = .processing)
    (hresult : luaResult codec json data.result = .ok result) :
    luaUpdateStatus numbers codec keys now key status nowIso json error attempts =
      ((data.marked status nowIso result (if error ≠ "" then some error else data.error)
        ((attempts.map numbers.tonumber).getD data.attempts)).written numbers).map fun raw =>
          (Keyspace.setKeepTtl keys (nowMs now) key raw, 1) := by
  unfold luaUpdateStatus
  rw [hget]
  refine (if_neg (not_not.mpr hp)).trans ?_
  rw [hresult]
  rfl

theorem luaUpdateStatus_returns (h : ∀ old, ∃ result, luaResult codec json old = .ok result) :
    ∃ r, luaUpdateStatus .exact codec keys now key status nowIso json error attempts = .ok r := by
  by_cases hidle : ∀ data, Keyspace.get keys (nowMs now) key = some data →
      data.status ≠ .processing
  · obtain ⟨n, hupdate⟩ := luaUpdateStatus_idle hidle
    exact ⟨_, hupdate⟩
  · push Not at hidle
    obtain ⟨data, hget, hp⟩ := hidle
    obtain ⟨result, hresult⟩ := h data.result
    rw [luaUpdateStatus_processing hget hp hresult, LuaRecord.written_exact]
    exact ⟨_, rfl⟩

theorem resultJson_recordable {result : Option V} (h : Recordable codec (.markCompleted m result)) :
    ∃ json, resultJson codec result = .ok json ∧
      ∀ old, ∃ r, luaResult codec json old = .ok r := by
  cases result with
  | none => exact ⟨"", rfl, fun old => ⟨old, rfl⟩⟩
  | some value =>
    obtain ⟨json, r, hdumps, hcjson⟩ := h
    refine ⟨json, hdumps, fun old => ?_⟩
    unfold luaResult
    split
    · rw [hcjson]
      exact ⟨_, rfl⟩
    · exact ⟨_, rfl⟩

theorem markCompleted_eq {result : Option V} (hjson : resultJson codec result = .ok json) :
    markCompleted numbers codec keys now m result =
      (luaUpdateStatus numbers codec keys now (redisKey m) .completed now json "" none).map
        (·.1) := by
  unfold markCompleted
  rw [hjson]
  change (luaUpdateStatus numbers codec keys now (redisKey m) .completed now json "" none).bind _ =
    _
  cases luaUpdateStatus numbers codec keys now (redisKey m) .completed now json "" none <;> rfl

theorem markFailed_eq {a : Int} : markFailed numbers codec keys now m error a =
    (luaUpdateStatus numbers codec keys now (redisKey m) .failed now "" error (some a)).map
      (·.1) := by
  unfold markFailed
  cases luaUpdateStatus numbers codec keys now (redisKey m) .failed now "" error (some a) <;> rfl

theorem markCompleted_returns {result : Option V}
    (h : Recordable codec (.markCompleted m result)) :
    ∃ keys', markCompleted .exact codec keys now m result = .ok keys' := by
  obtain ⟨json, hjson, hresult⟩ := resultJson_recordable h
  obtain ⟨r, hupdate⟩ : ∃ r, luaUpdateStatus .exact codec keys now (redisKey m) .completed now
      json "" none = .ok r := luaUpdateStatus_returns hresult
  rw [markCompleted_eq hjson, hupdate]
  exact ⟨_, rfl⟩

theorem markFailed_returns (m error : String) (a : Int) :
    ∃ keys', markFailed .exact codec keys now m error a = .ok keys' := by
  obtain ⟨r, hupdate⟩ : ∃ r, luaUpdateStatus .exact codec keys now (redisKey m) .failed now ""
      error (some a) = .ok r := luaUpdateStatus_returns fun old => ⟨old, rfl⟩
  rw [markFailed_eq, hupdate]
  exact ⟨_, rfl⟩

end Redis

theorem InMemory.markFailed_some {error : String} {a : Int} (h : store m = some record) :
    InMemory.markFailed store now m error a =
      Function.update store m (some { record with
        status := .failed
        error := some error
        attempts := a
        leaseExpiresAt := none
        updatedAt := now }) := by
  simp [InMemory.markFailed, h]

section

variable [RedisServer]

theorem written_marked {status : StatusValue} {result : Option R} {error : Option String} {n : Int}
    (h : Keeps n) :
    (data.marked status now result error n).written .doubles =
      .ok (data.marked status now result error n) :=
  LuaRecord.written_iff.mpr ⟨h.written, rfl, rfl⟩

/-! ### What a mark does on Redis -/

theorem call_markCompleted {json : String} {result : Option V} {stored : Option R}
    (hjson : Redis.resultJson codec result = .ok json)
    (hget : Keyspace.get keys (Redis.nowMs now) (redisKey m) = some data)
    (hp : data.status = .processing) (hstored : Redis.luaResult codec json data.result = .ok stored)
    (hkeeps : Keeps data.attempts) :
    (redisStoreOn .doubles config codec).call keys now (.markCompleted m result) =
      .ok (Keyspace.setKeepTtl keys (Redis.nowMs now) (redisKey m)
        (data.marked .completed now stored data.error data.attempts), none) := by
  refine (congrArg (Except.map (·, none)) (Redis.markCompleted_eq hjson)).trans ?_
  rw [Redis.luaUpdateStatus_processing hget hp hstored]
  change ((((data.marked .completed now stored data.error data.attempts).written .doubles).map
    _).map _).map _ = _
  rw [written_marked hkeeps]
  rfl

theorem call_markCompleted_idle {json : String} {result : Option V}
    (hjson : Redis.resultJson codec result = .ok json)
    (hidle : ∀ data, Keyspace.get keys (Redis.nowMs now) (redisKey m) = some data →
      data.status ≠ .processing) :
    (redisStoreOn .doubles config codec).call keys now (.markCompleted m result) =
      .ok (keys, none) := by
  refine (congrArg (Except.map (·, none)) (Redis.markCompleted_eq hjson)).trans ?_
  obtain ⟨n, hupdate⟩ : ∃ n, Redis.luaUpdateStatus .doubles codec keys now (redisKey m)
      .completed now json "" none = .ok (keys, n) := Redis.luaUpdateStatus_idle hidle
  rw [hupdate]
  rfl

theorem call_markFailed {error : String} {a : Int}
    (hget : Keyspace.get keys (Redis.nowMs now) (redisKey m) = some data)
    (hp : data.status = .processing) :
    (redisStoreOn .doubles config codec).call keys now (.markFailed m error a) =
      ((data.marked .failed now data.result (if error ≠ "" then some error else data.error)
        (Numbers.doubles.tonumber a)).written .doubles).map fun raw =>
          (Keyspace.setKeepTtl keys (Redis.nowMs now) (redisKey m) raw, none) := by
  refine (congrArg (Except.map (·, none)) Redis.markFailed_eq).trans ?_
  rw [Redis.luaUpdateStatus_processing hget hp rfl]
  change ((((data.marked .failed now data.result (if error ≠ "" then some error else data.error)
    (Numbers.doubles.tonumber a)).written .doubles).map _).map _).map _ = _
  cases (data.marked .failed now data.result (if error ≠ "" then some error else data.error)
    (Numbers.doubles.tonumber a)).written .doubles <;> rfl

theorem call_markFailed_idle {error : String} {a : Int}
    (hidle : ∀ data, Keyspace.get keys (Redis.nowMs now) (redisKey m) = some data →
      data.status ≠ .processing) :
    (redisStoreOn .doubles config codec).call keys now (.markFailed m error a) =
      .ok (keys, none) := by
  refine (congrArg (Except.map (·, none)) Redis.markFailed_eq).trans ?_
  obtain ⟨n, hupdate⟩ : ∃ n, Redis.luaUpdateStatus .doubles codec keys now (redisKey m) .failed
      now "" error (some a) = .ok (keys, n) := Redis.luaUpdateStatus_idle hidle
  rw [hupdate]
  rfl

/-! ### A mark on both stores -/

theorem SameCall.mark {op : StoreOp V}
    (hstore : (inMemoryStore V config).call store now op = .ok (store', none))
    (hkeys : (redisStoreOn .doubles config codec).call keys now op = .ok (keys', none))
    (hsame : SameRecords store' keys' now) : SameCall config codec store keys now op := by
  simp only [SameCall, DeduplicationStore.answer, DeduplicationStore.after, hstore, hkeys,
    Except.map]
  exact ⟨trivial, hsame⟩

theorem SameRecords.markCompleted (h : SameRecords store keys now) {result : Option V}
    (hrecordable : Recordable codec (.markCompleted m result)) :
    SameCall config codec store keys now (.markCompleted m result) := by
  obtain ⟨json, hjson, hresult⟩ := Redis.resultJson_recordable hrecordable
  have hmemory : (inMemoryStore V config).call store now (.markCompleted m result) =
      .ok (InMemory.markCompleted store now m result, none) := rfl
  by_cases hidle : ∀ data, Keyspace.get keys (Redis.nowMs now) (redisKey m) = some data →
      data.status ≠ .processing
  · have hstore : InMemory.markCompleted store now m result = store := by
    -- Both stores leave a record that is not PROCESSING, and a missing one.
      cases hget : Keyspace.get keys (Redis.nowMs now) (redisKey m) with
      | none => simp [InMemory.markCompleted, h.of_none hget]
      | some data =>
        obtain ⟨record, hrecord, hsame⟩ := h.of_some hget
        simp [InMemory.markCompleted, hrecord, hsame.status, hidle data hget]
    rw [hstore] at hmemory
    exact SameCall.mark hmemory (call_markCompleted_idle hjson hidle) h
  · push Not at hidle
    obtain ⟨data, hget, hp⟩ := hidle
    obtain ⟨record, hrecord, hsame⟩ := h.of_some hget
    obtain ⟨stored, hstored⟩ := hresult data.result
    have hstore : InMemory.markCompleted store now m result =
        Function.update store m (some { record with
          status := .completed
          result := result
          leaseExpiresAt := none
          updatedAt := now }) := by
      simp [InMemory.markCompleted, hrecord, hsame.status, hp]
    rw [hstore] at hmemory
    refine SameCall.mark hmemory (call_markCompleted hjson hget hp hstored hsame.keeps)
      (h.update (fun m' hne => Function.update_of_ne hne _ _)
        (fun key hne => Function.update_of_ne hne _ _) ?_)
    rw [Function.update_self, Keyspace.get_setKeepTtl_self]
    exact .some {
      status := rfl
      attempts := hsame.attempts
      keeps := hsame.keeps
      lease := .inl rfl
      datetime := nofun
      idle := fun _ => ⟨rfl, rfl⟩ }

theorem Keeps.tonumber {n : Int} (h : Keeps n) : Numbers.doubles.tonumber n = n := by
  obtain ⟨⟨-, x, -, rfl⟩, -⟩ := h
  exact double_double x

theorem SameRecords.markFailed (h : SameRecords store keys now) {error : String} {a : Int}
    (hspared : Spared config keys now (.markFailed m error a : StoreOp V)) :
    SameCall config codec store keys now (.markFailed m error a) := by
  have hmemory : (inMemoryStore V config).call store now (.markFailed m error a) =
      .ok (InMemory.markFailed store now m error a, none) := rfl
  cases hget : Keyspace.get keys (Redis.nowMs now) (redisKey m) with
  | none =>
    have hstore : InMemory.markFailed store now m error a = store := by
      simp [InMemory.markFailed, h.of_none hget]
    rw [hstore] at hmemory
    have hidle : ∀ data, Keyspace.get keys (Redis.nowMs now) (redisKey m) = some data →
        data.status ≠ .processing := fun data hdata => absurd (hget.symm.trans hdata) nofun
    exact SameCall.mark hmemory (call_markFailed_idle hidle) h
  | some data =>
    obtain ⟨record, hrecord, hsame⟩ := h.of_some hget
    rw [InMemory.markFailed_some hrecord] at hmemory
    -- In the second case Redis spares the record, and memory writes what is there already.
    rcases hspared data hget with ⟨hp, hkeeps⟩ | ⟨hfailed, hcount⟩
    · have hcall : (redisStoreOn .doubles config codec).call keys now (.markFailed m error a) = _ :=
        call_markFailed hget hp
      rw [hkeeps.tonumber, written_marked hkeeps] at hcall
      refine SameCall.mark hmemory hcall (h.update (fun m' hne => Function.update_of_ne hne _ _)
        (fun key hne => Function.update_of_ne hne _ _) ?_)
      rw [Function.update_self, Keyspace.get_setKeepTtl_self]
      exact .some {
        status := rfl
        attempts := rfl
        keeps := hkeeps
        lease := .inl rfl
        datetime := nofun
        idle := fun _ => ⟨rfl, rfl⟩ }
    · have hne : data.status ≠ .processing := by simp [hfailed]
      have hidle : ∀ data', Keyspace.get keys (Redis.nowMs now) (redisKey m) = some data' →
          data'.status ≠ .processing := by
        intro data' hdata'
        cases hget.symm.trans hdata'
        exact hne
      refine SameCall.mark hmemory (call_markFailed_idle hidle)
        (h.update (fun m' hne => Function.update_of_ne hne _ _) (fun _ _ => rfl) ?_)
      rw [Function.update_self, hget]
      exact .some {
        status := hfailed.symm
        attempts := hcount.symm
        keeps := hsame.keeps
        lease := .inl (congrArg (Option.map _) (hsame.idle hne).2).symm
        datetime := hsame.datetime
        idle := fun _ => ⟨rfl, (hsame.idle hne).2⟩ }

theorem SameRecords.spared_markFailed (h : SameRecords store keys now) {error : String} {a : Int}
    (hanswer : (inMemoryStore V config).answer store now (.markFailed m error a) =
      (redisStoreOn .doubles config codec).answer keys now (.markFailed m error a))
    (hvisible : some (InMemory.visible
        ((inMemoryStore V config).after store now (.markFailed m error a)) m) =
      Redis.visible ((redisStoreOn .doubles config codec).after keys now (.markFailed m error a))
        now m) :
    Spared config keys now (.markFailed m error a : StoreOp V) := by
  intro data hget
  obtain ⟨record, hrecord, hsame⟩ := h.of_some hget
  have hseen : InMemory.visible
      ((inMemoryStore V config).after store now (.markFailed m error a)) m =
        some (.failed, a) := by
    change (InMemory.markFailed store now m error a m).map _ = _
    rw [InMemory.markFailed_some hrecord, Function.update_self]
    rfl
  rw [hseen] at hvisible
  unfold DeduplicationStore.answer at hanswer
  unfold DeduplicationStore.after at hvisible
  -- In memory the record is FAILED now. On Redis it is so only if it was PROCESSING.
  by_cases hp : data.status = .processing
  · left
    refine ⟨hp, ?_⟩
    rw [call_markFailed hget hp] at hanswer hvisible
    cases hraw : (data.marked .failed now data.result
        (if error ≠ "" then some error else data.error)
        (Numbers.doubles.tonumber a)).written .doubles with
    | error exc =>
      rw [hraw] at hanswer
      cases hanswer
    | ok raw =>
      rw [hraw] at hvisible
      obtain ⟨hreadable, hcount⟩ :=
        Redis.visible_some (Keyspace.get_setKeepTtl_self _ _ _ _) hvisible
      have hwritten : Numbers.doubles.written a = .ok raw.attempts := by
        rw [← Numbers.written_tonumber]
        exact (LuaRecord.written_iff.mp hraw).1
      exact keeps_of_readable hwritten hcount hreadable
  · right
    have hidle : ∀ data', Keyspace.get keys (Redis.nowMs now) (redisKey m) = some data' →
        data'.status ≠ .processing := by
      intro data' hdata'
      cases hget.symm.trans hdata'
      exact hp
    rw [call_markFailed_idle hidle] at hvisible
    unfold Redis.visible at hvisible
    dsimp only at hvisible
    rw [hget] at hvisible
    simp only [if_pos hsame.readable, Option.some.injEq, Prod.mk.injEq] at hvisible
    exact ⟨hvisible.1.symm, hvisible.2.symm⟩

/-! ## Any call -/

theorem SameRecords.isDuplicate (h : SameRecords store keys now) (m : String) :
    SameCall config codec store keys now (.isDuplicate m) := by
  refine ⟨?_, h⟩
  have hduplicate : InMemory.isDuplicate store m = Redis.isDuplicate keys now m := by
    unfold InMemory.isDuplicate Redis.isDuplicate
    cases hget : Keyspace.get keys (Redis.nowMs now) (redisKey m) with
    | none =>
      rw [h.of_none hget]
      rfl
    | some data =>
      obtain ⟨record, hrecord, -⟩ := h.of_some hget
      rw [hrecord]
      rfl
  exact congrArg (fun b => Except.ok (some b)) hduplicate

theorem SameRecords.delete (h : SameRecords store keys now) (m : String) :
    SameCall config codec store keys now (.delete m) := by
  refine ⟨rfl, h.update (fun m' hne => Function.update_of_ne hne _ _)
    (fun key hne => Function.update_of_ne hne _ _) ?_⟩
  change Option.Rel Same (Function.update store m none m)
    (Keyspace.get (Keyspace.del keys (redisKey m)) (Redis.nowMs now) (redisKey m))
  rw [Function.update_self]
  simp only [Keyspace.get, Keyspace.entryAt, Keyspace.del, Function.update_self]
  exact .none

theorem SameRecords.call {op : StoreOp V} (h : SameRecords store keys now)
    (hnow : now % 1000 = 0 ∧ 0 ≤ now ∧ now < 10 ^ 17) (hrecordable : Recordable codec op)
    (hspared : Spared config keys now op) : SameCall config codec store keys now op := by
  obtain ⟨hms, hlow, hhigh⟩ := hnow
  cases op with
  | claim m => exact h.claim hms hlow hhigh hspared
  | isDuplicate m => exact h.isDuplicate m
  | markCompleted m result => exact h.markCompleted hrecordable
  | markFailed m error attempts => exact h.markFailed hspared
  | getStatus m => exact ⟨rfl, h⟩
  | delete m => exact h.delete m

theorem SameRecords.spared {op : StoreOp V} (h : SameRecords store keys now)
    (hhigh : now < 10 ^ 17)
    (hanswer : (inMemoryStore V config).answer store now op =
      (redisStoreOn .doubles config codec).answer keys now op)
    (hvisible : ∀ m, some (InMemory.visible ((inMemoryStore V config).after store now op) m) =
      Redis.visible ((redisStoreOn .doubles config codec).after keys now op) now m) :
    Spared config keys now op := by
  cases op with
  | claim m =>
    obtain ⟨store', keys', claimed, hmemory, hredis⟩ := claims_return hanswer
    have hstore : (inMemoryStore V config).after store now (.claim m) = store' := by
      have hclaim : (inMemoryStore V config).claim store now m = .ok (store', claimed) := hmemory
      simp only [DeduplicationStore.after, DeduplicationStore.call, hclaim, Except.map]
    have hkeys : (redisStoreOn .doubles config codec).after keys now (.claim m) = keys' := by
      have hclaim : (redisStoreOn .doubles config codec).claim keys now m =
          .ok (keys', claimed) := hredis
      simp only [DeduplicationStore.after, DeduplicationStore.call, hclaim, Except.map]
    have hm := hvisible m
    rw [hstore, hkeys] at hm
    exact h.spared_claim hhigh hmemory hredis hm
  | markFailed m error attempts => exact h.spared_markFailed hanswer (hvisible m)
  | isDuplicate _ | markCompleted _ _ | getStatus _ | delete _ => trivial

theorem agreeing_iff {last : Int} (ops : List (Int × StoreOp V)) (h : SameRecords store keys last)
    (hadmissible : Admissible config codec last ops keys) :
    Agreeing config codec ops store keys ↔ AllSpared config codec ops keys := by
  induction ops generalizing last store keys with
  | nil => exact Iff.rfl
  | cons step rest ih =>
    obtain ⟨now, op⟩ := step
    obtain ⟨hnow, hrecordable, hkept, hrest⟩ := hadmissible
    have hsame := h.later hkept
    constructor
    · rintro ⟨hanswer, hvisible, hagree⟩
      have hspared : Spared config keys now op := hsame.spared hnow.2.2 hanswer hvisible
      have hcall : SameCall config codec store keys now op := hsame.call hnow hrecordable hspared
      exact ⟨hspared, (ih hcall.2 hrest).mp hagree⟩
    · rintro ⟨hspared, hall⟩
      have hcall : SameCall config codec store keys now op := hsame.call hnow hrecordable hspared
      exact ⟨hcall.1, hcall.2.visible, (ih hcall.2 hrest).mpr hall⟩

theorem admissible_at_once {config : DeduplicationConfig} (ops : List (StoreOp Unit))
    (keys : RedisState Unit) :
    Admissible config nullCodec 0 (ops.map fun op => (0, op)) keys := by
  induction ops generalizing keys with
  | nil => trivial
  | cons op ops ih =>
    refine ⟨by decide, ?_, fun _ => rfl, ih _⟩
    cases op with
    | markCompleted m result =>
      cases result with
      | none => trivial
      | some value => exact ⟨_, _, rfl, rfl⟩
    | _ => trivial

end

/-! ## Numbers of 14 digits -/

structure SmallSettings (config : DeduplicationConfig) : Prop where
  ttl : 0 < config.ttlSeconds ∧ config.ttlSeconds * 1000 < 10 ^ 14
  timeout : 0 ≤ config.processingTimeoutSeconds
  maxRetries : config.maxRetries.natAbs < 10 ^ 14

/-- What is left of `Spared` where every number has 14 digits at most. -/
def Ordinary (config : DeduplicationConfig) (keys : RedisState R) (now : Int) : StoreOp V → Prop
  | .claim m => InMemory.leaseUntil config now < 10 ^ 17 ∧
    ∀ data ∈ Keyspace.get keys (Redis.nowMs now) (redisKey m), data.attempts.natAbs + 1 < 10 ^ 14
  | .markFailed m _ attempts => attempts.natAbs < 10 ^ 14 ∧
    ∀ data ∈ Keyspace.get keys (Redis.nowMs now) (redisKey m),
      data.status = .processing ∨ data.status = .failed ∧ data.attempts = attempts
  | _ => True

instance (config : DeduplicationConfig) (keys : RedisState R) (now : Int) :
    (op : StoreOp V) → Decidable (Ordinary config keys now op)
  | .claim _ => inferInstanceAs (Decidable (_ ∧ _))
  | .markFailed _ _ _ => inferInstanceAs (Decidable (_ ∧ _))
  | .isDuplicate _ | .markCompleted _ _ | .getStatus _ | .delete _ => .isTrue trivial

theorem takesLease_of_small (hnow : 0 ≤ now) (htimeout : 0 ≤ config.processingTimeoutSeconds)
    (hlease : InMemory.leaseUntil config now < 10 ^ 17) : InMemory.TakesLease config now := by
  unfold InMemory.leaseUntil at hlease
  have hdatetime : isDatetime (now + config.processingTimeoutSeconds * 1000000) := by
    unfold isDatetime
    omega
  unfold InMemory.TakesLease addSeconds
  rw [if_neg (by omega), if_pos hdatetime]
  rfl

section

variable [RedisServer]

def AllOrdinary (config : DeduplicationConfig) (codec : ResultCodec V R) :
    List (Int × StoreOp V) → RedisState R → Prop
  | [], _ => True
  | (now, op) :: rest, keys =>
    Ordinary config keys now op ∧
      AllOrdinary config codec rest ((redisStoreOn .doubles config codec).after keys now op)

def decideAllOrdinary (config : DeduplicationConfig) (codec : ResultCodec V R) :
    (ops : List (Int × StoreOp V)) → (keys : RedisState R) →
      Decidable (AllOrdinary config codec ops keys)
  | [], _ => .isTrue trivial
  | (now, op) :: rest, keys =>
    have := decideAllOrdinary config codec rest
      ((redisStoreOn .doubles config codec).after keys now op)
    inferInstanceAs (Decidable (Ordinary config keys now op ∧ _))

instance (config : DeduplicationConfig) (codec : ResultCodec V R) (ops : List (Int × StoreOp V))
    (keys : RedisState R) : Decidable (AllOrdinary config codec ops keys) :=
  decideAllOrdinary config codec ops keys

theorem leaseKept_of_small (hnow : 0 ≤ now) (htimeout : 0 ≤ config.processingTimeoutSeconds)
    (hlease : InMemory.leaseUntil config now < 10 ^ 17) : LeaseKept config now := by
  unfold InMemory.leaseUntil at hlease
  have hms : (config.processingTimeoutSeconds * 1000).natAbs < 10 ^ 14 := by
    omega
  have hend : Redis.leaseMs .doubles config now = now / 1000 +
      config.processingTimeoutSeconds * 1000 := by
    unfold Redis.leaseMs
    rw [Numbers.tonumber_of_lt hms, Redis.nowMs_eq]
  refine ⟨_, Numbers.written_of_lt ?_, ?_⟩
  · rw [hend]
    omega
  · rw [hend]
    unfold isDatetime
    omega

theorem spared_of_ordinary {op : StoreOp V} (hsmall : SmallSettings config) (hnow : 0 ≤ now)
    (h : Ordinary config keys now op) : Spared config keys now op := by
  cases op with
  | claim m =>
    obtain ⟨hlease, hcounts⟩ := h
    have htimeout := hsmall.timeout
    have hkept : LeaseKept config now := leaseKept_of_small hnow htimeout hlease
    refine ⟨takesLease_of_small hnow htimeout hlease, ?_⟩
    cases hget : Keyspace.get keys (Redis.nowMs now) (redisKey m) with
    | none =>
      obtain ⟨hpositive, hbelow⟩ := hsmall.ttl
      have httl : (config.ttlSeconds * 1000).natAbs < 10 ^ 14 := by
        omega
      have hms : Redis.ttlMs .doubles config = config.ttlSeconds * 1000 :=
        Numbers.tonumber_of_lt httl
      refine ⟨?_, hkept⟩
      unfold InMemory.leaseUntil at hlease
      rw [hms, Numbers.expires_of_lt httl, Numbers.exact_expires, decide_eq_true_iff,
        Redis.nowMs_eq]
      exact ⟨by omega, by omega⟩
    | some data =>
      have hcount := hcounts data hget
      refine ⟨fun _ _ => ?_, fun _ => ⟨keeps_of_lt (by omega), hkept⟩⟩
      rw [double_of_lt hsmall.maxRetries]
  | markFailed m error attempts =>
    intro data hget
    exact (h.2 data hget).imp_left fun hp => ⟨hp, keeps_of_lt h.1⟩
  | isDuplicate m | markCompleted m result | getStatus m | delete m => trivial

theorem allSpared_of_ordinary {last : Int} (hsmall : SmallSettings config)
    (ops : List (Int × StoreOp V)) (hadmissible : Admissible config codec last ops keys)
    (h : AllOrdinary config codec ops keys) : AllSpared config codec ops keys := by
  induction ops generalizing last keys with
  | nil => trivial
  | cons step rest ih =>
    obtain ⟨now, op⟩ := step
    obtain ⟨⟨-, hnow, -⟩, -, -, hrest⟩ := hadmissible
    exact ⟨spared_of_ordinary hsmall hnow h.1, ih hrest h.2⟩

end

/-- A completed message, and a late `mark_failed` of it. -/
def lateMark : List (StoreOp Unit) :=
  [.claim "order-1", .markCompleted "order-1" none, .markFailed "order-1" "late" 1]

/-- Two messages: one fails, is claimed again and completes. -/
def twoMessages : List (StoreOp Unit) :=
  [.claim "order-1", .claim "order-2", .markFailed "order-1" "declined" 1, .claim "order-2",
    .claim "order-1", .markCompleted "order-1" (some ()), .isDuplicate "order-1",
    .markFailed "order-2" "declined" 1, .markFailed "order-2" "declined" 1, .delete "order-2",
    .getStatus "order-1"]

/-- A count of 15 digits is rounded on Redis. -/
example : ¬ Agreeing {} nullCodec
    ([.claim "order-1", .markFailed "order-1" "declined" 100000000000001].map fun op => (0, op))
    (fun _ => none) fun _ => none :=
  fun h => absurd (h.2.2.2.1 "order-1") (by decide +kernel)

/-- A lease of 10^12 seconds is no `datetime`. -/
example : ¬ Agreeing { processingTimeoutSeconds := 1000000000000 } nullCodec
    [(0, .claim "order-1")] (fun _ => none) fun _ => none :=
  fun h => absurd h.1 (by decide +kernel)

end MessageDedup
