import MessageDedup.Store.History

/-!
# The state machine of a Redis record

With the numbers of Lua: a count from 10^14 on can be rounded when it is written.
-/

namespace MessageDedup

open Transition

variable {V R : Type} {config : DeduplicationConfig} {codec : ResultCodec V R}

namespace LuaRecord

structure WellFormed (data : LuaRecord R) : Prop where
  lease : data.leaseUntilMs.isSome ↔ data.status = .processing
  error : data.error.isSome → data.status = .failed
  result : data.result.isSome → data.status = .completed
  attempts : 1 ≤ data.attempts

/-- How a command may change the record of its message. -/
inductive Change (config : DeduplicationConfig) (nowMs : Int) :
    Option (LuaRecord R) → Option (LuaRecord R) → Prop
  | claimed {new : LuaRecord R} : new.status = .processing → Change config nowMs none (some new)
  | completed {old new : LuaRecord R} : old.status = .processing → new.status = .completed →
      Change config nowMs (some old) (some new)
  | failed {old new : LuaRecord R} : old.status = .processing → new.status = .failed →
      Change config nowMs (some old) (some new)
  | retried {old new : LuaRecord R} : old.status = .failed → config.retryFailed = true →
      old.attempts < config.maxRetries → new.status = .processing →
      Change config nowMs (some old) (some new)
  | takenOver {old new : LuaRecord R} {lease : Int} : old.status = .processing →
      old.leaseUntilMs = some lease → lease ≤ nowMs → new.status = .processing →
      (old.attempts < 10 ^ 14 → new.attempts = old.attempts + 1) →
      Change config nowMs (some old) (some new)

theorem completed_final {data : LuaRecord R} (h : data.status = .completed) {nowMs : Int}
    (new : Option (LuaRecord R)) : ¬ Change config nowMs (some data) new := by
  intro hchange
  cases hchange <;> simp_all

/-! ## The records that the commands write -/

theorem wellFormed_first (m : String) (now leaseUntil : Int) :
    (first m now leaseUntil : LuaRecord R).WellFormed where
  lease := by simp [first]
  error := by simp [first]
  result := by simp [first]
  attempts := by simp [first]

theorem WellFormed.reclaimed {numbers : Numbers} {data : LuaRecord R} (h : data.WellFormed)
    {nowMs : Int} (hclaim : data.Claimable numbers config nowMs) (now leaseUntil : Int) :
    (data.reclaimed now leaseUntil).WellFormed where
  lease := by simp [LuaRecord.reclaimed]
  error := by simp [LuaRecord.reclaimed]
  result := by
    intro hresult
    have hcompleted := h.result hresult
    unfold Claimable at hclaim
    rw [hcompleted] at hclaim
    simp at hclaim
  attempts := by
    have hattempts := h.attempts
    simp only [LuaRecord.reclaimed]
    omega

theorem WellFormed.marked_completed {data : LuaRecord R} (h : data.WellFormed)
    (hstatus : data.status = .processing) (now : Int) (result : Option R) :
    (data.marked .completed now result data.error data.attempts).WellFormed where
  lease := by simp [marked]
  error := by
    intro herror
    have hfailed := h.error herror
    rw [hstatus] at hfailed
    simp at hfailed
  result := by simp [marked]
  attempts := h.attempts

theorem WellFormed.marked_failed {data : LuaRecord R} (h : data.WellFormed)
    (hstatus : data.status = .processing) (now : Int) (error : Option String) {attempts : Int}
    (hattempts : 1 ≤ attempts) :
    (data.marked .failed now data.result error attempts).WellFormed where
  lease := by simp [marked]
  error := by simp [marked]
  result := by
    intro hresult
    have hcompleted := h.result hresult
    rw [hstatus] at hcompleted
    simp at hcompleted
  attempts := hattempts

theorem isSome_of_mapM {α β : Type} {f : α → Except Exc β} {x : Option α} {y : Option β}
    (h : x.mapM f = .ok y) : y.isSome = x.isSome := by
  cases x with
  | none =>
    cases h
    rfl
  | some a =>
    rw [Option.mapM_some] at h
    cases hb : f a with
    | error exc =>
      rw [hb] at h
      cases h
    | ok b =>
      rw [hb] at h
      cases h
      rfl

theorem fits_one (b p : Nat) (h : 1 < b ^ p) : Rounding.Fits b p (1 : Int).natAbs :=
  Rounding.fits_of_lt h

variable [RedisServer]

theorem WellFormed.written {data raw : LuaRecord R} (h : data.WellFormed)
    (hraw : data.written .doubles = .ok raw) : raw.WellFormed := by
  obtain ⟨hattempts, hlease, heq⟩ := written_iff.mp hraw
  have hstatus : raw.status = data.status := written_status hraw
  have herror : raw.error = data.error := by rw [heq]
  have hresult : raw.result = data.result := by rw [heq]
  refine ⟨?_, ?_, ?_, ?_⟩
  · rw [hstatus, isSome_of_mapM hlease]
    exact h.lease
  · rw [hstatus, herror]
    exact h.error
  · rw [hstatus, hresult]
    exact h.result
  · exact Numbers.le_written (fits_one 10 14 (by decide)) (fits_one 2 53 (by decide)) h.attempts
      hattempts

/-- The count is one that a script has written. -/
def Counted (data : LuaRecord R) : Prop := ∃ n, Numbers.doubles.written n = .ok data.attempts

end LuaRecord

/-! ## One command -/

namespace Redis

variable {numbers : Numbers} {keys keys' : RedisState R} {now n : Int} {op : RedisOp V}

theorem Ran.other (h : Ran numbers config keys now op keys' n) {key : String}
    (hkey : key ≠ redisKey op.messageId) : keys' key = keys key := by
  cases h with
  | refused hget hnot => rfl
  | unmarked hop hnot hn => rfl
  | first hget hraw httl => exact Function.update_of_ne hkey _ _
  | reclaimed hget hclaim hraw => exact Function.update_of_ne hkey _ _
  | completed hget hstatus hraw => exact Function.update_of_ne hkey _ _
  | failed hget hstatus hraw => exact Function.update_of_ne hkey _ _
  | deleted => exact Function.update_of_ne hkey _ _

theorem Ran.entry (h : Ran numbers config keys now op keys' n) {key : String}
    {entry : Keyspace.Entry (LuaRecord R) Int} (hentry : keys' key = some entry) :
    keys key = some entry ∨ ∃ data : LuaRecord R, data.written numbers = .ok entry.value := by
  rcases eq_or_ne key (redisKey op.messageId) with rfl | hne
  · cases h with
    | refused hget hnot => exact .inl hentry
    | unmarked hop hnot hn => exact .inl hentry
    | first hget hraw httl =>
      cases (Keyspace.set_self _ _ _ _).symm.trans hentry
      exact .inr ⟨_, hraw⟩
    | reclaimed hget hclaim hraw =>
      cases (Keyspace.set_self _ _ _ _).symm.trans hentry
      exact .inr ⟨_, hraw⟩
    | completed hget hstatus hraw =>
      cases (Keyspace.set_self _ _ _ _).symm.trans hentry
      exact .inr ⟨_, hraw⟩
    | failed hget hstatus hraw =>
      cases (Keyspace.set_self _ _ _ _).symm.trans hentry
      exact .inr ⟨_, hraw⟩
    | deleted =>
      cases (Function.update_self _ _ _).symm.trans hentry
  · rw [h.other hne] at hentry
    exact .inl hentry

theorem Ran.returned (h : Ran numbers config keys now op keys' n) (hop : ∀ m, op ≠ .delete m)
    (hn : n = 0 ∨ n = -1) : keys' = keys := by
  cases h with
  | refused hget hnot => rfl
  | unmarked hop' hnot hn' => rfl
  | first hget hraw httl => simp at hn
  | reclaimed hget hclaim hraw => simp at hn
  | completed hget hstatus hraw => simp at hn
  | failed hget hstatus hraw => simp at hn
  | deleted => exact absurd rfl (hop _)

variable [RedisServer]

theorem attempts_of_written {data raw : LuaRecord R} (h : data.written .doubles = .ok raw)
    (hlow : 0 ≤ data.attempts) (hhigh : data.attempts ≤ 10 ^ 14) :
    raw.attempts = data.attempts := by
  have hwritten : Numbers.doubles.written data.attempts = .ok data.attempts := by
    rw [Numbers.written_iff]
    exact representable_of_le (by omega)
  exact Except.ok.inj ((LuaRecord.written_iff.mp h).1.symm.trans hwritten)

theorem Ran.record (h : Ran .doubles config keys now op keys' n)
    (hold : ∀ data, Keyspace.get keys (nowMs now) (redisKey op.messageId) = some data →
      data.WellFormed ∧ data.Counted) :
    let old := Keyspace.get keys (nowMs now) (redisKey op.messageId)
    let new := Keyspace.get keys' (nowMs now) (redisKey op.messageId)
    new = old ∨ LuaRecord.Change config (nowMs now) old new ∨
      new = none ∧ op = .delete op.messageId := by
  cases h with
  | refused hget hnot => exact .inl rfl
  | unmarked hop hnot hn => exact .inl rfl
  | first hget hraw httl =>
    right; left
    simp only [RedisOp.messageId]
    rw [hget, get_first (RedisServer.valid httl)]
    exact .claimed (LuaRecord.written_status hraw)
  | @reclaimed m data raw hget hclaim hraw =>
    -- Lua compares with the double of the limit, and the count is one that a script has written.
    right; left
    obtain ⟨hwell, n, hcounted⟩ := hold data hget
    simp only [RedisOp.messageId]
    rw [hget, Keyspace.get_setKeepTtl_self]
    rcases hclaim with ⟨hfailed, hretry, hless⟩ | ⟨hprocessing, lease, hlease, hover⟩
    · exact .retried hfailed hretry (Numbers.lt_of_lt_tonumber hcounted hless)
        (LuaRecord.written_status hraw)
    · refine .takenOver hprocessing hlease hover (LuaRecord.written_status hraw) fun hsmall => ?_
      have hattempts := hwell.attempts
      have hcount : (data.reclaimed now (leaseMs .doubles config now)).attempts =
        data.attempts + 1 := rfl
      rw [attempts_of_written hraw (by omega) (by omega), hcount]
  | completed hget hstatus hraw =>
    right; left
    simp only [RedisOp.messageId]
    rw [hget, Keyspace.get_setKeepTtl_self]
    exact .completed hstatus (LuaRecord.written_status hraw)
  | failed hget hstatus hraw =>
    right; left
    simp only [RedisOp.messageId]
    rw [hget, Keyspace.get_setKeepTtl_self]
    exact .failed hstatus (LuaRecord.written_status hraw)
  | @deleted m =>
    right; right
    refine ⟨?_, rfl⟩
    simp [Keyspace.get, Keyspace.entryAt, Keyspace.del, RedisOp.messageId]

end Redis

/-! ## Every run -/

theorem get_of_entries {P : LuaRecord R → Prop} {keys : RedisState R}
    (h : ∀ key entry, keys key = some entry → P entry.value) {nowMs : Int} {key : String}
    {data : LuaRecord R} (hget : Keyspace.get keys nowMs key = some data) : P data := by
  obtain ⟨entry, hentry, rfl⟩ := Option.map_eq_some_iff.mp hget
  exact h key entry (Option.filter_eq_some_iff.mp hentry).1

def RedisHistory.Sound (s : RedisHistory R) : Prop :=
  ∀ key entry, s.keys key = some entry → entry.value.WellFormed

theorem RedisHistory.Sound.get {s : RedisHistory R} (h : s.Sound) {key : String}
    {data : LuaRecord R} (hget : Keyspace.get s.keys (Redis.nowMs s.now) key = some data) :
    data.WellFormed := get_of_entries h hget

section

variable [RedisServer]

theorem counted_of_redis {s : RedisHistory R}
    (h : Reach (redisSystemOn .doubles config codec) s) :
    ∀ key entry, s.keys key = some entry → entry.value.Counted := by
  refine h.invariant (fun s => ∀ key entry, s.keys key = some entry → entry.value.Counted) ?_ ?_
  · rintro s ⟨hkeys, -⟩ key entry hentry
    rw [hkeys] at hentry
    cases hentry
  · intro s a s' _ hs hstep key entry hentry
    cases a with
    | tick t =>
      obtain ⟨-, heq⟩ := Option.ite_none_right_eq_some.mp hstep
      cases heq
      exact hs key entry hentry
    | op op =>
      cases hstep
      cases hrun : Redis.commandOn .doubles config codec s.keys s.now op with
      | error exc =>
        rw [hrun] at hentry
        exact hs key entry hentry
      | ok r =>
        rw [hrun] at hentry
        rcases (Redis.command_ran hrun).entry hentry with hold | ⟨data, hraw⟩
        · exact hs key entry hold
        · exact ⟨_, (LuaRecord.written_iff.mp hraw).1⟩

/-- `attempts >= 1` in every `mark_failed`. -/
def RedisAction.Counts : RedisAction V → Prop
  | .op (.markFailed _ _ attempts) => 1 ≤ attempts
  | _ => True

instance : DecidablePred (RedisAction.Counts : RedisAction V → Prop)
  | .op (.claim _) => .isTrue trivial
  | .op (.markCompleted _ _) => .isTrue trivial
  | .op (.markFailed _ _ attempts) => inferInstanceAs (Decidable (1 ≤ attempts))
  | .op (.delete _) => .isTrue trivial
  | .tick _ => .isTrue trivial

theorem RedisHistory.Sound.set {s : RedisHistory R} (h : s.Sound) {key : String}
    {data raw : LuaRecord R} (hdata : data.WellFormed) (hraw : data.written .doubles = .ok raw)
    (expireAt : Option Int) :
    ∀ key' entry, Keyspace.set s.keys key raw expireAt key' = some entry →
      entry.value.WellFormed := by
  intro key' entry hentry
  unfold Keyspace.set at hentry
  rcases eq_or_ne key' key with rfl | hne
  · rw [Function.update_self, Option.some.injEq] at hentry
    exact hentry ▸ hdata.written hraw
  · rw [Function.update_of_ne hne] at hentry
    exact h key' entry hentry

theorem RedisHistory.Sound.step {s s' : RedisHistory R} {a : RedisAction V} (h : s.Sound)
    (hcounts : a.Counts) (hstep : (redisSystemOn .doubles config codec).step s a s') :
    s'.Sound := by
  cases a with
  | tick t =>
    obtain ⟨-, heq⟩ := Option.ite_none_right_eq_some.mp hstep
    cases heq
    exact h
  | op op =>
    cases hstep
    cases hrun : Redis.commandOn .doubles config codec s.keys s.now op with
    | error e => exact h
    | ok r =>
      obtain ⟨keys', n⟩ := r
      show ∀ key entry, keys' key = some entry → entry.value.WellFormed
      cases Redis.command_ran hrun with
      | refused hget hnot => exact h
      | unmarked hop hnot hn => exact h
      | first hget hraw httl => exact h.set (LuaRecord.wellFormed_first _ _ _) hraw _
      | reclaimed hget hclaim hraw => exact h.set ((h.get hget).reclaimed hclaim _ _) hraw _
      | completed hget hstatus hraw =>
        exact h.set ((h.get hget).marked_completed hstatus _ _) hraw _
      | failed hget hstatus hraw =>
        have hcount : 1 ≤ Numbers.doubles.tonumber _ := Numbers.one_le_tonumber hcounts
        exact h.set ((h.get hget).marked_failed hstatus _ _ hcount) hraw _
      | @deleted m =>
        intro key entry hentry
        unfold Keyspace.del at hentry
        rcases eq_or_ne key (redisKey m) with rfl | hne
        · rw [Function.update_self] at hentry
          simp at hentry
        · rw [Function.update_of_ne hne] at hentry
          exact h key entry hentry

theorem sound_of_redis {s : RedisHistory R}
    (h : Reach ((redisSystemOn .doubles config codec).guard fun _ a => a.Counts) s) : s.Sound := by
  refine h.invariant RedisHistory.Sound ?_ ?_
  · rintro s ⟨hkeys, -⟩ key entry hentry
    rw [hkeys] at hentry
    simp at hentry
  · exact fun s a s' _ hs hstep => hs.step hstep.1 hstep.2

theorem RedisHistory.Sound.record_step {s s' : RedisHistory R} {a : RedisAction V} (h : s.Sound)
    (hcounted : ∀ key entry, s.keys key = some entry → entry.value.Counted)
    (hstep : (redisSystemOn .doubles config codec).step s a s') (m : String) :
    s'.record m = s.record m ∨
      LuaRecord.Change config (Redis.nowMs s.now) (s.record m) (s'.record m) ∨
      s'.record m = none ∧ (a = .op (.delete m) ∨ ∃ t, a = .tick t) := by
  cases a with
  | tick t =>
    obtain ⟨hle, heq⟩ := Option.ite_none_right_eq_some.mp hstep
    cases heq
    rcases Keyspace.get_later s.keys (redisKey m) (Redis.nowMs_mono hle) with hsame | hgone
    · exact .inl hsame
    · exact .inr (.inr ⟨hgone, .inr ⟨t, rfl⟩⟩)
  | op op =>
    cases hstep
    cases hrun : Redis.commandOn .doubles config codec s.keys s.now op with
    | error e => exact .inl rfl
    | ok r =>
      have hran := Redis.command_ran hrun
      rcases eq_or_ne m op.messageId with rfl | hne
      · rcases hran.record fun data hget => ⟨h.get hget, get_of_entries hcounted hget⟩ with
          hsame | hchange | ⟨hgone, hdelete⟩
        · exact .inl hsame
        · exact .inr (.inl hchange)
        · exact .inr (.inr ⟨hgone, .inl (congrArg _ hdelete)⟩)
      · exact .inl (Keyspace.get_congr (hran.other (redisKey_injective.ne hne)) _)

/-- The script of `op` returns 0 or -1, or raises. -/
def RedisHistory.Refuses (config : DeduplicationConfig) (codec : ResultCodec V R)
    (s : RedisHistory R) (op : RedisOp V) : Prop :=
  (∃ exc, Redis.commandOn .doubles config codec s.keys s.now op = .error exc) ∨
    ∃ keys n, Redis.commandOn .doubles config codec s.keys s.now op = .ok (keys, n) ∧
      (n = 0 ∨ n = -1)

/-- The records of every reachable state are well formed, a step changes a record only as `Change`
says or removes it, a COMPLETED record stays as it is, and a refusal writes nothing. -/
theorem redis_state_machine {s : RedisHistory R}
    (h : Reach ((redisSystemOn .doubles config codec).guard fun _ a => a.Counts) s) :
    (∀ m data, s.record m = some data → data.WellFormed) ∧
    ∀ a s', (redisSystemOn .doubles config codec).step s a s' →
      (∀ m, s'.record m = s.record m ∨
        LuaRecord.Change config (Redis.nowMs s.now) (s.record m) (s'.record m) ∨
        s'.record m = none ∧ (a = .op (.delete m) ∨ ∃ t, a = .tick t)) ∧
      (∀ m data, s.record m = some data → data.status = .completed →
        s'.record m = some data ∨ s'.record m = none ∧ (a = .op (.delete m) ∨ ∃ t, a = .tick t)) ∧
      ∀ op, a = .op op → (∀ m, op ≠ .delete m) → s.Refuses config codec op → s'.keys = s.keys := by
  have hsound : s.Sound := sound_of_redis h
  have hcounted := counted_of_redis h.of_guard
  refine ⟨fun m data hget => hsound.get hget, fun a s' hstep => ?_⟩
  refine ⟨hsound.record_step hcounted hstep, ?_, ?_⟩
  · intro m data hget hcompleted
    rcases hsound.record_step hcounted hstep m with hsame | hchange | hgone
    · exact .inl (hsame.trans hget)
    · rw [hget] at hchange
      exact absurd hchange (LuaRecord.completed_final hcompleted _)
    · exact .inr hgone
  · rintro op rfl hop hrefuses
    cases hstep
    rcases hrefuses with ⟨exc, hraised⟩ | ⟨keys, n, hreturned, hn⟩
    · rw [hraised]
      rfl
    · rw [hreturned]
      exact (Redis.command_ran hreturned).returned hop hn

end

/-! ## Runs -/

theorem reach_of_counts {config : DeduplicationConfig} {actions : List (RedisAction Unit)}
    {s : RedisHistory Unit}
    (h : replay (RedisHistory.exec .doubles config nullCodec) (fun _ a => decide a.Counts)
      ⟨fun _ => none, 0, []⟩ actions = some s) :
    Reach ((redisSystemOn .doubles config nullCodec).guard fun _ a => a.Counts) s := by
  have hstart : Reach ((redisSystemOn .doubles config nullCodec).guard
      fun _ (a : RedisAction Unit) => a.Counts) ⟨fun _ => none, 0, []⟩ := .init ⟨rfl, rfl⟩
  exact (reach_replay (fun _ => True) (fun _ _ _ _ hpass _ => ⟨of_decide_eq_true hpass, trivial⟩)
    hstart trivial h).1

/-- A claim that is taken over, a failure, a retry that completes, and a late `mark_failed`. -/
def redisRun : List (RedisAction Unit) :=
  [.tick 1000, .op (.claim "order-1"), .tick 300001000, .op (.claim "order-1"),
    .op (.claim "order-1"), .op (.markFailed "order-1" "declined" 2), .op (.claim "order-1"),
    .op (.markCompleted "order-1" none), .op (.markFailed "order-1" "late" 1)]

theorem redis_state_machine_run : ∃ s,
    Reach ((redisSystemOn .doubles {} nullCodec).guard fun _ a => a.Counts) s ∧
    ∃ data, s.record "order-1" = some data ∧ data.status = .completed ∧ data.attempts = 3 ∧
      data.WellFormed := by
  have hrun : ((replay (RedisHistory.exec .doubles {} nullCodec) (fun _ a => decide a.Counts)
      ⟨fun _ => none, 0, []⟩ redisRun).bind fun s =>
        (s.record "order-1").map fun data => (data.status, data.attempts)) =
          some (.completed, 3) := by
    decide +kernel
  obtain ⟨s, hs, hrecord⟩ := Option.bind_eq_some_iff.mp hrun
  obtain ⟨data, hdata, hshown⟩ := Option.map_eq_some_iff.mp hrecord
  obtain ⟨hstatus, hattempts⟩ := Prod.mk.inj hshown
  have hreach := reach_of_counts hs
  exact ⟨s, hreach, data, hdata, hstatus, hattempts, (redis_state_machine hreach).1 _ _ hdata⟩

/-- A count of 10^14 is claimed again, and its lease runs out. -/
def longRetries : List (RedisAction Unit) :=
  [.op (.claim "order-1"), .op (.markFailed "order-1" "timeout" 100000000000000),
    .op (.claim "order-1"), .tick 300000000]

/-- The takeover that follows leaves the count as it was. -/
theorem takeover_uncounted :
    let config : DeduplicationConfig := { maxRetries := 1000000000000000 }
    ¬ ∀ (s s' : RedisHistory Unit) (old new : LuaRecord Unit),
      Reach ((redisSystemOn .doubles config nullCodec).guard fun _ a => a.Counts) s →
      (redisSystemOn .doubles config nullCodec).step s (.op (.claim "order-1")) s' →
      s.record "order-1" = some old → s'.record "order-1" = some new → new ≠ old →
      old.status = .processing → new.status = .processing → new.attempts = old.attempts + 1 := by
  intro config h
  let old : LuaRecord Unit :=
    ⟨"order-1", .processing, 100000000000000, none, none, some 300000, 0, 0⟩
  let new : LuaRecord Unit :=
    ⟨"order-1", .processing, 100000000000000, none, none, some 600000, 0, 300000000⟩
  have hrun : (replay (RedisHistory.exec .doubles config nullCodec) (fun _ a => decide a.Counts)
      ⟨fun _ => none, 0, []⟩ longRetries).map (fun s => (s.record "order-1",
        (s.ran (.claim "order-1" : RedisOp Unit) (Redis.commandOn .doubles config nullCodec
          s.keys s.now (.claim "order-1"))).record "order-1")) = some (some old, some new) := by
    decide +kernel
  obtain ⟨s, hs, hrecords⟩ := Option.map_eq_some_iff.mp hrun
  obtain ⟨hold, hnew⟩ := Prod.mk.inj hrecords
  have hcount := h s _ old new (reach_of_counts hs) rfl hold hnew (by decide) rfl rfl
  exact absurd hcount (by decide)

end MessageDedup
