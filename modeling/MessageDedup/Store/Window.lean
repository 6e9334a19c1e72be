import MessageDedup.Store.StateMachine

/-!
# How long Redis remembers a message

The first claim of a key sets its TTL, and every later write keeps it. So a record is remembered for
`ttl_seconds` from its `created_at`, however late it is completed.
-/

namespace MessageDedup

open Transition

variable {V R : Type} {config : DeduplicationConfig} {codec : ResultCodec V R}

/-- The server's millisecond up to which a record that was created at `createdAt` is there. -/
def DeduplicationConfig.expiry (config : DeduplicationConfig) (createdAt : Int) : Int :=
  Redis.nowMs createdAt + config.ttlSeconds * 1000

/-! ## One command -/

namespace Redis

/-- What a command may do to an entry. `rewritten` is a write with `KEEPTTL`. -/
inductive Touched (config : DeduplicationConfig) (now : Int) :
    Option (Keyspace.Entry (LuaRecord R) Int) → Option (Keyspace.Entry (LuaRecord R) Int) → Prop
  | kept {e : Option (Keyspace.Entry (LuaRecord R) Int)} : Touched config now e e
  | rewritten {entry : Keyspace.Entry (LuaRecord R) Int} {new : LuaRecord R}
      (hlive : entry.Live (nowMs now)) (hstatus : entry.value.status ≠ .completed)
      (hcreated : new.createdAt = entry.value.createdAt) :
      Touched config now (some entry) (some ⟨new, entry.expireAt⟩)
  | created {e : Option (Keyspace.Entry (LuaRecord R) Int)} {new : LuaRecord R}
      (hdead : ∀ entry ∈ e, ¬ entry.Live (nowMs now)) (hcreated : new.createdAt = now) :
      Touched config now e (some ⟨new, some (config.expiry now)⟩)

variable {keys keys' : RedisState R} {now n : Int} {op : RedisOp V} {m : String}

theorem get_live {data : LuaRecord R} (h : Keyspace.get keys (nowMs now) (redisKey m) = some data) :
    ∃ expireAt, keys (redisKey m) = some ⟨data, expireAt⟩ ∧
      (⟨data, expireAt⟩ : Keyspace.Entry (LuaRecord R) Int).Live (nowMs now) ∧
      Keyspace.entryAt keys (nowMs now) (redisKey m) = some ⟨data, expireAt⟩ := by
  obtain ⟨entry, hentry, rfl⟩ := Option.map_eq_some_iff.mp h
  exact ⟨entry.expireAt, (Option.filter_eq_some_iff.mp hentry).1, Keyspace.entryAt_live hentry,
    hentry⟩

theorem touched_keepTtl {data new : LuaRecord R}
    (hget : Keyspace.get keys (nowMs now) (redisKey m) = some data)
    (hstatus : data.status ≠ .completed) (hcreated : new.createdAt = data.createdAt) :
    Touched config now (keys (redisKey m))
      (Keyspace.setKeepTtl keys (nowMs now) (redisKey m) new (redisKey m)) := by
  obtain ⟨expireAt, hkey, hlive, hat⟩ := get_live hget
  unfold Keyspace.setKeepTtl
  rw [Keyspace.set_self, hkey, hat]
  exact .rewritten hlive hstatus hcreated

theorem not_live_of_get {entry : Keyspace.Entry (LuaRecord R) Int}
    (hget : Keyspace.get keys (nowMs now) (redisKey m) = none)
    (hentry : keys (redisKey m) = some entry) : ¬ entry.Live (nowMs now) := by
  intro hlive
  have hat : Keyspace.entryAt keys (nowMs now) (redisKey m) = some entry := by
    unfold Keyspace.entryAt
    rw [hentry, Option.filter_eq_some_iff]
    exact ⟨rfl, decide_eq_true hlive⟩
  simp [Keyspace.get, hat] at hget

/-- The entry was created at `t`, unless its time is over. Then what is left is that entry, or was
created later. -/
def Remembers (config : DeduplicationConfig) (t now : Int)
    (e : Option (Keyspace.Entry (LuaRecord R) Int)) : Prop :=
  (∃ entry, e = some entry ∧ entry.value.createdAt = t ∧
    entry.expireAt = some (config.expiry t)) ∨
  (config.expiry t < nowMs now ∧ ∀ entry ∈ e, entry.value.createdAt = t ∨
    config.expiry t < nowMs entry.value.createdAt)

/-- The entry holds `data`, unless its time is over. -/
def Retains (config : DeduplicationConfig) (data : LuaRecord R) (now : Int)
    (e : Option (Keyspace.Entry (LuaRecord R) Int)) : Prop :=
  e = some ⟨data, some (config.expiry data.createdAt)⟩ ∨
    config.expiry data.createdAt < nowMs now

/-- The entry expires `ttl_seconds` after its `created_at`. -/
def Dated (config : DeduplicationConfig) (now : Int)
    (e : Option (Keyspace.Entry (LuaRecord R) Int)) : Prop :=
  ∀ entry ∈ e, entry.value.createdAt ≤ now ∧
    entry.expireAt = some (config.expiry entry.value.createdAt)

theorem claim_completed {data : LuaRecord R}
    (hget : Keyspace.get keys (nowMs now) (redisKey m) = some data)
    (hdone : data.status = .completed) :
    command config codec keys now (.claim m) = .ok (keys, 0) := by
  have hnot : ¬ data.Claimable .exact config (nowMs now) := by
    simp [LuaRecord.Claimable, hdone]
  exact (evalClaim_some hget).trans (if_neg hnot)

section

variable {e e' : Option (Keyspace.Entry (LuaRecord R) Int)} {now now' t : Int}
  {data : LuaRecord R}

theorem Touched.dated (h : Touched config now e e') (hdated : Dated config now e)
    (hnow : now ≤ now') : Dated config now' e' := by
  intro entry' hentry'
  cases h with
  | kept =>
    obtain ⟨hcreated, hexpire⟩ := hdated entry' hentry'
    exact ⟨hcreated.trans hnow, hexpire⟩
  | @rewritten entry new hlive hstatus hcreated =>
    obtain ⟨hle, hexpire⟩ := hdated entry rfl
    obtain rfl := Option.some.inj hentry'
    dsimp only
    rw [hcreated]
    exact ⟨hle.trans hnow, hexpire⟩
  | @created _ new hdead hcreated =>
    obtain rfl := Option.some.inj hentry'
    dsimp only
    rw [hcreated]
    exact ⟨hnow, rfl⟩

theorem expired_later (h : config.expiry t < nowMs now) (hnow : now ≤ now') :
    config.expiry t < nowMs now' :=
  lt_of_lt_of_le h (nowMs_mono hnow)

theorem over_of_dead {entry : Keyspace.Entry (LuaRecord R) Int}
    (hexpire : entry.expireAt = some (config.expiry t)) (hdead : ¬ entry.Live (nowMs now)) :
    config.expiry t < nowMs now := by
  simpa [Keyspace.Entry.Live, hexpire] using hdead

theorem Touched.remembers (h : Touched config now e e') (hremembers : Remembers config t now e)
    (hnow : now ≤ now') : Remembers config t now' e' := by
  rcases hremembers with ⟨entry, rfl, hcreated, hexpire⟩ | ⟨hover, hrest⟩
  · cases h with
    | kept => exact .inl ⟨entry, rfl, hcreated, hexpire⟩
    | rewritten hlive hstatus hsame => exact .inl ⟨_, rfl, hsame.trans hcreated, hexpire⟩
    | created hdead hnew =>
      have hover := over_of_dead hexpire (hdead entry rfl)
      refine .inr ⟨expired_later hover hnow, ?_⟩
      rintro _ ⟨⟩
      right
      rwa [hnew]
  · refine .inr ⟨expired_later hover hnow, ?_⟩
    cases h with
    | kept => exact hrest
    | rewritten hlive hstatus hsame =>
      rintro _ ⟨⟩
      dsimp only
      rw [hsame]
      exact hrest _ rfl
    | created hdead hnew =>
      rintro _ ⟨⟩
      right
      rwa [hnew]

theorem Touched.retains (h : Touched config now e e') (hdone : data.status = .completed)
    (hretains : Retains config data now e) (hnow : now ≤ now') : Retains config data now' e' := by
  rcases hretains with rfl | hover
  · cases h with
    | kept => exact .inl rfl
    | rewritten hlive hstatus hsame => exact absurd hdone hstatus
    | created hdead hnew => exact .inr (expired_later (over_of_dead rfl (hdead _ rfl)) hnow)
  · exact .inr (expired_later hover hnow)

end

theorem Ran.touched (h : Ran .exact config keys now op keys' n) {m : String}
    (hop : op ≠ .delete m) : Touched config now (keys (redisKey m)) (keys' (redisKey m)) := by
  rcases eq_or_ne m op.messageId with rfl | hne
  · cases h with
    | refused hget hnot => exact .kept
    | unmarked hop' hnot hn => exact .kept
    | first hget hraw httl =>
      obtain rfl := LuaRecord.written_exact_iff.mp hraw
      simp only [RedisOp.messageId, Keyspace.set_self]
      exact .created (fun entry hentry => not_live_of_get hget hentry) rfl
    | reclaimed hget hclaim hraw =>
      obtain rfl := LuaRecord.written_exact_iff.mp hraw
      refine touched_keepTtl hget ?_ rfl
      intro hcompleted
      simp [LuaRecord.Claimable, hcompleted] at hclaim
    | completed hget hstatus hraw =>
      obtain rfl := LuaRecord.written_exact_iff.mp hraw
      exact touched_keepTtl hget (by simp [hstatus]) rfl
    | failed hget hstatus hraw =>
      obtain rfl := LuaRecord.written_exact_iff.mp hraw
      exact touched_keepTtl hget (by simp [hstatus]) rfl
    | deleted => exact absurd rfl hop
  · rw [h.other (redisKey_injective.ne hne)]
    exact .kept

end Redis

/-! ## Every run -/

namespace RedisHistory

variable {s s' : RedisHistory R} {a : RedisAction V} {m : String}

theorem touched_step (hstep : (redisSystem config codec).step s a s') (ha : a ≠ .op (.delete m)) :
    s.now ≤ s'.now ∧
      Redis.Touched config s.now (s.keys (redisKey m)) (s'.keys (redisKey m)) := by
  cases a with
  | tick t =>
    obtain ⟨hle, heq⟩ := Option.ite_none_right_eq_some.mp hstep
    cases heq
    exact ⟨hle, .kept⟩
  | op op =>
    cases hstep
    cases hrun : Redis.commandOn .exact config codec s.keys s.now op with
    | error e => exact ⟨le_rfl, .kept⟩
    | ok r =>
      have hop : op ≠ .delete m := fun e => ha (congrArg _ e)
      exact ⟨le_rfl, (Redis.command_ran hrun).touched hop⟩

/-- The runs in which nobody deletes `m`. -/
def KeepsRecord (m : String) (_ : RedisHistory R) (a : RedisAction V) : Prop :=
  a ≠ .op (.delete m)

/-- `KeepsRecord` of any message. -/
def deletesNothing (_ : RedisHistory R) : RedisAction V → Bool
  | .op (.delete _) => false
  | _ => true

theorem dated_of_reach (h : Reach (redisSystem config codec) s) (m : String) :
    Redis.Dated config s.now (s.keys (redisKey m)) := by
  refine h.invariant (fun s => Redis.Dated config s.now (s.keys (redisKey m))) ?_ ?_
  · rintro s ⟨hkeys, -⟩ entry hentry
    rw [hkeys] at hentry
    cases hentry
  · intro s a s' _ hdated hstep
    by_cases ha : a = .op (.delete m)
    · subst ha
      cases hstep
      intro entry hentry
      change Keyspace.del s.keys (redisKey m) (redisKey m) = some entry at hentry
      simp [Keyspace.del] at hentry
    · obtain ⟨hnow, htouched⟩ := touched_step hstep ha
      exact htouched.dated hdated hnow

theorem keeps_of_reach
    {P : Int → Option (Keyspace.Entry (LuaRecord R) Int) → Prop}
    (hkeeps : ∀ {now now' e e'}, Redis.Touched config now e e' → P now e → now ≤ now' → P now' e')
    (hP : P s.now (s.keys (redisKey m)))
    (h : Reach (((redisSystem config codec).startingAt s).guard (KeepsRecord m)) s') :
    P s'.now (s'.keys (redisKey m)) := by
  refine h.invariant (fun s => P s.now (s.keys (redisKey m))) ?_ ?_
  · rintro _ rfl
    exact hP
  · rintro s a s' - hs ⟨ha, hstep⟩
    obtain ⟨hnow, htouched⟩ := touched_step hstep ha
    exact hkeeps htouched hs hnow

theorem record_inTime (h : Reach (redisSystem config codec) s) {data : LuaRecord R}
    (hdata : s.record m = some data) :
    s.keys (redisKey m) = some ⟨data, some (config.expiry data.createdAt)⟩ ∧
      Redis.nowMs s.now ≤ config.expiry data.createdAt := by
  obtain ⟨expireAt, hkey, hlive, -⟩ := Redis.get_live hdata
  obtain rfl : expireAt = some (config.expiry data.createdAt) := (dated_of_reach h m _ hkey).2
  exact ⟨hkey, hlive _ rfl⟩

theorem record_some {data : LuaRecord R} {expireAt : Option Int}
    (hkey : s.keys (redisKey m) = some ⟨data, expireAt⟩)
    (hlive : ∀ t ∈ expireAt, Redis.nowMs s.now ≤ t) : s.record m = some data := by
  have hentry : (⟨data, expireAt⟩ : Keyspace.Entry (LuaRecord R) Int).Live (Redis.nowMs s.now) :=
    hlive
  simp [record, Keyspace.get, Keyspace.entryAt, hkey, Option.filter, hentry]

theorem record_created {s₁ : RedisHistory R} (hnew : s.record m = none)
    (hclaim : (redisSystem config codec).step s (.op (.claim m)) s₁) (hwon : s₁.record m ≠ none) :
    ∃ data, s₁.record m = some data ∧ data.createdAt = s.now := by
  obtain ⟨data, hdata⟩ := Option.ne_none_iff_exists'.mp hwon
  refine ⟨data, hdata, ?_⟩
  have hnow : s₁.now = s.now := by
    cases hclaim
    cases hrun : Redis.commandOn .exact config codec s.keys s.now (.claim m : RedisOp V) <;> rfl
  obtain ⟨-, htouched⟩ := touched_step (m := m) hclaim (by simp)
  obtain ⟨expireAt, hkey, hlive, hat⟩ := Redis.get_live hdata
  rw [hkey] at htouched
  rcases hold : s.keys (redisKey m) with _ | entry
  · rw [hold] at htouched
    cases htouched with
    | created hdead hcreated => exact hcreated
  · rw [hold] at htouched
    have hdead := Redis.not_live_of_get hnew hold
    cases htouched with
    | kept => exact absurd (hnow ▸ hlive) hdead
    | rewritten hlive' hstatus hcreated => exact absurd hlive' hdead
    | created hdead' hcreated => exact hcreated

/-- A record is there for `ttl_seconds` from its `created_at`. What is there later was created
later. -/
theorem record_window {data : LuaRecord R} (h : Reach (redisSystem config codec) s)
    (hdata : s.record m = some data)
    (hrun : Reach (((redisSystem config codec).startingAt s).guard (KeepsRecord m)) s') :
    ((∃ data', s'.record m = some data' ∧ data'.createdAt = data.createdAt) ↔
      Redis.nowMs s'.now ≤ config.expiry data.createdAt) ∧
    ∀ data', s'.record m = some data' → config.expiry data.createdAt < Redis.nowMs s'.now →
      config.expiry data.createdAt < Redis.nowMs data'.createdAt := by
  have hremembers : Redis.Remembers config data.createdAt s'.now (s'.keys (redisKey m)) :=
    keeps_of_reach (fun h hp hnow => h.remembers hp hnow)
      (.inl ⟨_, (record_inTime h hdata).1, rfl, rfl⟩) hrun
  have hinTime : ∀ data', s'.record m = some data' →
      s'.keys (redisKey m) = some ⟨data', some (config.expiry data'.createdAt)⟩ ∧
        Redis.nowMs s'.now ≤ config.expiry data'.createdAt :=
    fun _ => record_inTime (h.trans hrun.of_guard)
  refine ⟨⟨?_, ?_⟩, ?_⟩
  · rintro ⟨data', hdata', hsame⟩
    rw [← hsame]
    exact (hinTime data' hdata').2
  · intro hnow
    rcases hremembers with ⟨⟨data', expireAt⟩, hkey', hcreated, hexpire⟩ | ⟨hover, -⟩
    · obtain rfl : expireAt = some (config.expiry data.createdAt) := hexpire
      exact ⟨data', record_some hkey' (by simpa using hnow), hcreated⟩
    · omega
  · intro data' hdata' hover
    obtain ⟨hkey', hnow⟩ := hinTime data' hdata'
    have hnotSame : data'.createdAt ≠ data.createdAt := by
      intro hsame
      rw [hsame] at hnow
      omega
    rcases hremembers with ⟨entry, hentry, hcreated, -⟩ | ⟨-, hrest⟩
    · rw [hkey'] at hentry
      obtain rfl := Option.some.inj hentry
      exact absurd hcreated hnotSame
    · exact (hrest _ hkey').resolve_left hnotSame

theorem completed_window {data : LuaRecord R} (h : Reach (redisSystem config codec) s)
    (hdata : s.record m = some data) (hdone : data.status = .completed)
    (hrun : Reach (((redisSystem config codec).startingAt s).guard (KeepsRecord m)) s')
    (hnow : Redis.nowMs s'.now ≤ config.expiry data.createdAt) :
    s'.record m = some data ∧
      Redis.command config codec s'.keys s'.now (.claim m) = .ok (s'.keys, 0) := by
  have hretains : Redis.Retains config data s'.now (s'.keys (redisKey m)) :=
    keeps_of_reach (fun h hp hnow => h.retains hdone hp hnow) (.inl (record_inTime h hdata).1) hrun
  have hkey' := hretains.resolve_right (by omega)
  have hrecord : s'.record m = some data := record_some hkey' (by simpa using hnow)
  exact ⟨hrecord, Redis.claim_completed hrecord hdone⟩

end RedisHistory

/-- From the first claim of `m`, in each run in which nobody deletes `m`: its record is there for
`ttl_seconds` and no longer, whatever is claimed and marked; what is there after that was created
after it; and from the time at which it is COMPLETED up to then it refuses each claim. -/
theorem dedup_window {config : DeduplicationConfig} {codec : ResultCodec V R}
    {s s₁ s' : RedisHistory R} {m : String} (h : Reach (redisSystem config codec) s)
    (hnew : s.record m = none) (hclaim : (redisSystem config codec).step s (.op (.claim m)) s₁)
    (hwon : s₁.record m ≠ none)
    (hrun : Reach (((redisSystem config codec).startingAt s₁).guard
      (RedisHistory.KeepsRecord m)) s') :
    ((∃ data, s'.record m = some data ∧ data.createdAt = s.now) ↔
      Redis.nowMs s'.now ≤ config.expiry s.now) ∧
    (∀ data, s'.record m = some data → config.expiry s.now < Redis.nowMs s'.now →
      config.expiry s.now < Redis.nowMs data.createdAt) ∧
    ∀ data, s'.record m = some data → data.createdAt = s.now → data.status = .completed →
      ∀ s'', Reach (((redisSystem config codec).startingAt s').guard
        (RedisHistory.KeepsRecord m)) s'' → Redis.nowMs s''.now ≤ config.expiry s.now →
          s''.record m = some data ∧
            Redis.command config codec s''.keys s''.now (.claim m) = .ok (s''.keys, 0) := by
  obtain ⟨data, hdata, hcreated⟩ := RedisHistory.record_created hnew hclaim hwon
  have hreach : Reach (redisSystem config codec) s₁ := .step h hclaim
  have hwindow := RedisHistory.record_window hreach hdata hrun
  rw [hcreated] at hwindow
  refine ⟨hwindow.1, hwindow.2, ?_⟩
  intro data' hdata' hsame hdone s'' hrun' hnow
  rw [← hsame] at hnow
  exact RedisHistory.completed_window (hreach.trans hrun.of_guard) hdata' hdone hrun' hnow

/-- An order that fails once and is completed late in the life of its key. -/
def lateCompletion : List (RedisAction Unit) :=
  [.op (.markFailed "order-1" "timeout" 1), .tick 86000000000, .op (.claim "order-1"),
    .op (.markCompleted "order-1" none)]

/-- Its record is there up to 400 s after that. -/
theorem dedup_window_lateCompletion :
    ∃ (s : RedisHistory Unit) (data : LuaRecord Unit), s.record "order-1" = some data ∧
      data.status = .completed ∧
      ∀ t, s.now ≤ t →
        ((∃ data', (RedisHistory.mk s.keys t s.log).record "order-1" = some data' ∧
          data'.createdAt = 0) ↔ Redis.nowMs t ≤ 86400000) := by
  let start : RedisHistory Unit := ⟨fun _ => none, 0, []⟩
  let first : RedisHistory Unit :=
    start.ran (.claim "order-1" : RedisOp Unit)
      (Redis.command {} nullCodec start.keys start.now (.claim "order-1"))
  have hrun : ((replay (RedisHistory.exec .exact {} nullCodec) RedisHistory.deletesNothing first
      lateCompletion).bind fun s => (s.record "order-1").map (·.status)) = some .completed := by
    decide +kernel
  obtain ⟨s, hs, hrecord⟩ := Option.bind_eq_some_iff.mp hrun
  obtain ⟨data, hdata, hdone⟩ := Option.map_eq_some_iff.mp hrecord
  have hstart : Reach (((redisSystem {} nullCodec).startingAt first).guard
      (RedisHistory.KeepsRecord (V := Unit) "order-1")) first := .init rfl
  have hrun' := (reach_replay (fun _ => True) (fun s a s' _ hcheck _ => ⟨?_, trivial⟩) hstart
    trivial hs).1
  · refine ⟨s, data, hdata, hdone, fun t ht => ?_⟩
    have htick : (.tick t : RedisAction Unit) ≠ .op (.delete "order-1") := by simp
    have hlater : Reach (((redisSystem {} nullCodec).startingAt first).guard
        (RedisHistory.KeepsRecord "order-1")) { s with now := t } :=
      .step hrun' (a := .tick t) ⟨htick, if_pos ht⟩
    exact (dedup_window (.init ⟨rfl, rfl⟩) rfl rfl (by decide) hlater).1
  · rintro rfl
    simp [RedisHistory.deletesNothing] at hcheck

end MessageDedup
