import MessageDedup.Store.History

/-!
# How long a Redis claim stays exclusive

The first claim of a key sets its TTL, and a later claim keeps it. A claim that is made late in the
life of its key can lose the key before its lease is over.
-/

namespace MessageDedup

open Transition

variable {V R : Type} {config : DeduplicationConfig} {codec : ResultCodec V R}

/-- No claim wins during the lease of an earlier one, unless a `mark_failed` or a `delete` took
effect in between. The newest entry comes first. -/
def Exclusive (leaseMs : Int) (log : List (Int × RedisEvent)) : Prop :=
  ∀ m later between earlier t t',
    log = later ++ (t', .claimed m) :: (between ++ (t, .claimed m) :: earlier) →
    (∀ e ∈ between, e.2 ≠ .failed m ∧ e.2 ≠ .deleted m) → t + leaseMs ≤ t'

/-- A claim that wins a record which is there has its whole lease before the key expires. -/
def RedisHistory.KeepsLease (config : DeduplicationConfig) (s : RedisHistory R) :
    RedisAction V → Prop
  | .op (.claim m) => ∀ entry,
      Keyspace.entryAt s.keys (Redis.nowMs s.now) (redisKey m) = some entry →
      entry.value.Claimable .exact config (Redis.nowMs s.now) →
      ∀ expireAt ∈ entry.expireAt,
        Redis.nowMs s.now + config.processingTimeoutSeconds * 1000 ≤ expireAt + 1
  | _ => True

namespace Redis

/-- Before `limit` the key does not expire and no claim wins it. -/
def Protected (keys : RedisState R) (m : String) (limit : Int) : Prop :=
  ∃ entry, keys (redisKey m) = some entry ∧ (∀ expireAt ∈ entry.expireAt, limit ≤ expireAt + 1) ∧
    (entry.value.status = .completed ∨
      entry.value.status = .processing ∧ ∃ lease ∈ entry.value.leaseUntilMs, limit ≤ lease)

variable {keys keys' : RedisState R} {now n limit : Int} {op : RedisOp V} {m : String}

theorem Protected.entryAt (h : Protected keys m limit) (hnow : nowMs now < limit) :
    ∃ entry, Keyspace.entryAt keys (nowMs now) (redisKey m) = some entry ∧
      keys (redisKey m) = some entry := by
  obtain ⟨entry, hentry, hlive, -⟩ := h
  refine ⟨entry, ?_, hentry⟩
  unfold Keyspace.entryAt
  rw [hentry, Option.filter_eq_some_iff]
  refine ⟨rfl, decide_eq_true ?_⟩
  intro expireAt hexpire
  have hlimit := hlive expireAt hexpire
  omega

theorem Protected.refuses (h : Protected keys m limit) (hnow : nowMs now < limit)
    {data : LuaRecord R} (hget : Keyspace.get keys (nowMs now) (redisKey m) = some data) :
    ¬ data.Claimable .exact config (nowMs now) := by
  obtain ⟨entry, hat, hkey⟩ := h.entryAt hnow
  obtain ⟨entry', hentry', -, hstatus⟩ := h
  obtain rfl : entry = entry' := by
    rw [hkey] at hentry'
    exact Option.some.inj hentry'
  obtain rfl : entry.value = data := by
    unfold Keyspace.get at hget
    rw [hat] at hget
    exact Option.some.inj hget
  unfold LuaRecord.Claimable
  rcases hstatus with hcompleted | ⟨hprocessing, lease, hlease, hover⟩
  · simp [hcompleted]
  · rw [hprocessing]
    simp only [reduceCtorEq, false_and, true_and, false_or, not_exists, not_and]
    intro lease' hlease'
    rw [Option.mem_unique hlease' hlease]
    omega

theorem Protected.get (h : Protected keys m limit) (hnow : nowMs now < limit) :
    Keyspace.get keys (nowMs now) (redisKey m) ≠ none := by
  obtain ⟨entry, hat, -⟩ := h.entryAt hnow
  simp [Keyspace.get, hat]

theorem Ran.protected (hran : Ran .exact config keys now op keys' n) (h : Protected keys m limit)
    (hnow : nowMs now < limit) :
    (n = 1 ∧ (op.event = some (.failed m) ∨ op.event = some (.deleted m))) ∨
      Protected keys' m limit := by
  have hother : ∀ {k : RedisState R}, (k (redisKey m) = keys (redisKey m)) →
      Protected k m limit := by
    intro k hk
    obtain ⟨entry, hentry, hrest⟩ := h
    exact ⟨entry, hk.trans hentry, hrest⟩
  have hne : ∀ {m' : String}, m' ≠ m → ∀ entry,
      Function.update keys (redisKey m') entry (redisKey m) = keys (redisKey m) :=
    fun hne entry => Function.update_of_ne (redisKey_injective.ne hne.symm) _ _
  cases hran with
  | refused hget hnot => exact .inr h
  | unmarked hop hnot hn => exact .inr h
  | @first m' raw hget hraw httl =>
    -- A protected key is there, so no claim is its first one.
    rcases eq_or_ne m' m with rfl | hm
    · exact absurd hget (h.get hnow)
    · exact .inr (hother (hne hm _))
  | @reclaimed m' data raw hget hclaim hraw =>
    -- Under its lease the record is not claimable.
    rcases eq_or_ne m' m with rfl | hm
    · exact absurd hclaim (h.refuses hnow hget)
    · exact .inr (hother (hne hm _))
  | @completed m' value data raw result hget hstatus hraw =>
    rcases eq_or_ne m' m with rfl | hm
    · right
      obtain ⟨entry, hat, hkey⟩ := h.entryAt hnow
      obtain ⟨entry', hentry', hlive, -⟩ := h
      rw [hkey] at hentry'
      obtain rfl := Option.some.inj hentry'
      obtain rfl := LuaRecord.written_exact_iff.mp hraw
      refine ⟨_, Keyspace.set_self _ _ _ _, ?_, .inl rfl⟩
      rw [hat]
      exact hlive
    · exact .inr (hother (hne hm _))
  | @failed m' error attempts data raw hget hstatus hraw =>
    rcases eq_or_ne m' m with rfl | hm
    · exact .inl ⟨rfl, .inl rfl⟩
    · exact .inr (hother (hne hm _))
  | @deleted m' =>
    rcases eq_or_ne m' m with rfl | hm
    · left
      refine ⟨if_pos ?_, .inr rfl⟩
      exact Option.isSome_iff_ne_none.mpr (h.get hnow)
    · exact .inr (hother (hne hm _))

theorem Ran.won {m : String} (hran : Ran .exact config keys now (.claim m : RedisOp V) keys' 1)
    (httl : config.processingTimeoutSeconds < config.ttlSeconds)
    (hkeeps : ∀ entry, Keyspace.entryAt keys (nowMs now) (redisKey m) = some entry →
      entry.value.Claimable .exact config (nowMs now) → ∀ expireAt ∈ entry.expireAt,
        nowMs now + config.processingTimeoutSeconds * 1000 ≤ expireAt + 1) :
    Protected keys' m (nowMs now + config.processingTimeoutSeconds * 1000) := by
  cases hran with
  | unmarked hop hnot hn => simp at hn
  | first hget hraw hvalid =>
    obtain rfl := LuaRecord.written_exact_iff.mp hraw
    refine ⟨_, Keyspace.set_self _ _ _ _, ?_, .inr ⟨rfl, _, rfl, le_rfl⟩⟩
    have hms : ttlMs .exact config = config.ttlSeconds * 1000 := rfl
    simp only [Option.mem_def, Option.some.injEq, forall_eq']
    omega
  | @reclaimed m data raw hget hclaim hraw =>
    obtain ⟨entry, hat, rfl⟩ := Option.map_eq_some_iff.mp hget
    obtain rfl := LuaRecord.written_exact_iff.mp hraw
    refine ⟨_, Keyspace.set_self _ _ _ _, ?_, .inr ⟨rfl, _, rfl, le_rfl⟩⟩
    rw [hat]
    exact hkeeps entry hat hclaim

theorem Ran.not_won (hran : Ran .exact config keys now (.claim m : RedisOp V) keys' 1)
    (h : Protected keys m limit) : limit ≤ nowMs now := by
  by_contra hlt
  have hnow : nowMs now < limit := by omega
  cases hran with
  | unmarked hop hnot hn => simp at hn
  | first hget hraw hvalid => exact h.get hnow hget
  | reclaimed hget hclaim hraw => exact h.refuses hnow hget hclaim

end Redis

/-! ## Every run -/

theorem RedisOp.event_claimed {op : RedisOp V} {m : String} (h : op.event = some (.claimed m)) :
    op = .claim m := by
  cases op <;> simp_all [RedisOp.event]

theorem log_cons_cases {e c : Int × RedisEvent} {log between earlier : List (Int × RedisEvent)}
    (h : e :: log = between ++ c :: earlier) :
    (between = [] ∧ c = e ∧ log = earlier) ∨
      ∃ rest, between = e :: rest ∧ log = rest ++ c :: earlier := by
  cases between with
  | nil =>
    cases h
    exact .inl ⟨rfl, rfl, rfl⟩
  | cons x rest =>
    cases h
    exact .inr ⟨rest, rfl, rfl⟩

/-- Each win that no failure and no delete has ended is over, or is protected. -/
def RedisHistory.Held (leaseMs : Int) (s : RedisHistory R) : Prop :=
  ∀ m between earlier t, s.log = between ++ (t, .claimed m) :: earlier →
    (∀ e ∈ between, e.2 ≠ .failed m ∧ e.2 ≠ .deleted m) →
    t + leaseMs ≤ Redis.nowMs s.now ∨ Redis.Protected s.keys m (t + leaseMs)

theorem RedisHistory.Held.quiet {leaseMs : Int} {s : RedisHistory R} (h : s.Held leaseMs)
    {keys' : RedisState R} {n : Int} {op : RedisOp V}
    (hran : Redis.Ran .exact config s.keys s.now op keys' n) (hquiet : n ≠ 1 ∨ op.event = none) :
    ({ s with keys := keys' } : RedisHistory R).Held leaseMs := by
  intro m between earlier t hlog hbetween
  rcases h m between earlier t hlog hbetween with hover | hprotected
  · exact .inl hover
  · rcases lt_or_ge (Redis.nowMs s.now) (t + leaseMs) with hnow | hover
    · rcases hran.protected hprotected hnow with ⟨rfl, hevent⟩ | hkept
      · rcases hquiet with hne | hnone
        · exact absurd rfl hne
        · rw [hnone] at hevent
          simp at hevent
      · exact .inr hkept
    · exact .inl hover

theorem RedisHistory.Held.logged {s : RedisHistory R}
    (httl : config.processingTimeoutSeconds < config.ttlSeconds)
    (h : s.Held (config.processingTimeoutSeconds * 1000)) {keys' : RedisState R} {op : RedisOp V}
    {e : RedisEvent} (hkeeps : s.KeepsLease config (.op op))
    (hran : Redis.Ran .exact config s.keys s.now op keys' 1) (hevent : op.event = some e) :
    ({ s with keys := keys', log := (Redis.nowMs s.now, e) :: s.log } : RedisHistory R).Held
      (config.processingTimeoutSeconds * 1000) := by
  intro m between earlier t hlog hbetween
  rcases log_cons_cases hlog with ⟨rfl, hnew, -⟩ | ⟨rest, rfl, hold⟩
  · cases hnew
    obtain rfl := RedisOp.event_claimed hevent
    exact .inr (hran.won httl hkeeps)
  · rcases h m rest earlier t hold fun e he => hbetween e (List.mem_cons_of_mem _ he) with
      hover | hprotected
    · exact .inl hover
    · rcases lt_or_ge (Redis.nowMs s.now) (t + config.processingTimeoutSeconds * 1000) with
        hnow | hover
      · have hne := hbetween _ List.mem_cons_self
        rcases hran.protected hprotected hnow with ⟨-, hended⟩ | hkept
        · rw [hevent] at hended
          simp only [Option.some.injEq] at hended
          rcases hended with hfailed | hdeleted
          · exact absurd hfailed hne.1
          · exact absurd hdeleted hne.2
        · exact .inr hkept
      · exact .inl hover

theorem Exclusive.logged {s : RedisHistory R} {leaseMs : Int} (h : s.Held leaseMs)
    (hexclusive : Exclusive leaseMs s.log) {keys' : RedisState R} {op : RedisOp V} {e : RedisEvent}
    (hran : Redis.Ran .exact config s.keys s.now op keys' 1) (hevent : op.event = some e) :
    Exclusive leaseMs ((Redis.nowMs s.now, e) :: s.log) := by
  intro m later between earlier t t' hlog hbetween
  rcases log_cons_cases hlog with ⟨-, hnew, hold⟩ | ⟨rest, -, hold⟩
  · cases hnew
    obtain rfl := RedisOp.event_claimed hevent
    rcases h m between earlier t hold hbetween with hover | hprotected
    · exact hover
    · exact hran.not_won hprotected
  · exact hexclusive m rest between earlier t t' hold hbetween

theorem RedisHistory.Held.step {s s' : RedisHistory R} {a : RedisAction V}
    (httl : config.processingTimeoutSeconds < config.ttlSeconds)
    (h : s.Held (config.processingTimeoutSeconds * 1000))
    (hexclusive : Exclusive (config.processingTimeoutSeconds * 1000) s.log)
    (hkeeps : s.KeepsLease config a) (hstep : (redisSystem config codec).step s a s') :
    s'.Held (config.processingTimeoutSeconds * 1000) ∧
      Exclusive (config.processingTimeoutSeconds * 1000) s'.log := by
  cases a with
  | tick t =>
    obtain ⟨hle, heq⟩ := Option.ite_none_right_eq_some.mp hstep
    cases heq
    refine ⟨?_, hexclusive⟩
    intro m between earlier t' hlog hbetween
    refine (h m between earlier t' hlog hbetween).imp_left fun hover => ?_
    exact hover.trans (Redis.nowMs_mono hle)
  | op op =>
    cases hstep
    cases hrun : Redis.commandOn .exact config codec s.keys s.now op with
    | error e => exact ⟨h, hexclusive⟩
    | ok r =>
      obtain ⟨keys', n⟩ := r
      have hran := Redis.command_ran hrun
      rcases eq_or_ne n 1 with rfl | hn
      · cases hevent : op.event with
        | none =>
          simp only [RedisHistory.ran, if_true, hevent]
          exact ⟨h.quiet hran (.inr hevent), hexclusive⟩
        | some e =>
          simp only [RedisHistory.ran, if_true, hevent]
          exact ⟨h.logged httl hkeeps hran hevent, hexclusive.logged h hran hevent⟩
      · simp only [RedisHistory.ran, if_neg hn]
        exact ⟨h.quiet hran (.inl hn), hexclusive⟩

/-- With enough of the key's life left at each claim, the leases of a message do not overlap. -/
theorem lease_exclusive {config : DeduplicationConfig} {codec : ResultCodec V R}
    {s : RedisHistory R} (httl : config.processingTimeoutSeconds < config.ttlSeconds)
    (h : Reach ((redisSystem config codec).guard fun s a => s.KeepsLease config a) s) :
    Exclusive (config.processingTimeoutSeconds * 1000) s.log := by
  have hboth : s.Held (config.processingTimeoutSeconds * 1000) ∧
      Exclusive (config.processingTimeoutSeconds * 1000) s.log := by
    refine h.invariant (fun s => s.Held (config.processingTimeoutSeconds * 1000) ∧
      Exclusive (config.processingTimeoutSeconds * 1000) s.log) ?_ ?_
    · rintro s ⟨-, hlog⟩
      rw [RedisHistory.Held, hlog]
      constructor
      · intro m between earlier t hnil
        simp at hnil
      · intro m later between earlier t t' hnil
        simp at hnil
    · exact fun s a s' _ hinv hstep => hinv.1.step httl hinv.2 hstep.1 hstep.2
  exact hboth.2

/-! ## Runs at the end of a key's life -/

/-- `KeepsLease`, whether or not the claim wins. -/
def RedisHistory.keepsLease (config : DeduplicationConfig) (s : RedisHistory R) :
    RedisAction V → Bool
  | .op (.claim m) =>
    ((Keyspace.entryAt s.keys (Redis.nowMs s.now) (redisKey m)).bind (·.expireAt)).all
      fun expireAt =>
        decide (Redis.nowMs s.now + config.processingTimeoutSeconds * 1000 ≤ expireAt + 1)
  | _ => true

theorem keepsLease_of_check {s : RedisHistory R} {a : RedisAction V}
    (h : s.keepsLease config a = true) : s.KeepsLease config a := by
  unfold RedisHistory.keepsLease at h
  unfold RedisHistory.KeepsLease
  split at h
  · intro entry hentry _ expireAt hexpire
    rw [hentry, Option.bind_some, hexpire] at h
    simpa using h
  · trivial

def newKeyspace : RedisHistory Unit := ⟨fun _ => none, 0, []⟩

/-- The default lease is 300 s and the default TTL 86400 s. The second claim takes an orphan over
50 s before the key expires. -/
def lateTakeover : List (RedisAction Unit) :=
  [.op (.claim "order-1"), .tick 86350000000, .op (.claim "order-1"), .tick 86401000000,
    .op (.claim "order-1")]

theorem lease_overlaps :
    ¬ ∀ s, Reach (redisSystem {} nullCodec) s →
      Exclusive (({} : DeduplicationConfig).processingTimeoutSeconds * 1000) s.log := by
  intro h
  have hrun : (replay (RedisHistory.exec .exact {} nullCodec) (fun _ _ => true) newKeyspace
      lateTakeover).map (·.log) = some [(86401000, .claimed "order-1"),
        (86350000, .claimed "order-1"), (0, .claimed "order-1")] := by
    decide +kernel
  obtain ⟨s, hs, hlog⟩ := Option.map_eq_some_iff.mp hrun
  have hstart : Reach ((redisSystem {} nullCodec).guard fun _ _ => True) newKeyspace :=
    .init ⟨rfl, rfl⟩
  have hreach := (reach_replay (fun _ => True) (fun _ _ _ _ _ _ => ⟨trivial, trivial⟩) hstart
    trivial hs).1.of_guard
  have hover :=
    h s hreach "order-1" [] [] [(0, .claimed "order-1")] 86350000 86401000 hlog (by simp)
  simp at hover

def earlyTakeover : List (RedisAction Unit) :=
  [.op (.claim "order-1"), .tick 301000000, .op (.claim "order-1"), .tick 302000000,
    .op (.claim "order-1")]

theorem lease_exclusive_earlyTakeover : ∃ s,
    Reach (redisSystem {} nullCodec) s ∧
    s.log = [(301000, .claimed "order-1"), (0, .claimed "order-1")] ∧
    Exclusive (({} : DeduplicationConfig).processingTimeoutSeconds * 1000) s.log := by
  have hrun : (replay (RedisHistory.exec .exact {} nullCodec) (RedisHistory.keepsLease {})
      newKeyspace earlyTakeover).map (·.log) =
        some [(301000, .claimed "order-1"), (0, .claimed "order-1")] := by
    decide +kernel
  obtain ⟨s, hs, hlog⟩ := Option.map_eq_some_iff.mp hrun
  have hstart : Reach ((redisSystem {} nullCodec).guard fun s a => s.KeepsLease {} a) newKeyspace :=
    .init ⟨rfl, rfl⟩
  have hreach := (reach_replay (fun _ => True)
    (fun _ _ _ _ hpass _ => ⟨keepsLease_of_check hpass, trivial⟩) hstart trivial hs).1
  exact ⟨s, hreach.of_guard, hlog, lease_exclusive (by decide) hreach⟩

end MessageDedup
