import MessageDedup.Store.Backend

/-!
# The in-memory store beside the Redis store

One sequence of calls on both, with the numbers of Lua on Redis: what is compared, when two records
of a message are the same, and what a claim makes of them.
-/

namespace MessageDedup

variable {V R σ : Type}

/-! ## Calls on a store -/

inductive StoreOp (V : Type) where
  | claim (messageId : String)
  | isDuplicate (messageId : String)
  | markCompleted (messageId : String) (result : Option V)
  | markFailed (messageId error : String) (attempts : Int)
  | getStatus (messageId : String)
  | delete (messageId : String)

namespace DeduplicationStore

/-- The state after a call, and the boolean that `claim` and `is_duplicate` answer. -/
def call (store : DeduplicationStore σ V) (s : σ) (now : Int) :
    StoreOp V → Except Exc (σ × Option Bool)
  | .claim m => (store.claim s now m).map fun r => (r.1, some r.2)
  | .isDuplicate m => .ok (s, some (store.isDuplicate s now m))
  | .markCompleted m result => (store.markCompleted s now m result).map (·, none)
  | .markFailed m error attempts => (store.markFailed s now m error attempts).map (·, none)
  | .getStatus _ => .ok (s, none)
  | .delete m => .ok (store.delete s m, none)

/-- A call that raised has changed nothing. -/
def after (store : DeduplicationStore σ V) (s : σ) (now : Int) (op : StoreOp V) : σ :=
  match store.call s now op with
  | .ok r => r.1
  | .error _ => s

def answer (store : DeduplicationStore σ V) (s : σ) (now : Int) (op : StoreOp V) :
    Except Exc (Option Bool) :=
  (store.call s now op).map (·.2)

end DeduplicationStore

/-! ## What `get_status` reports -/

/-- The stores are compared by presence, status and attempts. -/
def InMemory.visible (store : MemoryState V) (m : String) : Option (StatusValue × Int) :=
  (store m).map fun record => (record.status, record.attempts)

/-- `none` where `get_status` raises. -/
def Redis.visible (keys : RedisState R) (now : Int) (m : String) :
    Option (Option (StatusValue × Int)) :=
  match Keyspace.get keys (nowMs now) (redisKey m) with
  | none => some none
  | some data => if Readable data then some (some (data.status, data.attempts)) else none

/-! ## Both stores side by side -/

section

variable (config : DeduplicationConfig) (codec : ResultCodec V R)

/-- `json.dumps` and the script take the result. -/
def Recordable : StoreOp V → Prop
  | .markCompleted _ (some value) =>
    ∃ json result, codec.dumps value = .ok json ∧ codec.cjson json = .ok result
  | _ => True

/-- A count that comes back from Redis as it was. -/
def Keeps (n : Int) : Prop := Representable n ∧ n.natAbs < 2 ^ 63

variable [RedisServer]

/-- After every call the answers and the visible records are the same. -/
def Agreeing : List (Int × StoreOp V) → MemoryState V → RedisState R → Prop
  | [], _, _ => True
  | (now, op) :: rest, store, keys =>
    let memory := inMemoryStore V config
    let redis := redisStoreOn .doubles config codec
    memory.answer store now op = redis.answer keys now op ∧
      (∀ m, some (InMemory.visible (memory.after store now op) m) =
        Redis.visible (redis.after keys now op) now m) ∧
      Agreeing rest (memory.after store now op) (redis.after keys now op)

/-- Clock readings in whole milliseconds, up to the year 5138, results that Redis can record, and no
key that expires between two calls. `last` is the reading of the last call. -/
def Admissible : (last : Int) → List (Int × StoreOp V) → RedisState R → Prop
  | _, [], _ => True
  | last, (now, op) :: rest, keys =>
    (now % 1000 = 0 ∧ 0 ≤ now ∧ now < 10 ^ 17) ∧ Recordable codec op ∧
      (∀ m, Keyspace.get keys (Redis.nowMs now) (redisKey m) =
        Keyspace.get keys (Redis.nowMs last) (redisKey m)) ∧
      Admissible now rest ((redisStoreOn .doubles config codec).after keys now op)

/-- The lease of a claim made at `now` comes back from Redis as a `datetime`. -/
def LeaseKept (now : Int) : Prop :=
  ∃ lease, Numbers.doubles.written (Redis.leaseMs .doubles config now) = .ok lease ∧
    isDatetime (lease * 1000)

/-- What a call must find for the stores to stay together. -/
def Spared (keys : RedisState R) (now : Int) : StoreOp V → Prop
  | .claim m => InMemory.TakesLease config now ∧
    match Keyspace.get keys (Redis.nowMs now) (redisKey m) with
    | none =>
      Numbers.doubles.expires (Redis.nowMs now) (Redis.ttlMs .doubles config) = true ∧
        LeaseKept config now
    | some data =>
      (data.status = .failed → config.retryFailed = true →
        (data.attempts < config.maxRetries ↔ data.attempts < double config.maxRetries)) ∧
      (data.Claimable .exact config (Redis.nowMs now) →
        Keeps (data.attempts + 1) ∧ LeaseKept config now)
  | .markFailed m _ attempts => ∀ data,
      Keyspace.get keys (Redis.nowMs now) (redisKey m) = some data →
      data.status = .processing ∧ Keeps attempts ∨
        data.status = .failed ∧ data.attempts = attempts
  | _ => True

def AllSpared : List (Int × StoreOp V) → RedisState R → Prop
  | [], _ => True
  | (now, op) :: rest, keys =>
    Spared config keys now op ∧
      AllSpared rest ((redisStoreOn .doubles config codec).after keys now op)

end

/-! ## Two records of one message -/

/-- Both leases are the same, or both end after the year 5138. -/
def SameLease (lease lease' : Option Int) : Prop :=
  lease = lease' ∨ ∃ t ∈ lease, ∃ t' ∈ lease', 10 ^ 17 ≤ t ∧ 10 ^ 17 ≤ t'

/-- The record in memory and the one on Redis. -/
structure Same (record : ProcessingStatus V) (data : LuaRecord R) : Prop where
  status : record.status = data.status
  attempts : record.attempts = data.attempts
  keeps : Keeps data.attempts
  lease : SameLease record.leaseExpiresAt (data.leaseUntilMs.map (· * 1000))
  datetime : ∀ lease ∈ data.leaseUntilMs, isDatetime (lease * 1000)
  idle : data.status ≠ .processing → record.leaseExpiresAt = none ∧ data.leaseUntilMs = none

/-- Each message has no record in both stores, or the same one. -/
def SameRecords (store : MemoryState V) (keys : RedisState R) (now : Int) : Prop :=
  ∀ m, Option.Rel Same (store m) (Keyspace.get keys (Redis.nowMs now) (redisKey m))

variable {config : DeduplicationConfig} {codec : ResultCodec V R} {store store' : MemoryState V}
  {keys keys' : RedisState R} {now : Int} {m : String} {claimed : Bool}
  {record : ProcessingStatus V} {data : LuaRecord R}

theorem keeps_of_lt {n : Int} (h : n.natAbs < 10 ^ 14) : Keeps n :=
  ⟨representable_of_lt h, h.trans (by decide)⟩

theorem keeps_one : Keeps 1 := keeps_of_lt (by decide)

theorem Same.readable (h : Same record data) : Redis.Readable data :=
  ⟨h.datetime, fun _ => h.keeps.2⟩

theorem SameRecords.visible (h : SameRecords store keys now) (m : String) :
    some (InMemory.visible store m) = Redis.visible keys now m := by
  have hm := h m
  unfold InMemory.visible Redis.visible
  cases hstore : store m with
  | none =>
    rw [hstore] at hm
    cases hget : Keyspace.get keys (Redis.nowMs now) (redisKey m) with
    | none => rfl
    | some data =>
      rw [hget] at hm
      cases hm
  | some record =>
    rw [hstore] at hm
    cases hget : Keyspace.get keys (Redis.nowMs now) (redisKey m) with
    | none =>
      rw [hget] at hm
      cases hm
    | some data =>
      rw [hget] at hm
      cases hm with
      | some hsame =>
        simp only [if_pos hsame.readable, Option.map_some, hsame.status, hsame.attempts]

theorem SameRecords.of_none (h : SameRecords store keys now)
    (hget : Keyspace.get keys (Redis.nowMs now) (redisKey m) = none) : store m = none := by
  have hm := h m
  rw [hget] at hm
  cases hstore : store m with
  | none => rfl
  | some record =>
    rw [hstore] at hm
    cases hm

theorem SameRecords.of_some (h : SameRecords store keys now)
    (hget : Keyspace.get keys (Redis.nowMs now) (redisKey m) = some data) :
    ∃ record, store m = some record ∧ Same record data := by
  have hm := h m
  rw [hget] at hm
  cases hstore : store m with
  | none =>
    rw [hstore] at hm
    cases hm
  | some record =>
    rw [hstore] at hm
    cases hm with
    | some hsame => exact ⟨record, rfl, hsame⟩

theorem SameRecords.update (h : SameRecords store keys now)
    (hstore : ∀ m', m' ≠ m → store' m' = store m')
    (hkeys : ∀ key, key ≠ redisKey m → keys' key = keys key)
    (hm : Option.Rel Same (store' m) (Keyspace.get keys' (Redis.nowMs now) (redisKey m))) :
    SameRecords store' keys' now := by
  intro m'
  rcases eq_or_ne m' m with rfl | hne
  · exact hm
  · rw [hstore m' hne, Keyspace.get_congr (hkeys _ (redisKey_injective.ne hne))]
    exact h m'

theorem SameRecords.later {last : Int} (h : SameRecords store keys last)
    (hkept : ∀ m, Keyspace.get keys (Redis.nowMs now) (redisKey m) =
      Keyspace.get keys (Redis.nowMs last) (redisKey m)) : SameRecords store keys now := by
  intro m
  rw [hkept m]
  exact h m

/-! ## Claims -/

/-- Until the year 5138 the two leases are over at the same time. -/
theorem SameLease.over_iff {lease : Option Int} {leaseMs : Option Int}
    (h : SameLease lease (leaseMs.map (· * 1000))) (hnow : now < 10 ^ 17) :
    (∃ t ∈ lease, t ≤ now) ↔ ∃ t ∈ leaseMs, t ≤ Redis.nowMs now := by
  rcases h with rfl | ⟨t, ht, t', ht', hlate, hlate'⟩
  · simp only [Redis.lease_le_iff, Option.mem_def, Option.map_eq_some_iff,
      exists_exists_and_eq_and]
  · obtain ⟨ms, hms, rfl⟩ := Option.map_eq_some_iff.mp ht'
    constructor
    · rintro ⟨s, hs, hle⟩
      rw [Option.mem_unique hs ht] at hle
      omega
    · rintro ⟨s, hs, hle⟩
      rw [Option.mem_unique hs hms, Redis.lease_le_iff] at hle
      omega

theorem Same.claimable_iff (h : Same record data) (hnow : now < 10 ^ 17) :
    Cell.Claimable config now (some record.cell) ↔
      data.Claimable .exact config (Redis.nowMs now) := by
  have hover := h.lease.over_iff hnow
  simp only [Cell.Claimable, Cell.Retryable, Cell.Orphaned, ProcessingStatus.cell,
    LuaRecord.Claimable, h.status, h.attempts, hover]
  rfl

theorem InMemory.claim_error {exc : Exc} (h : InMemory.claim config store now m = .error exc) :
    exc.kind = .exception "OverflowError" := by
  unfold InMemory.claim at h
  cases hlease : addSeconds now config.processingTimeoutSeconds with
  | error exc' =>
    rw [hlease] at h
    cases h
    unfold addSeconds at hlease
    dsimp only at hlease
    split at hlease
    · cases hlease
      rfl
    · split at hlease <;> cases hlease
      rfl
  | ok lease =>
    obtain ⟨exc', hraised⟩ : ∃ exc, InMemory.claim config store now m = .error exc := ⟨exc, h⟩
    exact absurd (InMemory.takesLease_of_ok hlease) (InMemory.claim_raises.mp ⟨exc, h⟩)

theorem Redis.visible_some {raw : LuaRecord R} {seen : StatusValue × Int}
    (hget : Keyspace.get keys (nowMs now) (redisKey m) = some raw)
    (h : some (some seen) = visible keys now m) : Readable raw ∧ raw.attempts = seen.2 := by
  unfold visible at h
  rw [hget] at h
  dsimp only at h
  split at h
  · rename_i hreadable
    cases h
    exact ⟨hreadable, rfl⟩
  · cases h

variable [RedisServer]

theorem Keeps.written {n : Int} (h : Keeps n) : Numbers.doubles.written n = .ok n :=
  Numbers.written_iff.mpr h.1

theorem keeps_of_readable {n : Int} {data : LuaRecord R}
    (hwritten : Numbers.doubles.written n = .ok data.attempts) (hcount : data.attempts = n)
    (hreadable : Redis.Readable data) : Keeps n := by
  rw [hcount] at hwritten
  refine ⟨Numbers.written_iff.mp hwritten, ?_⟩
  have h64 := hreadable.2
  rw [hcount] at h64
  omega

theorem claimable_doubles_iff
    (h : data.status = .failed → config.retryFailed = true →
      (data.attempts < config.maxRetries ↔ data.attempts < double config.maxRetries)) :
    data.Claimable .doubles config (Redis.nowMs now) ↔
      data.Claimable .exact config (Redis.nowMs now) := by
  unfold LuaRecord.Claimable
  apply or_congr_left
  apply and_congr_right
  intro hfailed
  apply and_congr_right
  intro hretry
  exact (h hfailed hretry).symm

theorem leaseMs_eq (hms : now % 1000 = 0) (hlow : 0 ≤ now) (hhigh : now < 10 ^ 17)
    (hlease : InMemory.TakesLease config now) :
    Redis.leaseMs .doubles config now * 1000 = InMemory.leaseUntil config now ∧
      isDatetime (InMemory.leaseUntil config now) := by
  obtain ⟨hdatetime, -⟩ := addSeconds_ok hlease
  refine ⟨?_, hdatetime⟩
  unfold InMemory.leaseUntil isDatetime at *
  have hdouble : Numbers.doubles.tonumber (config.processingTimeoutSeconds * 1000) =
      config.processingTimeoutSeconds * 1000 := by
    have hfits : (config.processingTimeoutSeconds * 1000).natAbs < 2 ^ 53 := by
      omega
    exact (Rounding.fits_of_lt hfits).roundInt (by decide) (by decide)
  unfold Redis.leaseMs
  rw [hdouble, Redis.nowMs_eq]
  omega

theorem same_lease (hms : now % 1000 = 0) (hlow : 0 ≤ now) (hhigh : now < 10 ^ 17)
    (hlease : InMemory.TakesLease config now) {lease : Int}
    (hwritten : Numbers.doubles.written (Redis.leaseMs .doubles config now) = .ok lease) :
    SameLease (some (InMemory.leaseUntil config now)) ((some lease).map (· * 1000)) := by
  obtain ⟨heq, hdatetime⟩ := leaseMs_eq hms hlow hhigh hlease
  unfold isDatetime at hdatetime
  rcases Nat.lt_or_ge (Redis.leaseMs .doubles config now).natAbs (10 ^ 14) with hsmall | hlarge
  · rw [Numbers.written_of_lt hsmall] at hwritten
    cases hwritten
    exact .inl (congrArg some heq.symm)
  · -- The written lease may be off, but not by so much that it ends sooner.
    have hle : 10 ^ 14 ≤ lease := by
      have hfits : Rounding.Fits 10 14 ((10 : Int) ^ 14).natAbs :=
        Rounding.fits_pow (by decide) (by decide) 14
      have hfits' : Rounding.Fits 2 53 ((10 : Int) ^ 14).natAbs :=
        Rounding.fits_of_lt (by decide)
      exact Numbers.le_written hfits hfits' (by omega) hwritten
    have hlate : 10 ^ 17 ≤ lease * 1000 := by
      omega
    exact .inr ⟨_, rfl, _, rfl, by omega, hlate⟩

theorem first_written {lease : Int} (m : String) (now : Int)
    (h : Numbers.doubles.written (Redis.leaseMs .doubles config now) = .ok lease) :
    (LuaRecord.first m now (Redis.leaseMs .doubles config now) : LuaRecord R).written .doubles =
      .ok (.first m now lease) :=
  LuaRecord.written_of keeps_one.written rfl h

theorem reclaimed_written {lease : Int} (now : Int) (hkeeps : Keeps (data.attempts + 1))
    (h : Numbers.doubles.written (Redis.leaseMs .doubles config now) = .ok lease) :
    (data.reclaimed now (Redis.leaseMs .doubles config now)).written .doubles =
      .ok (data.reclaimed now lease) :=
  LuaRecord.written_of hkeeps.written rfl h

/-- Both stores answer `op` alike, and their records stay the same. -/
def SameCall (config : DeduplicationConfig) (codec : ResultCodec V R) (store : MemoryState V)
    (keys : RedisState R) (now : Int) (op : StoreOp V) : Prop :=
  (inMemoryStore V config).answer store now op =
      (redisStoreOn .doubles config codec).answer keys now op ∧
    SameRecords ((inMemoryStore V config).after store now op)
      ((redisStoreOn .doubles config codec).after keys now op) now

theorem SameCall.claim
    (hstore : InMemory.claim config store now m = .ok (store', claimed))
    (hkeys : Redis.evalClaim .doubles config keys now m = .ok (keys', if claimed then 1 else 0))
    (hsame : SameRecords store' keys' now) :
    SameCall config codec store keys now (.claim m) := by
  have hstore' : (inMemoryStore V config).claim store now m = .ok (store', claimed) := hstore
  have hkeys' : (redisStoreOn .doubles config codec).claim keys now m = .ok (keys', claimed) := by
    refine Redis.claim_eq.trans ?_
    rw [hkeys]
    cases claimed <;> rfl
  simp only [SameCall, DeduplicationStore.answer, DeduplicationStore.after, DeduplicationStore.call,
    hstore', hkeys', Except.map]
  exact ⟨trivial, hsame⟩

theorem SameRecords.claim (h : SameRecords store keys now) (hms : now % 1000 = 0) (hlow : 0 ≤ now)
    (hhigh : now < 10 ^ 17) (hspared : Spared config keys now (.claim m : StoreOp V)) :
    SameCall config codec store keys now (.claim m) := by
  obtain ⟨hlease, hspared⟩ := hspared
  cases hget : Keyspace.get keys (Redis.nowMs now) (redisKey m) with
  | none =>
    -- A first claim: both stores write the record.
    rw [hget] at hspared
    obtain ⟨hvalid, lease, hwritten, hdatetime⟩ := hspared
    have hredis : Redis.evalClaim .doubles config keys now m = _ := Redis.evalClaim_none hget
    rw [first_written m now hwritten] at hredis
    refine SameCall.claim (InMemory.claim_none hlease (h.of_none hget))
      (hredis.trans (if_pos hvalid)) (h.update (fun m' hne => Function.update_of_ne hne _ _)
        (fun key hne => Function.update_of_ne hne _ _) ?_)
    rw [Function.update_self, Redis.get_first (RedisServer.valid hvalid)]
    exact .some {
      status := rfl
      attempts := rfl
      keeps := keeps_one
      lease := same_lease hms hlow hhigh hlease hwritten
      datetime := by
        rintro _ ⟨⟩
        exact hdatetime
      idle := fun hne => absurd rfl hne }
  | some data =>
    rw [hget] at hspared
    obtain ⟨hlimit, hkeeps⟩ := hspared
    obtain ⟨record, hstore, hsame⟩ := h.of_some hget
    have hmemory : InMemory.claim config store now m = _ := InMemory.claim_some hlease hstore
    have hredis : Redis.evalClaim .doubles config keys now m = _ := Redis.evalClaim_some hget
    -- Both stores come to the same verdict on the record that is there.
    by_cases hclaim : data.Claimable .exact config (Redis.nowMs now)
    · obtain ⟨hcount, lease, hwritten, hdatetime⟩ := hkeeps hclaim
      rw [if_pos ((hsame.claimable_iff hhigh).mpr hclaim)] at hmemory
      rw [if_pos ((claimable_doubles_iff hlimit).mpr hclaim),
        reclaimed_written now hcount hwritten] at hredis
      refine SameCall.claim hmemory hredis (h.update
        (fun m' hne => Function.update_of_ne hne _ _)
        (fun key hne => Function.update_of_ne hne _ _) ?_)
      rw [Function.update_self, Keyspace.get_setKeepTtl_self]
      exact .some {
        status := rfl
        attempts := congrArg (· + 1) hsame.attempts
        keeps := hcount
        lease := same_lease hms hlow hhigh hlease hwritten
        datetime := by
          rintro _ ⟨⟩
          exact hdatetime
        idle := fun hne => absurd rfl hne }
    · rw [if_neg (mt (hsame.claimable_iff hhigh).mp hclaim)] at hmemory
      rw [if_neg (mt (claimable_doubles_iff hlimit).mp hclaim)] at hredis
      exact SameCall.claim hmemory hredis h

/-! ### What a claim that went alike has found -/

theorem LuaRecord.written_error {exc : Exc} (h : data.written .doubles = .error exc) :
    exc = invalidNumber := by
  have hwritten : ∀ n, Numbers.doubles.written n = .error exc → exc = invalidNumber := by
    intro n hn
    unfold Numbers.doubles at hn
    dsimp only at hn
    split at hn <;> cases hn
    rfl
  unfold LuaRecord.written at h
  cases hattempts : Numbers.doubles.written data.attempts with
  | error exc' =>
    rw [hattempts] at h
    cases h
    exact hwritten _ hattempts
  | ok attempts =>
    rw [hattempts] at h
    cases hms : data.leaseUntilMs with
    | none =>
      rw [hms] at h
      cases h
    | some lease =>
      rw [hms, Option.mapM_some] at h
      cases hlease : Numbers.doubles.written lease with
      | error exc' =>
        rw [hlease] at h
        cases h
        exact hwritten _ hlease
      | ok lease' =>
        rw [hlease] at h
        cases h

theorem Redis.claim_error {exc : Exc} (h : Redis.claim .doubles config keys now m = .error exc) :
    exc.kind = .exception "ResponseError" := by
  rw [Redis.claim_eq] at h
  cases hget : Keyspace.get keys (Redis.nowMs now) (redisKey m) with
  | none =>
    rw [Redis.evalClaim_none hget] at h
    cases hraw : (LuaRecord.first m now (Redis.leaseMs .doubles config now) : LuaRecord R).written
      .doubles with
    | error exc' =>
      rw [hraw] at h
      cases h
      rw [LuaRecord.written_error hraw]
      rfl
    | ok raw =>
      rw [hraw] at h
      simp only [Except.bind] at h
      split at h <;> cases h
      rfl
  | some data =>
    rw [Redis.evalClaim_some hget] at h
    split at h
    · cases hraw : (data.reclaimed now (Redis.leaseMs .doubles config now)).written .doubles with
      | error exc' =>
        rw [hraw] at h
        cases h
        rw [LuaRecord.written_error hraw]
        rfl
      | ok raw =>
        rw [hraw] at h
        cases h
    · cases h

theorem claims_return (hanswer : (inMemoryStore V config).answer store now (.claim m) =
      (redisStoreOn .doubles config codec).answer keys now (.claim m)) :
    ∃ store' keys' claimed, InMemory.claim config store now m = .ok (store', claimed) ∧
      Redis.claim .doubles config keys now m = .ok (keys', claimed) := by
  change ((InMemory.claim config store now m).map _).map _ =
    ((Redis.claim .doubles config keys now m).map _).map _ at hanswer
  cases hmemory : InMemory.claim config store now m with
  | error exc =>
    cases hredis : Redis.claim .doubles config keys now m with
    | error exc' =>
      rw [hmemory, hredis] at hanswer
      obtain rfl : exc = exc' := Except.error.inj hanswer
      have hkinds := (InMemory.claim_error hmemory).symm.trans (Redis.claim_error hredis)
      exact absurd hkinds (by decide)
    | ok r =>
      rw [hmemory, hredis] at hanswer
      cases hanswer
  | ok r =>
    obtain ⟨store', claimed⟩ := r
    cases hredis : Redis.claim .doubles config keys now m with
    | error exc' =>
      rw [hmemory, hredis] at hanswer
      cases hanswer
    | ok r' =>
      obtain ⟨keys', claimed'⟩ := r'
      rw [hmemory, hredis] at hanswer
      obtain rfl : claimed = claimed' := Option.some.inj (Except.ok.inj hanswer)
      exact ⟨store', keys', claimed, rfl, rfl⟩

theorem leaseKept_of_readable {raw : LuaRecord R}
    (hlease : (some (Redis.leaseMs .doubles config now)).mapM Numbers.doubles.written =
      .ok raw.leaseUntilMs) (hreadable : Redis.Readable raw) : LeaseKept config now := by
  rw [Option.mapM_some] at hlease
  cases hwritten : Numbers.doubles.written (Redis.leaseMs .doubles config now) with
  | error exc =>
    rw [hwritten] at hlease
    cases hlease
  | ok lease =>
    rw [hwritten] at hlease
    exact ⟨lease, hwritten, hreadable.1 lease (Except.ok.inj hlease).symm⟩

theorem SameRecords.spared_claim (h : SameRecords store keys now) (hhigh : now < 10 ^ 17)
    (hmemory : InMemory.claim config store now m = .ok (store', claimed))
    (hredis : Redis.claim .doubles config keys now m = .ok (keys', claimed))
    (hvisible : some (InMemory.visible store' m) = Redis.visible keys' now m) :
    Spared config keys now (.claim m : StoreOp V) := by
  have hlease : InMemory.TakesLease config now := InMemory.takesLease_of_claim hmemory
  refine ⟨hlease, ?_⟩
  obtain ⟨n, heval, hclaimed⟩ := Redis.evalClaim_of_claim hredis
  -- What the script did decides what has to be spared.
  rcases Redis.evalClaim_ok heval with ⟨raw, hget, hraw, hvalid, rfl, rfl⟩ |
    ⟨data, hget, ⟨raw, hclaim, hraw, rfl, rfl⟩ | ⟨hnot, rfl, rfl⟩⟩
  · rw [hget]
    rw [InMemory.claim_none hlease (h.of_none hget)] at hmemory
    cases hmemory
    unfold InMemory.visible at hvisible
    rw [Function.update_self] at hvisible
    obtain ⟨hreadable, -⟩ :=
      Redis.visible_some (Redis.get_first (RedisServer.valid hvalid)) hvisible
    exact ⟨hvalid, leaseKept_of_readable (LuaRecord.written_iff.mp hraw).2.1 hreadable⟩
  · obtain ⟨record, hstore, hsame⟩ := h.of_some hget
    rw [InMemory.claim_some hlease hstore] at hmemory
    obtain rfl : claimed = true := hclaimed
    split at hmemory
    · rename_i hclaim'
      cases hmemory
      rw [hsame.claimable_iff hhigh] at hclaim'
      unfold InMemory.visible at hvisible
      rw [Function.update_self] at hvisible
      obtain ⟨hreadable, hcount⟩ :=
        Redis.visible_some (Keyspace.get_setKeepTtl_self _ _ _ _) hvisible
      obtain ⟨hattempts, hms, -⟩ := LuaRecord.written_iff.mp hraw
      rw [hget]
      refine ⟨fun hfailed _ => ?_, fun _ => ⟨?_, leaseKept_of_readable hms hreadable⟩⟩
      · simp only [LuaRecord.Claimable, hfailed, true_and, reduceCtorEq, false_and, or_false]
          at hclaim hclaim'
        exact iff_of_true hclaim'.2 hclaim.2
      · rw [← hsame.attempts]
        exact keeps_of_readable (hsame.attempts ▸ hattempts) hcount hreadable
    · cases hmemory
  · obtain ⟨record, hstore, hsame⟩ := h.of_some hget
    rw [InMemory.claim_some hlease hstore] at hmemory
    obtain rfl : claimed = false := hclaimed
    split at hmemory
    · cases hmemory
    · rename_i hnot'
      rw [hsame.claimable_iff hhigh] at hnot'
      rw [hget]
      refine ⟨fun hfailed hretry => ?_, fun hclaim => absurd hclaim hnot'⟩
      simp only [LuaRecord.Claimable, hfailed, hretry, true_and, reduceCtorEq, false_and, or_false]
        at hnot hnot'
      exact iff_of_false hnot' hnot

end MessageDedup
