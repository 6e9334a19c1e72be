import MessageDedup.Store.Spec
import MessageDedup.Store.Numbers
import MessageDedup.Lib.Keyspace

/-!
# redis_store.py

The scripts take the numbers that they compute with as a parameter. `redisStore` has exact ones:
what its counters do is proved without a bound on them. `Numbers.doubles` are those of Lua, and they
come to the same below 10^14.
-/

namespace MessageDedup

open Keyspace (Keys)

variable {V R : Type}

/-- The Lua table that the scripts read and write under a key. -/
structure LuaRecord (R : Type) where
  messageId : String
  status : StatusValue
  attempts : Int
  result : Option R := none
  error : Option String := none
  leaseUntilMs : Option Int := none
  createdAt : Int
  updatedAt : Int
  deriving DecidableEq

def LuaRecord.cell {R : Type} (data : LuaRecord R) : Cell :=
  ⟨data.status, data.attempts, data.leaseUntilMs.map (· * 1000)⟩

/-- The record as `cjson` writes it. -/
def LuaRecord.written {R : Type} (numbers : Numbers) (data : LuaRecord R) :
    Except Exc (LuaRecord R) := do
  let attempts ← numbers.written data.attempts
  let leaseUntilMs ← data.leaseUntilMs.mapM numbers.written
  return { data with attempts := attempts, leaseUntilMs := leaseUntilMs }

@[simp] theorem LuaRecord.written_exact {R : Type} (data : LuaRecord R) :
    data.written .exact = .ok data := by
  cases data with
  | mk messageId status attempts result error leaseUntilMs createdAt updatedAt =>
    cases leaseUntilMs <;> rfl

theorem LuaRecord.written_iff {R : Type} {numbers : Numbers} {data raw : LuaRecord R} :
    data.written numbers = .ok raw ↔ numbers.written data.attempts = .ok raw.attempts ∧
      data.leaseUntilMs.mapM numbers.written = .ok raw.leaseUntilMs ∧
      raw = { data with attempts := raw.attempts, leaseUntilMs := raw.leaseUntilMs } := by
  unfold written
  cases hattempts : numbers.written data.attempts with
  | error exc => simp [bind, Except.bind]
  | ok attempts =>
    cases hlease : data.leaseUntilMs.mapM numbers.written with
    | error exc => simp [bind, Except.bind]
    | ok lease =>
      simp only [bind, Except.bind, pure, Except.pure, Except.ok.injEq]
      constructor
      · rintro rfl
        exact ⟨rfl, rfl, rfl⟩
      · rintro ⟨rfl, rfl, heq⟩
        exact heq.symm

theorem LuaRecord.written_of {R : Type} {numbers : Numbers} {data : LuaRecord R}
    {attempts lease lease' : Int} (hattempts : numbers.written data.attempts = .ok attempts)
    (hsome : data.leaseUntilMs = some lease) (hlease : numbers.written lease = .ok lease') :
    data.written numbers =
      .ok { data with attempts := attempts, leaseUntilMs := some lease' } := by
  refine written_iff.mpr ⟨hattempts, ?_, rfl⟩
  rw [hsome, Option.mapM_some, hlease]
  rfl

theorem LuaRecord.written_status {R : Type} {numbers : Numbers} {data raw : LuaRecord R}
    (h : data.written numbers = .ok raw) : raw.status = data.status := by
  rw [(written_iff.mp h).2.2]

theorem LuaRecord.written_exact_iff {R : Type} {data raw : LuaRecord R} :
    data.written .exact = .ok raw ↔ data = raw := by
  rw [written_exact, Except.ok.injEq]

namespace LuaRecord

variable {R : Type}

/-- The record of a first claim. -/
def first (m : String) (now leaseUntil : Int) : LuaRecord R where
  messageId := m
  status := .processing
  attempts := 1
  createdAt := now
  updatedAt := now
  leaseUntilMs := some leaseUntil

def reclaimed (data : LuaRecord R) (now leaseUntil : Int) : LuaRecord R :=
  { data with
    status := .processing
    attempts := data.attempts + 1
    error := none
    updatedAt := now
    leaseUntilMs := some leaseUntil }

def marked (data : LuaRecord R) (status : StatusValue) (now : Int) (result : Option R)
    (error : Option String) (attempts : Int) : LuaRecord R :=
  { data with
    status := status
    updatedAt := now
    result := result
    error := error
    attempts := attempts
    leaseUntilMs := none }

/-- A FAILED record with retries left, or a PROCESSING one whose lease is over at `nowMs`. -/
def Claimable (numbers : Numbers) (config : DeduplicationConfig) (nowMs : Int)
    (data : LuaRecord R) : Prop :=
  (data.status = .failed ∧ config.retryFailed = true ∧
      data.attempts < numbers.tonumber config.maxRetries) ∨
    (data.status = .processing ∧ ∃ lease ∈ data.leaseUntilMs, lease ≤ nowMs)

instance (numbers : Numbers) (config : DeduplicationConfig) (nowMs : Int) (data : LuaRecord R) :
    Decidable (data.Claimable numbers config nowMs) :=
  inferInstanceAs (Decidable (_ ∨ _))

end LuaRecord

abbrev RedisState (R : Type) := Keys String (LuaRecord R) Int

/-- How a result reaches the record and comes back: `json.dumps`, then the script's `cjson` (which
decodes the text and encodes it again with the record), then the `json.loads` of `get_status`. -/
structure ResultCodec (V R : Type) where
  dumps : V → Except Exc String
  cjson : String → Except Exc R
  loads : R → Option V

/-- A codec of results that all read `null`. -/
def nullCodec : ResultCodec Unit Unit := ⟨fun _ => .ok "null", fun _ => .ok (), some⟩

def redisKey (messageId : String) : String := "dedup:" ++ messageId

theorem redisKey_injective : Function.Injective redisKey :=
  fun _ _ h => (String.append_right_inj "dedup:").mp h

namespace Redis

/-- `TIME`: seconds, and the microseconds within the second. -/
def time (now : Int) : Int × Int := (now / 1000000, now % 1000000)

def nowMs (now : Int) : Int := (time now).1 * 1000 + (time now).2 / 1000

theorem nowMs_eq (now : Int) : nowMs now = now / 1000 := by
  simp only [nowMs, time]
  omega

theorem nowMs_mono {now t : Int} (h : now ≤ t) : nowMs now ≤ nowMs t := by
  rw [nowMs_eq, nowMs_eq]
  omega

/-! ## The scripts -/

def invalidExpire : Exc := ⟨.exception "ResponseError", "invalid expire time in SET command"⟩

def luaClaim (numbers : Numbers) (keys : RedisState R) (now : Int) (key messageId : String)
    (ttlMs leaseMs maxRetries : Int) (retryFailed : Bool) (nowIso : Int) :
    Except Exc (RedisState R × Int) :=
  let ttlMs := numbers.tonumber ttlMs
  let leaseMs := numbers.tonumber leaseMs
  let maxRetries := numbers.tonumber maxRetries
  let nowMs := nowMs now
  match Keyspace.get keys nowMs key with
  | none => do
    let rec' : LuaRecord R := {
      messageId := messageId
      status := .processing
      attempts := 1
      createdAt := nowIso
      updatedAt := nowIso
      leaseUntilMs := some (nowMs + leaseMs) }
    let raw ← rec'.written numbers
    if numbers.expires nowMs ttlMs then
      return (Keyspace.set keys key raw (some (nowMs + ttlMs)), 1)
    else throw invalidExpire
  | some rec' =>
    let retryable := rec'.status = .failed ∧ retryFailed = true ∧ rec'.attempts < maxRetries
    let orphaned := rec'.status = .processing ∧ ∃ lease ∈ rec'.leaseUntilMs, lease ≤ nowMs
    if retryable ∨ orphaned then do
      let raw ← LuaRecord.written numbers { rec' with
        status := .processing
        attempts := rec'.attempts + 1
        error := none
        updatedAt := nowIso
        leaseUntilMs := some (nowMs + leaseMs) }
      return (Keyspace.setKeepTtl keys nowMs key raw, 1)
    else return (keys, 0)

def luaResult (codec : ResultCodec V R) (resultJson : String) (old : Option R) :
    Except Exc (Option R) :=
  if resultJson ≠ "" then some <$> codec.cjson resultJson else .ok old

/-- `ARGV[3]` and `ARGV[4]` are `""` where there is no result or error, `ARGV[5]` is `none` where
it is `''`. -/
def luaUpdateStatus (numbers : Numbers) (codec : ResultCodec V R) (keys : RedisState R)
    (now : Int) (key : String) (status : StatusValue) (nowIso : Int) (resultJson error : String)
    (attempts : Option Int) : Except Exc (RedisState R × Int) :=
  match Keyspace.get keys (nowMs now) key with
  | none => return (keys, -1)
  | some rec' =>
    if rec'.status ≠ .processing then return (keys, 0)
    else do
      let result ← luaResult codec resultJson rec'.result
      let raw ← LuaRecord.written numbers { rec' with
        status := status
        updatedAt := nowIso
        result := result
        error := if error ≠ "" then some error else rec'.error
        attempts := (attempts.map numbers.tonumber).getD rec'.attempts
        leaseUntilMs := none }
      return (Keyspace.setKeepTtl keys (nowMs now) key raw, 1)

/-! ## The store -/

def evalClaim (numbers : Numbers) (config : DeduplicationConfig) (keys : RedisState R) (now : Int)
    (messageId : String) : Except Exc (RedisState R × Int) :=
  luaClaim numbers keys now (redisKey messageId) messageId (config.ttlSeconds * 1000)
    (config.processingTimeoutSeconds * 1000) config.maxRetries config.retryFailed now

def claim (numbers : Numbers) (config : DeduplicationConfig) (keys : RedisState R) (now : Int)
    (messageId : String) : Except Exc (RedisState R × Bool) := do
  let (keys, claimed) ← evalClaim numbers config keys now messageId
  return (keys, claimed ≠ 0)

def isDuplicate (keys : RedisState R) (now : Int) (messageId : String) : Bool :=
  (Keyspace.get keys (nowMs now) (redisKey messageId)).isSome

def resultJson (codec : ResultCodec V R) : Option V → Except Exc String
  | some value => codec.dumps value
  | none => .ok ""

def markCompleted (numbers : Numbers) (codec : ResultCodec V R) (keys : RedisState R) (now : Int)
    (messageId : String) (result : Option V) : Except Exc (RedisState R) := do
  let json ← resultJson codec result
  let (keys, _) ← luaUpdateStatus numbers codec keys now (redisKey messageId) .completed now json ""
    none
  return keys

def markFailed (numbers : Numbers) (codec : ResultCodec V R) (keys : RedisState R) (now : Int)
    (messageId error : String) (attempts : Int) : Except Exc (RedisState R) := do
  let (keys, _) ← luaUpdateStatus numbers codec keys now (redisKey messageId) .failed now "" error
    (some attempts)
  return keys

/-- For a record that `Readable` allows: any other makes `get_status` raise. -/
def getStatus (codec : ResultCodec V R) (keys : RedisState R) (now : Int) (messageId : String) :
    Option (ProcessingStatus V) :=
  (Keyspace.get keys (nowMs now) (redisKey messageId)).map fun data => {
    messageId := data.messageId
    status := data.status
    attempts := data.attempts
    result := data.result.bind codec.loads
    error := data.error
    leaseExpiresAt := data.leaseUntilMs.map (· * 1000)
    createdAt := data.createdAt
    updatedAt := data.updatedAt }

/-- The record makes a `ProcessingStatus`: its lease is a `datetime`, and its count has 64 bits when
it comes as a float. -/
def Readable (data : LuaRecord R) : Prop :=
  (∀ lease ∈ data.leaseUntilMs, isDatetime (lease * 1000)) ∧
    (10 ^ 14 ≤ data.attempts.natAbs → data.attempts.natAbs < 2 ^ 63)

instance (data : LuaRecord R) : Decidable (Readable data) :=
  inferInstanceAs (Decidable (_ ∧ _))

def delete (keys : RedisState R) (messageId : String) : RedisState R :=
  Keyspace.del keys (redisKey messageId)

end Redis

def redisStoreOn (numbers : Numbers) (config : DeduplicationConfig) (codec : ResultCodec V R) :
    DeduplicationStore (RedisState R) V where
  claim := Redis.claim numbers config
  isDuplicate := Redis.isDuplicate
  markCompleted := Redis.markCompleted numbers codec
  markFailed := Redis.markFailed numbers codec
  getStatus := Redis.getStatus codec
  delete := Redis.delete

def redisStore (config : DeduplicationConfig) (codec : ResultCodec V R) :
    DeduplicationStore (RedisState R) V :=
  redisStoreOn .exact config codec

namespace Redis

variable {numbers : Numbers} {config : DeduplicationConfig} {codec : ResultCodec V R}
  {keys keys' : RedisState R} {now : Int} {m : String}

/-! ## What the scripts do to one record -/

/-- Until which millisecond a claim holds, as it is computed. -/
def leaseMs (numbers : Numbers) (config : DeduplicationConfig) (now : Int) : Int :=
  nowMs now + numbers.tonumber (config.processingTimeoutSeconds * 1000)

def ttlMs (numbers : Numbers) (config : DeduplicationConfig) : Int :=
  numbers.tonumber (config.ttlSeconds * 1000)

def leaseUntil (config : DeduplicationConfig) (now : Int) : Int :=
  (nowMs now + config.processingTimeoutSeconds * 1000) * 1000

theorem cellOn_eq (t : Int) : (redisStoreOn numbers config codec).cell keys t m =
    (Keyspace.get keys (nowMs t) (redisKey m)).map LuaRecord.cell := by
  simp only [DeduplicationStore.cell, redisStoreOn, getStatus, Option.map_map]
  rfl

theorem cell_eq (t : Int) : (redisStore config codec).cell keys t m =
    (Keyspace.get keys (nowMs t) (redisKey m)).map LuaRecord.cell := cellOn_eq t

theorem lease_le_iff (lease : Int) : lease ≤ nowMs now ↔ lease * 1000 ≤ now := by
  rw [nowMs_eq]
  omega

theorem bind_ok {α β : Type} {x : Except Exc α} {f : α → Except Exc β} {b : β}
    (h : (x >>= f) = .ok b) : ∃ a, x = .ok a ∧ f a = .ok b := by
  cases x with
  | error e => cases h
  | ok a => exact ⟨a, rfl, h⟩

theorem claimable_iff (data : LuaRecord R) : data.Claimable .exact config (nowMs now) ↔
    Cell.Claimable config now (some data.cell) := by
  simp only [LuaRecord.Claimable, Cell.Claimable, Cell.Retryable, Cell.Orphaned, LuaRecord.cell,
    lease_le_iff, Option.mem_def, Option.map_eq_some_iff, exists_exists_and_eq_and]
  rfl

theorem evalClaim_none (h : Keyspace.get keys (nowMs now) (redisKey m) = none) :
    evalClaim numbers config keys now m =
      ((LuaRecord.first m now (leaseMs numbers config now)).written numbers).bind fun raw =>
        if numbers.expires (nowMs now) (ttlMs numbers config) then
          .ok (Keyspace.set keys (redisKey m) raw (some (nowMs now + ttlMs numbers config)), 1)
        else .error invalidExpire := by
  unfold evalClaim luaClaim
  simp only [h]
  rfl

theorem evalClaim_some {data : LuaRecord R}
    (h : Keyspace.get keys (nowMs now) (redisKey m) = some data) :
    evalClaim numbers config keys now m =
      if data.Claimable numbers config (nowMs now) then
        ((data.reclaimed now (leaseMs numbers config now)).written numbers).map fun raw =>
          (Keyspace.setKeepTtl keys (nowMs now) (redisKey m) raw, 1)
      else .ok (keys, 0) := by
  unfold evalClaim luaClaim
  simp only [h]
  change (if data.Claimable numbers config (nowMs now) then _ else _) = _
  congr 1

theorem evalClaim_ok {n : Int} (h : evalClaim numbers config keys now m = .ok (keys', n)) :
    (∃ raw, Keyspace.get keys (nowMs now) (redisKey m) = none ∧
      (LuaRecord.first m now (leaseMs numbers config now)).written numbers = .ok raw ∧
      numbers.expires (nowMs now) (ttlMs numbers config) = true ∧
      keys' = Keyspace.set keys (redisKey m) raw (some (nowMs now + ttlMs numbers config)) ∧
      n = 1) ∨
    ∃ data, Keyspace.get keys (nowMs now) (redisKey m) = some data ∧
      ((∃ raw, data.Claimable numbers config (nowMs now) ∧
        (data.reclaimed now (leaseMs numbers config now)).written numbers = .ok raw ∧
        keys' = Keyspace.setKeepTtl keys (nowMs now) (redisKey m) raw ∧ n = 1) ∨
      ¬ data.Claimable numbers config (nowMs now) ∧ keys' = keys ∧ n = 0) := by
  cases hget : Keyspace.get keys (nowMs now) (redisKey m) with
  | none =>
    rw [evalClaim_none hget] at h
    obtain ⟨raw, hraw, h⟩ := bind_ok h
    split at h
    · rename_i hvalid
      cases h
      exact .inl ⟨raw, rfl, hraw, hvalid, rfl, rfl⟩
    · cases h
  | some data =>
    -- A key that exists is written back with KEEPTTL, or left.
    refine .inr ⟨data, rfl, ?_⟩
    rw [evalClaim_some hget] at h
    split at h
    · rename_i hclaim
      cases hraw : (data.reclaimed now (leaseMs numbers config now)).written numbers with
      | error exc =>
        rw [hraw] at h
        cases h
      | ok raw =>
        rw [hraw] at h
        cases h
        exact .inl ⟨raw, hclaim, rfl, rfl, rfl⟩
    · rename_i hnot
      cases h
      exact .inr ⟨hnot, rfl, rfl⟩

theorem claim_eq : claim numbers config keys now m =
    (evalClaim numbers config keys now m).map fun r => (r.1, decide (r.2 ≠ 0)) := by
  unfold claim
  cases evalClaim numbers config keys now m <;> rfl

theorem evalClaim_of_claim {b : Bool} (h : claim numbers config keys now m = .ok (keys', b)) :
    ∃ n, evalClaim numbers config keys now m = .ok (keys', n) ∧ b = decide (n ≠ 0) := by
  unfold claim at h
  obtain ⟨⟨keys1, n⟩, heval, h⟩ := bind_ok h
  cases h
  exact ⟨n, heval, rfl⟩

theorem claim_raises :
    (∃ exc, claim .exact config keys now m = .error exc) ↔
      ¬ ValidExpire (nowMs now) (ttlMs .exact config) ∧
        (redisStore config codec).cell keys now m = none := by
  rw [cell_eq, Option.map_eq_none_iff, claim_eq]
  cases hget : Keyspace.get keys (nowMs now) (redisKey m) with
  | none =>
    rw [evalClaim_none hget, LuaRecord.written_exact]
    simp only [Except.bind]
    split <;> simp_all [Except.map]
  | some data =>
    rw [evalClaim_some hget, LuaRecord.written_exact]
    split <;> simp [Except.map]

theorem get_first {raw : LuaRecord R} {ttl : Int} (h : ValidExpire (nowMs now) ttl) :
    Keyspace.get (Keyspace.set keys (redisKey m) raw (some (nowMs now + ttl))) (nowMs now)
      (redisKey m) = some raw := by
  apply Keyspace.get_set_self
  rintro t ⟨⟩
  exact Int.le_add_of_nonneg_right h.1.le

theorem claim_ok {b : Bool} (h : claim .exact config keys now m = .ok (keys', b)) :
    b = decide (Cell.Claimable config now
        ((Keyspace.get keys (nowMs now) (redisKey m)).map LuaRecord.cell)) ∧
      (Keyspace.get keys' (nowMs now) (redisKey m)).map LuaRecord.cell =
        if b then some (Cell.claimed (leaseUntil config now)
          ((Keyspace.get keys (nowMs now) (redisKey m)).map LuaRecord.cell))
        else (Keyspace.get keys (nowMs now) (redisKey m)).map LuaRecord.cell := by
  obtain ⟨n, heval, rfl⟩ := evalClaim_of_claim h
  rcases evalClaim_ok heval with ⟨raw, hget, hraw, hvalid, rfl, rfl⟩ |
    ⟨data, hget, ⟨raw, hclaim, hraw, rfl, rfl⟩ | ⟨hnot, rfl, rfl⟩⟩
  · rw [LuaRecord.written_exact] at hraw
    cases hraw
    rw [hget, get_first (of_decide_eq_true hvalid)]
    exact ⟨rfl, rfl⟩
  · rw [LuaRecord.written_exact] at hraw
    cases hraw
    rw [hget, Keyspace.get_setKeepTtl_self, Option.map_some, decide_eq_true
      ((claimable_iff data).mp hclaim)]
    exact ⟨rfl, rfl⟩
  · rw [hget, Option.map_some, decide_eq_false (mt (claimable_iff data).mpr hnot)]
    exact ⟨rfl, rfl⟩

theorem claim_onKey : Keyspace.OnKey (redisKey m) fun keys : RedisState R =>
    claim numbers config keys now m where
  frame := by
    intro keys keys' b h k hk
    obtain ⟨n, heval, -⟩ := evalClaim_of_claim h
    rcases evalClaim_ok heval with
      ⟨raw, -, -, -, rfl, -⟩ | ⟨data, -, ⟨raw, -, -, rfl, -⟩ | ⟨-, rfl, -⟩⟩
    · exact Function.update_of_ne hk _ _
    · exact Function.update_of_ne hk _ _
    · rfl
  congr := by
    intro keys keys' heq
    have hget := Keyspace.get_congr heq (nowMs now)
    simp only [claim_eq]
    cases hg : Keyspace.get keys (nowMs now) (redisKey m) with
    | none =>
      rw [evalClaim_none hg, evalClaim_none (hget ▸ hg)]
      cases (LuaRecord.first m now (leaseMs numbers config now) : LuaRecord R).written numbers with
      | error exc => rfl
      | ok raw =>
        simp only [Except.bind]
        split
        · simp only [Except.map, Keyspace.set_self]
        · rfl
    | some data =>
      rw [evalClaim_some hg, evalClaim_some (hget ▸ hg)]
      split
      · cases (data.reclaimed now (leaseMs numbers config now)).written numbers with
        | error exc => rfl
        | ok raw => simp only [Except.map, Keyspace.setKeepTtl_congr heq]
      · simp only [Except.map, heq]

theorem luaUpdateStatus_ok {key : String} {status : StatusValue} {nowIso n : Int}
    {resultJson error : String} {attempts : Option Int}
    (h : luaUpdateStatus numbers codec keys now key status nowIso resultJson error attempts =
      .ok (keys', n)) :
    (keys' = keys ∧ (∀ data, Keyspace.get keys (nowMs now) key = some data →
        data.status ≠ .processing) ∧ (n = 0 ∨ n = -1)) ∨
      ∃ data result raw, Keyspace.get keys (nowMs now) key = some data ∧
        data.status = .processing ∧ luaResult codec resultJson data.result = .ok result ∧
        (data.marked status nowIso result (if error ≠ "" then some error else data.error)
          ((attempts.map numbers.tonumber).getD data.attempts)).written numbers = .ok raw ∧
        keys' = Keyspace.setKeepTtl keys (nowMs now) key raw ∧ n = 1 := by
  unfold luaUpdateStatus at h
  cases hget : Keyspace.get keys (nowMs now) key with
  | none =>
    simp only [hget] at h
    cases h
    exact .inl ⟨rfl, by simp, .inr rfl⟩
  | some data =>
    simp only [hget] at h
    split at h
    · rename_i hne
      cases h
      exact .inl ⟨rfl, by simpa using hne, .inl rfl⟩
    · rename_i hprocessing
      obtain ⟨result, hresult, h⟩ := bind_ok h
      obtain ⟨raw, hraw, h⟩ := bind_ok h
      cases h
      exact .inr ⟨data, result, raw, rfl, not_not.mp hprocessing, hresult, hraw, rfl, rfl⟩

theorem luaUpdateStatus_onKey {key : String} {status : StatusValue} {nowIso : Int}
    {resultJson error : String} {attempts : Option Int} :
    Keyspace.OnKey key fun keys : RedisState R =>
      luaUpdateStatus numbers codec keys now key status nowIso resultJson error attempts where
  frame := by
    intro keys keys' n h k hk
    rcases luaUpdateStatus_ok h with ⟨rfl, -⟩ | ⟨data, result, raw, -, -, -, -, rfl, -⟩
    · rfl
    · exact Function.update_of_ne hk _ _
  congr := by
    intro keys keys' heq
    unfold luaUpdateStatus
    rw [Keyspace.get_congr heq (nowMs now)]
    cases hg : Keyspace.get keys' (nowMs now) key with
    | none => simp only [pure, Except.pure, Except.map, heq]
    | some data =>
      simp only
      split
      · simp only [pure, Except.pure, Except.map, heq]
      · cases luaResult codec resultJson data.result with
        | error e => rfl
        | ok result =>
          simp only [bind, Except.bind]
          split
          · rfl
          · simp only [pure, Except.pure, Except.map, Keyspace.setKeepTtl_congr heq]

theorem markCompleted_onKey {r : Option V} : Keyspace.OnKey (redisKey m) fun keys : RedisState R =>
    (·, ()) <$> markCompleted numbers codec keys now m r := by
  have heq : (fun keys : RedisState R => (·, ()) <$> markCompleted numbers codec keys now m r) =
      fun keys => (resultJson codec r).bind fun json =>
        (luaUpdateStatus numbers codec keys now (redisKey m) .completed now json "" none).map
          fun u => (u.1, ()) := by
    funext keys
    unfold markCompleted
    cases resultJson codec r with
    | error e => rfl
    | ok json =>
      simp only [bind, Except.bind]
      cases luaUpdateStatus numbers codec keys now (redisKey m) .completed now json "" none <;> rfl
  rw [heq]
  exact .bindConst fun json => luaUpdateStatus_onKey.map fun _ => ()

theorem markFailed_onKey {e : String} {a : Int} :
    Keyspace.OnKey (redisKey m) fun keys : RedisState R =>
      (·, ()) <$> markFailed numbers codec keys now m e a := by
  have heq : (fun keys : RedisState R => (·, ()) <$> markFailed numbers codec keys now m e a) =
      fun keys =>
        (luaUpdateStatus numbers codec keys now (redisKey m) .failed now "" e (some a)).map
          fun u => (u.1, ()) := by
    funext keys
    unfold markFailed
    cases luaUpdateStatus numbers codec keys now (redisKey m) .failed now "" e (some a) <;> rfl
  rw [heq]
  exact luaUpdateStatus_onKey.map fun _ => ()

theorem getStatus_onKey : Keyspace.OnKey (redisKey m) fun keys : RedisState R =>
    (.ok (keys, getStatus codec keys now m) : Except Exc _) where
  frame := by
    intro keys keys' a h k hk
    rw [← (Prod.mk.inj (Except.ok.inj h)).1]
  congr := by
    intro keys keys' heq
    simp only [Except.map, getStatus, Keyspace.get_congr heq, heq]

theorem markCompleted_ok {r : Option V} (h : markCompleted numbers codec keys now m r = .ok keys') :
    ∃ json n, luaUpdateStatus numbers codec keys now (redisKey m) .completed now json "" none =
      .ok (keys', n) := by
  unfold markCompleted at h
  obtain ⟨json, -, h⟩ := bind_ok h
  obtain ⟨⟨keys1, n⟩, hu, h⟩ := bind_ok h
  obtain rfl : keys1 = keys' := Except.ok.inj h
  exact ⟨json, n, hu⟩

theorem markFailed_ok {e : String} {a : Int}
    (h : markFailed numbers codec keys now m e a = .ok keys') :
    ∃ n, luaUpdateStatus numbers codec keys now (redisKey m) .failed now "" e (some a) =
      .ok (keys', n) := by
  unfold markFailed at h
  obtain ⟨⟨keys1, n⟩, hu, h⟩ := bind_ok h
  obtain rfl : keys1 = keys' := Except.ok.inj h
  exact ⟨n, hu⟩

theorem markCompleted_spec {r : Option V}
    (h : markCompleted .exact codec keys now m r = .ok keys') :
    (Keyspace.get keys' (nowMs now) (redisKey m)).map LuaRecord.cell =
      ((Keyspace.get keys (nowMs now) (redisKey m)).map LuaRecord.cell).map Cell.completed := by
  obtain ⟨json, n, hu⟩ := markCompleted_ok h
  rcases luaUpdateStatus_ok hu with
    ⟨rfl, hne, -⟩ | ⟨data, result, raw, hg, hp, -, hraw, rfl, -⟩
  · cases hg : Keyspace.get keys' (nowMs now) (redisKey m) with
    | none => rfl
    | some data =>
      simp only [Option.map_some, Option.some.injEq]
      exact (Cell.completed_of_ne (hne data hg)).symm
  · rw [LuaRecord.written_exact] at hraw
    cases hraw
    rw [Keyspace.get_setKeepTtl_self, hg]
    simp [Cell.completed, LuaRecord.cell, LuaRecord.marked, hp]

theorem markFailed_spec {e : String} {a : Int}
    (h : markFailed .exact codec keys now m e a = .ok keys') :
    (Keyspace.get keys' (nowMs now) (redisKey m)).map LuaRecord.cell =
      ((Keyspace.get keys (nowMs now) (redisKey m)).map LuaRecord.cell).map
        (Cell.markedFailed true a) := by
  obtain ⟨n, hu⟩ := markFailed_ok h
  rcases luaUpdateStatus_ok hu with
    ⟨rfl, hne, -⟩ | ⟨data, result, raw, hg, hp, -, hraw, rfl, -⟩
  · cases hg : Keyspace.get keys' (nowMs now) (redisKey m) with
    | none => rfl
    | some data =>
      simp only [Option.map_some, Option.some.injEq]
      exact (Cell.markedFailed_of_ne (hne data hg)).symm
  · rw [LuaRecord.written_exact] at hraw
    cases hraw
    rw [Keyspace.get_setKeepTtl_self, hg]
    simp [Cell.markedFailed, LuaRecord.cell, LuaRecord.marked, hp, Numbers.exact]

end Redis

/-- The Redis store is lawful, and both of its marks are guarded. -/
theorem redisStore_lawful (config : DeduplicationConfig) (codec : ResultCodec V R) :
    (redisStore config codec).Lawful config true (Redis.leaseUntil config) where
  claim := by
    intro s s' now m b h
    rw [Redis.cell_eq, Redis.cell_eq]
    exact Redis.claim_ok h
  claim_frame := by
    intro s s' now m b h t m' hne
    rw [Redis.cell_eq, Redis.cell_eq, Keyspace.get_congr
      (Redis.claim_onKey.frame h _ (redisKey_injective.ne hne))]
  markCompleted := by
    intro s s' now m r h
    rw [Redis.cell_eq, Redis.cell_eq]
    exact Redis.markCompleted_spec h
  markCompleted_frame := by
    intro s s' now m r h t m' hne
    obtain ⟨json, n, hu⟩ := Redis.markCompleted_ok h
    rw [Redis.cell_eq, Redis.cell_eq, Keyspace.get_congr
      (Redis.luaUpdateStatus_onKey.frame hu _ (redisKey_injective.ne hne))]
  markFailed := by
    intro s s' now m e a h
    rw [Redis.cell_eq, Redis.cell_eq]
    exact Redis.markFailed_spec h
  markFailed_frame := by
    intro s s' now m e a h t m' hne
    obtain ⟨n, hu⟩ := Redis.markFailed_ok h
    rw [Redis.cell_eq, Redis.cell_eq, Keyspace.get_congr
      (Redis.luaUpdateStatus_onKey.frame hu _ (redisKey_injective.ne hne))]
  expires := by
    intro s now t m h
    rw [Redis.cell_eq, Redis.cell_eq]
    rcases Keyspace.get_later s (redisKey m) (Redis.nowMs_mono h) with h | h
    · exact .inl (by rw [h])
    · exact .inr (by rw [h]; rfl)

end MessageDedup
