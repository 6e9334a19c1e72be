import MessageDedup.Lib.Transition
import MessageDedup.Store.Redis

/-!
# Runs of the Redis store

Any callers run the operations on one keyspace, at Redis times that do not decrease, and keys expire
as the time goes by.
-/

namespace MessageDedup

open Transition

variable {V R : Type}

/-! ## The operations as commands -/

inductive RedisOp (V : Type) where
  | claim (messageId : String)
  | markCompleted (messageId : String) (result : Option V)
  | markFailed (messageId error : String) (attempts : Int)
  | delete (messageId : String)

def RedisOp.messageId : RedisOp V → String
  | claim m => m
  | markCompleted m _ => m
  | markFailed m _ _ => m
  | delete m => m

namespace Redis

/-- What Redis runs for an operation, with the number it returns. The only write of a script is its
last call, so a script that raises has written nothing. -/
def commandOn (numbers : Numbers) (config : DeduplicationConfig) (codec : ResultCodec V R)
    (keys : RedisState R) (now : Int) : RedisOp V → Except Exc (RedisState R × Int)
  | .claim m => evalClaim numbers config keys now m
  | .markCompleted m result => do
    let json ← resultJson codec result
    luaUpdateStatus numbers codec keys now (redisKey m) .completed now json "" none
  | .markFailed m error attempts =>
    luaUpdateStatus numbers codec keys now (redisKey m) .failed now "" error (some attempts)
  | .delete m => .ok (delete keys m, if isDuplicate keys now m then 1 else 0)

def command (config : DeduplicationConfig) (codec : ResultCodec V R) (keys : RedisState R)
    (now : Int) (op : RedisOp V) : Except Exc (RedisState R × Int) :=
  commandOn .exact config codec keys now op

variable {numbers : Numbers} {config : DeduplicationConfig} {codec : ResultCodec V R}
  {keys keys' : RedisState R} {now n : Int} {m : String}

theorem claim_eq_command : claim numbers config keys now m =
    (commandOn numbers config codec keys now (.claim m)).map fun r => (r.1, decide (r.2 ≠ 0)) :=
  claim_eq

theorem markCompleted_eq_command (result : Option V) :
    markCompleted numbers codec keys now m result =
      (commandOn numbers config codec keys now (.markCompleted m result)).map (·.1) := by
  simp only [markCompleted, commandOn, bind, Except.bind]
  cases resultJson codec result with
  | error e => rfl
  | ok json =>
    simp only
    cases luaUpdateStatus numbers codec keys now (redisKey m) .completed now json "" none <;> rfl

theorem markFailed_eq_command (error : String) (attempts : Int) :
    markFailed numbers codec keys now m error attempts =
      (commandOn numbers config codec keys now (.markFailed m error attempts)).map (·.1) := by
  simp only [markFailed, commandOn]
  cases luaUpdateStatus numbers codec keys now (redisKey m) .failed now "" error (some attempts) <;>
    rfl

end Redis

/-! ## The runs -/

inductive RedisEvent where
  | claimed (messageId : String)
  | failed (messageId : String)
  | deleted (messageId : String)
  deriving DecidableEq

/-- `log` has the commands that took effect, newest first, with the server's milliseconds. -/
structure RedisHistory (R : Type) where
  keys : RedisState R
  now : Int
  log : List (Int × RedisEvent)

namespace RedisHistory

def record (s : RedisHistory R) (m : String) : Option (LuaRecord R) :=
  Keyspace.get s.keys (Redis.nowMs s.now) (redisKey m)

end RedisHistory

inductive RedisAction (V : Type) where
  | op (op : RedisOp V)
  | tick (t : Int)

/-- The effect that the run remembers, when the command returned 1. -/
def RedisOp.event : RedisOp V → Option RedisEvent
  | claim m => some (.claimed m)
  | markCompleted _ _ => none
  | markFailed m _ _ => some (.failed m)
  | delete m => some (.deleted m)

namespace RedisHistory

def ran (s : RedisHistory R) (op : RedisOp V) : Except Exc (RedisState R × Int) → RedisHistory R
  | .error _ => s
  | .ok (keys, n) =>
    { s with
      keys := keys
      log := (if n = 1 then op.event.toList.map fun e => (Redis.nowMs s.now, e) else []) ++ s.log }

def exec (numbers : Numbers) (config : DeduplicationConfig) (codec : ResultCodec V R)
    (s : RedisHistory R) : RedisAction V → Option (RedisHistory R)
  | .op op => some (s.ran op (Redis.commandOn numbers config codec s.keys s.now op))
  | .tick t => if s.now ≤ t then some { s with now := t } else none

end RedisHistory

def redisSystemOn (numbers : Numbers) (config : DeduplicationConfig) (codec : ResultCodec V R) :
    System (RedisHistory R) (RedisAction V) :=
  ofExec (fun s => s.keys = (fun _ => none) ∧ s.log = []) (RedisHistory.exec numbers config codec)

def redisSystem (config : DeduplicationConfig) (codec : ResultCodec V R) :
    System (RedisHistory R) (RedisAction V) :=
  redisSystemOn .exact config codec

/-! ## What a command does to its record -/

namespace Redis

/-- Everything that a command can do. `m` is its message, `raw` the record as it is written. -/
inductive Ran (numbers : Numbers) (config : DeduplicationConfig) (keys : RedisState R) (now : Int) :
    RedisOp V → RedisState R → Int → Prop
  | refused {m : String} {data : LuaRecord R}
      (hget : Keyspace.get keys (nowMs now) (redisKey m) = some data)
      (hnot : ¬ data.Claimable numbers config (nowMs now)) :
      Ran numbers config keys now (.claim m) keys 0
  | first {m : String} {raw : LuaRecord R}
      (hget : Keyspace.get keys (nowMs now) (redisKey m) = none)
      (hraw : (LuaRecord.first m now (leaseMs numbers config now)).written numbers = .ok raw)
      (httl : numbers.expires (nowMs now) (ttlMs numbers config) = true) :
      Ran numbers config keys now (.claim m)
        (Keyspace.set keys (redisKey m) raw (some (nowMs now + ttlMs numbers config))) 1
  | reclaimed {m : String} {data raw : LuaRecord R}
      (hget : Keyspace.get keys (nowMs now) (redisKey m) = some data)
      (hclaim : data.Claimable numbers config (nowMs now))
      (hraw : (data.reclaimed now (leaseMs numbers config now)).written numbers = .ok raw) :
      Ran numbers config keys now (.claim m)
        (Keyspace.setKeepTtl keys (nowMs now) (redisKey m) raw) 1
  | unmarked {op : RedisOp V} {n : Int} (hop : ∀ m, op ≠ .delete m)
      (hnot : ∀ data, Keyspace.get keys (nowMs now) (redisKey op.messageId) = some data →
        data.status ≠ .processing) (hn : n = 0 ∨ n = -1) : Ran numbers config keys now op keys n
  | completed {m : String} {value : Option V} {data raw : LuaRecord R} {result : Option R}
      (hget : Keyspace.get keys (nowMs now) (redisKey m) = some data)
      (hstatus : data.status = .processing)
      (hraw : (data.marked .completed now result data.error data.attempts).written numbers =
        .ok raw) :
      Ran numbers config keys now (.markCompleted m value)
        (Keyspace.setKeepTtl keys (nowMs now) (redisKey m) raw) 1
  | failed {m error : String} {attempts : Int} {data raw : LuaRecord R}
      (hget : Keyspace.get keys (nowMs now) (redisKey m) = some data)
      (hstatus : data.status = .processing)
      (hraw : (data.marked .failed now data.result (if error ≠ "" then some error else data.error)
        (numbers.tonumber attempts)).written numbers = .ok raw) :
      Ran numbers config keys now (.markFailed m error attempts)
        (Keyspace.setKeepTtl keys (nowMs now) (redisKey m) raw) 1
  | deleted {m : String} : Ran numbers config keys now (.delete m) (Keyspace.del keys (redisKey m))
      (if isDuplicate keys now m then 1 else 0)

variable {numbers : Numbers} {config : DeduplicationConfig} {codec : ResultCodec V R}
  {keys keys' : RedisState R} {now n : Int}

theorem command_ran {op : RedisOp V}
    (h : commandOn numbers config codec keys now op = .ok (keys', n)) :
    Ran numbers config keys now op keys' n := by
  cases op with
  | claim m =>
    rcases evalClaim_ok h with ⟨raw, hget, hraw, httl, rfl, rfl⟩ |
      ⟨data, hget, ⟨raw, hclaim, hraw, rfl, rfl⟩ | ⟨hnot, rfl, rfl⟩⟩
    · exact .first hget hraw httl
    · exact .reclaimed hget hclaim hraw
    · exact .refused hget hnot
  | markCompleted m value =>
    obtain ⟨json, -, h⟩ := bind_ok h
    rcases luaUpdateStatus_ok h with
      ⟨rfl, hnot, hn⟩ | ⟨data, result, raw, hget, hp, -, hraw, rfl, rfl⟩
    · exact .unmarked (by simp) hnot hn
    · exact .completed hget hp hraw
  | markFailed m error attempts =>
    rcases luaUpdateStatus_ok h with
      ⟨rfl, hnot, hn⟩ | ⟨data, result, raw, hget, hp, hresult, hraw, rfl, rfl⟩
    · exact .unmarked (by simp) hnot hn
    · cases hresult
      exact .failed hget hp hraw
  | delete m =>
    cases h
    exact .deleted

/-! ## Numbers of 14 digits -/

structure SmallNumbers (config : DeduplicationConfig) (keys : RedisState R) (now : Int)
    (op : RedisOp V) : Prop where
  ttl : (config.ttlSeconds * 1000).natAbs < 10 ^ 14
  timeout : (config.processingTimeoutSeconds * 1000).natAbs < 10 ^ 14
  lease : (nowMs now + config.processingTimeoutSeconds * 1000).natAbs < 10 ^ 14
  maxRetries : config.maxRetries.natAbs < 10 ^ 14
  counts : ∀ key data, Keyspace.get keys (nowMs now) key = some data →
    data.attempts.natAbs + 1 < 10 ^ 14
  attempts : ∀ m error attempts, op = .markFailed m error attempts → attempts.natAbs < 10 ^ 14

variable [RedisServer]

theorem written_doubles {data : LuaRecord R} (hattempts : data.attempts.natAbs < 10 ^ 14)
    (hlease : ∀ lease ∈ data.leaseUntilMs, lease.natAbs < 10 ^ 14) :
    data.written .doubles = data.written .exact := by
  rw [LuaRecord.written_exact]
  cases data with
  | mk messageId status attempts result error leaseUntilMs createdAt updatedAt =>
    simp only [LuaRecord.written, Numbers.written_of_lt hattempts]
    cases leaseUntilMs with
    | none => rfl
    | some lease =>
      rw [Option.mapM_some, Numbers.written_of_lt (hlease lease rfl)]
      rfl

variable {op : RedisOp V}

theorem evalClaim_doubles {m : String} (h : SmallNumbers config keys now op) :
    evalClaim .doubles config keys now m = evalClaim .exact config keys now m := by
  have hms : leaseMs .doubles config now = leaseMs .exact config now :=
    congrArg (nowMs now + ·) (Numbers.tonumber_of_lt h.timeout)
  have hlease : (leaseMs .exact config now).natAbs < 10 ^ 14 := h.lease
  have httl : ttlMs .doubles config = ttlMs .exact config := Numbers.tonumber_of_lt h.ttl
  have hexpires : Numbers.doubles.expires (nowMs now) (ttlMs .exact config) =
      Numbers.exact.expires (nowMs now) (ttlMs .exact config) :=
    Numbers.expires_of_lt h.ttl
  cases hget : Keyspace.get keys (nowMs now) (redisKey m) with
  | none =>
    rw [evalClaim_none hget, evalClaim_none hget, hms, httl, hexpires, written_doubles]
    · exact Nat.lt_of_sub_eq_succ rfl
    · rintro lease ⟨⟩
      exact hlease
  | some data =>
    have hcount := h.counts _ _ hget
    have hclaim : data.Claimable .doubles config (nowMs now) ↔
        data.Claimable .exact config (nowMs now) := by
      unfold LuaRecord.Claimable
      rw [Numbers.tonumber_of_lt h.maxRetries]
      rfl
    rw [evalClaim_some hget, evalClaim_some hget, hms, written_doubles]
    · by_cases hc : data.Claimable .exact config (nowMs now)
      · rw [if_pos (hclaim.mpr hc), if_pos hc]
      · rw [if_neg (mt hclaim.mp hc), if_neg hc]
    · change (data.attempts + 1).natAbs < 10 ^ 14
      omega
    · rintro lease ⟨⟩
      exact hlease

theorem luaUpdateStatus_doubles {key : String} {status : StatusValue} {nowIso : Int}
    {json error : String} {attempts : Option Int}
    (hcounts : ∀ data, Keyspace.get keys (nowMs now) key = some data →
      data.attempts.natAbs < 10 ^ 14)
    (hattempts : ∀ a ∈ attempts, a.natAbs < 10 ^ 14) :
    luaUpdateStatus .doubles codec keys now key status nowIso json error attempts =
      luaUpdateStatus .exact codec keys now key status nowIso json error attempts := by
  have hnumber : attempts.map Numbers.doubles.tonumber = attempts.map Numbers.exact.tonumber := by
    cases attempts with
    | none => rfl
    | some a => exact congrArg some (Numbers.tonumber_of_lt (hattempts a rfl))
  unfold luaUpdateStatus
  rw [hnumber]
  cases hget : Keyspace.get keys (nowMs now) key with
  | none => rfl
  | some data =>
    simp only
    split
    · rfl
    cases luaResult codec json data.result with
    | error exc => simp only [bind, Except.bind]
    | ok result =>
      simp only [bind, Except.bind]
      rw [written_doubles]
      · cases attempts with
        | none => exact hcounts data hget
        | some a => exact hattempts a rfl
      · exact fun _ hmem => absurd hmem (Option.not_mem_none _)

theorem commandOn_doubles (h : SmallNumbers config keys now op) :
    commandOn .doubles config codec keys now op = command config codec keys now op := by
  have hcounts : ∀ key data, Keyspace.get keys (nowMs now) key = some data →
      data.attempts.natAbs < 10 ^ 14 :=
    fun key data hget => Nat.lt_of_succ_lt (h.counts key data hget)
  cases op with
  | claim m => exact evalClaim_doubles h
  | markCompleted m result =>
    simp only [command, commandOn]
    cases resultJson codec result with
    | error exc => simp only [bind, Except.bind]
    | ok json =>
      exact luaUpdateStatus_doubles (hcounts _) fun _ hmem => absurd hmem (Option.not_mem_none _)
  | markFailed m error attempts =>
    exact luaUpdateStatus_doubles (hcounts _) fun a ha =>
      h.attempts m error a (congrArg _ (Option.some.inj ha))
  | delete m => rfl

end Redis

/-- A run of the scripts whose numbers stay at 14 digits is a run with exact ones. -/
theorem Reach.of_doubles {config : DeduplicationConfig} {codec : ResultCodec V R}
    {s : RedisHistory R}
    (h : Reach ((redisSystemOn .doubles config codec).guard fun s a =>
      ∀ op, a = .op op → Redis.SmallNumbers config s.keys s.now op) s) :
    Reach (redisSystem config codec) s := by
  induction h with
  | init h0 => exact .init h0
  | @step s s' a _ hstep ih =>
    obtain ⟨hsmall, hstep⟩ := hstep
    refine .step (a := a) ih ?_
    cases a with
    | tick t => exact hstep
    | op op =>
      change some (s.ran op (Redis.command config codec s.keys s.now op)) = some s'
      rw [← Redis.commandOn_doubles (hsmall op rfl)]
      exact hstep

end MessageDedup
