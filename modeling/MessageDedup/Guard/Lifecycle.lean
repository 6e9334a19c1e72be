import MessageDedup.Consumer.Lifecycle

/-!
# guard.py

`IdempotencyGuard` and `@idempotent`, as programs that await the store and the business logic. The
log lines are left out.
-/

namespace MessageDedup

open Coroutine (Proc)

variable {V : Type}

/-- A record that is there and COMPLETED. -/
def completedRecord (existing : Option (ProcessingStatus V)) : Option (ProcessingStatus V) :=
  existing.filter (·.status = .completed)

/-! ## The context manager -/

structure IdempotencyGuard (V : Type) where
  alreadyProcessed : Bool := false
  previousResult : Option V := none
  result : Option V := none

namespace IdempotencyGuard

variable (key : String)

/-- The second half of `__aenter__`. -/
def enterClaimed (claimed : Bool) : IdempotencyGuard V := { alreadyProcessed := !claimed }

/-- `__aenter__` -/
def aenter : Program V (IdempotencyGuard V) := do
  match completedRecord (← await (.getStatus key)) with
  | some existing => pure { alreadyProcessed := true, previousResult := existing.result }
  | none => return enterClaimed (← await (.claim key))

/-- The `error_msg` of `__aexit__`. -/
def errorMsg (exc : Exc) : String := exc.typeName ++ ": " ++ exc.text

/-- `__aexit__`, with the exception that left the block. -/
def aexit (self : IdempotencyGuard V) (raised : Option Exc) : Program V Unit :=
  if self.alreadyProcessed then pure ()
  else
    match raised with
    | some exc => await (.markFailed key (errorMsg exc) 1)
    | none => await (.markCompleted key self.result)

/-- `async with IdempotencyGuard(store, key) as guard:` around a block that returns
`previous_result` when `already_processed` is set, and else works on `payload` and sets `result`. -/
def block (payload : Payload) (self : IdempotencyGuard V) : Program V (Option V) :=
  if self.alreadyProcessed then pure self.previousResult else await (.handle payload)

/-- The end of an `async with`. -/
def leave (self : IdempotencyGuard V) : Except Exc (Option V) → Program V (Option V)
  | .ok result => do
    aexit key { self with result := result } none
    pure result
  | .error exc => do
    aexit key self (some exc)
    Proc.raise exc

def withGuard (payload : Payload) : Program V (Option V) := do
  let self ← aenter key
  (block payload self).attempt (leave key self)

end IdempotencyGuard

/-! ## The decorator -/

structure Arguments where
  args : List Json
  kwargs : List (String × Json)

/-- What `func(*args, **kwargs)` works on. -/
def Arguments.payload (arguments : Arguments) : Payload :=
  .json (.arr [.arr arguments.args, .obj arguments.kwargs])

/-- The arguments of `@idempotent` but for the store. -/
structure Idempotent where
  keyFn : Option (Arguments → Except Exc String)
  config : Option DeduplicationConfig

def noKey : Exc where
  kind := .valueError
  text := "@idempotent: cannot derive idempotency key — " ++
    "supply key_fn or pass the key as the first positional argument"

/-- `raise last_exc` -/
def lastRaised : Option Exc → Exc
  | some exc => exc
  | none => ⟨.typeError, "exceptions must derive from BaseException"⟩

namespace Idempotent

variable (py : Python) (self : Idempotent) (key : String) (arguments : Arguments)

def idempotencyKey : Except Exc String :=
  match self.keyFn with
  | some keyFn => keyFn arguments
  | none =>
    match arguments.args with
    | arg :: _ => .ok (arg.toStr py)
    | [] => .error noKey

/-- `config or DeduplicationConfig()` -/
def configured : DeduplicationConfig := self.config.getD {}

/-- What follows a call of `func` that returned. -/
def complete (result : Option V) : Program V (Option V) :=
  (await (.markCompleted key result)).attempt fun
    | .ok _ => pure result
    | .error exc => if exc.isException then pure result else Proc.raise exc

/-- The wait for the next attempt. It answers whether the loop goes on. -/
def backoff (attempts : Int) : Program V Bool :=
  if attempts < self.configured.maxRetries then do
    await (.sleep (self.configured.retryBackoffMs * attempts))
    await (.claim key)
  else pure true

/-- The `except` clause of the loop. -/
def attemptFailed (attempts : Int) (exc : Exc) : Program V Bool := do
  await (.markFailed key exc.text attempts)
  backoff self key attempts

/-- The `while` loop, with the number of turns that are left. -/
def attemptLoop : Nat → (attempts : Int) → (lastExc : Option Exc) → Program V (Option V)
  | 0, _, lastExc => Proc.raise (lastRaised lastExc)
  | left + 1, attempts, _ =>
    (await (.handle arguments.payload)).attempt fun
      | .ok result => complete key result
      | .error exc =>
        if exc.isException then do
          if ← attemptFailed self key attempts exc then
            attemptLoop left (attempts + 1) (some exc)
          else Proc.raise exc
        else Proc.raise exc

/-- `while attempts <= _config.max_retries` from `attempts` on. -/
def whileAttempts (attempts : Int) (lastExc : Option Exc) : Program V (Option V) :=
  attemptLoop self key arguments (self.configured.maxRetries + 1 - attempts).toNat attempts lastExc

/-- How a turn of the loop ends, where `again` is the answer of its `except` clause. -/
def goOn (attempts : Int) (exc : Exc) (again : Bool) : Program V (Option V) :=
  if again then whileAttempts self key arguments (attempts + 1) (some exc) else Proc.raise exc

def turn (attempts : Int) : Program V (Option V) :=
  (await (.handle arguments.payload)).attempt fun
    | .ok result => complete key result
    | .error exc =>
      if exc.isException then do
        goOn self key arguments attempts exc (← attemptFailed self key attempts exc)
      else Proc.raise exc

/-- What follows the first `claim()`. -/
def claimedFirst (claimed : Bool) : Program V (Option V) :=
  if claimed then whileAttempts self key arguments 1 none else pure none

/-- `wrapper`, once it has its key. -/
def wrapperOn : Program V (Option V) := do
  match completedRecord (← await (.getStatus key)) with
  | some existing => pure existing.result
  | none => claimedFirst self key arguments (← await (.claim key))

def wrapper : Program V (Option V) := do
  wrapperOn self (← Proc.ofExcept (idempotencyKey py self arguments)) arguments

theorem whileAttempts_eq (attempts : Int) (lastExc : Option Exc) :
    whileAttempts (V := V) self key arguments attempts lastExc =
      if attempts ≤ self.configured.maxRetries then turn self key arguments attempts
      else Proc.raise (lastRaised lastExc) := by
  unfold whileAttempts
  by_cases h : attempts ≤ self.configured.maxRetries
  · rw [if_pos h]
    obtain ⟨left, hleft⟩ : ∃ left, (self.configured.maxRetries + 1 - attempts).toNat = left + 1 :=
      ⟨(self.configured.maxRetries - attempts).toNat, by omega⟩
    have hrest : (self.configured.maxRetries + 1 - (attempts + 1)).toNat = left := by omega
    rw [hleft]
    simp only [turn, goOn, whileAttempts, hrest, attemptLoop]
  · rw [if_neg h]
    have hleft : (self.configured.maxRetries + 1 - attempts).toNat = 0 := by omega
    rw [hleft]
    rfl

end Idempotent

end MessageDedup
