import MessageDedup.Guard.Lifecycle

/-!
# One use of a key, call by call

The points at which a guarded block and a decorated call await, and what they do with each answer.
The last theorem says that this automaton is the program of `Lifecycle.lean`.
-/

namespace MessageDedup

open Coroutine (Proc)

variable {V : Type}

inductive BlockPc (V : Type) where
  | getStatus
  | claim
  | body
  | markFailed (exc : Exc)
  | markCompleted (result : Option V)

inductive CallPc (V : Type) where
  | getStatus
  | claim
  | execute (attempts : Int)
  | markFailed (attempts : Int) (exc : Exc)
  | sleep (attempts : Int) (exc : Exc)
  | reclaim (attempts : Int) (exc : Exc)
  | markCompleted (result : Option V)

/-- A block under a guard, or a call of a decorated function, at an await. -/
inductive Use (V : Type) where
  | block (payload : Payload) (pc : BlockPc V)
  | decorated (self : Idempotent) (arguments : Arguments) (pc : CallPc V)

/-- How a use goes on: at another await, or at its end. -/
inductive UseNext (V : Type) where
  | awaits (use : Use V)
  | ended (outcome : Except Exc (Option V))

/-- An answer that is an exception ends the use. -/
def UseNext.orRaise {A : Type} (f : A → UseNext V) : Except Exc A → UseNext V
  | .ok a => f a
  | .error exc => .ended (.error exc)

open UseNext (orRaise)

section

variable (key : String)

/-! ## A block -/

namespace BlockPc

variable (payload : Payload)

def callOf : BlockPc V → Call V
  | .getStatus => .getStatus key
  | .claim => .claim key
  | .body => .handle payload
  | .markFailed exc => .markFailed key (IdempotencyGuard.errorMsg exc) 1
  | .markCompleted result => .markCompleted key result

def afterStatus (existing : Option (ProcessingStatus V)) : UseNext V :=
  match completedRecord existing with
  | some record => .ended (.ok record.result)
  | none => .awaits (.block payload .claim)

def afterClaim (claimed : Bool) : UseNext V :=
  if claimed then .awaits (.block payload .body) else .ended (.ok none)

def afterBody : Except Exc (Option V) → UseNext V
  | .ok result => .awaits (.block payload (.markCompleted result))
  | .error exc => .awaits (.block payload (.markFailed exc))

def resume : (pc : BlockPc V) → Except Exc (pc.callOf key payload).Reply → UseNext V
  | .getStatus => orRaise (afterStatus payload)
  | .claim => orRaise (afterClaim payload)
  | .body => afterBody payload
  | .markFailed exc => orRaise fun _ => .ended (.error exc)
  | .markCompleted result => orRaise fun _ => .ended (.ok result)

/-- What is left of a block at an await. -/
def rest : BlockPc V → Program V (Option V)
  | .getStatus => IdempotencyGuard.withGuard key payload
  | .claim => do
    let self := IdempotencyGuard.enterClaimed (← await (.claim key))
    (IdempotencyGuard.block payload self).attempt (IdempotencyGuard.leave key self)
  | .body => (await (.handle payload)).attempt (IdempotencyGuard.leave key {})
  | .markFailed exc => do
    await (.markFailed key (IdempotencyGuard.errorMsg exc) 1)
    Proc.raise exc
  | .markCompleted result => do
    await (.markCompleted key result)
    pure result

end BlockPc

/-! ## A decorated call -/

namespace CallPc

variable (self : Idempotent) (arguments : Arguments)

def callOf : CallPc V → Call V
  | .getStatus => .getStatus key
  | .claim => .claim key
  | .execute _ => .handle arguments.payload
  | .markFailed attempts exc => .markFailed key exc.text attempts
  | .sleep attempts _ => .sleep (self.configured.retryBackoffMs * attempts)
  | .reclaim _ _ => .claim key
  | .markCompleted result => .markCompleted key result

def toAttempt (attempts : Int) (lastExc : Option Exc) : UseNext V :=
  if attempts ≤ self.configured.maxRetries then
    .awaits (.decorated self arguments (.execute attempts))
  else .ended (.error (lastRaised lastExc))

def afterStatus (existing : Option (ProcessingStatus V)) : UseNext V :=
  match completedRecord existing with
  | some record => .ended (.ok record.result)
  | none => .awaits (.decorated self arguments .claim)

def afterClaim (claimed : Bool) : UseNext V :=
  if claimed then toAttempt self arguments 1 none else .ended (.ok none)

def afterExecute (attempts : Int) : Except Exc (Option V) → UseNext V
  | .ok result => .awaits (.decorated self arguments (.markCompleted result))
  | .error exc =>
    if exc.isException then .awaits (.decorated self arguments (.markFailed attempts exc))
    else .ended (.error exc)

def afterFailed (attempts : Int) (exc : Exc) : UseNext V :=
  if attempts < self.configured.maxRetries then
    .awaits (.decorated self arguments (.sleep attempts exc))
  else toAttempt self arguments (attempts + 1) (some exc)

def afterReclaim (attempts : Int) (exc : Exc) (claimed : Bool) : UseNext V :=
  if claimed then toAttempt self arguments (attempts + 1) (some exc) else .ended (.error exc)

def afterMark (result : Option V) : Except Exc Unit → UseNext V
  | .ok _ => .ended (.ok result)
  | .error exc => if exc.isException then .ended (.ok result) else .ended (.error exc)

def resume : (pc : CallPc V) → Except Exc (pc.callOf key self arguments).Reply → UseNext V
  | .getStatus => orRaise (afterStatus self arguments)
  | .claim => orRaise (afterClaim self arguments)
  | .execute attempts => afterExecute self arguments attempts
  | .markFailed attempts exc => orRaise fun _ => afterFailed self arguments attempts exc
  | .sleep attempts exc =>
    orRaise fun _ => .awaits (.decorated self arguments (.reclaim attempts exc))
  | .reclaim attempts exc => orRaise (afterReclaim self arguments attempts exc)
  | .markCompleted result => afterMark result

/-- What is left of a decorated call at an await. -/
def rest : CallPc V → Program V (Option V)
  | .getStatus => self.wrapperOn key arguments
  | .claim => do self.claimedFirst key arguments (← await (.claim key))
  | .execute attempts => self.turn key arguments attempts
  | .markFailed attempts exc => do
    self.goOn key arguments attempts exc (← self.attemptFailed key attempts exc)
  | .sleep attempts exc => do
    await (.sleep (self.configured.retryBackoffMs * attempts))
    self.goOn key arguments attempts exc (← await (.claim key))
  | .reclaim attempts exc => do self.goOn key arguments attempts exc (← await (.claim key))
  | .markCompleted result => Idempotent.complete key result

end CallPc

/-! ## A use -/

def Use.callOf : Use V → Call V
  | .block payload pc => pc.callOf key payload
  | .decorated self arguments pc => pc.callOf key self arguments

/-- What a use does between the answer to one call and the next call. -/
def Use.resume : (use : Use V) → Except Exc (use.callOf key).Reply → UseNext V
  | .block payload pc => pc.resume key payload
  | .decorated self arguments pc => pc.resume key self arguments

def Use.rest : Use V → Program V (Option V)
  | .block payload pc => pc.rest key payload
  | .decorated self arguments pc => pc.rest key self arguments

def UseNext.rest : UseNext V → Program V (Option V)
  | .awaits use => use.rest key
  | .ended outcome => Proc.ofExcept outcome

/-! ## The automaton is the program -/

variable {key}

theorem BlockPc.rest_afterStatus (payload : Payload) (existing : Option (ProcessingStatus V)) :
    (afterStatus payload existing).rest key =
      ((match completedRecord existing with
      | some existing => pure { alreadyProcessed := true, previousResult := existing.result }
      | none => do return IdempotencyGuard.enterClaimed (← await (.claim key)) :
          Program V (IdempotencyGuard V)).bind fun self =>
        (IdempotencyGuard.block payload self).attempt (IdempotencyGuard.leave key self)) := by
  unfold afterStatus
  cases completedRecord existing with
  | none =>
    refine Proc.await_congr fun r => ?_
    rcases r with e | claimed <;> rfl
  | some record => rfl

theorem BlockPc.rest_eq (payload : Payload) (pc : BlockPc V) :
    pc.rest key payload =
      .await (pc.callOf key payload) fun r => (pc.resume key payload r).rest key := by
  cases pc with
  | getStatus =>
    refine Proc.await_congr fun r => ?_
    rcases r with e | existing
    · rfl
    · exact (rest_afterStatus payload existing).symm
  | claim =>
    refine Proc.await_congr fun r => ?_
    rcases r with e | claimed
    · rfl
    · cases claimed <;> rfl
  | body | markFailed exc | markCompleted result =>
    refine Proc.await_congr fun r => ?_
    rcases r with e | r <;> rfl

section

variable (self : Idempotent) (arguments : Arguments)

namespace CallPc

theorem rest_toAttempt (attempts : Int) (lastExc : Option Exc) :
    (toAttempt (V := V) self arguments attempts lastExc).rest key =
      self.whileAttempts key arguments attempts lastExc := by
  rw [Idempotent.whileAttempts_eq]
  unfold toAttempt
  split <;> rfl

theorem rest_afterStatus (existing : Option (ProcessingStatus V)) :
    (afterStatus self arguments existing).rest key =
      (match completedRecord existing with
      | some existing => pure existing.result
      | none => do self.claimedFirst key arguments (← await (.claim key))) := by
  unfold afterStatus
  cases completedRecord existing <;> rfl

theorem rest_afterClaim (claimed : Bool) :
    (afterClaim (V := V) self arguments claimed).rest key =
      self.claimedFirst key arguments claimed := by
  cases claimed
  · rfl
  · exact rest_toAttempt self arguments 1 none

theorem rest_afterReclaim (attempts : Int) (exc : Exc) (claimed : Bool) :
    (afterReclaim (V := V) self arguments attempts exc claimed).rest key =
      self.goOn key arguments attempts exc claimed := by
  cases claimed
  · rfl
  · exact rest_toAttempt self arguments (attempts + 1) (some exc)

theorem rest_afterFailed (attempts : Int) (exc : Exc) :
    (afterFailed (V := V) self arguments attempts exc).rest key =
      (self.backoff key attempts).bind (self.goOn key arguments attempts exc) := by
  unfold afterFailed Idempotent.backoff
  split
  · refine Proc.await_congr fun r => ?_
    rcases r with e | r <;> rfl
  · exact rest_toAttempt self arguments (attempts + 1) (some exc)

theorem rest_eq (pc : CallPc V) :
    pc.rest key self arguments =
      .await (pc.callOf key self arguments) fun r => (pc.resume key self arguments r).rest key := by
  cases pc with
  | getStatus =>
    refine Proc.await_congr fun r => ?_
    rcases r with e | existing
    · rfl
    · exact (rest_afterStatus self arguments existing).symm
  | claim =>
    refine Proc.await_congr fun r => ?_
    rcases r with e | claimed
    · rfl
    · exact (rest_afterClaim self arguments claimed).symm
  | execute attempts =>
    refine Proc.await_congr fun r => ?_
    rcases r with e | result
    · simp only [resume, afterExecute, Proc.attempt_raise]
      split <;> rfl
    · rfl
  | markFailed attempts exc =>
    refine Proc.await_congr fun r => ?_
    rcases r with e | r
    · rfl
    · exact (rest_afterFailed self arguments attempts exc).symm
  | sleep attempts exc =>
    refine Proc.await_congr fun r => ?_
    rcases r with e | r <;> rfl
  | reclaim attempts exc =>
    refine Proc.await_congr fun r => ?_
    rcases r with e | claimed
    · rfl
    · exact (rest_afterReclaim self arguments attempts exc claimed).symm
  | markCompleted result =>
    refine Proc.await_congr fun r => ?_
    rcases r with e | r
    · simp only [resume, afterMark, Proc.attempt_raise]
      split <;> rfl
    · rfl

end CallPc

end

/-- Between two calls the automaton does what the program does. -/
theorem Use.rest_eq (use : Use V) :
    use.rest key = .await (use.callOf key) fun r => (use.resume key r).rest key := by
  cases use with
  | block payload pc => exact pc.rest_eq payload
  | decorated self arguments pc => exact pc.rest_eq self arguments

end

end MessageDedup
