import MessageDedup.Consumer.Run
import MessageDedup.Group.Topics
import MessageDedup.Lib.Interference

/-!
# __main__.py

`main()` among the tasks that it creates. Each of the three consumers is started and runs in a task
of its own; the first task that ends, or a signal, ends them all.
-/

namespace MessageDedup

open Coroutine (Among Proc Setting)
open Transition (System)

variable {V : Type}

/-! ## Tasks -/

inductive TaskEnd where
  | returned
  | raised (exc : Exc)
  deriving DecidableEq, Repr

def Exc.isCancelled (exc : Exc) : Bool := exc.kind = .baseException "CancelledError"

/-- Such an exception goes through the event loop itself. -/
def Exc.endsLoop (exc : Exc) : Bool :=
  exc.kind = .baseException "KeyboardInterrupt" || exc.kind = .baseException "SystemExit"

/-- `task.exception()` raises when the task was cancelled. -/
def TaskEnd.exception : TaskEnd → Except Exc (Option Exc)
  | .returned => .ok none
  | .raised exc => if exc.isCancelled then .error exc else .ok (some exc)

def RunPhase.taskEnd : RunPhase V → Option TaskEnd
  | .waiting | .processing _ _ => none
  | .raised exc _ => some (.raised exc)
  | .interrupted exc => some (.raised exc)
  | .broken => some .returned

def TaskEnd.endsLoop : TaskEnd → Bool
  | .returned => false
  | .raised exc => exc.endsLoop

/-! ## The calls of main() -/

/-- `self._consumer`, `self._dlq_producer` and `self._store`. -/
inductive Client where
  | consumer
  | dlqProducer
  | store
  deriving DecidableEq, Repr

/-- A client is `failed` when its `start` or its `stop` raised. -/
inductive ClientState where
  | absent
  | made
  | started
  | stopped
  | failed
  deriving DecidableEq, Repr

/-- Besides what it awaits, what `main()` does to the tasks and to `self`. -/
inductive ProcessCall where
  | make (topic : Topic) (client : Client)
  | start (topic : Topic) (client : Client)
  | createRunTask (topic : Topic)
  | createStopTask
  | wait
  | cancelStopTask
  | cancelRunTask (topic : Topic)
  | gather
  | clearRunning (topic : Topic)
  | has (topic : Topic) (client : Client)
  | stop (topic : Topic) (client : Client)

/-- `wait` gives the ends of the run tasks in `done`. -/
abbrev ProcessCall.Reply : ProcessCall → Type
  | .wait => Topic → Option TaskEnd
  | .has _ _ => Bool
  | _ => Unit

abbrev ProcessProgram (A : Type) := Proc ProcessCall ProcessCall.Reply Empty Exc A

namespace ProcessProgram

def call (c : ProcessCall) : ProcessProgram c.Reply := Proc.call c

section

variable (self : DedupConsumer) (topic : Topic)

def startDlqProducer : ProcessProgram Unit :=
  if self.dlq.isSome then do
    call (.make topic .dlqProducer)
    call (.start topic .dlqProducer)
  else pure ()

def start : ProcessProgram Unit := do
  call (.make topic .consumer)
  call (.start topic .consumer)
  startDlqProducer self topic
  call (.start topic .store)

def stopIfMade (client : Client) : ProcessProgram Unit := do
  if ← call (.has topic client) then call (.stop topic client) else pure ()

def stop : ProcessProgram Unit := do
  call (.clearRunning topic)
  stopIfMade topic .consumer
  stopIfMade topic .dlqProducer
  call (.stop topic .store)

end

def exitCode (done : Topic → Option TaskEnd) : List Topic → Nat → ProcessProgram Nat
  | [], code => pure code
  | topic :: topics, code =>
    match done topic with
    | none => exitCode done topics code
    | some ended => do
      let exc ← Proc.ofExcept ended.exception
      exitCode done topics (if exc.isSome then 1 else code)

def consumers : List Topic := [.orders, .payments, .shipments]

def main (config : DeduplicationConfig) : ProcessProgram Nat := do
  forM consumers fun topic => start (topic.handler config) topic
  forM consumers fun topic => call (.createRunTask topic)
  call .createStopTask
  let done ← call .wait
  let code ← exitCode done consumers 0
  call .cancelStopTask
  forM consumers fun topic => call (.cancelRunTask topic)
  call .gather
  forM consumers stop
  pure code

end ProcessProgram

open ProcessProgram (consumers)

/-! ## The process -/

/-- The task of `stop_requested.wait()`. -/
inductive StopTask where
  | absent
  | waiting
  | cancelling
  | over
  deriving DecidableEq, Repr

/-- `done` is what `wait` gave, and `gathered` says that `gather` has returned. -/
structure ProcessState (V : Type) where
  clients : Topic → Client → ClientState
  run : Topic → Option (RunState V)
  cancelRequested : Topic → Bool
  stopRequested : Bool
  stopTask : StopTask
  done : Option (Topic → Option TaskEnd)
  gathered : Bool

/-- A started consumer reads its partitions from `offsets`. -/
structure Process where
  py : Python
  config : DeduplicationConfig
  assigned : Topic → TopicPartition → Bool
  offsets : Topic → TopicPartition → Nat

namespace ProcessState

def setClient (s : ProcessState V) (topic : Topic) (client : Client) (state : ClientState) :
    ProcessState V :=
  { s with
    clients := Function.update s.clients topic
      (Function.update (s.clients topic) client state) }

def setRun (s : ProcessState V) (topic : Topic) (run : Option (RunState V)) : ProcessState V :=
  { s with run := Function.update s.run topic run }

def taskEnd (s : ProcessState V) (topic : Topic) : Option TaskEnd :=
  (s.run topic).bind (·.phase.taskEnd)

def someDone (s : ProcessState V) : Bool :=
  s.stopTask = .over || consumers.any fun topic => (s.taskEnd topic).isSome

def allDone (s : ProcessState V) : Bool :=
  s.stopTask = .over && consumers.all fun topic => (s.taskEnd topic).isSome

def cancelStop (s : ProcessState V) : ProcessState V :=
  if s.stopTask = .waiting then { s with stopTask := .cancelling } else s

/-- The wait for the event ends when it is set, or when it is cancelled. -/
def endStop (s : ProcessState V) : Option (ProcessState V) :=
  if s.stopTask = .cancelling ∨ s.stopTask = .waiting ∧ s.stopRequested = true then
    some { s with stopTask := .over }
  else none

/-- `start` and `stop` may raise. `wait` returns when a task is done, and `gather` when all are. -/
def answer (s : ProcessState V) : (c : ProcessCall) → Option Exc →
    Option (ProcessState V × Except Exc c.Reply)
  | .start topic client, none => some (s.setClient topic client .started, .ok ())
  | .stop topic client, none => some (s.setClient topic client .stopped, .ok ())
  | .start topic client, some exc | .stop topic client, some exc =>
    some (s.setClient topic client .failed, .error exc)
  | .wait, none =>
    if s.someDone then some ({ s with done := some s.taskEnd }, .ok s.taskEnd) else none
  | .gather, none => if s.allDone then some ({ s with gathered := true }, .ok ()) else none
  | _, _ => none

def startState : ProcessState V where
  clients := fun _ client => if client = .store then .made else .absent
  run := fun _ => none
  cancelRequested := fun _ => false
  stopRequested := false
  stopTask := .absent
  done := none
  gathered := false

end ProcessState

namespace Process

inductive Event (V : Type) where
  | signal
  | stopTaskEnds
  | task (topic : Topic) (a : RunAction V)

variable (p : Process)

def runner (topic : Topic) : Runner := ⟨p.py, topic.handler p.config, p.assigned topic⟩

/-- What `main()` does without waiting. -/
def atOnce : (c : ProcessCall) → Option (ProcessState V → ProcessState V × c.Reply)
  | .make topic client => some fun s => (s.setClient topic client .made, ())
  | .createRunTask topic => some fun s =>
    (s.setRun topic (some (Runner.startState (p.offsets topic))), ())
  | .createStopTask => some fun s => ({ s with stopTask := .waiting }, ())
  | .cancelStopTask => some fun s => (s.cancelStop, ())
  | .cancelRunTask topic => some fun s =>
    ({ s with cancelRequested := Function.update s.cancelRequested topic true }, ())
  | .clearRunning topic => some fun s =>
    (s.setRun topic ((s.run topic).map fun run => { run with running := false }), ())
  | .has topic client => some fun s => (s, s.clients topic client ≠ .absent)
  | .start _ _ | .stop _ _ | .wait | .gather => none

/-- A task takes a step of `run()`; a cancellation is one that its awaited call raises. An
exception that ends the event loop is left out. -/
def taskStep (s : ProcessState V) (topic : Topic) (a : RunAction V) : Option (ProcessState V) :=
  match a with
  | .stop => none
  | a =>
    (((s.run topic).bind fun run => (p.runner topic).exec run a).filter fun run =>
      !run.phase.taskEnd.any (·.endsLoop)).map fun run => s.setRun topic (some run)

def move (s : ProcessState V) : Event V → Option (ProcessState V)
  | .signal => some { s with stopRequested := true }
  | .stopTaskEnds => s.endStop
  | .task topic a => p.taskStep s topic a

def surroundings :
    Setting ProcessCall ProcessCall.Reply Exc (ProcessState V) (Event V) (Option Exc) where
  atOnce := p.atOnce
  move := p.move
  answer := ProcessState.answer

abbrev State (V : Type) :=
  Among ProcessCall ProcessCall.Reply Empty Exc Nat (ProcessState V)

def system : System (State V) (Event V ⊕ Option Exc) :=
  p.surroundings.system (ProcessProgram.main p.config) (· = ProcessState.startState)

end Process

end MessageDedup
