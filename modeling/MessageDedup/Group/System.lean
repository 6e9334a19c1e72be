import MessageDedup.Lib.Transition
import MessageDedup.Store.Backend
import MessageDedup.Consumer.Machine

/-!
# A consumer group on one store

Any number of `DedupConsumer`s of one group, each with the partitions that Kafka assigned to it,
and the one store that they share. One action is one atomic step: time passes, Kafka assigns a
partition, a consumer takes its next record, `handle()` starts, an awaited call ends, or a consumer
is gone.
-/

namespace MessageDedup

open Transition (System)

abbrev ConsumerId := Nat

/-- What does not change in a run. `log p o` is the record at offset `o` of partition `p`, over all
topics of the group. -/
structure Group (V R : Type) where
  py : Python
  backend : Backend V R
  consumers : ConsumerId → DedupConsumer
  log : Nat → Nat → ConsumerRecord

/-! ## The history -/

/-- What the history keeps of a delivery. `deadLetter` is the step onto the dead-letter path,
`dlqSent` an acknowledged DLQ send, and `lost` a `mark_completed` that raised. -/
inductive Event where
  | delivered
  | claimed (leaseUntil : Int)
  | entered
  | returned
  | marked
  | lost
  | deadLetter
  | dlqSent
  | committed
  deriving DecidableEq, Repr

structure Entry where
  messageId : Option MessageId
  delivery : Nat
  event : Event
  deriving DecidableEq

/-! ## States -/

/-- A record in the hands of a consumer. `entered` says that `handle()` has started, and
`leaseUntil` is the lease of the delivery's last claim. -/
structure Delivery (V : Type) where
  number : Nat
  partition : Nat
  offset : Nat
  pc : Pc V
  entered : Bool
  leaseUntil : Int

inductive Local (V : Type) where
  | idle
  | busy (delivery : Delivery V)
  | stopped

/-- `trace` has the newest entry first. -/
structure State {V R : Type} (backend : Backend V R) where
  now : Int
  store : backend.State
  committed : Nat → Nat
  position : Nat → Nat
  assigned : Nat → Option ConsumerId
  consumer : ConsumerId → Local V
  deliveries : Nat
  trace : List Entry

/-- How an awaited call ends. A call that raises may have had its effect all the same. `result` is
what `handle()` returns, and nothing to the other calls. -/
inductive Outcome (V : Type) where
  | done (result : Option V)
  | raised (exc : Exc) (applied : Bool)

inductive Action (V : Type) where
  | tick (d : Nat)
  | assign (partition : Nat) (c : ConsumerId)
  | poll (c : ConsumerId) (partition : Nat)
  | enter (c : ConsumerId)
  | act (c : ConsumerId) (outcome : Outcome V)
  | crash (c : ConsumerId)

variable {V R : Type}

/-! ## The calls -/

/-- A call that is carried out. -/
def Backend.perform (backend : Backend V R) (s : backend.State) (now : Int) (result : Option V) :
    (call : Call V) → Except Exc (backend.State × call.Reply)
  | .claim m => backend.store.claim s now m
  | .getStatus m => .ok (s, backend.store.getStatus s now m)
  | .markFailed m error attempts => (·, ()) <$> backend.store.markFailed s now m error attempts
  | .markCompleted m value => (·, ()) <$> backend.store.markCompleted s now m value
  | .handle _ => .ok (s, result)
  | .sleep _ => .ok (s, ())
  | .sendAndWait _ _ _ => .ok (s, ())
  | .commit => .ok (s, ())

def Backend.answer (backend : Backend V R) (s : backend.State) (now : Int) (call : Call V) :
    Outcome V → backend.State × Except Exc call.Reply
  | .done result =>
    match backend.perform s now result call with
    | .ok (s', reply) => (s', .ok reply)
    | .error exc => (s, .error exc)
  | .raised exc applied =>
    match backend.perform s now none call with
    | .ok (s', _) => (if applied then s' else s, .error exc)
    | .error _ => (s, .error exc)

def Outcome.applied : Outcome V → Bool
  | .done _ => true
  | .raised _ applied => applied

/-- What the history keeps of a call that ended with `reply`. -/
def Call.events (leaseUntil : Int) (applied : Bool) :
    (call : Call V) → Except Exc call.Reply → List Event
  | .claim _, .ok claimed => if (show Bool from claimed) then [.claimed leaseUntil] else []
  | .handle _, .ok _ => [.returned]
  | .markCompleted _ _, .ok _ => [.marked]
  | .markCompleted _ _, .error _ => [.lost]
  | .sendAndWait _ _ _, .ok _ => [.dlqSent]
  | .commit, _ => if applied then [.committed] else []
  | _, _ => []

theorem Call.committed_mem {call : Call V} (h : call.isCommit = true) (leaseUntil : Int)
    (reply : Except Exc call.Reply) : .committed ∈ call.events leaseUntil true reply := by
  cases call with
  | commit => cases reply <;> exact List.mem_singleton_self _
  | _ => cases h

theorem Backend.applied_of_ok {backend : Backend V R} {s : backend.State} {now : Int}
    {call : Call V} {outcome : Outcome V} {reply : call.Reply}
    (h : (backend.answer s now call outcome).2 = .ok reply) : outcome.applied = true := by
  cases outcome with
  | done result => rfl
  | raised exc applied =>
    unfold answer at h
    cases hp : backend.perform s now none call <;> simp [hp] at h

def Metric.isDlq : Metric → Bool
  | .dlq _ => true
  | _ => false

def deadLetterEvents (metrics : List Metric) : List Event :=
  if metrics.any Metric.isDlq then [.deadLetter] else []

/-- Whether the reply is a claim that was won. -/
def Call.won : (call : Call V) → Except Exc call.Reply → Bool
  | .claim _, .ok claimed => claimed
  | _, _ => false

/-! ## Steps -/

def Pc.atHandle : Pc V → Bool
  | .executing _ _ (.handle _) => true
  | _ => false

namespace State

variable {backend : Backend V R}

def setConsumer (s : State backend) (c : ConsumerId) (l : Local V) : State backend :=
  { s with consumer := Function.update s.consumer c l }

def log (s : State backend) (messageId : Option MessageId) (delivery : Nat) (events : List Event) :
    State backend :=
  { s with trace := events.map (⟨messageId, delivery, ·⟩) ++ s.trace }

/-- A consumer leaves the group, and its partitions with it. -/
def stop (s : State backend) (c : ConsumerId) : State backend :=
  { s with
    consumer := Function.update s.consumer c .stopped
    assigned := fun p => if s.assigned p = some c then none else s.assigned p }

/-- `commit()` without arguments: the positions of all partitions of `c`. -/
def commitPositions (s : State backend) (c : ConsumerId) : State backend :=
  { s with committed := fun p => if s.assigned p = some c then s.position p else s.committed p }

theorem mem_log {s : State backend} {id : Option MessageId} {n : Nat} {events : List Event}
    (event : Event) (h : event ∈ events) : ⟨id, n, event⟩ ∈ (s.log id n events).trace :=
  List.mem_append_left _ (List.mem_map_of_mem h)

theorem stop_setConsumer (s : State backend) (c : ConsumerId) (l : Local V) :
    (s.setConsumer c l).stop c = s.stop c := by
  unfold setConsumer stop
  simp only [Function.update_idem]

theorem setConsumer_of_ne (s : State backend) {c c' : ConsumerId} (h : c' ≠ c) (l : Local V) :
    (s.setConsumer c l).consumer c' = s.consumer c' :=
  Function.update_of_ne h _ _

theorem stop_of_ne (s : State backend) {c c' : ConsumerId} (h : c' ≠ c) :
    (s.stop c).consumer c' = s.consumer c' :=
  Function.update_of_ne h _ _

theorem busy_setConsumer {s : State backend} {c c' : ConsumerId} {l : Local V} {d : Delivery V}
    (h : (s.setConsumer c l).consumer c' = .busy d) :
    (c' = c ∧ l = .busy d) ∨ (c' ≠ c ∧ s.consumer c' = .busy d) := by
  rcases eq_or_ne c' c with rfl | hne
  · exact .inl ⟨rfl, by simpa [setConsumer] using h⟩
  · rw [setConsumer_of_ne s hne] at h
    exact .inr ⟨hne, h⟩

theorem setConsumer_ne_stopped {s : State backend} {c c' : ConsumerId} {l : Local V}
    (hl : l ≠ .stopped) (h : s.consumer c' ≠ .stopped) :
    (s.setConsumer c l).consumer c' ≠ .stopped := by
  rcases eq_or_ne c' c with rfl | hne
  · simpa [setConsumer] using hl
  · rwa [setConsumer_of_ne s hne]

theorem busy_stop {s : State backend} {c c' : ConsumerId} {d : Delivery V}
    (h : (s.stop c).consumer c' = .busy d) : c' ≠ c ∧ s.consumer c' = .busy d := by
  rcases busy_setConsumer h with ⟨-, hstopped⟩ | hother
  · simp at hstopped
  · exact hother

theorem assigned_stop {s : State backend} {c c' : ConsumerId} {p : Nat} :
    (s.stop c).assigned p = some c' ↔ c' ≠ c ∧ s.assigned p = some c' := by
  unfold stop
  simp only
  split
  · rename_i hp
    rw [hp]
    constructor
    · intro h
      simp at h
    · rintro ⟨hne, h⟩
      exact absurd (Option.some.inj h).symm hne
  · rename_i hp
    constructor
    · intro h
      exact ⟨fun e => hp (e ▸ h), h⟩
    · exact fun h => h.2

/-- Where `_process_record` goes next: to another await, back to the loop of `run()`, or out of
`run()` with an exception. -/
def land (s : State backend) (c : ConsumerId) (delivery : Pc V → Delivery V) :
    Next V → State backend
  | .pc p => s.setConsumer c (.busy (delivery p))
  | .done => s.setConsumer c .idle
  | .raised _ => s.stop c

end State

def Local.stopped? : Local V → Bool
  | .stopped => true
  | _ => false

namespace Group

variable (g : Group V R)

def assign (s : State g.backend) (p : Nat) (c : ConsumerId) : Option (State g.backend) :=
  if s.assigned p = none ∧ (s.consumer c).stopped? = false then
    some { s with
      assigned := Function.update s.assigned p (some c)
      position := Function.update s.position p (s.committed p) }
  else none

/-- Iteration yields the next record of an assigned partition. -/
def poll (s : State g.backend) (c : ConsumerId) (p : Nat) : Option (State g.backend) :=
  match s.consumer c with
  | .idle =>
    if s.assigned p = some c then
      let offset := s.position p
      let next := (g.consumers c).start (V := V) g.py (g.log p offset)
      let polled := { s with
        position := Function.update s.position p (offset + 1)
        deliveries := s.deliveries + 1 }
      some ((polled.log next.2.messageId s.deliveries
        (deadLetterEvents next.1 ++ [.delivered])).land c
          (fun pc => ⟨s.deliveries, p, offset, pc, false, s.now⟩) next.2)
    else none
  | _ => none

def enter (s : State g.backend) (c : ConsumerId) : Option (State g.backend) :=
  match s.consumer c with
  | .busy d =>
    if d.pc.atHandle = true ∧ d.entered = false then
      some ((s.log d.pc.messageId d.number [.entered]).setConsumer c
        (.busy { d with entered := true }))
    else none
  | _ => none

/-- The awaited call of `d` ends, and `_process_record` runs to its next await. -/
def acted (s : State g.backend) (c : ConsumerId) (d : Delivery V) (outcome : Outcome V) :
    State g.backend :=
  let self := g.consumers c
  let record := g.log d.partition d.offset
  let call := self.callOf g.py record d.pc
  let answer := g.backend.answer s.store s.now call outcome
  let next := self.resume g.py record d.pc answer.2
  let lease := g.backend.leaseUntil s.now
  let answered := ({ s with store := answer.1 }).log d.pc.messageId d.number
    (deadLetterEvents next.1 ++ call.events lease outcome.applied answer.2)
  let counted := if call.isCommit && outcome.applied then answered.commitPositions c else answered
  counted.land c (fun pc => { d with
    pc := pc
    entered := false
    leaseUntil := if call.won answer.2 then lease else d.leaseUntil }) next.2

def act (s : State g.backend) (c : ConsumerId) (outcome : Outcome V) : Option (State g.backend) :=
  match s.consumer c with
  | .busy d =>
    if d.pc.atHandle = true ∧ d.entered = false then none else some (acted g s c d outcome)
  | _ => none

def crash (s : State g.backend) (c : ConsumerId) : Option (State g.backend) :=
  if (s.consumer c).stopped? then none else some (s.stop c)

def exec (s : State g.backend) : Action V → Option (State g.backend)
  | .tick d => some { s with now := s.now + d }
  | .assign p c => assign g s p c
  | .poll c p => poll g s c p
  | .enter c => enter g s c
  | .act c outcome => act g s c outcome
  | .crash c => crash g s c

def startState (now : Int) (store : g.backend.State) : State g.backend where
  now := now
  store := store
  committed := fun _ => 0
  position := fun _ => 0
  assigned := fun _ => none
  consumer := fun _ => .idle
  deliveries := 0
  trace := []

/-- The runs that start with no record of `m`. -/
def system (m : MessageId) : System (State g.backend) (Action V) :=
  Transition.ofExec
    (fun s => ∃ now store, s = startState g now store ∧ g.backend.store.cell store now m = none)
    (exec g)

end Group

end MessageDedup
