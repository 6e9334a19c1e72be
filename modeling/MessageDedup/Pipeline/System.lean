import MessageDedup.Outbox.Identity
import MessageDedup.Outbox.Rows
import MessageDedup.Group.Refinement

/-!
# From the outbox to the consumers

The outbox with its relays, a consumer group, and Kafka between them: a send that is acknowledged
is written to a partition, and may be written again later, as may one that raised. The consumers
read what is written. Other producers write to the same partitions.
-/

namespace MessageDedup

open Transition (Reach System)

variable {V R : Type}

/-! ## Kafka -/

/-- The records of each partition, over all topics. -/
abbrev Kafka := Nat → List ConsumerRecord

namespace Kafka

def append (broker : Kafka) (p : Nat) (record : ConsumerRecord) : Kafka :=
  Function.update broker p (broker p ++ [record])

def write (broker : Kafka) (p : Nat) (message : Message) : Kafka :=
  broker.append p (message.record p (broker p).length)

/-- Past its end a partition has nothing that is read. -/
def log (broker : Kafka) (p o : Nat) : ConsumerRecord :=
  (broker p)[o]?.getD ⟨"", p, o, none, none, []⟩

/-- `log` has the records of `broker`, and any others after them. -/
def Within (broker : Kafka) (log : Nat → Nat → ConsumerRecord) : Prop :=
  ∀ p o record, (broker p)[o]? = some record → log p o = record

theorem append_getElem? {broker : Kafka} {p p' o : Nat} {record record' : ConsumerRecord} :
    (broker.append p record p')[o]? = some record' ↔ (broker p')[o]? = some record' ∨
      p' = p ∧ o = (broker p).length ∧ record' = record := by
  unfold append
  rcases eq_or_ne p' p with rfl | hne
  · rw [Function.update_self, List.getElem?_append]
    split
    · rename_i hlt
      simp [hlt.ne]
    · rename_i hge
      have hpast : (broker p')[o]? = none := List.getElem?_eq_none (by omega)
      rw [hpast, List.getElem?_singleton]
      by_cases ho : o = (broker p').length
      · simp [ho, eq_comm]
      · simp [ho, show o - (broker p').length ≠ 0 by omega]
  · rw [Function.update_of_ne hne]
    simp [hne]

theorem Within.of_append {broker : Kafka} {p : Nat} {record : ConsumerRecord}
    {log : Nat → Nat → ConsumerRecord} (h : (broker.append p record).Within log) :
    broker.Within log :=
  fun p' o record' hold => h p' o record' (append_getElem?.mpr (.inl hold))

theorem length_append (broker : Kafka) (p : Nat) (record : ConsumerRecord) (p' : Nat) :
    (broker p').length ≤ (broker.append p record p').length := by
  unfold append
  rcases eq_or_ne p' p with rfl | hne
  · simp
  · simp [hne]

theorem within_log (broker : Kafka) : broker.Within broker.log := by
  intro p o record h
  simp [log, h]

theorem Within.eq {broker : Kafka} {log log' : Nat → Nat → ConsumerRecord}
    (h : broker.Within log) (h' : broker.Within log') {p o : Nat} (ho : o < (broker p).length) :
    log p o = log' p o := by
  have hget : (broker p)[o]? = some (broker p)[o] := List.getElem?_eq_getElem ho
  rw [h p o _ hget, h' p o _ hget]

end Kafka

/-! ## The whole -/

/-- What does not change in a run. -/
structure Pipeline (V R : Type) where
  py : Python
  backend : Backend V R
  consumers : ConsumerId → DedupConsumer
  batchSize : Nat → Nat

abbrev Pipeline.group (P : Pipeline V R) (log : Nat → Nat → ConsumerRecord) : Group V R :=
  ⟨P.py, P.backend, P.consumers, log⟩

structure PipelineState {V R : Type} (backend : Backend V R) where
  outbox : OutboxState
  broker : Kafka
  group : State backend

/-- `relay` carries out a step of the outbox, and what it sends goes to `partition`. `again` writes
a message that was sent before, and `produce` is of another producer. -/
inductive PipelineAction (V : Type) where
  | relay (action : OutboxAction) (partition : Nat)
  | again (message : Message) (partition : Nat)
  | produce (partition : Nat) (record : ConsumerRecord)
  | consume (action : Action V)

/-- The message whose send returns in this step. -/
def OutboxState.acknowledged (w : OutboxState) : OutboxAction → Option Message
  | .returned r _ _ =>
    match w.relays r with
    | some (.sending row _ _, _) => some row.message
    | _ => none
  | _ => none

def TxEvent.isSendOf (message : Message) : TxEvent → Bool
  | .sent _ message' _ => message' = message
  | _ => false

namespace PipelineState

variable {backend : Backend V R}

/-- Iteration of a consumer waits at the end of a partition. -/
def Readable (s : PipelineState backend) : Action V → Prop
  | .poll _ p => s.group.position p < (s.broker p).length
  | _ => True

instance (s : PipelineState backend) : (action : Action V) → Decidable (s.Readable action)
  | .poll _ p => inferInstanceAs (Decidable (s.group.position p < (s.broker p).length))
  | .tick _ | .assign _ _ | .enter _ | .act _ _ | .crash _ => .isTrue trivial

end PipelineState

namespace Pipeline

variable (P : Pipeline V R)

def exec (s : PipelineState P.backend) : PipelineAction V → Option (PipelineState P.backend)
  | .relay action p =>
    (OutboxState.exec P.batchSize s.outbox action).map fun outbox =>
      { s with
        outbox := outbox
        broker := (s.outbox.acknowledged action).elim s.broker (s.broker.write p) }
  | .again message p =>
    if s.outbox.trace.any (·.2.isSendOf message) then
      some { s with broker := s.broker.write p message }
    else none
  | .produce p record => some { s with broker := s.broker.append p record }
  | .consume action =>
    if s.Readable action then
      ((P.group s.broker.log).exec s.group action).map fun group => { s with group := group }
    else none

def startState (now : Int) (store : P.backend.State) : PipelineState P.backend where
  outbox := .empty
  broker := fun _ => []
  group := (P.group (Kafka.log fun _ => [])).startState now store

/-- The runs that start with an empty outbox, an empty Kafka, and no record of `m`. -/
def system (m : MessageId) : System (PipelineState P.backend) (PipelineAction V) :=
  Transition.ofExec
    (fun s => ∃ now store, s = P.startState now store ∧ P.backend.store.cell store now m = none)
    P.exec

end Pipeline

/-! ## What a step does -/

namespace Pipeline

variable {P : Pipeline V R} {s s' : PipelineState P.backend} {a : PipelineAction V}

/-- The inversion of a step. -/
inductive Stepped (P : Pipeline V R) (s : PipelineState P.backend) :
    PipelineAction V → PipelineState P.backend → Prop
  | relayed {action : OutboxAction} {p : Nat} {outbox : OutboxState}
      (hexec : OutboxState.exec P.batchSize s.outbox action = some outbox)
      (hack : s.outbox.acknowledged action = none) :
      Stepped P s (.relay action p) { s with outbox := outbox }
  | published {action : OutboxAction} {p : Nat} {outbox : OutboxState} {message : Message}
      (hexec : OutboxState.exec P.batchSize s.outbox action = some outbox)
      (hack : s.outbox.acknowledged action = some message) :
      Stepped P s (.relay action p)
        { s with outbox := outbox, broker := s.broker.write p message }
  | repeated {message : Message} {p n id : Nat} {acked : Bool}
      (hsent : (n, .sent id message acked) ∈ s.outbox.trace) :
      Stepped P s (.again message p) { s with broker := s.broker.write p message }
  | produced {p : Nat} {record : ConsumerRecord} :
      Stepped P s (.produce p record) { s with broker := s.broker.append p record }
  | consumed {action : Action V} {group : State P.backend} (hread : s.Readable action)
      (hexec : (P.group s.broker.log).exec s.group action = some group) :
      Stepped P s (.consume action) { s with group := group }

theorem stepped (hs : P.exec s a = some s') : Stepped P s a s' := by
  cases a with
  | relay action p =>
    obtain ⟨outbox, hexec, rfl⟩ := Option.map_eq_some_iff.mp hs
    cases hack : s.outbox.acknowledged action with
    | none => exact .relayed hexec hack
    | some message => exact .published hexec hack
  | again message p =>
    obtain ⟨hany, heq⟩ := Option.ite_none_right_eq_some.mp hs
    cases heq
    obtain ⟨⟨n, event⟩, hmem, hsend⟩ := List.any_eq_true.mp hany
    cases event with
    | sent id message' acked =>
      obtain rfl : message' = message := by simpa [TxEvent.isSendOf] using hsend
      exact .repeated hmem
    | marked id status => simp [TxEvent.isSendOf] at hsend
    | committed => simp [TxEvent.isSendOf] at hsend
    | rolledBack => simp [TxEvent.isSendOf] at hsend
  | produce p record =>
    cases hs
    exact .produced
  | consume action =>
    obtain ⟨hread, heq⟩ := Option.ite_none_right_eq_some.mp hs
    obtain ⟨group, hexec, rfl⟩ := Option.map_eq_some_iff.mp heq
    exact .consumed hread hexec

theorem Stepped.broker (h : Stepped P s a s') :
    s'.broker = s.broker ∨ ∃ p record, s'.broker = s.broker.append p record := by
  cases h with
  | relayed => exact .inl rfl
  | published => exact .inr ⟨_, _, rfl⟩
  | repeated => exact .inr ⟨_, _, rfl⟩
  | produced => exact .inr ⟨_, _, rfl⟩
  | consumed => exact .inl rfl

end Pipeline

end MessageDedup
