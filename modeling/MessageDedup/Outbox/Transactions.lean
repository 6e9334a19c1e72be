import MessageDedup.Lib.Transition
import MessageDedup.Outbox.Relay

/-!
# Relays over one table

Any number of `_process_batch` runs, each in a transaction of its own, and writers between them.
Postgres gives a transaction rows that no other open one has locked, and fails every statement of a
transaction after the first that failed.
-/

namespace MessageDedup

open Transition

/-! ## The state -/

inductive TxEvent where
  | sent (id : Nat) (message : Message) (acked : Bool)
  | marked (id : Nat) (status : OutboxStatus)
  | committed
  | rolledBack
  deriving DecidableEq

structure Tx where
  number : Nat
  updates : List Update
  aborted : Bool

abbrev TxTrace := List (Nat × TxEvent)

/-- `locks` pairs a transaction with a row it has locked. `table` is what is committed. -/
structure OutboxState where
  table : Table
  locks : List (Nat × Nat)
  relays : Nat → Option (RelayPc × Tx)
  nextTx : Nat
  trace : TxTrace

namespace OutboxState

def put (w : OutboxState) (r : Nat) (relay : Option (RelayPc × Tx)) : OutboxState :=
  { w with relays := Function.update w.relays r relay }

def log (w : OutboxState) (number : Nat) (event : TxEvent) : OutboxState :=
  { w with trace := (number, event) :: w.trace }

def lock (w : OutboxState) (number : Nat) (rows : List OutboxRow) : OutboxState :=
  { w with locks := rows.map (fun row => (number, row.id)) ++ w.locks }

def close (w : OutboxState) (tx : Tx) (commits : Bool) : OutboxState :=
  { w with
    table := if commits then w.table.apply tx.updates else w.table
    locks := w.locks.filter (·.1 ≠ tx.number)
    trace := (tx.number, if commits then .committed else .rolledBack) :: w.trace }

/-- What `FOR UPDATE SKIP LOCKED` may return. -/
def Fetchable (w : OutboxState) (limit : Nat) (rows : List OutboxRow) : Prop :=
  rows.length ≤ limit ∧ (rows.map (·.id)).Nodup ∧
    ∀ row ∈ rows, (∃ stored ∈ w.table, stored.row = row ∧ stored.status = .pending) ∧
      row.id ∉ w.locks.map (·.2)

instance (w : OutboxState) (limit : Nat) (rows : List OutboxRow) :
    Decidable (w.Fetchable limit rows) :=
  inferInstanceAs (Decidable (_ ∧ _ ∧ _))

def goOn (w : OutboxState) (r : Nat) (tx : Tx) : RelayNext → OutboxState
  | .pc pc => w.put r (some (pc, tx))
  | .done _ => w.put r none
  | .raised _ => w.put r none

end OutboxState

def Tx.update (tx : Tx) (update : Update) : Tx := { tx with updates := update :: tx.updates }

def Tx.abort (tx : Tx) : Tx := { tx with aborted := true }

/-! ## The steps -/

/-- `returned` and `raised` end the call that relay `r` awaits. `rows` is the reply to the `SELECT`,
`now` the clock of `published_at`. A `COMMIT` that raised may have been `applied`. -/
inductive OutboxAction where
  | write (id : Nat) (entry : OutboxEntry) (payload : String)
  | start (r : Nat)
  | returned (r : Nat) (rows : List OutboxRow) (now : Int)
  | raised (r : Nat) (exc : Exc) (applied : Bool)

namespace OutboxState

def returned (w : OutboxState) (limit r : Nat) (tx : Tx) (rows : List OutboxRow) (now : Int) :
    RelayPc → Option OutboxState
  | .beginning => some (w.goOn r tx (RelayPc.beginning.resume limit (.ok ())))
  | .fetching =>
    if w.Fetchable limit rows then
      some ((w.lock tx.number rows).goOn r tx (RelayPc.fetching.resume limit (.ok rows)))
    else none
  | .sending row rest published =>
    some ((w.log tx.number (.sent row.id row.message true)).goOn r tx
      ((RelayPc.sending row rest published).resume limit (.ok ())))
  | .markingPublished row rest published =>
    if tx.aborted then none
    else some ((w.log tx.number (.marked row.id .published)).goOn r
      (tx.update (markPublished now row.id))
      ((RelayPc.markingPublished row rest published).resume limit (.ok ())))
  | .markingFailed row rest published =>
    if tx.aborted then none
    else some ((w.log tx.number (.marked row.id .failed)).goOn r (tx.update (markFailed row.id))
      ((RelayPc.markingFailed row rest published).resume limit (.ok ())))
  | .committing published =>
    some ((w.close tx (!tx.aborted)).goOn r tx
      ((RelayPc.committing published).resume limit (.ok ())))
  | .rollingBack exc =>
    some ((w.close tx false).goOn r tx ((RelayPc.rollingBack exc).resume limit (.ok ())))

def raised (w : OutboxState) (limit r : Nat) (tx : Tx) (exc : Exc) (applied : Bool) :
    RelayPc → OutboxState
  | .beginning => w.goOn r tx (RelayPc.beginning.resume limit (.error exc))
  | .fetching => w.goOn r tx.abort (RelayPc.fetching.resume limit (.error exc))
  | .sending row rest published =>
    (w.log tx.number (.sent row.id row.message false)).goOn r tx
      ((RelayPc.sending row rest published).resume limit (.error exc))
  | .markingPublished row rest published =>
    w.goOn r tx.abort ((RelayPc.markingPublished row rest published).resume limit (.error exc))
  | .markingFailed row rest published =>
    w.goOn r tx.abort ((RelayPc.markingFailed row rest published).resume limit (.error exc))
  | .committing published =>
    (w.close tx (applied && !tx.aborted)).goOn r tx
      ((RelayPc.committing published).resume limit (.error exc))
  | .rollingBack exc' =>
    (w.close tx false).goOn r tx ((RelayPc.rollingBack exc').resume limit (.error exc))

def exec (batchSize : Nat → Nat) (w : OutboxState) : OutboxAction → Option OutboxState
  | .write id entry payload =>
    if id ∈ w.table.map (·.row.id) then none
    else some { w with table := w.table.insert id entry payload }
  | .start r =>
    match w.relays r with
    | some _ => none
    | none =>
      some { w.put r (some (.beginning, ⟨w.nextTx, [], false⟩)) with nextTx := w.nextTx + 1 }
  | .returned r rows now =>
    match w.relays r with
    | some (pc, tx) => w.returned (batchSize r) r tx rows now pc
    | none => none
  | .raised r exc applied =>
    match w.relays r with
    | some (pc, tx) => some (w.raised (batchSize r) r tx exc applied pc)
    | none => none

def empty : OutboxState := ⟨[], [], fun _ => none, 0, []⟩

end OutboxState

def outboxSystem (batchSize : Nat → Nat) : System OutboxState OutboxAction :=
  ofExec (· = .empty) (OutboxState.exec batchSize)

end MessageDedup
