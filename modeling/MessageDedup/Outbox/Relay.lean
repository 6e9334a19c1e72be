import MessageDedup.Lib.Coroutine
import MessageDedup.Consumer.Record
import Mathlib.Data.List.Sort

/-!
# outbox.py

The `outbox` table, the writer's insert, and `_process_batch` as a program that awaits Postgres and
the producer. The points at which it awaits come after it, with the theorem that they make up the
program.
-/

namespace MessageDedup

open Coroutine (Proc)

/-! ## The table -/

structure OutboxEntry where
  topic : String
  messageId : String
  payload : List (String × Json)
  createdAt : Int

inductive OutboxStatus where
  | pending
  | published
  | failed
  deriving DecidableEq, Repr

/-- The columns that `_FETCH_SQL` selects. `payload` is the text of the JSONB column. -/
structure OutboxRow where
  id : Nat
  topic : String
  messageId : String
  payload : String
  deriving DecidableEq, Repr

structure Stored where
  row : OutboxRow
  status : OutboxStatus
  createdAt : Int
  publishedAt : Option Int
  deriving DecidableEq, Repr

abbrev Table := List Stored

/-- What an `UPDATE` of the relay sets. -/
structure Update where
  id : Nat
  status : OutboxStatus
  publishedAt : Option Int
  deriving DecidableEq, Repr

namespace Table

/-- `_INSERT_SQL`, where the sequence gives `id` and the JSONB column keeps `payload`. -/
def insert (table : Table) (id : Nat) (entry : OutboxEntry) (payload : String) : Table :=
  if ∃ stored ∈ table, stored.row.messageId = entry.messageId then table
  else table ++ [⟨⟨id, entry.topic, entry.messageId, payload⟩, .pending, entry.createdAt, none⟩]

/-- `_FETCH_SQL`: the first `limit` PENDING rows by id, past the locked ones. -/
def fetch (table : Table) (locked : List Nat) (limit : Nat) : List OutboxRow :=
  let rows := (table.filter fun stored =>
    stored.status = .pending ∧ stored.row.id ∉ locked).map (·.row)
  (rows.insertionSort fun a b => a.id ≤ b.id).take limit

theorem mem_fetch {table : Table} {locked : List Nat} {limit : Nat} {row : OutboxRow}
    (h : row ∈ table.fetch locked limit) :
    ∃ stored ∈ table, stored.row = row ∧ stored.status = .pending ∧ row.id ∉ locked := by
  unfold Table.fetch at h
  have hrow := (List.perm_insertionSort _ _).mem_iff.mp (List.mem_of_mem_take h)
  obtain ⟨stored, hstored, rfl⟩ := List.mem_map.mp hrow
  obtain ⟨hmem, hstatus⟩ := List.mem_filter.mp hstored
  simp only [decide_eq_true_eq] at hstatus
  exact ⟨stored, hmem, rfl, hstatus⟩

end Table

def Stored.updated (update : Update) (stored : Stored) : Stored :=
  { stored with
    status := update.status
    publishedAt := update.publishedAt.or stored.publishedAt }

/-- `_MARK_PUBLISHED_SQL` -/
def markPublished (now : Int) (id : Nat) : Update := ⟨id, .published, some now⟩

/-- `_MARK_FAILED_SQL` -/
def markFailed (id : Nat) : Update := ⟨id, .failed, none⟩

/-- The row after the last of its updates. `updates` has the newest first. -/
def Stored.after (updates : List Update) (stored : Stored) : Stored :=
  match updates.find? (·.id = stored.row.id) with
  | some update => stored.updated update
  | none => stored

def Table.apply (updates : List Update) (table : Table) : Table := table.map (·.after updates)

/-! ## The calls -/

/-- What the producer sends. There are no headers. -/
structure Message where
  topic : String
  value : Bytes
  key : Bytes
  deriving DecidableEq, Repr

def OutboxRow.message (row : OutboxRow) : Message :=
  ⟨row.topic, encode row.payload, encode row.messageId⟩

inductive RelayCall where
  | begin
  | fetch (limit : Nat)
  | sendAndWait (message : Message)
  | markPublished (id : Nat)
  | markFailed (id : Nat)
  | commit
  | rollback

abbrev RelayCall.Reply : RelayCall → Type
  | .fetch _ => List OutboxRow
  | _ => Unit

abbrev RelayProgram (A : Type) := Proc RelayCall RelayCall.Reply Unit Exc A

def relayCall (c : RelayCall) : RelayProgram c.Reply := Proc.call c

/-! ## The program -/

/-- The end of `async with conn.transaction()`. -/
def closeTransaction : Except Exc Nat → RelayProgram Nat
  | .ok published => do
    relayCall .commit
    return published
  | .error exc => do
    relayCall .rollback
    Proc.raise exc

/-- The `except` clause of the `for` loop. The answer says whether the row counts as published. -/
def rowDone (row : OutboxRow) : Except Exc Unit → RelayProgram Bool
  | .ok _ => return true
  | .error exc =>
    if exc.isException then do
      relayCall (.markFailed row.id)
      return false
    else Proc.raise exc

def publishRow (row : OutboxRow) : RelayProgram Bool :=
  Proc.attempt (do
    relayCall (.sendAndWait row.message)
    relayCall (.markPublished row.id)) (rowDone row)

def publishRows : List OutboxRow → (published : Nat) → RelayProgram Nat
  | [], published => return published
  | row :: rows, published => do
    if ← publishRow row then publishRows rows (published + 1) else publishRows rows published

def processBatch (batchSize : Nat) : RelayProgram Nat := do
  relayCall .begin
  Proc.attempt (do
    let rows ← relayCall (.fetch batchSize)
    publishRows rows 0) closeTransaction

/-! ## Its awaits -/

inductive RelayPc where
  | beginning
  | fetching
  | sending (row : OutboxRow) (rest : List OutboxRow) (published : Nat)
  | markingPublished (row : OutboxRow) (rest : List OutboxRow) (published : Nat)
  | markingFailed (row : OutboxRow) (rest : List OutboxRow) (published : Nat)
  | committing (published : Nat)
  | rollingBack (exc : Exc)
  deriving DecidableEq

inductive RelayNext where
  | pc (pc : RelayPc)
  | done (published : Nat)
  | raised (exc : Exc)

namespace RelayPc

def call (batchSize : Nat) : RelayPc → RelayCall
  | beginning => .begin
  | fetching => .fetch batchSize
  | sending row _ _ => .sendAndWait row.message
  | markingPublished row _ _ => .markPublished row.id
  | markingFailed row _ _ => .markFailed row.id
  | committing _ => .commit
  | rollingBack _ => .rollback

/-- The top of the `for` loop. -/
def loop : List OutboxRow → (published : Nat) → RelayPc
  | [], published => committing published
  | row :: rest, published => sending row rest published

/-- `except Exception` -/
def afterError (row : OutboxRow) (rest : List OutboxRow) (published : Nat) (exc : Exc) : RelayPc :=
  if exc.isException then markingFailed row rest published else rollingBack exc

def resume (batchSize : Nat) : (pc : RelayPc) → Except Exc (pc.call batchSize).Reply → RelayNext
  | beginning, .ok _ => .pc fetching
  | beginning, .error exc => .raised exc
  | fetching, .ok rows => .pc (loop rows 0)
  | fetching, .error exc => .pc (rollingBack exc)
  | sending row rest published, .ok _ => .pc (markingPublished row rest published)
  | sending row rest published, .error exc => .pc (afterError row rest published exc)
  | markingPublished _ rest published, .ok _ => .pc (loop rest (published + 1))
  | markingPublished row rest published, .error exc => .pc (afterError row rest published exc)
  | markingFailed _ rest published, .ok _ => .pc (loop rest published)
  | markingFailed _ _ _, .error exc => .pc (rollingBack exc)
  | committing published, .ok _ => .done published
  | committing _, .error exc => .raised exc
  | rollingBack exc, .ok _ => .raised exc
  | rollingBack _, .error exc => .raised exc

/-- The rest of the `for` loop after a row. -/
def rowsAfter (rest : List OutboxRow) (published : Nat) (counts : Bool) : RelayProgram Nat :=
  if counts then publishRows rest (published + 1) else publishRows rest published

/-- What is left of `_process_batch` at an await. -/
def rest (batchSize : Nat) : RelayPc → RelayProgram Nat
  | beginning => processBatch batchSize
  | fetching => Proc.attempt (do
      let rows ← relayCall (.fetch batchSize)
      publishRows rows 0) closeTransaction
  | sending row rest published => (publishRows (row :: rest) published).attempt closeTransaction
  | markingPublished row rest published =>
    (((relayCall (.markPublished row.id)).attempt (rowDone row)).bind
      (rowsAfter rest published)).attempt closeTransaction
  | markingFailed row rest published =>
    ((relayCall (.markFailed row.id)).bind fun _ => rowsAfter rest published false).attempt
      closeTransaction
  | committing published => closeTransaction (.ok published)
  | rollingBack exc => closeTransaction (.error exc)

def restOf (batchSize : Nat) : RelayNext → RelayProgram Nat
  | .pc pc => pc.rest batchSize
  | .done published => return published
  | .raised exc => Proc.raise exc

theorem rest_loop (batchSize : Nat) (rows : List OutboxRow) (published : Nat) :
    (loop rows published).rest batchSize =
      (publishRows rows published).attempt closeTransaction := by
  cases rows <;> rfl

theorem rest_afterError (batchSize : Nat) (row : OutboxRow) (rows : List OutboxRow)
    (published : Nat) (exc : Exc) :
    (afterError row rows published exc).rest batchSize =
      ((rowDone row (.error exc)).bind (rowsAfter rows published)).attempt closeTransaction := by
  have hcases : exc.isException = true ∨ exc.isException = false := by
    cases exc.isException <;> simp
  rcases hcases with hexc | hexc
  · have hpc : afterError row rows published exc = markingFailed row rows published := by
      simp [afterError, hexc]
    have hdone : rowDone row (.error exc) =
        (do relayCall (.markFailed row.id); return false) := by
      simp [rowDone, hexc]
    rw [hpc, hdone]
    refine Proc.await_congr fun r => ?_
    rcases r with e | r <;> rfl
  · have hpc : afterError row rows published exc = rollingBack exc := by
      simp [afterError, hexc]
    have hdone : rowDone row (.error exc) = Proc.raise exc := by
      simp [rowDone, hexc]
    rw [hpc, hdone]
    rfl

/-- Between two calls the automaton does what the program does. -/
theorem rest_eq (batchSize : Nat) (pc : RelayPc) :
    pc.rest batchSize =
      .await (pc.call batchSize) fun r => restOf batchSize (pc.resume batchSize r) := by
  cases pc with
  | beginning =>
    refine Proc.await_congr fun r => ?_
    rcases r with e | r <;> rfl
  | fetching =>
    refine Proc.await_congr fun r => ?_
    rcases r with e | rows
    · rfl
    · exact (rest_loop batchSize rows 0).symm
  | sending row rest published =>
    refine Proc.await_congr fun r => ?_
    rcases r with e | r
    · exact (rest_afterError batchSize row rest published e).symm
    · rfl
  | markingPublished row rest published =>
    refine Proc.await_congr fun r => ?_
    rcases r with e | r
    · exact (rest_afterError batchSize row rest published e).symm
    · exact (rest_loop batchSize rest (published + 1)).symm
  | markingFailed row rest published =>
    refine Proc.await_congr fun r => ?_
    rcases r with e | r
    · rfl
    · exact (rest_loop batchSize rest published).symm
  | committing published =>
    refine Proc.await_congr fun r => ?_
    rcases r with e | r <;> rfl
  | rollingBack exc =>
    refine Proc.await_congr fun r => ?_
    rcases r with e | r <;> rfl

end RelayPc

end MessageDedup
