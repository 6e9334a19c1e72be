import MessageDedup.Python
import Mathlib.Order.Basic
import Mathlib.Data.Int.Order.Basic

/-!
# The deduplication store: its data, its interface, and what it means

The first part is `models.py` and `store.py`. The second part says what a store does to the
record of one message, with no keys, texts or scripts in it. `Memory.lean` and `Redis.lean` show
that both stores do exactly that. Times are in microseconds, and a `none` result is Python's
`None`.
-/

namespace MessageDedup

/-! ## models.py -/

inductive StatusValue where
  | processing
  | completed
  | failed
  | skipped
  deriving DecidableEq, Repr

structure ProcessingStatus (V : Type) where
  messageId : String
  status : StatusValue
  attempts : Int := 1
  result : Option V := none
  error : Option String := none
  leaseExpiresAt : Option Int := none
  createdAt : Int
  updatedAt : Int
  deriving DecidableEq

def ProcessingStatus.isFailed {V : Type} (record : ProcessingStatus V) : Bool :=
  record.status = .failed

structure DeduplicationConfig where
  ttlSeconds : Int := 86400
  maxRetries : Int := 3
  retryBackoffMs : Int := 500
  processingTimeoutSeconds : Int := 300
  retryFailed : Bool := true
  deriving DecidableEq, Repr

/-! ## store.py -/

/-- The contract of a backend. Each operation is one atomic step at the time `now`. -/
structure DeduplicationStore (σ V : Type) where
  claim : σ → (now : Int) → (messageId : String) → Except Exc (σ × Bool)
  isDuplicate : σ → (now : Int) → (messageId : String) → Bool
  markCompleted : σ → (now : Int) → (messageId : String) → (result : Option V) → Except Exc σ
  markFailed : σ → (now : Int) → (messageId : String) → (error : String) → (attempts : Int) →
    Except Exc σ
  getStatus : σ → (now : Int) → (messageId : String) → Option (ProcessingStatus V)
  delete : σ → (messageId : String) → σ

/-! ## The record of one message -/

structure Cell where
  status : StatusValue
  attempts : Int
  lease : Option Int
  deriving DecidableEq, Repr

namespace Cell

def Retryable (config : DeduplicationConfig) (cell : Cell) : Prop :=
  cell.status = .failed ∧ config.retryFailed = true ∧ cell.attempts < config.maxRetries

def Orphaned (now : Int) (cell : Cell) : Prop :=
  cell.status = .processing ∧ ∃ lease ∈ cell.lease, lease ≤ now

/-- `claim()` succeeds on a missing record, a retryable one and an orphaned one. -/
def Claimable (config : DeduplicationConfig) (now : Int) : Option Cell → Prop
  | none => True
  | some cell => cell.Retryable config ∨ cell.Orphaned now

instance (config : DeduplicationConfig) (cell : Cell) : Decidable (cell.Retryable config) :=
  inferInstanceAs (Decidable (_ ∧ _ ∧ _))

instance (now : Int) (cell : Cell) : Decidable (cell.Orphaned now) :=
  inferInstanceAs (Decidable (_ ∧ _))

instance (config : DeduplicationConfig) (now : Int) :
    (cell : Option Cell) → Decidable (Claimable config now cell)
  | none => inferInstanceAs (Decidable True)
  | some cell => inferInstanceAs (Decidable (cell.Retryable config ∨ cell.Orphaned now))

def claimed (leaseUntil : Int) (cell : Option Cell) : Cell where
  status := .processing
  attempts := cell.elim 1 (·.attempts + 1)
  lease := some leaseUntil

def completed (cell : Cell) : Cell :=
  if cell.status = .processing then { cell with status := .completed, lease := none } else cell

/-- With `guarded`, only a PROCESSING record fails. -/
def markedFailed (guarded : Bool) (attempts : Int) (cell : Cell) : Cell :=
  if guarded = true ∧ cell.status ≠ .processing then cell
  else { status := .failed, attempts := attempts, lease := none }

variable {config : DeduplicationConfig} {now leaseUntil attempts : Int} {guarded : Bool}
  {cell : Cell}

@[simp] theorem claimable_none : Claimable config now none := trivial

@[simp] theorem claimed_status (old : Option Cell) :
    (claimed leaseUntil old).status = .processing := rfl
@[simp] theorem claimed_lease (old : Option Cell) :
    (claimed leaseUntil old).lease = some leaseUntil := rfl

theorem not_claimable_completed (h : cell.status = .completed) :
    ¬ Claimable config now (some cell) := by
  simp [Claimable, Retryable, Orphaned, h]

theorem claimable_failed (h : cell.status = .failed) :
    Claimable config now (some cell) ↔ cell.Retryable config := by
  simp [Claimable, Orphaned, h]

theorem claimable_processing (h : cell.status = .processing) :
    Claimable config now (some cell) ↔ cell.Orphaned now := by
  simp [Claimable, Retryable, h]

theorem not_claimable_of_live (h : cell.status = .processing) {lease : Int}
    (hl : cell.lease = some lease) (hnow : now < lease) : ¬ Claimable config now (some cell) := by
  rw [claimable_processing h]
  rintro ⟨-, l, hmem, hle⟩
  simp only [hl, Option.mem_def, Option.some.injEq] at hmem
  omega

theorem completed_of_processing (h : cell.status = .processing) :
    cell.completed.status = .completed := by
  simp [completed, h]

theorem completed_of_ne (h : cell.status ≠ .processing) : cell.completed = cell := by
  simp [completed, h]

theorem markedFailed_of_processing (h : cell.status = .processing) :
    cell.markedFailed guarded attempts = ⟨.failed, attempts, none⟩ := by
  simp [markedFailed, h]

theorem markedFailed_of_ne (h : cell.status ≠ .processing) :
    cell.markedFailed true attempts = cell := by
  simp [markedFailed, h]

end Cell

/-! ## What a store does -/

def ProcessingStatus.cell {V : Type} (record : ProcessingStatus V) : Cell :=
  ⟨record.status, record.attempts, record.leaseExpiresAt⟩

def DeduplicationStore.cell {σ V : Type} (store : DeduplicationStore σ V) (s : σ) (now : Int)
    (messageId : String) : Option Cell :=
  (store.getStatus s now messageId).map (·.cell)

/-- The operations of `store` are those of `Cell` on the message they name, and leave every other
message alone. A claim made at `now` has a lease until `leaseUntil now`. `guarded` says whether
`mark_failed` spares a record that is not PROCESSING. As time goes by, a record may expire, and
changes in no other way. -/
structure DeduplicationStore.Lawful {σ V : Type} (store : DeduplicationStore σ V)
    (config : DeduplicationConfig) (guarded : Bool) (leaseUntil : Int → Int) : Prop where
  claim : ∀ {s s' now m b}, store.claim s now m = .ok (s', b) →
    b = decide (Cell.Claimable config now (store.cell s now m)) ∧
      store.cell s' now m =
        if b then some (Cell.claimed (leaseUntil now) (store.cell s now m))
        else store.cell s now m
  claim_frame : ∀ {s s' now m b}, store.claim s now m = .ok (s', b) →
    ∀ t m', m' ≠ m → store.cell s' t m' = store.cell s t m'
  markCompleted : ∀ {s s' now m r}, store.markCompleted s now m r = .ok s' →
    store.cell s' now m = (store.cell s now m).map Cell.completed
  markCompleted_frame : ∀ {s s' now m r}, store.markCompleted s now m r = .ok s' →
    ∀ t m', m' ≠ m → store.cell s' t m' = store.cell s t m'
  markFailed : ∀ {s s' now m e a}, store.markFailed s now m e a = .ok s' →
    store.cell s' now m = (store.cell s now m).map (Cell.markedFailed guarded a)
  markFailed_frame : ∀ {s s' now m e a}, store.markFailed s now m e a = .ok s' →
    ∀ t m', m' ≠ m → store.cell s' t m' = store.cell s t m'
  expires : ∀ {s now t m}, now ≤ t →
    store.cell s t m = store.cell s now m ∨ store.cell s t m = none

end MessageDedup
