import MessageDedup.Store.Spec
import Mathlib.Logic.Function.Basic

/-! # memory_store.py -/

namespace MessageDedup

variable {V : Type}

/-- `self._store`: a dict of records by message id. -/
abbrev MemoryState (V : Type) := String → Option (ProcessingStatus V)

namespace InMemory

/-- A claim computes its lease first: one that no `datetime` can hold makes it raise. -/
def claim (config : DeduplicationConfig) (store : MemoryState V) (now : Int) (messageId : String) :
    Except Exc (MemoryState V × Bool) := do
  let leaseExpiresAt ← addSeconds now config.processingTimeoutSeconds
  match store messageId with
  | some existing =>
    let retryable :=
      existing.isFailed ∧ config.retryFailed = true ∧ existing.attempts < config.maxRetries
    let orphaned :=
      existing.status = .processing ∧ ∃ lease ∈ existing.leaseExpiresAt, lease ≤ now
    if retryable ∨ orphaned then
      return (Function.update store messageId (some {
        messageId := messageId
        status := .processing
        attempts := existing.attempts + 1
        leaseExpiresAt := some leaseExpiresAt
        createdAt := existing.createdAt
        updatedAt := now }), true)
    else return (store, false)
  | none =>
    return (Function.update store messageId (some {
      messageId := messageId
      status := .processing
      leaseExpiresAt := some leaseExpiresAt
      createdAt := now
      updatedAt := now }), true)

def isDuplicate (store : MemoryState V) (messageId : String) : Bool := (store messageId).isSome

def markCompleted (store : MemoryState V) (now : Int) (messageId : String) (result : Option V) :
    MemoryState V :=
  match store messageId with
  | none => store
  | some record =>
    if record.status ≠ .processing then store
    else Function.update store messageId (some { record with
      status := .completed
      result := result
      leaseExpiresAt := none
      updatedAt := now })

def markFailed (store : MemoryState V) (now : Int) (messageId error : String) (attempts : Int) :
    MemoryState V :=
  match store messageId with
  | none => store
  | some record => Function.update store messageId (some { record with
      status := .failed
      error := some error
      attempts := attempts
      leaseExpiresAt := none
      updatedAt := now })

def delete (store : MemoryState V) (messageId : String) : MemoryState V :=
  Function.update store messageId none

end InMemory

def inMemoryStore (V : Type) (config : DeduplicationConfig) :
    DeduplicationStore (MemoryState V) V where
  claim := InMemory.claim config
  isDuplicate store _ messageId := InMemory.isDuplicate store messageId
  markCompleted store now messageId result :=
    .ok (InMemory.markCompleted store now messageId result)
  markFailed store now messageId error attempts :=
    .ok (InMemory.markFailed store now messageId error attempts)
  getStatus store _ messageId := store messageId
  delete := InMemory.delete

namespace InMemory

variable {config : DeduplicationConfig} {store : MemoryState V} {now : Int} {m : String}

theorem cell_eq (t : Int) :
    (inMemoryStore V config).cell store t m = (store m).map ProcessingStatus.cell := rfl

/-- The lease of a claim made at `now`. -/
def leaseUntil (config : DeduplicationConfig) (now : Int) : Int :=
  now + config.processingTimeoutSeconds * 1000000

def TakesLease (config : DeduplicationConfig) (now : Int) : Prop :=
  addSeconds now config.processingTimeoutSeconds = .ok (leaseUntil config now)

theorem takesLease_of_ok {t : Int} (h : addSeconds now config.processingTimeoutSeconds = .ok t) :
    TakesLease config now := by
  obtain ⟨-, rfl⟩ := addSeconds_ok h
  exact h

theorem claim_raises : (∃ exc, claim config store now m = .error exc) ↔
    ¬ TakesLease config now := by
  unfold claim
  cases hlease : addSeconds now config.processingTimeoutSeconds with
  | error exc => simp [TakesLease, hlease, bind, Except.bind]
  | ok t =>
    simp only [takesLease_of_ok hlease, bind, Except.bind, not_true, iff_false, not_exists]
    intro exc
    cases store m with
    | none => exact nofun
    | some existing =>
      dsimp only
      split <;> exact nofun

theorem claim_none (hlease : TakesLease config now) (h : store m = none) :
    claim config store now m =
      .ok (Function.update store m (some {
        messageId := m
        status := .processing
        leaseExpiresAt := some (leaseUntil config now)
        createdAt := now
        updatedAt := now }), true) := by
  unfold claim
  rw [hlease]
  simp only [h]
  rfl

theorem claim_some {existing : ProcessingStatus V} (hlease : TakesLease config now)
    (h : store m = some existing) :
    claim config store now m =
      if Cell.Claimable config now (some existing.cell) then
        .ok (Function.update store m (some {
          messageId := m
          status := .processing
          attempts := existing.attempts + 1
          leaseExpiresAt := some (leaseUntil config now)
          createdAt := existing.createdAt
          updatedAt := now }), true)
      else .ok (store, false) := by
  unfold claim
  rw [hlease]
  simp only [h, bind, Except.bind]
  apply if_congr _ rfl rfl
  simp only [Cell.Claimable, Cell.Retryable, Cell.Orphaned, ProcessingStatus.cell,
    ProcessingStatus.isFailed, decide_eq_true_eq]

variable {store' : MemoryState V} {b : Bool}

theorem takesLease_of_claim (h : claim config store now m = .ok (store', b)) :
    TakesLease config now := by
  by_contra hnot
  obtain ⟨exc, hraised⟩ := claim_raises.mpr hnot
  rw [hraised] at h
  cases h

theorem claim_ok (h : claim config store now m = .ok (store', b)) :
    b = decide (Cell.Claimable config now ((store m).map ProcessingStatus.cell)) ∧
      (store' m).map ProcessingStatus.cell =
        if b then some (Cell.claimed (leaseUntil config now) ((store m).map ProcessingStatus.cell))
        else (store m).map ProcessingStatus.cell := by
  have hlease : TakesLease config now := takesLease_of_claim h
  cases hm : store m with
  | none =>
    rw [claim_none hlease hm] at h
    cases h
    simp [Cell.claimed, ProcessingStatus.cell]
  | some existing =>
    rw [claim_some hlease hm] at h
    split at h
    · rename_i hclaim
      cases h
      refine ⟨by simp only [Option.map_some, hclaim, decide_true], ?_⟩
      simp [Cell.claimed, ProcessingStatus.cell]
    · rename_i hclaim
      cases h
      refine ⟨by simp only [Option.map_some, hclaim, decide_false], ?_⟩
      simp [hm]

theorem claim_other {m' : String} (h : claim config store now m = .ok (store', b)) (hne : m' ≠ m) :
    store' m' = store m' := by
  have hlease : TakesLease config now := takesLease_of_claim h
  cases hm : store m with
  | none =>
    rw [claim_none hlease hm] at h
    cases h
    exact Function.update_of_ne hne _ _
  | some existing =>
    rw [claim_some hlease hm] at h
    split at h <;> cases h
    · exact Function.update_of_ne hne _ _
    · rfl

theorem markCompleted_spec (r : Option V) :
    (markCompleted store now m r m).map ProcessingStatus.cell =
      ((store m).map ProcessingStatus.cell).map Cell.completed := by
  unfold markCompleted
  cases h : store m with
  | none => simp [h]
  | some record =>
    by_cases hp : record.status = .processing
    · simp [hp, Cell.completed, ProcessingStatus.cell]
    · simp [hp, h, Cell.completed, ProcessingStatus.cell]

theorem markCompleted_other {m' : String} (h : m' ≠ m) (r : Option V) :
    markCompleted store now m r m' = store m' := by
  unfold markCompleted
  cases store m with
  | none => rfl
  | some record =>
    simp only
    split
    · rfl
    · exact Function.update_of_ne h _ _

theorem markFailed_spec (e : String) (a : Int) :
    (markFailed store now m e a m).map ProcessingStatus.cell =
      ((store m).map ProcessingStatus.cell).map (Cell.markedFailed false a) := by
  unfold markFailed
  cases h : store m with
  | none => simp [h]
  | some record => simp [Cell.markedFailed, ProcessingStatus.cell]

theorem markFailed_other {m' : String} (h : m' ≠ m) (e : String) (a : Int) :
    markFailed store now m e a m' = store m' := by
  unfold markFailed
  cases store m with
  | none => rfl
  | some record => exact Function.update_of_ne h _ _

end InMemory

/-- The in-memory store is lawful. Its `mark_failed` has no guard. -/
theorem inMemoryStore_lawful (config : DeduplicationConfig) :
    (inMemoryStore V config).Lawful config false (InMemory.leaseUntil config) where
  claim := InMemory.claim_ok
  claim_frame := by
    intro s s' now m b h t m' hne
    rw [InMemory.cell_eq, InMemory.claim_other h hne, InMemory.cell_eq]
  markCompleted := by
    rintro s s' now m r ⟨⟩
    exact InMemory.markCompleted_spec r
  markCompleted_frame := by
    rintro s s' now m r ⟨⟩ t m' hne
    rw [InMemory.cell_eq, InMemory.markCompleted_other hne, InMemory.cell_eq]
  markFailed := by
    rintro s s' now m e a ⟨⟩
    exact InMemory.markFailed_spec e a
  markFailed_frame := by
    rintro s s' now m e a ⟨⟩ t m' hne
    rw [InMemory.cell_eq, InMemory.markFailed_other hne, InMemory.cell_eq]
  expires := fun _ => .inl rfl

end MessageDedup
