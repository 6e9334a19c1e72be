import Mathlib.Logic.Function.Basic

/-!
# Transition systems

Runs of a labelled system, the invariant rule, guarded runs, and refinement of
one system by another. Nothing here knows what the states are.
-/

namespace Transition

variable {σ τ α β : Type*}

structure System (σ α : Type*) where
  init : σ → Prop
  step : σ → α → σ → Prop

inductive Reach (T : System σ α) : σ → Prop where
  | init {s : σ} : T.init s → Reach T s
  | step {s s' : σ} {a : α} : Reach T s → T.step s a s' → Reach T s'

/-- The invariant rule: the start has it and each step from a reached state keeps it. -/
theorem Reach.invariant {T : System σ α} (I : σ → Prop) (hinit : ∀ s, T.init s → I s)
    (hstep : ∀ s a s', Reach T s → I s → T.step s a s' → I s') {s : σ} (h : Reach T s) : I s := by
  induction h with
  | init h0 => exact hinit _ h0
  | step hr hs ih => exact hstep _ _ _ hr ih hs

/-! ## Runs whose steps all meet a condition -/

def System.guard (T : System σ α) (ok : σ → α → Prop) : System σ α where
  init := T.init
  step s a s' := ok s a ∧ T.step s a s'

theorem Reach.of_guard {T : System σ α} {ok : σ → α → Prop} {s : σ}
    (h : Reach (T.guard ok) s) : Reach T s := by
  induction h with
  | init h0 => exact .init h0
  | step _ hs ih => exact .step ih hs.2

/-! ## Runs that go on from a state -/

def System.startingAt (T : System σ α) (s : σ) : System σ α where
  init := (· = s)
  step := T.step

theorem Reach.trans {T : System σ α} {s s' : σ} (h : Reach T s) (h' : Reach (T.startingAt s) s') :
    Reach T s' := by
  induction h' with
  | init h0 => exact h0 ▸ h
  | step _ hs ih => exact .step ih hs

/-! ## Runs with a history -/

/-- The system beside a list of what its steps have noted, the newest first. -/
def System.recording (T : System σ α) (notes : σ → α → List β) : System (σ × List β) α where
  init s := T.init s.1 ∧ s.2 = []
  step s a s' := T.step s.1 a s'.1 ∧ s'.2 = notes s.1 a ++ s.2

theorem Reach.recorded {T : System σ α} {s : σ} (h : Reach T s) (notes : σ → α → List β) :
    ∃ history, Reach (T.recording notes) (s, history) := by
  induction h with
  | init h0 => exact ⟨[], .init ⟨h0, rfl⟩⟩
  | step _ hs ih =>
    obtain ⟨history, hr⟩ := ih
    exact ⟨_, .step hr ⟨hs, rfl⟩⟩

theorem Reach.of_recording {T : System σ α} {notes : σ → α → List β} {s : σ × List β}
    (h : Reach (T.recording notes) s) : Reach T s.1 := by
  induction h with
  | init h0 => exact .init h0.1
  | step _ hs ih => exact .step ih hs.1

theorem Reach.recording_of_guard {T : System σ α} {ok : σ → α → Prop} {notes : σ → α → List β}
    {s : σ × List β} (h : Reach ((T.guard ok).recording notes) s) :
    Reach (T.recording notes) s := by
  induction h with
  | init h0 => exact .init h0
  | step _ hs ih => exact .step ih ⟨hs.1.2, hs.2⟩

/-! ## Executable systems -/

/-- The system of a partial step function: `none` means that the step is not enabled. -/
def ofExec (init : σ → Prop) (exec : σ → α → Option σ) : System σ α where
  init := init
  step s a s' := exec s a = some s'

/-- The state after a list of actions that are all enabled and pass `check` where they are taken. -/
def replay (exec : σ → α → Option σ) (check : σ → α → Bool) (s : σ) : List α → Option σ
  | [] => some s
  | a :: as =>
    if check s a then (exec s a).bind fun s' => replay exec check s' as else none

theorem replay_singleton {exec : σ → α → Option σ} {check : σ → α → Bool} {s s' : σ} {a : α}
    (h : replay exec check s [a] = some s') : check s a = true ∧ exec s a = some s' := by
  simp only [replay] at h
  split at h
  · rename_i hpass
    exact ⟨hpass, by simpa using h⟩
  · simp at h

/-- A replayed list is a run. `Q` is what the checks may rely on in each state of it. -/
theorem reach_replay {init : σ → Prop} {exec : σ → α → Option σ} {ok : σ → α → Prop}
    {check : σ → α → Bool} (Q : σ → Prop)
    (hcheck : ∀ s a s', Q s → check s a = true → exec s a = some s' → ok s a ∧ Q s') {s s' : σ}
    {as : List α} (h0 : Reach ((ofExec init exec).guard ok) s) (hq : Q s)
    (h : replay exec check s as = some s') : Reach ((ofExec init exec).guard ok) s' ∧ Q s' := by
  induction as generalizing s with
  | nil =>
    simp only [replay, Option.some.injEq] at h
    exact h ▸ ⟨h0, hq⟩
  | cons a as ih =>
    simp only [replay] at h
    split at h
    · rename_i hpass
      rw [Option.bind_eq_some_iff] at h
      obtain ⟨s1, hs1, hrest⟩ := h
      obtain ⟨hok, hq1⟩ := hcheck s a s1 hq hpass hs1
      exact ih (.step h0 ⟨hok, hs1⟩) hq1 hrest
    · simp at h

/-! ## Refinement -/

/-- A step under a label, and no change without one. -/
def System.StepOrStay (A : System τ β) (t : τ) : Option β → τ → Prop
  | none, t' => t' = t
  | some b, t' => A.step t b t'

/-- Each step of `C` is one step of `A` under `label`, or leaves the abstract state alone. -/
structure Refines (C : System σ α) (A : System τ β) (abs : σ → τ) (label : σ → α → Option β) :
    Prop where
  init : ∀ s, C.init s → A.init (abs s)
  step : ∀ s a s', Reach C s → C.step s a s' → A.StepOrStay (abs s) (label s a) (abs s')

theorem Refines.startingAt {C : System σ α} {A : System τ β} {abs : σ → τ}
    {label : σ → α → Option β} (href : Refines C A abs label) {s : σ} (h : Reach C s) :
    Refines (C.startingAt s) (A.startingAt (abs s)) abs label where
  init := by
    rintro _ rfl
    rfl
  step := fun s' a s'' hr hs => href.step s' a s'' (h.trans hr) hs

/-- A run of the refining system is a run of the abstract one. The conditions carry over when
each allowed concrete step has an allowed label. -/
theorem Refines.reach {C : System σ α} {A : System τ β} {abs : σ → τ} {label : σ → α → Option β}
    (href : Refines C A abs label) {ok : σ → α → Prop} {ok' : τ → β → Prop}
    (hok : ∀ s a b, Reach (C.guard ok) s → ok s a → label s a = some b → ok' (abs s) b) {s : σ}
    (h : Reach (C.guard ok) s) : Reach (A.guard ok') (abs s) := by
  induction h with
  | init h0 => exact .init (href.init _ h0)
  | @step s s' a hr hs ih =>
    have hstep := href.step s a s' hr.of_guard hs.2
    cases hl : label s a with
    | none =>
      rw [hl] at hstep
      exact hstep ▸ ih
    | some b =>
      rw [hl] at hstep
      exact .step ih ⟨hok s a b hr hs.1 hl, hstep⟩

end Transition
