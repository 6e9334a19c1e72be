import MessageDedup.Lib.Coroutine
import MessageDedup.Lib.Transition
import Mathlib.Logic.Relation

/-!
# A program among others

A program that waits for the answers to its calls, and others that move the state it shares with
them while it waits. Some calls are answered at once, before anything else can move.
-/

namespace Coroutine

open Transition (Reach System)

/-- A program and the state that it shares. -/
structure Among (C : Type) (R : C → Type) (M E A σ : Type) where
  program : Proc C R M E A
  shared : σ

/-- What goes on around a program: `α` are the moves of the others, and `ω` is what may come back
to a call that waits. -/
structure Setting (C : Type) (R : C → Type) (E σ α ω : Type) where
  atOnce : (c : C) → Option (σ → σ × R c)
  move : σ → α → Option σ
  answer : σ → (c : C) → ω → Option (σ × Except E (R c))

namespace Setting

variable {C : Type} {R : C → Type} {M E A B σ α ω : Type}

section

variable (w : Setting C R E σ α ω)

/-- The program goes on up to its next call that waits. -/
def settle : Proc C R M E A → σ → Among C R M E A σ
  | .pure a, s => ⟨.pure a, s⟩
  | .raise e, s => ⟨.raise e, s⟩
  | .emit _ k, s => settle k s
  | .await c k, s =>
    match w.atOnce c with
    | some f => settle (k (.ok (f s).2)) (f s).1
    | none => ⟨.await c k, s⟩

def exec (x : Among C R M E A σ) : α ⊕ ω → Option (Among C R M E A σ)
  | .inl a => (w.move x.shared a).map fun s => { x with shared := s }
  | .inr o =>
    match x.program with
    | .await c k => (w.answer x.shared c o).map fun y => w.settle (k y.2) y.1
    | _ => none

def system (p : Proc C R M E A) (init : σ → Prop) : System (Among C R M E A σ) (α ⊕ ω) :=
  Transition.ofExec (fun x => ∃ s, init s ∧ x = w.settle p s) w.exec

/-! ## What a program keeps -/

def Moves : σ → σ → Prop := Relation.ReflTransGen fun s s' => ∃ a, w.move s a = some s'

/-- An assertion that the others keep. -/
def Stable (I : σ → Prop) : Prop := ∀ s a s', I s → w.move s a = some s' → I s'

def Waits (P : σ → C → Prop) (s : σ) (c : C) : Prop :=
  w.atOnce c = none → ∀ s', w.Moves s s' → P s' c

def Answers (s : σ) (c : C) (r : Except E (R c)) (s' : σ) : Prop :=
  match w.atOnce c with
  | some f => s' = (f s).1 ∧ r = .ok (f s).2
  | none => ∃ s₁ o, w.Moves s s₁ ∧ w.answer s₁ c o = some (s', r)

def Ends (ok : A → σ → Prop) (error : E → σ → Prop) (s : σ) (_ : List M) :
    Except E A → Prop
  | .ok a => ok a s
  | .error e => error e s

/-- While `p` waits for a call, `P` holds of the shared state and the call, whatever the others
do. When it ends, `ok` or `error` holds. -/
def Keeps (P : σ → C → Prop) (ok : A → σ → Prop) (error : E → σ → Prop) (p : Proc C R M E A)
    (s : σ) : Prop :=
  p.Ensures (w.Waits P) w.Answers (Ends ok error) s

/-- What `Keeps` says of a state that is reached. -/
def Holds (P : σ → C → Prop) (ok : A → σ → Prop) (error : E → σ → Prop)
    (x : Among C R M E A σ) : Prop :=
  match x.program with
  | .pure a => ok a x.shared
  | .raise e => error e x.shared
  | .emit _ _ => False
  | .await c _ => P x.shared c

end

variable {w : Setting C R E σ α ω} {P : σ → C → Prop} {ok : A → σ → Prop}
  {error : E → σ → Prop} {p : Proc C R M E A} {s s' : σ} {c : C}

theorem Stable.moves {I : σ → Prop} (hI : w.Stable I) (hs : I s) (h : w.Moves s s') : I s' := by
  induction h with
  | refl => exact hs
  | tail _ hlast ih =>
    obtain ⟨a, ha⟩ := hlast
    exact hI _ a _ ih ha

namespace Keeps

theorem mono (h : w.Keeps P ok error p s) {ok' : A → σ → Prop} {error' : E → σ → Prop}
    (hok : ∀ a s', ok a s' → ok' a s') (herror : ∀ e s', error e s' → error' e s') :
    w.Keeps P ok' error' p s := by
  refine Proc.Ensures.mono h ?_
  rintro s' ms (e | a) hend
  · exact herror e s' hend
  · exact hok a s' hend

theorem bind {f : A → Proc C R M E B} {ok' : B → σ → Prop} (h : w.Keeps P ok error p s)
    (hf : ∀ a s', ok a s' → w.Keeps P ok' error (f a) s') : w.Keeps P ok' error (p.bind f) s := by
  refine Proc.Ensures.bind h ?_ ?_
  · exact fun s' ms a ha => Proc.Ensures.mono (hf a s' ha) fun _ _ r hr => by cases r <;> exact hr
  · exact fun s' ms e he => he

theorem pure {a : A} (h : ok a s) : w.Keeps P ok error (Proc.pure a : Proc C R M E A) s := h

theorem raise {e : E} (h : error e s) : w.Keeps P ok error (Proc.raise e : Proc C R M E A) s := h

theorem call {ok : R c → σ → Prop} {f : σ → σ × R c} (hc : w.atOnce c = some f)
    (h : ok (f s).2 (f s).1) : w.Keeps P ok error (Proc.call c : Proc C R M E (R c)) s := by
  refine ⟨fun hwaits => by simp [hc] at hwaits, ?_⟩
  intro r s' hr
  unfold Answers at hr
  rw [hc] at hr
  obtain ⟨rfl, rfl⟩ := hr
  exact h

/-- A call that waits, with an assertion that the others keep meanwhile. -/
theorem wait {ok : R c → σ → Prop} (hc : w.atOnce c = none) (I : σ → Prop) (hs : I s)
    (hI : w.Stable I) (hP : ∀ s, I s → P s c)
    (hok : ∀ s o s' r, I s → w.answer s c o = some (s', .ok r) → ok r s')
    (herror : ∀ s o s' e, I s → w.answer s c o = some (s', .error e) → error e s') :
    w.Keeps P ok error (Proc.call c : Proc C R M E (R c)) s := by
  refine ⟨fun _ s' hmoves => hP s' (hI.moves hs hmoves), ?_⟩
  intro r s' hr
  unfold Answers at hr
  rw [hc] at hr
  obtain ⟨s₁, o, hmoves, hanswer⟩ := hr
  have h₁ := hI.moves hs hmoves
  cases r with
  | ok a => exact hok s₁ o s' a h₁ hanswer
  | error e => exact herror s₁ o s' e h₁ hanswer

/-- The loop rule. `I` speaks of the elements that are still to come. -/
theorem forM {X : Type} {f : X → Proc C R M E Unit} (I : List X → σ → Prop)
    (hstep : ∀ x rest s, I (x :: rest) s → w.Keeps P (fun _ => I rest) error (f x) s)
    (xs : List X) (h : I xs s) :
    w.Keeps P (fun _ => I []) error (ForM.forM xs f) s := by
  induction xs generalizing s with
  | nil => exact h
  | cons x rest ih =>
    rw [List.forM_cons]
    exact (hstep x rest s h).bind fun _ s' hs' => ih hs'

end Keeps

/-! ## The states that are reached -/

/-- At the end, or at a call that waits. -/
def Settled (w : Setting C R E σ α ω) : Proc C R M E A → Prop
  | .emit _ _ => False
  | .await c _ => w.atOnce c = none
  | _ => True

theorem settle_settled (p : Proc C R M E A) (s : σ) : w.Settled (w.settle p s).program := by
  induction p generalizing s with
  | pure a | raise e => trivial
  | emit m k ih => exact ih s
  | await c k ih =>
    unfold settle
    split
    · exact ih _ _
    · assumption

theorem settle_shared {I : σ → Prop} (h : ∀ c f s, w.atOnce c = some f → I s → I (f s).1)
    (p : Proc C R M E A) {s : σ} (hs : I s) : I (w.settle p s).shared := by
  induction p generalizing s with
  | pure a | raise e => exact hs
  | emit m k ih => exact ih hs
  | await c k ih =>
    unfold settle
    split
    · rename_i f hf
      exact ih _ (h c f s hf hs)
    · exact hs

theorem Keeps.settle (h : w.Keeps P ok error p s) :
    w.Keeps P ok error (w.settle p s).program (w.settle p s).shared := by
  induction p generalizing s with
  | pure a | raise e => exact h
  | emit m k ih => exact ih h
  | await c k ih =>
    unfold Setting.settle
    split
    · rename_i f hf
      apply ih
      apply h.2
      unfold Answers
      rw [hf]
      exact ⟨rfl, rfl⟩
    · exact h

theorem Keeps.moved {a : α} (hp : w.Settled p) (h : w.Keeps P ok error p s)
    (hok : ∀ a, w.Stable (ok a)) (herror : ∀ e, w.Stable (error e))
    (hmove : w.move s a = some s') : w.Keeps P ok error p s' := by
  cases p with
  | pure x => exact hok x s a s' h hmove
  | raise e => exact herror e s a s' h hmove
  | emit m k => exact hp.elim
  | await c k =>
    refine ⟨fun hc s'' hmoves => h.1 hc s'' (hmoves.head ⟨a, hmove⟩), ?_⟩
    intro r s'' hr
    apply h.2
    unfold Settled at hp
    unfold Answers at hr ⊢
    rw [hp] at hr ⊢
    obtain ⟨s₁, o, hmoves, hanswer⟩ := hr
    exact ⟨s₁, o, hmoves.head ⟨a, hmove⟩, hanswer⟩

theorem Keeps.answered {x : Among C R M E A σ} {k : Except E (R c) → Proc C R M E A} {o : ω}
    {y : σ × Except E (R c)} (hp : w.atOnce c = none) (h : w.Keeps P ok error (.await c k) s)
    (hanswer : w.answer s c o = some y) (hx : x = w.settle (k y.2) y.1) :
    w.Keeps P ok error x.program x.shared := by
  have hk : w.Keeps P ok error (k y.2) y.1 := by
    apply h.2
    unfold Answers
    rw [hp]
    exact ⟨s, o, .refl, hanswer⟩
  rw [hx]
  exact hk.settle

/-- The rule for runs: what the program keeps holds of each state that is reached. -/
theorem Keeps.holds {init : σ → Prop} {x : Among C R M E A σ} (hok : ∀ a, w.Stable (ok a))
    (herror : ∀ e, w.Stable (error e)) (hinit : ∀ s, init s → w.Keeps P ok error p s)
    (h : Reach (w.system p init) x) : Holds P ok error x := by
  have hinv : w.Settled x.program ∧ w.Keeps P ok error x.program x.shared := by
    apply h.invariant fun x => w.Settled x.program ∧ w.Keeps P ok error x.program x.shared
    · rintro _ ⟨s, hs, rfl⟩
      exact ⟨settle_settled p s, (hinit s hs).settle⟩
    · rintro ⟨p, s⟩ (a | o) x' - ⟨hp, hk⟩ hs
      · obtain ⟨s', hs', rfl⟩ := Option.map_eq_some_iff.mp hs
        exact ⟨hp, hk.moved hp hok herror hs'⟩
      · cases p with
        | pure a | raise e | emit m k => simp [system, Transition.ofExec, exec] at hs
        | await c k =>
          obtain ⟨y, hy, rfl⟩ := Option.map_eq_some_iff.mp hs
          exact ⟨settle_settled _ _, hk.answered hp hy rfl⟩
  obtain ⟨hp, hk⟩ := hinv
  obtain ⟨p, s⟩ := x
  cases p with
  | pure a | raise e => exact hk
  | emit m k => exact hp.elim
  | await c k => exact hk.1 hp s .refl

end Setting

end Coroutine
