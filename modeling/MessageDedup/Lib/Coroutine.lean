import Mathlib.Logic.Function.Basic

/-!
# Coroutines

A program that awaits calls to the outside, as a tree: each `await` names its call and goes on
with the reply or with the exception that the call raised. The calls `C`, their replies `R`, the
exceptions `E` and the emitted notes `M` are parameters.
-/

namespace Coroutine

inductive Proc (C : Type) (R : C → Type) (M E A : Type) where
  | pure (a : A)
  | raise (e : E)
  | emit (m : M) (k : Proc C R M E A)
  | await (c : C) (k : Except E (R c) → Proc C R M E A)

namespace Proc

variable {C : Type} {R : C → Type} {M E A B : Type}

/-- Runs `p`, and then `f` on its value or on its exception. -/
def attempt : Proc C R M E A → (Except E A → Proc C R M E B) → Proc C R M E B
  | .pure a, f => f (.ok a)
  | .raise e, f => f (.error e)
  | .emit m k, f => .emit m (k.attempt f)
  | .await c k, f => .await c fun r => (k r).attempt f

def bind (p : Proc C R M E A) (f : A → Proc C R M E B) : Proc C R M E B :=
  p.attempt fun
    | .ok a => f a
    | .error e => .raise e

instance : Monad (Proc C R M E) where
  pure := .pure
  bind := bind

def call (c : C) : Proc C R M E (R c) :=
  .await c fun
    | .ok r => .pure r
    | .error e => .raise e

def note (m : M) : Proc C R M E Unit := .emit m (.pure ())

def emits (ms : List M) (p : Proc C R M E A) : Proc C R M E A :=
  ms.foldr .emit p

/-- `p` as a part of a program with more calls. -/
def within {D : Type} {S : D → Type} (f : C → D) (back : (c : C) → S (f c) → R c) :
    Proc C R M E A → Proc D S M E A
  | .pure a => .pure a
  | .raise e => .raise e
  | .emit m k => .emit m (k.within f back)
  | .await c k => .await (f c) fun r => (k (r.map (back c))).within f back

def ofExcept : Except E A → Proc C R M E A
  | .ok a => .pure a
  | .error e => .raise e

@[simp] theorem attempt_pure (a : A) (f : Except E A → Proc C R M E B) :
    (Proc.pure a).attempt f = f (.ok a) := rfl
@[simp] theorem attempt_raise (e : E) (f : Except E A → Proc C R M E B) :
    (Proc.raise e).attempt f = f (.error e) := rfl
@[simp] theorem attempt_emit (m : M) (k : Proc C R M E A) (f : Except E A → Proc C R M E B) :
    (Proc.emit m k).attempt f = .emit m (k.attempt f) := rfl
@[simp] theorem attempt_await (c : C) (k : Except E (R c) → Proc C R M E A)
    (f : Except E A → Proc C R M E B) :
    (Proc.await c k).attempt f = .await c fun r => (k r).attempt f := rfl
@[simp] theorem bind_eq (p : Proc C R M E A) (f : A → Proc C R M E B) : (p >>= f) = p.bind f := rfl
@[simp] theorem pure_eq (a : A) : (Pure.pure a : Proc C R M E A) = .pure a := rfl
@[simp] theorem emits_nil (p : Proc C R M E A) : emits [] p = p := rfl
@[simp] theorem emits_cons (m : M) (ms : List M) (p : Proc C R M E A) :
    emits (m :: ms) p = .emit m (emits ms p) := rfl

theorem await_congr {c : C} {k k' : Except E (R c) → Proc C R M E A} (h : ∀ r, k r = k' r) :
    Proc.await c k = Proc.await c k' := by
  rw [show k = k' from funext h]

theorem attempt_assoc {D : Type} (p : Proc C R M E A) (f : Except E A → Proc C R M E B)
    (g : Except E B → Proc C R M E D) :
    (p.attempt f).attempt g = p.attempt fun r => (f r).attempt g := by
  induction p with
  | pure a => rfl
  | raise e => rfl
  | emit m k ih => exact congrArg (Proc.emit m) ih
  | await c k ih => exact await_congr ih

/-! ## Running against an environment -/

/-- Runs `p` where `answer` answers each call: the last state, the notes, and the outcome. -/
def run {σ : Type} (answer : σ → (c : C) → σ × Except E (R c)) :
    Proc C R M E A → σ → σ × List M × Except E A
  | .pure a, s => (s, [], .ok a)
  | .raise e, s => (s, [], .error e)
  | .emit m k, s =>
    let r := k.run answer s
    (r.1, m :: r.2.1, r.2.2)
  | .await c k, s => (k (answer s c).2).run answer (answer s c).1

theorem run_call {σ : Type} {answer : σ → (c : C) → σ × Except E (R c)} (c : C) (s : σ) :
    (call c : Proc C R M E (R c)).run answer s = ((answer s c).1, [], (answer s c).2) := by
  unfold call
  rw [run]
  cases (answer s c).2 <;> rfl

theorem run_call_attempt {σ : Type} {answer : σ → (c : C) → σ × Except E (R c)} (c : C)
    (f : Except E (R c) → Proc C R M E B) (s : σ) :
    ((call c).attempt f).run answer s = (f (answer s c).2).run answer (answer s c).1 := by
  unfold call
  rw [attempt_await, run]
  cases (answer s c).2 <;> rfl

theorem run_attempt {σ : Type} {answer : σ → (c : C) → σ × Except E (R c)} (p : Proc C R M E A)
    (f : Except E A → Proc C R M E B) (s : σ) :
    (p.attempt f).run answer s =
      let r := p.run answer s
      let r' := (f r.2.2).run answer r.1
      (r'.1, r.2.1 ++ r'.2.1, r'.2.2) := by
  induction p generalizing s with
  | pure a | raise e => rfl
  | emit m k ih => simp only [attempt_emit, run, ih, List.cons_append]
  | await c k ih => exact ih _ _

/-! ## Runs that emit nothing -/

section

variable {σ : Type} {answer : σ → (c : C) → σ × Except E (R c)} {s s' s'' : σ}

def Runs (answer : σ → (c : C) → σ × Except E (R c)) (p : Proc C R M E A) (s s' : σ)
    (r : Except E A) : Prop :=
  p.run answer s = (s', [], r)

theorem Runs.pure (a : A) : Runs answer (Proc.pure a : Proc C R M E A) s s (.ok a) := rfl

theorem Runs.raise (e : E) : Runs answer (Proc.raise e : Proc C R M E A) s s (.error e) := rfl

theorem Runs.call (c : C) :
    Runs answer (call c : Proc C R M E (R c)) s (answer s c).1 (answer s c).2 :=
  run_call c s

theorem Runs.attempt {p : Proc C R M E A} {f : Except E A → Proc C R M E B} {r : Except E A}
    {r' : Except E B} (hp : Runs answer p s s' r) (hf : Runs answer (f r) s' s'' r') :
    Runs answer (p.attempt f) s s'' r' := by
  unfold Runs at *
  rw [run_attempt, hp]
  dsimp only
  rw [hf]
  rfl

theorem Runs.bind {p : Proc C R M E A} {f : A → Proc C R M E B} {a : A} {r : Except E B}
    (hp : Runs answer p s s' (.ok a)) (hf : Runs answer (f a) s' s'' r) :
    Runs answer (p >>= f) s s'' r :=
  hp.attempt hf

theorem Runs.bind_error {p : Proc C R M E A} {f : A → Proc C R M E B} {e : E}
    (hp : Runs answer p s s' (.error e)) : Runs answer (p >>= f) s s' (.error e) :=
  hp.attempt (.raise e)

end

/-! ## Postconditions -/

section

variable {σ : Type} (Pre : σ → C → Prop) (Ans : σ → (c : C) → Except E (R c) → σ → Prop)

/-- Whenever `p` runs from `s` and each of its calls is answered as `Ans` allows, each call is made
in a state that meets `Pre`, and the last state, the notes and the outcome satisfy `Q`. -/
def Ensures : Proc C R M E A → (Q : σ → List M → Except E A → Prop) → σ → Prop
  | .pure a, Q, s => Q s [] (.ok a)
  | .raise e, Q, s => Q s [] (.error e)
  | .emit m k, Q, s => k.Ensures (fun s' ms r => Q s' (m :: ms) r) s
  | .await c k, Q, s => Pre s c ∧ ∀ r s', Ans s c r s' → (k r).Ensures Q s'

variable {Pre Ans} {p : Proc C R M E A} {s : σ}

theorem Ensures.mono {Q Q' : σ → List M → Except E A → Prop} (h : p.Ensures Pre Ans Q s)
    (himp : ∀ s' ms r, Q s' ms r → Q' s' ms r) : p.Ensures Pre Ans Q' s := by
  induction p generalizing s Q Q' with
  | pure a => exact himp _ _ _ h
  | raise e => exact himp _ _ _ h
  | emit m k ih => exact ih h fun s' ms r => himp s' (m :: ms) r
  | await c k ih => exact ⟨h.1, fun r s' hr => ih r (h.2 r s' hr) himp⟩

theorem Ensures.of_emits {Q : σ → Except E A → Prop} {ms : List M}
    (h : (emits ms p).Ensures Pre Ans (fun s' _ r => Q s' r) s) :
    p.Ensures Pre Ans (fun s' _ r => Q s' r) s := by
  induction ms with
  | nil => exact h
  | cons m ms ih => exact ih h

theorem Ensures.attempt {f : Except E A → Proc C R M E B} {Q : σ → List M → Except E B → Prop}
    (h : p.Ensures Pre Ans
      (fun s' ms r => (f r).Ensures Pre Ans (fun s'' ms' r' => Q s'' (ms ++ ms') r') s') s) :
    (p.attempt f).Ensures Pre Ans Q s := by
  induction p generalizing s Q with
  | pure a => exact h
  | raise e => exact h
  | emit m k ih => exact ih h
  | await c k ih => exact ⟨h.1, fun r s' hr => ih r (h.2 r s' hr)⟩

theorem Ensures.within {D : Type} {S : D → Type} {f : C → D} {back : (c : C) → S (f c) → R c}
    {Pre' : σ → D → Prop} {Ans' : σ → (d : D) → Except E (S d) → σ → Prop}
    (hpre : ∀ s c, Pre s c → Pre' s (f c))
    (hans : ∀ s c r s', Ans' s (f c) r s' → Ans s c (r.map (back c)) s')
    {Q : σ → List M → Except E A → Prop} (h : p.Ensures Pre Ans Q s) :
    (p.within f back).Ensures Pre' Ans' Q s := by
  induction p generalizing s Q with
  | pure a => exact h
  | raise e => exact h
  | emit m k ih => exact ih h
  | await c k ih => exact ⟨hpre s c h.1, fun r s' hr => ih _ (h.2 _ s' (hans s c r s' hr))⟩

/-- The sequencing rule. -/
theorem Ensures.bind {f : A → Proc C R M E B} {Q₁ : σ → List M → Except E A → Prop}
    {Q : σ → List M → Except E B → Prop} (h : p.Ensures Pre Ans Q₁ s)
    (hok : ∀ s' ms a, Q₁ s' ms (.ok a) →
      (f a).Ensures Pre Ans (fun s'' ms' r' => Q s'' (ms ++ ms') r') s')
    (herror : ∀ s' ms e, Q₁ s' ms (.error e) → Q s' ms (.error e)) :
    (p.bind f).Ensures Pre Ans Q s := by
  apply Ensures.attempt
  apply h.mono
  intro s' ms r hq
  cases r with
  | ok a => exact hok s' ms a hq
  | error e =>
    simp only [Ensures, List.append_nil]
    exact herror s' ms e hq

theorem run_back {τ : Type} {answer : τ → (c : C) → τ × Except E (R c)} {ok : τ → Prop}
    (hback : ∀ t c, ok (answer t c).1 → ok t) (p : Proc C R M E A) {t : τ}
    (h : ok (p.run answer t).1) : ok t := by
  induction p generalizing t with
  | pure a | raise e => exact h
  | emit m k ih => exact ih h
  | await c k ih => exact hback t c (ih _ h)

/-- What is ensured of what `look` shows holds of a run, when the answers that lead to an `ok` state
show as allowed ones. -/
theorem Ensures.run_along {τ : Type} {look : τ → σ} {answer : τ → (c : C) → τ × Except E (R c)}
    {ok : τ → Prop} (hback : ∀ t c, ok (answer t c).1 → ok t)
    (hans : ∀ t c, Pre (look t) c → ok (answer t c).1 →
      Ans (look t) c (answer t c).2 (look (answer t c).1))
    {Q : σ → List M → Except E A → Prop} {t : τ} (h : p.Ensures Pre Ans Q (look t))
    (hok : ok (p.run answer t).1) :
    Q (look (p.run answer t).1) (p.run answer t).2.1 (p.run answer t).2.2 := by
  induction p generalizing t Q with
  | pure a => exact h
  | raise e => exact h
  | emit m k ih => exact ih h hok
  | await c k ih => exact ih _ (h.2 _ _ (hans t c h.1 (run_back hback _ hok))) hok

theorem Ensures.run {answer : σ → (c : C) → σ × Except E (R c)} {ok : σ → Prop}
    (hback : ∀ s c, ok (answer s c).1 → ok s)
    (hans : ∀ s c, Pre s c → ok (answer s c).1 → Ans s c (answer s c).2 (answer s c).1)
    {Q : σ → List M → Except E A → Prop} (h : p.Ensures Pre Ans Q s)
    (hok : ok (p.run answer s).1) :
    Q (p.run answer s).1 (p.run answer s).2.1 (p.run answer s).2.2 :=
  @Ensures.run_along _ _ _ _ _ _ _ _ p _ id answer ok hback hans Q s h hok

theorem Ensures.run_always {answer : σ → (c : C) → σ × Except E (R c)}
    (hans : ∀ s c, Pre s c → Ans s c (answer s c).2 (answer s c).1)
    {Q : σ → List M → Except E A → Prop} (h : p.Ensures Pre Ans Q s) :
    Q (p.run answer s).1 (p.run answer s).2.1 (p.run answer s).2.2 := by
  let ok : σ → Prop := fun _ => True
  have hback : ∀ s c, ok (answer s c).1 → ok s := fun _ _ => id
  exact Ensures.run hback (fun s c hpre _ => hans s c hpre) h trivial

end

end Proc

end Coroutine
