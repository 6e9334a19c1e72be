import MessageDedup.Lib.Coroutine

/-!
# Spans

Notes added to a program: after its calls, and around a part of it. Nothing else about the program
changes.
-/

namespace Coroutine

/-- What a run shows, in order: its calls and its notes. -/
inductive Happening (C N : Type) where
  | called (c : C)
  | noted (n : N)

namespace Proc

variable {C : Type} {R : C → Type} {M N E A B σ : Type}

/-- `leave` is noted after `p`, however `p` ends. -/
def followed (leave : List N) (p : Proc C R N E A) : Proc C R N E A :=
  p.attempt fun r => emits leave (ofExcept r)

/-- A `with` block: `enter` before `p`, and `leave` after it, however it ends. -/
def enclosed (enter leave : List N) (p : Proc C R N E A) : Proc C R N E A :=
  emits enter (p.followed leave)

/-- The notes of `p` under `f`, and what `after` notes of each call once it has ended. -/
def annotate (f : M → N) (after : C → List N) : Proc C R M E A → Proc C R N E A
  | .pure a => .pure a
  | .raise e => .raise e
  | .emit m k => .emit (f m) (k.annotate f after)
  | .await c k => .await c fun r => emits (after c) ((k r).annotate f after)

/-- The calls and notes of a run. -/
def history (answer : σ → (c : C) → σ × Except E (R c)) :
    Proc C R N E A → σ → List (Happening C N)
  | .pure _, _ => []
  | .raise _, _ => []
  | .emit n k, s => .noted n :: k.history answer s
  | .await c k, s => .called c :: (k (answer s c).2).history answer (answer s c).1

/-! ## Annotated programs -/

section

variable {f : M → N} {after : C → List N}

theorem emits_attempt (ns : List N) (p : Proc C R N E A) (k : Except E A → Proc C R N E B) :
    (emits ns p).attempt k = emits ns (p.attempt k) := by
  induction ns with
  | nil => rfl
  | cons n ns ih => exact congrArg (Proc.emit n) ih

theorem annotate_attempt (p : Proc C R M E A) (k : Except E A → Proc C R M E B) :
    (p.attempt k).annotate f after =
      (p.annotate f after).attempt fun r => (k r).annotate f after := by
  induction p with
  | pure a | raise e => rfl
  | emit m p ih => exact congrArg (Proc.emit (f m)) ih
  | await c p ih =>
    refine await_congr fun r => ?_
    rw [emits_attempt, ← ih r]

theorem annotate_bind (p : Proc C R M E A) (k : A → Proc C R M E B) :
    (p.bind k).annotate f after = (p.annotate f after).bind fun a => (k a).annotate f after := by
  unfold bind
  rw [annotate_attempt]
  congr 1
  funext r
  cases r <;> rfl

theorem annotate_call (c : C) :
    (call c : Proc C R M E (R c)).annotate f after = (call c).followed (after c) := by
  refine await_congr fun r => ?_
  cases r <;> rfl

theorem annotate_ofExcept (r : Except E A) :
    (ofExcept r : Proc C R M E A).annotate f after = ofExcept r := by
  cases r <;> rfl

theorem annotate_ite {P : Prop} [Decidable P] (p q : Proc C R M E A) :
    (if P then p else q).annotate f after =
      if P then p.annotate f after else q.annotate f after := by
  split <;> rfl

end

/-! ## Histories -/

section

variable {answer : σ → (c : C) → σ × Except E (R c)}

theorem history_emits (ns : List N) (p : Proc C R N E A) (s : σ) :
    (emits ns p).history answer s = ns.map .noted ++ p.history answer s := by
  induction ns with
  | nil => rfl
  | cons n ns ih => exact congrArg (_ :: ·) ih

theorem history_attempt (p : Proc C R N E A) (k : Except E A → Proc C R N E B) (s : σ) :
    (p.attempt k).history answer s =
      p.history answer s ++
        (k (p.run answer s).2.2).history answer (p.run answer s).1 := by
  induction p generalizing s with
  | pure a | raise e => rfl
  | emit n p ih => exact congrArg (_ :: ·) (ih s)
  | await c p ih => exact congrArg (_ :: ·) (ih _ _)

theorem history_ofExcept (r : Except E A) (s : σ) :
    (ofExcept r : Proc C R N E A).history answer s = [] := by
  cases r <;> rfl

theorem history_enclosed (enter leave : List N) (p : Proc C R N E A) (s : σ) :
    (p.enclosed enter leave).history answer s =
      enter.map .noted ++ (p.history answer s ++ leave.map .noted) := by
  unfold enclosed followed
  rw [history_emits, history_attempt, history_emits, history_ofExcept, List.append_nil]

/-- What a happening of `p` becomes when it is annotated. -/
def annotateOne (f : M → N) (after : C → List N) : Happening C M → List (Happening C N)
  | .called c => .called c :: (after c).map .noted
  | .noted m => [.noted (f m)]

theorem history_annotate (f : M → N) (after : C → List N) (p : Proc C R M E A) (s : σ) :
    (p.annotate f after).history answer s =
      (p.history answer s).flatMap (annotateOne f after) := by
  induction p generalizing s with
  | pure a | raise e => rfl
  | emit m p ih => exact congrArg (_ :: ·) (ih s)
  | await c p ih =>
    simp only [annotate, history, history_emits, ih, List.flatMap_cons, annotateOne,
      List.cons_append]

end

/-! ## How runs end -/

/-- The last state and the outcome of a run. -/
def ends (answer : σ → (c : C) → σ × Except E (R c)) (p : Proc C R N E A) (s : σ) :
    σ × Except E A :=
  ((p.run answer s).1, (p.run answer s).2.2)

section

variable {answer : σ → (c : C) → σ × Except E (R c)}

theorem ends_await (c : C) (k : Except E (R c) → Proc C R N E A) (s : σ) :
    (Proc.await c k).ends answer s = (k (answer s c).2).ends answer (answer s c).1 := rfl

theorem ends_emit (n : N) (k : Proc C R N E A) (s : σ) :
    (Proc.emit n k).ends answer s = k.ends answer s := rfl

theorem ends_emits (ns : List N) (p : Proc C R N E A) (s : σ) :
    (emits ns p).ends answer s = p.ends answer s := by
  induction ns with
  | nil => rfl
  | cons n ns ih => exact ih

theorem ends_attempt (p : Proc C R N E A) (k : Except E A → Proc C R N E B) (s : σ) :
    (p.attempt k).ends answer s = (k (p.ends answer s).2).ends answer (p.ends answer s).1 := by
  unfold ends
  rw [run_attempt]

theorem ends_ofExcept (r : Except E A) (s : σ) :
    (ofExcept r : Proc C R N E A).ends answer s = (s, r) := by
  cases r <;> rfl

theorem ends_enclosed (enter leave : List N) (p : Proc C R N E A) (s : σ) :
    (p.enclosed enter leave).ends answer s = p.ends answer s := by
  unfold enclosed followed
  rw [ends_emits, ends_attempt, ends_emits, ends_ofExcept]

theorem ends_annotate (f : M → N) (after : C → List N) (p : Proc C R M E A) (s : σ) :
    (p.annotate f after).ends answer s = p.ends answer s := by
  induction p generalizing s with
  | pure a | raise e => rfl
  | emit m p ih => exact ih s
  | await c p ih => exact (ends_emits _ _ _).trans (ih _ _)

end

end Proc

end Coroutine
