import MessageDedup.Group.System
import MessageDedup.Store.Shown

/-!
# What a call does to the record it names

The answer to an awaited call, seen through the record of one message: what it tells, and the effect
that it has had.
-/

namespace MessageDedup

variable {V R : Type}

/-! ## The effect of a call -/

def Call.key : Call V → Option String
  | .claim m | .getStatus m | .markFailed m _ _ | .markCompleted m _ => some m
  | _ => none

/-- What a call does to the record of the message it names. -/
def Call.effect (backend : Backend V R) (now : Int) (record : Option Cell) : Call V → Option Cell
  | .claim _ =>
    if Cell.Claimable backend.config now record then
      some (Cell.claimed (backend.leaseUntil now) record)
    else record
  | .markFailed _ _ attempts => record.map (Cell.markedFailed backend.guarded attempts)
  | .markCompleted _ _ => record.map Cell.completed
  | _ => record

theorem Call.not_entered (leaseUntil : Int) (applied : Bool) (call : Call V)
    (reply : Except Exc call.Reply) : .entered ∉ call.events leaseUntil applied reply := by
  cases call <;> rcases reply with e | r <;> simp only [events] <;> (try split) <;> simp

namespace Backend

variable {backend : Backend V R} {s s' : backend.State} {now : Int} {m : String}

theorem map_unit_ok {A : Type} {x : Except Exc A} {a : A}
    (h : ((·, ()) <$> x : Except Exc (A × Unit)) = .ok (a, ())) : x = .ok a := by
  cases x with
  | error e => cases h
  | ok b =>
    have hb := Except.ok.inj h
    rw [(Prod.mk.inj hb).1]

theorem perform_self {result : Option V} {call : Call V} {reply : call.Reply}
    (h : backend.perform s now result call = .ok (s', reply))
    (hkey : call.key = some m ∨ call.key = none) :
    backend.store.cell s' now m =
      call.effect backend now (backend.store.cell s now m) := by
  cases call with
  | claim key =>
    obtain rfl : key = m := by simpa [Call.key] using hkey
    obtain ⟨hb, hcell⟩ := backend.lawful.claim h
    rw [hcell]
    simp only [Call.effect]
    apply if_congr _ rfl rfl
    rw [hb, decide_eq_true_eq]
  | getStatus key =>
    obtain rfl : s = s' := congrArg Prod.fst (Except.ok.inj h)
    rfl
  | markFailed key e a =>
    obtain rfl : key = m := by simpa [Call.key] using hkey
    exact backend.lawful.markFailed (map_unit_ok h)
  | markCompleted key r =>
    obtain rfl : key = m := by simpa [Call.key] using hkey
    exact backend.lawful.markCompleted (map_unit_ok h)
  | handle _ | sleep _ | sendAndWait _ _ _ | commit =>
    obtain rfl : s = s' := congrArg Prod.fst (Except.ok.inj h)
    rfl

theorem perform_other {result : Option V} {call : Call V} {reply : call.Reply}
    (h : backend.perform s now result call = .ok (s', reply)) (hkey : call.key ≠ some m) (t : Int) :
    backend.store.cell s' t m = backend.store.cell s t m := by
  cases call with
  | claim key =>
    have hne : m ≠ key := fun e => hkey (by rw [e]; rfl)
    exact backend.lawful.claim_frame h t m hne
  | markFailed key e a =>
    have hne : m ≠ key := fun e => hkey (by rw [e]; rfl)
    exact backend.lawful.markFailed_frame (map_unit_ok h) t m hne
  | markCompleted key r =>
    have hne : m ≠ key := fun e => hkey (by rw [e]; rfl)
    exact backend.lawful.markCompleted_frame (map_unit_ok h) t m hne
  | getStatus _ | handle _ | sleep _ | sendAndWait _ _ _ | commit =>
    obtain rfl : s = s' := congrArg Prod.fst (Except.ok.inj h)
    rfl

theorem answer_cases (call : Call V) (outcome : Outcome V) :
    (backend.answer s now call outcome).1 = s ∨
      ∃ result reply, backend.perform s now result call =
        .ok ((backend.answer s now call outcome).1, reply) := by
  cases outcome with
  | done result =>
    cases hp : backend.perform s now result call with
    | error e => exact .inl (by simp only [answer, hp])
    | ok r => exact .inr ⟨result, r.2, by simp only [answer, hp]⟩
  | raised exc applied =>
    cases hp : backend.perform s now none call with
    | error e => exact .inl (by simp only [answer, hp])
    | ok r =>
      cases applied
      · exact .inl (by simp [answer, hp])
      · exact .inr ⟨none, r.2, by simp [answer, hp]⟩

theorem answer_other {call : Call V} (outcome : Outcome V) (hkey : call.key ≠ some m) (t : Int) :
    backend.store.cell (backend.answer s now call outcome).1 t m = backend.store.cell s t m := by
  rcases answer_cases call outcome with h | ⟨result, reply, h⟩
  · rw [h]
  · exact perform_other h hkey t

theorem answer_self {call : Call V} (outcome : Outcome V)
    (hkey : call.key = some m ∨ call.key = none) :
    backend.store.cell (backend.answer s now call outcome).1 now m =
        backend.store.cell s now m ∨
      backend.store.cell (backend.answer s now call outcome).1 now m =
        call.effect backend now (backend.store.cell s now m) := by
  rcases answer_cases call outcome with h | ⟨result, reply, h⟩
  · exact .inl (by rw [h])
  · exact .inr (perform_self h hkey)

theorem answer_ok {call : Call V} {outcome : Outcome V} {reply : call.Reply}
    (h : (backend.answer s now call outcome).2 = .ok reply)
    (hkey : call.key = some m ∨ call.key = none) :
    ∃ result, outcome = .done result ∧
      backend.perform s now result call =
        .ok ((backend.answer s now call outcome).1, reply) ∧
      backend.store.cell (backend.answer s now call outcome).1 now m =
        call.effect backend now (backend.store.cell s now m) := by
  cases outcome with
  | raised exc applied =>
    unfold answer at h
    cases hp : backend.perform s now none call <;> simp [hp] at h
  | done result =>
    cases hp : backend.perform s now result call with
    | error e => simp [answer, hp] at h
    | ok r =>
      obtain ⟨s1, r1⟩ := r
      simp only [answer, hp, Except.ok.injEq] at h ⊢
      subst h
      exact ⟨result, rfl, by simp [hp], perform_self hp hkey⟩

theorem answer_status {outcome : Outcome V} {existing : Option (ProcessingStatus V)}
    (h : (backend.answer s now (.getStatus m) outcome).2 = .ok existing) :
    existing = backend.store.getStatus s now m := by
  obtain ⟨result, rfl, hp, -⟩ := answer_ok h (m := m) (.inl rfl)
  exact (congrArg Prod.snd (Except.ok.inj hp)).symm

end Backend

/-! ## The results that a call stores -/

/-- The result that a call would store under `m`. -/
def Call.marks (m : String) : Call V → Option V
  | .markCompleted key result => if key = m then result else none
  | _ => none

theorem Call.eq_of_marks {m : String} {call : Call V} {value : V}
    (h : call.marks m = some value) : call = .markCompleted m (some value) := by
  cases call with
  | markCompleted key result =>
    simp only [marks] at h
    split at h
    · rename_i heq
      rw [heq, h]
    · simp at h
  | _ => cases h

namespace Backend

variable {backend : Backend V R} {s s' : backend.State} {now : Int} {m : String}

theorem perform_shownFrom {result : Option V} {call : Call V} {reply : call.Reply}
    (h : backend.perform s now result call = .ok (s', reply)) :
    backend.ShownFrom s s' now m (call.marks m) := by
  cases call with
  | claim key => exact claim_shownFrom h
  | markFailed key error attempts => exact markFailed_shownFrom (map_unit_ok h)
  | markCompleted key value => exact markCompleted_shownFrom (map_unit_ok h)
  | getStatus _ | handle _ | sleep _ | sendAndWait _ _ _ | commit =>
    obtain rfl : s = s' := congrArg Prod.fst (Except.ok.inj h)
    exact .of_eq rfl

theorem answer_shownFrom (call : Call V) (outcome : Outcome V) :
    backend.ShownFrom s (backend.answer s now call outcome).1 now m (call.marks m) := by
  rcases answer_cases call outcome with hsame | ⟨result, reply, hperform⟩
  · rw [hsame]
    exact .of_eq rfl
  · exact perform_shownFrom hperform

end Backend

/-! ## The answer to a call -/

/-- A claim that replies says whether the message was claimable. -/
def Call.Tells (claimable : Prop) : (call : Call V) → Except Exc call.Reply → Prop
  | .claim _, .ok claimed => (show Bool from claimed) = true ↔ claimable
  | _, _ => True

/-- What is known of an answer: its effect on the record, and when it has one. -/
structure Answered (backend : Backend V R) (now : Int) (record : Option Cell) (call : Call V)
    (reply : Except Exc call.Reply) (applied : Bool) (record' : Option Cell) : Prop where
  ok : ∀ r, reply = .ok r → applied = true ∧ record' = call.effect backend now record
  self : record' = record ∨ record' = call.effect backend now record
  tells : call.Tells (Cell.Claimable backend.config now record) reply

theorem Backend.answered (backend : Backend V R) (s : backend.State) (now : Int) {m : String}
    {call : Call V} (outcome : Outcome V) (hkey : call.key = some m ∨ call.key = none) :
    Answered backend now (backend.store.cell s now m) call
      (backend.answer s now call outcome).2 outcome.applied
      (backend.store.cell (backend.answer s now call outcome).1 now m) where
  ok := by
    intro r hr
    obtain ⟨result, rfl, -, hcell⟩ := backend.answer_ok hr hkey
    exact ⟨rfl, hcell⟩
  self := backend.answer_self outcome hkey
  tells := by
    cases hr : (backend.answer s now call outcome).2 with
    | error e => cases call <;> trivial
    | ok r =>
      obtain ⟨result, -, hp, -⟩ := backend.answer_ok hr hkey
      cases call with
      | claim key =>
        obtain rfl : key = m := by simpa [Call.key] using hkey
        have hb := (backend.lawful.claim hp).1
        simp only [Call.Tells, hb, decide_eq_true_eq]
      | _ => trivial

theorem Answered.claim {backend : Backend V R} {now : Int} {record record' : Option Cell}
    {applied : Bool} {m : String} {claimed : Bool}
    (h : Answered backend now record (.claim m) (.ok claimed) applied record') :
    (claimed = true ∧ Cell.Claimable backend.config now record ∧
      record' = some (Cell.claimed (backend.leaseUntil now) record)) ∨
    (claimed = false ∧ ¬ Cell.Claimable backend.config now record ∧ record' = record) := by
  obtain ⟨-, heffect⟩ := h.ok claimed rfl
  have htells : claimed = true ↔ Cell.Claimable backend.config now record := h.tells
  simp only [Call.effect] at heffect
  cases claimed with
  | true =>
    have hclaim := htells.mp rfl
    exact .inl ⟨rfl, hclaim, by rw [heffect, if_pos hclaim]⟩
  | false =>
    have hclaim : ¬ Cell.Claimable backend.config now record := by simpa using htells
    exact .inr ⟨rfl, hclaim, by rw [heffect, if_neg hclaim]⟩

end MessageDedup
