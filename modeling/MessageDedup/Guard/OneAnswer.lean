import MessageDedup.Guard.Origin

/-!
# All uses of a key give one answer

When nothing fails, there is one use that works, and every other one that ends with a value ends
with the value of that one, as the store gives it back.
-/

namespace MessageDedup

open Transition (Reach System replay)

variable {V R : Type}

/-- One use has worked and ends with `result`. Each other use ends with nothing, or with `result`
as the store gives it back, and has not worked. -/
def GuardedKey.OneAnswer (g : GuardedKey V R) (s : Callers g.backend) : Prop :=
  ∃ worker result, ∀ e ∈ s.answers,
    (e.1 = worker ∧ e.2 = result) ∨ (e.1 ≠ worker ∧ (e.1, .did .entered) ∉ s.log ∧
      ∀ v, e.2 = some v → ∃ w, result = some w ∧ g.backend.Recorded w v)

/-- At most one value is given, by a use whose work has returned. -/
structure GuardedKey.OneGiven (g : GuardedKey V R) (s : Callers g.backend)
    (given : List (Given V)) : Prop where
  returned : ∀ e ∈ given, ∃ n, e.1 = some n ∧ (n, .returned) ∈ (g.life s).trace
  single : given.length ≤ 1

namespace GuardedKey

variable {g : GuardedKey V R} {s s' : Callers g.backend} {a : Activity V}
  {given : List (Given V)}

theorem trace_subset (h : g.Stepped s a s') : (g.life s).trace ⊆ (g.life s').trace := by
  apply List.filterMap_subset
  cases h with
  | tick d | block payload | call self arguments hkey | others op => exact List.Subset.refl _
  | enter hc hwork hentered | act outcome hc hentered => exact List.subset_append_right _ _

theorem OneGiven.keep (h : g.OneGiven s given) (hstep : g.Stepped s a s') :
    g.OneGiven s' given where
  returned := by
    intro e he
    obtain ⟨n, hn, hmem⟩ := h.returned e he
    exact ⟨n, hn, trace_subset hstep hmem⟩
  single := h.single

theorem returned_acted {n : Nat} {c : Caller V} {result : Option V} (hwork : c.use.atWork = true) :
    (g.life (g.acted s n c (.done result))).trace = (n, .returned) :: (g.life s).trace := by
  rw [life_acted]
  obtain ⟨use, entered, l⟩ := c
  cases use with
  | block payload pc =>
    cases pc with
    | body => rfl
    | _ => cases hwork
  | decorated self arguments pc =>
    cases pc with
    | execute attempts => rfl
    | _ => cases hwork

theorem OneGiven.step (h : g.OneGiven s given) (hf : g.Faultless s a) (hstep : g.Stepped s a s')
    (honce : (g.life s').SucceedsOnce) : g.OneGiven s' (g.given s a ++ given) := by
  cases hstep with
  | tick d => exact h.keep (.tick d)
  | block payload => exact h.keep (.block payload)
  | call self arguments hkey => exact h.keep (.call self arguments hkey)
  | enter hc hwork hentered => exact h.keep (.enter hc hwork hentered)
  | others op => exact absurd rfl (hf.alone op)
  | @act n c outcome hc hentered =>
    have hkeep := h.keep (.act outcome hc hentered)
    rw [given_act hc]
    by_cases hwork : c.use.atWork = true
    · rw [if_pos hwork]
      cases outcome with
      | raised exc applied => exact hkeep
      | done result =>
        -- A value that was given before would belong to an older success.
        obtain rfl : given = [] := by
          rw [List.eq_nil_iff_forall_not_mem]
          intro e he
          obtain ⟨k, -, hmem⟩ := h.returned e he
          unfold Life.SucceedsOnce at honce
          rw [returned_acted hwork, List.pairwise_cons] at honce
          exact (honce.1 _ hmem rfl).2 rfl
        refine ⟨fun e he => ⟨n, ?_, ?_⟩, Nat.le_refl 1⟩
        · rw [List.mem_singleton.mp he]
        · rw [returned_acted hwork]
          exact List.mem_cons_self
    · rw [if_neg hwork]
      exact hkeep

theorem oneGiven_of_reach
    (h : Reach ((g.system.guard g.Faultless).recording g.given) (s, given)) :
    g.OneGiven s given := by
  refine h.invariant (fun t => g.OneGiven t.1 t.2) ?_ ?_
  · rintro ⟨s, given⟩ ⟨-, rfl⟩
    exact ⟨fun e he => absurd he List.not_mem_nil, Nat.zero_le 1⟩
  · rintro ⟨s, given⟩ a ⟨s', given'⟩ hr hs ⟨⟨hf, hexec⟩, rfl⟩
    have hsound := sound_of_reach (.step hr.of_recording ⟨hf, hexec⟩)
    exact hs.step hf (stepped hexec) hsound.success.once

end GuardedKey

namespace GuardedKey

variable {g : GuardedKey V R} {s : Callers g.backend} {given : List (Given V)}

theorem Honest.oneAnswer_nil (h : g.Honest s []) : g.OneAnswer s := by
  refine ⟨s.calls, none, ?_⟩
  rintro ⟨n, result⟩ hin
  rw [Callers.mem_answers] at hin
  have hlt : n < s.calls := h.ordered.logged _ hin
  cases (h.uses n).origin result hin with
  | own hentered hgiven => exact absurd hgiven List.not_mem_nil
  | stored hidle hgiven hother hrecorded => exact absurd hgiven List.not_mem_nil
  | nothing hidle => exact .inr ⟨Nat.ne_of_lt hlt, hidle, nofun⟩

theorem Honest.oneAnswer_single {worker : Nat} {result : Option V}
    (h : g.Honest s [(some worker, result)]) : g.OneAnswer s := by
  refine ⟨worker, result, ?_⟩
  rintro ⟨n, result'⟩ hin
  rw [Callers.mem_answers] at hin
  cases (h.uses n).origin result' hin with
  | own hentered hgiven =>
    obtain ⟨hn, hresult⟩ := Prod.mk.inj (List.mem_singleton.mp hgiven)
    exact .inl ⟨Option.some.inj hn, hresult⟩
  | @stored source w v hidle hgiven hother hrecorded =>
    obtain ⟨rfl, hw⟩ := Prod.mk.inj (List.mem_singleton.mp hgiven)
    refine .inr ⟨fun heq => hother (congrArg some heq.symm), hidle, ?_⟩
    rintro v' ⟨⟩
    exact ⟨w, hw.symm, hrecorded⟩
  | nothing hidle =>
    refine .inr ⟨?_, hidle, nofun⟩
    rintro rfl
    exact hidle ((h.uses n).own result (List.mem_singleton_self _))

end GuardedKey

/-- Guarded blocks and decorated calls on one key without store failures: one of them works and
gives its result, and the others that give a value give that result as the store holds it. -/
theorem GuardedKey.one_answer (g : GuardedKey V R) {s : Callers g.backend}
    (h : Reach (g.system.guard g.Faultless) s) : g.OneAnswer s := by
  obtain ⟨given, hr⟩ := h.recorded g.given
  have hone := oneGiven_of_reach hr
  have hhonest := honest_of_reach hr.recording_of_guard
  cases given with
  | nil => exact hhonest.oneAnswer_nil
  | cons e rest =>
    have hsingle : rest.length + 1 ≤ 1 := hone.single
    obtain rfl : rest = [] := List.eq_nil_of_length_eq_zero (by omega)
    obtain ⟨source, result⟩ := e
    obtain ⟨worker, rfl, -⟩ := hone.returned _ (List.mem_singleton_self _)
    exact hhonest.oneAnswer_single

/-- A decorated call fails once and works at its second try. A block that comes meanwhile is
refused, and one that comes later is given the result. -/
def patientUses : List (Activity Bool) :=
  let call : Activity Bool := .call ⟨none, none⟩ ⟨[.str "order-1"], []⟩
  let block : Activity Bool := .block (.json .null)
  [call, block, .act 0 (.done none), .act 0 (.done none), .enter 0,
    .act 0 (.raised handlerError true), .act 0 (.done none), .act 0 (.done none),
    .act 0 (.done none), .act 1 (.done none), .act 1 (.done none), .enter 0,
    .act 0 (.done (some true)), .act 0 (.done none), block, .act 2 (.done none)]

theorem GuardedKey.one_answer_patient :
    let g := sharedKey {}
    ∃ s, Reach (g.system.guard g.Faultless) s ∧
      s.answers = [(2, some true), (0, some true), (1, none)] ∧ g.OneAnswer s := by
  intro g
  have hrun : (replay g.exec (g.isFaultless 3) (g.startState 0 g.backend.empty) patientUses).any
      (fun s => decide (s.answers = [(2, some true), (0, some true), (1, none)])) = true := by
    decide +kernel
  obtain ⟨s, hs, hanswers⟩ := (Option.any_eq_true _ _).mp hrun
  have hr := GuardedKey.reach_replay rfl hs
  exact ⟨s, hr, of_decide_eq_true hanswers, GuardedKey.one_answer g hr⟩

end MessageDedup
