import MessageDedup.Group.DeadLetters

/-!
# The retry budget

How often `handle()` is called for a message over all its deliveries, against the attempts that its
record counts.
-/

namespace MessageDedup

open Transition (Reach System replay)

variable {V R : Type} {rules : Rules} {s s' : Life} {label : Label}

namespace Life

/-- The `handle()` calls for the message so far. -/
def calls (s : Life) : Nat := s.trace.countP (·.2 = .entered)

/-- A `mark_failed` writes at least the attempts that the record has. -/
def KeepsCount (s : Life) (label : Label) : Prop :=
  ∀ c reply t attempts cell, label = .act c reply → s.task c = some t →
    t.phase = .failing attempts → s.record = some cell → cell.attempts ≤ attempts

/-! ## Without expiry -/

theorem OneOwner.calm (h : s.OneOwner) (hun : s.Unexpired label) : s.Calm label := by
  refine ⟨?_, hun.2⟩
  intro c t ht hh
  obtain ⟨cell, hcell, hp, hlease⟩ := h.processing ht hh
  have horphan := hun.1 cell hcell
  by_contra hlate
  apply horphan
  exact ⟨hp, t.lease, hlease, Int.not_lt.mp hlate⟩

theorem claimed_le {max : Int} (hmax : 1 ≤ rules.config.maxRetries)
    (hun : ∀ cell, s.record = some cell → ¬ cell.Orphaned s.now)
    (hclaim : Cell.Claimable rules.config s.now s.record) (hle : rules.config.maxRetries = max)
    (lease : Int) : (Cell.claimed lease s.record).attempts ≤ max := by
  unfold Cell.claimed
  cases hcell : s.record with
  | none =>
    change 1 ≤ max
    omega
  | some cell =>
    rw [hcell] at hclaim
    rcases hclaim with ⟨-, -, hlt⟩ | horphan
    · change cell.attempts + 1 ≤ max
      omega
    · exact absurd horphan (hun cell hcell)

/-! ## The count of the calls -/

theorem calls_put {c : ConsumerId} {record : Option Cell} {task : Option Task} {n : Nat}
    {events : List Event} (h : .entered ∉ events) :
    (s.put c record task n events).calls = s.calls := by
  unfold calls put
  rw [List.countP_append, Nat.add_eq_right, List.countP_eq_zero]
  rintro e he hentered
  obtain ⟨event, hmem, rfl⟩ := List.mem_map.mp he
  rw [decide_eq_true_eq] at hentered
  exact h (hentered ▸ hmem)

theorem calls_enter {c : ConsumerId} {record : Option Cell} {task : Option Task} {n : Nat} :
    (s.put c record task n [.entered]).calls = s.calls + 1 := by
  unfold calls put
  simp [Nat.add_comm]

/-- The record has counted every call, and the one that is to come. -/
structure Budget (s : Life) (max : Int) : Prop where
  fresh : s.record = none → s.calls = 0
  spent : ∀ cell, s.record = some cell → s.calls ≤ cell.attempts ∧ cell.attempts ≤ max
  reserved : ∀ cell c t attempts, s.record = some cell → s.task c = some t →
    t.phase = .ready attempts → s.calls + 1 ≤ cell.attempts

namespace Budget

variable {max : Int}

theorem start (hnone : s.record = none) (htrace : s.trace = []) : s.Budget max := by
  refine ⟨?_, ?_, ?_⟩
  · intro _
    unfold calls
    rw [htrace]
    rfl
  · intro cell hcell
    rw [hnone] at hcell
    simp at hcell
  · intro cell _ _ _ hcell
    rw [hnone] at hcell
    simp at hcell

theorem keep (h : s.Budget max) {c : ConsumerId} {t' : Option Task} {n : Nat}
    {events : List Event} (hcalls : .entered ∉ events)
    (hready : ∀ u attempts, t' = some u → u.phase ≠ .ready attempts) :
    (s.put c s.record t' n events).Budget max := by
  refine ⟨?_, ?_, ?_⟩
  · rw [calls_put hcalls]
    exact h.fresh
  · rw [calls_put hcalls]
    exact h.spent
  · rw [calls_put hcalls]
    intro cell c' u attempts hcell hu hphase
    rcases task_put hu with ⟨-, hself⟩ | ⟨-, hold⟩
    · exact absurd hphase (hready u attempts hself)
    · exact h.reserved cell c' u attempts hcell hold hphase

theorem claim (h : s.Budget max) {c : ConsumerId} {lease : Int} {t' : Option Task} {n : Nat}
    {events : List Event} (hcalls : .entered ∉ events)
    (hle : (Cell.claimed lease s.record).attempts ≤ max) :
    (s.put c (some (Cell.claimed lease s.record)) t' n events).Budget max := by
  have hpaid : s.calls + 1 ≤ (Cell.claimed lease s.record).attempts := by
    unfold Cell.claimed
    cases hcell : s.record with
    | none =>
      rw [h.fresh hcell]
      exact Int.le_refl 1
    | some cell =>
      obtain ⟨hspent, -⟩ := h.spent cell hcell
      change (s.calls : Int) + 1 ≤ cell.attempts + 1
      omega
  refine ⟨nofun, ?_, ?_⟩
  · rw [calls_put hcalls]
    rintro _ ⟨⟩
    exact ⟨by omega, hle⟩
  · rw [calls_put hcalls]
    rintro _ c' u attempts ⟨⟩ - -
    exact hpaid

/-- A mark that keeps the attempts high leaves no claim behind. -/
theorem mark (h : s.Budget max) {c : ConsumerId} {cell cell' : Cell} {t' : Option Task} {n : Nat}
    {events : List Event} (hcalls : .entered ∉ events) (hcell : s.record = some cell)
    (hle : cell.attempts ≤ cell'.attempts) (hmax : cell'.attempts ≤ max)
    (hnone : ∀ c' u, (s.put c (some cell') t' n events).task c' = some u → ¬ u.phase.Holds) :
    (s.put c (some cell') t' n events).Budget max := by
  obtain ⟨hspent, -⟩ := h.spent cell hcell
  refine ⟨nofun, ?_, ?_⟩
  · rw [calls_put hcalls]
    rintro _ ⟨⟩
    exact ⟨by omega, hmax⟩
  · intro _ c' u attempts _ hu hphase
    exact absurd (by rw [hphase]; trivial) (hnone c' u hu)

theorem enter (h : s.Budget max) (hown : s.OneOwner) {c : ConsumerId} {d : Nat}
    {attempts l : Int} (hc : s.task c = some ⟨d, .ready attempts, l⟩) :
    (s.put c s.record (some ⟨d, .running attempts, l⟩) d [.entered]).Budget max := by
  obtain ⟨cell, hcell, -, -⟩ := hown.processing hc trivial
  have hreserved := h.reserved cell c _ attempts hcell hc rfl
  obtain ⟨-, hmax⟩ := h.spent cell hcell
  have hsame : ∀ cell', s.record = some cell' → cell' = cell := by
    intro cell' hcell'
    rw [hcell] at hcell'
    exact (Option.some.inj hcell').symm
  refine ⟨?_, ?_, ?_⟩
  · intro hnone
    rw [show s.record = none from hnone] at hcell
    simp at hcell
  · rw [calls_enter]
    intro cell' hcell'
    obtain rfl := hsame cell' hcell'
    push_cast
    exact ⟨hreserved, hmax⟩
  · intro cell' c' u a hcell' hu hphase
    rcases task_put hu with ⟨-, ⟨⟩⟩ | ⟨hne, hold⟩
    · simp at hphase
    · have hholds : u.phase.Holds := by
        rw [hphase]
        trivial
      exact absurd (hown.unique' hold hc hholds trivial) hne

end Budget

end Life

theorem Rules.Move.ready {c : ConsumerId} {now : Int} {record record' : Option Cell} {t : Task}
    {t' : Option Task} {reply : Reply} {events : List Event}
    (h : rules.Move c now record t reply record' t' events) {u : Task} {attempts : Int}
    (ht' : t' = some u) (hready : u.phase = .ready attempts) : ¬ t.phase.Holds := by
  cases h with
  | returned | failed | completed | markLost | retried =>
    obtain rfl := Option.some.inj ht'
    simp at hready
  | exhausted _ hg =>
    obtain rfl := Option.some.inj ht'
    rcases hg with ⟨-, rfl⟩ | ⟨-, rfl⟩ <;> cases hready
  | stopped => cases ht'
  | _ => exact id

namespace Life

theorem Budget.move {max : Int} (h : s.Budget max) (hconfig : ∀ c, rules.maxRetries c = max)
    (hsame : rules.config.maxRetries = max) (hmax : 1 ≤ max) (hown : s.OneOwner)
    (hrange : s.Bounded rules) {c : ConsumerId} {t : Task} {reply : Reply}
    {record' : Option Cell} {t' : Option Task} {events : List Event}
    (hun : s.Unexpired (.act c reply)) (hkeeps : s.KeepsCount (.act c reply))
    (ht : s.task c = some t) (hmove : rules.Move c s.now s.record t reply record' t' events) :
    (s.put c record' t' t.delivery events).Budget max := by
  have hcalls := hmove.handle_events.1
  cases hmove.touches with
  | keeps hrecord hholds =>
    -- Nothing is spent but what the claim in force has paid for.
    rw [hrecord]
    apply h.keep hcalls
    intro u attempts hu hready
    obtain ⟨hheld, -⟩ := hholds u hu (by rw [hready]; trivial)
    exact hmove.ready hu hready hheld
  | claims _ hclaim hrecord _ =>
    rw [hrecord]
    exact h.claim hcalls (claimed_le (by omega) hun.1 hclaim hsame _)
  | marks hmarks hrecord hholds =>
    obtain ⟨cell, hcell, hp, -⟩ := hown.processing ht hmarks.holds
    -- The mark ends the one claim in force.
    have hnone : ∀ c' u, (s.put c record' t' t.delivery events).task c' = some u →
        ¬ u.phase.Holds := by
      intro c' u hu hh
      rcases task_put hu with ⟨-, hself⟩ | ⟨hne, hold⟩
      · exact hholds u hself hh
      · exact hne (hown.unique' hold ht hh hmarks.holds)
    cases hphase : t.phase with
    | failing attempts =>
      have hcount := hkeeps c reply t attempts cell rfl ht hphase hcell
      obtain ⟨-, hle⟩ : 1 ≤ attempts ∧ attempts ≤ rules.maxRetries c := by
        have hin := hrange c t ht
        rwa [hphase] at hin
      rw [hphase, hcell] at hrecord
      change record' = some (cell.markedFailed rules.guarded attempts) at hrecord
      rw [Cell.markedFailed_of_processing hp] at hrecord
      rw [hrecord] at hnone ⊢
      exact h.mark hcalls hcell hcount (hle.trans_eq (hconfig c)) hnone
    | completing =>
      rw [hphase, hcell] at hrecord
      change record' = some cell.completed at hrecord
      have hattempts : cell.completed.attempts = cell.attempts := by
        unfold Cell.completed
        rw [if_pos hp]
      rw [hrecord] at hnone ⊢
      exact h.mark hcalls hcell hattempts.ge (hattempts.trans_le (h.spent cell hcell).2) hnone
    | _ =>
      rw [hphase] at hmarks
      cases hmarks

theorem Budget.step {max : Int} (h : s.Budget max) (hconfig : ∀ c, rules.maxRetries c = max)
    (hsame : rules.config.maxRetries = max) (hmax : 1 ≤ max) (hown : s.OneOwner)
    (hrange : s.Bounded rules) (hun : s.Unexpired label) (hkeeps : s.KeepsCount label)
    (hstep : Step rules s label s') : s'.Budget max := by
  cases hstep with
  | tick => exact ⟨h.fresh, h.spent, h.reserved⟩
  | expire => exact absurd rfl (hun.2 _)
  | arrive => exact h.keep (by decide) (by rintro _ _ ⟨⟩ ⟨⟩)
  | enter hc => exact h.enter hown hc
  | crash => exact h.keep (List.not_mem_nil) nofun
  | act hc hmove => exact h.move hconfig hsame hmax hown hrange hun hkeeps hc hmove

theorem budget_of_reach {max : Int} (hconfig : ∀ c, rules.maxRetries c = max)
    (hsame : rules.config.maxRetries = max) (hmax : 1 ≤ max)
    (h : Reach ((system rules).guard fun s label => s.Unexpired label ∧ s.KeepsCount label) s) :
    s.OneOwner ∧ s.Bounded rules ∧ s.Budget max := by
  apply h.invariant (fun s => s.OneOwner ∧ s.Bounded rules ∧ s.Budget max)
  · rintro s ⟨hnone, hidle, htrace⟩
    exact ⟨Owned.start hidle, .start hidle, .start hnone htrace⟩
  · rintro s label s' - ⟨hown, hrange, hbudget⟩ ⟨⟨hun, hkeeps⟩, hstep⟩
    exact ⟨hown.step (hown.calm hun) hstep, hrange.step hstep,
      hbudget.step hconfig hsame hmax hown hrange hun hkeeps hstep⟩

theorem Budget.calls_le {max : Int} (h : s.Budget max) (hmax : 1 ≤ max) : s.calls ≤ max := by
  cases hcell : s.record with
  | none =>
    rw [h.fresh hcell]
    omega
  | some cell =>
    obtain ⟨hspent, hle⟩ := h.spent cell hcell
    exact hspent.trans hle

def keepsCount (s : Life) : Label → Bool
  | .act c _ => (s.task c).all fun t =>
    match t.phase with
    | .failing attempts => s.record.all (·.attempts ≤ attempts)
    | _ => true
  | _ => true

theorem keepsCount_of_check (s : Life) (label : Label) (h : s.keepsCount label = true) :
    s.KeepsCount label := by
  rintro c reply t attempts cell rfl ht hphase hcell
  simpa [keepsCount, ht, hphase, hcell] using h

end Life

/-- All deliveries of a message together call `handle()` at most `max_retries` times, in a run in
which no `mark_failed` lowers the attempts of the record. -/
theorem Group.retry_budget (g : Group V R) (m : MessageId)
    (hconfig : ∀ c, (g.consumers c).config = g.backend.config)
    (hmax : 1 ≤ g.backend.config.maxRetries) {s : State g.backend}
    (h : Reach ((g.system m).guard (g.during m fun life label =>
      life.Unexpired label ∧ life.KeepsCount label)) s) :
    (g.life m s).calls ≤ g.backend.config.maxRetries := by
  have hsame : ∀ c, (g.rules m).maxRetries c = g.backend.config.maxRetries := by
    intro c
    change (g.consumers c).config.maxRetries = g.backend.config.maxRetries
    rw [hconfig c]
  obtain ⟨-, -, hbudget⟩ := Life.budget_of_reach hsame rfl hmax (Group.reach_life h)
  exact hbudget.calls_le hmax

def cancelledRun : List (Action Unit) :=
  [.assign 0 0, .poll 0 0, .act 0 (.done none), .enter 0, .act 0 (.raised handlerError false),
    .act 0 (.done none), .crash 0, .assign 0 1, .poll 1 0, .act 1 (.done none), .enter 1,
    .act 1 (.done none), .act 1 (.done none), .act 1 (.done none)]

/-- A consumer is cancelled in its backoff, and the redelivery succeeds. -/
theorem Group.retry_budget_redelivered :
    let config : DeduplicationConfig := { maxRetries := 2 }
    let g := smallGroup (.redis config nullCodec) ⟨config, some "orders.dlq"⟩ sampleId
    ∃ s, Reach ((g.system sampleId).guard (g.during sampleId fun life label =>
        life.Unexpired label ∧ life.KeepsCount label)) s ∧
      (g.life sampleId s).calls = 2 ∧ (g.life sampleId s).calls ≤ config.maxRetries := by
  intro config g
  have hrun : (replay g.exec (g.checked sampleId 2 fun s label =>
        s.isUnexpired label && s.keepsCount label)
      (g.startState 0 g.backend.empty) cancelledRun).any (fun s =>
        decide ((g.life sampleId s).calls = 2)) = true := by
    decide +kernel
  obtain ⟨s, hs, hfin⟩ := (Option.any_eq_true _ _).mp hrun
  obtain ⟨hr, -⟩ := Group.reach_replay (Life.both_of_checks
    (fun s label _ => s.unexpired_of_check label) fun s label _ => s.keepsCount_of_check label)
    rfl hs
  have hmax : (1 : Int) ≤ 2 := by decide
  exact ⟨s, hr, of_decide_eq_true hfin,
    Group.retry_budget g sampleId (fun _ => rfl) hmax hr⟩

/-- With two attempts, two consumers that fail in turn call `handle()` three times. -/
theorem Group.retry_budget_exceeded :
    let config : DeduplicationConfig := { maxRetries := 2 }
    let g := smallGroup (.redis config nullCodec) ⟨config, some "orders.dlq"⟩ sampleId
    ¬ ∀ s, Reach ((g.system sampleId).guard (g.during sampleId fun life label =>
        life.Faultless label ∧ life.Unexpired label)) s →
      (g.life sampleId s).calls ≤ config.maxRetries := by
  intro config g hall
  have hrun : (replay g.exec (g.checked sampleId 2 fun s label =>
        s.isFaultless 2 label && s.isUnexpired label)
      (g.startState 0 g.backend.empty) failedRun).any (fun s =>
        decide ((g.life sampleId s).calls = 3)) = true := by
    decide +kernel
  obtain ⟨s, hs, hfin⟩ := (Option.any_eq_true _ _).mp hrun
  obtain ⟨hr, -⟩ := Group.reach_replay (Life.both_of_checks
    Life.faultless_of_isFaultless fun s label _ => s.unexpired_of_check label) rfl hs
  have hle := hall s hr
  rw [of_decide_eq_true hfin] at hle
  exact absurd hle (by decide)

end MessageDedup
