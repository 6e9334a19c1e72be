import MessageDedup.Group.ExactlyOnce

/-!
# Results that are not recorded

A `mark_completed` that raises is swallowed: the record stays PROCESSING, and a claim wins it when
its lease has run out. `handle()` is not repeated in a run without such claims.
-/

namespace MessageDedup

open Transition (Reach System replay)

variable {V R : Type} {rules : Rules} {s s' : Life} {label : Label}

/-! ## Later deliveries -/

/-- Some delivery has returned from `handle()`, and its offset is committed. -/
def Handled (trace : List (Nat × Event)) : Prop :=
  ∃ n, (n, .returned) ∈ trace ∧ (n, .committed) ∈ trace

/-- The delivery came after another one was handled. -/
inductive Late : List (Nat × Event) → Nat → Prop
  | here {n : Nat} {older : List (Nat × Event)} (h : Handled older) :
    Late ((n, .delivered) :: older) n
  | there {n : Nat} {e : Nat × Event} {older : List (Nat × Event)} (h : Late older n) :
      Late (e :: older) n

namespace Late

variable {trace : List (Nat × Event)} {n : Nat}

theorem handled (h : Late trace n) : Handled trace := by
  induction h with
  | here h =>
    obtain ⟨k, hr, hc⟩ := h
    exact ⟨k, List.mem_cons_of_mem _ hr, List.mem_cons_of_mem _ hc⟩
  | there _ ih =>
    obtain ⟨k, hr, hc⟩ := ih
    exact ⟨k, List.mem_cons_of_mem _ hr, List.mem_cons_of_mem _ hc⟩

theorem of_append {d : Nat} {events : List Event} (hnew : .delivered ∉ events)
    (h : Late (events.map (d, ·) ++ trace) n) : Late trace n := by
  induction events with
  | nil => exact h
  | cons event events ih =>
    rw [List.mem_cons, not_or] at hnew
    cases h with
    | here => exact absurd rfl hnew.1
    | there h => exact ih hnew.2 h

end Late

/-- A delivery that has not won a claim. -/
def Phase.Early : Phase → Prop
  | .arriving | .refused | .skipping => True
  | _ => False

namespace Life

/-- No delivery that comes after a handled one calls `handle()`. -/
def NotRepeated (s : Life) : Prop := ∀ n, Late s.trace n → (n, .entered) ∉ s.trace

/-- The delivery has returned from `handle()` and is past its `mark_completed`. -/
def Finishes (s : Life) (n : Nat) : Prop :=
  ((n, .returned) ∈ s.trace ∧ (n, .committed) ∈ s.trace) ∨
    ∃ c t, s.task c = some t ∧ t.delivery = n ∧ t.phase = .settling

/-- The `mark_completed` of a delivery that goes on to its commit has raised. -/
def Swallowed (s : Life) : Prop := ∃ n, (n, .lost) ∈ s.trace ∧ s.Finishes n

def IsProcessing (s : Life) : Prop := ∃ cell, s.record = some cell ∧ cell.status = .processing

/-- No record expires by its TTL. -/
def Unexpiring (_s : Life) (label : Label) : Prop := ∀ d, label ≠ .tick d true

/-- Each `mark_completed` finds a record to complete, and the record that a swallowed one leaves
behind is neither claimed as an orphan nor marked FAILED. -/
structure Recorded (s : Life) (label : Label) : Prop where
  noExpiry : s.Unexpiring label
  completes : ∀ c reply t, label = .act c reply → s.task c = some t → t.phase = .completing →
    s.IsCompleted ∨ s.IsProcessing
  notClaimed : ∀ c reply t, label = .act c reply → s.task c = some t → s.Swallowed →
    (t.phase = .arriving ∨ ∃ attempts, t.phase = .reclaiming attempts) →
    ∀ cell, s.record = some cell → ¬ cell.Orphaned s.now
  notFailed : ∀ c reply t, label = .act c reply → s.task c = some t → s.Swallowed →
    (∃ attempts, t.phase = .failing attempts) → ¬ s.IsProcessing

/-! ## The invariant -/

structure RecordInv (s : Life) : Prop where
  done : ∀ n, s.Finishes n → s.IsCompleted ∨ (s.IsProcessing ∧ (n, .lost) ∈ s.trace)
  returned : ∀ c t, s.task c = some t → (t.delivery, .returned) ∈ s.trace →
    t.phase = .completing ∨ t.phase = .settling
  committed : ∀ c t, s.task c = some t → (t.delivery, .committed) ∉ s.trace
  distinct : ∀ c c' t t', s.task c = some t → s.task c' = some t' → t.delivery = t'.delivery →
    c = c'
  late : ∀ n, Late s.trace n → (n, .entered) ∉ s.trace ∧
    ∀ c t, s.task c = some t → t.delivery = n → t.phase.Early

/-- What a step must keep of the record, where some delivery relies on it. -/
def Keeps (s : Life) (record' : Option Cell) : Prop :=
  (s.IsCompleted → ∃ cell, record' = some cell ∧ cell.status = .completed) ∧
    (s.IsProcessing → ∃ cell, record' = some cell ∧
      (cell.status = .completed ∨ cell.status = .processing))

theorem keeps_self : s.Keeps s.record := by
  refine ⟨id, ?_⟩
  rintro ⟨cell, hcell, hp⟩
  exact ⟨cell, hcell, .inr hp⟩

theorem keeps_completed : s.Keeps (s.record.map Cell.completed) := by
  constructor
  · rintro ⟨cell, hcell, hdone⟩
    rw [hcell]
    refine ⟨_, rfl, ?_⟩
    rw [Cell.completed_of_ne (by simp [hdone])]
    exact hdone
  · rintro ⟨cell, hcell, hp⟩
    rw [hcell]
    exact ⟨_, rfl, .inl (Cell.completed_of_processing hp)⟩

theorem finishes_of_handled (h : Handled s.trace) : ∃ n, s.Finishes n := by
  obtain ⟨n, hr, hc⟩ := h
  exact ⟨n, .inl ⟨hr, hc⟩⟩

namespace RecordInv

theorem swallowed (h : s.RecordInv) {n : Nat} (hf : s.Finishes n) (hnot : ¬ s.IsCompleted) :
    s.IsProcessing ∧ s.Swallowed := by
  rcases h.done n hf with hdone | ⟨hp, hlost⟩
  · exact absurd hdone hnot
  · exact ⟨hp, n, hlost, hf⟩

theorem no_claim (h : s.RecordInv) (rules : Rules) {c : ConsumerId} {reply : Reply} {t : Task}
    (hrec : s.Recorded (.act c reply)) (ht : s.task c = some t)
    (hphase : t.phase = .arriving ∨ ∃ attempts, t.phase = .reclaiming attempts) {n : Nat}
    (hf : s.Finishes n) : ¬ Cell.Claimable rules.config s.now s.record := by
  by_cases hdone : s.IsCompleted
  · obtain ⟨cell, hcell, hcompleted⟩ := hdone
    rw [hcell]
    exact Cell.not_claimable_completed hcompleted
  · obtain ⟨⟨cell, hcell, hp⟩, hsw⟩ := h.swallowed hf hdone
    rw [hcell, Cell.claimable_processing hp]
    exact hrec.notClaimed c reply t rfl ht hsw hphase cell hcell

theorem keeps_effect (h : s.RecordInv) (hguard : rules.guarded = true) {c : ConsumerId}
    {reply : Reply} {t : Task} (hrec : s.Recorded (.act c reply)) (ht : s.task c = some t) {n : Nat}
    (hf : s.Finishes n) : s.Keeps (rules.effect s.now s.record t.phase) := by
  cases hphase : t.phase with
  | arriving =>
    have hno := h.no_claim rules hrec ht (.inl hphase) hf
    simp only [Rules.effect, if_neg hno]
    exact keeps_self
  | reclaiming attempts =>
    have hno := h.no_claim rules hrec ht (.inr ⟨attempts, hphase⟩) hf
    simp only [Rules.effect, if_neg hno]
    exact keeps_self
  | completing => exact keeps_completed
  | failing attempts =>
    constructor
    · rintro ⟨cell, hcell, hdone⟩
      refine ⟨cell, ?_, hdone⟩
      simp only [Rules.effect, hcell, Option.map_some, hguard]
      rw [Cell.markedFailed_of_ne (by simp [hdone])]
    · intro hp
      have hnot : ¬ s.IsCompleted := by
        rintro ⟨cell, hcell, hdone⟩
        obtain ⟨cell', hcell', hp'⟩ := hp
        rw [hcell] at hcell'
        rw [Option.some.inj hcell', hp'] at hdone
        simp at hdone
      exact absurd hp (hrec.notFailed c reply t rfl ht (h.swallowed hf hnot).2 ⟨attempts, hphase⟩)
  | _ => exact keeps_self

end RecordInv

end Life

theorem Rules.Move.record_eq {c : ConsumerId} {now : Int} {record record' : Option Cell} {t : Task}
    {t' : Option Task} {reply : Reply} {events : List Event}
    (h : rules.Move c now record t reply record' t' events) :
    record' = record ∨ record' = rules.effect now record t.phase := by
  cases h with
  | granted h | grantedInVain h | undecodable h | regranted h | regrantedInVain h =>
    exact .inr (if_pos h).symm
  | retried | exhausted | completed => exact .inr rfl
  | markLost h | stopped _ _ h => exact h
  | _ => exact .inl rfl

namespace Rules.Move

variable {c : ConsumerId} {now : Int} {record record' : Option Cell} {t : Task}
  {t' : Option Task} {reply : Reply} {events : List Event}

theorem delivery_eq (h : rules.Move c now record t reply record' t' events) (u : Task)
    (hu : t' = some u) : u.delivery = t.delivery := by
  cases h <;> cases hu <;> rfl

theorem starts_nothing (h : rules.Move c now record t reply record' t' events) :
    .delivered ∉ events ∧ .entered ∉ events := by
  cases h with
  | @stopped applied _ _ phase => cases phase <;> cases applied <;> simp [lastWords]
  | _ => simp

theorem settles (h : rules.Move c now record t reply record' t' events) (u : Task)
    (hu : t' = some u) (hphase : u.phase = .settling) :
    t.phase = .completing ∧
      (record' = record.map Cell.completed ∨ (record' = record ∧ .lost ∈ events)) := by
  cases h with
  | completed => exact ⟨rfl, .inl rfl⟩
  | markLost h => exact ⟨rfl, h.symm.imp_right fun heq => ⟨heq, List.mem_singleton_self _⟩⟩
  | grantedInVain _ _ hg | exhausted _ hg | regrantedInVain _ _ hg | lostRace _ hg =>
    cases hu
    rcases hg with ⟨-, rfl⟩ | ⟨-, rfl⟩ <;> cases hphase
  | _ => cases hu <;> cases hphase

theorem finishes (h : rules.Move c now record t reply record' t' events) (u : Task)
    (hu : t' = some u)
    (hpast : .returned ∈ events ∨ t.phase = .completing ∨ t.phase = .settling) :
    u.phase = .completing ∨ u.phase = .settling := by
  cases h with
  | returned =>
    cases hu
    exact .inl rfl
  | completed | markLost =>
    cases hu
    exact .inr rfl
  | undecodable | skipped | settled | dropped | stopped => cases hu
  | _ => simp at hpast

theorem commits (h : rules.Move c now record t reply record' t' events)
    (hc : .committed ∈ events) : t' = none ∧ .returned ∉ events ∧ t.phase ≠ .completing := by
  cases h with
  | skipped | settled | dropped => simp
  | @stopped applied _ _ phase => cases phase <;> cases applied <;> simp [lastWords] at hc ⊢
  | _ => simp at hc

theorem early (h : rules.Move c now record t reply record' t' events) (hearly : t.phase.Early)
    (u : Task) (hu : t' = some u) :
    u.phase.Early ∨ (t.phase = .arriving ∧ Cell.Claimable rules.config now record) := by
  cases h with
  | granted h | grantedInVain h => exact .inr ⟨rfl, h⟩
  | refused | statusRead =>
    cases hu
    exact .inl trivial
  | undecodable | skipped | settled | dropped | stopped => cases hu
  | _ => exact hearly.elim

end Rules.Move

namespace Life

/-- What the invariant asks of a step on the delivery `t`. -/
structure GoesOn (s : Life) (t : Task) (record' : Option Cell) (t' : Option Task)
    (events : List Event) : Prop where
  keeps : ∀ n, s.Finishes n → s.Keeps record'
  delivery : ∀ u, t' = some u → u.delivery = t.delivery
  settles : ∀ u, t' = some u → u.phase = .settling →
    (∃ cell, record' = some cell ∧ cell.status = .completed) ∨
      ((∃ cell, record' = some cell ∧ cell.status = .processing) ∧ .lost ∈ events)
  returned : ∀ u, t' = some u → .returned ∈ events ∨ t.phase = .completing ∨
    t.phase = .settling → u.phase = .completing ∨ u.phase = .settling
  committed : .committed ∈ events → t' = none ∧ .returned ∉ events ∧ t.phase ≠ .completing
  delivered : .delivered ∉ events
  entered : .entered ∈ events → ¬ t.phase.Early
  early : (∃ n, s.Finishes n) → t.phase.Early → ∀ u, t' = some u → u.phase.Early

namespace RecordInv

theorem done_keeps (h : s.RecordInv) {c : ConsumerId} {record' : Option Cell} {t' : Option Task}
    {d : Nat} {events : List Event} {n : Nat} (hf : s.Finishes n) (hkeeps : s.Keeps record') :
    (s.put c record' t' d events).IsCompleted ∨
      ((s.put c record' t' d events).IsProcessing ∧
        (n, .lost) ∈ (s.put c record' t' d events).trace) := by
  rcases h.done n hf with hdone | ⟨hp, hlost⟩
  · exact .inl (hkeeps.1 hdone)
  · obtain ⟨cell, hcell, hdone | hp⟩ := hkeeps.2 hp
    · exact .inl ⟨cell, hcell, hdone⟩
    · exact .inr ⟨⟨cell, hcell, hp⟩, mem_put.mpr (.inr hlost)⟩

section

variable {c : ConsumerId} {t : Task} {record' : Option Cell} {t' : Option Task}
  {events : List Event}

theorem done_goOn (h : s.RecordInv) (ht : s.task c = some t)
    (hgo : s.GoesOn t record' t' events) {n : Nat}
    (hf : (s.put c record' t' t.delivery events).Finishes n) :
    (s.put c record' t' t.delivery events).IsCompleted ∨
      ((s.put c record' t' t.delivery events).IsProcessing ∧
        (n, .lost) ∈ (s.put c record' t' t.delivery events).trace) := by
  rcases hf with ⟨hr, hc⟩ | ⟨c', u, hu, hn, hphase⟩
  · have hold : s.Finishes n := by
      rcases mem_put.mp hc with ⟨rfl, hcom⟩ | hc
      · obtain ⟨-, hnr, hnc⟩ := hgo.committed hcom
        rcases mem_put.mp hr with ⟨-, hret⟩ | hr
        · exact absurd hret hnr
        · rcases h.returned c t ht hr with hphase | hphase
          · exact absurd hphase hnc
          · exact .inr ⟨c, t, ht, rfl, hphase⟩
      · rcases mem_put.mp hr with ⟨rfl, -⟩ | hr
        · exact absurd hc (h.committed c t ht)
        · exact .inl ⟨hr, hc⟩
    exact h.done_keeps hold (hgo.keeps n hold)
  · rcases task_put hu with ⟨-, hself⟩ | ⟨-, hold⟩
    · rcases hgo.settles u hself hphase with hdone | ⟨hp, hlost⟩
      · exact .inl hdone
      · right
        refine ⟨hp, mem_put.mpr (.inl ⟨?_, hlost⟩)⟩
        rw [← hn, hgo.delivery u hself]
    · have hf : s.Finishes n := .inr ⟨c', u, hold, hn, hphase⟩
      exact h.done_keeps hf (hgo.keeps n hf)

theorem returned_goOn (h : s.RecordInv) (ht : s.task c = some t)
    (hgo : s.GoesOn t record' t' events) {c' : ConsumerId} {u : Task}
    (hu : (s.put c record' t' t.delivery events).task c' = some u)
    (hr : (u.delivery, .returned) ∈ (s.put c record' t' t.delivery events).trace) :
    u.phase = .completing ∨ u.phase = .settling := by
  rcases task_put hu with ⟨-, hself⟩ | ⟨hne, hold⟩
  · apply hgo.returned u hself
    rcases mem_put.mp hr with ⟨-, hmem⟩ | hmem
    · exact .inl hmem
    · rw [hgo.delivery u hself] at hmem
      exact .inr (h.returned c t ht hmem)
  · rcases mem_put.mp hr with ⟨hsame, -⟩ | hmem
    · exact absurd (h.distinct c' c u t hold ht hsame) hne
    · exact h.returned c' u hold hmem

theorem committed_goOn (h : s.RecordInv) (ht : s.task c = some t)
    (hgo : s.GoesOn t record' t' events) {c' : ConsumerId} {u : Task}
    (hu : (s.put c record' t' t.delivery events).task c' = some u) :
    (u.delivery, .committed) ∉ (s.put c record' t' t.delivery events).trace := by
  intro hc
  rcases task_put hu with ⟨-, hself⟩ | ⟨hne, hold⟩
  · rcases mem_put.mp hc with ⟨-, hmem⟩ | hmem
    · rw [(hgo.committed hmem).1] at hself
      simp at hself
    · rw [hgo.delivery u hself] at hmem
      exact h.committed c t ht hmem
  · rcases mem_put.mp hc with ⟨hsame, -⟩ | hmem
    · exact hne (h.distinct c' c u t hold ht hsame)
    · exact h.committed c' u hold hmem

theorem distinct_goOn (h : s.RecordInv) (ht : s.task c = some t)
    (hgo : s.GoesOn t record' t' events) {c₁ c₂ : ConsumerId} {u₁ u₂ : Task}
    (hu₁ : (s.put c record' t' t.delivery events).task c₁ = some u₁)
    (hu₂ : (s.put c record' t' t.delivery events).task c₂ = some u₂)
    (hsame : u₁.delivery = u₂.delivery) : c₁ = c₂ := by
  rcases task_put hu₁ with ⟨rfl, hself₁⟩ | ⟨hne₁, hold₁⟩ <;>
    rcases task_put hu₂ with ⟨rfl, hself₂⟩ | ⟨hne₂, hold₂⟩
  · rfl
  · rw [hgo.delivery u₁ hself₁] at hsame
    exact h.distinct c₁ c₂ t u₂ ht hold₂ hsame
  · rw [hgo.delivery u₂ hself₂] at hsame
    exact h.distinct c₁ c₂ u₁ t hold₁ ht hsame
  · exact h.distinct c₁ c₂ u₁ u₂ hold₁ hold₂ hsame

theorem late_goOn (h : s.RecordInv) (ht : s.task c = some t)
    (hgo : s.GoesOn t record' t' events) {n : Nat}
    (hlate : Late (s.put c record' t' t.delivery events).trace n) :
    (n, .entered) ∉ (s.put c record' t' t.delivery events).trace ∧
      ∀ c' u, (s.put c record' t' t.delivery events).task c' = some u → u.delivery = n →
        u.phase.Early := by
  have hold := Late.of_append hgo.delivered hlate
  obtain ⟨hnot, hphase⟩ := h.late n hold
  constructor
  · intro hmem
    rcases mem_put.mp hmem with ⟨rfl, hevent⟩ | hmem
    · exact hgo.entered hevent (hphase c t ht rfl)
    · exact hnot hmem
  · intro c' u hu hn
    rcases task_put hu with ⟨-, hself⟩ | ⟨-, hu⟩
    · rw [hgo.delivery u hself] at hn
      exact hgo.early (finishes_of_handled hold.handled) (hphase c t ht hn) u hself
    · exact hphase c' u hu hn

theorem goOn (h : s.RecordInv) (ht : s.task c = some t) (hgo : s.GoesOn t record' t' events) :
    (s.put c record' t' t.delivery events).RecordInv where
  done := fun _ => h.done_goOn ht hgo
  returned := fun _ _ => h.returned_goOn ht hgo
  committed := fun _ _ => h.committed_goOn ht hgo
  distinct := fun _ _ _ _ => h.distinct_goOn ht hgo
  late := fun _ => h.late_goOn ht hgo

end

theorem late_arrive (h : s.RecordInv) {c : ConsumerId} {n k : Nat} {l : Int}
    (htask : ∀ c' t, s.task c' = some t → t.delivery < n) (htrace : ∀ e ∈ s.trace, e.1 < n)
    (hlate : Late (s.put c s.record (some ⟨n, .arriving, l⟩) n [.delivered]).trace k) :
    (k, .entered) ∉ (s.put c s.record (some ⟨n, .arriving, l⟩) n [.delivered]).trace ∧
      ∀ c' t, (s.put c s.record (some ⟨n, .arriving, l⟩) n [.delivered]).task c' = some t →
        t.delivery = k → t.phase.Early := by
  have hentered : ∀ {k}, (k, .entered) ∉ s.trace →
      (k, .entered) ∉ (s.put c s.record (some ⟨n, .arriving, l⟩) n [.delivered]).trace := by
    intro k hnot hmem
    rcases mem_put.mp hmem with ⟨-, hmem⟩ | hmem
    · simp at hmem
    · exact hnot hmem
  -- Only the new delivery can be late without having been late before.
  cases hlate with
  | here =>
    refine ⟨hentered fun hmem => Nat.lt_irrefl n (htrace _ hmem), ?_⟩
    intro c' u hu hk
    rcases task_put hu with ⟨-, ⟨⟩⟩ | ⟨-, hold⟩
    · trivial
    · exact absurd (htask c' u hold) (by simp [hk])
  | there hold =>
    obtain ⟨hnot, hphase⟩ := h.late k hold
    refine ⟨hentered hnot, ?_⟩
    intro c' u hu hk
    rcases task_put hu with ⟨-, ⟨⟩⟩ | ⟨-, hu⟩
    · trivial
    · exact hphase c' u hu hk

theorem arrive (h : s.RecordInv) {c : ConsumerId} {n : Nat} {l : Int} (hc : s.task c = none)
    (htask : ∀ c' t, s.task c' = some t → t.delivery < n) (htrace : ∀ e ∈ s.trace, e.1 < n) :
    (s.put c s.record (some ⟨n, .arriving, l⟩) n [.delivered]).RecordInv where
  done := by
    intro k hf
    have hold : s.Finishes k := by
      rcases hf with ⟨hr, hcom⟩ | ⟨c', u, hu, hk, hphase⟩
      · rcases mem_put.mp hr with ⟨-, hmem⟩ | hr
        · simp at hmem
        · rcases mem_put.mp hcom with ⟨-, hmem⟩ | hcom
          · simp at hmem
          · exact .inl ⟨hr, hcom⟩
      · rcases task_put hu with ⟨-, ⟨⟩⟩ | ⟨-, hold⟩
        · simp at hphase
        · exact .inr ⟨c', u, hold, hk, hphase⟩
    exact h.done_keeps hold keeps_self
  returned := by
    -- The new delivery has no event yet: its number is not used before.
    intro c' u hu hr
    rcases mem_put.mp hr with ⟨-, hmem⟩ | hr
    · simp at hmem
    · rcases task_put hu with ⟨-, ⟨⟩⟩ | ⟨-, hold⟩
      · exact absurd (htrace _ hr) (Nat.lt_irrefl n)
      · exact h.returned c' u hold hr
  committed := by
    intro c' u hu hcom
    rcases mem_put.mp hcom with ⟨-, hmem⟩ | hcom
    · simp at hmem
    · rcases task_put hu with ⟨-, ⟨⟩⟩ | ⟨-, hold⟩
      · exact absurd (htrace _ hcom) (Nat.lt_irrefl n)
      · exact h.committed c' u hold hcom
  distinct := by
    intro c₁ c₂ u₁ u₂ hu₁ hu₂ hsame
    rcases task_put hu₁ with ⟨rfl, ⟨⟩⟩ | ⟨-, hold₁⟩ <;>
      rcases task_put hu₂ with ⟨rfl, ⟨⟩⟩ | ⟨-, hold₂⟩
    · rfl
    · exact absurd (htask c₂ u₂ hold₂) (by simp [← hsame])
    · exact absurd (htask c₁ u₁ hold₁) (by simp [hsame])
    · exact h.distinct c₁ c₂ u₁ u₂ hold₁ hold₂ hsame
  late := fun _ hlate => h.late_arrive htask htrace hlate

theorem move (h : s.RecordInv) (hguard : rules.guarded = true) {c : ConsumerId} {t : Task}
    {reply : Reply} {record' : Option Cell} {t' : Option Task} {events : List Event}
    (hrec : s.Recorded (.act c reply)) (ht : s.task c = some t)
    (hmove : rules.Move c s.now s.record t reply record' t' events) :
    (s.put c record' t' t.delivery events).RecordInv := by
  obtain ⟨hdelivered, hentered⟩ := hmove.starts_nothing
  refine h.goOn ht ⟨?_, hmove.delivery_eq, ?_, hmove.finishes, hmove.commits, hdelivered,
    fun hmem => absurd hmem hentered, ?_⟩
  · intro n hf
    rcases hmove.record_eq with rfl | rfl
    · exact keeps_self
    · exact h.keeps_effect hguard hrec ht hf
  · intro u hu hphase
    obtain ⟨hcompleting, hmarked⟩ := hmove.settles u hu hphase
    have hfound := hrec.completes c reply t rfl ht hcompleting
    rcases hmarked with rfl | ⟨rfl, hlost⟩
    · left
      rcases hfound with hdone | hp
      · exact keeps_completed.1 hdone
      · obtain ⟨cell, hcell, hp⟩ := hp
        rw [hcell]
        exact ⟨_, rfl, Cell.completed_of_processing hp⟩
    · exact hfound.imp_right fun hp => ⟨hp, hlost⟩
  · rintro ⟨n, hf⟩ hearly u hu
    rcases hmove.early hearly u hu with hphase | ⟨harriving, hclaim⟩
    · exact hphase
    · exact absurd hclaim (h.no_claim rules hrec ht (.inl harriving) hf)

theorem step (h : s.RecordInv) (hguard : rules.guarded = true) (hrec : s.Recorded label)
    (hstep : Step rules s label s') : s'.RecordInv := by
  cases hstep with
  | tick => exact ⟨h.done, h.returned, h.committed, h.distinct, h.late⟩
  | expire => exact absurd rfl (hrec.noExpiry _)
  | arrive hc htask htrace => exact h.arrive hc htask htrace
  | enter hc =>
    refine h.goOn hc ⟨fun _ _ => keeps_self, ?_, ?_, ?_, by simp, by simp, fun _ => id, ?_⟩
    · rintro _ ⟨⟩
      rfl
    · rintro _ ⟨⟩ ⟨⟩
    · rintro _ - (hmem | hphase | hphase)
      · simp at hmem
      · simp at hphase
      · simp at hphase
    · exact fun _ hearly => hearly.elim
  | crash hc =>
    exact h.goOn hc ⟨fun _ _ => keeps_self, nofun, nofun, nofun, by simp, by simp, by simp,
      fun _ _ => nofun⟩
  | act hc hmove => exact h.move hguard hrec hc hmove

end RecordInv

theorem recordInv_of_reach (hguard : rules.guarded = true)
    (h : Reach ((system rules).guard Recorded) s) : s.RecordInv := by
  apply h.invariant (fun s => s.RecordInv)
  · rintro s ⟨-, hidle, htrace⟩
    have hnone : ∀ {c t}, s.task c ≠ some t := by simp [hidle]
    refine ⟨?_, ?_, ?_, ?_, ?_⟩
    · rintro n (⟨hr, -⟩ | ⟨c, t, ht, -⟩)
      · rw [htrace] at hr
        simp at hr
      · exact absurd ht hnone
    · exact fun c t ht => absurd ht hnone
    · exact fun c t ht => absurd ht hnone
    · exact fun c c' t t' ht => absurd ht hnone
    · intro n hlate
      rw [htrace] at hlate
      cases hlate
  · rintro s label s' - hs ⟨hrec, hstep⟩
    exact hs.step hguard hrec hstep

end Life

/-- Over Redis, no message is handled again after a handled delivery is committed, in a run in
which each `mark_completed` finds a record to complete and nobody takes the record that a swallowed
one leaves behind. -/
theorem Group.not_repeated (g : Group V R) (m : MessageId) {config : DeduplicationConfig}
    {codec : ResultCodec V R} (hredis : g.backend = .redis config codec) {s : State g.backend}
    (h : Reach ((g.system m).guard (g.during m Life.Recorded)) s) : (g.life m s).NotRepeated := by
  have hguard : (g.rules m).guarded = true := by
    change g.backend.guarded = true
    rw [hredis]
    rfl
  have hinv := Life.recordInv_of_reach hguard (Group.reach_life h)
  exact fun n hlate => (hinv.late n hlate).1

namespace Life

def isUnexpiring : Label → Bool
  | .tick _ expired => !expired
  | _ => true

/-- As `Recorded`, with nobody's `mark_failed`. -/
def isRecorded (s : Life) : Label → Bool
  | .tick _ expired => !expired
  | .act c _ => (s.task c).all fun t =>
    match t.phase with
    | .completing => s.record.any fun cell => cell.status = .processing
    | .arriving | .reclaiming _ => s.record.all fun cell => !decide (cell.Orphaned s.now)
    | .failing _ => false
    | _ => true
  | _ => true

theorem unexpiring_of_check (s : Life) (label : Label) (h : isUnexpiring label = true) :
    s.Unexpiring label := by
  rintro d rfl
  cases h

theorem recorded_of_check (s : Life) (label : Label) (h : s.isRecorded label = true) :
    s.Recorded label := by
  refine ⟨?_, ?_, ?_, ?_⟩
  · rintro d rfl
    cases h
  · rintro c reply t rfl ht hphase
    simp only [isRecorded, ht, Option.all_some, hphase, Option.any_eq_true,
      decide_eq_true_eq] at h
    exact .inr h
  · rintro c reply t rfl ht - hphase cell hcell
    rcases hphase with hphase | ⟨a, hphase⟩ <;>
      simpa [isRecorded, ht, hphase, hcell] using h
  · rintro c reply t rfl ht - ⟨a, hphase⟩
    simp [isRecorded, ht, hphase] at h

end Life

/-- A codec for results that `json.dumps` rejects. -/
def setCodec : ResultCodec Unit Unit :=
  ⟨fun _ => .error ⟨.typeError, "Object of type set is not JSON serializable"⟩, fun _ => .ok (),
    some⟩

/-- The result cannot be recorded, and the next delivery comes before the lease runs out. -/
def swallowedRun : List (Action Unit) :=
  [.assign 0 0, .assign 1 1, .poll 0 0, .act 0 (.done none), .enter 0, .act 0 (.done (some ())),
    .act 0 (.done none), .act 0 (.done none), .poll 1 1, .act 1 (.done none), .act 1 (.done none),
    .act 1 (.done none)]

theorem Group.not_repeated_in_lease :
    let g := smallGroup (.redis {} setCodec) ⟨{}, none⟩ sampleId
    ∃ s, Reach ((g.system sampleId).guard (g.during sampleId Life.Recorded)) s ∧
      Late (g.life sampleId s).trace 1 ∧ (1, .entered) ∉ (g.life sampleId s).trace := by
  intro g
  have hrun : (replay g.exec (g.checked sampleId 2 Life.isRecorded)
      (g.startState 0 g.backend.empty) swallowedRun).any (fun s =>
        (g.life sampleId s).trace = [(1, .committed), (1, .delivered), (0, .committed), (0, .lost),
          (0, .returned), (0, .entered), (0, .claimed 300000000), (0, .delivered)]) = true := by
    decide +kernel
  obtain ⟨s, hs, htrace⟩ := (Option.any_eq_true _ _).mp hrun
  rw [decide_eq_true_eq] at htrace
  obtain ⟨hr, -⟩ := Group.reach_replay (fun s label _ => s.recorded_of_check label) rfl hs
  have hlate : Late (g.life sampleId s).trace 1 := by
    rw [htrace]
    exact .there (.here ⟨0, by decide, by decide⟩)
  exact ⟨s, hr, hlate, Group.not_repeated g sampleId rfl hr 1 hlate⟩

/-- The result cannot be recorded, and the next delivery comes after the lease. -/
def orphanRun : List (Action Unit) :=
  [.assign 0 0, .assign 1 1, .poll 0 0, .act 0 (.done none), .enter 0, .act 0 (.done (some ())),
    .act 0 (.done none), .act 0 (.done none), .tick 300000000, .poll 1 1, .act 1 (.done none),
    .enter 1]

/-- `handle()` is called again for a message that it has handled. -/
theorem Group.handled_twice :
    let g := smallGroup (.redis {} setCodec) ⟨{}, none⟩ sampleId
    ¬ ∀ s, Reach ((g.system sampleId).guard (g.during sampleId Life.Unexpiring)) s →
      (g.life sampleId s).NotRepeated := by
  intro g hall
  have hrun : (replay g.exec (g.checked sampleId 2 fun _ label => Life.isUnexpiring label)
      (g.startState 0 g.backend.empty) orphanRun).any (fun s =>
        (g.life sampleId s).trace = [(1, .entered), (1, .claimed 600000000), (1, .delivered),
          (0, .committed), (0, .lost), (0, .returned), (0, .entered), (0, .claimed 300000000),
          (0, .delivered)]) = true := by
    decide +kernel
  obtain ⟨s, hs, htrace⟩ := (Option.any_eq_true _ _).mp hrun
  rw [decide_eq_true_eq] at htrace
  obtain ⟨hr, -⟩ := Group.reach_replay (fun s label _ => s.unexpiring_of_check label) rfl hs
  have hlate : Late (g.life sampleId s).trace 1 := by
    rw [htrace]
    exact .there (.there (.here ⟨0, by decide, by decide⟩))
  apply hall s hr 1 hlate
  rw [htrace]
  exact List.mem_cons_self

end MessageDedup
