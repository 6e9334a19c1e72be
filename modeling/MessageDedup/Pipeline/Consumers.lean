import MessageDedup.Pipeline.System

/-!
# The consumers of the pipeline

What the consumers read is there before they read it, so that they do what they would do on a log
that had all its records from the start.
-/

namespace MessageDedup

open Transition (Reach)

variable {V R : Type}

/-! ## The group under a log that grows -/

namespace Pipeline

variable {P : Pipeline V R} {m : MessageId} {log log' : Nat → Nat → ConsumerRecord}
  {s s' : State P.backend} {action : Action V}

/-- What a step of the group reads of two logs is the same. -/
structure SameReads (log log' : Nat → Nat → ConsumerRecord) (s : State P.backend)
    (action : Action V) : Prop where
  polled : ∀ c p, action = .poll c p → log p (s.position p) = log' p (s.position p)
  held : ∀ c d, s.consumer c = .busy d → log d.partition d.offset = log' d.partition d.offset

theorem SameReads.exec_eq (h : SameReads (P := P) log log' s action) :
    (P.group log).exec s action = (P.group log').exec s action := by
  cases action with
  | tick d => rfl
  | assign p c => rfl
  | enter c => rfl
  | crash c => rfl
  | poll c p =>
    unfold Group.exec Group.poll
    dsimp only [group]
    rw [h.polled c p rfl]
  | act c outcome =>
    cases hc : s.consumer c with
    | idle => simp only [Group.exec, Group.act, hc]
    | stopped => simp only [Group.exec, Group.act, hc]
    | busy d =>
      simp only [Group.exec, Group.act, Group.acted, hc]
      rw [h.held c d hc]

theorem SameReads.label_eq (h : SameReads (P := P) log log' s action) :
    (P.group log).label m s action = (P.group log').label m s action := by
  cases action with
  | tick d => rfl
  | assign p c => rfl
  | enter c => rfl
  | crash c => rfl
  | poll c p =>
    simp only [Group.label, h.polled c p rfl]
  | act c outcome =>
    cases hc : s.consumer c with
    | idle => simp only [Group.label, hc]
    | stopped => simp only [Group.label, hc]
    | busy d =>
      simp only [Group.label, Group.replyTo, hc]
      rw [h.held c d hc]

theorem SameReads.during {ok : Life → Label → Prop} (h : SameReads (P := P) log log' s action)
    (hok : (P.group log).during m ok s action) : (P.group log').during m ok s action := by
  intro b hb
  rw [← h.label_eq] at hb
  exact hok b hb

end Pipeline

/-! ## Positions -/

/-- No position and no committed offset is past the end of its partition. -/
structure State.Inside {backend : Backend V R} (length : Nat → Nat) (s : State backend) : Prop where
  position : ∀ p, s.position p ≤ length p
  committed : ∀ p, s.committed p ≤ length p

namespace State.Inside

variable {g : Group V R} {s s' : State g.backend} {length : Nat → Nat}

theorem land (h : s.Inside length) (c : ConsumerId) (delivery : Pc V → Delivery V)
    (next : Next V) : (s.land c delivery next).Inside length := by
  cases next <;> exact ⟨h.position, h.committed⟩

theorem commitPositions (h : s.Inside length) (c : ConsumerId) :
    (s.commitPositions c).Inside length where
  position := h.position
  committed := by
    intro p
    simp only [State.commitPositions]
    split
    · exact h.position p
    · exact h.committed p

theorem exec (h : s.Inside length) {action : Action V}
    (hread : ∀ c p, action = .poll c p → s.position p < length p)
    (hs : g.exec s action = some s') : s'.Inside length := by
  cases action with
  | tick d =>
    cases hs
    exact ⟨h.position, h.committed⟩
  | assign p c =>
    obtain ⟨-, heq⟩ := Option.ite_none_right_eq_some.mp hs
    cases heq
    refine ⟨fun p' => ?_, h.committed⟩
    rcases eq_or_ne p' p with rfl | hne
    · simpa using h.committed p'
    · simpa [hne] using h.position p'
  | poll c p =>
    -- Only a record that is there is read.
    simp only [Group.exec, Group.poll] at hs
    split at hs
    · obtain ⟨-, heq⟩ := Option.ite_none_right_eq_some.mp hs
      cases heq
      apply land
      refine ⟨fun p' => ?_, h.committed⟩
      rcases eq_or_ne p' p with rfl | hne
      · simpa [State.log, Nat.succ_le_iff] using hread c p' rfl
      · simpa [State.log, hne] using h.position p'
    · simp at hs
  | enter c =>
    simp only [Group.exec, Group.enter] at hs
    split at hs
    · obtain ⟨-, heq⟩ := Option.ite_none_right_eq_some.mp hs
      cases heq
      exact ⟨h.position, h.committed⟩
    · simp at hs
  | act c outcome =>
    simp only [Group.exec, Group.act] at hs
    split at hs
    · obtain ⟨-, heq⟩ := Option.ite_none_left_eq_some.mp hs
      cases heq
      unfold Group.acted
      apply land
      split
      · apply commitPositions
        exact ⟨h.position, h.committed⟩
      · exact ⟨h.position, h.committed⟩
    · simp at hs
  | crash c =>
    obtain ⟨-, heq⟩ := Option.ite_none_left_eq_some.mp hs
    cases heq
    exact ⟨h.position, h.committed⟩

end State.Inside

/-! ## Runs of the parts -/

namespace Pipeline

variable {P : Pipeline V R} {m : MessageId} {s s' : PipelineState P.backend}
  {a : PipelineAction V}

/-- The steps of the consumers that concern `m` meet `ok`. -/
def Consumes (P : Pipeline V R) (m : MessageId) (ok : Life → Label → Prop)
    (s : PipelineState P.backend) (a : PipelineAction V) : Prop :=
  ∀ action, a = .consume action → (P.group s.broker.log).during m ok s.group action

theorem Stepped.within (h : Stepped P s a s') {log : Nat → Nat → ConsumerRecord}
    (hlog : s'.broker.Within log) : s.broker.Within log := by
  rcases h.broker with heq | ⟨p, record, heq⟩
  · exact heq ▸ hlog
  · exact Kafka.Within.of_append (heq ▸ hlog)

theorem Stepped.length_le (h : Stepped P s a s') (p : Nat) :
    (s.broker p).length ≤ (s'.broker p).length := by
  rcases h.broker with heq | ⟨p', record, heq⟩
  · rw [heq]
  · rw [heq]
    exact s.broker.length_append p' record p

theorem Stepped.group_cases (h : Stepped P s a s') :
    (∃ action, a = .consume action ∧ s.Readable action ∧ s'.broker = s.broker ∧
      (P.group s.broker.log).exec s.group action = some s'.group) ∨ s'.group = s.group := by
  cases h with
  | consumed hread hexec => exact .inl ⟨_, rfl, hread, rfl, hexec⟩
  | relayed => exact .inr rfl
  | published => exact .inr rfl
  | repeated => exact .inr rfl
  | produced => exact .inr rfl

/-- The consumers do what they would do if all records had been there from the start. -/
theorem reach_group {ok : Life → Label → Prop}
    {guard : PipelineState P.backend → PipelineAction V → Prop}
    (hguard : ∀ s a, guard s a → P.Consumes m ok s a)
    (h : Reach ((P.system m).guard guard) s) :
    (∀ log, s.broker.Within log →
      Reach (((P.group log).system m).guard ((P.group log).during m ok)) s.group) ∧
    s.group.Inside fun p => (s.broker p).length := by
  induction h with
  | init h0 =>
    obtain ⟨now, store, rfl, hnone⟩ := h0
    exact ⟨fun log _ => .init ⟨now, store, rfl, hnone⟩, fun _ => le_rfl, fun _ => le_rfl⟩
  | @step s s' a hr hs ih =>
    obtain ⟨hgroup, hinside⟩ := ih
    obtain ⟨hok, hstep⟩ := hs
    have hstepped := stepped hstep
    rcases hstepped.group_cases with ⟨action, rfl, hread, hbroker, hexec⟩ | hsame
    · have hpolled : ∀ c p, action = .poll c p →
          s.group.position p < (s.broker p).length := by
        rintro c p rfl
        exact hread
      rw [hbroker]
      refine ⟨fun log hlog => ?_, hinside.exec hpolled hexec⟩
      have hcons := consistent_of_reach (hgroup log hlog).of_guard
      have hreads : SameReads (P := P) s.broker.log log s.group action := by
        refine ⟨fun c p ha => ?_, fun c d hc => ?_⟩
        · exact s.broker.within_log.eq hlog (hpolled c p ha)
        · obtain ⟨-, hpos, -⟩ := hcons.held c d hc
          have hle := hinside.position d.partition
          exact s.broker.within_log.eq hlog (by omega)
      refine .step (hgroup log hlog) ⟨hreads.during (hguard _ _ hok action rfl), ?_⟩
      exact hreads.exec_eq.symm.trans hexec
    · rw [hsame]
      refine ⟨fun log hlog => hgroup log (hstepped.within hlog), ?_, ?_⟩
      · exact fun p => (hinside.position p).trans (hstepped.length_le p)
      · exact fun p => (hinside.committed p).trans (hstepped.length_le p)

end Pipeline

end MessageDedup
