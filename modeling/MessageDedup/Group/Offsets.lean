import MessageDedup.Group.System

/-!
# Positions and committed offsets

What holds in every reachable state of the group between Kafka's offsets, the records that the
consumers have in hand, and the history.
-/

namespace MessageDedup

open Transition (Reach)

variable {V R : Type} {g : Group V R}

/-- A record below a committed offset has its commit in the history. A consumer has one record in
hand, the one just below its position, and has committed everything before it. -/
structure Consistent (g : Group V R) (s : State g.backend) : Prop where
  id : ∀ c d, s.consumer c = .busy d →
    extractMessageId g.py (g.log d.partition d.offset) = .ok (d.pc.messageId.map (·.val))
  number : ∀ c d, s.consumer c = .busy d → d.number < s.deliveries
  fresh : ∀ e ∈ s.trace, e.delivery < s.deliveries
  owner : ∀ p c, s.assigned p = some c → s.consumer c ≠ .stopped
  held : ∀ c d, s.consumer c = .busy d → s.assigned d.partition = some c ∧
    s.position d.partition = d.offset + 1 ∧ s.committed d.partition = d.offset
  rest : ∀ p c, s.assigned p = some c → (∀ d, s.consumer c = .busy d → p ≠ d.partition) →
    s.position p = s.committed p
  logged : ∀ p o (m : MessageId), o < s.committed p →
    extractMessageId g.py (g.log p o) = .ok (some m.val) →
    ∃ n, ⟨some m, n, .committed⟩ ∈ s.trace

namespace Consistent

variable {s : State g.backend}

theorem start (now : Int) (store : g.backend.State) : Consistent g (g.startState now store) where
  id := by intro c d h; cases h
  number := by intro c d h; cases h
  fresh := by intro e h; cases h
  owner := by intro p c h; cases h
  held := by intro c d h; cases h
  rest := by intro p c h; cases h
  logged := by
    intro p o m h
    exact absurd h (Nat.not_lt_zero o)

theorem stop (h : Consistent g s) (c : ConsumerId) : Consistent g (s.stop c) where
  id := fun c' d hd => h.id c' d (State.busy_stop hd).2
  number := fun c' d hd => h.number c' d (State.busy_stop hd).2
  fresh := h.fresh
  owner := by
    intro p c' ha
    obtain ⟨hne, hold⟩ := State.assigned_stop.mp ha
    rw [State.stop_of_ne s hne]
    exact h.owner p c' hold
  held := by
    intro c' d hd
    obtain ⟨hne, hold⟩ := State.busy_stop hd
    obtain ⟨ha, hpos⟩ := h.held c' d hold
    exact ⟨State.assigned_stop.mpr ⟨hne, ha⟩, hpos⟩
  rest := by
    intro p c' ha hd
    obtain ⟨hne, hold⟩ := State.assigned_stop.mp ha
    apply h.rest p c' hold
    intro d hb
    exact hd d ((State.stop_of_ne s hne).trans hb)
  logged := h.logged

theorem log (h : Consistent g s) {n : Nat} (hn : n < s.deliveries) (id : Option MessageId)
    (events : List Event) : Consistent g (s.log id n events) where
  id := h.id
  number := h.number
  fresh := by
    intro e he
    rcases List.mem_append.mp he with he | he
    · obtain ⟨event, -, rfl⟩ := List.mem_map.mp he
      exact hn
    · exact h.fresh e he
  owner := h.owner
  held := h.held
  rest := h.rest
  logged := by
    intro p o m ho hid
    obtain ⟨n', hn'⟩ := h.logged p o m ho hid
    exact ⟨n', List.mem_append_right _ hn'⟩

theorem goOn (h : Consistent g s) {c : ConsumerId} {d d' : Delivery V}
    (hc : s.consumer c = .busy d) (hp : d'.partition = d.partition) (ho : d'.offset = d.offset)
    (hn : d'.number = d.number) (hid : d'.pc.messageId = d.pc.messageId) :
    Consistent g (s.setConsumer c (.busy d')) where
  id := by
    intro c' d1 hd
    rcases State.busy_setConsumer hd with ⟨rfl, heq⟩ | ⟨-, hold⟩
    · obtain rfl := Local.busy.inj heq
      rw [hp, ho, hid]
      exact h.id c' d hc
    · exact h.id c' d1 hold
  number := by
    intro c' d1 hd
    rcases State.busy_setConsumer hd with ⟨rfl, heq⟩ | ⟨-, hold⟩
    · obtain rfl := Local.busy.inj heq
      rw [hn]
      exact h.number c' d hc
    · exact h.number c' d1 hold
  fresh := h.fresh
  owner := fun p c' ha => State.setConsumer_ne_stopped nofun (h.owner p c' ha)
  held := by
    intro c' d1 hd
    rcases State.busy_setConsumer hd with ⟨rfl, heq⟩ | ⟨-, hold⟩
    · obtain rfl := Local.busy.inj heq
      rw [hp, ho]
      exact h.held c' d hc
    · exact h.held c' d1 hold
  rest := by
    -- The consumer is busy with the same record before and after.
    intro p c' ha hd
    apply h.rest p c' ha
    intro d1 hb
    by_cases hcc : c' = c
    · subst hcc
      rw [hc] at hb
      obtain rfl := Local.busy.inj hb
      rw [← hp]
      exact hd d' (by simp [State.setConsumer])
    · exact hd d1 ((State.setConsumer_of_ne s hcc _).trans hb)
  logged := h.logged

/-- After a commit that is in the history, what lies below the new offsets of `c` is there too. -/
theorem logged_commit (h : Consistent g s) {c : ConsumerId} {d : Delivery V}
    (hc : s.consumer c = .busy d) (hlog : ⟨d.pc.messageId, d.number, .committed⟩ ∈ s.trace)
    {p o : Nat} {m : MessageId} (ha : s.assigned p = some c) (ho : o < s.position p)
    (hid : extractMessageId g.py (g.log p o) = .ok (some m.val)) :
    ∃ n, ⟨some m, n, .committed⟩ ∈ s.trace := by
  by_cases hp : p = d.partition
  · subst hp
    obtain ⟨-, hpos, hcom⟩ := h.held c d hc
    by_cases hod : o = d.offset
    · subst hod
      have hid := (h.id c d hc).symm.trans hid
      have hm : d.pc.messageId = some m :=
        Option.map_injective Subtype.val_injective (Except.ok.inj hid)
      rw [hm] at hlog
      exact ⟨_, hlog⟩
    · exact h.logged d.partition o m (by omega) hid
  · have hrest := h.rest p c ha fun d1 hb => by
      rw [hc] at hb
      obtain rfl := Local.busy.inj hb
      exact hp
    exact h.logged p o m (by omega) hid

theorem commit (h : Consistent g s) {c : ConsumerId} {d : Delivery V}
    (hc : s.consumer c = .busy d) (hlog : ⟨d.pc.messageId, d.number, .committed⟩ ∈ s.trace) :
    Consistent g ((s.commitPositions c).setConsumer c .idle) where
  id := by
    intro c' d1 hd
    rcases State.busy_setConsumer hd with ⟨-, heq⟩ | ⟨-, hold⟩
    · simp at heq
    · exact h.id c' d1 hold
  number := by
    intro c' d1 hd
    rcases State.busy_setConsumer hd with ⟨-, heq⟩ | ⟨-, hold⟩
    · simp at heq
    · exact h.number c' d1 hold
  fresh := h.fresh
  owner := fun p c' ha => State.setConsumer_ne_stopped nofun (h.owner p c' ha)
  held := by
    intro c' d1 hd
    rcases State.busy_setConsumer hd with ⟨-, heq⟩ | ⟨hcc, hold⟩
    · simp at heq
    · obtain ⟨ha, hpos, hcom⟩ := h.held c' d1 hold
      refine ⟨ha, hpos, ?_⟩
      have hne : s.assigned d1.partition ≠ some c := by
        rw [ha]
        simpa using hcc
      simpa [State.setConsumer, State.commitPositions, hne] using hcom
  rest := by
    -- An idle owner has committed all it fetched: the commit covers every partition it holds.
    intro p c' ha hd
    change s.assigned p = some c' at ha
    by_cases hcc : c' = c
    · subst hcc
      simp [State.setConsumer, State.commitPositions, ha]
    · have hne : s.assigned p ≠ some c := by
        rw [ha]
        simpa using hcc
      have hrest := h.rest p c' ha fun d1 hb =>
        hd d1 ((State.setConsumer_of_ne _ hcc _).trans hb)
      simpa [State.setConsumer, State.commitPositions, hne] using hrest
  logged := by
    -- Offsets of its own partitions are new here; those of the others are logged already.
    intro p o m ho hid
    by_cases ha : s.assigned p = some c
    · exact h.logged_commit hc hlog ha
        (by simpa [State.setConsumer, State.commitPositions, ha] using ho) hid
    · exact h.logged p o m (by simpa [State.setConsumer, State.commitPositions, ha] using ho) hid

theorem assign (h : Consistent g s) {s' : State g.backend} {p : Nat} {c : ConsumerId}
    (hs : g.assign s p c = some s') : Consistent g s' := by
  unfold Group.assign at hs
  split at hs
  · rename_i hfree
    obtain ⟨hfree, hlive⟩ := hfree
    obtain rfl := Option.some.inj hs
    refine ⟨h.id, h.number, h.fresh, ?_, ?_, ?_, h.logged⟩
    · intro p' c' ha
      by_cases hp : p' = p
      · subst hp
        obtain rfl : c = c' := by simpa using ha
        intro hstop
        have hstop : s.consumer c = .stopped := hstop
        rw [hstop] at hlive
        cases hlive
      · exact h.owner p' c' (by simpa [hp] using ha)
    · intro c' d hd
      obtain ⟨ha, hpos, hcom⟩ := h.held c' d hd
      have hp : d.partition ≠ p := by
        rintro rfl
        rw [hfree] at ha
        simp at ha
      simpa [hp] using ⟨ha, hpos, hcom⟩
    · intro p' c' ha hd
      by_cases hp : p' = p
      · subst hp
        simp
      · simpa [hp] using h.rest p' c' (by simpa [hp] using ha) hd
  · simp at hs

theorem take (h : Consistent g s) {c : ConsumerId} {p : Nat} {pc : Pc V} {now : Int}
    (hc : s.consumer c = .idle) (ha : s.assigned p = some c)
    (hid : extractMessageId g.py (g.log p (s.position p)) = .ok (pc.messageId.map (·.val))) :
    Consistent g (({ s with
      position := Function.update s.position p (s.position p + 1)
      deliveries := s.deliveries + 1 } : State g.backend).setConsumer c
        (.busy ⟨s.deliveries, p, s.position p, pc, false, now⟩)) where
  id := by
    intro c' d hd
    rcases State.busy_setConsumer hd with ⟨rfl, heq⟩ | ⟨-, hold⟩
    · obtain rfl := Local.busy.inj heq
      exact hid
    · exact h.id c' d hold
  number := by
    intro c' d hd
    rcases State.busy_setConsumer hd with ⟨rfl, heq⟩ | ⟨-, hold⟩
    · obtain rfl := Local.busy.inj heq
      exact Nat.lt_succ_self _
    · exact Nat.lt_succ_of_lt (h.number c' d hold)
  fresh := fun e he => Nat.lt_succ_of_lt (h.fresh e he)
  owner := fun p' c' ha' => State.setConsumer_ne_stopped nofun (h.owner p' c' ha')
  held := by
    -- The record is the first uncommitted one of its partition.
    intro c' d hd
    rcases State.busy_setConsumer hd with ⟨rfl, heq⟩ | ⟨hcc, hold⟩
    · obtain rfl := Local.busy.inj heq
      refine ⟨ha, by simp [State.setConsumer], ?_⟩
      refine (h.rest p c' ha fun d hb => ?_).symm
      rw [hc] at hb
      simp at hb
    · obtain ⟨ha', hpos, hcom⟩ := h.held c' d hold
      have hp : d.partition ≠ p := by
        intro e
        rw [e, ha] at ha'
        exact hcc (Option.some.inj ha').symm
      simpa [State.setConsumer, hp] using ⟨ha', hpos, hcom⟩
  rest := by
    intro p' c' ha' hd
    change s.assigned p' = some c' at ha'
    by_cases hcc : c' = c
    · subst hcc
      have hp : p' ≠ p := hd ⟨s.deliveries, p, s.position p, pc, false, now⟩
        (by simp [State.setConsumer])
      have hrest := h.rest p' c' ha' fun d hb => by
        rw [hc] at hb
        simp at hb
      simpa [State.setConsumer, hp] using hrest
    · have hp : p' ≠ p := by
        rintro rfl
        rw [ha] at ha'
        exact hcc (Option.some.inj ha').symm
      have hrest := h.rest p' c' ha' fun d hb =>
        hd d ((State.setConsumer_of_ne _ hcc _).trans hb)
      simpa [State.setConsumer, hp] using hrest
  logged := h.logged

theorem withStore (h : Consistent g s) (store : g.backend.State) :
    Consistent g { s with store := store } :=
  ⟨h.id, h.number, h.fresh, h.owner, h.held, h.rest, h.logged⟩

theorem reposition (h : Consistent g s) {p : Nat} (hp : s.assigned p = none) (x : Nat) :
    Consistent g { s with
      position := Function.update s.position p x
      deliveries := s.deliveries + 1 } where
  id := h.id
  number := fun c d hd => Nat.lt_succ_of_lt (h.number c d hd)
  fresh := fun e he => Nat.lt_succ_of_lt (h.fresh e he)
  owner := h.owner
  held := by
    intro c d hd
    obtain ⟨ha, hpos, hcom⟩ := h.held c d hd
    have hne : d.partition ≠ p := by
      rintro rfl
      rw [hp] at ha
      simp at ha
    simpa [hne] using ⟨ha, hpos, hcom⟩
  rest := by
    intro p' c ha hd
    have hne : p' ≠ p := by
      rintro rfl
      exact absurd (hp.symm.trans ha) nofun
    simpa [hne] using h.rest p' c ha hd
  logged := h.logged

theorem poll (h : Consistent g s) {s' : State g.backend} {c : ConsumerId} {p : Nat}
    (hs : g.poll s c p = some s') : Consistent g s' := by
  unfold Group.poll at hs
  split at hs
  · rename_i hc
    split at hs
    · rename_i ha
      obtain rfl := Option.some.inj hs
      rcases DedupConsumer.start_cases (V := V) g.py (g.consumers c) (g.log p (s.position p)) with
        ⟨pc, hnext, hid⟩ | ⟨exc, hnext⟩
      · rw [hnext]
        exact (h.take hc ha hid).log (Nat.lt_succ_self _) _ _
      · rw [hnext]
        have hfree : (s.stop c).assigned p = none := by simp [State.stop, ha]
        exact ((h.stop c).reposition hfree _).log (Nat.lt_succ_self _) _ _
    · simp at hs
  · simp at hs

theorem enter (h : Consistent g s) {s' : State g.backend} {c : ConsumerId}
    (hs : g.enter s c = some s') : Consistent g s' := by
  unfold Group.enter at hs
  split at hs
  · rename_i d hc
    split at hs
    · obtain rfl := Option.some.inj hs
      exact (h.log (h.number c d hc) d.pc.messageId [.entered]).goOn hc rfl rfl rfl rfl
    · simp at hs
  · simp at hs

theorem acted (h : Consistent g s) {c : ConsumerId} {d : Delivery V} (outcome : Outcome V)
    (hc : s.consumer c = .busy d) : Consistent g (g.acted s c d outcome) := by
  have hlog := fun store => (h.withStore store).log (h.number c d hc) d.pc.messageId
  unfold Group.acted
  cases hcommit : ((g.consumers c).callOf g.py (g.log d.partition d.offset) d.pc).isCommit with
  | false =>
    -- Any other call than `commit()` leaves the offsets alone.
    simp only [hcommit, Bool.false_and, Bool.false_eq_true, if_false]
    have hwithin := DedupConsumer.resume_within d.pc hcommit
      (g.backend.answer s.store s.now _ outcome).2
    cases hnext : ((g.consumers c).resume g.py (g.log d.partition d.offset) d.pc
      (g.backend.answer s.store s.now _ outcome).2).2 with
    | pc p =>
      rw [hnext] at hwithin
      exact (hlog _ _).goOn hc rfl rfl rfl hwithin
    | done =>
      rw [hnext] at hwithin
      exact hwithin.elim
    | raised exc => exact (hlog _ _).stop c
  | true =>
    cases happ : outcome.applied with
    | true =>
      -- A commit that is carried out covers the record, also when it raises.
      simp only [hcommit, Bool.and_self, if_true]
      have hdone : ∀ store events, .committed ∈ events → Consistent g
          (((({ s with store := store } : State g.backend).log d.pc.messageId d.number
            events).commitPositions c).setConsumer c .idle) :=
        fun store events he => (hlog store events).commit hc (State.mem_log _ he)
      have hmem := Call.committed_mem hcommit (g.backend.leaseUntil s.now)
        (g.backend.answer s.store s.now _ outcome).2
      rcases DedupConsumer.resume_commit d.pc hcommit
        (g.backend.answer s.store s.now _ outcome).2 with ⟨hnext, -⟩ | ⟨exc, hnext⟩
      · rw [hnext]
        exact hdone _ _ (List.mem_append_right _ hmem)
      · rw [hnext]
        have hstop := fun store events he => (hdone store events he).stop c
        simp only [State.stop_setConsumer] at hstop
        exact hstop _ _ (List.mem_append_right _ hmem)
    | false =>
      simp only [Bool.and_false, Bool.false_eq_true, if_false]
      rcases DedupConsumer.resume_commit d.pc hcommit
        (g.backend.answer s.store s.now _ outcome).2 with ⟨-, x, hreply⟩ | ⟨exc, hnext⟩
      · rw [Backend.applied_of_ok hreply] at happ
        simp at happ
      · rw [hnext]
        exact (hlog _ _).stop c

theorem exec (h : Consistent g s) {s' : State g.backend} {a : Action V}
    (hs : g.exec s a = some s') : Consistent g s' := by
  cases a with
  | tick d =>
    obtain rfl := Option.some.inj hs
    exact ⟨h.id, h.number, h.fresh, h.owner, h.held, h.rest, h.logged⟩
  | assign p c => exact h.assign hs
  | poll c p => exact h.poll hs
  | enter c => exact h.enter hs
  | act c outcome =>
    simp only [Group.exec, Group.act] at hs
    split at hs
    · rename_i d hc
      split at hs
      · simp at hs
      · obtain rfl := Option.some.inj hs
        exact h.acted outcome hc
    · simp at hs
  | crash c =>
    simp only [Group.exec, Group.crash] at hs
    split at hs
    · simp at hs
    · obtain rfl := Option.some.inj hs
      exact h.stop c

end Consistent

theorem consistent_of_reach {m : MessageId} {s : State g.backend} (h : Reach (g.system m) s) :
    Consistent g s := by
  apply h.invariant (Consistent g)
  · rintro s ⟨now, store, rfl, -⟩
    exact .start now store
  · intro s a s' _ hs hstep
    exact hs.exec hstep

end MessageDedup
