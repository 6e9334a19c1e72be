import MessageDedup.Group.ExactlyOnce

/-!
# Slow owners

The record does not say who owns it: the mark of an owner whose lease has run out changes the
record of a newer claim. A claim is respected in a run without such marks.
-/

namespace MessageDedup

open Transition (Reach System replay)

variable {V R : Type} {rules : Rules} {s s' : Life} {label : Label}

/-! ## The claims won -/

def Event.lease? : Event → Option Int
  | .claimed lease => some lease
  | _ => none

/-- The claims that returned True, newest first: the delivery and the lease of each. -/
def Life.won (s : Life) : List (Nat × Int) :=
  s.trace.filterMap fun e => e.2.lease?.map (e.1, ·)

theorem Event.lease?_eq_some {event : Event} {l : Int} :
    event.lease? = some l ↔ event = .claimed l := by
  cases event <;> simp [Event.lease?]

theorem Life.won_put (c : ConsumerId) (record' : Option Cell) (t' : Option Task) (n : Nat)
    (events : List Event) :
    (s.put c record' t' n events).won = (events.filterMap Event.lease?).map (n, ·) ++ s.won := by
  unfold Life.won Life.put
  rw [List.filterMap_append, List.filterMap_map, List.map_filterMap]
  rfl

theorem Life.won_put_of_notMem (c : ConsumerId) (record' : Option Cell) (t' : Option Task)
    (n : Nat) {events : List Event} (h : ∀ l, .claimed l ∉ events) :
    (s.put c record' t' n events).won = s.won := by
  have hnil : events.filterMap Event.lease? = [] := by
    rw [List.filterMap_eq_nil_iff]
    intro event hevent
    cases hl : event.lease? with
    | none => rfl
    | some l => exact absurd (Event.lease?_eq_some.mp hl ▸ hevent) (h l)
  rw [won_put, hnil]
  rfl

theorem Rules.Move.claimed_events {c : ConsumerId} {now : Int} {record record' : Option Cell}
    {t : Task} {t' : Option Task} {reply : Reply} {events : List Event}
    (h : rules.Move c now record t reply record' t' events) {l : Int} (hl : .claimed l ∈ events) :
    Cell.Claimable rules.config now record ∧ record' = some (Cell.claimed l record) := by
  cases h with
  | granted h | grantedInVain h | undecodable h | regranted h | regrantedInVain h =>
    simp only [List.mem_cons, Event.claimed.injEq, List.not_mem_nil, or_false, false_or,
      reduceCtorEq] at hl
    exact ⟨h, by rw [hl]⟩
  | @stopped applied _ _ phase => cases phase <;> cases applied <;> simp [Rules.lastWords] at hl
  | _ => simp at hl

namespace Life

/-! ## Late marks -/

/-- The record is PROCESSING under a lease that runs. -/
def Leased (s : Life) : Prop :=
  ∃ cell lease, s.record = some cell ∧ cell.status = .processing ∧ cell.lease = some lease ∧
    s.now < lease

/-- `c` calls `mark_completed` or `mark_failed`. -/
def Marking (c : ConsumerId) (s : Life) (label : Label) : Prop :=
  ∃ reply t, label = .act c reply ∧ s.task c = some t ∧ t.phase.Marks

/-- No record expires by its TTL, and no consumer marks the record after its own lease while a
newer claim holds. -/
structure Punctual (s : Life) (label : Label) : Prop where
  noExpiry : ∀ d, label ≠ .tick d true
  noLateMark : ∀ c reply t, label = .act c reply → s.task c = some t → t.phase.Marks →
    t.lease ≤ s.now → ¬ s.Leased

/-- The claims with a live lease own the record. -/
abbrev LiveOwner (s : Life) : Prop := Owned (fun now lease => now < lease) s

theorem LiveOwner.step (h : s.LiveOwner) (hp : s.Punctual label)
    (hstep : Step rules s label s') : s'.LiveOwner := by
  apply Owned.step h _ (fun _ _ _ _ hl => hl) hp.noExpiry _ hstep
  · intro d lease hlive
    omega
  · intro c reply t hlabel ht hmarks hlate c' t' ht' hh' hlive'
    obtain ⟨cell, hcell, hproc, hlease⟩ := h.record c' t' ht' hh' hlive'
    exact hp.noLateMark c reply t hlabel ht hmarks (Int.not_lt.mp hlate)
      ⟨cell, t'.lease, hcell, hproc, hlease, hlive'⟩

theorem liveOwner_of_reach (h : Reach ((system rules).guard Punctual) s) : s.LiveOwner := by
  apply h.invariant (fun s => s.LiveOwner)
  · rintro s ⟨-, hidle, -⟩
    exact Owned.start hidle
  · rintro s label s' - hs ⟨hp, hstep⟩
    exact hs.step hp hstep

/-! ## A claim in force -/

/-- While the lease runs, the record and the claims are those of `s₀`, and no other consumer has a
claim with a live lease. -/
def InForce (c : ConsumerId) (lease : Int) (s₀ s : Life) : Prop :=
  s.now < lease → s.record = s₀.record ∧ s.won = s₀.won ∧
    ∀ c' t, c' ≠ c → s.task c' = some t → t.phase.Holds → ¬ s.now < t.lease

theorem LiveOwner.inForce (h : s.LiveOwner) {c : ConsumerId} {reply : Reply} {n : Nat} {lease : Int}
    (hstep : Step rules s (.act c reply) s') (hwon : s'.won = (n, lease) :: s.won) :
    (∃ old, s'.record = some (Cell.claimed lease old)) ∧ InForce c lease s' s' := by
  cases hstep with
  | @act _ t _ record' t' events hc hmove =>
    rw [won_put, List.append_eq_cons_iff] at hwon
    have hmem : .claimed lease ∈ events := by
      rcases hwon with ⟨-, heq⟩ | ⟨rest, hmap, -⟩
      · exact absurd heq.symm (List.cons_ne_self _ _)
      · have hhead : (n, lease) ∈ (events.filterMap Event.lease?).map (t.delivery, ·) := by
          rw [hmap]
          exact List.mem_cons_self
        obtain ⟨l, hl, heq⟩ := List.mem_map.mp hhead
        obtain ⟨-, rfl⟩ := Prod.mk.inj heq
        obtain ⟨event, hevent, hlease⟩ := List.mem_filterMap.mp hl
        rw [Event.lease?_eq_some] at hlease
        exact hlease ▸ hevent
    obtain ⟨hclaim, hrecord⟩ := hmove.claimed_events hmem
    refine ⟨⟨s.record, hrecord⟩, fun _ => ⟨rfl, rfl, ?_⟩⟩
    intro c' t₁ hne ht₁ hh hlive
    rw [task_put_other s hne] at ht₁
    exact Owned.no_claim_counts h (fun _ _ _ _ hl => hl) hclaim c' t₁ ht₁ hh hlive

theorem InForce.put {c : ConsumerId} {lease : Int} {s₀ : Life} (h : InForce c lease s₀ s)
    {c₁ : ConsumerId} {t' : Option Task} (n : Nat) {events : List Event}
    (hnew : ∀ l, .claimed l ∉ events)
    (hholds : ∀ u, t' = some u → u.phase.Holds →
      ∃ t, s.task c₁ = some t ∧ t.phase.Holds ∧ u.lease = t.lease) :
    InForce c lease s₀ (s.put c₁ s.record t' n events) := by
  intro hnow
  obtain ⟨hrecord, hwon, hothers⟩ := h hnow
  refine ⟨hrecord, (won_put_of_notMem _ _ _ _ hnew).trans hwon, ?_⟩
  intro c' u hne hu hh
  rcases task_put hu with ⟨rfl, hself⟩ | ⟨-, hold⟩
  · obtain ⟨t, ht, hth, heq⟩ := hholds u hself hh
    rw [heq]
    exact hothers c' t hne ht hth
  · exact hothers c' u hne hold hh

theorem InForce.step {c : ConsumerId} {lease : Int} {s₀ : Life}
    (hfresh : ∃ old, s₀.record = some (Cell.claimed lease old)) (h : InForce c lease s₀ s)
    (hp : s.Punctual label) (hm : ¬ s.Marking c label) (hstep : Step rules s label s') :
    InForce c lease s₀ s' := by
  obtain ⟨old, hold⟩ := hfresh
  cases hstep with
  | @tick d =>
    intro hnow
    change s.now + d < lease at hnow
    obtain ⟨hrecord, hwon, hothers⟩ := h (by omega)
    refine ⟨hrecord, hwon, fun c' t hne ht hh hlive => ?_⟩
    change s.now + d < t.lease at hlive
    exact hothers c' t hne ht hh (by omega)
  | expire => exact absurd rfl (hp.noExpiry _)
  | arrive hc => exact h.put _ (by simp) (by rintro u ⟨⟩ hh; exact hh.elim)
  | enter hc => exact h.put _ (by simp) (by rintro u ⟨⟩ _; exact ⟨_, hc, trivial, rfl⟩)
  | crash hc => exact h.put _ (by simp) nofun
  | @act c₁ t reply record' t' events hc hmove =>
    intro hnow
    obtain ⟨hrecord, -, hothers⟩ := h hnow
    have hleased : s.Leased := ⟨_, lease, hrecord.trans hold, rfl, rfl, hnow⟩
    have hclaim : ¬ Cell.Claimable rules.config s.now s.record := by
      rw [hrecord, hold]
      exact Cell.not_claimable_of_live rfl rfl hnow
    have hnew : ∀ l, .claimed l ∉ events := fun l hl => hclaim (hmove.claimed_events hl).1
    cases hmove.touches with
    | keeps hkeep hholds =>
      rw [hkeep] at hnow ⊢
      refine h.put _ hnew (fun u hu hh => ?_) hnow
      obtain ⟨hth, heq⟩ := hholds u hu hh
      exact ⟨t, hc, hth, heq⟩
    | claims _ hc => exact absurd hc hclaim
    | marks hmarks =>
      have hne : c₁ ≠ c := by
        rintro rfl
        exact hm ⟨reply, t, rfl, hc, hmarks⟩
      have hlate := hothers c₁ t hne hc hmarks.holds
      exact absurd hleased (hp.noLateMark c₁ reply t rfl hc hmarks (Int.not_lt.mp hlate))

/-- From a claim on, until its own consumer marks it or its lease runs out, the record stays and no
claim is won. -/
theorem inForce_of_reach {s₁ : Life} {c : ConsumerId} {reply : Reply} {n : Nat} {lease : Int}
    (h : Reach ((system rules).guard Punctual) s) (hstep : Step rules s (.act c reply) s₁)
    (hwon : s₁.won = (n, lease) :: s.won)
    (hrun : Reach (((system rules).startingAt s₁).guard fun s label =>
      s.Punctual label ∧ ¬ s.Marking c label) s') : InForce c lease s₁ s' := by
  obtain ⟨hfresh, hforce⟩ := (liveOwner_of_reach h).inForce hstep hwon
  apply hrun.invariant (InForce c lease s₁)
  · rintro _ rfl
    exact hforce
  · rintro s₂ label s₃ - hs ⟨⟨hpunctual, hmark⟩, hstep₂⟩
    exact hs.step hfresh hpunctual hmark hstep₂

end Life

theorem Group.label_act (g : Group V R) {m : MessageId} {s : State g.backend} {c : ConsumerId}
    {outcome : Outcome V} {b : Label} (h : g.label m s (.act c outcome) = some b) :
    ∃ reply, b = .act c reply := by
  unfold Group.label at h
  simp only at h
  split at h
  · split at h
    · exact ⟨_, (Option.some.inj h).symm⟩
    · simp at h
  · simp at h

/-- A claim of `c` for `m` has just returned True in `s₁`, and `s₂` comes after it, before `c`
marks the record. -/
structure Group.ClaimRun (g : Group V R) (m : MessageId) (ok : Life → Label → Prop)
    (c : ConsumerId) (lease : Int) (s₁ s₂ : State g.backend) : Prop where
  claim : ∃ s outcome n, Reach ((g.system m).guard (g.during m ok)) s ∧
    ((g.system m).guard (g.during m ok)).step s (.act c outcome) s₁ ∧
    (g.life m s₁).won = (n, lease) :: (g.life m s).won
  run : Reach (((g.system m).startingAt s₁).guard (g.during m fun life label =>
    ok life label ∧ ¬ life.Marking c label)) s₂

/-- A claim is respected: in a run without late marks under a newer claim, from the moment that a
claim returns True until its lease runs out or its own consumer marks it, no other claim returns
True and nothing changes the record. -/
theorem Group.claim_respected (g : Group V R) (m : MessageId) {c : ConsumerId} {lease : Int}
    {s₁ s₂ : State g.backend} (h : g.ClaimRun m Life.Punctual c lease s₁ s₂)
    (hlive : s₂.now < lease) :
    (g.life m s₂).won = (g.life m s₁).won ∧
      g.backend.store.cell s₂.store s₂.now m = g.backend.store.cell s₁.store s₁.now m := by
  obtain ⟨⟨s, outcome, n, hs, hstep, hwon⟩, hrun⟩ := h
  have hreach := hs.of_guard
  have hlife := (g.refines m).step s _ s₁ hreach hstep.2
  have hrun' : Reach (((Life.system (g.rules m)).startingAt (g.life m s₁)).guard fun life label =>
      life.Punctual label ∧ ¬ life.Marking c label) (g.life m s₂) :=
    ((g.refines m).startingAt (hreach.step hstep.2)).reach (fun _ _ b _ hok hb => hok b hb) hrun
  cases hlabel : g.label m s (.act c outcome) with
  | none =>
    rw [hlabel] at hlife
    have hsame : g.life m s₁ = g.life m s := hlife
    rw [hsame] at hwon
    exact absurd hwon.symm (List.cons_ne_self _ _)
  | some b =>
    obtain ⟨reply, rfl⟩ := g.label_act hlabel
    rw [hlabel] at hlife
    obtain ⟨hrecord, hsame, -⟩ :=
      Life.inForce_of_reach (Group.reach_life hs) hlife hwon hrun' hlive
    exact ⟨hsame, hrecord⟩

/-! ## Replayed claims -/

namespace Life

/-- No crash, no failure outside `handle()`, and no expiry of the record. A lease may run out. -/
structure Unfailing (s : Life) (label : Label) : Prop where
  noExpiry : ∀ d, label ≠ .tick d true
  noCrash : ∀ c, label ≠ .crash c
  replies : ∀ c isException, label = .act c (.raised isException) →
    isException = true ∧ ∃ t attempts, s.task c = some t ∧ t.phase = .running attempts

def isUnfailing (s : Life) : Label → Bool
  | .tick _ expired => !expired
  | .crash _ => false
  | .act c (.raised isException) => isException && (s.task c).any (·.phase.isRunning)
  | _ => true

def isMarking (c : ConsumerId) (s : Life) : Label → Bool
  | .act c' _ => c' = c && (s.task c).any fun t => t.phase.Marks
  | _ => false

def isLeased (s : Life) : Bool :=
  s.record.any fun cell => cell.status = .processing && cell.lease.any fun lease => s.now < lease

def isPunctual (s : Life) : Label → Bool
  | .tick _ expired => !expired
  | .act c _ => (s.task c).all fun t =>
    !decide t.phase.Marks || decide (s.now < t.lease) || !s.isLeased
  | _ => true

theorem unfailing_of_check (s : Life) (label : Label) (h : s.isUnfailing label = true) :
    s.Unfailing label := by
  refine ⟨?_, ?_, ?_⟩
  · rintro d rfl
    cases h
  · rintro c rfl
    cases h
  · rintro c isException rfl
    simp only [isUnfailing, Bool.and_eq_true, Option.any_eq_true] at h
    obtain ⟨hexc, t, ht, hrun⟩ := h
    obtain ⟨a, ha⟩ := Phase.running_of_isRunning hrun
    exact ⟨hexc, t, a, ht, ha⟩

theorem not_marking_of_check {c : ConsumerId} (s : Life) (label : Label)
    (h : s.isMarking c label = false) : ¬ s.Marking c label := by
  rintro ⟨reply, t, rfl, ht, hmarks⟩
  simp [isMarking, ht, hmarks] at h

theorem punctual_of_check (s : Life) (label : Label) (h : s.isPunctual label = true) :
    s.Punctual label := by
  constructor
  · rintro d rfl
    cases h
  · rintro c reply t rfl ht hmarks hlate ⟨cell, lease, hcell, hproc, hlease, hlive⟩
    have hleased : s.isLeased = true := by simp [isLeased, hcell, hproc, hlease, hlive]
    simp only [isPunctual, ht, Option.all_some, hmarks, decide_true, Bool.not_true, Bool.false_or,
      hleased, Bool.or_false, decide_eq_true_eq] at h
    omega

end Life

/-- The states after a claim of `c` and after what follows it. -/
def Group.replayClaim (g : Group V R) (m : MessageId) (k : Nat) (check : Life → Label → Bool)
    (c : ConsumerId) (n : Nat) (lease : Int) (before after : List (Action V)) :
    Option (State g.backend × State g.backend) :=
  (replay g.exec (g.checked m k check) (g.startState 0 g.backend.empty) before).bind fun s =>
    (replay g.exec (g.checked m k check) s [.act c (.done none)]).bind fun s₁ =>
      if (g.life m s₁).won = (n, lease) :: (g.life m s).won then
        (replay g.exec (g.checked m k fun life label => check life label &&
          !life.isMarking c label) s₁ after).map (s₁, ·)
      else none

theorem Group.claimRun_of_replay {g : Group V R} {m : MessageId} {ok : Life → Label → Prop}
    {k : Nat} {check : Life → Label → Bool} (hcheck : ∀ s label, check s label = true → ok s label)
    {c : ConsumerId} {n : Nat} {lease : Int} {before after : List (Action V)}
    {s₁ s₂ : State g.backend} (hnone : g.backend.store.cell g.backend.empty 0 m = none)
    (h : g.replayClaim m k check c n lease before after = some (s₁, s₂)) :
    g.ClaimRun m ok c lease s₁ s₂ := by
  unfold replayClaim at h
  obtain ⟨s, hs, h⟩ := Option.bind_eq_some_iff.mp h
  obtain ⟨s', hs', h⟩ := Option.bind_eq_some_iff.mp h
  split at h
  · rename_i hwon
    obtain ⟨s'', hs'', heq⟩ := Option.map_eq_some_iff.mp h
    obtain ⟨rfl, rfl⟩ := Prod.mk.inj heq
    have himp : ∀ (s : Life) label, s.Quiet k → check s label = true → ok s label :=
      fun s label _ => hcheck s label
    have h₀ : Reach ((g.system m).guard (g.during m ok)) (g.startState 0 g.backend.empty) :=
      .init ⟨0, _, rfl, hnone⟩
    obtain ⟨hr, hq⟩ := reach_replay_on himp h₀ (fun _ _ => rfl) hs
    obtain ⟨hc, hexec⟩ := Transition.replay_singleton hs'
    refine ⟨⟨s, _, n, hr, ⟨during_of_checked himp hq hc, hexec⟩, hwon⟩, ?_⟩
    have h₁ : Reach (((g.system m).startingAt s').guard (g.during m fun life label =>
        ok life label ∧ ¬ life.Marking c label)) s' := .init rfl
    refine (reach_replay_on ?_ h₁ (quiet_step hq hc hexec) hs'').1
    intro s label _ hpass
    rw [Bool.and_eq_true, Bool.not_eq_true'] at hpass
    exact ⟨hcheck s label hpass.1, s.not_marking_of_check label hpass.2⟩
  · simp at h

/-- The first consumer overruns its lease. The second one claims the record and fails, and only then
the first one marks it too; the third one claims it, and the retries of both are refused. -/
theorem Group.claim_respected_refused :
    let g := smallGroup (.redis {} nullCodec) ⟨{}, none⟩ sampleId
    ∃ s₁ s₂ : State g.backend, 0 < s₂.committed 0 ∧ 0 < s₂.committed 1 ∧
      (g.life sampleId s₁).won = [(2, 600000000), (1, 600000000), (0, 300000000)] ∧
      (g.life sampleId s₂).won = (g.life sampleId s₁).won ∧
      g.backend.store.cell s₂.store s₂.now sampleId =
        g.backend.store.cell s₁.store s₁.now sampleId := by
  intro g
  have hrun : (g.replayClaim sampleId 3 Life.isPunctual 2 2 600000000
      [.assign 0 0, .assign 1 1, .assign 2 2, .poll 0 0, .act 0 (.done none), .enter 0,
        .tick 300000000, .poll 1 1, .act 1 (.done none), .enter 1,
        .act 1 (.raised handlerError false), .act 1 (.done none),
        .act 0 (.raised handlerError false), .act 0 (.done none), .poll 2 2]
      [.enter 2, .tick 500000, .act 0 (.done none), .act 0 (.done none), .act 0 (.done none),
        .act 1 (.done none), .act 1 (.done none), .act 1 (.done none)]).any
      (fun s => decide (s.2.now < 600000000) && decide (0 < s.2.committed 0) &&
        decide (0 < s.2.committed 1) &&
        decide ((g.life sampleId s.1).won =
          [(2, 600000000), (1, 600000000), (0, 300000000)])) = true := by
    decide +kernel
  obtain ⟨⟨s₁, s₂⟩, hs, hfin⟩ := (Option.any_eq_true _ _).mp hrun
  simp only [Bool.and_eq_true, decide_eq_true_eq] at hfin
  obtain ⟨⟨⟨hnow, hfirst⟩, hsecond⟩, hwon⟩ := hfin
  have hclaim := Group.claimRun_of_replay Life.punctual_of_check rfl hs
  exact ⟨s₁, s₂, hfirst, hsecond, hwon, Group.claim_respected g sampleId hclaim hnow⟩

/-- A slow consumer fails after its lease: its `mark_failed` takes the record from the newer claim,
and a third consumer claims it. -/
theorem Group.claim_broken :
    let g := smallGroup (.redis {} nullCodec) ⟨{}, none⟩ sampleId
    ¬ ∀ c lease (s₁ s₂ : State g.backend), g.ClaimRun sampleId Life.Unfailing c lease s₁ s₂ →
      s₂.now < lease →
      (g.life sampleId s₂).won = (g.life sampleId s₁).won ∧
        g.backend.store.cell s₂.store s₂.now sampleId =
          g.backend.store.cell s₁.store s₁.now sampleId := by
  intro g hall
  have hrun : (g.replayClaim sampleId 3 Life.isUnfailing 1 1 600000000
      [.assign 0 0, .assign 1 1, .assign 2 2, .poll 0 0, .act 0 (.done none), .enter 0,
        .tick 300000000, .poll 1 1]
      [.enter 1, .act 0 (.raised handlerError false), .act 0 (.done none), .poll 2 2,
        .act 2 (.done none)]).any
      (fun s => decide (s.2.now < 600000000) &&
        decide ((g.life sampleId s.2).won ≠ (g.life sampleId s.1).won)) = true := by
    decide +kernel
  obtain ⟨⟨s₁, s₂⟩, hs, hfin⟩ := (Option.any_eq_true _ _).mp hrun
  simp only [Bool.and_eq_true, decide_eq_true_eq] at hfin
  have hclaim := Group.claimRun_of_replay Life.unfailing_of_check rfl hs
  exact hfin.2 (hall 1 600000000 s₁ s₂ hclaim hfin.1).1

end MessageDedup
