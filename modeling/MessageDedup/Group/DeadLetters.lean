import MessageDedup.Group.ExactlyOnce

/-!
# Dead letters

Whether every message that failed for good is sent to the DLQ, and whether every message that is
sent there has failed for good.
-/

namespace MessageDedup

open Transition (Reach System replay)

variable {V R : Type} {rules : Rules} {s s' : Life} {label : Label}

namespace Life

/-- The record is FAILED, and no claim will win it again. -/
def Dead (rules : Rules) (s : Life) : Prop :=
  ∃ cell, s.record = some cell ∧ cell.status = .failed ∧
    ¬ Cell.Claimable rules.config s.now s.record

theorem dead_iff : s.Dead rules ↔
    ∃ cell, s.record = some cell ∧ cell.status = .failed ∧ ¬ cell.Retryable rules.config := by
  constructor
  · rintro ⟨cell, hcell, hfailed, hclaim⟩
    rw [hcell, Cell.claimable_failed hfailed] at hclaim
    exact ⟨cell, hcell, hfailed, hclaim⟩
  · rintro ⟨cell, hcell, hfailed, hretry⟩
    refine ⟨cell, hcell, hfailed, ?_⟩
    rw [hcell, Cell.claimable_failed hfailed]
    exact hretry

theorem Dead.of_record (h : s'.Dead rules) (hrecord : s'.record = s.record) : s.Dead rules := by
  rw [dead_iff] at h ⊢
  rwa [← hrecord]

theorem not_dead_claimed {lease : Int} (old : Option Cell)
    (h : s.record = some (Cell.claimed lease old)) : ¬ s.Dead rules := by
  rintro ⟨cell, hcell, hfailed, -⟩
  rw [h] at hcell
  obtain rfl := Option.some.inj hcell
  simp at hfailed

theorem Dead.of_completed (h : s'.Dead rules) (hrecord : s'.record = s.record.map Cell.completed) :
    s.Dead rules := by
  rw [dead_iff] at h ⊢
  obtain ⟨cell, hcell, hfailed, hretry⟩ := h
  rw [hrecord] at hcell
  obtain ⟨old, hold, rfl⟩ := Option.map_eq_some_iff.mp hcell
  by_cases hp : old.status = .processing
  · rw [Cell.completed_of_processing hp] at hfailed
    simp at hfailed
  · rw [Cell.completed_of_ne hp] at hfailed hretry
    exact ⟨old, hold, hfailed, hretry⟩

/-! ## Dead letters are complete -/

def WaitsAlive (s : Life) : Prop := ∃ c t, s.task c = some t ∧ t.phase.Waits

/-- Only `handle()` and the DLQ send raise. A consumer may stop between any two steps, and the
record may expire at any time. -/
def OnlyHandlers (s : Life) (label : Label) : Prop :=
  ∀ c isException, label = .act c (.raised isException) →
    ∃ t, s.task c = some t ∧ ((∃ attempts, t.phase = .running attempts) ∨ t.phase = .burying)

theorem OnlyHandlers.raised {c : ConsumerId} {t : Task} {isException : Bool}
    (h : s.OnlyHandlers (.act c (.raised isException))) (ht : s.task c = some t) :
    (∃ attempts, t.phase = .running attempts) ∨ t.phase = .burying := by
  obtain ⟨t', ht', hraise⟩ := h c isException rfl
  rw [ht] at ht'
  obtain rfl := Option.some.inj ht'
  exact hraise

/-- No lease expires, and no record by its TTL. -/
def Unexpired (s : Life) (label : Label) : Prop :=
  (∀ cell, s.record = some cell → ¬ cell.Orphaned s.now) ∧ ∀ d, label ≠ .tick d true

/-- The consumer stops, or its awaited call raises. -/
def Fails (c : ConsumerId) (label : Label) : Prop :=
  label = .crash c ∨ ∃ isException, label = .act c (.raised isException)

/-- While the record is dead and no DLQ send has been acknowledged, the last consumer on its way to
the DLQ neither stops nor fails. -/
def Attended (rules : Rules) (s : Life) (label : Label) : Prop :=
  ∀ c t, Fails c label → s.task c = some t → t.phase.Waits → s.Dead rules →
    s.Happened .dlqSent ∨ ∃ c' t', c' ≠ c ∧ s.task c' = some t' ∧ t'.phase.Waits

/-- A dead message has its dead letter, or somebody waits to send it. -/
def Lettered (rules : Rules) (s : Life) : Prop :=
  s.Dead rules → s.Happened .dlqSent ∨ s.WaitsAlive

namespace Lettered

theorem put (h : s.Lettered rules) {c : ConsumerId} {record' : Option Cell} {t' : Option Task}
    (n : Nat) (events : List Event)
    (hdead : (s.put c record' t' n events).Dead rules → s.Dead rules)
    (hwaits : ∀ t, s.task c = some t → t.phase.Waits → s.Dead rules →
      (∃ u, t' = some u ∧ u.phase.Waits) ∨ .dlqSent ∈ events ∨ s.Happened .dlqSent ∨
        ∃ c' t', c' ≠ c ∧ s.task c' = some t' ∧ t'.phase.Waits) :
    (s.put c record' t' n events).Lettered rules := by
  intro hd
  have hsent : s.Happened .dlqSent → (s.put c record' t' n events).Happened .dlqSent :=
    fun ⟨k, hk⟩ => ⟨k, mem_put.mpr (.inr hk)⟩
  have hother : (∃ c₁ t₁, c₁ ≠ c ∧ s.task c₁ = some t₁ ∧ t₁.phase.Waits) →
      (s.put c record' t' n events).WaitsAlive :=
    fun ⟨c₁, t₁, hne, ht₁, hw⟩ => ⟨c₁, t₁, (task_put_other s hne _ _ _ _).trans ht₁, hw⟩
  rcases h (hdead hd) with hs | ⟨c₁, t₁, ht₁, hw⟩
  · exact .inl (hsent hs)
  · by_cases hc : c₁ = c
    · subst hc
      rcases hwaits t₁ ht₁ hw (hdead hd) with ⟨u, rfl, hu⟩ | hmem | hs | ho
      · exact .inr ⟨c₁, u, task_put_self _ _ _ _ _ _, hu⟩
      · exact .inl ⟨n, mem_put.mpr (.inl ⟨rfl, hmem⟩)⟩
      · exact .inl (hsent hs)
      · exact .inr (hother ho)
    · exact .inr (hother ⟨c₁, t₁, hc, ht₁, hw⟩)

theorem waits {c : ConsumerId} {u : Task} (record' : Option Cell) (n : Nat) (events : List Event)
    (hu : u.phase.Waits) : (s.put c record' (some u) n events).Lettered rules :=
  fun _ => .inr ⟨c, u, task_put_self _ _ _ _ _ _, hu⟩

theorem claimed {c : ConsumerId} {lease : Int} (t' : Option Task) (n : Nat)
    (events : List Event) :
    (s.put c (some (Cell.claimed lease s.record)) t' n events).Lettered rules :=
  fun hd => absurd hd (not_dead_claimed s.record rfl)

end Lettered

end Life

theorem Rules.Grave.waits {c : ConsumerId} {phase : Phase} (h : rules.Grave c phase)
    (hdlq : rules.dlq c) : phase.Waits := by
  rcases h with ⟨-, rfl⟩ | ⟨hn, -⟩
  · trivial
  · exact absurd hdlq hn

namespace Life

theorem Lettered.move (h : s.Lettered rules) (hdlq : ∀ c, rules.dlq c) {c : ConsumerId} {t : Task}
    {reply : Reply} {record' : Option Cell} {t' : Option Task} {events : List Event}
    (honly : s.OnlyHandlers (.act c reply)) (hatt : Attended rules s (.act c reply))
    (ht : s.task c = some t) (hmove : rules.Move c s.now s.record t reply record' t' events) :
    (s.put c record' t' t.delivery events).Lettered rules := by
  have hsame : ∀ {t' n events}, (s.put c s.record t' n events).Dead rules → s.Dead rules :=
    fun hd => hd.of_record rfl
  have hself : ∀ {P : Prop}, ¬ t.phase.Waits → ∀ t₁, s.task c = some t₁ → t₁.phase.Waits → P := by
    intro P hn t₁ ht₁ hw
    rw [ht] at ht₁
    obtain rfl := Option.some.inj ht₁
    exact absurd hw hn
  cases hmove with
  | granted | grantedInVain | undecodable | regranted | regrantedInVain => exact claimed _ _ _
  | refused | statusRead | skipped | returned | failed | settled | dropped =>
    exact h.put _ _ hsame fun t₁ ht₁ hw _ => hself id t₁ ht₁ hw
  | retried | slept => exact waits _ _ _ trivial
  | exhausted _ hg | lostRace _ hg => exact waits _ _ _ (hg.waits (hdlq c))
  | completed =>
    exact h.put _ _ (fun hd => hd.of_completed rfl) fun t₁ ht₁ hw _ => hself id t₁ ht₁ hw
  | sent => exact h.put _ _ hsame fun _ _ _ _ => .inr (.inl (List.mem_singleton_self _))
  | markLost => rcases honly.raised ht with ⟨a, hrun⟩ | hbury <;> contradiction
  | @stopped _ _ _ phase isException _ _ hrecord =>
    have heffect : rules.effect s.now s.record phase = s.record := by
      rcases honly.raised ht with ⟨a, rfl⟩ | rfl <;> rfl
    have hkeep : record' = s.record := hrecord.elim id fun e => e.trans heffect
    rw [hkeep]
    apply h.put _ _ hsame
    intro t₁ ht₁ hw hd
    exact .inr (.inr (hatt c t₁ (.inr ⟨isException, rfl⟩) ht₁ hw hd))

theorem Lettered.step (h : s.Lettered rules) (hdlq : ∀ c, rules.dlq c)
    (honly : s.OnlyHandlers label) (hatt : Attended rules s label)
    (hstep : Step rules s label s') : s'.Lettered rules := by
  cases hstep with
  | tick => exact fun hd => h (hd.of_record rfl)
  | expire =>
    rintro ⟨cell, hcell, -⟩
    simp at hcell
  | arrive hc =>
    apply h.put _ _ fun hd => hd.of_record rfl
    intro t ht
    rw [hc] at ht
    simp at ht
  | enter hc =>
    apply h.put _ _ fun hd => hd.of_record rfl
    intro t ht hw
    rw [hc] at ht
    obtain rfl := Option.some.inj ht
    exact hw.elim
  | crash hc =>
    apply h.put _ _ fun hd => hd.of_record rfl
    intro t ht hw hd
    exact .inr (.inr (hatt _ t (.inl rfl) ht hw hd))
  | act hc hmove => exact h.move hdlq honly hatt hc hmove

theorem lettered_of_reach (hdlq : ∀ c, rules.dlq c)
    (h : Reach ((system rules).guard fun s label => s.OnlyHandlers label ∧ Attended rules s label)
      s) : s.Lettered rules := by
  apply h.invariant (fun s => s.Lettered rules)
  · rintro s ⟨hnone, -, -⟩ ⟨cell, hcell, -⟩
    rw [hnone] at hcell
    simp at hcell
  · rintro s label s' - hs ⟨⟨honly, hatt⟩, hstep⟩
    exact hs.step hdlq honly hatt hstep

def isDead (rules : Rules) (s : Life) : Bool :=
  s.record.any fun cell =>
    cell.status = .failed && !decide (Cell.Claimable rules.config s.now s.record)

/-- Only `handle()` raises, and whoever waits on a dead record goes on. -/
def isAttended (rules : Rules) (s : Life) : Label → Bool
  | .act c (.raised _) => (s.task c).any (·.phase.isRunning)
  | .crash c => (s.task c).all fun t => !decide t.phase.Waits || !s.isDead rules
  | _ => true

theorem dead_iff_isDead : s.Dead rules ↔ s.isDead rules = true := by
  simp only [Dead, isDead, Option.any_eq_true, Bool.and_eq_true, decide_eq_true_eq,
    Bool.not_eq_true', decide_eq_false_iff_not]

def isOnlyHandlers (s : Life) : Label → Bool
  | .act c (.raised _) => (s.task c).any fun t => t.phase.isRunning || t.phase = .burying
  | _ => true

def isUnexpired (s : Life) (label : Label) : Bool :=
  (s.record.all fun cell => !decide (cell.Orphaned s.now)) &&
    match label with
    | .tick _ expired => !expired
    | _ => true

theorem onlyHandlers_of_check (s : Life) (label : Label) (h : s.isOnlyHandlers label = true) :
    s.OnlyHandlers label := by
  rintro c isException rfl
  simp only [isOnlyHandlers, Option.any_eq_true, Bool.or_eq_true, decide_eq_true_eq] at h
  obtain ⟨t, ht, hphase⟩ := h
  exact ⟨t, ht, hphase.imp_left Phase.running_of_isRunning⟩

theorem unexpired_of_check (s : Life) (label : Label) (h : s.isUnexpired label = true) :
    s.Unexpired label := by
  simp only [isUnexpired, Bool.and_eq_true] at h
  constructor
  · intro cell hcell
    simpa [hcell] using h.1
  · rintro d rfl
    simp at h

theorem attended_of_isAttended (s : Life) (label : Label)
    (h : s.isAttended rules label = true) : s.OnlyHandlers label ∧ Attended rules s label := by
  have hrunning : ∀ c isException, label = .act c (.raised isException) →
      ∃ t attempts, s.task c = some t ∧ t.phase = .running attempts := by
    rintro c isException rfl
    simp only [isAttended, Option.any_eq_true] at h
    obtain ⟨t, ht, hrun⟩ := h
    obtain ⟨a, ha⟩ := Phase.running_of_isRunning hrun
    exact ⟨t, a, ht, ha⟩
  constructor
  · intro c isException hlabel
    obtain ⟨t, a, ht, ha⟩ := hrunning c isException hlabel
    exact ⟨t, ht, .inl ⟨a, ha⟩⟩
  · intro c t hfails ht hw hd
    rcases hfails with rfl | ⟨isException, hlabel⟩
    · simp [isAttended, ht, hw, dead_iff_isDead.mp hd] at h
    · obtain ⟨t', a, ht', ha⟩ := hrunning c isException hlabel
      rw [ht] at ht'
      obtain rfl := Option.some.inj ht'
      rw [ha] at hw
      exact hw.elim

end Life

/-- When a record of `m` is committed and `m` is dead, its dead letter is acknowledged, or a
consumer is still at work on a delivery of it. -/
def Group.DeadLettersComplete (g : Group V R) (m : MessageId) (s : State g.backend) : Prop :=
  (∃ p o, o < s.committed p ∧ extractMessageId g.py (g.log p o) = .ok (some m.val)) →
    (g.life m s).Dead (g.rules m) →
      (g.life m s).Happened .dlqSent ∨ ∃ c t, (g.life m s).task c = some t

/-- Dead letters are complete in a run in which the last consumer on its way to the DLQ neither
stops nor fails. -/
theorem Group.dead_letters_complete (g : Group V R) (m : MessageId)
    (hdlq : ∀ c, (g.consumers c).dlq ≠ none) {s : State g.backend}
    (h : Reach ((g.system m).guard (g.during m fun life label =>
      life.OnlyHandlers label ∧ life.Attended (g.rules m) label)) s) :
    g.DeadLettersComplete m s := by
  intro _ hdead
  rcases Life.lettered_of_reach hdlq (Group.reach_life h) hdead with hsent | ⟨c, t, ht, -⟩
  · exact .inl hsent
  · exact .inr ⟨c, t, ht⟩

def attendedRun : List (Action Unit) :=
  [.assign 0 0, .poll 0 0, .act 0 (.done none), .enter 0, .act 0 (.raised handlerError false),
    .act 0 (.done none), .crash 0, .assign 0 1, .poll 1 0, .act 1 (.done none), .enter 1,
    .act 1 (.raised handlerError false), .act 1 (.done none), .act 1 (.done none),
    .act 1 (.done none), .enter 1, .act 1 (.raised handlerError false), .act 1 (.done none),
    .act 1 (.done none), .act 1 (.done none)]

/-- A consumer stops in its backoff, and the redelivery sends the dead letter. -/
theorem Group.dead_letters_complete_redelivered :
    let config : DeduplicationConfig := { maxRetries := 2 }
    let g := smallGroup (.redis config nullCodec) ⟨config, some "orders.dlq"⟩ sampleId
    ∃ s, Reach ((g.system sampleId).guard (g.during sampleId fun life label =>
        life.OnlyHandlers label ∧ life.Attended (g.rules sampleId) label)) s ∧
      ((g.life sampleId s).Happened .dlqSent ∨ ∃ c t, (g.life sampleId s).task c = some t) := by
  intro config g
  have hrun : (replay g.exec (g.checked sampleId 2 fun s => s.isAttended (g.rules sampleId))
      (g.startState 0 g.backend.empty) attendedRun).any (fun s => decide (0 < s.committed 0) &&
        (g.life sampleId s).isDead (g.rules sampleId)) = true := by
    decide +kernel
  obtain ⟨s, hs, hfin⟩ := (Option.any_eq_true _ _).mp hrun
  obtain ⟨hr, -⟩ := Group.reach_replay (fun s label _ => s.attended_of_isAttended label) rfl hs
  rw [Bool.and_eq_true, decide_eq_true_eq] at hfin
  have hdlq : (some "orders.dlq").filter (fun topic => decide (topic ≠ "")) ≠ none := by decide
  exact ⟨s, hr, Group.dead_letters_complete g sampleId (fun _ => hdlq) hr ⟨0, 0, hfin.1, rfl⟩
    (Life.dead_iff_isDead.mpr hfin.2)⟩

/-- The DLQ send raises after the last `mark_failed`, and the redelivery is skipped. -/
def unattendedRun : List (Action Unit) :=
  [.assign 0 0, .poll 0 0, .act 0 (.done none), .enter 0, .act 0 (.raised handlerError false),
    .act 0 (.done none), .act 0 (.raised kafkaTimeout false), .assign 0 1, .poll 1 0,
    .act 1 (.done none), .act 1 (.done none), .act 1 (.done none)]

/-- A failed DLQ send is never tried again. -/
theorem Group.dead_letter_missing :
    let config : DeduplicationConfig := { maxRetries := 1 }
    let g := smallGroup (.redis config nullCodec) ⟨config, some "orders.dlq"⟩ sampleId
    ¬ ∀ s, Reach ((g.system sampleId).guard (g.during sampleId fun life label =>
        life.OnlyHandlers label ∧ life.Unexpired label)) s → g.DeadLettersComplete sampleId s := by
  intro config g hall
  have hrun : (replay g.exec (g.checked sampleId 2 fun s label =>
        s.isOnlyHandlers label && s.isUnexpired label)
      (g.startState 0 g.backend.empty) unattendedRun).any (fun s => decide (0 < s.committed 0) &&
        (g.life sampleId s).isDead (g.rules sampleId) &&
        !(g.life sampleId s).happened .dlqSent && ((g.life sampleId s).tasks 2).isEmpty) =
      true := by
    decide +kernel
  obtain ⟨s, hs, hfin⟩ := (Option.any_eq_true _ _).mp hrun
  obtain ⟨hr, hq⟩ := Group.reach_replay (Life.both_of_checks
    (fun s label _ => s.onlyHandlers_of_check label) fun s label _ => s.unexpired_of_check label)
    rfl hs
  simp only [Bool.and_eq_true, decide_eq_true_eq, Bool.not_eq_true', List.isEmpty_iff] at hfin
  obtain ⟨⟨⟨hcom, hdead⟩, hsent⟩, hidle⟩ := hfin
  rcases hall s hr ⟨0, 0, hcom, rfl⟩ (Life.dead_iff_isDead.mpr hdead) with hs | ⟨c, t, ht⟩
  · rw [Life.happened_iff, hsent] at hs
    simp at hs
  · rw [Life.idle_of_tasks hq hidle c] at ht
    simp at ht

/-! ## Dead letters are sound -/

namespace Phase

/-- On the dead-letter path. -/
def Buries : Phase → Prop
  | burying | buried => True
  | _ => False

def Reclaims : Phase → Prop
  | reclaiming _ => True
  | _ => False

instance : (phase : Phase) → Decidable phase.Reclaims
  | .reclaiming _ => .isTrue trivial
  | .arriving | .refused | .skipping | .ready _ | .running _ | .failing _ | .sleeping _
  | .completing | .settling | .burying | .buried => .isFalse id

end Phase

namespace Life

/-- Some delivery is on the dead-letter path, or was. -/
def Buried (s : Life) : Prop :=
  s.Happened .deadLetter ∨ s.Happened .dlqSent ∨ ∃ c t, s.task c = some t ∧ t.phase.Buries

/-- A message on its way to the DLQ is a failed one: no `handle()` call has returned, and none
runs. -/
def BuriedIsFailed (s : Life) : Prop :=
  s.Buried → ¬ s.Happened .returned ∧
    ∀ c t attempts, s.task c = some t → t.phase ≠ .running attempts

/-- A re-claim that is refused finds the record FAILED. -/
def LosesToFailure (rules : Rules) (s : Life) (label : Label) : Prop :=
  ∀ c t cell, label = .act c .ok → s.task c = some t → t.phase.Reclaims → s.record = some cell →
    ¬ Cell.Claimable rules.config s.now s.record → cell.status = .failed

/-- Whoever is buried is dead. -/
def GraveInv (rules : Rules) (s : Life) : Prop := s.Buried → s.Dead rules

theorem GraveInv.put (h : s.GraveInv rules) {c : ConsumerId} {record' : Option Cell}
    {t' : Option Task} {n : Nat} {events : List Event}
    (hkeep : s.Dead rules → (s.put c record' t' n events).Dead rules)
    (hnew : (.deadLetter ∈ events ∨ .dlqSent ∈ events ∨ ∃ u, t' = some u ∧ u.phase.Buries) →
      s.Buried ∨ (s.put c record' t' n events).Dead rules) :
    (s.put c record' t' n events).GraveInv rules := by
  intro hb
  have hcases : s.Buried ∨ (s.put c record' t' n events).Dead rules := by
    rcases hb with ⟨k, hk⟩ | ⟨k, hk⟩ | ⟨c', u, hu, hphase⟩
    · rcases mem_put.mp hk with ⟨-, hmem⟩ | hmem
      · exact hnew (.inl hmem)
      · exact .inl (.inl ⟨k, hmem⟩)
    · rcases mem_put.mp hk with ⟨-, hmem⟩ | hmem
      · exact hnew (.inr (.inl hmem))
      · exact .inl (.inr (.inl ⟨k, hmem⟩))
    · rcases task_put hu with ⟨-, hself⟩ | ⟨-, hold⟩
      · exact hnew (.inr (.inr ⟨u, hself, hphase⟩))
      · exact .inl (.inr (.inr ⟨c', u, hold, hphase⟩))
  exact hcases.elim (fun hold => hkeep (h hold)) id

theorem Dead.step (h : s.Dead rules) (hown : s.OneOwner) (hexpire : ∀ d, label ≠ .tick d true)
    (hstep : Step rules s label s') : s'.Dead rules := by
  obtain ⟨cell, hcell, hfailed, hclaim⟩ := h
  have hrecord := hown.record_stays hexpire hcell (by simp [hfailed]) hclaim hstep
  rw [hcell, Cell.claimable_failed hfailed] at hclaim
  exact dead_iff.mpr ⟨cell, hrecord.trans hcell, hfailed, hclaim⟩

theorem dead_exhausted (hown : s.OneOwner) {c : ConsumerId} {d : Nat} {attempts l : Int}
    (ht : s.task c = some ⟨d, .failing attempts, l⟩) (hmax : ¬ attempts < rules.config.maxRetries)
    (t' : Option Task) (n : Nat) (events : List Event) :
    (s.put c (s.record.map (Cell.markedFailed rules.guarded attempts)) t' n events).Dead
      rules := by
  obtain ⟨cell, hcell, hp, -⟩ := hown.processing ht trivial
  rw [dead_iff, hcell, Option.map_some, Cell.markedFailed_of_processing hp]
  refine ⟨_, rfl, rfl, ?_⟩
  rintro ⟨-, -, hlt⟩
  exact hmax hlt

theorem GraveInv.move (h : s.GraveInv rules) (hconfig : ∀ c, rules.maxRetries c =
    rules.config.maxRetries) (hmax : 1 ≤ rules.config.maxRetries) (hown : s.OneOwner)
    (hrange : s.Bounded rules) {c : ConsumerId} {t : Task} {reply : Reply}
    {record' : Option Cell} {t' : Option Task} {events : List Event}
    (hkeep : s.Dead rules → (s.put c record' t' t.delivery events).Dead rules)
    (hloses : LosesToFailure rules s (.act c reply)) (ht : s.task c = some t)
    (hreply : reply = .ok ∨ reply = .raised true ∧ ∃ attempts, t.phase = .running attempts)
    (hmove : rules.Move c s.now s.record t reply record' t' events) :
    (s.put c record' t' t.delivery events).GraveInv rules := by
  apply h.put hkeep
  intro hnew
  have hnone : ∀ {P : Prop} {u : Task}, ¬ u.phase.Buries →
      (∃ v, some u = some v ∧ v.phase.Buries) → P := by
    rintro P u hu ⟨_, ⟨⟩, hb⟩
    exact absurd hb hu
  cases hmove with
  | grantedInVain _ hlt =>
    rw [hconfig c] at hlt
    omega
  | regrantedInVain _ hlt =>
    obtain ⟨-, hbelow⟩ := hrange c _ ht
    omega
  | exhausted hlt =>
    rw [hconfig c] at hlt
    exact .inr (dead_exhausted hown ht hlt _ _ _)
  | lostRace hclaim =>
    -- The refused re-claim has found the record FAILED, and it is not retryable.
    right
    cases hcell : s.record with
    | none =>
      rw [hcell] at hclaim
      exact absurd trivial hclaim
    | some cell =>
      have hfailed := hloses c _ cell rfl ht trivial hcell hclaim
      rw [hcell] at hclaim
      exact ⟨cell, rfl, hfailed, hclaim⟩
  | sent => exact .inl (.inr (.inr ⟨c, _, ht, trivial⟩))
  | granted | regranted | refused | statusRead | returned | failed | retried | slept | completed =>
    simp only [List.mem_singleton, List.not_mem_nil, reduceCtorEq, false_or] at hnew
    exact hnone id hnew
  | undecodable | skipped | settled | dropped => simp at hnew
  | markLost => rcases hreply with h | ⟨-, a, hrun⟩ <;> contradiction
  | stopped _ hfatal => exact absurd hreply (not_fatal_of_faultless hfatal)

theorem GraveInv.step (h : s.GraveInv rules) (hconfig : ∀ c, rules.maxRetries c =
    rules.config.maxRetries) (hmax : 1 ≤ rules.config.maxRetries) (hown : s.OneOwner)
    (hrange : s.Bounded rules) (hf : s.Faultless label) (hloses : LosesToFailure rules s label)
    (hstep : Step rules s label s') : s'.GraveInv rules := by
  have hkeep : s.Dead rules → s'.Dead rules := fun hd => hd.step hown hf.calm.2 hstep
  cases hstep with
  | tick => exact fun hb => hkeep (h hb)
  | expire => exact absurd rfl (hf.calm.2 _)
  | crash => exact absurd rfl (hf.noCrash _)
  | arrive | enter =>
    apply h.put hkeep
    rintro (hmem | hmem | ⟨_, ⟨⟩, ⟨⟩⟩) <;> simp at hmem
  | act hc hmove => exact h.move hconfig hmax hown hrange hkeep hloses hc (hf.replied hc) hmove

/-- What a run keeps in which no re-claim is lost to a consumer that may still succeed. -/
structure GraveSound (rules : Rules) (s : Life) : Prop where
  success : s.SuccessInv
  grave : s.GraveInv rules
  range : s.Bounded rules

theorem graveSound_of_reach (hconfig : ∀ c, rules.maxRetries c = rules.config.maxRetries)
    (hmax : 1 ≤ rules.config.maxRetries)
    (h : Reach ((system rules).guard fun s label => s.Faultless label ∧
      LosesToFailure rules s label) s) : s.GraveSound rules := by
  apply h.invariant (fun s => s.GraveSound rules)
  · rintro s ⟨-, hidle, htrace⟩
    refine ⟨.start hidle htrace, ?_, .start hidle⟩
    rintro (⟨n, hn⟩ | ⟨n, hn⟩ | ⟨c, t, ht, -⟩)
    · rw [htrace] at hn
      simp at hn
    · rw [htrace] at hn
      simp at hn
    · rw [hidle c] at ht
      simp at ht
  · rintro s label s' - hs ⟨⟨hf, hloses⟩, hstep⟩
    exact ⟨hs.success.step hf hstep,
      hs.grave.step hconfig hmax hs.success.owner hs.range hf hloses hstep, hs.range.step hstep⟩

theorem GraveSound.buriedIsFailed (h : s.GraveSound rules) : s.BuriedIsFailed := by
  intro hb
  obtain ⟨cell, hcell, hfailed, -⟩ := h.grave hb
  have hnone : ∀ c t, s.task c = some t → ¬ t.phase.Holds := by
    intro c t ht hh
    obtain ⟨cell', hcell', hp, -⟩ := h.success.owner.processing ht hh
    rw [hcell] at hcell'
    obtain rfl := Option.some.inj hcell'
    rw [hfailed] at hp
    simp at hp
  constructor
  · intro hret
    rcases h.success.settled hret with ⟨cell', hcell', hdone⟩ | ⟨c, t, ht, hphase⟩
    · rw [hcell] at hcell'
      obtain rfl := Option.some.inj hcell'
      rw [hfailed] at hdone
      simp at hdone
    · exact hnone c t ht (by rw [hphase]; trivial)
  · intro c t attempts ht hrun
    exact hnone c t ht (by rw [hrun]; trivial)

def losesToFailure (rules : Rules) (s : Life) : Label → Bool
  | .act c .ok => (s.task c).all fun t => !decide t.phase.Reclaims ||
      decide (Cell.Claimable rules.config s.now s.record) || s.record.all (·.status = .failed)
  | _ => true

theorem losesToFailure_of_check (s : Life) (label : Label)
    (h : s.losesToFailure rules label = true) : LosesToFailure rules s label := by
  rintro c t cell rfl ht hphase hcell hclaim
  rw [hcell] at hclaim
  simpa [losesToFailure, ht, hphase, hcell, hclaim] using h

end Life

/-- A dead-lettered message is a failed message in a run in which each refused re-claim finds the
record FAILED. -/
theorem Group.buried_is_failed (g : Group V R) (m : MessageId)
    (hconfig : ∀ c, (g.consumers c).config = g.backend.config)
    (hmax : 1 ≤ g.backend.config.maxRetries) {s : State g.backend}
    (h : Reach ((g.system m).guard (g.during m fun life label =>
      life.Faultless label ∧ life.LosesToFailure (g.rules m) label)) s) :
    (g.life m s).BuriedIsFailed := by
  have hsame : ∀ c, (g.rules m).maxRetries c = (g.rules m).config.maxRetries := by
    intro c
    change (g.consumers c).config.maxRetries = g.backend.config.maxRetries
    rw [hconfig c]
  exact (Life.graveSound_of_reach hsame hmax (Group.reach_life h)).buriedIsFailed

/-- Two consumers fail in turn, and the one that sleeps through the last attempt loses its
re-claim. -/
def failedRun : List (Action Unit) :=
  [.assign 0 0, .assign 1 1, .poll 0 0, .act 0 (.done none), .enter 0,
    .act 0 (.raised handlerError false), .act 0 (.done none), .poll 1 1, .act 1 (.done none),
    .enter 1, .act 1 (.raised handlerError false), .act 1 (.done none), .act 1 (.done none),
    .act 1 (.done none), .enter 1, .act 1 (.raised handlerError false), .act 1 (.done none),
    .act 0 (.done none), .act 0 (.done none), .act 0 (.done none)]

theorem Group.buried_is_failed_twice :
    let config : DeduplicationConfig := { maxRetries := 2 }
    let g := smallGroup (.redis config nullCodec) ⟨config, some "orders.dlq"⟩ sampleId
    ∃ s, Reach ((g.system sampleId).guard (g.during sampleId fun life label =>
        life.Faultless label ∧ life.LosesToFailure (g.rules sampleId) label)) s ∧
      (g.life sampleId s).Happened .dlqSent ∧ ¬ (g.life sampleId s).Happened .returned := by
  intro config g
  have hrun : (replay g.exec (g.checked sampleId 2 fun s label =>
        s.isFaultless 2 label && s.losesToFailure (g.rules sampleId) label)
      (g.startState 0 g.backend.empty) failedRun).any (fun s =>
        (g.life sampleId s).happened .dlqSent) = true := by
    decide +kernel
  obtain ⟨s, hs, hsent⟩ := (Option.any_eq_true _ _).mp hrun
  obtain ⟨hr, -⟩ := Group.reach_replay (Life.both_of_checks
    Life.faultless_of_isFaultless fun s label _ => s.losesToFailure_of_check label) rfl hs
  rw [← Life.happened_iff] at hsent
  have hmax : (1 : Int) ≤ 2 := by decide
  exact ⟨s, hr, hsent,
    (Group.buried_is_failed g sampleId (fun _ => rfl) hmax hr (.inr (.inl hsent))).1⟩

/-- A consumer loses its re-claim to one that runs `handle()`, and sends the dead letter. -/
def outrunRun : List (Action Unit) :=
  [.assign 0 0, .assign 1 1, .poll 0 0, .act 0 (.done none), .enter 0,
    .act 0 (.raised handlerError false), .act 0 (.done none), .poll 1 1, .act 1 (.done none),
    .enter 1, .act 0 (.done none), .act 0 (.done none), .act 0 (.done none),
    .act 1 (.done none)]

/-- A message is sent to the DLQ and processed. -/
theorem Group.buried_and_processed :
    let g := smallGroup (.redis {} nullCodec) ⟨{}, some "orders.dlq"⟩ sampleId
    ¬ ∀ s, Reach ((g.system sampleId).guard (g.during sampleId Life.Faultless)) s →
      (g.life sampleId s).BuriedIsFailed := by
  intro g hall
  have hrun : (replay g.exec (g.checked sampleId 2 (Life.isFaultless 2))
      (g.startState 0 g.backend.empty) outrunRun).any (fun s =>
        (g.life sampleId s).happened .dlqSent && (g.life sampleId s).happened .returned) =
      true := by
    decide +kernel
  obtain ⟨s, hs, hfin⟩ := (Option.any_eq_true _ _).mp hrun
  obtain ⟨hr, -⟩ := Group.reach_replay Life.faultless_of_isFaultless rfl hs
  rw [Bool.and_eq_true, ← Life.happened_iff, ← Life.happened_iff] at hfin
  exact (hall s hr (.inr (.inl hfin.1))).1 hfin.2

end MessageDedup
