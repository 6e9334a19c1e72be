import MessageDedup.Group.Replay

/-!
# Messages and crashes

A redelivery that meets the live lease of a dead owner is skipped and committed: the message is
lost. No message is lost in a run in which no claim is abandoned so.
-/

namespace MessageDedup

open Transition (Reach System replay)

variable {V R : Type} {rules : Rules} {s s' : Life} {label : Label}

namespace Phase

/-- The phases of a delivery whose `handle()` never raises. -/
def Fair : Phase → Prop
  | failing _ | sleeping _ | reclaiming _ | burying | buried => False
  | _ => True

/-- The end of a successful `handle()` is behind. -/
def Done : Phase → Prop
  | completing | settling => True
  | _ => False

/-- After a refused claim. -/
def Skips : Phase → Prop
  | refused | skipping => True
  | _ => False

instance : (phase : Phase) → Decidable phase.Skips
  | .refused | .skipping => .isTrue trivial
  | .arriving | .ready _ | .running _ | .failing _ | .sleeping _ | .reclaiming _ | .completing
  | .settling | .burying | .buried => .isFalse id

end Phase

/-- The consumer is killed at its await, or cancelled there. -/
def Label.Kills (c : ConsumerId) (label : Label) : Prop :=
  label = .crash c ∨ label = .act c (.raised false)

namespace Life

/-- A live consumer executes under a claim that it won. -/
def Executing (s : Life) : Prop := ∃ c t, s.task c = some t ∧ t.phase.Holds

/-- No `handle()` call has returned, and every owner of a claim is dead. -/
def Abandoned (s : Life) : Prop := ¬ s.Happened .returned ∧ ¬ s.Executing

/-- Some record of the message is committed, or its consumer has decided to skip it. -/
def Relied (s : Life) : Prop :=
  s.Happened .committed ∨ ∃ c t, s.task c = some t ∧ t.phase.Skips

/-- `handle()` succeeds when it may finish, and no store call or commit fails. A consumer may be
killed or cancelled at any time. -/
def Gentle (_s : Life) (label : Label) : Prop := ∀ c, label ≠ .act c (.raised true)

/-- No claim is refused by the live lease of a dead owner, and the only owner of a claim is not
killed while others rely on it. -/
structure Covered (rules : Rules) (s : Life) (label : Label) : Prop where
  refusal : ∀ c t cell, label = .act c .ok → s.task c = some t → t.phase = .arriving →
    s.record = some cell → cell.status = .processing →
    ¬ Cell.Claimable rules.config s.now s.record → ¬ s.Abandoned
  killing : ∀ c t, label.Kills c → s.task c = some t → t.phase.Holds → s.Relied →
    s.Happened .returned ∨ ∃ c' t', c' ≠ c ∧ s.task c' = some t' ∧ t'.phase.Holds

/-! ## The invariant -/

structure CrashInv (s : Life) : Prop where
  fair : ∀ c t, s.task c = some t → t.phase.Fair
  done : ∀ c t, s.task c = some t → t.phase.Done → s.Happened .returned
  record : ∀ cell, s.record = some cell →
    cell.status = .processing ∨ (cell.status = .completed ∧ s.Happened .returned)
  relied : s.Relied → ¬ s.Abandoned

theorem not_abandoned_of_returned (h : s.Happened .returned) : ¬ s.Abandoned :=
  fun ha => ha.1 h

theorem not_abandoned_of_task {c : ConsumerId} {t : Task} (ht : s.task c = some t)
    (hh : t.phase.Holds) : ¬ s.Abandoned :=
  fun ha => ha.2 ⟨c, t, ht, hh⟩

/-- A step of `c` that abandons no claim of others abandons no claim, when `c` keeps its own. -/
theorem not_abandoned_put (h : ¬ s.Abandoned) {c : ConsumerId} (record' : Option Cell)
    {t' : Option Task} (n : Nat) (events : List Event)
    (hholds : ∀ t, s.task c = some t → t.phase.Holds →
      (∃ u, t' = some u ∧ u.phase.Holds) ∨ s.Happened .returned ∨
        ∃ c' t', c' ≠ c ∧ s.task c' = some t' ∧ t'.phase.Holds) :
    ¬ (s.put c record' t' n events).Abandoned := by
  intro ha
  have hret : ¬ s.Happened .returned := fun ⟨k, hk⟩ => ha.1 ⟨k, mem_put.mpr (.inr hk)⟩
  have hother : ∀ c₁ t₁, c₁ ≠ c → s.task c₁ = some t₁ → ¬ t₁.phase.Holds := by
    intro c₁ t₁ hne ht₁ hh
    exact ha.2 ⟨c₁, t₁, (task_put_other s hne _ _ _ _).trans ht₁, hh⟩
  apply h
  refine ⟨hret, ?_⟩
  rintro ⟨c₁, t₁, ht₁, hh⟩
  by_cases hc : c₁ = c
  · subst hc
    rcases hholds t₁ ht₁ hh with ⟨u, rfl, hu⟩ | hr | ⟨c₂, t₂, hne, ht₂, hh₂⟩
    · exact ha.2 ⟨c₁, u, task_put_self _ _ _ _ _ _, hu⟩
    · exact hret hr
    · exact hother c₂ t₂ hne ht₂ hh₂
  · exact hother c₁ t₁ hc ht₁ hh

namespace CrashInv

theorem put (h : s.CrashInv) {c : ConsumerId} {record' : Option Cell} {t' : Option Task} {n : Nat}
    {events : List Event} (hfair : ∀ u, t' = some u → u.phase.Fair)
    (hdone : ∀ u, t' = some u → u.phase.Done → .returned ∈ events ∨ s.Happened .returned)
    (hrecord : ∀ cell, record' = some cell → cell.status = .processing ∨
      (cell.status = .completed ∧ s.Happened .returned))
    (hsafe : (.committed ∈ events ∨ (∃ u, t' = some u ∧ u.phase.Skips) ∨ s.Relied) →
      ¬ (s.put c record' t' n events).Abandoned) :
    (s.put c record' t' n events).CrashInv := by
  have hmono : s.Happened .returned → (s.put c record' t' n events).Happened .returned :=
    fun ⟨k, hk⟩ => ⟨k, mem_put.mpr (.inr hk)⟩
  refine ⟨?_, ?_, ?_, ?_⟩
  · intro c' u hu
    rcases task_put hu with ⟨-, hself⟩ | ⟨-, hold⟩
    · exact hfair u hself
    · exact h.fair c' u hold
  · intro c' u hu hd
    rcases task_put hu with ⟨-, hself⟩ | ⟨-, hold⟩
    · rcases hdone u hself hd with hmem | hr
      · exact ⟨n, mem_put.mpr (.inl ⟨rfl, hmem⟩)⟩
      · exact hmono hr
    · exact hmono (h.done c' u hold hd)
  · intro cell hcell
    rcases hrecord cell hcell with hp | ⟨hc, hr⟩
    · exact .inl hp
    · exact .inr ⟨hc, hmono hr⟩
  · intro hrel
    apply hsafe
    rcases hrel with ⟨k, hk⟩ | ⟨c', u, hu, hs⟩
    · rcases mem_put.mp hk with ⟨-, hmem⟩ | hmem
      · exact .inl hmem
      · exact .inr (.inr (.inl ⟨k, hmem⟩))
    · rcases task_put hu with ⟨-, hself⟩ | ⟨-, hold⟩
      · exact .inr (.inl ⟨u, hself, hs⟩)
      · exact .inr (.inr (.inr ⟨c', u, hold, hs⟩))

theorem goOn (h : s.CrashInv) {c : ConsumerId} {t u : Task} (ht : s.task c = some t) (n : Nat)
    (events : List Event) (hfair : u.phase.Fair) (hdone : u.phase.Done → t.phase.Done)
    (hholds : t.phase.Holds → u.phase.Holds ∨ s.Happened .returned)
    (hskips : .committed ∉ events ∧ (u.phase.Skips → t.phase.Skips ∨ ¬ s.Abandoned)) :
    (s.put c s.record (some u) n events).CrashInv := by
  apply h.put
  · rintro _ ⟨⟩
    exact hfair
  · rintro _ ⟨⟩ hd
    exact .inr (h.done c t ht (hdone hd))
  · exact h.record
  · intro hrel
    have hsafe : ¬ s.Abandoned := by
      rcases hrel with hmem | ⟨_, ⟨⟩, hs⟩ | hrel
      · exact absurd hmem hskips.1
      · rcases hskips.2 hs with hs | hsafe
        · exact h.relied (.inr ⟨c, t, ht, hs⟩)
        · exact hsafe
      · exact h.relied hrel
    apply not_abandoned_put hsafe
    intro t₁ ht₁ hh
    rw [ht] at ht₁
    obtain rfl := Option.some.inj ht₁
    rcases hholds hh with hu | hr
    · exact .inl ⟨u, rfl, hu⟩
    · exact .inr (.inl hr)

theorem quit (h : s.CrashInv) {c : ConsumerId} {t : Task} (ht : s.task c = some t)
    {record' : Option Cell} (n : Nat) (events : List Event)
    (hrecord : ∀ cell, record' = some cell → cell.status = .processing ∨
      (cell.status = .completed ∧ s.Happened .returned))
    (hcommitted : .committed ∈ events → t.phase.Skips ∨ t.phase.Done)
    (hkilling : t.phase.Holds → s.Relied → s.Happened .returned ∨
      ∃ c' t', c' ≠ c ∧ s.task c' = some t' ∧ t'.phase.Holds) :
    (s.put c record' none n events).CrashInv := by
  refine h.put ?_ ?_ hrecord fun hrel => ?_
  · exact nofun
  · exact nofun
  have hcases : s.Happened .returned ∨ s.Relied := by
    rcases hrel with hmem | ⟨_, ⟨⟩, -⟩ | hrel
    · rcases hcommitted hmem with hs | hd
      · exact .inr (.inr ⟨c, t, ht, hs⟩)
      · exact .inl (h.done c t ht hd)
    · exact .inr hrel
  rcases hcases with hr | hrel
  · exact not_abandoned_put (not_abandoned_of_returned hr) _ _ _ fun _ _ _ => .inr (.inl hr)
  · apply not_abandoned_put (h.relied hrel)
    intro t₁ ht₁ hh
    rw [ht] at ht₁
    obtain rfl := Option.some.inj ht₁
    exact .inr (hkilling hh hrel)

theorem claimed (h : s.CrashInv) {c : ConsumerId} {u : Task} {lease : Int} (n : Nat)
    (events : List Event) (hphase : u.phase.Fair ∧ u.phase.Holds ∧ ¬ u.phase.Done) :
    (s.put c (some (Cell.claimed lease s.record)) (some u) n events).CrashInv := by
  obtain ⟨hfair, hholds, hnd⟩ := hphase
  apply h.put
  · rintro _ ⟨⟩
    exact hfair
  · rintro _ ⟨⟩ hd
    exact absurd hd hnd
  · rintro _ ⟨⟩
    exact .inl rfl
  · exact fun _ => not_abandoned_of_task (task_put_self _ _ _ _ _ _) hholds

theorem record_completed (h : s.CrashInv) (hret : s.Happened .returned) (cell : Cell)
    (hcell : s.record.map Cell.completed = some cell) :
    cell.status = .processing ∨ (cell.status = .completed ∧ s.Happened .returned) := by
  obtain ⟨cell', hcell', rfl⟩ := Option.map_eq_some_iff.mp hcell
  right
  refine ⟨?_, hret⟩
  rcases h.record cell' hcell' with hp | ⟨hc, -⟩
  · exact Cell.completed_of_processing hp
  · rw [Cell.completed_of_ne (by simp [hc])]
    exact hc

theorem record_effect (h : s.CrashInv) {c : ConsumerId} {t : Task} (ht : s.task c = some t)
    (cell : Cell) (hcell : rules.effect s.now s.record t.phase = some cell) :
    cell.status = .processing ∨ (cell.status = .completed ∧ s.Happened .returned) := by
  have hfair := h.fair c t ht
  have hdone := h.done c t ht
  cases hphase : t.phase with
  | arriving =>
    rw [hphase] at hcell
    simp only [Rules.effect] at hcell
    split at hcell
    · obtain rfl := Option.some.inj hcell
      exact .inl rfl
    · exact h.record cell hcell
  | completing =>
    rw [hphase] at hcell hdone
    exact h.record_completed (hdone trivial) cell hcell
  | failing | reclaiming =>
    rw [hphase] at hfair
    exact hfair.elim
  | _ =>
    rw [hphase] at hcell
    exact h.record cell hcell

theorem move (h : s.CrashInv) (hmax : ∀ c, 1 ≤ rules.maxRetries c) {c : ConsumerId} {t : Task}
    {reply : Reply} {record' : Option Cell} {t' : Option Task} {events : List Event}
    (hg : s.Gentle (.act c reply)) (hcov : Covered rules s (.act c reply))
    (ht : s.task c = some t) (hmove : rules.Move c s.now s.record t reply record' t' events) :
    (s.put c record' t' t.delivery events).CrashInv := by
  have hfair := h.fair c t ht
  have hdone := h.done c t ht
  cases hmove with
  | granted => exact h.claimed _ _ ⟨trivial, trivial, id⟩
  | grantedInVain _ hlt =>
    have := hmax c
    omega
  | undecodable =>
    -- The exception leaves `run()`: the claim stays behind, and nothing is committed.
    apply h.quit ht
    · rintro _ ⟨⟩
      exact .inl rfl
    · simp
    · exact nofun
  | refused hc =>
    -- A refused claim leads to a commit, so nobody may have abandoned the message.
    have hsafe : ¬ s.Abandoned := by
      cases hcell : s.record with
      | none =>
        rw [hcell] at hc
        exact absurd trivial hc
      | some cell =>
        rcases h.record cell hcell with hp | ⟨-, hr⟩
        · exact hcov.refusal c _ cell rfl ht rfl hcell hp hc
        · exact not_abandoned_of_returned hr
    exact h.goOn ht _ _ trivial nofun nofun ⟨by simp, fun _ => .inr hsafe⟩
  | statusRead => exact h.goOn ht _ _ trivial nofun nofun ⟨by simp, fun _ => .inl trivial⟩
  | skipped => exact h.quit ht _ _ h.record (fun _ => .inl trivial) nofun
  | returned =>
    apply h.put
    · rintro _ ⟨⟩
      trivial
    · exact fun _ _ _ => .inl (List.mem_singleton_self _)
    · exact h.record
    · exact fun _ => not_abandoned_of_task (task_put_self _ _ _ _ _ _) trivial
  -- No `Exception` is raised in a gentle run.
  | failed | markLost => exact absurd rfl (hg c)
  | retried | exhausted | slept | regranted | regrantedInVain | lostRace | sent | dropped =>
    exact hfair.elim
  | completed =>
    have hret := hdone trivial
    apply h.put
    · rintro _ ⟨⟩
      trivial
    · exact fun _ _ _ => .inr hret
    · exact h.record_completed hret
    · exact fun _ => not_abandoned_put (not_abandoned_of_returned hret) _ _ _
        fun _ _ _ => .inr (.inl hret)
  | settled => exact h.quit ht _ _ h.record (fun _ => .inr trivial) nofun
  | @stopped applied _ _ phase isException _ _ hrecord =>
    cases isException with
    | true => exact absurd rfl (hg c)
    | false =>
      apply h.quit ht
      · rcases hrecord with rfl | rfl
        · exact h.record
        · exact h.record_effect ht
      · cases phase <;> cases applied <;> simp [Rules.lastWords, Phase.Skips, Phase.Done]
        exact hfair.elim
      · exact hcov.killing c _ (.inr rfl) ht

theorem step (h : s.CrashInv) (hmax : ∀ c, 1 ≤ rules.maxRetries c) (hg : s.Gentle label)
    (hcov : Covered rules s label) (hstep : Step rules s label s') : s'.CrashInv := by
  cases hstep with
  | tick => exact ⟨h.fair, h.done, h.record, h.relied⟩
  | expire => exact ⟨h.fair, h.done, nofun, h.relied⟩
  | arrive hc =>
    apply h.put
    · rintro _ ⟨⟩
      trivial
    · rintro _ ⟨⟩ ⟨⟩
    · exact h.record
    · intro hrel
      apply not_abandoned_put
      · rcases hrel with hmem | ⟨_, ⟨⟩, ⟨⟩⟩ | hrel
        · simp at hmem
        · exact h.relied hrel
      · intro t ht
        rw [hc] at ht
        simp at ht
  | enter hc => exact h.goOn hc _ _ trivial nofun (fun _ => .inl trivial) ⟨by simp, nofun⟩
  | crash hc => exact h.quit hc _ _ h.record nofun (hcov.killing _ _ (.inl rfl) hc)
  | act hc hmove => exact h.move hmax hg hcov hc hmove

end CrashInv

theorem crashInv_of_reach (hmax : ∀ c, 1 ≤ rules.maxRetries c)
    (h : Reach ((system rules).guard fun s label => s.Gentle label ∧ Covered rules s label) s) :
    s.CrashInv := by
  apply h.invariant (fun s => s.CrashInv)
  · rintro s ⟨hnone, hidle, htrace⟩
    refine ⟨?_, ?_, ?_, ?_⟩
    · intro c t ht
      rw [hidle c] at ht
      simp at ht
    · intro c t ht
      rw [hidle c] at ht
      simp at ht
    · intro cell hcell
      rw [hnone] at hcell
      simp at hcell
    · rintro (⟨n, hn⟩ | ⟨c, t, ht, -⟩)
      · rw [htrace] at hn
        simp at hn
      · rw [hidle c] at ht
        simp at ht
  · rintro s label s' - hs ⟨⟨hg, hcov⟩, hstep⟩
    exact hs.step hmax hg hcov hstep

/-! ## Checks -/

def isGentle : Label → Bool
  | .act _ (.raised true) => false
  | _ => true

/-- Nobody relies on the message yet. -/
def isUnrelied (k : Nat) (s : Life) : Bool :=
  !s.happened .committed && (s.tasks k).all fun t => !decide t.phase.Skips

/-- No claim is refused, and none is lost that others rely on. -/
def isCovered (rules : Rules) (k : Nat) (s : Life) (label : Label) : Bool :=
  isGentle label &&
    match label with
    | .act c .ok =>
      (s.task c).all fun t =>
        t.phase ≠ .arriving || decide (Cell.Claimable rules.config s.now s.record)
    | .act _ (.raised false) | .crash _ => s.isUnrelied k
    | _ => true

theorem not_relied_of_isUnrelied {k : Nat} (hq : s.Quiet k) (h : s.isUnrelied k = true) :
    ¬ s.Relied := by
  simp only [isUnrelied, happened, Bool.and_eq_true, Bool.not_eq_true', List.any_eq_false,
    List.all_eq_true, decide_eq_true_eq, decide_eq_false_iff_not] at h
  rintro (⟨n, hn⟩ | ⟨c, t, ht, hs⟩)
  · exact h.1 (n, .committed) hn rfl
  · exact h.2 t (mem_tasks hq ht) hs

theorem gentle_of_isGentle (h : isGentle label = true) : s.Gentle label := by
  rintro c rfl
  cases h

theorem covered_of_isCovered {k : Nat} (s : Life) (label : Label) (hq : s.Quiet k)
    (h : isCovered rules k s label = true) : s.Gentle label ∧ Covered rules s label := by
  simp only [isCovered, Bool.and_eq_true] at h
  refine ⟨gentle_of_isGentle h.1, ?_, ?_⟩
  · rintro c t cell rfl ht harr - - hclaim
    have hcheck := h.2
    simp only [ht, Option.all_some, harr, ne_eq, not_true, decide_false, Bool.false_or,
      decide_eq_true_eq] at hcheck
    exact absurd hcheck hclaim
  · intro c t hkill ht hh hrel
    have hun : s.isUnrelied k = true := by
      rcases hkill with rfl | rfl <;> exact h.2
    exact absurd hrel (not_relied_of_isUnrelied hq hun)

end Life

/-! ## Committed records -/

/-- Every committed record of `m` is handled, or in the hands of a live owner. -/
def Group.NoLoss (g : Group V R) (m : MessageId) (s : State g.backend) : Prop :=
  ∀ p o, o < s.committed p → extractMessageId g.py (g.log p o) = .ok (some m.val) →
    (g.life m s).Happened .returned ∨ (g.life m s).Executing

theorem Group.happened_committed {g : Group V R} {m : MessageId} {s : State g.backend}
    (h : Reach (g.system m) s) {p o : Nat} (ho : o < s.committed p)
    (hid : extractMessageId g.py (g.log p o) = .ok (some m.val)) :
    (g.life m s).Happened .committed := by
  obtain ⟨n, hn⟩ := (consistent_of_reach h).logged p o m ho hid
  refine ⟨n, List.mem_filterMap.mpr ⟨_, hn, ?_⟩⟩
  unfold Entry.life
  rw [if_pos rfl]

/-- A crash loses no message in a run in which every refused claim and every kill is covered. -/
theorem Group.no_loss_covered (g : Group V R) (m : MessageId)
    (hmax : ∀ c, 1 ≤ (g.consumers c).config.maxRetries) {s : State g.backend}
    (h : Reach ((g.system m).guard (g.during m fun life label =>
      life.Gentle label ∧ life.Covered (g.rules m) label)) s) : g.NoLoss m s := by
  have hinv := Life.crashInv_of_reach hmax (Group.reach_life h)
  intro p o ho hid
  have hcom := Group.happened_committed h.of_guard ho hid
  have hsafe := hinv.relied (.inl hcom)
  by_contra hnone
  rw [not_or] at hnone
  exact hsafe hnone

def redeliveryRun : List (Action Unit) :=
  [.assign 0 0, .poll 0 0, .act 0 (.done none), .enter 0, .crash 0, .tick 300000000, .assign 0 1,
    .poll 1 0, .act 1 (.done none), .enter 1, .act 1 (.done none), .act 1 (.done none),
    .act 1 (.done none)]

/-- A consumer is killed in `handle()`, and the message is handled after its lease. -/
theorem Group.no_loss_redelivered :
    let g := smallGroup (.redis {} nullCodec) ⟨{}, none⟩ sampleId
    ∃ s, Reach ((g.system sampleId).guard (g.during sampleId fun life label =>
        life.Gentle label ∧ life.Covered (g.rules sampleId) label)) s ∧
      0 < s.committed 0 ∧
      ((g.life sampleId s).Happened .returned ∨ (g.life sampleId s).Executing) := by
  intro g
  have hrun : (replay g.exec (g.checked sampleId 2 (Life.isCovered (g.rules sampleId) 2))
      (g.startState 0 g.backend.empty) redeliveryRun).any (fun s => decide (0 < s.committed 0)) =
      true := by
    decide +kernel
  obtain ⟨s, hs, hcom⟩ := (Option.any_eq_true _ _).mp hrun
  obtain ⟨hr, -⟩ := Group.reach_replay Life.covered_of_isCovered rfl hs
  have hmax : (1 : Int) ≤ 3 := by decide
  have hpos := of_decide_eq_true hcom
  exact ⟨s, hr, hpos, Group.no_loss_covered g sampleId (fun _ => hmax) hr 0 0 hpos rfl⟩

def lostRun : List (Action Unit) :=
  [.assign 0 0, .poll 0 0, .act 0 (.done none), .enter 0, .crash 0, .tick 10000000, .assign 0 1,
    .poll 1 0, .act 1 (.done none), .act 1 (.done none), .act 1 (.done none)]

/-- A redelivery ten seconds after the crash meets the lease of the dead owner. -/
theorem Group.crash_loses_message :
    let g := smallGroup (.redis {} nullCodec) ⟨{}, none⟩ sampleId
    ¬ ∀ s, Reach ((g.system sampleId).guard (g.during sampleId Life.Gentle)) s →
      g.NoLoss sampleId s := by
  intro g hall
  have hrun : (replay g.exec (g.checked sampleId 2 fun _ label => Life.isGentle label)
      (g.startState 0 g.backend.empty) lostRun).any (fun s => decide (0 < s.committed 0) &&
        !(g.life sampleId s).happened .returned && ((g.life sampleId s).tasks 2).isEmpty) =
      true := by
    decide +kernel
  obtain ⟨s, hs, hfin⟩ := (Option.any_eq_true _ _).mp hrun
  obtain ⟨hr, hq⟩ := Group.reach_replay (fun _ _ _ h => Life.gentle_of_isGentle h) rfl hs
  simp only [Bool.and_eq_true, decide_eq_true_eq, Bool.not_eq_true', List.isEmpty_iff] at hfin
  rcases hall s hr 0 0 hfin.1.1 rfl with hret | ⟨c, t, ht, -⟩
  · rw [Life.happened_iff] at hret
    rw [hfin.1.2] at hret
    simp at hret
  · rw [Life.idle_of_tasks hq hfin.2 c] at ht
    simp at ht

end MessageDedup
