import MessageDedup.Group.Refinement

/-!
# Who owns the record

While no claim outlives its lease, the delivery that works under a claim is the only one, and the
record is PROCESSING under its lease.
-/

namespace MessageDedup

open Transition (Reach System)

variable {rules : Rules} {s s' : Life} {label : Label}

/-! ## What a move does to the record and to the claims -/

/-- A move leaves the record alone, or wins a claim, or answers one. -/
inductive Touches (rules : Rules) (now : Int) (record : Option Cell) (t : Task)
    (record' : Option Cell) (t' : Option Task) : Prop
  | keeps (hrecord : record' = record)
      (hholds : ∀ u, t' = some u → u.phase.Holds → t.phase.Holds ∧ u.lease = t.lease)
  | claims (hold : ¬ t.phase.Holds) (hclaim : Cell.Claimable rules.config now record)
      (hrecord : record' = some (Cell.claimed (rules.leaseUntil now) record))
      (hlease : ∀ u, t' = some u → u.lease = rules.leaseUntil now)
  | marks (hmarks : t.phase.Marks) (hrecord : record' = rules.effect now record t.phase)
      (hholds : ∀ u, t' = some u → ¬ u.phase.Holds)

theorem Phase.Marks.holds {phase : Phase} (h : phase.Marks) : phase.Holds := by
  cases phase <;> trivial

theorem Rules.Grave.not_holds {c : ConsumerId} {phase : Phase} (h : rules.Grave c phase) :
    ¬ phase.Holds := by
  rcases h with ⟨-, rfl⟩ | ⟨-, rfl⟩ <;> exact id

theorem Rules.Move.touches {c : ConsumerId} {now : Int} {record record' : Option Cell} {t : Task}
    {t' : Option Task} {reply : Reply} {events : List Event}
    (h : rules.Move c now record t reply record' t' events) :
    Touches rules now record t record' t' := by
  cases h with
  | granted h | grantedInVain h | regranted h | regrantedInVain h =>
    exact .claims id h rfl (by rintro u ⟨⟩; rfl)
  | undecodable h => exact .claims id h rfl nofun
  | refused | statusRead | slept | sent => exact .keeps rfl (by rintro u ⟨⟩ hu; exact hu.elim)
  | skipped | settled | dropped => exact .keeps rfl nofun
  | returned | failed => exact .keeps rfl (by rintro u ⟨⟩ _; exact ⟨trivial, rfl⟩)
  | lostRace _ hg => exact .keeps rfl (by rintro u ⟨⟩ hu; exact (hg.not_holds hu).elim)
  | retried | completed => exact .marks trivial rfl (by rintro u ⟨⟩; exact id)
  | exhausted _ hg => exact .marks trivial rfl (by rintro u ⟨⟩; exact hg.not_holds)
  | markLost h =>
    rcases h with rfl | rfl
    · exact .keeps rfl (by rintro u ⟨⟩ hu; exact hu.elim)
    · exact .marks trivial rfl (by rintro u ⟨⟩; exact id)
  | @stopped _ _ _ phase _ _ _ h =>
    rcases h with rfl | rfl
    · exact .keeps rfl nofun
    · cases phase with
      | arriving | reclaiming =>
        by_cases hc : Cell.Claimable rules.config now record
        · exact .claims id hc (if_pos hc) nofun
        · exact .keeps (if_neg hc) nofun
      | failing | completing => exact .marks trivial rfl nofun
      | _ => exact .keeps rfl nofun

/-! ## Ownership -/

/-- Of the claims that count under `L`, which sees the time and the lease, there is one at most,
and the record is the one it made. -/
structure Owned (L : Int → Int → Prop) (s : Life) : Prop where
  unique : ∀ c c' t t', s.task c = some t → s.task c' = some t' → t.phase.Holds →
    t'.phase.Holds → L s.now t.lease → L s.now t'.lease → c = c'
  record : ∀ c t, s.task c = some t → t.phase.Holds → L s.now t.lease →
    ∃ cell, s.record = some cell ∧ cell.status = .processing ∧ cell.lease = some t.lease

namespace Owned

variable {L : Int → Int → Prop}

theorem ofNone (hnone : ∀ c t, s.task c = some t → t.phase.Holds → ¬ L s.now t.lease) :
    Owned L s where
  unique := fun c _ t _ ht _ hh _ hl => (hnone c t ht hh hl).elim
  record := fun c t ht hh hl => (hnone c t ht hh hl).elim

theorem start (hidle : ∀ c, s.task c = none) : Owned L s := by
  apply ofNone
  intro c t ht
  rw [hidle c] at ht
  simp at ht

theorem keep (h : Owned L s) (hrecord : s'.record = s.record)
    (htask : ∀ c u, s'.task c = some u → u.phase.Holds → L s'.now u.lease →
      ∃ t, s.task c = some t ∧ t.phase.Holds ∧ t.lease = u.lease ∧ L s.now t.lease) :
    Owned L s' where
  unique := by
    intro c c' u u' hu hu' hh hh' hl hl'
    obtain ⟨t, ht, hth, -, htl⟩ := htask c u hu hh hl
    obtain ⟨t', ht', hth', -, htl'⟩ := htask c' u' hu' hh' hl'
    exact h.unique c c' t t' ht ht' hth hth' htl htl'
  record := by
    intro c u hu hh hl
    obtain ⟨t, ht, hth, heq, htl⟩ := htask c u hu hh hl
    rw [hrecord, ← heq]
    exact h.record c t ht hth htl

theorem keepPut (h : Owned L s) {c : ConsumerId} {record' : Option Cell} {t' : Option Task}
    (n : Nat) (events : List Event) (hrecord : record' = s.record)
    (hholds : ∀ u, t' = some u → u.phase.Holds →
      ∃ t, s.task c = some t ∧ t.phase.Holds ∧ t.lease = u.lease) :
    Owned L (s.put c record' t' n events) := by
  apply h.keep hrecord
  intro c' u hu hh hl
  rcases Life.task_put hu with ⟨rfl, hself⟩ | ⟨-, hu⟩
  · obtain ⟨t, ht, hth, heq⟩ := hholds u hself hh
    exact ⟨t, ht, hth, heq, heq ▸ hl⟩
  · exact ⟨u, hu, hh, rfl, hl⟩

theorem claim (hnone : ∀ c t, s.task c = some t → t.phase.Holds → ¬ L s.now t.lease)
    (c : ConsumerId) (lease : Int) (t' : Option Task) (n : Nat) (events : List Event)
    (hlease : ∀ u, t' = some u → u.lease = lease) :
    Owned L (s.put c (some (Cell.claimed lease s.record)) t' n events) := by
  have honly : ∀ c' u, (s.put c (some (Cell.claimed lease s.record)) t' n events).task c' = some u →
      u.phase.Holds → L s.now u.lease → c' = c ∧ t' = some u := by
    intro c' u hu hh hl
    rcases Life.task_put hu with hself | ⟨-, hu⟩
    · exact hself
    · exact (hnone c' u hu hh hl).elim
  constructor
  · intro c₁ c₂ u₁ u₂ hu₁ hu₂ hh₁ hh₂ hl₁ hl₂
    rw [(honly c₁ u₁ hu₁ hh₁ hl₁).1, (honly c₂ u₂ hu₂ hh₂ hl₂).1]
  · intro c' u hu hh hl
    obtain ⟨-, heq⟩ := honly c' u hu hh hl
    refine ⟨_, rfl, rfl, ?_⟩
    rw [hlease u heq]
    rfl

theorem mark (h : Owned L s) {c : ConsumerId} {t : Task} (ht : s.task c = some t)
    (hh : t.phase.Holds) (hl : L s.now t.lease) (record' : Option Cell) (t' : Option Task) (n : Nat)
    (events : List Event) (hholds : ∀ u, t' = some u → ¬ u.phase.Holds) :
    Owned L (s.put c record' t' n events) := by
  apply ofNone
  intro c' u hu huh hul
  rcases Life.task_put hu with ⟨-, hu⟩ | ⟨hne, hu⟩
  · exact hholds u hu huh
  · exact hne (h.unique c' c u t hu ht huh hh hul hl)

theorem no_claim_counts (h : Owned L s) {config : DeduplicationConfig}
    (hlive : ∀ c t, s.task c = some t → t.phase.Holds → L s.now t.lease → s.now < t.lease)
    (hclaim : Cell.Claimable config s.now s.record) :
    ∀ c t, s.task c = some t → t.phase.Holds → ¬ L s.now t.lease := by
  intro c t ht hh hl
  obtain ⟨cell, hcell, hp, hlease⟩ := h.record c t ht hh hl
  rw [hcell] at hclaim
  exact Cell.not_claimable_of_live hp hlease (hlive c t ht hh hl) hclaim

/-- A step keeps ownership when the claims that count have a live lease, the record does not
expire, and no claim counts at a mark under a claim that does not. -/
theorem step (h : Owned L s) (hmono : ∀ (d : Nat) lease, L (s.now + d) lease → L s.now lease)
    (hlive : ∀ c t, s.task c = some t → t.phase.Holds → L s.now t.lease → s.now < t.lease)
    (hexpire : ∀ d, label ≠ .tick d true)
    (hmark : ∀ c reply t, label = .act c reply → s.task c = some t → t.phase.Marks →
      ¬ L s.now t.lease → ∀ c' t', s.task c' = some t' → t'.phase.Holds → ¬ L s.now t'.lease)
    (hstep : Life.Step rules s label s') : Owned L s' := by
  cases hstep with
  | tick => exact h.keep rfl fun c u hu hh hl => ⟨u, hu, hh, rfl, hmono _ _ hl⟩
  | expire => exact absurd rfl (hexpire _)
  | arrive hc => exact h.keepPut _ _ rfl (by rintro u ⟨⟩ hh; exact hh.elim)
  | enter hc => exact h.keepPut _ _ rfl (by rintro u ⟨⟩ _; exact ⟨_, hc, trivial, rfl⟩)
  | crash hc => exact h.keepPut _ _ rfl nofun
  | @act c t reply record' t' events hc hmove =>
    cases hmove.touches with
    | keeps hrecord hholds =>
      apply h.keepPut _ _ hrecord
      intro u hu hh
      obtain ⟨hth, heq⟩ := hholds u hu hh
      exact ⟨t, hc, hth, heq.symm⟩
    | claims hold hclaim hrecord hlease =>
      rw [hrecord]
      exact claim (h.no_claim_counts hlive hclaim) c _ t' _ _ hlease
    | marks hmarks hrecord hholds =>
      by_cases hl : L s.now t.lease
      · exact h.mark hc hmarks.holds hl record' t' _ _ hholds
      · apply ofNone
        intro c' u hu hh
        rcases Life.task_put hu with ⟨-, hself⟩ | ⟨-, hold⟩
        · exact absurd hh (hholds u hself)
        · exact hmark c reply t rfl hc hmarks hl c' u hold hh

end Owned

/-! ## Leases that outlast the work -/

def Life.LeasesLive (s : Life) : Prop :=
  ∀ c t, s.task c = some t → t.phase.Holds → s.now < t.lease

/-- Every claim counts. -/
abbrev Life.OneOwner (s : Life) : Prop := Owned (fun _ _ => True) s

namespace Life.OneOwner

theorem unique' (h : s.OneOwner) {c c' : ConsumerId} {t t' : Task} (ht : s.task c = some t)
    (ht' : s.task c' = some t') (hh : t.phase.Holds) (hh' : t'.phase.Holds) : c = c' :=
  Owned.unique h c c' t t' ht ht' hh hh' trivial trivial

theorem processing (h : s.OneOwner) {c : ConsumerId} {t : Task} (ht : s.task c = some t)
    (hh : t.phase.Holds) :
    ∃ cell, s.record = some cell ∧ cell.status = .processing ∧ cell.lease = some t.lease :=
  Owned.record h c t ht hh trivial

end Life.OneOwner

/-- Each step is taken while the claims in force have a live lease, and no record expires. -/
def Life.Calm (s : Life) (label : Label) : Prop :=
  s.LeasesLive ∧ ∀ d, label ≠ .tick d true

theorem Life.OneOwner.step (h : s.OneOwner) (hcalm : s.Calm label)
    (hstep : Life.Step rules s label s') : s'.OneOwner :=
  Owned.step h (fun _ _ => id) (fun c t ht hh _ => hcalm.1 c t ht hh) hcalm.2
    (fun _ _ _ _ _ _ hn => absurd trivial hn) hstep

theorem Life.OneOwner.record_stays (h : s.OneOwner) (hexpire : ∀ d, label ≠ .tick d true)
    {cell : Cell} (hcell : s.record = some cell) (hstatus : cell.status ≠ .processing)
    (hclaim : ¬ Cell.Claimable rules.config s.now s.record)
    (hstep : Life.Step rules s label s') : s'.record = s.record := by
  cases hstep with
  | tick | arrive _ | enter _ | crash _ => rfl
  | expire => exact absurd rfl (hexpire _)
  | act hc hmove =>
    cases hmove.touches with
    | keeps hrecord => exact hrecord
    | claims _ hc => exact absurd hc hclaim
    | marks hmarks =>
      obtain ⟨cell', hcell', hp, -⟩ := h.processing hc hmarks.holds
      rw [hcell] at hcell'
      exact absurd (Option.some.inj hcell' ▸ hp) hstatus

end MessageDedup
