import MessageDedup.Group.ExactlyOnce
import MessageDedup.Guard.System

/-!
# Who owns the key

The uses of a key, seen as tasks on its record. While leases outlast the work there is one owner,
and a success stays on record.
-/

namespace MessageDedup

open Transition (Reach System)

variable {V R : Type}

/-! ## The abstraction -/

def BlockPc.phase (entered : Bool) : BlockPc V → Phase
  | .getStatus | .claim => .arriving
  | .body => if entered then .running 1 else .ready 1
  | .markFailed _ => .failing 1
  | .markCompleted _ => .completing

def CallPc.phase (entered : Bool) : CallPc V → Phase
  | .getStatus | .claim => .arriving
  | .execute attempts => if entered then .running attempts else .ready attempts
  | .markFailed attempts _ => .failing attempts
  | .sleep attempts _ => .sleeping attempts
  | .reclaim attempts _ => .reclaiming attempts
  | .markCompleted _ => .completing

def Use.phase (entered : Bool) : Use V → Phase
  | .block _ pc => pc.phase entered
  | .decorated _ _ pc => pc.phase entered

def Caller.task (n : Nat) (c : Caller V) : Task := ⟨n, c.use.phase c.entered, c.leaseUntil⟩

def Note.event : Note V → Option Event
  | .did event => some event
  | _ => none

/-- What becomes of the key in a state. -/
def GuardedKey.life (g : GuardedKey V R) (s : Callers g.backend) : Life where
  now := s.now
  record := g.cell s
  task := fun n => (s.caller n).map (·.task n)
  trace := s.log.filterMap fun entry => entry.2.event.map (entry.1, ·)

/-! ## Steps of the abstraction -/

/-- One awaited call of a use, when no store call fails. -/
inductive UseTurn (backend : Backend V R) (now : Int) (record : Option Cell) :
    Task → Option Cell → Option Task → List Event → Prop
  | looked {n : Nat} {l : Int} :
      UseTurn backend now record ⟨n, .arriving, l⟩ record (some ⟨n, .arriving, l⟩) []
  | ends {t : Task} (hmarks : ¬ t.phase.Marks) : UseTurn backend now record t record none []
  | granted {t : Task} {t' : Option Task} (hold : ¬ t.phase.Holds)
      (hclaim : Cell.Claimable backend.config now record)
      (hnext : ∀ u, t' = some u → (∃ a, u.phase = .ready a) ∧ u.lease = backend.leaseUntil now) :
      UseTurn backend now record t (some (Cell.claimed (backend.leaseUntil now) record)) t'
        [.claimed (backend.leaseUntil now)]
  | returned {n : Nat} {a l : Int} :
      UseTurn backend now record ⟨n, .running a, l⟩ record (some ⟨n, .completing, l⟩) [.returned]
  | raised {n : Nat} {a l : Int} :
      UseTurn backend now record ⟨n, .running a, l⟩ record (some ⟨n, .failing a, l⟩) []
  | failed {n : Nat} {a l : Int} {t' : Option Task}
      (hnext : ∀ u, t' = some u → u.phase = .sleeping a) :
      UseTurn backend now record ⟨n, .failing a, l⟩
        (record.map (Cell.markedFailed backend.guarded a)) t' []
  | slept {n : Nat} {a l : Int} :
      UseTurn backend now record ⟨n, .sleeping a, l⟩ record (some ⟨n, .reclaiming a, l⟩) []
  | completed {n : Nat} {l : Int} :
      UseTurn backend now record ⟨n, .completing, l⟩ (record.map Cell.completed) none [.marked]

namespace Life

inductive Shift (backend : Backend V R) (s : Life) : Life → Prop
  | tick (d : Nat) : Shift backend s { s with now := s.now + d }
  | start {n : Nat} (l : Int) (hn : s.task n = none) :
      Shift backend s (s.put n s.record (some ⟨n, .arriving, l⟩) n [])
  | enter {n : Nat} {a l : Int} (hn : s.task n = some ⟨n, .ready a, l⟩) :
      Shift backend s (s.put n s.record (some ⟨n, .running a, l⟩) n [.entered])
  | turn {n : Nat} {t : Task} {record' : Option Cell} {t' : Option Task} {events : List Event}
      (hn : s.task n = some t) (h : UseTurn backend s.now s.record t record' t' events) :
      Shift backend s (s.put n record' t' n events)

variable {backend : Backend V R} {s s' : Life}

/-! ## Ownership -/

theorem OneOwner.shift (h : s.OneOwner) (hlive : s.LeasesLive) (hstep : s.Shift backend s') :
    s'.OneOwner := by
  cases hstep with
  | tick d => exact h.keep rfl fun c u hu hh _ => ⟨u, hu, hh, rfl, trivial⟩
  | start l hn => exact h.keepPut _ _ rfl (by rintro u ⟨⟩ hh; exact hh.elim)
  | enter hn => exact h.keepPut _ _ rfl (by rintro u ⟨⟩ _; exact ⟨_, hn, trivial, rfl⟩)
  | turn hn hturn =>
    cases hturn with
    | looked | slept => exact h.keepPut _ _ rfl (by rintro u ⟨⟩ hh; exact hh.elim)
    | ends hmarks => exact h.keepPut _ _ rfl nofun
    | returned | raised => exact h.keepPut _ _ rfl (by rintro u ⟨⟩ _; exact ⟨_, hn, trivial, rfl⟩)
    | granted hold hclaim hnext =>
      have hnone := h.no_claim_counts (fun c t ht hh _ => hlive c t ht hh) hclaim
      exact Owned.claim hnone _ _ _ _ _ fun u hu => (hnext u hu).2
    | failed hnext =>
      refine h.mark hn trivial trivial _ _ _ _ fun u hu hh => ?_
      rw [hnext u hu] at hh
      exact hh
    | completed => exact h.mark hn trivial trivial _ _ _ _ nofun

theorem IsCompleted.shift (h : s.IsCompleted) (hown : s.OneOwner) (hstep : s.Shift backend s') :
    s'.IsCompleted := by
  obtain ⟨cell, hcell, hdone⟩ := h
  have hidle : ∀ {n t}, s.task n = some t → ¬ t.phase.Holds := by
    intro n t ht hh
    obtain ⟨cell', hcell', hp, -⟩ := hown.processing ht hh
    rw [hcell] at hcell'
    rw [Option.some.inj hcell', hp] at hdone
    simp at hdone
  cases hstep with
  | tick d => exact ⟨cell, hcell, hdone⟩
  | start l hn => exact ⟨cell, hcell, hdone⟩
  | enter hn => exact ⟨cell, hcell, hdone⟩
  | turn hn hturn =>
    cases hturn with
    | looked | ends | returned | raised | slept => exact ⟨cell, hcell, hdone⟩
    | granted _ hclaim =>
      rw [hcell] at hclaim
      exact absurd hclaim (Cell.not_claimable_completed hdone)
    | failed | completed => exact absurd trivial (hidle hn)

theorem Settled.shift (h : s.Settled) (hown : s.OneOwner) (hstep : s.Shift backend s') :
    s'.Settled := by
  rcases h with hdone | ⟨n, t, ht, hphase⟩
  · exact .inl (hdone.shift hown hstep)
  · obtain ⟨cell, hcell, hp, -⟩ := hown.processing ht (by rw [hphase]; trivial)
    -- The others cannot touch the record of the use that is to mark it.
    have hput : ∀ {n' record' t' events}, n ≠ n' →
        (s.put n' record' t' n' events).Settled := by
      intro n' record' t' events hne
      exact .inr ⟨n, t, (task_put_other s hne _ _ _ _).trans ht, hphase⟩
    cases hstep with
    | tick d => exact .inr ⟨n, t, ht, hphase⟩
    | @start n' l hn =>
      apply hput
      rintro rfl
      rw [hn] at ht
      simp at ht
    | @enter n' a l hn =>
      apply hput
      rintro rfl
      rw [hn] at ht
      obtain rfl := Option.some.inj ht
      simp at hphase
    | @turn n' t₁ record' t' events hn hturn =>
      by_cases hne : n = n'
      · subst hne
        rw [hn] at ht
        obtain rfl := Option.some.inj ht
        cases hturn with
        | ends hmarks =>
          rw [hphase] at hmarks
          exact absurd trivial hmarks
        | granted hold =>
          rw [hphase] at hold
          exact absurd trivial hold
        | completed =>
          refine .inl ⟨cell.completed, ?_, Cell.completed_of_processing hp⟩
          change s.record.map Cell.completed = _
          rw [hcell]
          rfl
        | _ => cases hphase
      · exact hput hne

end Life

theorem UseTurn.events {backend : Backend V R} {now : Int} {record record' : Option Cell} {t : Task}
    {t' : Option Task} {events : List Event} (h : UseTurn backend now record t record' t' events) :
    .entered ∉ events ∧
      (.returned ∈ events → events = [.returned] ∧ (∃ a, t.phase = .running a) ∧
        ∃ u, t' = some u ∧ u.phase = .completing) ∧
      (.marked ∈ events → t.phase = .completing ∧ record' = record.map Cell.completed) := by
  cases h with
  | returned => exact ⟨by decide, fun _ => ⟨rfl, ⟨_, rfl⟩, _, rfl, rfl⟩, by simp⟩
  | completed => exact ⟨by decide, by simp, fun _ => ⟨rfl, rfl⟩⟩
  | looked | ends | granted | raised | failed | slept => simp

namespace Life

variable {backend : Backend V R} {s s' : Life}

theorem Shift.happened (hstep : s.Shift backend s') {event : Event} (hne : event ≠ .entered)
    (h : s'.Happened event) :
    s.Happened event ∨ ∃ n t record' t' events, s.task n = some t ∧
      UseTurn backend s.now s.record t record' t' events ∧ s' = s.put n record' t' n events ∧
      event ∈ events := by
  obtain ⟨k, hk⟩ := h
  cases hstep with
  | tick d => exact .inl ⟨k, hk⟩
  | start l _ =>
    rcases mem_put.mp hk with ⟨-, hmem⟩ | hmem
    · simp at hmem
    · exact .inl ⟨k, hmem⟩
  | enter _ =>
    rcases mem_put.mp hk with ⟨-, hmem⟩ | hmem
    · exact absurd (List.mem_singleton.mp hmem) hne
    · exact .inl ⟨k, hmem⟩
  | turn ht hturn =>
    rcases mem_put.mp hk with ⟨-, hmem⟩ | hmem
    · exact .inr ⟨_, _, _, _, _, ht, hturn, rfl, hmem⟩
    · exact .inl ⟨k, hmem⟩

theorem SuccessInv.shift (h : s.SuccessInv) (hlive : s.LeasesLive) (hstep : s.Shift backend s') :
    s'.SuccessInv := by
  have hkeep := fun hr => (h.settled hr).shift h.owner hstep
  refine ⟨h.owner.shift hlive hstep, ?_, ?_⟩
  · intro hr
    rcases hstep.happened (by simp) hr with hr | ⟨n, t, record', t', events, ht, hturn, rfl, hmem⟩
    · exact hkeep hr
    · obtain ⟨-, -, u, rfl, hphase⟩ := hturn.events.2.1 hmem
      exact .inr ⟨n, u, task_put_self _ _ _ _ _ _, hphase⟩
  · cases hstep with
    | tick d => exact h.once
    | start l _ => exact h.once.put _ _ _ _ (by simp) (by simp)
    | enter hn =>
      apply h.once.put _ _ _ _ (by simp)
      intro hr
      have := (h.settled hr).completing h.owner hn trivial
      simp at this
    | turn ht hturn =>
      obtain ⟨hentered, hreturned, -⟩ := hturn.events
      apply h.once.put _ _ _ _ fun hr => (hreturned hr).1
      intro hr
      refine ⟨hentered, fun hmem => ?_⟩
      obtain ⟨-, ⟨a, hrun⟩, -⟩ := hreturned hmem
      have := (h.settled hr).completing h.owner ht (by rw [hrun]; trivial)
      cases hrun.symm.trans this

/-- A success that was marked is on record. -/
def Marked (s : Life) : Prop := s.Happened .marked → s.IsCompleted

theorem Marked.shift (h : s.Marked) (hown : s.OneOwner) (hstep : s.Shift backend s') :
    s'.Marked := by
  intro hm
  rcases hstep.happened (by simp) hm with hm | ⟨n, t, record', t', events, ht, hturn, rfl, hmem⟩
  · exact (h hm).shift hown hstep
  · obtain ⟨hphase, rfl⟩ := hturn.events.2.2 hmem
    obtain ⟨cell, hcell, hp, -⟩ := hown.processing ht (by rw [hphase]; trivial)
    refine ⟨cell.completed, ?_, Cell.completed_of_processing hp⟩
    change s.record.map Cell.completed = _
    rw [hcell]
    rfl

end Life

end MessageDedup
