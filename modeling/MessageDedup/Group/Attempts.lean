import MessageDedup.Group.Sequential
import Mathlib.Data.ENat.Lattice

/-!
# The attempts of one delivery

A single consumer whose retry limit need not be that of its store. How each call of `handle()` ends
is given by the number of the attempt.
-/

namespace MessageDedup

open Coroutine (Proc)

variable {V R : Type}

def Call.isSend : Call V → Bool
  | .sendAndWait _ _ _ => true
  | _ => false

/-! ## Outcomes by the number of the attempt -/

/-- `env`, when so many calls of `handle()` have ended. -/
def Surroundings.after (env : Surroundings V) (handles : Nat) : Surroundings V :=
  { env with handle := fun _ => env.handle handles }

namespace Session

variable {backend : Backend V R} (env : Surroundings V)

def answerInTurn (s : Session backend) (call : Call V) :
    Session backend × Except Exc call.Reply :=
  s.answer (env.after s.handles) call

def deliverInTurn (py : Python) (self : DedupConsumer) (record : ConsumerRecord)
    (s : Session backend) : Session backend × Report backend :=
  let r := (self.processRecord py record).run (answerInTurn env) { s with log := [] }
  (r.1, ⟨record, r.1.log, r.2.1, r.2.2⟩)

def sends (s : Session backend) : Nat := s.log.countP (·.call.isSend)

end Session

namespace Report

variable {backend : Backend V R} (report : Report backend)

def handles : Nat := report.log.countP Moment.isHandle
def sends : Nat := report.log.countP (·.call.isSend)
def deadLetters : Nat := report.metrics.countP Metric.isDlq

end Report

/-- `k` is the position of the first success, from 1 on, and `⊤` when each attempt fails. -/
structure FirstSuccess (outcomes : Nat → Except Exc (Option V)) (k : ℕ∞) : Prop where
  positive : k ≠ 0
  earlier : ∀ j : ℕ, ((j + 1 : ℕ) : ℕ∞) < k → ∃ exc, outcomes j = .error exc
  first : ∀ j : ℕ, ((j + 1 : ℕ) : ℕ∞) = k → ∃ result, outcomes j = .ok result

/-- After `n` attempts another one is due: all of them failed, and both limits allow it. -/
structure Due (maxRetries : Int) (config : DeduplicationConfig)
    (outcomes : Nat → Except Exc (Option V)) (n : Nat) : Prop where
  failed : ∀ j < n, ∃ exc, outcomes j = .error exc
  within : n < maxRetries
  reclaimed : 0 < n → config.retryFailed = true ∧ n < config.maxRetries

/-! ## How many attempts are due -/

/-- The attempts that the two limits allow, when each one fails. -/
def attemptLimit (maxRetries : Int) (config : DeduplicationConfig) : Nat :=
  if config.retryFailed then (min maxRetries (max config.maxRetries 1)).toNat else 1

section

variable {maxRetries : Int} {config : DeduplicationConfig}
  {outcomes : Nat → Except Exc (Option V)} {n : Nat} {k : ℕ∞}

theorem attemptLimit_pos (hmax : 1 ≤ maxRetries) : 0 < attemptLimit maxRetries config := by
  unfold attemptLimit
  split <;> omega

theorem due_iff (hmax : 1 ≤ maxRetries) :
    Due maxRetries config outcomes n ↔
      (∀ j < n, ∃ exc, outcomes j = .error exc) ∧ n < attemptLimit maxRetries config := by
  unfold attemptLimit
  constructor
  · rintro ⟨hfailed, hwithin, hreclaimed⟩
    refine ⟨hfailed, ?_⟩
    rcases Nat.eq_zero_or_pos n with rfl | hpos
    · split <;> omega
    · obtain ⟨hretry, hlt⟩ := hreclaimed hpos
      rw [if_pos hretry]
      omega
  · rintro ⟨hfailed, hlt⟩
    split at hlt
    · rename_i hretry
      exact ⟨hfailed, by omega, fun hpos => ⟨hretry, by omega⟩⟩
    · exact ⟨hfailed, by omega, fun hpos => by omega⟩

theorem FirstSuccess.le (hk : FirstSuccess outcomes k)
    (hfailed : ∀ j < n, ∃ exc, outcomes j = .error exc) : ((n + 1 : ℕ) : ℕ∞) ≤ k := by
  by_contra hlt
  rw [not_le] at hlt
  obtain ⟨k, rfl⟩ := ENat.ne_top_iff_exists.mp hlt.ne_top
  rw [Nat.cast_lt] at hlt
  have hpos : k ≠ 0 := by
    rintro rfl
    exact hk.positive rfl
  obtain ⟨exc, herror⟩ := hfailed (k - 1) (by omega)
  obtain ⟨result, hok⟩ := hk.first (k - 1) (by rw [Nat.sub_add_cancel (by omega)])
  rw [herror] at hok
  simp at hok

theorem FirstSuccess.min_limit (hk : FirstSuccess outcomes k) :
    min k (attemptLimit maxRetries config) =
      if config.retryFailed then min k (min maxRetries (max config.maxRetries 1)).toNat else 1 := by
  unfold attemptLimit
  split
  · rfl
  · rw [Nat.cast_one]
    exact min_eq_right (Order.one_le_iff_ne_zero.mpr hk.positive)

theorem Due.count (hmax : 1 ≤ maxRetries) (hk : FirstSuccess outcomes k)
    (hdue : Due maxRetries config outcomes n)
    (hlast : (∃ result, outcomes n = .ok result) ∨ ¬ Due maxRetries config outcomes (n + 1)) :
    ((n + 1 : ℕ) : ℕ∞) = min k (attemptLimit maxRetries config) := by
  obtain ⟨hfailed, hlt⟩ := (due_iff hmax).mp hdue
  have hle : ((n + 1 : ℕ) : ℕ∞) ≤ attemptLimit maxRetries config := Nat.cast_le.mpr hlt
  refine le_antisymm (le_min (hk.le hfailed) hle) ?_
  cases hout : outcomes n with
  | ok result =>
    apply min_le_of_left_le
    by_contra hgt
    obtain ⟨exc, herror⟩ := hk.earlier n (not_le.mp hgt)
    rw [hout] at herror
    simp at herror
  | error exc =>
    rw [hout] at hlast
    have hspent := hlast.resolve_left (by simp)
    apply min_le_of_right_le
    rw [Nat.cast_le]
    by_contra hgt
    apply hspent
    rw [due_iff hmax]
    refine ⟨?_, by omega⟩
    intro j hj
    rcases Nat.lt_succ_iff_lt_or_eq.mp hj with hj | rfl
    · exact hfailed j hj
    · exact ⟨exc, hout⟩

end

/-! ## What the parts of a delivery do -/

/-- What a delivery changes: the record of its message, and how often `handle()` and the DLQ have
been called. -/
structure Progress where
  record : Option Cell
  handles : Nat
  sends : Nat

/-- After a call that goes well. -/
def Progress.after (backend : Backend V R) (now : Int) (s : Progress) (call : Call V) :
    Progress where
  record := call.effect backend now s.record
  handles := s.handles + if call.isHandle then 1 else 0
  sends := s.sends + if call.isSend then 1 else 0

/-- A call that goes well; a `handle()` ends as the attempt does. -/
def AnswersInTurn (backend : Backend V R) (outcomes : Nat → Except Exc (Option V)) (s : Progress)
    (call : Call V) (reply : Except Exc call.Reply) (s' : Progress) : Prop :=
  ∃ now, call.Fits ⟨fun _ => 0, fun _ => outcomes s.handles⟩ backend.config now
    (fun _ => s.record) reply ∧ s' = s.after backend now call

/-- `Q` holds after each run of `p` from `s` whose calls go well, and `p` calls the store about `m`
only. -/
abbrev DoesInTurn {A : Type} (backend : Backend V R) (m : MessageId)
    (outcomes : Nat → Except Exc (Option V)) (p : Program V A)
    (Q : Progress → List Metric → Except Exc A → Prop) (s : Progress) : Prop :=
  p.Ensures (fun _ call => call.key = some m.val ∨ call.key = none)
    (AnswersInTurn backend outcomes) Q s

section

variable {backend : Backend V R} {A : Type} {m : MessageId}
  {outcomes : Nat → Except Exc (Option V)} {s : Progress} {call : Call V}
  {Q : Progress → List Metric → Except Exc A → Prop}

theorem DoesInTurn.await {k : Except Exc call.Reply → Program V A}
    (hkey : call.key = some m.val ∨ call.key = none)
    (h : ∀ r now, call.Fits ⟨fun _ => 0, fun _ => outcomes s.handles⟩ backend.config now
      (fun _ => s.record) r → DoesInTurn backend m outcomes (k r) Q (s.after backend now call)) :
    DoesInTurn backend m outcomes (.await call k) Q s := by
  refine ⟨hkey, ?_⟩
  rintro r _ ⟨now, hfits, rfl⟩
  exact h r now hfits

end

section

variable {backend : Backend V R} {self : DedupConsumer} {record : ConsumerRecord} {py : Python}
  {m : MessageId} {payload : Payload} {outcomes : Nat → Except Exc (Option V)} {s : Progress}
  {cell : Cell} {n : Nat}

open DedupConsumer

/-- The DLQ sends of one dead-letter step. -/
def DedupConsumer.burials (self : DedupConsumer) : Nat := if self.dlq.isSome then 1 else 0

theorem commit_inTurn :
    DoesInTurn backend m outcomes (commit : Program V Unit)
      (fun s' ms r => r = .ok () ∧ ms = [] ∧ s' = s) s := by
  refine DoesInTurn.await (.inr rfl) fun r now hfits => ?_
  obtain ⟨_, rfl⟩ := hfits
  exact ⟨rfl, rfl, rfl⟩

theorem exhausted_inTurn (lastExc : Option Exc) :
    DoesInTurn backend m outcomes (exhausted py self record lastExc : Program V Unit)
      (fun s' ms r => r = .ok () ∧ ms = [.dlq record.topic] ∧
        s' = { s with sends := s.sends + self.burials }) s := by
  unfold exhausted sendToDlq burials
  cases self.dlq with
  | none =>
    apply commit_inTurn.mono
    rintro s' ms r ⟨rfl, rfl, rfl⟩
    exact ⟨rfl, rfl, rfl⟩
  | some topic =>
    refine DoesInTurn.await (.inr rfl) fun r now hfits => ?_
    obtain ⟨_, rfl⟩ := hfits
    apply commit_inTurn.mono
    rintro s' ms r ⟨rfl, rfl, rfl⟩
    exact ⟨rfl, rfl, rfl⟩

theorem complete_inTurn (result : Option V) (hcell : s.record = some cell) :
    DoesInTurn backend m outcomes (complete record (some m.val) result : Program V Unit)
      (fun s' ms r => r = .ok () ∧ ms = [.processed record.topic] ∧
        s' = { s with record := some cell.completed }) s := by
  unfold complete
  rw [ifMessageId_some]
  refine DoesInTurn.await (.inl rfl) fun r now hfits => ?_
  obtain ⟨_, rfl⟩ := hfits
  refine DoesInTurn.await (.inr rfl) fun r now' hfits => ?_
  obtain ⟨_, rfl⟩ := hfits
  refine ⟨rfl, rfl, ?_⟩
  change ({ s with record := s.record.map Cell.completed } : Progress) = _
  rw [hcell]
  rfl

/-- The message is PROCESSING. -/
def Progress.UnderWork (s : Progress) : Prop :=
  ∃ cell, s.record = some cell ∧ cell.status = .processing

/-- The message is FAILED after so many attempts. -/
def Progress.FailedAfter (n : Nat) (s : Progress) : Prop :=
  ∃ cell, s.record = some cell ∧ cell.FailedAt n

/-- There is no other `handle()` and no DLQ send. -/
structure Progress.Quiet (s s' : Progress) : Prop where
  handles : s'.handles = s.handles
  sends : s'.sends = s.sends

theorem reclaim_inTurn (hfailed : s.FailedAfter (n + 1)) :
    DoesInTurn backend m outcomes (reclaim (some m.val) : Program V Bool)
      (fun s' ms r => ∃ again, r = .ok again ∧ ms = [] ∧ s.Quiet s' ∧
        (again = true → s'.UnderWork ∧ backend.config.retryFailed = true ∧
          (n + 1 : ℕ) < backend.config.maxRetries) ∧
        (again = false → s'.FailedAfter (n + 1) ∧ ¬ (backend.config.retryFailed = true ∧
          (n + 1 : ℕ) < backend.config.maxRetries))) s := by
  rw [reclaim_some]
  refine DoesInTurn.await (.inl rfl) fun r now hfits => ?_
  obtain ⟨cell, hcell, hstatus, hattempts⟩ := hfailed
  obtain rfl : r = .ok (decide (Cell.Claimable backend.config now s.record)) := hfits
  refine ⟨_, rfl, rfl, ⟨rfl, rfl⟩, ?_, ?_⟩
  · intro hclaim
    rw [decide_eq_true_eq] at hclaim
    refine ⟨⟨_, if_pos hclaim, rfl⟩, ?_⟩
    rw [hcell] at hclaim
    obtain ⟨-, hretry, hlt⟩ := (Cell.claimable_failed hstatus).mp hclaim
    rw [hattempts] at hlt
    exact ⟨hretry, hlt⟩
  · intro hclaim
    rw [decide_eq_false_iff_not] at hclaim
    refine ⟨⟨cell, (if_neg hclaim).trans hcell, hstatus, hattempts⟩, ?_⟩
    rintro ⟨hretry, hlt⟩
    rw [hcell, Cell.claimable_failed hstatus] at hclaim
    exact hclaim ⟨hstatus, hretry, by rwa [hattempts]⟩

theorem backoff_inTurn (hfailed : s.FailedAfter (n + 1)) :
    DoesInTurn backend m outcomes
      (backoff self record (some m.val) (n + 1 : ℕ) : Program V Bool)
      (fun s' ms r => ∃ again, r = .ok again ∧ ms.countP Metric.isDlq = 0 ∧ s.Quiet s' ∧
        (again = true → (s'.UnderWork ∧ (n + 1 : ℕ) < self.config.maxRetries ∧
            backend.config.retryFailed = true ∧ (n + 1 : ℕ) < backend.config.maxRetries) ∨
          (s'.FailedAfter (n + 1) ∧ self.config.maxRetries ≤ (n + 1 : ℕ))) ∧
        (again = false → s'.FailedAfter (n + 1) ∧ ¬ (backend.config.retryFailed = true ∧
          (n + 1 : ℕ) < backend.config.maxRetries))) s := by
  unfold backoff
  split
  · rename_i hlt
    refine DoesInTurn.await (.inr rfl) fun r now hfits => ?_
    obtain ⟨_, rfl⟩ := hfits
    have hfailed' : (s.after backend now (.sleep (self.config.retryBackoffMs * (n + 1 : ℕ)) :
        Call V)).FailedAfter (n + 1) := hfailed
    apply (reclaim_inTurn hfailed').mono
    rintro s' ms r ⟨again, rfl, rfl, ⟨hhandles, hsends⟩, hwon, hlost⟩
    refine ⟨again, rfl, rfl, ⟨hhandles, hsends⟩, fun hagain => .inl ?_, hlost⟩
    obtain ⟨hworking, hlimit⟩ := hwon hagain
    exact ⟨hworking, hlt, hlimit⟩
  · rename_i hge
    exact ⟨true, rfl, rfl, ⟨rfl, rfl⟩, fun _ => .inr ⟨hfailed, not_lt.mp hge⟩, nofun⟩

/-- Attempt `n + 1` was the last one, and failed. -/
structure Spent (maxRetries : Int) (config : DeduplicationConfig)
    (outcomes : Nat → Except Exc (Option V)) (n : Nat) (s : Progress) : Prop where
  due : Due maxRetries config outcomes n
  failure : ∃ exc, outcomes n = .error exc
  last : ¬ Due maxRetries config outcomes (n + 1)
  failed : s.FailedAfter (n + 1)

/-- Where the loop stands after `n` attempts: another one is due, or they are spent. -/
def BeforeAttempt (maxRetries : Int) (config : DeduplicationConfig)
    (outcomes : Nat → Except Exc (Option V)) (n : Nat) (s : Progress) : Prop :=
  (Due maxRetries config outcomes n ∧ s.UnderWork) ∨
    (maxRetries ≤ n ∧ ∃ n', n = n' + 1 ∧ Spent maxRetries config outcomes n' s)

theorem handleFailed_inTurn {exc : Exc}
    (hdue : Due self.config.maxRetries backend.config outcomes n)
    (hraised : outcomes n = .error exc) (hworking : s.UnderWork) :
    DoesInTurn backend m outcomes
      (handleFailed self record (some m.val) (n + 1 : ℕ) exc : Program V Bool)
      (fun s' ms r => ∃ again, r = .ok again ∧ ms.countP Metric.isDlq = 0 ∧ s.Quiet s' ∧
        (again = true → BeforeAttempt self.config.maxRetries backend.config outcomes (n + 1) s') ∧
        (again = false → Spent self.config.maxRetries backend.config outcomes n s')) s := by
  have hvain : ∀ j < n + 1, ∃ exc, outcomes j = .error exc := by
    intro j hj
    rcases Nat.lt_succ_iff_lt_or_eq.mp hj with hj | rfl
    · exact hdue.failed j hj
    · exact ⟨exc, hraised⟩
  unfold handleFailed
  rw [ifMessageId_some]
  refine DoesInTurn.await (.inl rfl) fun r now hfits => ?_
  obtain ⟨_, rfl⟩ := hfits
  have hfailed : (s.after backend now (.markFailed m.val exc.text (n + 1 : ℕ) :
      Call V)).FailedAfter (n + 1) := by
    obtain ⟨cell, hcell, hp⟩ := hworking
    have hmarked := congrArg (Option.map (Cell.markedFailed backend.guarded (n + 1 : ℕ))) hcell
    refine ⟨cell.markedFailed backend.guarded (n + 1 : ℕ), hmarked, ?_⟩
    rw [Cell.markedFailed_of_processing hp]
    exact ⟨rfl, rfl⟩
  apply (backoff_inTurn hfailed).mono
  rintro s' ms r ⟨again, rfl, hms, ⟨hhandles, hsends⟩, hwon, hlost⟩
  refine ⟨again, rfl, hms, ⟨hhandles, hsends⟩, ?_, ?_⟩
  · intro hagain
    rcases hwon hagain with ⟨hworking, hlt, hlimit⟩ | ⟨hfailed, hge⟩
    · exact .inl ⟨⟨hvain, hlt, fun _ => hlimit⟩, hworking⟩
    · refine .inr ⟨hge, n, rfl, hdue, ⟨exc, hraised⟩, ?_, hfailed⟩
      exact fun hnext => absurd hnext.within (not_lt.mpr hge)
  · intro hagain
    obtain ⟨hfailed, hlimit⟩ := hlost hagain
    exact ⟨hdue, ⟨exc, hraised⟩, fun hnext => hlimit (hnext.reclaimed n.succ_pos), hfailed⟩

/-- How a delivery ends that came to work on its message. -/
def Attempted (self : DedupConsumer) (config : DeduplicationConfig)
    (outcomes : Nat → Except Exc (Option V)) (s : Progress) (metrics : List Metric) : Prop :=
  ∃ n, s.handles = n + 1 ∧
    ((Due self.config.maxRetries config outcomes n ∧ (∃ result, outcomes n = .ok result) ∧
        (∃ cell, s.record = some cell ∧ cell.status = .completed) ∧
        s.sends = 0 ∧ metrics.countP Metric.isDlq = 0) ∨
      (Spent self.config.maxRetries config outcomes n s ∧ s.sends = self.burials ∧
        metrics.countP Metric.isDlq = 1))

theorem Spent.exhausted (hspent : Spent self.config.maxRetries backend.config outcomes n s)
    (hhandles : s.handles = n + 1) (hsends : s.sends = 0) (lastExc : Option Exc) :
    DoesInTurn backend m outcomes (exhausted py self record lastExc : Program V Unit)
      (fun s' ms r => r = .ok () ∧ Attempted self backend.config outcomes s' ms) s := by
  apply (exhausted_inTurn lastExc).mono
  rintro s' ms r ⟨rfl, rfl, rfl⟩
  refine ⟨rfl, n, hhandles, .inr ⟨{ hspent with failed := hspent.failed }, ?_, rfl⟩⟩
  rw [hsends, Nat.zero_add]

/-- The loop rule: the counter is one more than the attempts so far. -/
theorem attemptLoop_inTurn (hexc : ∀ n exc, outcomes n = .error exc → exc.isException = true)
    (left : Nat) (hleft : left = (self.config.maxRetries - n).toNat) (lastExc : Option Exc)
    (hhandles : s.handles = n) (hsends : s.sends = 0)
    (htop : BeforeAttempt self.config.maxRetries backend.config outcomes n s) :
    DoesInTurn backend m outcomes
      (attemptLoop py self record (some m.val) payload left (n + 1 : ℕ) lastExc : Program V Unit)
      (fun s' ms r => r = .ok () ∧ Attempted self backend.config outcomes s' ms) s := by
  induction left generalizing n s lastExc with
  | zero =>
    -- `range` leaves no attempt: all of them have been made and have failed.
    rcases htop with ⟨hdue, -⟩ | ⟨-, n', rfl, hspent⟩
    · have hwithin := hdue.within
      omega
    · exact hspent.exhausted hhandles hsends lastExc
  | succ left ih =>
    rcases htop with ⟨hdue, cell, hcell, hp⟩ | ⟨hge, -⟩
    · refine DoesInTurn.await (.inr rfl) fun r now hfits => ?_
      have hhandles₁ : (s.after backend now (.handle payload : Call V)).handles = n + 1 :=
        congrArg (· + 1) hhandles
      have hsends₁ : (s.after backend now (.handle payload : Call V)).sends = 0 := hsends
      obtain ⟨_, hout⟩ : ∃ _ : Nat, r = outcomes s.handles := hfits
      rw [hhandles] at hout
      cases r with
      | ok result =>
        have hcell₁ : (s.after backend now (.handle payload : Call V)).record = some cell := hcell
        apply (complete_inTurn result hcell₁).mono
        rintro s' ms r ⟨rfl, rfl, rfl⟩
        refine ⟨rfl, n, hhandles₁, .inl ⟨hdue, ⟨result, hout.symm⟩, ⟨_, rfl, ?_⟩, hsends₁, rfl⟩⟩
        exact Cell.completed_of_processing hp
      | error exc =>
        change DoesInTurn backend m outcomes (if exc.isException then _ else _) _ _
        rw [if_pos (hexc n exc hout.symm)]
        have hworking : (s.after backend now (.handle payload : Call V)).UnderWork :=
          ⟨cell, hcell, hp⟩
        apply (handleFailed_inTurn hdue hout.symm hworking).bind
        · rintro s₂ ms again ⟨_, ⟨⟩, hms, hquiet, hwon, hlost⟩
          have hhandles₂ : s₂.handles = n + 1 := hquiet.handles.trans hhandles₁
          have hsends₂ : s₂.sends = 0 := hquiet.sends.trans hsends₁
          -- The re-claim answers `again`: the loop goes on, or the DLQ is next.
          cases again with
          | true =>
            apply (ih (by omega) (some exc) hhandles₂ hsends₂ (hwon rfl)).mono
            rintro s' ms' r ⟨rfl, n', hend⟩
            refine ⟨rfl, n', ?_⟩
            rwa [List.countP_append, hms, Nat.zero_add]
          | false =>
            apply ((hlost rfl).exhausted hhandles₂ hsends₂ (some exc)).mono
            rintro s' ms' r ⟨rfl, n', hend⟩
            refine ⟨rfl, n', ?_⟩
            rwa [List.countP_append, hms, Nat.zero_add]
        · rintro _ _ _ ⟨_, ⟨⟩, _⟩
    · omega

theorem executeAndCommit_inTurn
    (hexc : ∀ n exc, outcomes n = .error exc → exc.isException = true)
    (hmax : 1 ≤ self.config.maxRetries) (hdec : decodePayload py record = .ok payload)
    (hworking : s.UnderWork) (hhandles : s.handles = 0) (hsends : s.sends = 0) :
    DoesInTurn backend m outcomes
      (executeAndCommit py self record (some m.val) : Program V Unit)
      (fun s' ms r => r = .ok () ∧ Attempted self backend.config outcomes s' ms) s := by
  have hdue : Due self.config.maxRetries backend.config outcomes 0 :=
    (due_iff hmax).mpr ⟨fun j hj => absurd hj (Nat.not_lt_zero j), attemptLimit_pos hmax⟩
  unfold executeAndCommit whileAttempts
  rw [hdec]
  exact attemptLoop_inTurn hexc _ (by omega) none hhandles hsends (.inl ⟨hdue, hworking⟩)

theorem skip_inTurn :
    DoesInTurn backend m outcomes (skip record m.val : Program V Unit)
      (fun s' _ r => r = .ok () ∧ s' = s) s := by
  unfold skip
  refine DoesInTurn.await (.inl rfl) fun r now hfits => ?_
  obtain ⟨existing, rfl, -⟩ := hfits
  change DoesInTurn backend m outcomes (if existing.any (·.status = .processing) then _ else _) _ _
  split
  all_goals
    apply commit_inTurn.mono
    rintro s' ms r ⟨rfl, -, rfl⟩
    exact ⟨rfl, rfl⟩

theorem Attempted.count {k : ℕ∞} {metrics : List Metric} (hmax : 1 ≤ self.config.maxRetries)
    (hk : FirstSuccess outcomes k) (h : Attempted self backend.config outcomes s metrics) :
    (s.handles : ℕ∞) = min k (attemptLimit self.config.maxRetries backend.config) := by
  obtain ⟨n, hhandles, hend⟩ := h
  have hdue : Due self.config.maxRetries backend.config outcomes n := by
    rcases hend with ⟨hdue, -⟩ | ⟨hspent, -⟩
    · exact hdue
    · exact hspent.due
  have hlast : (∃ result, outcomes n = .ok result) ∨
      ¬ Due self.config.maxRetries backend.config outcomes (n + 1) :=
    hend.imp (fun h => h.2.1) (fun h => h.1.last)
  rw [hhandles]
  exact hdue.count hmax hk hlast

end

/-! ### In a session -/

section

variable {backend : Backend V R} {A : Type} {m : MessageId} {env : Surroundings V}
  {s : Session backend} {p : Program V A} {Q : Progress → List Metric → Except Exc A → Prop}

def Session.progress (m : MessageId) (s : Session backend) : Progress :=
  ⟨s.cell m.val, s.handles, s.sends⟩

theorem Session.answersInTurn {call : Call V} (hkey : call.key = some m.val ∨ call.key = none)
    (h : (s.answerInTurn env call).1.Smooth) :
    AnswersInTurn backend env.handle (s.progress m) call (s.answerInTurn env call).2
      ((s.answerInTurn env call).1.progress m) := by
  have hans : Answers (env.after s.handles) s call (s.answerInTurn env call).2
      (s.answerInTurn env call).1 := Session.answers _ h
  refine ⟨(s.answerInTurn env call).1.now, ?_, ?_⟩
  · have hfits := hans.fits
    cases call with
    | claim key =>
      obtain rfl : key = m.val := by simpa [Call.key] using hkey
      exact hfits
    | getStatus key =>
      obtain rfl : key = m.val := by simpa [Call.key] using hkey
      exact hfits
    | _ => exact hfits
  · have hrecord : (s.answerInTurn env call).1.cell m.val =
        call.effect backend (s.answerInTurn env call).1.now (s.cell m.val) := by
      rcases hkey with hkey | hnone
      · exact hans.self m.val hkey
      · rw [hans.other m.val (by simp [hnone])]
        cases call <;> first | rfl | cases hnone
    have hsends : (s.answerInTurn env call).1.sends =
        s.sends + if call.isSend then 1 else 0 := List.countP_cons
    unfold progress Progress.after
    rw [hrecord, hans.handles, hsends]

theorem DoesInTurn.run (h : DoesInTurn backend m env.handle p Q (s.progress m))
    (hsmooth : (p.run (Session.answerInTurn env) s).1.Smooth) :
    Q ((p.run (Session.answerInTurn env) s).1.progress m)
      (p.run (Session.answerInTurn env) s).2.1 (p.run (Session.answerInTurn env) s).2.2 := by
  have hback : ∀ (s : Session backend) (call : Call V),
      (s.answerInTurn env call).1.Smooth → s.Smooth := fun _ _ => Session.Smooth.back
  have hans : ∀ (s : Session backend) (call : Call V),
      (call.key = some m.val ∨ call.key = none) → (s.answerInTurn env call).1.Smooth →
      AnswersInTurn backend env.handle (s.progress m) call (s.answerInTurn env call).2
        ((s.answerInTurn env call).1.progress m) := fun _ _ => Session.answersInTurn
  exact Proc.Ensures.run_along hback hans h hsmooth

theorem processRecord_runInTurn {py : Python} {self : DedupConsumer} {record : ConsumerRecord}
    (hid : extractMessageId py record = .ok (some m.val))
    (hclaim : Cell.Claimable backend.config (s.now + env.pause s.calls) (s.cell m.val))
    (hsmooth : ((self.processRecord py record).run (Session.answerInTurn env) s).1.Smooth) :
    let claimed := (s.answerInTurn env (.claim m.val)).1
    (self.processRecord py record).run (Session.answerInTurn env) s =
        (self.executeAndCommit py record (some m.val)).run (Session.answerInTurn env) claimed ∧
      (claimed.progress m).UnderWork ∧ claimed.handles = s.handles ∧ claimed.sends = s.sends := by
  intro claimed
  have hrun : (self.processRecord py record).run (Session.answerInTurn env) s =
      (match (s.answerInTurn env (.claim m.val)).2 with
        | .ok true => self.executeAndCommit py record (some m.val)
        | .ok false => DedupConsumer.skip record m.val
        | .error exc => Proc.raise exc).run (Session.answerInTurn env) claimed := by
    unfold DedupConsumer.processRecord
    rw [hid]
    change ((Proc.call _).attempt _).run (Session.answerInTurn env) s = _
    rw [Proc.run_call_attempt]
    rcases (s.answerInTurn env (.claim m.val)).2 with e | claimed
    · rfl
    · change Bool at claimed
      cases claimed <;> rfl
  rw [hrun] at hsmooth
  have hback : ∀ (s : Session backend) (call : Call V),
      (s.answerInTurn env call).1.Smooth → s.Smooth := fun _ _ => Session.Smooth.back
  have hclaimed : claimed.Smooth := Proc.run_back hback _ hsmooth
  have hans : Answers (env.after s.handles) s (.claim m.val) _ claimed := Session.answers _ hclaimed
  have hreply : (s.answerInTurn env (.claim m.val)).2 = .ok true :=
    hans.fits.trans (congrArg Except.ok (decide_eq_true hclaim))
  rw [hreply] at hrun
  have hself : claimed.cell m.val = _ := hans.self m.val rfl
  have hnow : claimed.now = s.now + env.pause s.calls := rfl
  rw [hnow, Call.effect, if_pos hclaim] at hself
  exact ⟨hrun, ⟨_, hself, rfl⟩, hans.handles, List.countP_cons⟩

end

/-! ## The number of attempts -/

/-- The number of `handle()` calls of one delivery of `m` that wins its claim, and how it ends. -/
theorem delivery_attempts (py : Python) (self : DedupConsumer) (backend : Backend V R)
    (env : Surroundings V) (record : ConsumerRecord) (s : Session backend) {m : String}
    {payload : Payload} {k : ℕ∞}
    (henv : env.RaisesExceptions) (hk : FirstSuccess env.handle k)
    (hmax : 1 ≤ self.config.maxRetries)
    (hid : extractMessageId py record = .ok (some m))
    (hdec : decodePayload py record = .ok payload)
    (hclaim : Cell.Claimable backend.config (s.now + env.pause s.calls) (s.cell m))
    (hsmooth : (s.deliverInTurn env py self record).2.Smooth) :
    let s' := (s.deliverInTurn env py self record).1
    let report := (s.deliverInTurn env py self record).2
    report.outcome = .ok () ∧
      (report.handles : ℕ∞) =
        (if backend.config.retryFailed then
          min k (min self.config.maxRetries (max backend.config.maxRetries 1)).toNat
        else 1) ∧
      ((∃ result, env.handle (report.handles - 1) = .ok result) →
        s'.status m = some .completed ∧ report.sends = 0 ∧ report.deadLetters = 0) ∧
      ((∃ exc, env.handle (report.handles - 1) = .error exc) →
        (∃ cell, s'.cell m = some cell ∧ cell.status = .failed ∧
          cell.attempts = report.handles) ∧
        report.sends = self.burials ∧ report.deadLetters = 1) := by
  intro s' report
  let start : Session backend := { s with log := [] }
  let id : MessageId := ⟨m, extractMessageId_ne_empty hid⟩
  obtain ⟨hrun, hworking, hzero, hnone⟩ :=
    processRecord_runInTurn (m := id) (s := start) hid hclaim hsmooth
  have hrest : ((self.executeAndCommit py record (some id.val)).run (Session.answerInTurn env)
      (start.answerInTurn env (.claim m)).1).1.Smooth := hrun ▸ hsmooth
  obtain ⟨hret, hattempted⟩ :=
    (executeAndCommit_inTurn henv hmax hdec hworking hzero hnone).run hrest
  rw [← hrun] at hret hattempted
  have hcount := hattempted.count hmax hk
  obtain ⟨n, hhandles, hend⟩ := hattempted
  have hcalls : report.handles = n + 1 := hhandles
  refine ⟨hret, ?_, ?_, ?_⟩
  · rw [← hk.min_limit]
    exact hcount
  · rw [hcalls, Nat.add_sub_cancel]
    rintro ⟨result, hok⟩
    -- The last attempt returned, so the loop ended by `mark_completed`.
    rcases hend with ⟨-, -, ⟨cell, hcell, hdone⟩, hsends, hdlq⟩ | ⟨hspent, -⟩
    · refine ⟨?_, hsends, hdlq⟩
      exact (congrArg (Option.map (·.status)) hcell).trans (congrArg some hdone)
    · obtain ⟨exc, herror⟩ := hspent.failure
      rw [hok] at herror
      simp at herror
  · rw [hcalls, Nat.add_sub_cancel]
    rintro ⟨exc, herror⟩
    -- The last attempt raised, so the message was given up and sent to the DLQ.
    rcases hend with ⟨-, ⟨result, hok⟩, -⟩ | ⟨hspent, hsends, hdlq⟩
    · rw [hok] at herror
      simp at herror
    · obtain ⟨cell, hcell, hstatus, hattempts⟩ := hspent.failed
      exact ⟨⟨cell, hcell, hstatus, hattempts⟩, hsends, hdlq⟩

def failingAlways : Surroundings Unit where
  pause := fun _ => 1
  handle := fun _ => .error handlerError

/-- An orphan of seven attempts, where the store allows two and the consumer three. -/
theorem delivery_attempts_orphan :
    let backend : Backend Unit Unit := .inMemory { maxRetries := 2 }
    let orphan : ProcessingStatus Unit :=
      { messageId := "order-1", status := .processing, attempts := 7, leaseExpiresAt := some 0
        createdAt := 0, updatedAt := 0 }
    let start : Session backend := ⟨0, fun m => if m = "order-1" then some orphan else none, 0, []⟩
    let self : DedupConsumer := ⟨{ maxRetries := 3 }, some "orders.dlq"⟩
    let record : ConsumerRecord :=
      ⟨"orders", 0, 7, none, none, [("X-Message-Id", some (encode "order-1"))]⟩
    let r := start.deliverInTurn failingAlways bareRuntime self record
    r.2.handles = 2 ∧ r.2.sends = 1 ∧ r.2.deadLetters = 1 ∧
      ∃ cell, r.1.cell "order-1" = some cell ∧ cell.status = .failed ∧ cell.attempts = 2 := by
  intro backend orphan start self record r
  have hlog : ∀ x ∈ r.2.log, (x.raised.isNone || x.call.isHandle) = true := by
    decide +kernel
  have henv : failingAlways.RaisesExceptions := by
    intro n exc hraised
    cases hraised
    rfl
  have hk : FirstSuccess failingAlways.handle ⊤ :=
    ⟨ENat.top_ne_zero, fun _ _ => ⟨_, rfl⟩, fun j hj => absurd hj (ENat.natCast_ne_top _)⟩
  have hid : extractMessageId bareRuntime record = .ok (some "order-1") := by
    decide +kernel
  have hdec : decodePayload bareRuntime record = .ok (.json (.obj [])) := rfl
  obtain ⟨-, hcount, -, hfailed⟩ := delivery_attempts bareRuntime self backend failingAlways record
    start henv hk (by decide) hid hdec (by decide +kernel)
    fun x hx => Moment.smooth_of_check (hlog x hx)
  have hhandles : r.2.handles = 2 := by
    change (r.2.handles : ℕ∞) = min ⊤ ((2 : ℕ) : ℕ∞) at hcount
    rw [min_eq_right le_top] at hcount
    exact Nat.cast_injective hcount
  obtain ⟨⟨cell, hcell, hstatus, hattempts⟩, hsends, hdlq⟩ := hfailed ⟨_, rfl⟩
  exact ⟨hhandles, hsends, hdlq, cell, hcell, hstatus, hattempts.trans (congrArg _ hhandles)⟩

end MessageDedup
