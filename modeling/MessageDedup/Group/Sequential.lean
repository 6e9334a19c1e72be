import MessageDedup.Group.Session
import MessageDedup.Group.Replay

/-!
# One record after the other

A single consumer that works off a list of records, and the store that it started empty. Of the
calls only `handle()` fails, and no record expires.
-/

namespace MessageDedup

open Coroutine (Proc)

variable {V R : Type}

/-! ## Running a list of records -/

structure Report (backend : Backend V R) where
  record : ConsumerRecord
  log : List (Moment backend)
  metrics : List Metric
  outcome : Except Exc Unit

namespace Session

variable {backend : Backend V R} (env : Surroundings V) (py : Python) (self : DedupConsumer)

def deliver (record : ConsumerRecord) (s : Session backend) : Session backend × Report backend :=
  let r := (self.processRecord py record).run (answer env) { s with log := [] }
  (r.1, ⟨record, r.1.log, r.2.1, r.2.2⟩)

/-- `run()` on the records that Kafka yields: an exception ends it. -/
def runLoop : List ConsumerRecord → Session backend → Session backend × List (Report backend)
  | [], s => (s, [])
  | record :: records, s =>
    let first := deliver env py self record s
    match first.2.outcome with
    | .error _ => (first.1, [first.2])
    | .ok _ =>
      let rest := runLoop records first.1
      (rest.1, first.2 :: rest.2)

end Session

/-! ## What is said of a delivery -/

namespace Report

variable {backend : Backend V R} (report : Report backend)

def commits : Nat := report.log.countP Moment.isCommit
def Handled : Prop := ∃ x ∈ report.log, x.isHandle = true
def Succeeded : Prop := ∃ x ∈ report.log, x.isSuccess = true

/-- The dead-letter path. -/
def Buried : Prop := ∃ metric ∈ report.metrics, metric.isDlq = true

end Report

/-- The status of `m` in the store. -/
def Session.status {backend : Backend V R} (s : Session backend) (m : String) :
    Option StatusValue :=
  (backend.store.cell s.store s.now m).map (·.status)

/-- Exact deduplication of `records`, which ended in `s` with one report for each. -/
structure DeduplicatedExactly (py : Python) {backend : Backend V R} (records : List ConsumerRecord)
    (s : Session backend) (reports : List (Report backend)) : Prop where
  processed : reports.map (·.record) = records
  committed : ∀ report ∈ reports, report.outcome = .ok () ∧ report.commits = 1
  handled : ∀ earlier report later, reports = earlier ++ report :: later →
    (report.Handled ↔ ∀ m, extractMessageId py report.record = .ok (some m) →
      ∀ other ∈ earlier, extractMessageId py other.record ≠ .ok (some m))
  completed : ∀ report ∈ reports, ∀ m, extractMessageId py report.record = .ok (some m) →
    (∃ other ∈ reports, extractMessageId py other.record = .ok (some m) ∧ other.Succeeded) →
      s.status m = some .completed
  failed : ∀ report ∈ reports, ∀ m, extractMessageId py report.record = .ok (some m) →
    (∀ other ∈ reports, extractMessageId py other.record = .ok (some m) → ¬ other.Succeeded) →
      s.status m = some .failed
  buried : ∀ report ∈ reports, (report.Buried ↔ report.Handled ∧ ¬ report.Succeeded)

/-! ## What the parts of a delivery do -/

section

variable {backend : Backend V R} {self : DedupConsumer} {record : ConsumerRecord} {py : Python}
  {id : Option MessageId} {payload : Payload} {attempts : Int} {env : Surroundings V}
  {s : Session backend}

open DedupConsumer

theorem commit_does :
    Does env (commit : Program V Unit)
      (fun s' ms r => r = .ok () ∧ ms = [] ∧ Between none s s' 1 0 0) s := by
  refine Does.await fun r s' h => ?_
  obtain ⟨_, rfl⟩ := h.fits
  exact ⟨rfl, rfl, h.between nofun⟩

theorem exhausted_does (lastExc : Option Exc) :
    Does env (exhausted py self record lastExc : Program V Unit)
      (fun s' ms r => r = .ok () ∧ ms = [.dlq record.topic] ∧ Between none s s' 1 0 0) s := by
  unfold exhausted sendToDlq
  cases self.dlq with
  | none =>
    apply commit_does.mono
    rintro s' ms r ⟨rfl, rfl, h⟩
    exact ⟨rfl, rfl, h⟩
  | some topic =>
    refine Does.await fun r s₁ h₁ => ?_
    obtain ⟨_, rfl⟩ := h₁.fits
    apply commit_does.mono
    rintro s' ms r ⟨rfl, rfl, h⟩
    exact ⟨rfl, rfl, (h₁.between nofun).trans h⟩

theorem complete_does (result : Option V) (hon : On id s (Cell.WorkedOn attempts)) :
    Does env (complete record (id.map (·.val)) result : Program V Unit)
      (fun s' ms r => r = .ok () ∧ ms = [.processed record.topic] ∧ Between id s s' 1 0 0 ∧
        On id s' (·.status = .completed)) s := by
  cases id with
  | none =>
    refine Does.await fun r s' h => ?_
    obtain ⟨_, rfl⟩ := h.fits
    exact ⟨rfl, rfl, h.between nofun, nofun⟩
  | some m =>
    simp only [complete, Option.map_some, ifMessageId_some]
    refine Does.await fun r s₁ h₁ => ?_
    obtain ⟨_, rfl⟩ := h₁.fits
    have hmarked : On (some m) s₁ (·.status = .completed) := by
      rintro _ ⟨⟩
      obtain ⟨cell, hcell, hp, -⟩ := hon m rfl
      refine ⟨cell.completed, ?_, Cell.completed_of_processing hp⟩
      rw [h₁.self m rfl, hcell]
      rfl
    refine Does.await fun r s' h => ?_
    obtain ⟨_, rfl⟩ := h.fits
    have hmark : Between (some m) s s₁ 0 0 0 := h₁.between fun _ e => e
    have hcommit : Between none s₁ s' 1 0 0 := h.between nofun
    exact ⟨rfl, rfl, hmark.trans hcommit.of_none, hmarked.of_none hcommit⟩

/-- Where the loop stands: before another attempt, or after the last one. -/
def AtTop (config : DeduplicationConfig) (id : Option MessageId) (attempts : Int)
    (s : Session backend) : Prop :=
  (attempts ≤ config.maxRetries ∧ On id s (Cell.WorkedOn attempts)) ∨
    (config.maxRetries < attempts ∧ On id s (Cell.Lost config))

theorem reclaim_does (hlt : attempts < backend.config.maxRetries)
    (hon : On id s (Cell.FailedAt attempts)) :
    Does env (reclaim (id.map (·.val)) : Program V Bool)
      (fun s' ms r => ∃ again, r = .ok again ∧ ms = [] ∧ Between id s s' 0 0 0 ∧
        (again = true → On id s' (Cell.WorkedOn (attempts + 1))) ∧
        (again = false → On id s' (Cell.Lost backend.config))) s := by
  cases id with
  | none => exact ⟨true, rfl, rfl, ⟨fun _ _ => rfl, rfl, rfl, rfl⟩, nofun, nofun⟩
  | some m =>
    simp only [Option.map_some, reclaim_some]
    refine Does.await fun r s' h => ?_
    obtain ⟨cell, hcell, hfailed, rfl⟩ := hon m rfl
    obtain rfl : r = _ := h.fits
    have hself := h.self m rfl
    rw [hcell] at hself
    refine ⟨_, rfl, rfl, h.between fun _ e => e, ?_, ?_⟩
    · intro hclaim
      rw [decide_eq_true_eq, hcell] at hclaim
      rintro _ ⟨⟩
      rw [Call.effect, if_pos hclaim] at hself
      exact ⟨_, hself, rfl, rfl⟩
    · intro hclaim
      rw [decide_eq_false_iff_not, hcell] at hclaim
      rintro _ ⟨⟩
      rw [Call.effect, if_neg hclaim] at hself
      rw [Cell.claimable_failed hfailed] at hclaim
      exact ⟨cell, hself, hfailed, hclaim⟩

theorem backoff_does (hconfig : self.config = backend.config)
    (hle : attempts ≤ backend.config.maxRetries) (hon : On id s (Cell.FailedAt attempts)) :
    Does env (backoff self record (id.map (·.val)) attempts : Program V Bool)
      (fun s' ms r => ∃ again, r = .ok again ∧ ms.any Metric.isDlq = false ∧ Between id s s' 0 0 0 ∧
        (again = true → AtTop backend.config id (attempts + 1) s') ∧
        (again = false → On id s' (Cell.Lost backend.config))) s := by
  unfold backoff
  rw [hconfig]
  split
  · rename_i hlt
    refine Does.await fun r s₁ h₁ => ?_
    obtain ⟨_, rfl⟩ := h₁.fits
    have hslept : Between none s s₁ 0 0 0 := h₁.between nofun
    apply (reclaim_does hlt (hon.of_none hslept)).mono
    rintro s' ms r ⟨again, rfl, rfl, hst, hwon, hlost⟩
    exact ⟨again, rfl, rfl, hslept.of_none.trans hst, fun h => .inl ⟨by omega, hwon h⟩, hlost⟩
  · rename_i hge
    refine ⟨true, rfl, rfl, ⟨fun _ _ => rfl, rfl, rfl, rfl⟩, ?_, nofun⟩
    intro _
    right
    refine ⟨by omega, ?_⟩
    intro m hm
    obtain ⟨cell, hcell, hfailed, rfl⟩ := hon m hm
    refine ⟨cell, hcell, hfailed, ?_⟩
    rintro ⟨-, -, hlt⟩
    exact hge hlt

theorem handleFailed_does {exc : Exc} (hconfig : self.config = backend.config)
    (hle : attempts ≤ backend.config.maxRetries) (hon : On id s (Cell.WorkedOn attempts)) :
    Does env (handleFailed self record (id.map (·.val)) attempts exc : Program V Bool)
      (fun s' ms r => ∃ again, r = .ok again ∧ ms.any Metric.isDlq = false ∧ Between id s s' 0 0 0 ∧
        (again = true → AtTop backend.config id (attempts + 1) s') ∧
        (again = false → On id s' (Cell.Lost backend.config))) s := by
  cases id with
  | none =>
    have hnone : On none s (Cell.FailedAt attempts) := nofun
    apply (backoff_does hconfig hle hnone).mono
    rintro s' ms r ⟨again, rfl, hms, hrest⟩
    exact ⟨again, rfl, hms, hrest⟩
  | some m =>
    simp only [handleFailed, Option.map_some, ifMessageId_some]
    refine Does.await fun r s₁ h₁ => ?_
    obtain ⟨_, rfl⟩ := h₁.fits
    have hmark : Between (some m) s s₁ 0 0 0 := h₁.between fun _ e => e
    have hfailed : On (some m) s₁ (Cell.FailedAt attempts) := by
      rintro _ ⟨⟩
      obtain ⟨cell, hcell, hp, -⟩ := hon m rfl
      refine ⟨cell.markedFailed backend.guarded attempts, ?_, ?_⟩
      · rw [h₁.self m rfl, hcell]
        rfl
      · rw [Cell.markedFailed_of_processing hp]
        exact ⟨rfl, rfl⟩
    apply (backoff_does hconfig hle hfailed).mono
    rintro s' ms r ⟨again, rfl, hms, hst, hrest⟩
    exact ⟨again, rfl, hms, hmark.trans hst, hrest⟩

/-- How a delivery that came to work on its record ends. -/
structure Worked (config : DeduplicationConfig) (id : Option MessageId) (s s' : Session backend)
    (metrics : List Metric) (outcome : Except Exc Unit) (handles successes : Nat) : Prop where
  returned : outcome = .ok ()
  between : Between id s s' 1 handles successes
  outcome : (successes ≠ 0 ∧ metrics.any Metric.isDlq = false ∧ On id s' (·.status = .completed)) ∨
    (successes = 0 ∧ metrics.any Metric.isDlq = true ∧ On id s' (Cell.Lost config))

theorem attemptLoop_does (henv : env.RaisesExceptions) (hconfig : self.config = backend.config)
    (left : Nat) (hleft : left = (backend.config.maxRetries + 1 - attempts).toNat)
    (lastExc : Option Exc)
    (htop : AtTop backend.config id attempts s) :
    Does env (attemptLoop py self record (id.map (·.val)) payload left attempts lastExc :
      Program V Unit) (fun s' ms r => ∃ handles successes,
        (attempts ≤ backend.config.maxRetries → handles ≠ 0) ∧
        Worked backend.config id s s' ms r handles successes) s := by
  induction left generalizing attempts s lastExc with
  | zero =>
    -- No turn is left: the loop has come to its end with a FAILED record.
    rcases htop with ⟨hle, -⟩ | ⟨hlt, hon⟩
    · omega
    · apply (exhausted_does lastExc).mono
      rintro s' ms r ⟨rfl, rfl, hst⟩
      refine ⟨0, 0, fun hle => absurd hlt (by omega), rfl, hst.of_none, .inr ⟨rfl, rfl, ?_⟩⟩
      exact hon.of_none hst
  | succ left ih =>
    rcases htop with ⟨hle, hon⟩ | ⟨hlt, -⟩
    · refine Does.await fun r s₁ h₁ => ?_
      cases r with
      | ok result =>
        have hhandle : Between none s s₁ 0 1 1 := h₁.between nofun
        have hon₁ := hon.of_none hhandle
        apply (complete_does result hon₁).mono
        rintro s' ms r ⟨rfl, rfl, hst, hdone⟩
        exact ⟨1, 1, nofun, rfl, hhandle.of_none.trans hst, .inl ⟨nofun, rfl, hdone⟩⟩
      | error exc =>
        obtain ⟨n, hraised⟩ := h₁.fits
        have hexc := henv n exc hraised.symm
        have hhandle : Between none s s₁ 0 1 0 := h₁.between nofun
        change Does env (if exc.isException then _ else _) _ _
        rw [if_pos hexc]
        apply (handleFailed_does hconfig hle (hon.of_none hhandle)).bind
        · rintro s₂ ms again ⟨_, ⟨⟩, hms, hst, hwon, hlost⟩
          have hst₂ : Between id s s₂ 0 1 0 := hhandle.of_none.trans hst
          cases again with
          | true =>
            apply (ih (by omega) (some exc) (hwon rfl)).mono
            rintro s' ms' r ⟨handles, successes, -, rfl, hst', hend⟩
            have hst₃ := hst₂.trans hst'
            rw [Nat.zero_add successes] at hst₃
            refine ⟨1 + handles, successes, fun _ => by omega, rfl, hst₃, ?_⟩
            rwa [List.any_append, hms, Bool.false_or]
          | false =>
            apply (exhausted_does (some exc)).mono
            rintro s' ms' r ⟨rfl, rfl, hst'⟩
            refine ⟨1, 0, nofun, rfl, hst₂.trans hst'.of_none, .inr ⟨rfl, ?_, ?_⟩⟩
            · rw [List.any_append, hms]
              rfl
            · exact (hlost rfl).of_none hst'
        · rintro _ _ _ ⟨_, ⟨⟩, _⟩
    · omega

theorem executeAndCommit_does (henv : env.RaisesExceptions)
    (hconfig : self.config = backend.config) (hmax : 1 ≤ backend.config.maxRetries)
    (hdec : decodePayload py record = .ok payload)
    (hon : On id s (Cell.WorkedOn 1)) :
    Does env (executeAndCommit py self record (id.map (·.val)) : Program V Unit)
      (fun s' ms r => ∃ handles successes, handles ≠ 0 ∧
        Worked backend.config id s s' ms r handles successes) s := by
  unfold executeAndCommit whileAttempts
  rw [hdec, hconfig]
  apply (attemptLoop_does henv hconfig _ rfl none (.inl ⟨hmax, hon⟩)).mono
  rintro s' ms r ⟨handles, successes, hcalled, hend⟩
  exact ⟨handles, successes, hcalled hmax, hend⟩

theorem skip_does (m : String) :
    Does env (skip record m : Program V Unit)
      (fun s' ms r => r = .ok () ∧ ms.any Metric.isDlq = false ∧ Between none s s' 1 0 0) s := by
  refine Does.await fun r s₁ h₁ => ?_
  obtain ⟨existing, rfl, -⟩ := h₁.fits
  have hread : Between none s s₁ 0 0 0 := h₁.keeps fun m' => h₁.self m'
  change Does env (if existing.any (·.status = .processing) then _ else _) _ _
  split
  all_goals
    apply commit_does.mono
    rintro s' ms r ⟨rfl, rfl, h⟩
    exact ⟨rfl, rfl, hread.trans h⟩

/-- No claim of the record is ever won again. -/
def Cell.Closed (config : DeduplicationConfig) (cell : Cell) : Prop :=
  cell.status = .completed ∨ cell.Lost config

theorem Cell.Closed.not_claimable {config : DeduplicationConfig} {cell : Cell}
    (h : cell.Closed config) (now : Int) : ¬ Claimable config now (some cell) := by
  rcases h with hdone | ⟨hfailed, hretry⟩
  · exact not_claimable_completed hdone
  · rwa [claimable_failed hfailed]

theorem processRecord_new (henv : env.RaisesExceptions) (hconfig : self.config = backend.config)
    (hmax : 1 ≤ backend.config.maxRetries) (hdec : decodePayload py record = .ok payload)
    (hid : extractMessageId py record = .ok (id.map (·.val)))
    (hnew : ∀ m ∈ id, s.cell m.val = none) :
    Does env (processRecord py self record : Program V Unit)
      (fun s' ms r => ∃ handles successes, handles ≠ 0 ∧
        Worked backend.config id s s' ms r handles successes) s := by
  unfold processRecord
  rw [hid]
  cases id with
  | none =>
    have hnone : On none s (Cell.WorkedOn 1) := nofun
    apply (executeAndCommit_does henv hconfig hmax hdec hnone).mono
    rintro s' ms r ⟨handles, successes, hcalled, hret, hst, hend⟩
    exact ⟨handles, successes, hcalled, hret, hst, hend⟩
  | some m =>
    refine Does.await fun r s₁ h₁ => ?_
    obtain rfl : r = _ := h₁.fits
    have hself := h₁.self m rfl
    rw [hnew m rfl] at hself
    have hclaim : Between (some m) s s₁ 0 0 0 := h₁.between fun _ e => e
    have hon : On (some m) s₁ (Cell.WorkedOn 1) := by
      rintro _ ⟨⟩
      exact ⟨_, hself, rfl, rfl⟩
    change Does env (if decide (Cell.Claimable backend.config s₁.now (s.cell m)) then _
      else _) _ _
    rw [hnew m rfl, if_pos (by rfl)]
    apply (executeAndCommit_does henv hconfig hmax hdec hon).mono
    rintro s' ms r ⟨handles, successes, hcalled, hret, hst, hend⟩
    have hst₁ := hclaim.trans hst
    rw [Nat.zero_add, Nat.zero_add, Nat.zero_add] at hst₁
    exact ⟨handles, successes, hcalled, hret, hst₁, hend⟩

theorem processRecord_duplicate {m : String} {cell : Cell}
    (hid : extractMessageId py record = .ok (some m)) (hcell : s.cell m = some cell)
    (hclosed : cell.Closed backend.config) :
    Does env (processRecord py self record : Program V Unit)
      (fun s' ms r => r = .ok () ∧ ms.any Metric.isDlq = false ∧ Between none s s' 1 0 0) s := by
  unfold processRecord
  rw [hid]
  refine Does.await fun r s₁ h₁ => ?_
  obtain rfl : r = _ := h₁.fits
  have hclaim := hclosed.not_claimable s₁.now
  have hself := h₁.self m rfl
  rw [hcell, Call.effect, if_neg hclaim] at hself
  have hrefused : Between none s s₁ 0 0 0 := by
    apply h₁.keeps
    rintro _ ⟨⟩
    exact hself.trans hcell.symm
  change Does env (if decide (Cell.Claimable backend.config s₁.now (s.cell m)) then _
    else _) _ _
  rw [hcell, if_neg (by simp [hclaim])]
  apply (skip_does m).mono
  rintro s' ms r ⟨rfl, hms, hst⟩
  exact ⟨rfl, hms, hrefused.trans hst⟩

end

/-! ## One delivery -/

namespace Report

variable {backend : Backend V R}

def Smooth (report : Report backend) : Prop := ∀ x ∈ report.log, x.Smooth

theorem Succeeded.handled {report : Report backend} (h : report.Succeeded) : report.Handled := by
  obtain ⟨x, hx, hsuccess⟩ := h
  unfold Moment.isSuccess at hsuccess
  rw [Bool.and_eq_true] at hsuccess
  exact ⟨x, hx, hsuccess.1⟩

end Report

section

variable {backend : Backend V R} {self : DedupConsumer} {record : ConsumerRecord} {py : Python}
  {env : Surroundings V} {s : Session backend}

namespace Session

theorem deliver_does {Q : Session backend → List Metric → Except Exc Unit → Prop}
    (h : Does env (self.processRecord py record : Program V Unit) Q { s with log := [] })
    (hsmooth : (s.deliver env py self record).2.Smooth) :
    Q (s.deliver env py self record).1 (s.deliver env py self record).2.metrics
      (s.deliver env py self record).2.outcome :=
  h.run hsmooth

theorem handled_iff : (s.deliver env py self record).2.Handled ↔
    (s.deliver env py self record).1.handles ≠ 0 := by
  rw [← Nat.pos_iff_ne_zero]
  exact List.countP_pos_iff.symm

theorem succeeded_iff : (s.deliver env py self record).2.Succeeded ↔
    (s.deliver env py self record).1.successes ≠ 0 := by
  rw [← Nat.pos_iff_ne_zero]
  exact List.countP_pos_iff.symm

theorem buried_iff : (s.deliver env py self record).2.Buried ↔
    (s.deliver env py self record).2.metrics.any Metric.isDlq = true :=
  List.any_eq_true.symm

end Session

open Session

/-- What one delivery of a record with this id comes to. -/
structure Delivered (config : DeduplicationConfig) (id : Option MessageId) (s s' : Session backend)
    (report : Report backend) : Prop where
  committed : report.outcome = .ok () ∧ report.commits = 1
  handled : report.Handled ↔ ∀ m ∈ id, s.cell m.val = none
  other : ∀ m, id.map (·.val) ≠ some m → s'.cell m = s.cell m
  skipped : ¬ report.Handled → ¬ report.Buried ∧ ∀ m, s'.cell m = s.cell m
  worked : report.Handled →
    (report.Succeeded ∧ ¬ report.Buried ∧ On id s' (·.status = .completed)) ∨
      (¬ report.Succeeded ∧ report.Buried ∧ On id s' (Cell.Lost config))

theorem deliver_new {id : Option MessageId} {payload : Payload} (henv : env.RaisesExceptions)
    (hconfig : self.config = backend.config) (hmax : 1 ≤ backend.config.maxRetries)
    (hdec : decodePayload py record = .ok payload)
    (hid : extractMessageId py record = .ok (id.map (·.val)))
    (hnew : ∀ m ∈ id, s.cell m.val = none)
    (hsmooth : (s.deliver env py self record).2.Smooth) :
    Delivered backend.config id s (s.deliver env py self record).1
      (s.deliver env py self record).2 := by
  obtain ⟨handles, successes, hcalled, hret, hst, hend⟩ :=
    deliver_does (processRecord_new henv hconfig hmax hdec hid hnew) hsmooth
  have hhandles : (s.deliver env py self record).1.handles = handles :=
    hst.handles.trans (Nat.zero_add _)
  have hsuccesses : (s.deliver env py self record).1.successes = successes :=
    hst.successes.trans (Nat.zero_add _)
  have hhandled : (s.deliver env py self record).2.Handled := by
    rwa [handled_iff, hhandles]
  refine ⟨⟨hret, hst.commits⟩, iff_of_true hhandled hnew, hst.other, absurd hhandled, ?_⟩
  intro _
  rw [succeeded_iff, buried_iff, hsuccesses]
  rcases hend with ⟨hne, hdlq, hon⟩ | ⟨rfl, hdlq, hon⟩
  · rw [hdlq]
    exact .inl ⟨hne, nofun, hon⟩
  · rw [hdlq]
    exact .inr ⟨fun h => h rfl, rfl, hon⟩

theorem deliver_duplicate {m : MessageId} {cell : Cell}
    (hid : extractMessageId py record = .ok (some m.val)) (hcell : s.cell m.val = some cell)
    (hclosed : cell.Closed backend.config) (hsmooth : (s.deliver env py self record).2.Smooth) :
    Delivered backend.config (some m) s (s.deliver env py self record).1
      (s.deliver env py self record).2 := by
  obtain ⟨hret, hdlq, hst⟩ :=
    deliver_does (processRecord_duplicate hid hcell hclosed) hsmooth
  have hhandled : ¬ (s.deliver env py self record).2.Handled := by
    rw [handled_iff, not_not]
    exact hst.handles
  refine ⟨⟨hret, hst.commits⟩, iff_of_false hhandled ?_, fun m _ => hst.other m nofun, ?_,
    fun h => absurd h hhandled⟩
  · intro hnew
    rw [hnew m rfl] at hcell
    simp at hcell
  · intro _
    rw [buried_iff, hdlq]
    exact ⟨nofun, fun m => hst.other m nofun⟩

end

/-! ## A list of records -/

section

variable {backend : Backend V R} {py : Python} {reports : List (Report backend)}
  {report : Report backend} {s s' : Session backend} {config : DeduplicationConfig}

def Report.Is (py : Python) (report : Report backend) (m : String) : Prop :=
  extractMessageId py report.record = .ok (some m)

/-- Whether the records so far have one with this id. -/
def SeenId (py : Python) (reports : List (Report backend)) (m : String) : Prop :=
  ∃ report ∈ reports, report.Is py m

/-- Whether `handle()` has succeeded for one of them. -/
def DoneId (py : Python) (reports : List (Report backend)) (m : String) : Prop :=
  ∃ report ∈ reports, report.Is py m ∧ report.Succeeded

theorem Report.is_iff {id : Option MessageId} {m : String}
    (hid : extractMessageId py report.record = .ok (id.map (·.val))) :
    report.Is py m ↔ id.map (·.val) = some m := by
  unfold Report.Is
  rw [hid, Except.ok.injEq]

theorem seen_append {m : String} :
    SeenId py (reports ++ [report]) m ↔ SeenId py reports m ∨ report.Is py m := by
  simp [SeenId, or_and_right, exists_or]

theorem done_append {m : String} :
    DoneId py (reports ++ [report]) m ↔
      DoneId py reports m ∨ (report.Is py m ∧ report.Succeeded) := by
  simp [DoneId, or_and_right, exists_or]

/-- After some records, each id that was seen is closed, as its `handle()` calls went. -/
structure Deduplicated (py : Python) (config : DeduplicationConfig)
    (reports : List (Report backend)) (s : Session backend) : Prop where
  committed : ∀ report ∈ reports, report.outcome = .ok () ∧ report.commits = 1
  handled : ∀ earlier report later, reports = earlier ++ report :: later →
    (report.Handled ↔ ∀ m, report.Is py m → ¬ SeenId py earlier m)
  buried : ∀ report ∈ reports, (report.Buried ↔ report.Handled ∧ ¬ report.Succeeded)
  fresh : ∀ m, ¬ SeenId py reports m → s.cell m = none
  closed : ∀ m, SeenId py reports m → ∃ cell, s.cell m = some cell ∧
    ((DoneId py reports m ∧ cell.status = .completed) ∨
      (¬ DoneId py reports m ∧ cell.Lost config))

theorem Delivered.buried {id : Option MessageId} (h : Delivered config id s s' report) :
    report.Buried ↔ report.Handled ∧ ¬ report.Succeeded := by
  by_cases hhandled : report.Handled
  · rcases h.worked hhandled with ⟨hsuccess, hdlq, -⟩ | ⟨hsuccess, hdlq, -⟩
    · exact iff_of_false hdlq fun e => e.2 hsuccess
    · exact iff_of_true hdlq ⟨hhandled, hsuccess⟩
  · exact iff_of_false (h.skipped hhandled).1 fun e => hhandled e.1

namespace Deduplicated

theorem start (hempty : ∀ m, s.cell m = none) : Deduplicated py config [] s where
  committed := nofun
  handled := by
    intro earlier report later h
    cases earlier <;> cases h
  buried := nofun
  fresh := fun m _ => hempty m
  closed := by
    rintro m ⟨report, hmem, -⟩
    simp at hmem

theorem known (h : Deduplicated py config reports s) {m : String} :
    s.cell m = none ↔ ¬ SeenId py reports m := by
  constructor
  · intro hnone hseen
    obtain ⟨cell, hcell, -⟩ := h.closed m hseen
    rw [hnone] at hcell
    simp at hcell
  · exact h.fresh m

theorem handled_iff (h : Deduplicated py config reports s) {id : Option MessageId}
    (hid : extractMessageId py report.record = .ok (id.map (·.val)))
    (hd : Delivered config id s s' report) :
    report.Handled ↔ ∀ m, report.Is py m → ¬ SeenId py reports m := by
  rw [hd.handled]
  constructor
  · intro hnone m hm
    obtain ⟨m', hm', rfl⟩ := Option.map_eq_some_iff.mp ((Report.is_iff hid).mp hm)
    exact h.known.mp (hnone m' hm')
  · intro hunseen m hm
    exact h.fresh m.val (hunseen m.val ((Report.is_iff hid).mpr (by rw [hm]; rfl)))

theorem closed_append (h : Deduplicated py config reports s) {id : Option MessageId}
    (hid : extractMessageId py report.record = .ok (id.map (·.val)))
    (hd : Delivered config id s s' report) (m : String) (hm : SeenId py (reports ++ [report]) m) :
    ∃ cell, s'.cell m = some cell ∧
      ((DoneId py (reports ++ [report]) m ∧ cell.status = .completed) ∨
        (¬ DoneId py (reports ++ [report]) m ∧ cell.Lost config)) := by
  have hnew := h.handled_iff hid hd
  rw [done_append]
  have hold : SeenId py reports m → s'.cell m = s.cell m → ¬ (report.Is py m ∧ report.Succeeded) →
      ∃ cell, s'.cell m = some cell ∧
        (((DoneId py reports m ∨ report.Is py m ∧ report.Succeeded) ∧ cell.status = .completed) ∨
          (¬ (DoneId py reports m ∨ report.Is py m ∧ report.Succeeded) ∧ cell.Lost config)) := by
    intro hseen hsame hfailed
    rw [hsame, or_iff_left hfailed]
    exact h.closed m hseen
  by_cases hself : report.Is py m
  · obtain ⟨m', rfl, rfl⟩ := Option.map_eq_some_iff.mp ((Report.is_iff hid).mp hself)
    -- The record is handled just if no earlier one had its id.
    by_cases hhandled : report.Handled
    · have hundone : ¬ DoneId py reports m'.val := by
        rintro ⟨other, hmem, hother, -⟩
        exact hnew.mp hhandled _ hself ⟨other, hmem, hother⟩
      rcases hd.worked hhandled with ⟨hsuccess, -, hon⟩ | ⟨hsuccess, -, hon⟩
      · obtain ⟨cell, hcell, hdone⟩ := hon m' rfl
        exact ⟨cell, hcell, .inl ⟨.inr ⟨hself, hsuccess⟩, hdone⟩⟩
      · obtain ⟨cell, hcell, hlost⟩ := hon m' rfl
        refine ⟨cell, hcell, .inr ⟨?_, hlost⟩⟩
        rintro (hdone | ⟨-, hs⟩)
        · exact hundone hdone
        · exact hsuccess hs
    · refine hold ?_ ((hd.skipped hhandled).2 _) fun e => hhandled e.2.handled
      by_contra hunseen
      apply hhandled
      rw [hnew]
      intro m'' hm''
      obtain rfl := Option.some.inj ((Report.is_iff hid).mp hm'')
      exact hunseen
  · refine hold ?_ (hd.other m fun e => hself ((Report.is_iff hid).mpr e)) fun e => hself e.1
    exact (seen_append.mp hm).resolve_right hself

theorem append (h : Deduplicated py config reports s) {id : Option MessageId}
    (hid : extractMessageId py report.record = .ok (id.map (·.val)))
    (hd : Delivered config id s s' report) :
    Deduplicated py config (reports ++ [report]) s' where
  committed := List.forall_mem_append.mpr ⟨h.committed, List.forall_mem_singleton.mpr hd.committed⟩
  handled := by
    intro earlier report' later heq
    rcases List.eq_nil_or_concat later with rfl | ⟨rest, last, rfl⟩
    · obtain ⟨rfl, hlast⟩ := List.append_inj' heq rfl
      obtain rfl := List.head_eq_of_cons_eq hlast
      exact h.handled_iff hid hd
    · rw [List.concat_eq_append, ← List.cons_append, ← List.append_assoc] at heq
      obtain ⟨hreports, -⟩ := List.append_inj' heq rfl
      exact h.handled earlier report' rest hreports
  buried := List.forall_mem_append.mpr ⟨h.buried, List.forall_mem_singleton.mpr hd.buried⟩
  fresh := by
    intro m hm
    rw [seen_append, not_or] at hm
    rw [hd.other m fun e => hm.2 ((Report.is_iff hid).mpr e)]
    exact h.fresh m hm.1
  closed := h.closed_append hid hd

theorem exactly (h : Deduplicated py config reports s) :
    DeduplicatedExactly py (reports.map (·.record)) s reports where
  processed := rfl
  committed := h.committed
  handled := by
    intro earlier report later heq
    rw [h.handled earlier report later heq]
    constructor
    · intro hunseen m hm other hmem hother
      exact hunseen m hm ⟨other, hmem, hother⟩
    · rintro hnew m hm ⟨other, hmem, hother⟩
      exact hnew m hm other hmem hother
  completed := by
    intro report hmem m hm hdone
    obtain ⟨cell, hcell, ⟨-, hstatus⟩ | ⟨hundone, -⟩⟩ := h.closed m ⟨report, hmem, hm⟩
    · exact (congrArg (Option.map (·.status)) hcell).trans (congrArg some hstatus)
    · exact absurd hdone hundone
  failed := by
    intro report hmem m hm hundone
    obtain ⟨cell, hcell, ⟨⟨other, hother, hsame, hs⟩, -⟩ | ⟨-, hfailed, -⟩⟩ :=
      h.closed m ⟨report, hmem, hm⟩
    · exact absurd hs (hundone other hother hsame)
    · exact (congrArg (Option.map (·.status)) hcell).trans (congrArg some hfailed)
  buried := h.buried

end Deduplicated

theorem exists_messageId {record : ConsumerRecord} {id : Option String}
    (h : extractMessageId py record = .ok id) :
    ∃ id : Option MessageId, extractMessageId py record = .ok (id.map (·.val)) := by
  cases id with
  | none => exact ⟨none, h⟩
  | some m => exact ⟨some ⟨m, extractMessageId_ne_empty h⟩, h⟩

variable {self : DedupConsumer} {env : Surroundings V} {record : ConsumerRecord}
  {records : List ConsumerRecord}

theorem Deduplicated.deliver (h : Deduplicated py backend.config reports s)
    (henv : env.RaisesExceptions) (hconfig : self.config = backend.config)
    (hmax : 1 ≤ backend.config.maxRetries)
    {id : Option MessageId} {payload : Payload}
    (hid : extractMessageId py record = .ok (id.map (·.val)))
    (hdec : decodePayload py record = .ok payload)
    (hsmooth : (s.deliver env py self record).2.Smooth) :
    Delivered backend.config id s (s.deliver env py self record).1
      (s.deliver env py self record).2 := by
  cases id with
  | none => exact deliver_new henv hconfig hmax hdec hid nofun hsmooth
  | some m =>
    cases hcell : s.cell m.val with
    | none =>
      apply deliver_new henv hconfig hmax hdec hid _ hsmooth
      rintro _ ⟨⟩
      exact hcell
    | some cell =>
      have hseen : SeenId py reports m.val := by
        by_contra hunseen
        rw [h.fresh m.val hunseen] at hcell
        simp at hcell
      obtain ⟨cell', hcell', hclosed⟩ := h.closed m.val hseen
      rw [hcell] at hcell'
      obtain rfl := Option.some.inj hcell'
      exact deliver_duplicate hid hcell (hclosed.imp (·.2) (·.2)) hsmooth

theorem Session.runLoop_cons (h : (s.deliver env py self record).2.outcome = .ok ()) :
    s.runLoop env py self (record :: records) =
      (((s.deliver env py self record).1.runLoop env py self records).1,
        (s.deliver env py self record).2 ::
          ((s.deliver env py self record).1.runLoop env py self records).2) := by
  rw [Session.runLoop, h]

theorem Session.mem_runLoop :
    (s.deliver env py self record).2 ∈ (s.runLoop env py self (record :: records)).2 := by
  unfold Session.runLoop
  simp only
  split <;> exact List.mem_cons_self

/-- The run rule: each further delivery keeps what holds of the records so far. -/
theorem Deduplicated.runLoop (h : Deduplicated py backend.config reports s)
    (henv : env.RaisesExceptions) (hconfig : self.config = backend.config)
    (hmax : 1 ≤ backend.config.maxRetries)
    (hrecords : ∀ record ∈ records, (∃ id, extractMessageId py record = .ok id) ∧
      ∃ payload, decodePayload py record = .ok payload)
    (hsmooth : ∀ report ∈ (s.runLoop env py self records).2, report.Smooth) :
    (s.runLoop env py self records).2.map (·.record) = records ∧
      Deduplicated py backend.config (reports ++ (s.runLoop env py self records).2)
        (s.runLoop env py self records).1 := by
  induction records generalizing s reports with
  | nil =>
    refine ⟨rfl, ?_⟩
    rw [Session.runLoop, List.append_nil]
    exact h
  | cons record records ih =>
    obtain ⟨⟨⟨id, hid⟩, payload, hdec⟩, hrest⟩ := List.forall_mem_cons.mp hrecords
    obtain ⟨id, hid⟩ := exists_messageId hid
    have hd := h.deliver henv hconfig hmax hid hdec (hsmooth _ Session.mem_runLoop)
    rw [Session.runLoop_cons hd.committed.1] at hsmooth ⊢
    obtain ⟨hprocessed, hrun⟩ := ih (h.append hid hd) hrest (List.forall_mem_cons.mp hsmooth).2
    rw [List.append_assoc] at hrun
    exact ⟨congrArg (record :: ·) hprocessed, hrun⟩

end

/-- Sequential deduplication is exact: each record is committed once, `handle()` is called for the
first record of an id and for each record without one, an id ends COMPLETED if a call succeeded and
FAILED if none did, and exactly the records that failed take the dead-letter path. -/
theorem sequential_exact (py : Python) (self : DedupConsumer) (backend : Backend V R)
    (env : Surroundings V) (now : Int) (records : List ConsumerRecord)
    (henv : env.RaisesExceptions) (hconfig : self.config = backend.config)
    (hmax : 1 ≤ backend.config.maxRetries)
    (hrecords : ∀ record ∈ records, (∃ id, extractMessageId py record = .ok id) ∧
      ∃ payload, decodePayload py record = .ok payload)
    (hsmooth : ∀ report ∈ (Session.runLoop env py self records ⟨now, backend.empty, 0, []⟩).2,
      report.Smooth) :
    DeduplicatedExactly py records
      (Session.runLoop env py self records ⟨now, backend.empty, 0, []⟩).1
      (Session.runLoop env py self records ⟨now, backend.empty, 0, []⟩).2 := by
  have hempty : ∀ m, Session.cell ⟨now, backend.empty, 0, []⟩ m = none := by
    intro m
    cases backend with
    | inMemory config => rfl
    | redis config codec => rfl
  obtain ⟨hprocessed, h⟩ :=
    (Deduplicated.start hempty).runLoop henv hconfig hmax hrecords hsmooth
  have hexact := h.exactly
  rwa [List.nil_append, hprocessed] at hexact

/-- A record that fails once, one without an id, a duplicate of the first, one that fails twice, and
its duplicate. -/
def mixedRecords : List ConsumerRecord :=
  [some "order-1", none, some "order-1", some "order-2", some "order-2"].map fun id =>
    ⟨"orders", 0, 0, none, none, id.toList.map fun m => ("X-Message-Id", some (encode m))⟩

def mixedOutcomes : Surroundings Unit where
  pause := fun n => n
  handle := fun n => if n ∈ [1, 14, 18] then .error handlerError else .ok none

/-- One id ends COMPLETED and one FAILED. -/
theorem sequential_exact_mixed :
    let config : DeduplicationConfig := { maxRetries := 2 }
    let backend : Backend Unit Unit := .inMemory config
    let start : Session backend := ⟨0, backend.empty, 0, []⟩
    let r := start.runLoop mixedOutcomes bareRuntime ⟨config, some "orders.dlq"⟩ mixedRecords
    r.1.status "order-1" = some .completed ∧ r.1.status "order-2" = some .failed ∧
      DeduplicatedExactly bareRuntime mixedRecords r.1 r.2 := by
  intro config backend start r
  have hstatus : r.1.status "order-1" = some .completed ∧
      r.1.status "order-2" = some .failed := by
    decide +kernel
  have hids : ∀ record ∈ mixedRecords,
      (extractMessageId bareRuntime record).toOption.isSome = true ∧
        (decodePayload bareRuntime record).toOption.isSome = true := by
    decide +kernel
  have hlog : ∀ report ∈ r.2, ∀ x ∈ report.log,
      (x.raised.isNone || x.call.isHandle) = true := by
    decide +kernel
  have hsome : ∀ {A : Type} {e : Except Exc A}, e.toOption.isSome = true → ∃ a, e = .ok a := by
    rintro A (exc | a) h
    · cases h
    · exact ⟨a, rfl⟩
  have hmax : (1 : Int) ≤ 2 := by decide
  refine ⟨hstatus.1, hstatus.2, ?_⟩
  have henv : mixedOutcomes.RaisesExceptions := by
    intro n exc hraised
    simp only [mixedOutcomes] at hraised
    split at hraised <;> cases hraised
    rfl
  apply sequential_exact bareRuntime _ backend mixedOutcomes 0 mixedRecords henv rfl hmax
  · intro record hmem
    obtain ⟨hid, hdec⟩ := hids record hmem
    exact ⟨hsome hid, hsome hdec⟩
  · intro report hmem x hx
    exact Moment.smooth_of_check (hlog report hmem x hx)

end MessageDedup
