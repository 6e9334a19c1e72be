import MessageDedup.Group.Session
import MessageDedup.Guard.Machine

/-!
# Guarded blocks and the retry limit

One guarded block after another on the same key, and all of them raise. Each failure puts the
attempts of the record back to 1, so the limit is never reached unless it is 1.
-/

namespace MessageDedup

open Coroutine (Proc)

variable {V R : Type}

/-! ## The statement -/

/-- The session after guarded blocks on `payloads`, whatever they raise. -/
def Session.useAll {backend : Backend V R} (env : Surroundings V) (key : String)
    (payloads : List Payload) (s : Session backend) : Session backend :=
  payloads.foldl (fun s payload =>
    ((IdempotencyGuard.withGuard key payload).run (Session.answer env) s).1) s

/-- No more blocks were entered than the limit allows, and the record counts them. -/
structure Session.LimitKept {backend : Backend V R} (key : String) (s : Session backend) :
    Prop where
  most : (s.handles : Int) ≤ backend.config.maxRetries
  counted : (s.cell key).elim 0 (·.attempts) = s.handles

/-! ## One block -/

section

variable {backend : Backend V R} {env : Surroundings V} {s : Session backend} {key : String}
  {payload : Payload}

theorem BlockPc.does {pc : BlockPc V}
    {Q : Session backend → List Metric → Except Exc (Option V) → Prop}
    (h : ∀ r s', Answers env s (pc.callOf key payload) r s' →
      Does env ((pc.resume key payload r).rest key) Q s') :
    Does env (pc.rest key payload) Q s := by
  rw [rest_eq]
  exact Does.await h

/-- FAILED, with the attempts that `__aexit__` sets. -/
def Cell.failedOnce : Cell := ⟨.failed, 1, none⟩

/-- The record after a block that raised, and one more entry. -/
def EndsFailed (key : String) (s : Session backend) (entries : Nat) (s' : Session backend) : Prop :=
  s'.cell key = some Cell.failedOnce ∧ s'.handles = s.handles + entries

theorem BlockPc.markFailed_does {exc : Exc} {cell : Cell} (hcell : s.cell key = some cell)
    (hp : cell.status = .processing) :
    Does env (rest key payload (.markFailed exc)) (fun s' _ _ => EndsFailed key s 0 s') s := by
  apply BlockPc.does
  intro r s' h
  obtain ⟨_, rfl⟩ := h.fits
  refine ⟨?_, h.handles⟩
  rw [h.self key rfl, hcell]
  exact congrArg some (Cell.markedFailed_of_processing hp)

theorem BlockPc.body_does (henv : ∀ n, ∃ exc, env.handle n = .error exc) {cell : Cell}
    (hcell : s.cell key = some cell) (hp : cell.status = .processing) :
    Does env (rest key payload .body) (fun s' _ _ => EndsFailed key s 1 s') s := by
  apply BlockPc.does
  intro r s₁ h
  obtain ⟨n, hn⟩ := h.fits
  obtain ⟨exc, hexc⟩ := henv n
  obtain rfl : r = .error exc := hn.trans hexc
  have hcell₁ : s₁.cell key = some cell := (h.other key nofun).trans hcell
  have hfails : Does env (rest key payload (.markFailed exc)) (fun s' _ _ => EndsFailed key s₁ 0 s')
      s₁ := markFailed_does hcell₁ hp
  apply hfails.mono
  rintro s' - - ⟨hfailed, hhandles⟩
  exact ⟨hfailed, by rw [hhandles, h.handles]; rfl⟩

theorem BlockPc.claim_does (henv : ∀ n, ∃ exc, env.handle n = .error exc)
    (hclaim : ∀ now, Cell.Claimable backend.config now (s.cell key)) :
    Does env (rest key payload .claim) (fun s' _ _ => EndsFailed key s 1 s') s := by
  apply BlockPc.does
  intro r s₁ h
  obtain rfl : r = _ := h.fits
  have hcell₁ : s₁.cell key = some (Cell.claimed (backend.leaseUntil s₁.now) (s.cell key)) := by
    rw [h.self key rfl]
    exact if_pos (hclaim _)
  change Does env ((afterClaim payload (decide _)).rest key) _ _
  rw [decide_eq_true (hclaim _)]
  apply (body_does henv hcell₁ rfl).mono
  rintro s' - - ⟨hfailed, hhandles⟩
  exact ⟨hfailed, by rw [hhandles, h.handles]; rfl⟩

theorem BlockPc.claim_refused_does
    (hclaim : ∀ now, ¬ Cell.Claimable backend.config now (s.cell key)) :
    Does env (rest key payload .claim)
      (fun s' _ _ => s'.cell key = s.cell key ∧ s'.handles = s.handles) s := by
  apply BlockPc.does
  intro r s₁ h
  obtain rfl : r = _ := h.fits
  change Does env ((afterClaim payload (decide _)).rest key) _ _
  rw [decide_eq_false (hclaim _)]
  refine ⟨?_, h.handles⟩
  rw [h.self key rfl]
  exact if_neg (hclaim _)

theorem completedRecord_eq_none {existing : Option (ProcessingStatus V)}
    (h : ∀ cell ∈ existing.map (·.cell), cell.status ≠ .completed) :
    completedRecord existing = none := by
  unfold completedRecord
  rw [Option.filter_eq_none_iff]
  intro record hrecord
  exact fun hdone => h record.cell (Option.mem_map_of_mem _ hrecord) (of_decide_eq_true hdone)

theorem BlockPc.withGuard_does (hstatus : ∀ cell ∈ s.cell key, cell.status ≠ .completed)
    {Q : Session backend → List Metric → Except Exc (Option V) → Prop}
    (h : ∀ s₁ : Session backend, s₁.cell key = s.cell key → s₁.handles = s.handles →
      Does env (rest key payload .claim) Q s₁) :
    Does env (IdempotencyGuard.withGuard key payload) Q s := by
  change Does env (rest key payload .getStatus) Q s
  apply BlockPc.does
  intro r s₁ h₁
  obtain ⟨existing, rfl, hexisting⟩ := h₁.fits
  have hnone : completedRecord existing = none := by
    apply completedRecord_eq_none
    rw [hexisting]
    exact hstatus
  change Does env ((afterStatus payload existing).rest key) _ _
  unfold afterStatus
  rw [hnone]
  exact h s₁ (h₁.self key rfl) h₁.handles

/-! ## A sequence of blocks -/

theorem Session.Smooth.of_useAll {payloads : List Payload}
    (h : (s.useAll env key payloads).Smooth) :
    s.Smooth := by
  induction payloads generalizing s with
  | nil => exact h
  | cons payload payloads ih => exact (ih h).of_run

theorem Session.use_entered (henv : ∀ n, ∃ exc, env.handle n = .error exc)
    (hclaim : ∀ now, Cell.Claimable backend.config now (s.cell key))
    (hsmooth : (s.useAll env key [payload]).Smooth) :
    EndsFailed key s 1 (s.useAll env key [payload]) := by
  have hstatus : ∀ cell ∈ s.cell key, cell.status ≠ .completed := by
    intro cell hcell hdone
    have hnow := hclaim 0
    rw [hcell] at hnow
    exact Cell.not_claimable_completed hdone hnow
  have hdoes : Does env (IdempotencyGuard.withGuard key payload)
      (fun s' _ _ => EndsFailed key s 1 s') s := by
    apply BlockPc.withGuard_does hstatus
    intro s₁ hcell hhandles
    apply (BlockPc.claim_does henv (by rwa [hcell])).mono
    rintro s' - - ⟨hfailed, hentered⟩
    exact ⟨hfailed, by rw [hentered, hhandles]⟩
  exact hdoes.run hsmooth

theorem Session.use_refused (hclaim : ∀ now, ¬ Cell.Claimable backend.config now (s.cell key))
    (hstatus : ∀ cell ∈ s.cell key, cell.status ≠ .completed)
    (hsmooth : (s.useAll env key [payload]).Smooth) :
    (s.useAll env key [payload]).cell key = s.cell key ∧
      (s.useAll env key [payload]).handles = s.handles := by
  have hdoes : Does env (IdempotencyGuard.withGuard key payload)
      (fun s' _ _ => s'.cell key = s.cell key ∧ s'.handles = s.handles) s := by
    apply BlockPc.withGuard_does hstatus
    intro s₁ hcell hhandles
    apply (BlockPc.claim_refused_does (by rwa [hcell])).mono
    rintro s' - - ⟨hsame, hentered⟩
    exact ⟨hsame.trans hcell, hentered.trans hhandles⟩
  exact hdoes.run hsmooth

theorem Cell.claimable_failedOnce {config : DeduplicationConfig}
    (hretry : config.retryFailed = true)
    (now : Int) : Claimable config now (some failedOnce) ↔ 1 < config.maxRetries := by
  rw [claimable_failed rfl]
  simp [Retryable, failedOnce, hretry]

theorem Session.use_stuck (hmax : backend.config.maxRetries = 1)
    (hretry : backend.config.retryFailed = true) {payloads : List Payload}
    (hcell : s.cell key = some Cell.failedOnce) (hsmooth : (s.useAll env key payloads).Smooth) :
    (s.useAll env key payloads).cell key = some Cell.failedOnce ∧
      (s.useAll env key payloads).handles = s.handles := by
  induction payloads generalizing s with
  | nil => exact ⟨hcell, rfl⟩
  | cons payload payloads ih =>
    have hclaim : ∀ now, ¬ Cell.Claimable backend.config now (s.cell key) := by
      intro now
      rw [hcell, Cell.claimable_failedOnce hretry]
      omega
    have hstatus : ∀ cell ∈ s.cell key, cell.status ≠ .completed := by
      rw [hcell]
      rintro _ ⟨⟩
      exact nofun
    obtain ⟨hsame, hhandles⟩ := use_refused hclaim hstatus (Session.Smooth.of_useAll hsmooth)
    obtain ⟨hend, hsum⟩ := ih (hsame.trans hcell) hsmooth
    exact ⟨hend, hsum.trans hhandles⟩

end

section

variable {backend : Backend V R} {env : Surroundings V} {s : Session backend} {key : String}
  {payload payload' : Payload} {payloads : List Payload}

theorem Session.useAll_cons :
    s.useAll env key (payload :: payloads) = (s.useAll env key [payload]).useAll env key payloads :=
  rfl

theorem Session.useAll_append {payloads' : List Payload} :
    s.useAll env key (payloads ++ payloads') =
      (s.useAll env key payloads).useAll env key payloads' :=
  List.foldl_append

theorem Session.LimitKept.once (hmax : 1 ≤ backend.config.maxRetries)
    (hcell : s.cell key = some Cell.failedOnce) (hhandles : s.handles = 1) : s.LimitKept key where
  most := by
    rw [hhandles]
    exact hmax
  counted := by
    rw [hcell, hhandles]
    rfl

theorem Session.LimitKept.none (hmax : 1 ≤ backend.config.maxRetries)
    (hcell : s.cell key = none) (hhandles : s.handles = 0) : s.LimitKept key where
  most := by
    rw [hhandles]
    exact Int.le_trans (by decide) hmax
  counted := by
    rw [hcell, hhandles]
    rfl

theorem Session.not_limitKept_twice (hretry : backend.config.retryFailed = true)
    (hlimit : 1 < backend.config.maxRetries) (henv : ∀ n, ∃ exc, env.handle n = .error exc)
    (hcell : s.cell key = some Cell.failedOnce) (hhandles : s.handles = 1)
    (hsmooth : (s.useAll env key [payload]).Smooth) :
    ¬ (s.useAll env key [payload]).LimitKept key := by
  have hclaim : ∀ now, Cell.Claimable backend.config now (s.cell key) := by
    intro now
    rw [hcell, Cell.claimable_failedOnce hretry]
    exact hlimit
  obtain ⟨hfailed, htwo⟩ := use_entered henv hclaim hsmooth
  intro hkept
  have hcounted := hkept.counted
  rw [hfailed, htwo, hhandles] at hcounted
  exact absurd hcounted (by decide)

end

/-- Over blocks that all raise, the record counts the entries throughout exactly when the limit is
1, or there is one block at most. -/
theorem guarded_blocks_limited_iff (backend : Backend V R) (env : Surroundings V) (key : String)
    (now : Int) (store : backend.State) (payloads : List Payload)
    (hmax : 1 ≤ backend.config.maxRetries) (hretry : backend.config.retryFailed = true)
    (henv : ∀ n, ∃ exc, env.handle n = .error exc)
    (hnone : backend.store.cell store now key = none)
    (hsmooth : (Session.useAll env key payloads ⟨now, store, 0, []⟩).Smooth) :
    (∀ k ≤ payloads.length,
      (Session.useAll env key (payloads.take k) ⟨now, store, 0, []⟩).LimitKept key) ↔
      backend.config.maxRetries = 1 ∨ payloads.length ≤ 1 := by
  obtain ⟨s, hs⟩ : ∃ s : Session backend, s = ⟨now, store, 0, []⟩ := ⟨_, rfl⟩
  rw [← hs] at hsmooth ⊢
  have hcell : s.cell key = none := by
    rw [hs]
    exact hnone
  have hzero : s.handles = 0 := by
    rw [hs]
    rfl
  cases payloads with
  | nil =>
    refine ⟨fun _ => .inr (Nat.zero_le 1), fun _ k _ => ?_⟩
    rw [List.take_nil]
    exact .none hmax hcell hzero
  | cons payload payloads =>
    rw [Session.useAll_cons] at hsmooth
    have hclaim : ∀ now, Cell.Claimable backend.config now (s.cell key) := by
      intro now
      rw [hcell]
      trivial
    obtain ⟨hfailed, hentered⟩ := Session.use_entered henv hclaim hsmooth.of_useAll
    have hone : (s.useAll env key [payload]).handles = 1 := by
      rw [hentered, hzero]
    constructor
    · intro hkept
      cases payloads with
      | nil => exact .inr (Nat.le_refl 1)
      | cons payload' payloads =>
        left
        by_contra hlimit
        rw [Session.useAll_cons] at hsmooth
        exact Session.not_limitKept_twice hretry (by omega) henv hfailed hone hsmooth.of_useAll
          (hkept 2 (by simp))
    · intro hlimited k hk
      cases k with
      | zero => exact .none hmax hcell hzero
      | succ k =>
        rw [List.take_succ_cons, Session.useAll_cons]
        rcases hlimited with hlimit | hlength
        · rw [← List.take_append_drop k payloads, Session.useAll_append] at hsmooth
          obtain ⟨hend, hsame⟩ := Session.use_stuck hlimit hretry hfailed hsmooth.of_useAll
          exact .once hmax hend (hsame.trans hone)
        · have hnil : payloads = [] := by simpa using hlength
          rw [hnil, List.take_nil]
          exact .once hmax hfailed hone

def alwaysRaising : Surroundings Unit where
  pause := fun _ => 1
  handle := fun _ => .error handlerError

/-- Three blocks that raise, on an empty store in memory. -/
def threeBlocks : List Payload := [.json .null, .json .null, .json .null]

/-- With a limit of 2 all three blocks are entered, and the record says 1. -/
theorem guarded_blocks_exceed_limit :
    let backend : Backend Unit Unit := .inMemory { maxRetries := 2 }
    let s := Session.useAll alwaysRaising "order-1" threeBlocks ⟨0, backend.empty, 0, []⟩
    s.Smooth ∧ s.handles = 3 ∧ s.cell "order-1" = some Cell.failedOnce ∧
      ¬ s.LimitKept "order-1" := by
  intro backend s
  have hlog : ∀ x ∈ s.log, (x.raised.isNone || x.call.isHandle) = true := by
    decide +kernel
  have hhandles : s.handles = 3 := by
    decide +kernel
  have hcell : s.cell "order-1" = some Cell.failedOnce := by
    decide +kernel
  refine ⟨fun x hx => Moment.smooth_of_check (hlog x hx), hhandles, hcell, fun hkept => ?_⟩
  have hmost := hkept.most
  rw [hhandles] at hmost
  exact absurd hmost (by decide)

/-- With a limit of 1 one of the three is entered. -/
theorem guarded_blocks_limited_once :
    let backend : Backend Unit Unit := .inMemory { maxRetries := 1 }
    let start : Session backend := ⟨0, backend.empty, 0, []⟩
    (start.useAll alwaysRaising "order-1" threeBlocks).handles = 1 ∧
      ∀ k ≤ threeBlocks.length,
        (start.useAll alwaysRaising "order-1" (threeBlocks.take k)).LimitKept "order-1" := by
  intro backend start
  have hlog : ∀ x ∈ (start.useAll alwaysRaising "order-1" threeBlocks).log,
      (x.raised.isNone || x.call.isHandle) = true := by
    decide +kernel
  refine ⟨by decide +kernel, ?_⟩
  exact (guarded_blocks_limited_iff backend alwaysRaising "order-1" 0 backend.empty threeBlocks
    (Int.le_refl 1) rfl (fun _ => ⟨_, rfl⟩) rfl
    fun x hx => Moment.smooth_of_check (hlog x hx)).mpr (.inl rfl)

end MessageDedup
