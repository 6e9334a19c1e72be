import MessageDedup.Group.Alone

/-!
# After a crash

A record that is PROCESSING is orphaned once the processing timeout has passed, whatever happened
to its owner. The next delivery of the message, left alone, settles it.
-/

namespace MessageDedup

open Transition (Reach System replay)

variable {V R : Type}

/-! ## Leases end -/

/-- COMPLETED or FAILED, or PROCESSING under a lease that ends by `limit`. -/
def Cell.EndsBy (limit : Int) (cell : Cell) : Prop :=
  (cell.status = .processing ∧ ∃ lease, cell.lease = some lease ∧ lease ≤ limit) ∨
    cell.status = .completed ∨ cell.status = .failed

/-- No lease is longer than that of a claim made now. -/
def Life.LeaseEnds (rules : Rules) (s : Life) : Prop :=
  ∀ cell, s.record = some cell → cell.EndsBy (rules.leaseUntil s.now)

namespace Life.LeaseEnds

variable {rules : Rules} {s s' : Life} {label : Label}

theorem effect (h : s.LeaseEnds rules) {phase : Phase} (hmarks : phase.Marks) {cell : Cell}
    (hcell : rules.effect s.now s.record phase = some cell) :
    cell.EndsBy (rules.leaseUntil s.now) := by
  cases phase with
  | failing attempts =>
    obtain ⟨old, hold, rfl⟩ := Option.map_eq_some_iff.mp hcell
    unfold Cell.markedFailed
    split
    · exact h old hold
    · exact .inr (.inr rfl)
  | completing =>
    obtain ⟨old, hold, rfl⟩ := Option.map_eq_some_iff.mp hcell
    unfold Cell.completed
    split
    · exact .inr (.inl rfl)
    · exact h old hold
  | _ => exact hmarks.elim

theorem step (h : s.LeaseEnds rules)
    (hmono : ∀ t (d : Nat), rules.leaseUntil t ≤ rules.leaseUntil (t + d))
    (hstep : Step rules s label s') : s'.LeaseEnds rules := by
  cases hstep with
  | @tick d =>
    intro cell hcell
    rcases h cell hcell with ⟨hp, lease, hlease, hle⟩ | hdone
    · exact .inl ⟨hp, lease, hlease, hle.trans (hmono s.now d)⟩
    · exact .inr hdone
  | expire => exact nofun
  | arrive | enter | crash => exact h
  | act hc hmove =>
    intro cell hcell
    cases hmove.touches with
    | keeps hrecord =>
      exact h cell (hrecord.symm.trans hcell)
    | claims _ _ hrecord =>
      obtain rfl := Option.some.inj (hrecord.symm.trans hcell)
      exact .inl ⟨rfl, _, rfl, le_rfl⟩
    | marks hmarks hrecord => exact h.effect hmarks (hrecord.symm.trans hcell)

end Life.LeaseEnds

namespace Backend

variable (backend : Backend V R)

theorem leaseUntil_mono (now : Int) (d : Nat) :
    backend.leaseUntil now ≤ backend.leaseUntil (now + d) := by
  cases backend with
  | inMemory config =>
    change InMemory.leaseUntil config now ≤ InMemory.leaseUntil config (now + d)
    unfold InMemory.leaseUntil
    omega
  | redis config codec =>
    change Redis.leaseUntil config now ≤ Redis.leaseUntil config (now + d)
    unfold Redis.leaseUntil
    have hms := Redis.nowMs_mono (show now ≤ now + d by omega)
    omega

theorem leaseUntil_le (now : Int) :
    backend.leaseUntil now ≤ now + backend.config.processingTimeoutSeconds * 1000000 := by
  cases backend with
  | inMemory config => exact le_rfl
  | redis config codec =>
    change Redis.leaseUntil config now ≤ now + config.processingTimeoutSeconds * 1000000
    unfold Redis.leaseUntil
    rw [Redis.nowMs_eq]
    omega

end Backend

theorem Cell.claimable_iff_since {config : DeduplicationConfig} {since t : Int}
    {record : Option Cell} (ht : since ≤ t)
    (hclosed : ¬ Cell.Claimable config since record →
      ∃ cell, record = some cell ∧ cell.Closed config) :
    Cell.Claimable config t record ↔ Cell.Claimable config since record := by
  constructor
  · intro hclaim
    by_contra hrefused
    obtain ⟨cell, rfl, hcell⟩ := hclosed hrefused
    exact hcell.not_claimable t hclaim
  · intro hclaim
    cases record with
    | none => trivial
    | some cell =>
      rcases hclaim with hretry | ⟨hp, lease, hlease, hle⟩
      · exact .inl hretry
      · exact .inr ⟨hp, lease, hlease, hle.trans ht⟩

namespace Group

variable {g : Group V R} {m : MessageId} {s s' : State g.backend}

theorem leaseEnds_of_reach (h : Reach (g.system m) s) : (g.life m s).LeaseEnds (g.rules m) := by
  refine h.invariant (fun s => (g.life m s).LeaseEnds (g.rules m)) ?_ ?_
  · rintro s ⟨now, store, rfl, hnone⟩ cell hcell
    exact absurd (hnone.symm.trans hcell) nofun
  · intro s a s' hr hs hstep
    have hlife := (g.refines m).step s a s' hr hstep
    cases hlabel : g.label m s a with
    | none =>
      rw [hlabel] at hlife
      rwa [show g.life m s' = g.life m s from hlife]
    | some label =>
      rw [hlabel] at hlife
      exact hs.step g.backend.leaseUntil_mono hlife

/-- After the processing timeout, a claim of `m` is refused by a closed record only. -/
theorem closed_of_refused (h : Reach (g.system m) s) {wait : Nat}
    (hwait : g.backend.config.processingTimeoutSeconds * 1000000 ≤ wait)
    (hrefused : ¬ Cell.Claimable g.backend.config (s.now + wait)
      (g.backend.store.cell s.store (s.now + wait) m)) :
    ∃ cell, g.backend.store.cell s.store (s.now + wait) m = some cell ∧
      cell.Closed g.backend.config := by
  rcases g.backend.lawful.expires (show s.now ≤ s.now + wait by omega) with hsame | hnone
  · cases hcell : g.backend.store.cell s.store s.now m with
    | none =>
      rw [hsame, hcell] at hrefused
      exact absurd trivial hrefused
    | some cell =>
      rw [hsame, hcell] at hrefused
      refine ⟨cell, hsame.trans hcell, ?_⟩
      rcases leaseEnds_of_reach h cell hcell with ⟨hp, lease, hlease, hle⟩ | hdone | hfailed
      · refine absurd ((Cell.claimable_processing hp).mpr ⟨hp, lease, hlease, ?_⟩) hrefused
        have hend := g.backend.leaseUntil_le s.now
        have hle : lease ≤ g.backend.leaseUntil s.now := hle
        omega
      · exact .inl hdone
      · exact .inr ⟨hfailed, fun hretry => hrefused ((Cell.claimable_failed hfailed).mpr hretry)⟩
  · rw [hnone] at hrefused
    exact absurd trivial hrefused

/-! ## The next delivery -/

section

variable {c : ConsumerId} {p : Nat} {outcomes : Nat → Except Exc (Option V)} {k : ℕ∞}
  {since : Int} {met : Option Cell} {x : Progress}

theorem start_of_id {py : Python} {self : DedupConsumer} {record : ConsumerRecord}
    (hid : extractMessageId py record = .ok (some m.val)) :
    (self.start py record : List Metric × Next V) = ([], .pc (.claim m)) := by
  apply DedupConsumer.start_claim
  unfold DedupConsumer.start
  split
  · rename_i h
    rw [hid] at h
    cases h
  · rename_i h
    rw [hid] at h
    cases h
    rfl
  · rename_i h
    rw [hid] at h
    cases h

theorem poll_standing (hcons : Consistent g s)
    (hid : extractMessageId g.py (g.log p (s.committed p)) = .ok (some m.val))
    (hexec : g.exec s (.poll c p) = some s') :
    s'.now = s.now ∧ s'.store = s.store ∧
      (s'.consumer c).rank (g.consumers c).config.maxRetries =
        5 * (g.consumers c).config.maxRetries.toNat + 3 ∧
      g.Standing m c s.deliveries p (s.committed p) s' (.pc (.claim m))
        ⟨g.backend.store.cell s.store s.now m, 0, 0⟩ := by
  cases hc : s.consumer c with
  | busy d | stopped => simp [exec, poll, hc] at hexec
  | idle =>
    simp only [exec, poll, hc] at hexec
    split at hexec
    · rename_i hassigned
      have hposition : s.position p = s.committed p := by
        apply hcons.rest p c hassigned
        intro d hbusy
        rw [hc] at hbusy
        cases hbusy
      rw [hposition, start_of_id hid] at hexec
      obtain rfl := Option.some.inj hexec
      have hnone : s.entered s.deliveries = 0 := by
        apply List.countP_eq_zero.mpr
        intro e he
        have hlt := hcons.fresh e he
        simp only [decide_eq_true_eq, not_and]
        omega
      refine ⟨rfl, rfl, ?_, ⟨false, s.now, Function.update_self _ _ _,
        fun h => absurd h Bool.false_ne_true, ?_⟩, rfl, fun _ => hassigned,
        Function.update_self _ _ _, fun _ h => by cases h⟩
      · rw [State.land_consumer]
        rfl
      · unfold State.entered
        rw [State.land_trace]
        refine (State.entered_log _ _ _ _).trans ?_
        exact (congrArg (_ + ·) hnone)
    · cases hexec

theorem Standing.done {n o : Nat} (h : g.Standing m c n p o s .done x) (hcons : Consistent g s) :
    s.consumer c = .idle ∧ s.committed p = o + 1 ∧ s.entered n = x.handles := by
  obtain ⟨started, lease, hc, hhandle, hentered⟩ := h.stands
  obtain rfl : started = false := by simpa [Next.atHandle] using hhandle
  refine ⟨hc, ?_, hentered⟩
  rw [← h.position]
  refine (hcons.rest p c (h.owned nofun) ?_).symm
  intro d hbusy
  rw [hc] at hbusy
  cases hbusy

theorem Settled.attempts (h : g.Settled c outcomes since met x)
    (hmax : 1 ≤ (g.consumers c).config.maxRetries) (hk : FirstSuccess outcomes k)
    (hclaim : Cell.Claimable g.backend.config since met) :
    let limit := attemptLimit (g.consumers c).config.maxRetries g.backend.config
    (x.handles : ℕ∞) = min k limit ∧ ∃ cell, x.record = some cell ∧
      ((cell.status = .completed ∧ k ≤ limit) ∨ (cell.status = .failed ∧ limit < k)) := by
  intro limit
  obtain ⟨ms, hattempted⟩ := h.won hclaim
  have hcount : (x.handles : ℕ∞) = min k limit := hattempted.count hmax hk
  refine ⟨hcount, ?_⟩
  obtain ⟨n, hhandles, hend⟩ := hattempted
  rw [hhandles] at hcount
  rcases hend with ⟨-, ⟨result, hok⟩, ⟨cell, hcell, hdone⟩, -⟩ | ⟨hspent, -⟩
  · refine ⟨cell, hcell, .inl ⟨hdone, ?_⟩⟩
    by_contra hlt
    rw [not_le] at hlt
    rw [min_eq_right hlt.le] at hcount
    obtain ⟨exc, herror⟩ := hk.earlier n (by rwa [hcount])
    rw [hok] at herror
    cases herror
  · obtain ⟨exc, herror⟩ := hspent.failure
    obtain ⟨cell, hcell, hfailed, -⟩ := hspent.failed
    refine ⟨cell, hcell, .inr ⟨hfailed, ?_⟩⟩
    by_contra hle
    rw [not_lt] at hle
    rw [min_eq_left hle] at hcount
    obtain ⟨result, hok⟩ := hk.first n hcount
    rw [hok] at herror
    cases herror

theorem Settled.cell (h : g.Settled c outcomes since met x)
    (hmax : 1 ≤ (g.consumers c).config.maxRetries) (hk : FirstSuccess outcomes k)
    (hclosed : ¬ Cell.Claimable g.backend.config since met →
      ∃ cell, met = some cell ∧ cell.Closed g.backend.config) :
    let limit := attemptLimit (g.consumers c).config.maxRetries g.backend.config
    ∃ cell, x.record = some cell ∧
      (Cell.Claimable g.backend.config since met → (x.handles : ℕ∞) = min k limit ∧
        ((cell.status = .completed ∧ k ≤ limit) ∨ (cell.status = .failed ∧ limit < k))) ∧
      (¬ Cell.Claimable g.backend.config since met →
        x.handles = 0 ∧ met = some cell ∧ cell.Closed g.backend.config) := by
  intro limit
  by_cases hclaim : Cell.Claimable g.backend.config since met
  · obtain ⟨hcount, cell, hcell, hstatus⟩ := h.attempts hmax hk hclaim
    exact ⟨cell, hcell, fun _ => ⟨hcount, hstatus⟩, fun hlost => absurd hclaim hlost⟩
  · obtain ⟨cell, hcell, hclosed⟩ := hclosed hclaim
    obtain ⟨hrecord, hhandles⟩ := h.lost hclaim
    exact ⟨cell, hrecord.trans hcell, fun hwon => absurd hwon hclaim,
      fun _ => ⟨hhandles, hcell, hclosed⟩⟩

end

end Group

/-! ## Recovery -/

/-- Whatever has happened, once the processing timeout has passed the next delivery of `m`, left
alone, ends after so many steps with its record committed and `m` COMPLETED or FAILED. It calls
`handle()` up to its limit when its claim is won, and not at all when `m` was closed before. -/
theorem Group.recovers (g : Group V R) (m : MessageId) {s s₁ s' : State g.backend}
    (h : Reach (g.system m) s) {c : ConsumerId} {p wait : Nat} {payload : Payload}
    {outcomes : Nat → Except Exc (Option V)} {k : ℕ∞} {history : List (Action V)}
    (hwait : g.backend.config.processingTimeoutSeconds * 1000000 ≤ wait)
    (hpoll : g.exec { s with now := s.now + wait } (.poll c p) = some s₁)
    (hid : extractMessageId g.py (g.log p (s.committed p)) = .ok (some m.val))
    (hdec : decodePayload g.py (g.log p (s.committed p)) = .ok payload)
    (hmax : 1 ≤ (g.consumers c).config.maxRetries)
    (hexc : ∀ n exc, outcomes n = .error exc → exc.isException = true)
    (hrecords : ∀ n result, outcomes n = .ok result → g.backend.Records result)
    (hk : FirstSuccess outcomes k)
    (hrun : Reach ((((g.system m).startingAt s₁).guard (g.Alone m c outcomes)).recording
      fun _ a => a.work) (s', history)) :
    let met := g.backend.store.cell s₁.store s₁.now m
    let limit := attemptLimit (g.consumers c).config.maxRetries g.backend.config
    history.length ≤ 5 * (g.consumers c).config.maxRetries.toNat + 3 ∧
      ((∃ d, s'.consumer c = .busy d) ∧
        (g.backend.TakesLease s'.now → g.backend.TakesTtl s'.now →
          ∃ a s'', a.work = [a] ∧ g.Alone m c outcomes s' a ∧ g.exec s' a = some s'') ∨
      s'.consumer c = .idle ∧ s'.committed p = s.committed p + 1 ∧
        ∃ cell, g.backend.store.cell s'.store s'.now m = some cell ∧
          (Cell.Claimable g.backend.config s₁.now met →
            (s'.entered s.deliveries : ℕ∞) = min k limit ∧
              ((cell.status = .completed ∧ k ≤ limit) ∨ (cell.status = .failed ∧ limit < k))) ∧
          (¬ Cell.Claimable g.backend.config s₁.now met →
            s'.entered s.deliveries = 0 ∧ met = some cell ∧ cell.Closed g.backend.config)) := by
  intro met limit
  let s₀ : State g.backend := { s with now := s.now + wait }
  have hr₀ : Reach (g.system m) s₀ := h.step (a := .tick wait) rfl
  have hr₁ : Reach (g.system m) s₁ := hr₀.step hpoll
  obtain ⟨hnow, hstore, hrank, hstanding⟩ := Group.poll_standing (consistent_of_reach hr₀) hid hpoll
  have hmet : met = g.backend.store.cell s₀.store s₀.now m := by
    simp only [met, hnow, hstore]
  have hclosed : ¬ Cell.Claimable g.backend.config s₁.now met →
      ∃ cell, met = some cell ∧ cell.Closed g.backend.config := by
    rw [hmet, hnow]
    exact Group.closed_of_refused h hwait
  have hsame : ∀ t, s₁.now ≤ t → (Cell.Claimable g.backend.config t met ↔
      Cell.Claimable g.backend.config s₁.now met) :=
    fun t ht => Cell.claimable_iff_since ht hclosed
  have hstart : g.Course m c s.deliveries p (s.committed p) outcomes s₁.now met s₁ := by
    rw [hmet]
    exact .claims hstanding le_rfl
  obtain ⟨hcourse, hlength⟩ := Group.course_of_run hstart hmax hdec hexc hrecords hsame hrun
  rw [hrank] at hlength
  refine ⟨(Nat.le_add_right _ _).trans hlength, ?_⟩
  have hgoes : ∀ {pc : Pc V} {x : Progress},
      g.Standing m c s.deliveries p (s.committed p) s' (.pc pc) x →
        (∃ d, s'.consumer c = .busy d) ∧
        (g.backend.TakesLease s'.now → g.backend.TakesTtl s'.now →
          ∃ a s'', a.work = [a] ∧ g.Alone m c outcomes s' a ∧ g.exec s' a = some s'') := by
    intro pc x hpc
    obtain ⟨started, lease, hc, -⟩ := hpc.stands
    exact ⟨⟨_, hc⟩, hpc.due⟩
  -- Either the first claim is still to come, or the loop of attempts has been entered.
  cases hcourse with
  | claims hpc => exact .inl (hgoes hpc)
  | @works next x hnext hrest =>
    cases next with
    | pc pc => exact .inl (hgoes hnext)
    -- No call raises but `handle()`, and the loop keeps what that raises.
    | raised exc => cases hrest.1
    | done =>
      have hcons := consistent_of_reach (hr₁.trans hrun.of_recording.of_guard)
      obtain ⟨hidle, hcommitted, hentered⟩ := hnext.done hcons
      rw [hnext.shows, hentered]
      exact .inr ⟨hidle, hcommitted, hrest.2.cell hmax hk hclosed⟩

deriving instance DecidableEq for Outcome

/-- A check that only `c` acts, and as its attempts do. -/
def Group.aloneCheck [DecidableEq V] (g : Group V R) (m : MessageId) (c : ConsumerId)
    (outcomes : Nat → Except Exc (Option V)) (s : State g.backend) : Action V → Bool
  | .tick d => g.backend.store.cell s.store (s.now + d) m = g.backend.store.cell s.store s.now m
  | .enter c' => c' = c
  | .act c' outcome => c' = c && match s.consumer c with
    | .busy d =>
      let call := (g.consumers c).callOf g.py (g.log d.partition d.offset) d.pc
      if call.isHandle then outcome = .ofHandle (outcomes (s.entered d.number - 1))
      else (raisedOf (g.backend.answer s.store s.now call outcome).2).isNone
    | _ => false
  | _ => false

theorem Group.alone_of_check [DecidableEq V] {g : Group V R} {m : MessageId} {c : ConsumerId}
    {outcomes : Nat → Except Exc (Option V)} {s : State g.backend} {a : Action V}
    (h : g.aloneCheck m c outcomes s a = true) : g.Alone m c outcomes s a := by
  cases a with
  | tick d => exact .tick d (of_decide_eq_true h)
  | enter c' =>
    obtain rfl : c' = c := of_decide_eq_true h
    exact .enter
  | act c' outcome =>
    simp only [aloneCheck, Bool.and_eq_true, decide_eq_true_eq] at h
    obtain ⟨rfl, h⟩ := h
    cases hc : s.consumer c' with
    | idle | stopped => simp [hc] at h
    | busy d =>
      refine .act hc ?_
      simp only [hc] at h
      unfold Call.EndsInTurn
      split at h
      · rename_i hhandle
        rw [if_pos hhandle]
        exact of_decide_eq_true h
      · rename_i hhandle
        rw [if_neg hhandle]
        cases hr : (g.backend.answer s.store s.now ((g.consumers c').callOf g.py
            (g.log d.partition d.offset) d.pc) outcome).2 with
        | ok reply => exact ⟨reply, rfl⟩
        | error exc =>
          rw [hr] at h
          cases h
  | assign p c' | poll c' p | crash c' => cases h

def Local.idle? : Local V → Bool
  | .idle => true
  | _ => false

/-- A consumer is killed in `handle()`, and its partition is given to another one. -/
def killedRun : List (Action Unit) :=
  [.assign 0 0, .poll 0 0, .act 0 (.done none), .enter 0, .crash 0, .assign 0 1]

def failsOnce (n : Nat) : Except Exc (Option Unit) :=
  if n = 0 then .error handlerError else .ok none

theorem failsOnce_first : FirstSuccess failsOnce 2 where
  positive := by decide
  earlier := by
    intro j hj
    obtain rfl : j = 0 := by
      have hlt : j + 1 < 2 := Nat.cast_lt.mp hj
      omega
    exact ⟨_, rfl⟩
  first := by
    intro j hj
    obtain rfl : j = 1 := by
      have heq : j + 1 = 2 := Nat.cast_inj.mp hj
      omega
    exact ⟨_, rfl⟩

theorem failsOnce_exception (n : Nat) (exc : Exc) (h : failsOnce n = .error exc) :
    exc.isException = true := by
  unfold failsOnce at h
  split at h <;> cases h
  rfl

theorem nullCodec_records (config : DeduplicationConfig) (result : Option Unit) :
    (Backend.redis config nullCodec).Records result := by
  intro s now m
  apply Redis.markCompleted_returns
  cases result with
  | none => trivial
  | some value => exact ⟨"null", (), rfl, rfl⟩

/-- The other consumer fails once. -/
def secondTry : List (Action Unit) :=
  [.act 1 (.done none), .enter 1, .act 1 (.raised handlerError true), .act 1 (.done none),
    .tick 500000, .act 1 (.done none), .act 1 (.done none), .enter 1, .tick 2000000,
    .act 1 (.done none), .act 1 (.done none), .act 1 (.done none)]

/-- The message of a killed consumer is handled five minutes later, in the second attempt. -/
theorem Group.recovers_killed :
    let g := smallGroup (.redis {} nullCodec) ⟨{}, none⟩ sampleId
    ∃ s s₁ s' cell, Reach (g.system sampleId) s ∧
      g.exec { s with now := s.now + (300000000 : Nat) } (.poll 1 0) = some s₁ ∧
      Reach (((g.system sampleId).startingAt s₁).guard (g.Alone sampleId 1 failsOnce)) s' ∧
      s'.consumer 1 = .idle ∧ s'.committed 0 = s.committed 0 + 1 ∧ s'.entered s.deliveries = 2 ∧
      g.backend.store.cell s'.store s'.now sampleId = some cell ∧ cell.status = .completed := by
  intro g
  have hrun : (replay g.exec (g.checked sampleId 2 fun _ _ => true)
      (g.startState 0 g.backend.empty) killedRun).any (fun s =>
        (g.exec { s with now := s.now + (300000000 : Nat) } (.poll 1 0)).any fun s₁ =>
          decide (Cell.Claimable g.backend.config s₁.now
            (g.backend.store.cell s₁.store s₁.now sampleId)) &&
          (replay g.exec (g.aloneCheck sampleId 1 failsOnce) s₁ secondTry).any fun s' =>
            (s'.consumer 1).idle?) = true := by
    decide +kernel
  obtain ⟨s, hs, hrest⟩ := (Option.any_eq_true _ _).mp hrun
  obtain ⟨s₁, hpoll, hrest⟩ := (Option.any_eq_true _ _).mp hrest
  obtain ⟨hclaim, hrest⟩ := (Bool.and_eq_true _ _).mp hrest
  obtain ⟨s', hs', hend⟩ := (Option.any_eq_true _ _).mp hrest
  have hnone : g.backend.store.cell g.backend.empty 0 sampleId = none := rfl
  have hr : Reach (g.system sampleId) s := by
    have hok : ∀ (life : Life) (label : Label), life.Quiet 2 → true = true → True :=
      fun _ _ _ _ => trivial
    exact (Group.reach_replay hok hnone hs).1.of_guard
  have hr₁ : Reach ((Transition.ofExec (· = s₁) g.exec).guard (g.Alone sampleId 1 failsOnce)) s₁ :=
    .init rfl
  have hr' : Reach (((g.system sampleId).startingAt s₁).guard (g.Alone sampleId 1 failsOnce)) s' :=
    (Transition.reach_replay (fun _ => True)
      (fun s a s' _ hcheck _ => ⟨Group.alone_of_check hcheck, trivial⟩) hr₁ trivial hs').1
  obtain ⟨history, hrecorded⟩ := hr'.recorded fun _ a => a.work
  have hidle : s'.consumer 1 = .idle := by
    cases hc : s'.consumer 1 with
    | idle => rfl
    | busy d | stopped =>
      rw [hc] at hend
      cases hend
  have hmax : (1 : Int) ≤ 3 := by decide
  have hwait : (300 : Int) * 1000000 ≤ (300000000 : Nat) := by decide
  obtain ⟨-, hend⟩ := Group.recovers g sampleId hr hwait hpoll rfl rfl hmax failsOnce_exception
    (fun _ result _ => nullCodec_records {} result) failsOnce_first hrecorded
  rcases hend with ⟨⟨d, hbusy⟩, -⟩ | ⟨-, hcommitted, cell, hcell, hwon, -⟩
  · rw [hidle] at hbusy
    cases hbusy
  · obtain ⟨hcount, hstatus⟩ := hwon (of_decide_eq_true hclaim)
    have hlimit : (2 : ℕ∞) ≤ ((3 : ℕ) : ℕ∞) := by decide
    refine ⟨s, s₁, s', cell, hr, hpoll, hr', hidle, hcommitted, ?_, hcell, ?_⟩
    · change _ = min 2 ((3 : ℕ) : ℕ∞) at hcount
      rw [min_eq_left hlimit] at hcount
      exact Nat.cast_inj.mp hcount
    · rcases hstatus with ⟨hdone, -⟩ | ⟨-, hlt⟩
      · exact hdone
      · exact absurd hlimit (not_le.mpr hlt)

end MessageDedup
