import MessageDedup.Guard.Lifecycle
import MessageDedup.Consumer.Effects

/-!
# The two copies of the retry lifecycle

`_execute_and_commit` and `@idempotent`, right after their first claim, against the same outcomes of
the business logic and of the store.
-/

namespace MessageDedup

open Coroutine (Proc)

variable {V : Type}

/-! ## The calls of both copies -/

/-- A call that both copies make. What the business logic works on is left out. -/
inductive Step (V : Type) where
  | claim (key : String)
  | markFailed (key error : String) (attempts : Int)
  | markCompleted (key : String) (result : Option V)
  | work
  | sleep (ms : Int)

def Call.step : Call V → Option (Step V)
  | .claim key => some (.claim key)
  | .markFailed key error attempts => some (.markFailed key error attempts)
  | .markCompleted key result => some (.markCompleted key result)
  | .handle _ => some .work
  | .sleep ms => some (.sleep ms)
  | _ => none

/-- The steps among the calls, newest first. -/
def stepsOf (t : List (Made V)) : List (Step V) := t.filterMap (·.call.step)

/-- How the steps end, by their number, and the calls that only the consumer makes. -/
structure Outcomes (V : Type) where
  work : Nat → Except Exc (Option V)
  claim : Nat → Except Exc Bool
  other : Nat → Except Exc Unit
  elsewhere : (call : Call V) → Except Exc call.Reply

def Outcomes.world (outcomes : Outcomes V) : Oracle V
  | t, .handle _ => outcomes.work (stepsOf t).length
  | t, .claim _ => outcomes.claim (stepsOf t).length
  | t, .markFailed _ _ _ | t, .markCompleted _ _ | t, .sleep _ => outcomes.other (stepsOf t).length
  | _, call => outcomes.elsewhere call

/-! ## The statement -/

/-- An exception that the last call did not raise: the final `raise`. -/
def FinalRaise (t : List (Made V)) (outcome : Except Exc (Option V)) : Prop :=
  (∃ exc, outcome = .error exc) ∧ ∀ x ∈ t.head?, ∃ reply, x.reply = .ok reply

def ReachesDeadLetter (metrics : List Metric) : Prop := ∃ topic, .dlq topic ∈ metrics

/-- The consumer came to commit a record that it did not bury. -/
def ReachesProcessed (t : List (Made V)) (metrics : List Metric) : Prop :=
  (∃ x ∈ t, x.call.isCommit = true) ∧ ¬ ReachesDeadLetter metrics

/-- The calls, the metrics and the outcome of a run of the consumer, and those of the wrapper. -/
structure SameLifecycle (key : String) (c : List (Made V) × List Metric × Except Exc Unit)
    (w : List (Made V) × List Metric × Except Exc (Option V)) : Prop where
  steps : stepsOf c.1 = stepsOf w.1
  returned : (∃ result, w.2.2 = .ok result) ↔ ReachesProcessed c.1 c.2.1
  result : ∀ result, w.2.2 = .ok result →
    ∃ t, stepsOf w.1 = .markCompleted key result :: .work :: t
  raised : FinalRaise w.1 w.2.2 ↔ ReachesDeadLetter c.2.1
  otherwise : (¬ ∃ result, w.2.2 = .ok result) → ¬ FinalRaise w.1 w.2.2 →
    ∃ exc, w.2.2 = .error exc ∧ c.2.2 = .error exc

/-! ## The three endings -/

/-- How both copies end. -/
inductive Ends (key : String) (c : List (Made V) × List Metric × Except Exc Unit)
    (w : List (Made V) × List Metric × Except Exc (Option V)) : Prop where
  | completed (result : Option V) (returned : w.2.2 = .ok result)
      (committed : ∃ x ∈ c.1, x.call.isCommit = true) (kept : ¬ ReachesDeadLetter c.2.1)
      (last : ∃ t, stepsOf w.1 = .markCompleted key result :: .work :: t)
  | spent (exc : Exc) (raised : w.2.2 = .error exc) (buried : ReachesDeadLetter c.2.1)
      (last : ∀ x ∈ w.1.head?, ∃ reply, x.reply = .ok reply)
  | raised (exc : Exc) (wrapper : w.2.2 = .error exc) (consumer : c.2.2 = .error exc)
      (uncommitted : ∀ x ∈ c.1, x.call.isCommit = false) (kept : ¬ ReachesDeadLetter c.2.1)
      (last : ∃ x ∈ w.1.head?, x.reply = .error exc)

section

variable {key : String} {c : List (Made V) × List Metric × Except Exc Unit}
  {w : List (Made V) × List Metric × Except Exc (Option V)}

theorem Ends.same (h : Ends key c w) (hsteps : stepsOf c.1 = stepsOf w.1) :
    SameLifecycle key c w := by
  cases h with
  | completed result hret hcommit hkept hlast =>
    refine ⟨hsteps, iff_of_true ⟨result, hret⟩ ⟨hcommit, hkept⟩, ?_, ?_, ?_⟩
    · intro result' hret'
      rw [hret] at hret'
      obtain rfl := Except.ok.inj hret'
      exact hlast
    · refine iff_of_false ?_ hkept
      rintro ⟨⟨exc, hraised⟩, -⟩
      rw [hret] at hraised
      simp at hraised
    · exact fun hnot => absurd ⟨result, hret⟩ hnot
  | spent exc hraised hburied hlast =>
    -- The call raises its last exception where the consumer buries the message.
    have hnot : ¬ ∃ result, w.2.2 = .ok result := by
      rintro ⟨result, hret⟩
      rw [hraised] at hret
      simp at hret
    refine ⟨hsteps, iff_of_false hnot fun h => h.2 hburied, ?_, ?_, ?_⟩
    · exact fun result hret => absurd ⟨result, hret⟩ hnot
    · exact iff_of_true ⟨⟨exc, hraised⟩, hlast⟩ hburied
    · exact fun _ hnot => absurd ⟨⟨exc, hraised⟩, hlast⟩ hnot
  | raised exc hw hc huncommitted hkept hlast =>
    -- The same exception leaves both, and neither has kept a result or buried anything.
    have hnot : ¬ ∃ result, w.2.2 = .ok result := by
      rintro ⟨result, hret⟩
      rw [hw] at hret
      simp at hret
    refine ⟨hsteps, iff_of_false hnot ?_, ?_, iff_of_false ?_ hkept, fun _ _ => ⟨exc, hw, hc⟩⟩
    · rintro ⟨⟨x, hx, hcommit⟩, -⟩
      rw [huncommitted x hx] at hcommit
      simp at hcommit
    · exact fun result hret => absurd ⟨result, hret⟩ hnot
    · rintro ⟨-, hok⟩
      obtain ⟨x, hx, herror⟩ := hlast
      obtain ⟨reply, hreply⟩ := hok x hx
      rw [herror] at hreply
      simp at hreply

theorem ReachesDeadLetter.cons_iff {metric : Metric} {metrics : List Metric}
    (hmetric : ∀ topic, metric ≠ .dlq topic) :
    ReachesDeadLetter (metric :: metrics) ↔ ReachesDeadLetter metrics := by
  unfold ReachesDeadLetter
  simp only [List.mem_cons]
  constructor
  · rintro ⟨topic, rfl | hmem⟩
    · exact absurd rfl (hmetric topic)
    · exact ⟨topic, hmem⟩
  · rintro ⟨topic, hmem⟩
    exact ⟨topic, .inr hmem⟩

theorem Ends.emit (h : Ends key c w) {metric : Metric} (hmetric : ∀ topic, metric ≠ .dlq topic) :
    Ends key (c.1, metric :: c.2.1, c.2.2) w := by
  cases h with
  | completed result hret hcommit hkept hlast =>
    exact .completed result hret hcommit (by rwa [ReachesDeadLetter.cons_iff hmetric]) hlast
  | spent exc hraised hburied hlast =>
    exact .spent exc hraised (by rwa [ReachesDeadLetter.cons_iff hmetric]) hlast
  | raised exc hw hc huncommitted hkept hlast =>
    exact .raised exc hw hc huncommitted (by rwa [ReachesDeadLetter.cons_iff hmetric]) hlast

end

/-! ## Side by side -/

/-- Both have made the same steps, and the consumer has committed nothing. -/
structure Abreast (tc tw : List (Made V)) : Prop where
  steps : stepsOf tc = stepsOf tw
  uncommitted : ∀ x ∈ tc, x.call.isCommit = false

/-- The same steps, and endings that correspond. -/
structure Agree (key : String) (c : List (Made V) × List Metric × Except Exc Unit)
    (w : List (Made V) × List Metric × Except Exc (Option V)) : Prop where
  steps : stepsOf c.1 = stepsOf w.1
  ends : Ends key c w

section

variable {outcomes : Outcomes V} {key : String} {step : Step V} {tc tw : List (Made V)}

theorem Call.not_commit_of_step {call : Call V} (h : call.step = some step) :
    call.isCommit = false := by
  cases call <;> simp [Call.step] at h <;> rfl

theorem Abreast.made (h : Abreast tc tw) {x y : Made V} (hx : x.call.step = some step)
    (hy : y.call.step = some step) : Abreast (x :: tc) (y :: tw) where
  steps := by
    unfold stepsOf
    simp only [List.filterMap_cons, hx, hy]
    exact congrArg _ h.steps
  uncommitted := List.forall_mem_cons.mpr ⟨Call.not_commit_of_step hx, h.uncommitted⟩

theorem Outcomes.world_congr (h : stepsOf tc = stepsOf tw) (call : Call V) :
    outcomes.world tc call = outcomes.world tw call := by
  cases call <;> simp [Outcomes.world, h]

theorem Abreast.call (h : Abreast tc tw) {call : Call V} (hstep : call.step = some step)
    {f : Except Exc call.Reply → Program V Unit} {g : Except Exc call.Reply → Program V (Option V)}
    (hboth : ∀ reply, Abreast (⟨call, reply⟩ :: tc) (⟨call, reply⟩ :: tw) →
      Agree key ((f reply).run outcomes.world.answer (⟨call, reply⟩ :: tc))
        ((g reply).run outcomes.world.answer (⟨call, reply⟩ :: tw))) :
    Agree key (((await call).attempt f).run outcomes.world.answer tc)
      (((await call).attempt g).run outcomes.world.answer tw) := by
  unfold await
  rw [Proc.run_call_attempt, Proc.run_call_attempt]
  unfold Oracle.answer
  rw [← Outcomes.world_congr h.steps call]
  exact hboth _ (h.made hstep hstep)

theorem Abreast.work (h : Abreast tc tw) (payload payload' : Payload)
    {f : Except Exc (Option V) → Program V Unit} {g : Except Exc (Option V) → Program V (Option V)}
    (hboth : ∀ reply, Abreast (⟨.handle payload, reply⟩ :: tc) (⟨.handle payload', reply⟩ :: tw) →
      Agree key ((f reply).run outcomes.world.answer (⟨.handle payload, reply⟩ :: tc))
        ((g reply).run outcomes.world.answer (⟨.handle payload', reply⟩ :: tw))) :
    Agree key (((await (.handle payload)).attempt f).run outcomes.world.answer tc)
      (((await (.handle payload')).attempt g).run outcomes.world.answer tw) := by
  unfold await
  rw [Proc.run_call_attempt, Proc.run_call_attempt]
  have hreply : (outcomes.world tw (.handle payload') : Except Exc (Option V)) =
      outcomes.work (stepsOf tc).length := by
    rw [h.steps]
    rfl
  unfold Oracle.answer
  rw [hreply]
  exact hboth _ (h.made rfl rfl)

theorem Abreast.raised (h : Abreast tc tw) {exc : Exc}
    (hlast : ∃ x ∈ tw.head?, x.reply = .error exc) :
    Agree key (tc, [], .error exc) (tw, [], .error exc) :=
  ⟨h.steps, .raised exc rfl rfl h.uncommitted nofun hlast⟩

theorem Agree.emit {p : Program V Unit} {w : List (Made V) × List Metric × Except Exc (Option V)}
    (h : Agree key (p.run outcomes.world.answer tc) w) {metric : Metric}
    (hmetric : ∀ topic, metric ≠ .dlq topic) :
    Agree key ((Proc.emit metric p).run outcomes.world.answer tc) w :=
  ⟨h.steps, h.ends.emit hmetric⟩

end

/-! ## The lifecycle -/

section

variable {outcomes : Outcomes V} {self : DedupConsumer} {guard : Idempotent}
  {record : ConsumerRecord} {py : Python} {m : MessageId} {payload : Payload}
  {arguments : Arguments} {tc tw : List (Made V)} {attempts : Int}

theorem commit_run (t : List (Made V)) :
    (commit : Program V Unit).run outcomes.world.answer t =
      (⟨.commit, outcomes.elsewhere .commit⟩ :: t, [], outcomes.elsewhere .commit) :=
  Proc.run_call _ _

theorem Abreast.processed (h : Abreast tc tw) (result : Option V)
    (hlast : ∃ t, stepsOf tw = .markCompleted m.val result :: .work :: t) :
    Agree m.val
      ((do commit; recordMetric (.processed record.topic) : Program V Unit).run
        outcomes.world.answer tc)
      (tw, [], .ok result) := by
  change Agree m.val (((Proc.call _).attempt _).run outcomes.world.answer tc) _
  rw [Proc.run_call_attempt]
  unfold Oracle.answer
  cases outcomes.world tc .commit with
  | ok reply =>
    have hkept : ¬ ReachesDeadLetter [.processed record.topic] := by
      rintro ⟨topic, hmem⟩
      simp at hmem
    exact ⟨h.steps, .completed result rfl ⟨_, List.mem_cons_self, rfl⟩ hkept hlast⟩
  | error exc =>
    exact ⟨h.steps, .completed result rfl ⟨_, List.mem_cons_self, rfl⟩ nofun hlast⟩

theorem Abreast.exhausted (h : Abreast tc tw) (lastExc : Option Exc) (exc : Exc)
    (hlast : ∀ x ∈ tw.head?, ∃ reply, x.reply = .ok reply) :
    Agree m.val ((DedupConsumer.exhausted py self record lastExc).run outcomes.world.answer tc)
      (tw, [], .error exc) := by
  refine ⟨?_, .spent exc rfl ⟨record.topic, List.mem_cons_self⟩ hlast⟩
  unfold DedupConsumer.exhausted DedupConsumer.sendToDlq
  cases self.dlq with
  | none =>
    change stepsOf ((commit : Program V Unit).run _ tc).1 = _
    rw [commit_run]
    exact h.steps
  | some topic =>
    change stepsOf (((Proc.call _).attempt _).run outcomes.world.answer tc).1 = _
    rw [Proc.run_call_attempt]
    cases hreply : (outcomes.world.answer tc
      (.sendAndWait topic (dlqPayload py record (excText lastExc)) record.key)).2 with
    | error exc => exact h.steps
    | ok reply =>
      change stepsOf ((commit : Program V Unit).run _ _).1 = _
      rw [commit_run]
      exact h.steps

theorem Abreast.complete (h : Abreast tc tw) (result : Option V)
    (hlast : ∃ t, stepsOf tw = .work :: t) :
    Agree m.val
      ((DedupConsumer.complete record (some m.val) result).run outcomes.world.answer tc)
      ((Idempotent.complete m.val result).run outcomes.world.answer tw) := by
  unfold DedupConsumer.complete Idempotent.complete
  rw [DedupConsumer.ifMessageId_some, Proc.bind_eq, Proc.bind, Proc.attempt_assoc]
  refine h.call rfl fun reply h₁ => ?_
  have hmarked : ∃ t, stepsOf (⟨.markCompleted m.val result, reply⟩ :: tw) =
      .markCompleted m.val result :: .work :: t := by
    obtain ⟨t, ht⟩ := hlast
    exact ⟨t, congrArg _ ht⟩
  cases reply with
  | ok reply => exact h₁.processed result hmarked
  | error exc =>
    by_cases hexc : exc.isException = true
    · simp only [hexc, if_true]
      exact (h₁.processed result hmarked).emit nofun
    · simp only [hexc, if_false, Bool.false_eq_true]
      exact h₁.raised ⟨_, rfl, rfl⟩

section

variable {f : Bool → Program V Unit} {g : Bool → Program V (Option V)}

/-- What is left to do agrees after each answer of the `except` clause. -/
def AgreeAfter (outcomes : Outcomes V) (key : String) (f : Bool → Program V Unit)
    (g : Bool → Program V (Option V)) : Prop :=
  ∀ again tc tw, Abreast tc tw → (∀ x ∈ tw.head?, ∃ reply, x.reply = .ok reply) →
    Agree key ((f again).run outcomes.world.answer tc) ((g again).run outcomes.world.answer tw)

theorem Abreast.reclaim (h : Abreast tc tw) (hnext : AgreeAfter outcomes m.val f g) :
    Agree m.val ((DedupConsumer.reclaim (some m.val) >>= f).run outcomes.world.answer tc)
      ((await (.claim m.val) >>= g).run outcomes.world.answer tw) := by
  rw [DedupConsumer.reclaim_some]
  refine h.call rfl fun reply h₁ => ?_
  cases reply with
  | ok again =>
    refine hnext again _ _ h₁ ?_
    rintro _ ⟨⟩
    exact ⟨again, rfl⟩
  | error exc => exact h₁.raised ⟨_, rfl, rfl⟩

theorem Abreast.backoff (hretries : guard.configured.maxRetries = self.config.maxRetries)
    (hbackoff : guard.configured.retryBackoffMs = self.config.retryBackoffMs)
    (h : Abreast tc tw) (hlast : ∀ x ∈ tw.head?, ∃ reply, x.reply = .ok reply)
    (hnext : AgreeAfter outcomes m.val f g) :
    Agree m.val
      ((DedupConsumer.backoff self record (some m.val) attempts >>= f).run
        outcomes.world.answer tc)
      ((Idempotent.backoff guard m.val attempts >>= g).run outcomes.world.answer tw) := by
  unfold DedupConsumer.backoff Idempotent.backoff
  rw [hretries, hbackoff]
  split
  · simp only [Proc.bind_eq, Proc.bind, Proc.attempt_assoc]
    refine h.call rfl fun reply h₁ => ?_
    cases reply with
    | ok reply => exact (h₁.reclaim hnext).emit nofun
    | error exc => exact h₁.raised ⟨_, rfl, rfl⟩
  · exact hnext true _ _ h hlast

theorem Abreast.failed (hretries : guard.configured.maxRetries = self.config.maxRetries)
    (hbackoff : guard.configured.retryBackoffMs = self.config.retryBackoffMs) (exc : Exc)
    (h : Abreast tc tw) (hnext : AgreeAfter outcomes m.val f g) :
    Agree m.val
      ((DedupConsumer.handleFailed self record (some m.val) attempts exc >>= f).run
        outcomes.world.answer tc)
      ((Idempotent.attemptFailed guard m.val attempts exc >>= g).run
        outcomes.world.answer tw) := by
  unfold DedupConsumer.handleFailed Idempotent.attemptFailed
  rw [DedupConsumer.ifMessageId_some]
  simp only [recordMetric, Proc.note, Proc.bind_eq, Proc.bind, Proc.attempt_emit,
    Proc.attempt_pure, Proc.attempt_assoc]
  have hmetric : ∀ topic, Metric.error record.topic exc.typeName ≠ .dlq topic := nofun
  refine Agree.emit ?_ hmetric
  refine h.call rfl fun reply h₁ => ?_
  cases reply with
  | ok reply =>
    refine h₁.backoff hretries hbackoff ?_ hnext
    rintro _ ⟨⟩
    exact ⟨reply, rfl⟩
  | error exc => exact h₁.raised ⟨_, rfl, rfl⟩

end

theorem Abreast.attemptLoop (hretries : guard.configured.maxRetries = self.config.maxRetries)
    (hbackoff : guard.configured.retryBackoffMs = self.config.retryBackoffMs) (left : Nat)
    (lastExc lastExc' : Option Exc) (h : Abreast tc tw)
    (hlast : ∀ x ∈ tw.head?, ∃ reply, x.reply = .ok reply) :
    Agree m.val
      ((DedupConsumer.attemptLoop py self record (some m.val) payload left attempts lastExc).run
        outcomes.world.answer tc)
      ((Idempotent.attemptLoop guard m.val arguments left attempts lastExc').run
        outcomes.world.answer tw) := by
  induction left generalizing attempts lastExc lastExc' tc tw with
  | zero => exact h.exhausted lastExc _ hlast
  | succ left ih =>
    refine h.work payload arguments.payload fun reply h₁ => ?_
    cases reply with
    | ok result => exact h₁.complete result ⟨_, rfl⟩
    | error exc =>
      by_cases hexc : exc.isException = true
      · simp only [hexc, if_true]
        refine h₁.failed hretries hbackoff exc ?_
        intro again tc tw h hlast
        cases again with
        | true => exact ih (some exc) (some exc) h hlast
        | false => exact h.exhausted (some exc) exc hlast
      · simp only [hexc, if_false, Bool.false_eq_true]
        exact h₁.raised ⟨_, rfl, rfl⟩

end

/-- Right after a first claim that was won, `_execute_and_commit` of a record whose payload was
decoded and the wrapper of `@idempotent` make the same calls and end alike. -/
theorem lifecycles_agree (py : Python) (self : DedupConsumer) (guard : Idempotent)
    (record : ConsumerRecord) (arguments : Arguments) (outcomes : Outcomes V) {m : String}
    {payload : Payload} (hm : m ≠ "")
    (hretries : guard.configured.maxRetries = self.config.maxRetries)
    (hbackoff : guard.configured.retryBackoffMs = self.config.retryBackoffMs)
    (hdec : decodePayload py record = .ok payload) :
    SameLifecycle m
      ((self.executeAndCommit py record (some m)).run outcomes.world.answer [])
      ((guard.claimedFirst m arguments true).run outcomes.world.answer []) := by
  have hstart : Abreast ([] : List (Made V)) [] :=
    ⟨rfl, fun _ hx => absurd hx List.not_mem_nil⟩
  have hlast : ∀ x ∈ ([] : List (Made V)).head?, ∃ reply, x.reply = .ok reply := by
    intro x hx
    simp at hx
  have hagree : Agree m
      ((self.executeAndCommit py record (some m)).run outcomes.world.answer [])
      ((guard.claimedFirst m arguments true).run outcomes.world.answer []) := by
    unfold DedupConsumer.executeAndCommit Idempotent.claimedFirst Idempotent.whileAttempts
    rw [hdec, hretries]
    exact hstart.attemptLoop (m := ⟨m, hm⟩) hretries hbackoff _ none none hlast
  exact hagree.ends.same hagree.steps

/-- The first attempt fails, and the mark of the second. -/
def secondChance : Outcomes Unit where
  work := fun n => if n = 0 then .error handlerError else .ok none
  claim := fun _ => .ok true
  other := fun n => if n = 5 then .error handlerError else .ok ()
  elsewhere := fun
    | .claim _ => .ok true
    | .getStatus _ | .handle _ => .ok none
    | .markFailed _ _ _ | .markCompleted _ _ | .sleep _ | .sendAndWait _ _ _ | .commit => .ok ()

theorem lifecycles_agree_second_chance :
    let record : ConsumerRecord := ⟨"orders", 0, 7, none, none, []⟩
    let c := (DedupConsumer.executeAndCommit bareRuntime ⟨{}, none⟩ record (some "order-1")).run
      secondChance.world.answer []
    let w := (Idempotent.claimedFirst ⟨none, none⟩ "order-1" ⟨[.str "order-1"], []⟩ true).run
      secondChance.world.answer []
    SameLifecycle "order-1" c w ∧ w.2.2 = .ok none ∧ w.1.length = 6 ∧ c.1.length = 7 := by
  intro record c w
  refine ⟨?_, by decide +kernel, by decide +kernel, by decide +kernel⟩
  exact lifecycles_agree bareRuntime ⟨{}, none⟩ ⟨none, none⟩ record ⟨[.str "order-1"], []⟩
    secondChance (by decide) rfl rfl rfl

end MessageDedup
