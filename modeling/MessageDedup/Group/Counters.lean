import MessageDedup.Group.Session

/-!
# dedup_messages_total

The counter of `dedup_metrics.py` over any sequence of records that `_process_record` finishes. The
alert on duplicates divides by its sum over the statuses.
-/

namespace MessageDedup

open Coroutine (Proc)

variable {V A B : Type}

/-! ## The counter -/

/-- The values of the label `status`. -/
inductive MessageStatus where
  | processed
  | duplicate
  | claimLost
  | noId
  | dlq
  deriving DecidableEq, Repr

/-- `dedup_messages_total`, by topic and status. -/
abbrev MessagesTotal := String → MessageStatus → Nat

namespace MessagesTotal

/-- `messages_total.labels(topic=topic, status=status).inc()` -/
def inc (counter : MessagesTotal) (topic : String) (status : MessageStatus) : MessagesTotal :=
  fun t s => counter t s + if t = topic ∧ s = status then 1 else 0

def record (counter : MessagesTotal) : Metric → MessagesTotal
  | .noMessageId topic => counter.inc topic .noId
  | .claimLost topic => counter.inc topic .claimLost
  | .duplicate topic => counter.inc topic .duplicate
  | .dlq topic => counter.inc topic .dlq
  | .processed topic => counter.inc topic .processed
  | .error _ _ => counter
  | .retry _ => counter

def recordAll (counter : MessagesTotal) (metrics : List Metric) : MessagesTotal :=
  metrics.foldl record counter

def sum (counter : MessagesTotal) (topic : String) : Nat :=
  counter topic .processed + counter topic .duplicate + counter topic .claimLost +
    counter topic .noId + counter topic .dlq

theorem sum_inc (counter : MessagesTotal) (topic : String) (status : MessageStatus) :
    (counter.inc topic status).sum topic = counter.sum topic + 1 := by
  unfold sum inc
  cases status <;> simp <;> omega

theorem sum_foldl_inc (topic : String) (statuses : List MessageStatus) (counter : MessagesTotal) :
    (statuses.foldl (·.inc topic) counter).sum topic = counter.sum topic + statuses.length := by
  induction statuses generalizing counter with
  | nil => rfl
  | cons status statuses ih =>
    rw [List.foldl_cons, ih, sum_inc, List.length_cons]
    omega

end MessagesTotal

/-! ## How often a program counts -/

/-- The metrics count `n` times, each time for `topic`. -/
def Tally (topic : String) (n : Nat) (metrics : List Metric) : Prop :=
  ∃ statuses : List MessageStatus, statuses.length = n ∧
    ∀ counter : MessagesTotal, counter.recordAll metrics = statuses.foldl (·.inc topic) counter

section

variable {topic : String} {n k : Nat} {metrics metrics' : List Metric}

theorem Tally.nil : Tally topic 0 [] := ⟨[], rfl, fun _ => rfl⟩

theorem Tally.none {metric : Metric}
    (h : ∀ counter : MessagesTotal, counter.record metric = counter) : Tally topic 0 [metric] :=
  ⟨[], rfl, h⟩

theorem Tally.single {metric : Metric} (status : MessageStatus)
    (h : ∀ counter : MessagesTotal, counter.record metric = counter.inc topic status) :
    Tally topic 1 [metric] :=
  ⟨[status], rfl, h⟩

theorem Tally.append (h : Tally topic n metrics) (h' : Tally topic k metrics') :
    Tally topic (n + k) (metrics ++ metrics') := by
  obtain ⟨statuses, rfl, heq⟩ := h
  obtain ⟨statuses', rfl, heq'⟩ := h'
  refine ⟨statuses ++ statuses', List.length_append, fun counter => ?_⟩
  rw [List.foldl_append, ← heq, ← heq']
  exact List.foldl_append

theorem Tally.sum (h : Tally topic n metrics) (counter : MessagesTotal) :
    (counter.recordAll metrics).sum topic = counter.sum topic + n := by
  obtain ⟨statuses, rfl, heq⟩ := h
  rw [heq, MessagesTotal.sum_foldl_inc]

theorem Tally.one (h : Tally topic 1 metrics) :
    ∃ status, ∀ counter : MessagesTotal, counter.recordAll metrics = counter.inc topic status := by
  obtain ⟨statuses, hlen, heq⟩ := h
  obtain ⟨status, rfl⟩ := List.length_eq_one_iff.mp hlen
  exact ⟨status, heq⟩

end

/-- Whenever `p` returns, it has counted `n` times for `topic`, whatever it was answered. -/
def Counts {σ : Type} (topic : String) (n : Nat) (p : Program V A) (s : σ) : Prop :=
  p.Ensures (fun _ _ => True) (fun _ _ _ _ => True)
    (fun _ metrics r => ∀ a, r = .ok a → Tally topic n metrics) s

section

variable {σ : Type} {topic : String} {n k : Nat} {s : σ}

theorem Counts.pure (a : A) : Counts topic 0 (Proc.pure a : Program V A) s :=
  fun _ _ => Tally.nil

theorem Counts.raise (exc : Exc) : Counts topic n (Proc.raise exc : Program V A) s := by
  intro a h
  cases h

theorem Counts.await (c : Call V) : Counts topic 0 (await c) s := by
  refine ⟨trivial, fun r s' _ => ?_⟩
  cases r with
  | ok a => exact Counts.pure a
  | error exc => exact Counts.raise exc

theorem Counts.bind {p : Program V A} {f : A → Program V B} (hp : Counts topic n p s)
    (hf : ∀ a (s' : σ), Counts topic k (f a) s') : Counts topic (n + k) (p >>= f) s := by
  apply Proc.Ensures.bind hp
  · intro s' ms a hcount
    apply (hf a s').mono
    intro s'' ms' r hcount' b hr
    exact (hcount a rfl).append (hcount' b hr)
  · intro s' ms e _ a h
    cases h

theorem Counts.next {p : Program V A} {f : A → Program V B} (hp : Counts topic 0 p s)
    (hf : ∀ a (s' : σ), Counts topic n (f a) s') : Counts topic n (p >>= f) s := by
  have h := hp.bind hf
  rwa [Nat.zero_add] at h

theorem Counts.last {p : Program V A} {f : A → Program V B} (hp : Counts topic n p s)
    (hf : ∀ a (s' : σ), Counts topic 0 (f a) s') : Counts topic n (p >>= f) s :=
  hp.bind hf

theorem Counts.attempt {c : Call V} {f : Except Exc c.Reply → Program V B}
    (hf : ∀ r (s' : σ), Counts topic n (f r) s') :
    Counts topic n ((MessageDedup.await c).attempt f) s := by
  refine ⟨trivial, fun r s' _ => ?_⟩
  cases r with
  | ok a => exact hf _ s'
  | error exc => exact hf _ s'

theorem Counts.record {metric : Metric} (h : Tally topic n [metric]) :
    Counts topic n (recordMetric metric : Program V Unit) s :=
  fun _ _ => h

theorem Counts.ifMessageId {messageId : Option String} {p : String → Program V Unit}
    (hp : ∀ m, Counts topic 0 (p m) s) : Counts topic 0 (ifMessageId messageId p) s := by
  unfold MessageDedup.ifMessageId
  split
  · split
    · exact hp _
    · exact Counts.pure ()
  · exact Counts.pure ()

theorem Counts.run {p : Program V A} (hp : Counts topic n p s)
    {answer : σ → (c : Call V) → σ × Except Exc c.Reply} {a : A}
    (h : (p.run answer s).2.2 = .ok a) : Tally topic n (p.run answer s).2.1 :=
  Proc.Ensures.run_always (fun _ _ _ => trivial) hp a h

end

/-! ## The parts of a delivery -/

namespace DedupConsumer

variable {σ : Type} {self : DedupConsumer} {record : ConsumerRecord} {py : Python}
  {messageId : Option String} {payload : Payload} {attempts : Int} {s : σ}

theorem sendToDlq_counts (error : String) :
    Counts record.topic 0 (sendToDlq py self record error : Program V Unit) s := by
  unfold sendToDlq
  split
  · exact Counts.pure ()
  · exact Counts.await _

theorem exhausted_counts (lastExc : Option Exc) :
    Counts record.topic 1 (exhausted py self record lastExc : Program V Unit) s := by
  unfold exhausted
  have hdlq : Tally record.topic 1 [.dlq record.topic] := .single .dlq fun _ => rfl
  apply (Counts.record hdlq).last
  intro _ s₁
  apply (sendToDlq_counts _).next
  intro _ s₂
  exact Counts.await _

theorem complete_counts (result : Option V) :
    Counts record.topic 1 (complete record messageId result : Program V Unit) s := by
  unfold complete
  refine Counts.next (.ifMessageId fun m => .attempt ?_) fun _ s₁ => ?_
  · rintro (exc | _) s'
    · dsimp only
      split
      · exact Counts.record (.none fun _ => rfl)
      · exact Counts.raise exc
    · exact Counts.pure ()
  · apply (Counts.await _).next
    intro _ s₂
    exact Counts.record (.single .processed fun _ => rfl)

theorem reclaim_counts : Counts record.topic 0 (reclaim messageId : Program V Bool) s := by
  unfold reclaim
  split
  · split
    · exact Counts.await _
    · exact Counts.pure true
  · exact Counts.pure true

theorem backoff_counts :
    Counts record.topic 0 (backoff self record messageId attempts : Program V Bool) s := by
  unfold backoff
  split
  · apply (Counts.await _).next
    intro _ s₁
    apply (Counts.record (.none fun _ => rfl)).next
    intro _ s₂
    exact reclaim_counts
  · exact Counts.pure true

theorem handleFailed_counts (exc : Exc) :
    Counts record.topic 0
      (handleFailed self record messageId attempts exc : Program V Bool) s := by
  unfold handleFailed
  apply (Counts.record (.none fun _ => rfl)).next
  intro _ s₁
  refine Counts.next (.ifMessageId fun m => .await _) fun _ s₂ => ?_
  exact backoff_counts

theorem attemptLoop_counts (left : Nat) (lastExc : Option Exc) :
    Counts record.topic 1
      (attemptLoop py self record messageId payload left attempts lastExc : Program V Unit) s := by
  induction left generalizing attempts lastExc s with
  | zero => exact exhausted_counts lastExc
  | succ left ih =>
    unfold attemptLoop
    apply Counts.attempt
    rintro (exc | result) s₁
    · dsimp only
      split
      · apply (handleFailed_counts exc).next
        intro again s₂
        split
        · exact ih _
        · exact exhausted_counts _
      · exact Counts.raise exc
    · exact complete_counts result

theorem executeAndCommit_counts :
    Counts record.topic 1 (executeAndCommit py self record messageId : Program V Unit) s := by
  unfold executeAndCommit
  cases decodePayload py record with
  | error exc => exact Counts.raise exc
  | ok payload => exact attemptLoop_counts _ none

theorem skip_counts (m : String) :
    Counts record.topic 1 (skip record m : Program V Unit) s := by
  unfold skip
  apply (Counts.await _).next
  intro existing s₁
  dsimp only
  split
  · apply (Counts.record (.single .claimLost fun _ => rfl)).last
    intro _ s₂
    exact Counts.await _
  · apply (Counts.record (.single .duplicate fun _ => rfl)).last
    intro _ s₂
    exact Counts.await _

/-- How often `_process_record` counts a record that it finishes. -/
def timesCounted (py : Python) (record : ConsumerRecord) : Nat :=
  if extractMessageId py record = .ok none then 2 else 1

theorem processRecord_counts :
    Counts record.topic (timesCounted py record)
      (processRecord py self record : Program V Unit) s := by
  unfold processRecord timesCounted
  cases extractMessageId py record with
  | error exc => exact Counts.raise exc
  | ok id =>
    cases id with
    | none =>
      rw [if_pos rfl]
      have hnoId : Tally record.topic 1 [.noMessageId record.topic] :=
        .single .noId fun _ => rfl
      have htwice : Counts record.topic (1 + 1)
          (recordMetric (.noMessageId record.topic) >>= fun _ =>
            executeAndCommit py self record none : Program V Unit) s := by
        apply (Counts.record hnoId).bind
        intro _ s₁
        exact executeAndCommit_counts
      exact htwice
    | some m =>
      rw [if_neg (by simp)]
      apply (Counts.await (.claim m)).next
      intro claimed s₁
      split
      · exact executeAndCommit_counts
      · exact skip_counts m

/-! ## Any sequence of records -/

/-- What the metrics heard of a record, and how `_process_record` ended on it. -/
structure Metered where
  record : ConsumerRecord
  metrics : List Metric
  outcome : Except Exc Unit

/-- `_process_record` on one record after the other, where `answer` answers its calls. -/
def processRecords (py : Python) (self : DedupConsumer)
    (answer : σ → (c : Call V) → σ × Except Exc c.Reply) : List ConsumerRecord → σ → List Metered
  | [], _ => []
  | record :: records, s =>
    let r := (processRecord py self record : Program V Unit).run answer s
    ⟨record, r.2.1, r.2.2⟩ :: processRecords py self answer records r.1

section

variable {answer : σ → (c : Call V) → σ × Except Exc c.Reply}

theorem map_record (records : List ConsumerRecord) :
    (processRecords py self answer records s).map (·.record) = records := by
  induction records generalizing s with
  | nil => rfl
  | cons record records ih => exact congrArg (record :: ·) ih

theorem processRecords_counts (records : List ConsumerRecord) :
    ∀ f ∈ processRecords py self answer records s, f.outcome = .ok () →
      Tally f.record.topic (timesCounted py f.record) f.metrics := by
  induction records generalizing s with
  | nil =>
    intro f hf
    simp [processRecords] at hf
  | cons record records ih =>
    intro f hf hok
    rcases List.mem_cons.mp hf with rfl | hf
    · exact processRecord_counts.run hok
    · exact ih f hf hok

end

end DedupConsumer

open DedupConsumer

/-- Over these records the sum for `topic` grew by their number, and each of them was counted under
one status only. -/
structure Partitioned (topic : String) (before : MessagesTotal) (metered : List Metered) :
    Prop where
  sum : (before.recordAll (metered.flatMap (·.metrics))).sum topic =
    before.sum topic + metered.length
  once : ∀ f ∈ metered, ∃ status, ∀ counter : MessagesTotal,
    counter.recordAll f.metrics = counter.inc topic status

theorem Partitioned.of_tally {topic : String} {metered : List Metered}
    (h : ∀ f ∈ metered, Tally topic 1 f.metrics) (before : MessagesTotal) :
    Partitioned topic before metered where
  sum := by
    induction metered generalizing before with
    | nil => rfl
    | cons f metered ih =>
      obtain ⟨hf, hrest⟩ := List.forall_mem_cons.mp h
      have hsum := ih hrest (before.recordAll f.metrics)
      rw [hf.sum] at hsum
      rw [List.flatMap_cons, MessagesTotal.recordAll, List.foldl_append, List.length_cons]
      exact hsum.trans (by omega)
  once := fun f hf => (h f hf).one

theorem counters_partition_iff {V σ : Type} (py : Python) (self : DedupConsumer)
    (answer : σ → (c : Call V) → σ × Except Exc c.Reply) (topic : String)
    (records : List ConsumerRecord) (htopic : ∀ record ∈ records, record.topic = topic) (s : σ)
    (before : MessagesTotal)
    (hreturned : ∀ f ∈ processRecords py self answer records s, f.outcome = .ok ()) :
    Partitioned topic before (processRecords py self answer records s) ↔
      ∀ record ∈ records, extractMessageId py record ≠ .ok none := by
  have hmap : (processRecords py self answer records s).map (·.record) = records :=
    map_record records
  have hrecord : ∀ f ∈ processRecords py self answer records s, f.record ∈ records := by
    intro f hf
    rw [← hmap]
    exact List.mem_map_of_mem hf
  have htally : ∀ f ∈ processRecords py self answer records s,
      Tally topic (timesCounted py f.record) f.metrics := by
    intro f hf
    rw [← htopic f.record (hrecord f hf)]
    exact processRecords_counts records f hf (hreturned f hf)
  constructor
  · intro h record hmem hnone
    rw [← hmap] at hmem
    obtain ⟨f, hf, rfl⟩ := List.mem_map.mp hmem
    obtain ⟨status, heq⟩ := h.once f hf
    have htwice := (htally f hf).sum before
    rw [heq, MessagesTotal.sum_inc, timesCounted, if_pos hnone] at htwice
    omega
  · intro h
    apply Partitioned.of_tally
    intro f hf
    have hone := htally f hf
    rwa [timesCounted, if_neg (h f.record (hrecord f hf))] at hone

/-! ## Two runs against the in-memory store -/

def countedRecord (id : Option String) : ConsumerRecord :=
  ⟨"orders", 0, 0, none, none, id.toList.map fun m => ("X-Message-Id", some (encode m))⟩

/-- A record is processed, its copy is a duplicate, and another record fails until it is dropped. -/
theorem counters_partition_orders :
    let env : Surroundings Unit :=
      ⟨fun _ => 0, fun n => if n = 1 then .ok none else .error handlerError⟩
    let start : Session (.inMemory {} : Backend Unit Unit) := ⟨0, Backend.empty _, 0, []⟩
    let metered := processRecords bareRuntime ⟨{}, none⟩ (Session.answer env)
      (["order-1", "order-1", "order-2"].map fun m => countedRecord (some m)) start
    let after := MessagesTotal.recordAll (fun _ _ => 0) (metered.flatMap (·.metrics))
    after "orders" .processed = 1 ∧ after "orders" .duplicate = 1 ∧ after "orders" .dlq = 1 ∧
      Partitioned "orders" (fun _ _ => 0) metered := by
  intro env start metered after
  have hids : ∀ record ∈ ["order-1", "order-1", "order-2"].map fun m => countedRecord (some m),
      record.topic = "orders" ∧ extractMessageId bareRuntime record ≠ .ok none := by
    decide +kernel
  have hreturned : ∀ f ∈ metered, f.outcome = .ok () := by
    decide +kernel
  have hiff := counters_partition_iff bareRuntime ⟨{}, none⟩ (Session.answer env) "orders" _
    (fun record hmem => (hids record hmem).1) start (fun _ _ => 0) hreturned
  refine ⟨by decide +kernel, by decide +kernel, by decide +kernel, ?_⟩
  exact hiff.mpr fun record hmem => (hids record hmem).2

/-- A record without an id is counted under `no_id`, and again when it has been processed. -/
theorem counters_partition_no_id :
    let env : Surroundings Unit := ⟨fun _ => 0, fun _ => .ok none⟩
    let start : Session (.inMemory {} : Backend Unit Unit) := ⟨0, Backend.empty _, 0, []⟩
    let metered := processRecords bareRuntime ⟨{}, none⟩ (Session.answer env)
      [countedRecord none] start
    let after := MessagesTotal.recordAll (fun _ _ => 0) (metered.flatMap (·.metrics))
    (∀ f ∈ metered, f.outcome = .ok ()) ∧ metered.length = 1 ∧
      after "orders" .noId = 1 ∧ after "orders" .processed = 1 ∧
      ¬ Partitioned "orders" (fun _ _ => 0) metered := by
  intro env start metered after
  have hsum : after.sum "orders" = 2 := by decide +kernel
  refine ⟨by decide +kernel, rfl, by decide +kernel, by decide +kernel, ?_⟩
  intro h
  have htwo : after.sum "orders" = 0 + 1 := h.sum
  omega

end MessageDedup
