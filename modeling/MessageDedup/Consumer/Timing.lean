import MessageDedup.Consumer.Lifecycle
import MessageDedup.Lib.Spans

/-!
# dedup_metrics.py in dedup_consumer.py

`_process_record` with its timing blocks, `measure_processing` and `measure_store_op`. They change
nothing of what it does: the programs of `Lifecycle.lean` are these without their timings.
-/

namespace MessageDedup

open Coroutine (Proc Happening)

variable {V : Type}

/-! ## The metrics -/

/-- What is recorded: an event counter, a change of `active_processing`, or an observation of one
of the two histograms. -/
inductive Recording where
  | count (metric : Metric)
  | activeInc (topic : String)
  | activeDec (topic : String)
  | processingDuration (topic : String)
  | storeOperation (operation : String)
  deriving DecidableEq, Repr

abbrev Timed (V A : Type) := Proc (Call V) Call.Reply Recording Exc A

def measureProcessing {A : Type} (topic : String) (p : Timed V A) : Timed V A :=
  p.enclosed [.activeInc topic] [.activeDec topic, .processingDuration topic]

def measureStoreOp {A : Type} (operation : String) (p : Timed V A) : Timed V A :=
  p.followed [.storeOperation operation]

/-- A function without a timing block in it. -/
def untimed {A : Type} (p : Program V A) : Timed V A := p.annotate .count fun _ => []

/-! ## The programs -/

namespace Timed

variable (py : Python) (self : DedupConsumer) (record : ConsumerRecord) (messageId : Option String)
  (payload : Payload)

def await (c : Call V) : Timed V c.Reply := Proc.call c

def recordMetric (metric : Metric) : Timed V Unit := Proc.note (.count metric)

def ifMessageId (p : String → Timed V Unit) : Timed V Unit :=
  match messageId with
  | some m => if m ≠ "" then p m else pure ()
  | none => pure ()

def complete (result : Option V) : Timed V Unit := do
  ifMessageId messageId fun m =>
    (measureStoreOp "mark_completed" (await (.markCompleted m result))).attempt fun
      | .ok _ => pure ()
      | .error exc =>
        if exc.isException then recordMetric (.error record.topic exc.typeName) else Proc.raise exc
  untimed commit
  recordMetric (.processed record.topic)

def exhausted (lastExc : Option Exc) : Timed V Unit := do
  recordMetric (.dlq record.topic)
  untimed (self.sendToDlq py record (excText lastExc))
  untimed commit

def reclaim : Timed V Bool :=
  match messageId with
  | some m => if m ≠ "" then measureStoreOp "claim" (await (.claim m)) else pure true
  | none => pure true

def backoff (attempts : Int) : Timed V Bool :=
  if attempts < self.config.maxRetries then do
    await (.sleep (self.config.retryBackoffMs * attempts))
    recordMetric (.retry record.topic)
    reclaim messageId
  else pure true

def handleFailed (attempts : Int) (exc : Exc) : Timed V Bool := do
  recordMetric (.error record.topic exc.typeName)
  ifMessageId messageId fun m =>
    measureStoreOp "mark_failed" (await (.markFailed m exc.text attempts))
  backoff self record messageId attempts

def attemptLoop : Nat → (attempts : Int) → (lastExc : Option Exc) → Timed V Unit
  | 0, _, lastExc => exhausted py self record lastExc
  | left + 1, attempts, _ =>
    (await (.handle payload)).attempt fun
      | .ok result => complete record messageId result
      | .error exc =>
        if exc.isException then do
          if ← handleFailed self record messageId attempts exc then
            attemptLoop left (attempts + 1) (some exc)
          else exhausted py self record (some exc)
        else Proc.raise exc

def whileAttempts (attempts : Int) (lastExc : Option Exc) : Timed V Unit :=
  attemptLoop py self record messageId payload (self.config.maxRetries + 1 - attempts).toNat
    attempts lastExc

def executeAndCommit : Timed V Unit := do
  let payload ← Proc.ofExcept (decodePayload py record)
  whileAttempts py self record messageId payload 1 none

def skip (m : String) : Timed V Unit := do
  let existing ← measureStoreOp "get_status" (await (.getStatus m))
  if existing.any (·.status = .processing) then recordMetric (.claimLost record.topic)
  else recordMetric (.duplicate record.topic)
  untimed commit

def processRecord : Timed V Unit := do
  match ← Proc.ofExcept (extractMessageId py record) with
  | none =>
    recordMetric (.noMessageId record.topic)
    executeAndCommit py self record none
  | some m =>
    if ← measureStoreOp "claim" (await (.claim m)) then
      measureProcessing record.topic (executeAndCommit py self record (some m))
    else skip record m

end Timed

/-! ## The programs without their timings -/

/-- The label of a store call in `store_operation_duration_seconds`. -/
def Call.operation : Call V → Option String
  | .claim _ => some "claim"
  | .getStatus _ => some "get_status"
  | .markFailed _ _ _ => some "mark_failed"
  | .markCompleted _ _ => some "mark_completed"
  | _ => none

/-- The program with each of its store calls timed. -/
def timed {A : Type} (p : Program V A) : Timed V A :=
  p.annotate .count fun c => (c.operation.map .storeOperation).toList

section

variable {A B : Type}

theorem timed_bind (p : Program V A) (k : A → Program V B) :
    timed (p.bind k) = (timed p).bind fun a => timed (k a) :=
  Proc.annotate_bind p k

theorem timed_attempt (p : Program V A) (k : Except Exc A → Program V B) :
    timed (p.attempt k) = (timed p).attempt fun r => timed (k r) :=
  Proc.annotate_attempt p k

theorem timed_ite {P : Prop} [Decidable P] (p q : Program V A) :
    timed (if P then p else q) = if P then timed p else timed q :=
  Proc.annotate_ite p q

theorem timed_recordMetric (metric : Metric) :
    timed (recordMetric metric : Program V Unit) = Timed.recordMetric metric := rfl

theorem timed_claim (m : String) :
    timed (await (.claim m) : Program V Bool) =
      measureStoreOp "claim" (Timed.await (.claim m)) :=
  Proc.annotate_call _

theorem timed_getStatus (m : String) :
    timed (await (.getStatus m) : Program V (Option (ProcessingStatus V))) =
      measureStoreOp "get_status" (Timed.await (.getStatus m)) :=
  Proc.annotate_call _

theorem timed_markFailed (m error : String) (attempts : Int) :
    timed (await (.markFailed m error attempts) : Program V Unit) =
      measureStoreOp "mark_failed" (Timed.await (.markFailed m error attempts)) :=
  Proc.annotate_call _

theorem timed_markCompleted (m : String) (result : Option V) :
    timed (await (.markCompleted m result) : Program V Unit) =
      measureStoreOp "mark_completed" (Timed.await (.markCompleted m result)) :=
  Proc.annotate_call _

theorem timed_other {c : Call V} (h : c.operation = none) : timed (await c) = Timed.await c := by
  refine Proc.await_congr fun r => ?_
  simp only [h]
  cases r <;> rfl

theorem timed_commit : timed (commit : Program V Unit) = untimed commit := by
  refine Proc.await_congr fun r => ?_
  cases r <;> rfl

theorem timed_sendToDlq (py : Python) (self : DedupConsumer) (record : ConsumerRecord)
    (error : String) :
    timed (self.sendToDlq py record error : Program V Unit) =
      untimed (self.sendToDlq py record error) := by
  unfold DedupConsumer.sendToDlq
  cases self.dlq with
  | none => rfl
  | some topic =>
    refine Proc.await_congr fun r => ?_
    cases r <;> rfl

end

namespace Timed

variable {py : Python} {self : DedupConsumer} {record : ConsumerRecord}
  {messageId : Option String} {payload : Payload}

theorem ifMessageId_timed (p : String → Program V Unit) :
    timed (MessageDedup.ifMessageId messageId p) =
      ifMessageId messageId fun m => timed (p m) := by
  unfold MessageDedup.ifMessageId ifMessageId
  cases messageId with
  | none => rfl
  | some m =>
    simp only
    split <;> rfl

theorem complete_timed (result : Option V) :
    timed (DedupConsumer.complete record messageId result) =
      complete record messageId result := by
  unfold DedupConsumer.complete complete
  simp only [Proc.bind_eq, timed_bind, ifMessageId_timed, timed_attempt, timed_commit,
    timed_recordMetric]
  congr 2
  funext m
  congr 1
  · exact timed_markCompleted m result
  · funext r
    rcases r with e | r
    · exact timed_ite _ _
    · rfl

theorem exhausted_timed (lastExc : Option Exc) :
    timed (self.exhausted py record lastExc : Program V Unit) =
      exhausted py self record lastExc := by
  unfold DedupConsumer.exhausted exhausted
  simp only [Proc.bind_eq, timed_bind, timed_sendToDlq, timed_commit, timed_recordMetric]

theorem reclaim_timed :
    timed (DedupConsumer.reclaim messageId : Program V Bool) = reclaim messageId := by
  unfold DedupConsumer.reclaim reclaim
  cases messageId with
  | none => rfl
  | some m =>
    rw [timed_ite]
    exact congrArg (fun p => if m ≠ "" then p else pure true) (timed_claim m)

theorem backoff_timed (attempts : Int) :
    timed (self.backoff record messageId attempts : Program V Bool) =
      backoff self record messageId attempts := by
  unfold DedupConsumer.backoff backoff
  simp only [timed_ite, Proc.bind_eq, timed_bind, timed_recordMetric, reclaim_timed]
  rw [timed_other rfl]
  rfl

theorem handleFailed_timed (attempts : Int) (exc : Exc) :
    timed (self.handleFailed record messageId attempts exc : Program V Bool) =
      handleFailed self record messageId attempts exc := by
  unfold DedupConsumer.handleFailed handleFailed
  simp only [Proc.bind_eq, timed_bind, ifMessageId_timed, timed_recordMetric, backoff_timed]
  refine congrArg (Proc.bind _) (funext fun _ => ?_)
  congr 2
  funext m
  exact timed_markFailed m exc.text attempts

theorem attemptLoop_timed (left : Nat) (attempts : Int) (lastExc : Option Exc) :
    timed (self.attemptLoop py record messageId payload left attempts lastExc : Program V Unit) =
      attemptLoop py self record messageId payload left attempts lastExc := by
  induction left generalizing attempts lastExc with
  | zero => exact exhausted_timed lastExc
  | succ left ih =>
    unfold DedupConsumer.attemptLoop attemptLoop
    rw [timed_attempt, timed_other rfl]
    congr 1
    funext r
    rcases r with exc | result
    · simp only [timed_ite, Proc.bind_eq, timed_bind, handleFailed_timed, ih, exhausted_timed]
      rfl
    · exact complete_timed result

theorem executeAndCommit_timed :
    timed (self.executeAndCommit py record messageId : Program V Unit) =
      executeAndCommit py self record messageId := by
  unfold DedupConsumer.executeAndCommit executeAndCommit DedupConsumer.whileAttempts whileAttempts
  simp only [Proc.bind_eq, timed_bind, attemptLoop_timed]
  congr 1
  exact Proc.annotate_ofExcept _

theorem skip_timed (m : String) :
    timed (DedupConsumer.skip record m : Program V Unit) = skip record m := by
  unfold DedupConsumer.skip skip
  simp only [Proc.bind_eq, timed_bind]
  congr 1
  · exact timed_getStatus m
  · funext existing
    split <;> simp only [timed_bind, timed_recordMetric, timed_commit]

end Timed

/-! ## What the metrics show -/

abbrev TimedHistory (V : Type) := List (Happening (Call V) Recording)

/-- What an event does to `active_processing` of a topic. -/
def Recording.change (topic : String) : Recording → Int
  | .activeInc t => if t = topic then 1 else 0
  | .activeDec t => if t = topic then -1 else 0
  | _ => 0

def happeningChange (topic : String) : Happening (Call V) Recording → Int
  | .called _ => 0
  | .noted note => note.change topic

/-- `active_processing` of a topic after a history. -/
def activeProcessing (topic : String) : TimedHistory V → Int
  | [] => 0
  | x :: h => happeningChange topic x + activeProcessing topic h

/-- A history without its timings. -/
def untimedPart : Happening (Call V) Recording → Option (Happening (Call V) Metric)
  | .called c => some (.called c)
  | .noted (.count metric) => some (.noted metric)
  | .noted _ => none

def isDuration (topic : String) : Happening (Call V) Recording → Bool
  | .noted (.processingDuration t) => t = topic
  | _ => false

/-- Each store call is observed once, right after it has ended, and nothing else is. -/
inductive Observed : TimedHistory V → Prop
  | nil : Observed []
  | store {c : Call V} {operation : String} {h : TimedHistory V}
      (hc : c.operation = some operation) (hrest : Observed h) :
      Observed (.called c :: .noted (.storeOperation operation) :: h)
  | other {c : Call V} {h : TimedHistory V} (hc : c.operation = none) (hrest : Observed h) :
      Observed (.called c :: h)
  | note {note : Recording} {h : TimedHistory V}
      (hnote : ∀ operation, note ≠ .storeOperation operation) (hrest : Observed h) :
      Observed (.noted note :: h)

/-- What the metrics show of a delivery of a record of `topic`. `won` says that its first claim was
won: then it is active from that claim to its end, and its duration is observed once. -/
structure Shown (topic : String) (won : Bool) (h : TimedHistory V) : Prop where
  observed : Observed h
  active : ∀ t before c after, h = before ++ .called c :: after →
    activeProcessing t before = if t = topic ∧ won = true ∧ before ≠ [] then 1 else 0
  inactive : ∀ t, activeProcessing t h = 0
  durations : ∀ t, h.countP (isDuration t) = if t = topic ∧ won = true then 1 else 0

/-! ### A timed part -/

def annotated (h : List (Happening (Call V) Metric)) : TimedHistory V :=
  h.flatMap (Proc.annotateOne .count fun c => (c.operation.map .storeOperation).toList)

theorem annotated_cons_called (c : Call V) (h : List (Happening (Call V) Metric)) :
    annotated (.called c :: h) =
      .called c :: ((c.operation.map fun o => Happening.noted (.storeOperation o)).toList ++
        annotated h) := by
  cases c <;> rfl

theorem annotated_cons_noted (metric : Metric) (h : List (Happening (Call V) Metric)) :
    annotated (.noted metric :: h) = .noted (.count metric) :: annotated h := rfl

theorem untimedPart_annotated (h : List (Happening (Call V) Metric)) :
    (annotated h).filterMap untimedPart = h := by
  induction h with
  | nil => rfl
  | cons x h ih =>
    cases x with
    | called c =>
      rw [annotated_cons_called]
      cases c <;> exact congrArg (_ :: ·) ih
    | noted metric => exact congrArg (_ :: ·) ih

theorem observed_annotated (h : List (Happening (Call V) Metric)) : Observed (annotated h) := by
  induction h with
  | nil => exact .nil
  | cons x h ih =>
    cases x with
    | called c =>
      rw [annotated_cons_called]
      cases c with
      | claim _ | getStatus _ | markFailed _ _ _ | markCompleted _ _ => exact .store rfl ih
      | handle _ | sleep _ | sendAndWait _ _ _ | commit => exact .other rfl ih
    | noted metric => exact .note nofun ih

theorem quiet_annotated (h : List (Happening (Call V) Metric)) :
    ∀ x ∈ annotated h, ∀ t, happeningChange t x = 0 ∧ isDuration t x = false := by
  induction h with
  | nil => exact nofun
  | cons x h ih =>
    cases x with
    | called c =>
      rw [annotated_cons_called]
      cases c <;> simp only [Call.operation, Option.map_some, Option.map_none, Option.toList,
        List.nil_append, List.cons_append, List.forall_mem_cons]
      all_goals first
        | exact ⟨fun t => ⟨rfl, rfl⟩, fun t => ⟨rfl, rfl⟩, ih⟩
        | exact ⟨fun t => ⟨rfl, rfl⟩, ih⟩
    | noted metric =>
      rw [annotated_cons_noted, List.forall_mem_cons]
      exact ⟨fun t => ⟨rfl, rfl⟩, ih⟩

/-- No span begins or ends in `h`. -/
def Quiet (h : TimedHistory V) : Prop :=
  ∀ x ∈ h, ∀ t, happeningChange t x = 0 ∧ isDuration t x = false

theorem activeProcessing_append (t : String) (h h' : TimedHistory V) :
    activeProcessing t (h ++ h') = activeProcessing t h + activeProcessing t h' := by
  induction h with
  | nil => exact (Int.zero_add _).symm
  | cons x h ih =>
    simp only [List.cons_append, activeProcessing, ih]
    omega

theorem Quiet.active {h : TimedHistory V} (hquiet : Quiet h) (t : String) :
    activeProcessing t h = 0 := by
  induction h with
  | nil => rfl
  | cons x h ih =>
    have hx := (hquiet x (List.mem_cons_self ..) t).1
    have hrest := ih fun y hy => hquiet y (List.mem_cons_of_mem _ hy)
    simp only [activeProcessing, hx, hrest, Int.add_zero]

theorem Quiet.durations {h : TimedHistory V} (hquiet : Quiet h) (t : String) :
    h.countP (isDuration t) = 0 := by
  rw [List.countP_eq_zero]
  intro x hx
  rw [(hquiet x hx t).2]
  exact nofun

theorem Quiet.left {before after : TimedHistory V} (hquiet : Quiet (before ++ after)) :
    Quiet before :=
  fun x hx => hquiet x (List.mem_append_left _ hx)

theorem Quiet.shown {h : TimedHistory V} (hquiet : Quiet h) (hobserved : Observed h)
    (topic : String) : Shown topic false h where
  observed := hobserved
  active := by
    rintro t before c after rfl
    rw [hquiet.left.active, if_neg nofun]
  inactive := hquiet.active
  durations := by
    intro t
    rw [hquiet.durations, if_neg nofun]

/-! ### A span -/

section

variable {body : TimedHistory V} (topic m : String)

/-- A delivery whose claim was won, with `body` in its span. -/
def spanned (body : TimedHistory V) : TimedHistory V :=
  .called (.claim m) :: .noted (.storeOperation "claim") :: .noted (.activeInc topic) ::
    (body ++ [.noted (.activeDec topic), .noted (.processingDuration topic)])

theorem spanned_observed (hobserved : Observed body) : Observed (spanned topic m body) := by
  refine .store rfl (.note nofun ?_)
  induction hobserved with
  | nil => exact .note nofun (.note nofun .nil)
  | store hc _ ih => exact .store hc ih
  | other hc _ ih => exact .other hc ih
  | note hnote _ ih => exact .note hnote ih

theorem spanned_split {before after : TimedHistory V} {c : Call V}
    (h : spanned topic m body = before ++ .called c :: after) :
    before = [] ∨ ∃ b rest, body = b ++ rest ∧ before = .called (.claim m) ::
      .noted (.storeOperation "claim") :: .noted (.activeInc topic) :: b := by
  unfold spanned at h
  match before, h with
  | [], _ => exact .inl rfl
  | [_], h => simp at h
  | [_, _], h => simp at h
  | _ :: _ :: _ :: b, h =>
    simp only [List.cons_append, List.cons.injEq] at h
    obtain ⟨rfl, rfl, rfl, h⟩ := h
    refine .inr ⟨b, ?_⟩
    rcases List.append_eq_append_iff.mp h with ⟨rest, rfl, hrest⟩ | ⟨rest, rfl, -⟩
    · match rest, hrest with
      | [], hrest => simp at hrest
      | [_], hrest => simp at hrest
      | _ :: _ :: _, hrest => simp at hrest
    · exact ⟨rest, rfl, rfl⟩

theorem spanned_shown (hquiet : Quiet body) (hobserved : Observed body) :
    Shown topic true (spanned topic m body) where
  observed := spanned_observed topic m hobserved
  active := by
    intro t before c after h
    rcases spanned_split topic m h with rfl | ⟨b, rest, rfl, rfl⟩
    · rw [if_neg]
      · rfl
      · rintro ⟨-, -, hne⟩
        exact hne rfl
    · have hb := hquiet.left.active t
      rcases eq_or_ne t topic with rfl | ht
      · simp [activeProcessing, happeningChange, Recording.change, hb]
      · simp [activeProcessing, happeningChange, Recording.change, hb, ht, ht.symm]
  inactive := by
    intro t
    have hbody := hquiet.active t
    unfold spanned
    simp only [activeProcessing, activeProcessing_append, hbody, happeningChange, Recording.change]
    split <;> rfl
  durations := by
    intro t
    have hbody := hquiet.durations t
    unfold spanned
    simp only [List.countP_cons, List.countP_append, List.countP_nil, hbody, isDuration]
    rcases eq_or_ne t topic with rfl | ht
    · simp
    · simp [ht, ht.symm]

end

/-! ## A delivery -/

section

variable {σ : Type} (answer : σ → (call : Call V) → σ × Except Exc call.Reply)

theorem timed_history {A : Type} (p : Program V A) (x : σ) :
    (timed p).history answer x = annotated (p.history answer x) :=
  Proc.history_annotate _ _ p x

theorem timed_shown {A : Type} (p : Program V A) (x : σ) (topic : String) :
    Shown topic false ((timed p).history answer x) := by
  rw [timed_history]
  exact Quiet.shown (quiet_annotated _) (observed_annotated _) topic

/-- Whether a delivery gets to work on its record under a claim. -/
def claimWon (py : Python) (record : ConsumerRecord) (x : σ) : Bool :=
  match extractMessageId py record with
  | .ok (some m) =>
    match (answer x (.claim m)).2 with
    | .ok claimed => claimed
    | .error _ => false
  | _ => false

variable (py : Python) (self : DedupConsumer) (record : ConsumerRecord) (x : σ)

variable {answer py self record x}

theorem timed_unspanned {p : Timed V Unit} {q : Program V Unit} (hp : p = timed q)
    (topic : String) :
    p.ends answer x = q.ends answer x ∧
      (p.history answer x).filterMap untimedPart = q.history answer x ∧
      Shown topic false (p.history answer x) := by
  subst hp
  refine ⟨Proc.ends_annotate _ _ q x, ?_, timed_shown answer q x topic⟩
  rw [timed_history, untimedPart_annotated]

/-- What follows the answer to the first claim. -/
def afterClaim {N : Type} (won lost : Proc (Call V) Call.Reply N Exc Unit) :
    Except Exc Bool → Proc (Call V) Call.Reply N Exc Unit
  | .ok true => won
  | .ok false => lost
  | .error exc => Proc.raise exc

theorem timed_processRecord_unnamed (hid : extractMessageId py record = .ok none) :
    (Timed.processRecord py self record : Timed V Unit) = timed (self.processRecord py record) := by
  unfold Timed.processRecord DedupConsumer.processRecord
  rw [hid]
  exact congrArg (Proc.emit _) Timed.executeAndCommit_timed.symm

theorem timed_processRecord_named {m : String} (hid : extractMessageId py record = .ok (some m)) :
    (Timed.processRecord py self record : Timed V Unit) =
      Proc.await (Call.claim m : Call V) fun r =>
        Proc.emit (.storeOperation "claim") (afterClaim
          (measureProcessing record.topic (timed (self.executeAndCommit py record (some m))))
          (timed (DedupConsumer.skip record m)) r) := by
  unfold Timed.processRecord
  rw [hid]
  refine Proc.await_congr fun r => ?_
  rcases r with exc | claimed
  · rfl
  · apply congrArg (Proc.emit _)
    cases claimed with
    | false => exact (Timed.skip_timed m).symm
    | true => exact congrArg (measureProcessing record.topic) Timed.executeAndCommit_timed.symm

theorem processRecord_awaits {m : String} (hid : extractMessageId py record = .ok (some m)) :
    (self.processRecord py record : Program V Unit) = .await (.claim m)
      (afterClaim (self.executeAndCommit py record (some m)) (DedupConsumer.skip record m)) := by
  unfold DedupConsumer.processRecord
  rw [hid]
  refine Proc.await_congr fun r => ?_
  rcases r with exc | claimed
  · rfl
  · cases claimed <;> rfl

theorem spanned_untimed (topic m : String) (h : List (Happening (Call V) Metric)) :
    (spanned topic m (annotated h)).filterMap untimedPart = .called (.claim m) :: h := by
  unfold spanned
  simp only [List.filterMap_cons, List.filterMap_append, untimedPart, untimedPart_annotated,
    List.filterMap_nil, List.append_nil]

/-- The timing blocks change nothing of a delivery, and they time it exactly. Its calls, counters,
last state and outcome are those of `_process_record` without them; each store call is observed
once, under its own name, right after it; and the record is active from its won claim to its end,
however that comes, and never when no claim was won or it has no id. -/
theorem timed_delivery (py : Python) (self : DedupConsumer) (record : ConsumerRecord)
    (answer : σ → (call : Call V) → σ × Except Exc call.Reply) (x : σ) :
    let plain : Program V Unit := self.processRecord py record
    let measured : Timed V Unit := Timed.processRecord py self record
    measured.ends answer x = plain.ends answer x ∧
      (measured.history answer x).filterMap untimedPart = plain.history answer x ∧
      Shown record.topic (claimWon answer py record x) (measured.history answer x) := by
  intro plain measured
  cases hid : extractMessageId py record with
  | error exc =>
    have hmeasured : measured = timed plain := by
      simp only [measured, plain, Timed.processRecord, DedupConsumer.processRecord, hid]
      rfl
    simp only [claimWon, hid]
    exact timed_unspanned hmeasured record.topic
  | ok id =>
    cases id with
    | none =>
      -- Without an id there is no claim, and no processing time either.
      simp only [claimWon, hid]
      exact timed_unspanned (timed_processRecord_unnamed hid) record.topic
    | some m =>
      simp only [measured, plain, timed_processRecord_named hid, processRecord_awaits hid,
        Proc.ends_await, Proc.ends_emit, Proc.history, claimWon, hid]
      obtain ⟨x', r⟩ := answer x (.claim m)
      have hrefused : ∀ h : List (Happening (Call V) Metric),
          Shown record.topic false (.called (.claim m) :: .noted (.storeOperation "claim") ::
            annotated h) := fun h =>
        Quiet.shown (quiet_annotated (.called (.claim m) :: h)) (observed_annotated _) _
      rcases r with exc | claimed
      · exact ⟨rfl, rfl, hrefused []⟩
      · cases claimed with
        | false =>
          simp only [afterClaim, timed_history]
          exact ⟨Proc.ends_annotate _ _ _ x', untimedPart_annotated (.called (.claim m) :: _),
            hrefused _⟩
        | true =>
          -- Only here is the processing measured.
          simp only [afterClaim, measureProcessing, Proc.ends_enclosed, Proc.history_enclosed,
            timed_history]
          exact ⟨Proc.ends_annotate _ _ _ x', spanned_untimed record.topic m _,
            spanned_shown record.topic m (quiet_annotated _) (observed_annotated _)⟩

end

end MessageDedup
