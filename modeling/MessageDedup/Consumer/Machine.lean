import MessageDedup.Consumer.Lifecycle

/-!
# One delivery, call by call

The points at which `_process_record` awaits, and what it does with each answer. The last theorem
says that this automaton is the program of `Lifecycle.lean`.
-/

namespace MessageDedup

open Coroutine (Proc)

variable {V : Type}

/-- The awaits of `_execute_and_commit`. Those on the store exist only where there is an id. -/
inductive LoopPc (V : Type) : Option MessageId → Type where
  | handle {id : Option MessageId} (attempts : Int) : LoopPc V id
  | markFailed {m : MessageId} (attempts : Int) (exc : Exc) : LoopPc V (some m)
  | sleep {id : Option MessageId} (attempts : Int) (exc : Exc) : LoopPc V id
  | reclaim {m : MessageId} (attempts : Int) (exc : Exc) : LoopPc V (some m)
  | markCompleted {m : MessageId} (result : Option V) : LoopPc V (some m)
  | commitCompleted {id : Option MessageId} : LoopPc V id
  | sendToDlq {id : Option MessageId} (topic : String) (lastExc : Option Exc) : LoopPc V id
  | commitDlq {id : Option MessageId} : LoopPc V id

inductive Pc (V : Type) where
  | claim (m : MessageId)
  | getStatus (m : MessageId)
  | commitSkipped (m : MessageId)
  | executing (id : Option MessageId) (payload : Payload) (pc : LoopPc V id)

/-- How a delivery goes on: at an await, at its end, or out of `_process_record` with an
exception. -/
inductive Next (V : Type) where
  | pc (pc : Pc V)
  | done
  | raised (exc : Exc)

def Pc.messageId : Pc V → Option MessageId
  | .claim m => some m
  | .getStatus m => some m
  | .commitSkipped m => some m
  | .executing id _ _ => id

namespace DedupConsumer

variable (py : Python) (self : DedupConsumer) (record : ConsumerRecord)

def loopCall (payload : Payload) : {id : Option MessageId} → LoopPc V id → Call V
  | _, .handle _ => .handle payload
  | _, @LoopPc.markFailed _ m attempts exc => .markFailed m exc.text attempts
  | _, .sleep attempts _ => .sleep (self.config.retryBackoffMs * attempts)
  | _, @LoopPc.reclaim _ m _ _ => .claim m
  | _, @LoopPc.markCompleted _ m result => .markCompleted m result
  | _, .commitCompleted => .commit
  | _, .sendToDlq topic lastExc =>
    .sendAndWait topic (dlqPayload py record (excText lastExc)) record.key
  | _, .commitDlq => .commit

def callOf : Pc V → Call V
  | .claim m => .claim m
  | .getStatus m => .getStatus m
  | .commitSkipped _ => .commit
  | .executing _ payload pc => loopCall py self record payload pc

section

variable (id : Option MessageId) (payload : Payload)

def toExhausted (lastExc : Option Exc) : List Metric × Next V :=
  ([.dlq record.topic], .pc (.executing id payload
    (match self.dlq with
    | some topic => .sendToDlq topic lastExc
    | none => .commitDlq)))

def toAttempt (attempts : Int) (lastExc : Option Exc) : List Metric × Next V :=
  if attempts ≤ self.config.maxRetries then ([], .pc (.executing id payload (.handle attempts)))
  else toExhausted self record id payload lastExc

def toBackoff (attempts : Int) (exc : Exc) : List Metric × Next V :=
  if attempts < self.config.maxRetries then
    ([], .pc (.executing id payload (.sleep attempts exc)))
  else toAttempt self record id payload (attempts + 1) (some exc)

def toExecute : List Metric × Next V :=
  match decodePayload py record with
  | .ok payload => toAttempt self record id payload 1 none
  | .error exc => ([], .raised exc)

/-- An answer that is an exception leaves `_process_record`. -/
def orRaise {A : Type} (f : A → List Metric × Next V) : Except Exc A → List Metric × Next V
  | .ok a => f a
  | .error exc => ([], .raised exc)

def afterReturn (result : Option V) : Next V :=
  match id with
  | some m => .pc (.executing (some m) payload (.markCompleted result))
  | none => .pc (.executing none payload .commitCompleted)

def afterRaise (attempts : Int) (exc : Exc) : List Metric × Next V :=
  match id with
  | some m => ([], .pc (.executing (some m) payload (.markFailed attempts exc)))
  | none => toBackoff self record none payload attempts exc

def afterHandle (attempts : Int) : Except Exc (Option V) → List Metric × Next V
  | .ok result => ([], afterReturn id payload result)
  | .error exc =>
    if exc.isException then
      let next := afterRaise self record id payload attempts exc
      (.error record.topic exc.typeName :: next.1, next.2)
    else ([], .raised exc)

def afterSleep (attempts : Int) (exc : Exc) : List Metric × Next V :=
  match id with
  | some m => ([], .pc (.executing (some m) payload (.reclaim attempts exc)))
  | none => toAttempt self record none payload (attempts + 1) (some exc)

def afterReclaim (attempts : Int) (exc : Exc) (claimed : Bool) : List Metric × Next V :=
  if claimed then toAttempt self record id payload (attempts + 1) (some exc)
  else toExhausted self record id payload (some exc)

def afterMark : Except Exc Unit → List Metric × Next V
  | .ok _ => ([], .pc (.executing id payload .commitCompleted))
  | .error exc =>
    if exc.isException then
      ([.error record.topic exc.typeName], .pc (.executing id payload .commitCompleted))
    else ([], .raised exc)

end

def resumeLoop (payload : Payload) : {id : Option MessageId} → (pc : LoopPc V id) →
    Except Exc (loopCall py self record payload pc).Reply → List Metric × Next V
  | id, .handle attempts => afterHandle self record id payload attempts
  | _, @LoopPc.markFailed _ m attempts exc =>
    orRaise fun _ => toBackoff self record (some m) payload attempts exc
  | id, .sleep attempts exc =>
    orRaise fun _ =>
      let next := afterSleep self record id payload attempts exc
      (.retry record.topic :: next.1, next.2)
  | _, @LoopPc.reclaim _ m attempts exc =>
    orRaise (afterReclaim self record (some m) payload attempts exc)
  | _, @LoopPc.markCompleted _ m _ => afterMark record (some m) payload
  | _, .commitCompleted => orRaise fun _ => ([.processed record.topic], .done)
  | id, .sendToDlq _ _ => orRaise fun _ => ([], .pc (.executing id payload .commitDlq))
  | _, .commitDlq => orRaise fun _ => ([], .done)

def skipMetric (existing : Option (ProcessingStatus V)) : Metric :=
  if existing.any (·.status = .processing) then .claimLost record.topic
  else .duplicate record.topic

/-- What `_process_record` does between the answer to one call and the next call. -/
def resume : (pc : Pc V) → Except Exc (callOf py self record pc).Reply → List Metric × Next V
  | .claim m => orRaise fun claimed : Bool =>
    if claimed then toExecute py self record (some m) else ([], .pc (.getStatus m))
  | .getStatus m => orRaise fun existing => ([skipMetric record existing], .pc (.commitSkipped m))
  | .commitSkipped _ => orRaise fun _ => ([], .done)
  | .executing _ payload pc => resumeLoop py self record payload pc

def start : List Metric × Next V :=
  match h : extractMessageId py record with
  | .error exc => ([], .raised exc)
  | .ok (some m) => ([], .pc (.claim ⟨m, extractMessageId_ne_empty h⟩))
  | .ok none =>
    let next := toExecute py self record none
    (.noMessageId record.topic :: next.1, next.2)

/-! ## How a delivery flows -/

end DedupConsumer

def Call.isCommit : Call V → Bool
  | .commit => true
  | _ => false

def Call.isHandle : Call V → Bool
  | .handle _ => true
  | _ => false

def Next.messageId : Next V → Option MessageId
  | .pc p => p.messageId
  | _ => none

/-- A delivery goes on with the same id, unless it raises. -/
def Next.Within (id : Option MessageId) : Next V → Prop
  | .pc p => p.messageId = id
  | .done => False
  | .raised _ => True

namespace DedupConsumer

variable {py : Python} {self : DedupConsumer} {record : ConsumerRecord}

section

variable {id : Option MessageId} {payload : Payload} {attempts : Int}

theorem toAttempt_within (lastExc : Option Exc) :
    (toAttempt (V := V) self record id payload attempts lastExc).2.Within id := by
  unfold toAttempt
  split <;> rfl

theorem toBackoff_within (exc : Exc) :
    (toBackoff (V := V) self record id payload attempts exc).2.Within id := by
  unfold toBackoff
  split
  · rfl
  · exact toAttempt_within _

theorem toExecute_within : (toExecute (V := V) py self record id).2.Within id := by
  unfold toExecute
  split
  · exact toAttempt_within _
  · trivial

theorem afterHandle_within (r : Except Exc (Option V)) :
    (afterHandle self record id payload attempts r).2.Within id := by
  rcases r with e | result
  · simp only [afterHandle]
    split
    · cases id with
      | none => exact toBackoff_within e
      | some m => rfl
    · trivial
  · cases id <;> rfl

end

theorem resumeLoop_within {payload : Payload} {id : Option MessageId} (pc : LoopPc V id)
    (h : (loopCall py self record payload pc).isCommit = false)
    (r : Except Exc (loopCall py self record payload pc).Reply) :
    (resumeLoop py self record payload pc r).2.Within id := by
  cases pc with
  | handle attempts => exact afterHandle_within r
  | commitCompleted | commitDlq => cases h
  | markCompleted result =>
    rcases r with e | r
    · simp only [resumeLoop, afterMark]
      split
      · rfl
      · trivial
    · rfl
  | markFailed attempts exc =>
    rcases r with e | r
    · trivial
    · exact toBackoff_within exc
  | sleep attempts exc =>
    rcases r with e | r
    · trivial
    · cases id with
      | none => exact toAttempt_within (some exc)
      | some m => rfl
  | reclaim attempts exc =>
    rcases r with e | claimed
    · trivial
    · cases claimed
      · rfl
      · exact toAttempt_within (some exc)
  | sendToDlq topic lastExc =>
    rcases r with e | r
    · trivial
    · rfl

theorem resume_within (pc : Pc V) (h : (callOf py self record pc).isCommit = false)
    (r : Except Exc (callOf py self record pc).Reply) :
    (resume py self record pc r).2.Within pc.messageId := by
  cases pc with
  | claim m =>
    rcases r with e | claimed
    · trivial
    · cases claimed
      · rfl
      · exact toExecute_within
  | getStatus m => rcases r with e | existing <;> trivial
  | commitSkipped m => cases h
  | executing id payload pc => exact resumeLoop_within pc h r

theorem resume_commit (pc : Pc V) (h : (callOf py self record pc).isCommit = true)
    (r : Except Exc (callOf py self record pc).Reply) :
    ((resume py self record pc r).2 = .done ∧ ∃ x, r = .ok x) ∨
      ∃ exc, (resume py self record pc r).2 = .raised exc := by
  cases pc with
  | claim m | getStatus m => cases h
  | commitSkipped m =>
    rcases r with e | r
    · exact .inr ⟨e, rfl⟩
    · exact .inl ⟨rfl, r, rfl⟩
  | executing id payload pc =>
    cases pc with
    | commitCompleted | commitDlq =>
      rcases r with e | r
      · exact .inr ⟨e, rfl⟩
      · exact .inl ⟨rfl, r, rfl⟩
    | _ => cases h

theorem resume_messageId {pc p : Pc V} {r : Except Exc (callOf py self record pc).Reply}
    (h : (resume py self record pc r).2 = .pc p) : p.messageId = pc.messageId := by
  cases hc : (callOf py self record pc).isCommit with
  | false =>
    have hwithin := resume_within pc hc r
    rwa [h] at hwithin
  | true =>
    rcases resume_commit pc hc r with ⟨hnext, -⟩ | ⟨exc, hnext⟩
    · cases h.symm.trans hnext
    · cases h.symm.trans hnext

variable (py self record) in
theorem start_cases :
    (∃ p : Pc V, (start py self record).2 = .pc p ∧
      extractMessageId py record = .ok (p.messageId.map (·.val))) ∨
      ∃ exc, (start py self record : List Metric × Next V).2 = .raised exc := by
  unfold start
  split
  · exact .inr ⟨_, rfl⟩
  · rename_i h
    exact .inl ⟨_, rfl, h⟩
  · rename_i h
    have hwithin : (toExecute (V := V) py self record none).2.Within none := toExecute_within
    cases hn : (toExecute (V := V) py self record none).2 with
    | pc p =>
      rw [hn] at hwithin
      refine .inl ⟨p, rfl, ?_⟩
      rw [h, show p.messageId = none from hwithin]
      rfl
    | done =>
      rw [hn] at hwithin
      exact hwithin.elim
    | raised exc => exact .inr ⟨exc, rfl⟩

theorem start_claim {m : MessageId}
    (h : (start py self record : List Metric × Next V).2.messageId = some m) :
    (start py self record : List Metric × Next V) = ([], .pc (.claim m)) := by
  unfold start at h ⊢
  split at h
  · cases h
  · obtain rfl := Option.some.inj h
    rfl
  · have hwithin : (toExecute (V := V) py self record none).2.Within none := toExecute_within
    cases hn : (toExecute (V := V) py self record none).2 with
    | pc p =>
      simp only [hn] at h hwithin
      have hp : p.messageId = none := hwithin
      cases hp.symm.trans h
    | done => simp only [hn, Next.messageId, reduceCtorEq] at h
    | raised exc => simp only [hn, Next.messageId, reduceCtorEq] at h

/-! ## The automaton is the program -/

variable (py self record)

def loopRest (payload : Payload) : {id : Option MessageId} → LoopPc V id → Program V Unit
  | id, .handle attempts => turn py self record (id.map (·.val)) payload attempts
  | _, @LoopPc.markFailed _ m attempts exc => do
    await (.markFailed m exc.text attempts)
    goOn py self record (some m) payload attempts exc
      (← backoff self record (some m.val) attempts)
  | id, .sleep attempts exc => do
    await (.sleep (self.config.retryBackoffMs * attempts))
    recordMetric (.retry record.topic)
    goOn py self record (id.map (·.val)) payload attempts exc (← reclaim (id.map (·.val)))
  | _, @LoopPc.reclaim _ m attempts exc => do
    goOn py self record (some m.val) payload attempts exc (← await (.claim m))
  | _, @LoopPc.markCompleted _ m result => complete record (some m.val) result
  | _, .commitCompleted => do
    commit
    recordMetric (.processed record.topic)
  | _, .sendToDlq topic lastExc => do
    await (.sendAndWait topic (dlqPayload py record (excText lastExc)) record.key)
    commit
  | _, .commitDlq => commit

/-- What is left of `_process_record` at an await. -/
def rest : Pc V → Program V Unit
  | .claim m => do
    if ← await (.claim m) then executeAndCommit py self record (some m) else skip record m
  | .getStatus m => skip record m
  | .commitSkipped _ => commit
  | .executing _ payload pc => loopRest py self record payload pc

def restOf : Next V → Program V Unit
  | .pc pc => rest py self record pc
  | .done => pure ()
  | .raised exc => Proc.raise exc

/-- A way on, as the program that counts its metrics and then does the rest. -/
def goTo (next : List Metric × Next V) : Program V Unit :=
  Proc.emits next.1 (restOf py self record next.2)

variable {py self record}

theorem ifMessageId_some (m : MessageId) (p : String → Program V Unit) :
    ifMessageId (some m.val) p = p m.val := if_pos m.2

theorem reclaim_some (m : MessageId) :
    (reclaim (some m.val) : Program V Bool) = await (.claim m) := if_pos m.2

section

variable (id : Option MessageId) (payload : Payload) (attempts : Int)

theorem goTo_exhausted (lastExc : Option Exc) :
    goTo py self record (toExhausted self record id payload lastExc) =
      (exhausted py self record lastExc : Program V Unit) := by
  unfold goTo toExhausted exhausted sendToDlq
  cases self.dlq <;> rfl

theorem goTo_attempt (lastExc : Option Exc) :
    goTo py self record (toAttempt self record id payload attempts lastExc) =
      (whileAttempts py self record (id.map (·.val)) payload attempts lastExc :
        Program V Unit) := by
  rw [whileAttempts_eq]
  unfold toAttempt
  split
  · rfl
  · exact goTo_exhausted id payload lastExc

theorem goTo_execute :
    goTo py self record (toExecute py self record id) =
      (executeAndCommit py self record (id.map (·.val)) : Program V Unit) := by
  unfold toExecute executeAndCommit
  cases decodePayload py record with
  | ok payload => exact goTo_attempt id payload 1 none
  | error exc => rfl

theorem goTo_backoff (exc : Exc) :
    goTo py self record (toBackoff self record id payload attempts exc) =
      ((backoff self record (id.map (·.val)) attempts).bind
        (goOn py self record (id.map (·.val)) payload attempts exc) : Program V Unit) := by
  unfold toBackoff backoff
  split
  · refine Proc.await_congr fun r => ?_
    rcases r with e | r <;> rfl
  · rw [goTo_attempt]
    rfl

theorem goTo_afterRaise (exc : Exc) :
    goTo py self record (afterRaise self record id payload attempts exc) =
      ((ifMessageId (id.map (·.val)) fun m => await (.markFailed m exc.text attempts)).bind
        fun _ => (backoff self record (id.map (·.val)) attempts).bind
          (goOn py self record (id.map (·.val)) payload attempts exc) : Program V Unit) := by
  cases id with
  | none => exact goTo_backoff none payload attempts exc
  | some m =>
    simp only [Option.map_some, ifMessageId_some]
    rfl

theorem goTo_afterSleep (exc : Exc) :
    goTo py self record (afterSleep self record id payload attempts exc) =
      ((reclaim (id.map (·.val))).bind
        (goOn py self record (id.map (·.val)) payload attempts exc) : Program V Unit) := by
  cases id with
  | none => exact goTo_attempt none payload (attempts + 1) (some exc)
  | some m =>
    simp only [Option.map_some, reclaim_some]
    rfl

theorem goTo_afterReclaim (exc : Exc) (claimed : Bool) :
    goTo py self record (afterReclaim self record id payload attempts exc claimed) =
      (goOn py self record (id.map (·.val)) payload attempts exc claimed : Program V Unit) := by
  cases claimed with
  | false => exact goTo_exhausted id payload (some exc)
  | true => exact goTo_attempt id payload (attempts + 1) (some exc)

theorem goTo_afterHandle_error (exc : Exc) :
    goTo py self record (afterHandle self record id payload attempts (.error exc) :
        List Metric × Next V) =
      if exc.isException then
        (handleFailed self record (id.map (·.val)) attempts exc).bind
          (goOn py self record (id.map (·.val)) payload attempts exc)
      else Proc.raise exc := by
  simp only [afterHandle]
  split
  · unfold handleFailed
    refine (congrArg (Proc.emit _) (goTo_afterRaise id payload attempts exc)).trans ?_
    cases id with
    | none => rfl
    | some m =>
      simp only [Option.map_some, ifMessageId_some]
      refine congrArg (Proc.emit _) (Proc.await_congr fun r => ?_)
      rcases r with e | r <;> rfl
  · rfl

theorem goTo_afterMark_error (exc : Exc) :
    goTo py self record (afterMark record id payload (.error exc) : List Metric × Next V) =
      (if exc.isException then recordMetric (.error record.topic exc.typeName)
        else Proc.raise exc).bind fun _ => commit.bind fun _ =>
          recordMetric (.processed record.topic) := by
  simp only [afterMark]
  split <;> rfl

theorem goTo_skip (m : MessageId) (existing : Option (ProcessingStatus V)) :
    goTo py self record ([skipMetric record existing], .pc (.commitSkipped m)) =
      (if existing.any (·.status = .processing) then
        (recordMetric (.claimLost record.topic)).bind fun _ => commit
      else (recordMetric (.duplicate record.topic)).bind fun _ => commit : Program V Unit) := by
  unfold skipMetric
  split <;> rfl

end

theorem loopRest_eq (payload : Payload) {id : Option MessageId} (pc : LoopPc V id) :
    loopRest py self record payload pc =
      .await (loopCall py self record payload pc) fun r =>
        goTo py self record (resumeLoop py self record payload pc r) := by
  cases pc with
  | handle attempts =>
    -- What `handle()` raised decides between another attempt and the end, inside `afterHandle`.
    refine Proc.await_congr fun r => ?_
    rcases r with e | result
    · exact (goTo_afterHandle_error id payload attempts e).symm
    · cases id <;> rfl
  | @markFailed m attempts exc =>
    refine Proc.await_congr fun r => ?_
    rcases r with e | r
    · rfl
    · exact (goTo_backoff (some m) payload attempts exc).symm
  | sleep attempts exc =>
    refine Proc.await_congr fun r => ?_
    rcases r with e | r
    · rfl
    · exact congrArg (Proc.emit _) (goTo_afterSleep id payload attempts exc).symm
  | @reclaim m attempts exc =>
    refine Proc.await_congr fun r => ?_
    rcases r with e | claimed
    · rfl
    · exact (goTo_afterReclaim (some m) payload attempts exc claimed).symm
  | @markCompleted m result =>
    simp only [loopRest, complete, ifMessageId_some]
    refine Proc.await_congr fun r => ?_
    rcases r with e | r
    · exact (goTo_afterMark_error (some m) payload e).symm
    · rfl
  | commitCompleted =>
    refine Proc.await_congr fun r => ?_
    rcases r with e | r <;> rfl
  | sendToDlq topic lastExc =>
    refine Proc.await_congr fun r => ?_
    rcases r with e | r <;> rfl
  | commitDlq =>
    refine Proc.await_congr fun r => ?_
    rcases r with e | r <;> rfl

/-- Between two calls the automaton does what the program does. -/
theorem rest_eq (pc : Pc V) :
    rest py self record pc =
      .await (callOf py self record pc) fun r =>
        goTo py self record (resume py self record pc r) := by
  cases pc with
  | claim m =>
    refine Proc.await_congr fun r => ?_
    rcases r with e | claimed
    · rfl
    · cases claimed
      · rfl
      · exact (goTo_execute (some m)).symm
  | getStatus m =>
    refine Proc.await_congr fun r => ?_
    rcases r with e | existing
    · rfl
    · exact (goTo_skip m existing).symm
  | commitSkipped m =>
    refine Proc.await_congr fun r => ?_
    rcases r with e | r <;> rfl
  | executing id payload pc => exact loopRest_eq payload pc

/-- The automaton from its start is `_process_record`. -/
theorem processRecord_eq :
    processRecord py self record =
      (goTo py self record (start py self record) : Program V Unit) := by
  unfold processRecord start
  split
  · rename_i h
    simp only [h]
    rfl
  · rename_i h
    simp only [h]
    rfl
  · rename_i h
    simp only [h]
    exact congrArg (Proc.emit _) (goTo_execute none).symm

end DedupConsumer

end MessageDedup
