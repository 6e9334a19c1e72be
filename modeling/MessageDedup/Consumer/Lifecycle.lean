import MessageDedup.Store.Spec
import MessageDedup.Consumer.Record
import MessageDedup.Lib.Coroutine

/-!
# dedup_consumer.py

`_process_record` and what it calls, as programs that await the store, `handle()`, the DLQ producer
and the Kafka consumer. The timing histograms and the log lines are left out.
-/

namespace MessageDedup

open Coroutine (Proc)

/-- A started consumer: what `_process_record` reads of `self`. -/
structure DedupConsumer where
  config : DeduplicationConfig
  dlqTopic : Option String
  deriving DecidableEq, Repr

/-- `start()` makes a DLQ producer when `dlq_topic` is truthy. -/
def DedupConsumer.dlq (self : DedupConsumer) : Option String := self.dlqTopic.filter (· ≠ "")

structure DlqPayload where
  originalTopic : String
  originalOffset : Nat
  originalPartition : Nat
  originalValue : Option String
  error : String
  deriving DecidableEq, Repr

inductive Metric where
  | noMessageId (topic : String)
  | claimLost (topic : String)
  | duplicate (topic : String)
  | error (topic errorType : String)
  | retry (topic : String)
  | dlq (topic : String)
  | processed (topic : String)
  deriving DecidableEq, Repr

/-! ## The awaited calls -/

inductive Call (V : Type) where
  | claim (messageId : String)
  | getStatus (messageId : String)
  | markFailed (messageId error : String) (attempts : Int)
  | markCompleted (messageId : String) (result : Option V)
  | handle (payload : Payload)
  | sleep (ms : Int)
  | sendAndWait (topic : String) (value : DlqPayload) (key : Option Bytes)
  | commit

abbrev Call.Reply {V : Type} : Call V → Type
  | .claim _ => Bool
  | .getStatus _ => Option (ProcessingStatus V)
  | .handle _ => Option V
  | _ => Unit

abbrev Program (V A : Type) := Proc (Call V) Call.Reply Metric Exc A

variable {V : Type}

def await (c : Call V) : Program V c.Reply := Proc.call c

def recordMetric (metric : Metric) : Program V Unit := Proc.note metric

/-- `if message_id:` -/
def ifMessageId (messageId : Option String) (p : String → Program V Unit) : Program V Unit :=
  match messageId with
  | some m => if m ≠ "" then p m else pure ()
  | none => pure ()

/-! ## The programs -/

def commit : Program V Unit := await .commit

/-- `str(last_exc)` -/
def excText : Option Exc → String
  | some exc => exc.text
  | none => "None"

def dlqPayload (py : Python) (record : ConsumerRecord) (error : String) : DlqPayload where
  originalTopic := record.topic
  originalOffset := record.offset
  originalPartition := record.partition
  originalValue := (nonEmpty record.value).map py.decodeReplace
  error := error

namespace DedupConsumer

variable (py : Python) (self : DedupConsumer) (record : ConsumerRecord) (messageId : Option String)
  (payload : Payload)

def sendToDlq (error : String) : Program V Unit :=
  match self.dlq with
  | none => pure ()
  | some topic => await (.sendAndWait topic (dlqPayload py record error) record.key)

def complete (result : Option V) : Program V Unit := do
  ifMessageId messageId fun m =>
    (await (.markCompleted m result)).attempt fun
      | .ok _ => pure ()
      | .error exc =>
        if exc.isException then recordMetric (.error record.topic exc.typeName) else Proc.raise exc
  commit
  recordMetric (.processed record.topic)

/-- What follows the `while` loop. -/
def exhausted (lastExc : Option Exc) : Program V Unit := do
  recordMetric (.dlq record.topic)
  sendToDlq py self record (excText lastExc)
  commit

/-- The retry claim. It answers whether the loop goes on. -/
def reclaim : Program V Bool :=
  match messageId with
  | some m => if m ≠ "" then await (.claim m) else pure true
  | none => pure true

def backoff (attempts : Int) : Program V Bool :=
  if attempts < self.config.maxRetries then do
    await (.sleep (self.config.retryBackoffMs * attempts))
    recordMetric (.retry record.topic)
    reclaim messageId
  else pure true

/-- The `except` clause of the loop. -/
def handleFailed (attempts : Int) (exc : Exc) : Program V Bool := do
  recordMetric (.error record.topic exc.typeName)
  ifMessageId messageId fun m => await (.markFailed m exc.text attempts)
  backoff self record messageId attempts

/-- The `while` loop, with the number of turns that are left. -/
def attemptLoop : Nat → (attempts : Int) → (lastExc : Option Exc) → Program V Unit
  | 0, _, lastExc => exhausted py self record lastExc
  | left + 1, attempts, _ =>
    (await (.handle payload)).attempt fun
      | .ok result => complete record messageId result
      | .error exc =>
        if exc.isException then do
          if ← handleFailed self record messageId attempts exc then
            attemptLoop left (attempts + 1) (some exc)
          else exhausted py self record (some exc)
        else Proc.raise exc

/-- `while attempts <= self._config.max_retries` from `attempts` on. -/
def whileAttempts (attempts : Int) (lastExc : Option Exc) : Program V Unit :=
  attemptLoop py self record messageId payload (self.config.maxRetries + 1 - attempts).toNat
    attempts lastExc

/-- How a turn of the loop ends, where `again` is the answer of its `except` clause. -/
def goOn (attempts : Int) (exc : Exc) (again : Bool) : Program V Unit :=
  if again then whileAttempts py self record messageId payload (attempts + 1) (some exc)
  else exhausted py self record (some exc)

def turn (attempts : Int) : Program V Unit :=
  (await (.handle payload)).attempt fun
    | .ok result => complete record messageId result
    | .error exc =>
      if exc.isException then do
        goOn py self record messageId payload attempts exc
          (← handleFailed self record messageId attempts exc)
      else Proc.raise exc

def executeAndCommit : Program V Unit := do
  let payload ← Proc.ofExcept (decodePayload py record)
  whileAttempts py self record messageId payload 1 none

def skip (m : String) : Program V Unit := do
  let existing ← await (.getStatus m)
  if existing.any (·.status = .processing) then recordMetric (.claimLost record.topic)
  else recordMetric (.duplicate record.topic)
  commit

def processRecord : Program V Unit := do
  match ← Proc.ofExcept (extractMessageId py record) with
  | none =>
    recordMetric (.noMessageId record.topic)
    executeAndCommit py self record none
  | some m =>
    if ← await (.claim m) then executeAndCommit py self record (some m) else skip record m

/-- The loop as the source has it: the test, one turn, and the rest. -/
theorem whileAttempts_eq (attempts : Int) (lastExc : Option Exc) :
    whileAttempts (V := V) py self record messageId payload attempts lastExc =
      if attempts ≤ self.config.maxRetries then turn py self record messageId payload attempts
      else exhausted py self record lastExc := by
  unfold whileAttempts
  by_cases h : attempts ≤ self.config.maxRetries
  · rw [if_pos h]
    obtain ⟨left, hleft⟩ : ∃ left, (self.config.maxRetries + 1 - attempts).toNat = left + 1 :=
      ⟨(self.config.maxRetries - attempts).toNat, by omega⟩
    have hrest : (self.config.maxRetries + 1 - (attempts + 1)).toNat = left := by omega
    rw [hleft]
    simp only [turn, goOn, whileAttempts, hrest, attemptLoop]
  · rw [if_neg h]
    have hleft : (self.config.maxRetries + 1 - attempts).toNat = 0 := by omega
    rw [hleft]
    rfl

end DedupConsumer

end MessageDedup
