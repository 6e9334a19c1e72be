import MessageDedup.Consumer.Handlers
import MessageDedup.Group.Topics
import MessageDedup.Group.Answers

/-!
# What comes of the records of main()

The handlers are functions of the payload. Whatever the turns of the consumers, all that reaches
Redis, the dead-letter topics and the counters is what they make of the records that came.
-/

namespace MessageDedup

variable {V R : Type}

/-! ## The handlers of main() -/

def Topic.handle : Topic → Payload → Except Exc Json
  | .orders => OrderHandler.handle
  | .payments => PaymentHandler.handle
  | .shipments => ShipmentHandler.handle

theorem Topic.handle_cases (topic : Topic) (payload : Payload) :
    (payload.isDict = true ∧ ∃ value, topic.handle payload = .ok value) ∨
      ∃ value, payload = .json value ∧ payload.isDict = false ∧
        topic.handle payload = .error (noGet value) := by
  rcases payload.get_cases with ⟨hdict, hget⟩ | ⟨value, rfl, hdict, hget⟩
  · refine .inl ⟨hdict, ?_⟩
    cases topic with
    | orders =>
      obtain ⟨orderId, horder⟩ := hget "order_id" (.str "unknown")
      exact ⟨_, by simp only [handle, OrderHandler.handle, horder]; rfl⟩
    | payments =>
      obtain ⟨paymentId, hpayment⟩ := hget "payment_id" (.str "unknown")
      obtain ⟨amount, hamount⟩ := hget "amount" (.int 0)
      exact ⟨_, by simp only [handle, PaymentHandler.handle, hpayment, hamount]; rfl⟩
    | shipments =>
      obtain ⟨shipmentId, hshipment⟩ := hget "shipment_id" (.str "unknown")
      obtain ⟨address, haddress⟩ := hget "address" (.obj [])
      exact ⟨_, by simp only [handle, ShipmentHandler.handle, hshipment, haddress]; rfl⟩
  · refine .inr ⟨value, rfl, hdict, ?_⟩
    cases topic with
    | orders => simp only [handle, OrderHandler.handle, hget]; rfl
    | payments => simp only [handle, PaymentHandler.handle, hget]; rfl
    | shipments => simp only [handle, ShipmentHandler.handle, hget]; rfl

namespace Main

/-- The consumers of `main()`, with their own `handle()`. -/
def shipped (py : Python) (config : DeduplicationConfig) (codec : ResultCodec Json R) :
    Main Json R where
  py := py
  config := config
  codec := codec
  handle := fun topic record _ => do
    let payload ← decodePayload py record
    some <$> topic.handle payload

/-! ## The statements -/

variable (main : Main V R) (f : Topic → Payload → Except Exc (Option V)) (topic : Topic)
  (record : ConsumerRecord)

/-- `handle()` is `f` of the payload, at each attempt. -/
def Handling : Prop :=
  ∀ topic record attempts payload, decodePayload main.py record = .ok payload →
    main.handle topic record attempts = f topic payload

/-- `f` makes `outcome` of the record. -/
def Makes (outcome : Except Exc (Option V)) : Prop :=
  ∃ payload, decodePayload main.py record = .ok payload ∧ f topic payload = outcome

/-- Why a record is given up. -/
def Fails (lastExc : Option Exc) : Prop :=
  (∃ exc, lastExc = some exc ∧ main.Makes f topic record (.error exc)) ∨
    lastExc = none ∧ main.config.maxRetries < 1

end Main

/-- What is seen of a delivery fits what `f` makes of the record. -/
def Seen.Fits (main : Main V R) (f : Topic → Payload → Except Exc (Option V)) (topic : Topic)
    (record : ConsumerRecord) : Seen V → Prop
  | .called (.handle payload) => decodePayload main.py record = .ok payload
  | .called (.markCompleted m result) =>
    extractMessageId main.py record = .ok (some m) ∧ main.Makes f topic record (.ok result)
  | .called (.markFailed m error _) =>
    extractMessageId main.py record = .ok (some m) ∧
      ∃ exc, error = exc.text ∧ main.Makes f topic record (.error exc)
  | .called (.sendAndWait dlq value key) => (topic.handler main.config).dlq = some dlq ∧
      ∃ lastExc, main.Fails f topic record lastExc ∧
        value = dlqPayload main.py record (excText lastExc) ∧ key = record.key
  | .counted (.processed _) => ∃ result, main.Makes f topic record (.ok result)
  | .counted (.dlq _) => ∃ lastExc, main.Fails f topic record lastExc
  | _ => True

/-- All that is seen of the deliveries fits, and each result in Redis was there at the start or is
what `f` has made of a record with that id. -/
structure Main.TrueTo (main : Main V R) (f : Topic → Payload → Except Exc (Option V)) (start : Int)
    (keys : RedisState R) (deliveries : Topic → List ConsumerRecord) (w : World V R) : Prop where
  seen : ∀ topic, ∀ e ∈ (w.worker topic).seen,
    e.1 ∈ deliveries topic ∧ e.2.Fits main f topic e.1
  stored : ∀ m v, main.backend.shown w.keys w.now m = some v →
    main.backend.shown keys start m = some v ∨
      ∃ topic, ∃ record ∈ deliveries topic, extractMessageId main.py record = .ok (some m) ∧
        ∃ value, main.Makes f topic record (.ok (some value)) ∧ main.backend.Recorded value v

/-! ## Where a delivery stands -/

section

variable (main : Main V R) (f : Topic → Payload → Except Exc (Option V)) (topic : Topic)
  (record : ConsumerRecord)

def LoopPc.Fits (payload : Payload) : {id : Option MessageId} → LoopPc V id → Prop
  | _, .handle _ => True
  | _, @LoopPc.markFailed _ _ _ exc => f topic payload = .error exc
  | _, .sleep _ exc => f topic payload = .error exc
  | _, @LoopPc.reclaim _ _ _ exc => f topic payload = .error exc
  | _, @LoopPc.markCompleted _ _ result => f topic payload = .ok result
  | _, .commitCompleted => ∃ result, f topic payload = .ok result
  | _, .sendToDlq dlq lastExc =>
    (topic.handler main.config).dlq = some dlq ∧ main.Fails f topic record lastExc
  | _, .commitDlq => True

def Pc.Fits : Pc V → Prop
  | .executing _ payload pc => decodePayload main.py record = .ok payload ∧
      pc.Fits main f topic record payload
  | _ => True

structure NextFits (next : List Metric × Next V) : Prop where
  metrics : ∀ metric ∈ next.1, Seen.Fits main f topic record (.counted metric)
  pc : ∀ pc, next.2 = .pc pc → pc.Fits main f topic record

end

section

variable {main : Main V R} {f : Topic → Payload → Except Exc (Option V)} {topic : Topic}
  {record : ConsumerRecord}

theorem NextFits.raised (exc : Exc) : NextFits main f topic record ([], .raised exc) :=
  ⟨fun _ h => absurd h List.not_mem_nil, nofun⟩

theorem NextFits.cons {metric : Metric} {next : List Metric × Next V}
    (h : NextFits main f topic record next)
    (hmetric : Seen.Fits main f topic record (.counted metric)) :
    NextFits main f topic record (metric :: next.1, next.2) where
  metrics := by
    intro metric' hmem
    rcases List.mem_cons.mp hmem with rfl | hmem
    · exact hmetric
    · exact h.metrics metric' hmem
  pc := h.pc

theorem NextFits.awaits {pc : Pc V} (h : pc.Fits main f topic record) :
    NextFits main f topic record ([], .pc pc) where
  metrics := fun _ hmem => absurd hmem List.not_mem_nil
  pc := by
    rintro _ ⟨⟩
    exact h

theorem NextFits.done (metrics : List Metric)
    (h : ∀ metric ∈ metrics, Seen.Fits main f topic record (.counted metric)) :
    NextFits main f topic record (metrics, .done) :=
  ⟨h, nofun⟩

section

variable {id : Option MessageId} {payload : Payload} {attempts : Int} {exc : Exc}

theorem toExhausted_fits (hdecode : decodePayload main.py record = .ok payload)
    {lastExc : Option Exc} (h : main.Fails f topic record lastExc) :
    NextFits main f topic record
      (DedupConsumer.toExhausted (topic.handler main.config) record id payload lastExc) := by
  unfold DedupConsumer.toExhausted
  refine NextFits.cons (.awaits ?_) ⟨lastExc, h⟩
  refine ⟨hdecode, ?_⟩
  split
  · rename_i dlq hdlq
    exact ⟨hdlq, h⟩
  · trivial

theorem toAttempt_fits (hdecode : decodePayload main.py record = .ok payload)
    {lastExc : Option Exc} (hfirst : lastExc = none → attempts = 1)
    (herror : ∀ exc, lastExc = some exc → f topic payload = .error exc) :
    NextFits main f topic record
      (DedupConsumer.toAttempt (topic.handler main.config) record id payload attempts lastExc) := by
  unfold DedupConsumer.toAttempt
  split
  · exact .awaits ⟨hdecode, trivial⟩
  · rename_i hlast
    apply toExhausted_fits hdecode
    cases lastExc with
    | none =>
      have hconfig : (topic.handler main.config).config = main.config := by cases topic <;> rfl
      rw [hconfig, hfirst rfl] at hlast
      exact .inr ⟨rfl, by omega⟩
    | some exc => exact .inl ⟨exc, rfl, payload, hdecode, herror exc rfl⟩

theorem toAttempt_again (hdecode : decodePayload main.py record = .ok payload)
    (herror : f topic payload = .error exc) : NextFits main f topic record
      (DedupConsumer.toAttempt (topic.handler main.config) record id payload attempts (some exc)) :=
  toAttempt_fits hdecode nofun fun _ heq => Option.some.inj heq ▸ herror

theorem toBackoff_fits (hdecode : decodePayload main.py record = .ok payload)
    (herror : f topic payload = .error exc) : NextFits main f topic record
      (DedupConsumer.toBackoff (topic.handler main.config) record id payload attempts exc) := by
  unfold DedupConsumer.toBackoff
  split
  · exact .awaits ⟨hdecode, herror⟩
  · exact toAttempt_again hdecode herror

theorem toExecute_fits : NextFits main f topic record
    (DedupConsumer.toExecute main.py (topic.handler main.config) record id) := by
  unfold DedupConsumer.toExecute
  split
  · rename_i payload hdecode
    exact toAttempt_fits hdecode (fun _ => rfl) nofun
  · exact .raised _

theorem afterHandle_fits (hdecode : decodePayload main.py record = .ok payload) :
    NextFits main f topic record (DedupConsumer.afterHandle (topic.handler main.config) record id
      payload attempts (f topic payload)) := by
  cases hf : f topic payload with
  | ok result =>
    cases id with
    | some m => exact .awaits ⟨hdecode, hf⟩
    | none => exact .awaits ⟨hdecode, result, hf⟩
  | error exc =>
    unfold DedupConsumer.afterHandle
    simp only
    split
    · refine NextFits.cons ?_ trivial
      cases id with
      | some m => exact .awaits ⟨hdecode, hf⟩
      | none => exact toBackoff_fits hdecode hf
    · exact .raised exc

end

theorem resumeLoop_fits {id : Option MessageId} {payload : Payload}
    (hdecode : decodePayload main.py record = .ok payload) {pc : LoopPc V id}
    (h : pc.Fits main f topic record payload)
    (reply : Except Exc
      (DedupConsumer.loopCall main.py (topic.handler main.config) record payload pc).Reply)
    (hreply : ∀ attempts, pc = .handle attempts → HEq reply (f topic payload)) :
    NextFits main f topic record
      (DedupConsumer.resumeLoop main.py (topic.handler main.config) record payload pc reply) := by
  cases pc with
  | handle attempts =>
    obtain rfl := eq_of_heq (hreply attempts rfl)
    exact afterHandle_fits hdecode
  | markFailed attempts exc =>
    rcases reply with e | r
    · exact .raised e
    · exact toBackoff_fits hdecode h
  | sleep attempts exc =>
    rcases reply with e | r
    · exact .raised e
    · refine NextFits.cons ?_ trivial
      cases id with
      | some m => exact .awaits ⟨hdecode, h⟩
      | none => exact toAttempt_again hdecode h
  | reclaim attempts exc =>
    rcases reply with e | claimed
    · exact .raised e
    · change Bool at claimed
      cases claimed
      · exact toExhausted_fits hdecode (.inl ⟨exc, rfl, _, hdecode, h⟩)
      · exact toAttempt_again hdecode h
  | @markCompleted m result =>
    -- The mark may raise: the delivery is counted as processed all the same.
    have hdone : (Pc.executing (some m) payload .commitCompleted : Pc V).Fits main f topic record :=
      ⟨hdecode, result, h⟩
    rcases reply with e | r
    · change NextFits main f topic record (DedupConsumer.afterMark record _ payload (.error e))
      unfold DedupConsumer.afterMark
      simp only
      split
      · exact NextFits.cons (.awaits hdone) trivial
      · exact .raised e
    · exact .awaits hdone
  | commitCompleted =>
    rcases reply with e | r
    · exact .raised e
    · obtain ⟨result, hresult⟩ := h
      refine .done _ fun metric hmem => ?_
      obtain rfl := List.mem_singleton.mp hmem
      exact ⟨result, payload, hdecode, hresult⟩
  | sendToDlq dlq lastExc =>
    rcases reply with e | r
    · exact .raised e
    · exact .awaits ⟨hdecode, trivial⟩
  | commitDlq =>
    rcases reply with e | r
    · exact .raised e
    · exact .done [] fun _ hmem => absurd hmem List.not_mem_nil

theorem Main.answer_handle (hmain : main.Handling f) {payload : Payload}
    (hdecode : decodePayload main.py record = .ok payload) (keys : RedisState R) (now : Int)
    (id : Option MessageId) (attempts : Int) :
    (main.answer keys now (.handle payload)
      (main.outcome topic record (.executing id payload (.handle attempts)))).2 =
        f topic payload := by
  simp only [outcome, hmain topic record attempts payload hdecode]
  cases f topic payload <;> rfl

theorem Main.resume_fits (hmain : main.Handling f) {pc : Pc V} (h : pc.Fits main f topic record)
    (keys : RedisState R) (now : Int) : NextFits main f topic record
      ((topic.handler main.config).resume main.py record pc
        (main.answer keys now ((topic.handler main.config).callOf main.py record pc)
          (main.outcome topic record pc)).2) := by
  cases pc with
  | claim m =>
    generalize (main.answer keys now _ _).2 = reply
    rcases reply with e | claimed
    · exact .raised e
    · change Bool at claimed
      cases claimed
      · exact .awaits trivial
      · exact toExecute_fits
  | getStatus m =>
    generalize (main.answer keys now _ _).2 = reply
    rcases reply with e | existing
    · exact .raised e
    · have hskipped : (Pc.commitSkipped m : Pc V).Fits main f topic record := trivial
      refine NextFits.cons (.awaits hskipped) ?_
      unfold DedupConsumer.skipMetric
      split <;> trivial
  | commitSkipped m =>
    generalize (main.answer keys now _ _).2 = reply
    rcases reply with e | r
    · exact .raised e
    · exact .done [] fun _ hmem => absurd hmem List.not_mem_nil
  | executing id payload pc =>
    refine resumeLoop_fits h.1 h.2 _ ?_
    rintro attempts rfl
    exact heq_of_eq (Main.answer_handle hmain h.1 keys now id attempts)

theorem start_fits : NextFits main f topic record
    (DedupConsumer.start main.py (topic.handler main.config) record) := by
  unfold DedupConsumer.start
  split
  · exact .raised _
  · exact .awaits trivial
  · exact NextFits.cons toExecute_fits trivial

theorem called_fits {pc : Pc V} (h : pc.Fits main f topic record)
    (hid : extractMessageId main.py record = .ok (pc.messageId.map (·.val))) :
    Seen.Fits main f topic record
      (.called ((topic.handler main.config).callOf main.py record pc)) := by
  cases pc with
  | claim m | getStatus m | commitSkipped m => trivial
  | executing id payload pc =>
    obtain ⟨hdecode, hpc⟩ := h
    cases pc with
    | handle attempts => exact hdecode
    | markFailed attempts exc => exact ⟨hid, exc, rfl, payload, hdecode, hpc⟩
    | markCompleted result => exact ⟨hid, payload, hdecode, hpc⟩
    | sendToDlq dlq lastExc => exact ⟨hpc.1, lastExc, hpc.2, rfl, rfl⟩
    | sleep attempts exc | reclaim attempts exc | commitCompleted | commitDlq => trivial

end

/-! ## The run -/

/-- What a run keeps. -/
structure Main.Keeping (main : Main V R) (f : Topic → Payload → Except Exc (Option V)) (start : Int)
    (keys : RedisState R) (deliveries : Topic → List ConsumerRecord) (w : World V R) : Prop where
  sourced : main.Sourced deliveries w
  current : ∀ topic record pc, (w.worker topic).current = some (record, pc) →
    pc.Fits main f topic record
  trueTo : main.TrueTo f start keys deliveries w

namespace Main

variable {main : Main V R} {f : Topic → Payload → Except Exc (Option V)} {start : Int}
  {keys : RedisState R} {deliveries : Topic → List ConsumerRecord} {w : World V R}

theorem mem_after {keys : RedisState R} {now : Int} {worker : Worker V} {record : ConsumerRecord}
    {calls : List (Call V)} {next : List Metric × Next V} {e : ConsumerRecord × Seen V}
    (h : e ∈ (main.after keys now worker record calls next).seen) :
    (e.1 = record ∧ ((∃ metric ∈ next.1, e.2 = .counted metric) ∨
      (∃ call ∈ calls, e.2 = .called call) ∨ ∃ raised status, e.2 = .over raised status)) ∨
      e ∈ worker.seen := by
  have hseen : e ∈ next.1.reverse.map (record, Seen.counted ·) ++ calls.map (record, .called ·) ++
      worker.seen → (e.1 = record ∧ ((∃ metric ∈ next.1, e.2 = .counted metric) ∨
        (∃ call ∈ calls, e.2 = .called call) ∨ ∃ raised status, e.2 = .over raised status)) ∨
        e ∈ worker.seen := by
    intro hmem
    rcases List.mem_append.mp hmem with hnew | hold
    · left
      rcases List.mem_append.mp hnew with hcounted | hcalled
      · obtain ⟨metric, hmetric, rfl⟩ := List.mem_map.mp hcounted
        exact ⟨rfl, .inl ⟨metric, List.mem_reverse.mp hmetric, rfl⟩⟩
      · obtain ⟨call, hcall, rfl⟩ := List.mem_map.mp hcalled
        exact ⟨rfl, .inr (.inl ⟨call, hcall, rfl⟩)⟩
    · exact .inr hold
  unfold after at h
  cases hnext : next.2 with
  | pc pc =>
    simp only [hnext] at h
    exact hseen h
  | done =>
    simp only [hnext] at h
    rcases List.mem_cons.mp h with rfl | h
    · exact .inl ⟨rfl, .inr (.inr ⟨_, _, rfl⟩)⟩
    · exact hseen h
  | raised exc =>
    simp only [hnext] at h
    rcases List.mem_cons.mp h with rfl | h
    · exact .inl ⟨rfl, .inr (.inr ⟨_, _, rfl⟩)⟩
    · exact hseen h

theorem Keeping.put (h : main.Keeping f start keys deliveries w) {topic : Topic}
    {record : ConsumerRecord} {worker : Worker V} {keys' : RedisState R} {calls : List (Call V)}
    {next : List Metric × Next V} (hsourced : main.Sourced deliveries
      (w.put topic keys' (main.after keys' w.now worker record calls next)))
    (hrecord : record ∈ deliveries topic) (hseen : worker.seen = (w.worker topic).seen)
    (hcalls : ∀ call ∈ calls, Seen.Fits main f topic record (.called call))
    (hnext : NextFits main f topic record next)
    (hstored : ∀ m v, main.backend.shown keys' w.now m = some v →
      main.backend.shown w.keys w.now m = some v ∨ ∃ value, main.backend.Recorded value v ∧
        .markCompleted m (some value) ∈ calls) :
    main.Keeping f start keys deliveries
      (w.put topic keys' (main.after keys' w.now worker record calls next)) := by
  refine ⟨hsourced, ?_, ?_, ?_⟩
  · intro t r pc hc
    rcases eq_or_ne t topic with rfl | hne
    · rw [World.put_worker_self] at hc
      obtain ⟨rfl, hpc⟩ := after_current hc
      exact hnext.pc pc hpc
    · rw [World.put_worker_other w hne] at hc
      exact h.current t r pc hc
  · intro t e he
    rcases eq_or_ne t topic with rfl | hne
    · rw [World.put_worker_self] at he
      -- What is seen now is a metric, a call of this turn, or the end of the delivery.
      rcases mem_after he with ⟨hr, hnew⟩ | hold
      · obtain ⟨r, seen⟩ := e
        obtain rfl : r = record := hr
        refine ⟨hrecord, ?_⟩
        rcases hnew with ⟨metric, hmetric, rfl⟩ | ⟨call, hcall, rfl⟩ | ⟨raised, status, rfl⟩
        · exact hnext.metrics metric hmetric
        · exact hcalls call hcall
        · trivial
      · exact h.trueTo.seen t e (hseen ▸ hold)
    · rw [World.put_worker_other w hne] at he
      exact h.trueTo.seen t e he
  · intro m v hv
    rcases hstored m v hv with hold | ⟨value, hrecorded, hcall⟩
    · exact h.trueTo.stored m v hold
    · obtain ⟨hid, hmakes⟩ := hcalls _ hcall
      exact .inr ⟨topic, record, hrecord, hid, value, hmakes, hrecorded⟩

theorem Keeping.turn (hmain : main.Handling f) (h : main.Keeping f start keys deliveries w)
    (topic : Topic) : main.Keeping f start keys deliveries (main.turn topic w) := by
  have hsourced := h.sourced.turn topic
  revert hsourced
  unfold Main.turn
  simp only
  split
  · rename_i record pc hc
    intro hsourced
    obtain ⟨hrecord, hid⟩ := h.sourced.current topic record pc hc
    have hpc := h.current topic record pc hc
    apply h.put hsourced hrecord rfl
    · intro call hcall
      obtain rfl := List.mem_singleton.mp hcall
      exact called_fits hpc hid
    · exact resume_fits hmain hpc w.keys w.now
    · intro m v hv
      rcases Backend.answer_shownFrom _ _ v hv with hold | ⟨value, hmarks, hrecorded⟩
      · exact .inl hold
      · exact .inr ⟨value, hrecorded, List.mem_singleton.mpr (Call.eq_of_marks hmarks).symm⟩
  · rename_i record queue hc hq
    intro hsourced
    have hrecord : record ∈ deliveries topic := by
      apply h.sourced.queue topic
      rw [hq]
      exact List.mem_cons_self
    apply h.put hsourced hrecord rfl
    · exact fun call hcall => absurd hcall List.not_mem_nil
    · exact start_fits
    · exact fun m v hv => .inl hv
  · exact fun _ => h

theorem Keeping.run (hmain : main.Handling f) (h : main.Keeping f start keys deliveries w)
    (schedule : List Turn) : main.Keeping f start keys deliveries (main.run schedule w) := by
  induction schedule generalizing w with
  | nil => exact h
  | cons a schedule ih =>
    cases a with
    | tick d =>
      refine ih ⟨⟨h.sourced.queue, h.sourced.current⟩, h.current, h.trueTo.seen, ?_⟩
      intro m v hv
      have hle : w.now ≤ w.now + d := by omega
      exact h.trueTo.stored m v (Backend.shown_later hle hv)
    | of topic => exact ih (h.turn hmain topic)

/-- Consumers whose `handle()` is a function of the payload are true to it, whatever their turns. -/
theorem run_trueTo (hmain : main.Handling f) (schedule : List Turn) (now : Int)
    (keys : RedisState R) (deliveries : Topic → List ConsumerRecord) :
    main.TrueTo f now keys deliveries (main.run schedule (.start now keys deliveries)) := by
  have hstart : main.Keeping f now keys deliveries (.start now keys deliveries) := by
    refine ⟨main.sourced_start now keys deliveries, ?_, ?_, fun m v hv => .inl hv⟩
    · intro topic record pc hc
      simp [World.start] at hc
    · exact fun topic e he => absurd he List.not_mem_nil
  exact (hstart.run hmain schedule).trueTo

end Main

/-! ## Dicts, and what is no dict -/

/-- A value that is JSON and no object: no handler takes it. -/
def Unusable (py : Python) (record : ConsumerRecord) (value : Json) : Prop :=
  decodePayload py record = .ok (.json value) ∧ (Payload.json value).isDict = false

/-- Only dicts are processed, and only what is no dict is given up, with the error of the handler in
its dead letter. -/
def Seen.Sorted (py : Python) (config : DeduplicationConfig) (record : ConsumerRecord) :
    Seen Json → Prop
  | .counted (.processed _) =>
    ∃ payload, decodePayload py record = .ok payload ∧ payload.isDict = true
  | .counted (.dlq _) => 1 ≤ config.maxRetries → ∃ value, Unusable py record value
  | .called (.sendAndWait _ dlqValue _) => 1 ≤ config.maxRetries →
    ∃ value, Unusable py record value ∧ dlqValue = dlqPayload py record (noGet value).text
  | _ => True

namespace Main

variable {py : Python} {config : DeduplicationConfig} {codec : ResultCodec Json R} {topic : Topic}
  {record : ConsumerRecord}

/-- What `shipped` does with a payload. -/
def shippedHandle (topic : Topic) (payload : Payload) : Except Exc (Option Json) :=
  some <$> topic.handle payload

variable (py config codec) in
theorem handling_shipped : (shipped py config codec).Handling shippedHandle := by
  intro topic record attempts payload hdecode
  have hdecode' : decodePayload py record = .ok payload := hdecode
  simp only [shipped, hdecode']
  rfl

theorem isDict_of_makes {result : Option Json}
    (h : (shipped py config codec).Makes shippedHandle topic record (.ok result)) :
    ∃ payload, decodePayload py record = .ok payload ∧ payload.isDict = true := by
  obtain ⟨payload, hdecode, hresult⟩ := h
  rcases topic.handle_cases payload with ⟨hdict, -⟩ | ⟨value, -, -, herror⟩
  · exact ⟨payload, hdecode, hdict⟩
  · simp [shippedHandle, herror] at hresult

theorem unusable_of_fails {lastExc : Option Exc} (hretries : 1 ≤ config.maxRetries)
    (h : (shipped py config codec).Fails shippedHandle topic record lastExc) :
    ∃ value, Unusable py record value ∧ lastExc = some (noGet value) := by
  rcases h with ⟨exc, rfl, payload, hdecode, hresult⟩ | ⟨-, hnone⟩
  · rcases topic.handle_cases payload with ⟨-, value, hok⟩ | ⟨value, rfl, hdict, herror⟩
    · simp [shippedHandle, hok] at hresult
    · refine ⟨value, ⟨hdecode, hdict⟩, ?_⟩
      simp only [shippedHandle, herror] at hresult
      rw [Except.error.inj hresult]
  · have hlast : config.maxRetries < 1 := hnone
    omega

theorem sorted_of_fits {seen : Seen Json}
    (h : seen.Fits (shipped py config codec) shippedHandle topic record) :
    seen.Sorted py config record := by
  cases seen with
  | counted metric =>
    cases metric with
    | processed t =>
      obtain ⟨result, hmakes⟩ := h
      exact isDict_of_makes hmakes
    | dlq t =>
      intro hretries
      obtain ⟨lastExc, hfails⟩ := h
      obtain ⟨value, hunusable, -⟩ := unusable_of_fails hretries hfails
      exact ⟨value, hunusable⟩
    | _ => trivial
  | called call =>
    cases call with
    | sendAndWait dlq dlqValue key =>
      intro hretries
      obtain ⟨-, lastExc, hfails, rfl, -⟩ := h
      obtain ⟨value, hunusable, rfl⟩ := unusable_of_fails hretries hfails
      exact ⟨value, hunusable, rfl⟩
    | _ => trivial
  | _ => trivial

/-- The process of `main()` with its own handlers, whatever the turns of its consumers, the clock
and the records: each result under an id is what the handler of some topic has made of a record with
that id, only dicts are processed, and only values that are no dict are dead-lettered. -/
theorem shipped_traffic (py : Python) (config : DeduplicationConfig) (codec : ResultCodec Json R)
    (schedule : List Turn) (now : Int) (keys : RedisState R)
    (deliveries : Topic → List ConsumerRecord) :
    let main := shipped py config codec
    let w := main.run schedule (.start now keys deliveries)
    main.TrueTo shippedHandle now keys deliveries w ∧
      ∀ topic, ∀ e ∈ (w.worker topic).seen, e.2.Sorted py config e.1 := by
  intro main w
  have htrue := run_trueTo (handling_shipped py config codec) schedule now keys deliveries
  exact ⟨htrue, fun topic e he => sorted_of_fits (htrue.seen topic e he).2⟩

end Main

/-! ## An order, and a list in its place -/

def listRuntime : Python := { bareRuntime with loads := fun _ => .ok (.arr []) }

def createdOrder : Json := .obj [("order_id", .str "unknown"), ("status", .str "created")]

/-- JSON, as far as this one result goes. -/
def createdCodec : ResultCodec Json String where
  dumps := fun _ => .ok "\x7b\"order_id\": \"unknown\", \"status\": \"created\"\x7d"
  cjson := .ok
  loads := fun _ => some createdOrder

def orderRecord (id : String) (value : Option Bytes) : ConsumerRecord :=
  ⟨"orders", 0, 0, none, value, [("X-Message-Id", some (encode id))]⟩

/-- An empty record is processed, and one with a list is dead-lettered. -/
example :
    let main := Main.shipped listRuntime { maxRetries := 1 } createdCodec
    let deliveries : Topic → List ConsumerRecord
      | .orders => [orderRecord "a" none, orderRecord "b" (some (encode "[]"))]
      | _ => []
    let w := main.run (List.replicate 12 (.of .orders)) (.start 0 (fun _ => none) deliveries)
    (w.worker .orders).seen.filterMap (fun e =>
        match e.2 with
        | .counted metric => some metric
        | _ => none) =
      [.dlq "orders", .error "orders" "AttributeError", .processed "orders"] := by
  decide +kernel

end MessageDedup
