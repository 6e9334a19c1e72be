import MessageDedup.Group.Replay

/-!
# The consumers of main()

The three handlers on one Redis, in one process: each turn of a consumer takes the next of its
deliveries, or answers the call that it awaits. A Redis key holds the message id without the topic,
so two topics interfere when they share an id, and only then.
-/

namespace MessageDedup

variable {V R : Type}

/-! ## The handlers -/

inductive Topic where
  | orders
  | payments
  | shipments
  deriving DecidableEq, Repr

def orderHandler (config : DeduplicationConfig) : DedupConsumer := ⟨config, some "orders.dlq"⟩

def paymentHandler (config : DeduplicationConfig) : DedupConsumer := ⟨config, some "payments.dlq"⟩

def shipmentHandler (config : DeduplicationConfig) : DedupConsumer :=
  ⟨config, some "shipments.dlq"⟩

def Topic.handler (config : DeduplicationConfig) : Topic → DedupConsumer
  | .orders => orderHandler config
  | .payments => paymentHandler config
  | .shipments => shipmentHandler config

/-- What `main()` starts. The outcome of `handle()` depends on the record and the attempt. -/
structure Main (V R : Type) where
  py : Python
  config : DeduplicationConfig
  codec : ResultCodec V R
  handle : Topic → ConsumerRecord → (attempts : Int) → Except Exc (Option V)

/-! ## Turns -/

/-- What a delivery does: the calls that end, the metrics, and the status of its record once it is
over. -/
inductive Seen (V : Type) where
  | called (call : Call V)
  | counted (metric : Metric)
  | over (raised : Option Exc) (status : Option StatusValue)

/-- `seen` has the newest entry first. -/
structure Worker (V : Type) where
  queue : List ConsumerRecord
  current : Option (ConsumerRecord × Pc V)
  seen : List (ConsumerRecord × Seen V)

structure World (V R : Type) where
  now : Int
  keys : RedisState R
  worker : Topic → Worker V

def World.put (w : World V R) (topic : Topic) (keys : RedisState R) (worker : Worker V) :
    World V R :=
  { w with keys := keys, worker := Function.update w.worker topic worker }

@[simp] theorem World.put_worker_self (w : World V R) (topic : Topic) (keys : RedisState R)
    (worker : Worker V) : (w.put topic keys worker).worker topic = worker :=
  Function.update_self _ _ _

theorem World.put_worker_other (w : World V R) {t topic : Topic} (h : t ≠ topic)
    (keys : RedisState R) (worker : Worker V) :
    (w.put topic keys worker).worker t = w.worker t :=
  Function.update_of_ne h _ _

inductive Turn where
  | tick (d : Nat)
  | of (topic : Topic)

namespace Main

variable (main : Main V R)

def backend : Backend V R := .redis main.config main.codec

def perform (keys : RedisState R) (now : Int) (result : Option V) (call : Call V) :
    Except Exc (RedisState R × call.Reply) :=
  main.backend.perform keys now result call

def answer (keys : RedisState R) (now : Int) (call : Call V) (outcome : Outcome V) :
    RedisState R × Except Exc call.Reply :=
  main.backend.answer keys now call outcome

/-- Every call but `handle()` is carried out. -/
def outcome (topic : Topic) (record : ConsumerRecord) : Pc V → Outcome V
  | .executing _ _ (.handle attempts) =>
    match main.handle topic record attempts with
    | .ok result => .done result
    | .error exc => .raised exc true
  | _ => .done none

def status (keys : RedisState R) (now : Int) (record : ConsumerRecord) : Option StatusValue :=
  match extractMessageId main.py record with
  | .ok (some m) => (Redis.getStatus main.codec keys now m).map (·.status)
  | _ => none

/-- Where a delivery stands after a turn. A delivery that raises is over like one that ends. -/
def after (keys : RedisState R) (now : Int) (worker : Worker V) (record : ConsumerRecord)
    (calls : List (Call V)) (next : List Metric × Next V) : Worker V :=
  let seen := next.1.reverse.map (record, .counted ·) ++ calls.map (record, .called ·) ++
    worker.seen
  match next.2 with
  | .pc pc => { worker with current := some (record, pc), seen := seen }
  | .done => { worker with
    current := none
    seen := (record, .over none (main.status keys now record)) :: seen }
  | .raised exc => { worker with
    current := none
    seen := (record, .over (some exc) (main.status keys now record)) :: seen }

def turn (topic : Topic) (w : World V R) : World V R :=
  let worker := w.worker topic
  let self := topic.handler main.config
  match worker.current, worker.queue with
  | some (record, pc), _ =>
    let call := self.callOf main.py record pc
    let answer := main.answer w.keys w.now call (main.outcome topic record pc)
    w.put topic answer.1
      (main.after answer.1 w.now worker record [call] (self.resume main.py record pc answer.2))
  | none, record :: queue =>
    w.put topic w.keys
      (main.after w.keys w.now { worker with queue := queue } record [] (self.start main.py record))
  | none, [] => w

def step (w : World V R) : Turn → World V R
  | .tick d => { w with now := w.now + d }
  | .of topic => main.turn topic w

def run (schedule : List Turn) (w : World V R) : World V R := schedule.foldl main.step w

end Main

/-- The deliveries of each topic, in their order. -/
def World.start (now : Int) (keys : RedisState R) (deliveries : Topic → List ConsumerRecord) :
    World V R :=
  ⟨now, keys, fun topic => ⟨deliveries topic, none, []⟩⟩

/-- The deliveries without those of the other topics. -/
def only (topic : Topic) (deliveries : Topic → List ConsumerRecord) (t : Topic) :
    List ConsumerRecord :=
  if t = topic then deliveries t else []

/-! ## One turn -/

namespace Main

variable {main : Main V R}

theorem perform_onKey (now : Int) (result : Option V) {call : Call V} {m : String}
    (hkey : call.key = some m) : Keyspace.OnKey (redisKey m) fun keys : RedisState R =>
      main.perform keys now result call := by
  cases call with
  | claim key =>
    obtain rfl : key = m := by simpa [Call.key] using hkey
    exact Redis.claim_onKey
  | getStatus key =>
    obtain rfl : key = m := by simpa [Call.key] using hkey
    exact Redis.getStatus_onKey
  | markFailed key e a =>
    obtain rfl : key = m := by simpa [Call.key] using hkey
    exact Redis.markFailed_onKey
  | markCompleted key r =>
    obtain rfl : key = m := by simpa [Call.key] using hkey
    exact Redis.markCompleted_onKey
  | handle _ | sleep _ | sendAndWait _ _ _ | commit => cases hkey

/-- Two states of Redis that agree on the messages of `P`. -/
def AgreeOn (P : String → Prop) (keys keys' : RedisState R) : Prop :=
  ∀ m, P m → keys (redisKey m) = keys' (redisKey m)

variable {P : String → Prop} {keys keys' : RedisState R}

theorem perform_agree (main : Main V R) (now : Int) (result : Option V) {call : Call V}
    (hkey : ∀ m, call.key = some m → P m) (h : AgreeOn P keys keys') :
    (∃ e, main.perform keys now result call = .error e ∧
      main.perform keys' now result call = .error e) ∨
    ∃ r r', main.perform keys now result call = .ok r ∧
      main.perform keys' now result call = .ok r' ∧ r.2 = r'.2 ∧ AgreeOn P r.1 r'.1 := by
  cases hm : call.key with
  | some m =>
    have heq : ∀ k, (∃ m, P m ∧ k = redisKey m) → keys k = keys' k := by
      rintro _ ⟨m, hp, rfl⟩
      exact h m hp
    rcases (perform_onKey now result hm).agree ⟨m, hkey m hm, rfl⟩ heq with
      herr | ⟨r, r', hr, hr', hreply, hrest⟩
    · exact .inl herr
    · exact .inr ⟨r, r', hr, hr', hreply, fun m hp => hrest _ ⟨m, hp, rfl⟩⟩
  | none =>
    cases call with
    | claim _ | getStatus _ | markFailed _ _ _ | markCompleted _ _ => cases hm
    | handle _ | sleep _ | sendAndWait _ _ _ | commit =>
      exact .inr ⟨_, _, rfl, rfl, rfl, h⟩

theorem answer_agree (main : Main V R) (now : Int) (outcome : Outcome V) {call : Call V}
    (hkey : ∀ m, call.key = some m → P m) (h : AgreeOn P keys keys') :
    (main.answer keys now call outcome).2 =
        (main.answer keys' now call outcome).2 ∧
      AgreeOn P (main.answer keys now call outcome).1
        (main.answer keys' now call outcome).1 := by
  cases outcome with
  | done result =>
    have hperform := main.perform_agree now result hkey h
    unfold perform at hperform
    unfold answer Backend.answer
    rcases hperform with ⟨e, he, he'⟩ | ⟨r, r', hr, hr', hreply, hrest⟩
    · simp only [he, he', true_and]
      exact h
    · simp only [hr, hr', hreply, true_and]
      exact hrest
  | raised exc applied =>
    have hperform := main.perform_agree now none hkey h
    unfold perform at hperform
    unfold answer Backend.answer
    rcases hperform with ⟨e, he, he'⟩ | ⟨r, r', hr, hr', -, hrest⟩
    · simp only [he, he', true_and]
      exact h
    · simp only [hr, hr', true_and]
      cases applied
      · exact h
      · exact hrest

theorem answer_frame (main : Main V R) (keys : RedisState R) (now : Int) (outcome : Outcome V)
    {call : Call V}
    (hkey : ∀ m, call.key = some m → ¬ P m) :
    AgreeOn P (main.answer keys now call outcome).1 keys := by
  intro m hp
  have hcases : (main.answer keys now call outcome).1 = keys ∨ ∃ result reply,
      main.perform keys now result call = .ok ((main.answer keys now call outcome).1, reply) :=
    Backend.answer_cases call outcome
  rcases hcases with hsame | ⟨result, reply, hperform⟩
  · rw [hsame]
  · cases hk : call.key with
    | some key =>
      apply (perform_onKey now result hk).frame hperform
      apply redisKey_injective.ne
      rintro rfl
      exact hkey m hk hp
    | none =>
      cases call with
      | claim _ | getStatus _ | markFailed _ _ _ | markCompleted _ _ => cases hk
      | handle _ | sleep _ | sendAndWait _ _ _ | commit =>
        rw [← (Prod.mk.inj (Except.ok.inj hperform)).1]

/-! ## Where the deliveries come from -/

/-- A consumer works on its own deliveries only, each under the id of its record. -/
structure Sourced (main : Main V R) (deliveries : Topic → List ConsumerRecord) (w : World V R) :
    Prop where
  queue : ∀ t, ∀ record ∈ (w.worker t).queue, record ∈ deliveries t
  current : ∀ t record pc, (w.worker t).current = some (record, pc) → record ∈ deliveries t ∧
    extractMessageId main.py record = .ok (pc.messageId.map (·.val))

theorem after_current {now : Int} {worker : Worker V} {record : ConsumerRecord}
    {calls : List (Call V)} {next : List Metric × Next V} {r : ConsumerRecord} {pc : Pc V}
    (h : (main.after keys now worker record calls next).current = some (r, pc)) :
    r = record ∧ next.2 = .pc pc := by
  unfold after at h
  cases hn : next.2 with
  | pc p =>
    simp only [hn, Option.some.injEq, Prod.mk.injEq] at h
    exact ⟨h.1.symm, by rw [h.2]⟩
  | done | raised => simp [hn] at h

theorem after_queue {now : Int} {worker : Worker V} {record : ConsumerRecord}
    {calls : List (Call V)} {next : List Metric × Next V} :
    (main.after keys now worker record calls next).queue = worker.queue := by
  unfold after
  cases next.2 <;> rfl

theorem Sourced.put {deliveries : Topic → List ConsumerRecord} {w : World V R}
    (h : main.Sourced deliveries w) {t : Topic} {worker : Worker V} (keys : RedisState R)
    (hqueue : ∀ record ∈ worker.queue, record ∈ deliveries t)
    (hcurrent : ∀ record pc, worker.current = some (record, pc) → record ∈ deliveries t ∧
      extractMessageId main.py record = .ok (pc.messageId.map (·.val))) :
    main.Sourced deliveries (w.put t keys worker) where
  queue := by
    intro t' record hmem
    by_cases ht : t' = t
    · subst ht
      rw [World.put_worker_self] at hmem
      exact hqueue record hmem
    · rw [World.put_worker_other w ht] at hmem
      exact h.queue t' record hmem
  current := by
    intro t' record pc hc
    by_cases ht : t' = t
    · subst ht
      rw [World.put_worker_self] at hc
      exact hcurrent record pc hc
    · rw [World.put_worker_other w ht] at hc
      exact h.current t' record pc hc

theorem Sourced.turn {deliveries : Topic → List ConsumerRecord} {w : World V R}
    (h : main.Sourced deliveries w) (t : Topic) : main.Sourced deliveries (main.turn t w) := by
  unfold Main.turn
  simp only
  split
  · rename_i record pc hc
    obtain ⟨hmem, hid⟩ := h.current t record pc hc
    apply h.put
    · rw [after_queue]
      exact h.queue t
    · intro r p hp
      obtain ⟨rfl, hnext⟩ := after_current hp
      rw [DedupConsumer.resume_messageId hnext]
      exact ⟨hmem, hid⟩
  · rename_i record queue hc hq
    have hall := h.queue t
    rw [hq] at hall
    apply h.put w.keys
    · rw [after_queue]
      exact fun r hr => hall r (List.mem_cons_of_mem _ hr)
    · intro r p hp
      obtain ⟨rfl, hnext⟩ := after_current hp
      refine ⟨hall r List.mem_cons_self, ?_⟩
      rcases DedupConsumer.start_cases (V := V) main.py (t.handler main.config) r with
        ⟨p', hp', hid⟩ | ⟨exc, hexc⟩
      · rw [hnext] at hp'
        obtain rfl := Next.pc.inj hp'
        exact hid
      · cases hnext.symm.trans hexc
  · exact h

/-! ## Two runs -/

/-- What `topic` can see of two runs is the same. -/
structure Alike (P : String → Prop) (topic : Topic) (w w' : World V R) : Prop where
  now : w.now = w'.now
  worker : w.worker topic = w'.worker topic
  keys : AgreeOn P w.keys w'.keys

theorem status_congr (h : AgreeOn P keys keys') (now : Int) {record : ConsumerRecord}
    (hid : ∀ m, extractMessageId main.py record = .ok (some m) → P m) :
    main.status keys now record = main.status keys' now record := by
  unfold status
  split
  · rename_i m hm
    unfold Redis.getStatus
    rw [Keyspace.get_congr (h m (hid m hm))]
  · rfl

theorem after_congr (h : AgreeOn P keys keys') (now : Int) (worker : Worker V)
    {record : ConsumerRecord} (calls : List (Call V)) (next : List Metric × Next V)
    (hid : ∀ m, extractMessageId main.py record = .ok (some m) → P m) :
    main.after keys now worker record calls next =
      main.after keys' now worker record calls next := by
  unfold after
  rw [status_congr h now hid]

theorem callOf_key_cases (P : String → Prop) (self : DedupConsumer) {record : ConsumerRecord}
    {pc : Pc V} (hid : extractMessageId main.py record = .ok (pc.messageId.map (·.val)))
    (hp : ∀ m, extractMessageId main.py record = .ok (some m) → P m) (m : String)
    (hm : (self.callOf main.py record pc).key = some m) : P m := by
  rcases callOf_key main.py self record pc with hkey | hkey
  · rw [hm] at hkey
    exact hp m (hid.trans (congrArg _ hkey.symm))
  · rw [hm] at hkey
    simp at hkey

theorem Alike.turn {deliveries : Topic → List ConsumerRecord} {topic : Topic} {w w' : World V R}
    (hw : main.Sourced deliveries w)
    (hid : ∀ record ∈ deliveries topic, ∀ m,
      extractMessageId main.py record = .ok (some m) → P m)
    (h : Alike P topic w w') : Alike P topic (main.turn topic w) (main.turn topic w') := by
  unfold Main.turn
  simp only [← h.worker, ← h.now]
  split
  · rename_i record pc hc
    obtain ⟨hmem, hsource⟩ := hw.current topic record pc hc
    obtain ⟨hreply, hkeys⟩ := main.answer_agree w.now (main.outcome topic record pc)
      (callOf_key_cases P (topic.handler main.config) hsource (hid record hmem)) h.keys
    refine ⟨h.now, ?_, hkeys⟩
    rw [World.put_worker_self, World.put_worker_self, hreply]
    exact after_congr hkeys w.now _ _ _ (hid record hmem)
  · rename_i record queue hc hq
    have hmem : record ∈ deliveries topic := by
      apply hw.queue topic
      rw [hq]
      exact List.mem_cons_self
    refine ⟨h.now, ?_, h.keys⟩
    rw [World.put_worker_self, World.put_worker_self]
    exact after_congr h.keys w.now _ _ _ (hid record hmem)
  · exact h

theorem Alike.turn_other {deliveries : Topic → List ConsumerRecord} {topic t : Topic}
    {w w' : World V R} (ht : topic ≠ t) (hw : main.Sourced deliveries w)
    (hid : ∀ record ∈ deliveries t, ∀ m,
      extractMessageId main.py record = .ok (some m) → ¬ P m)
    (h : Alike P topic w w') : Alike P topic (main.turn t w) w' := by
  unfold Main.turn
  simp only
  split
  · rename_i record pc hc
    obtain ⟨hmem, hsource⟩ := hw.current t record pc hc
    have hframe := main.answer_frame w.keys w.now (main.outcome t record pc)
      (callOf_key_cases (fun m => ¬ P m) (t.handler main.config) hsource (hid record hmem))
    refine ⟨h.now, ?_, ?_⟩
    · rw [World.put_worker_other w ht]
      exact h.worker
    · intro m hp
      exact (hframe m hp).trans (h.keys m hp)
  · refine ⟨h.now, ?_, h.keys⟩
    rw [World.put_worker_other w ht]
    exact h.worker
  · exact h

theorem turn_idle {deliveries : Topic → List ConsumerRecord} {t : Topic} {w : World V R}
    (hw : main.Sourced deliveries w) (hnone : deliveries t = []) : main.turn t w = w := by
  unfold Main.turn
  simp only
  split
  · rename_i record pc hc
    have hmem := (hw.current t record pc hc).1
    rw [hnone] at hmem
    simp at hmem
  · rename_i record queue hc hq
    have hmem := hw.queue t record (by rw [hq]; exact List.mem_cons_self)
    rw [hnone] at hmem
    simp at hmem
  · rfl

theorem sourced_start (main : Main V R) (now : Int) (keys : RedisState R)
    (deliveries : Topic → List ConsumerRecord) :
    main.Sourced deliveries (.start now keys deliveries) where
  queue := fun _ _ h => h
  current := by
    intro t record pc hc
    cases hc

theorem Alike.run {deliveries : Topic → List ConsumerRecord} {topic : Topic}
    (hmine : ∀ record ∈ deliveries topic, ∀ m,
      extractMessageId main.py record = .ok (some m) → P m)
    (hothers : ∀ t, topic ≠ t → ∀ record ∈ deliveries t, ∀ m,
      extractMessageId main.py record = .ok (some m) → ¬ P m) (schedule : List Turn)
    {w w' : World V R} (hw : main.Sourced deliveries w)
    (hw' : main.Sourced (only topic deliveries) w') (h : Alike P topic w w') :
    Alike P topic (main.run schedule w) (main.run schedule w') := by
  induction schedule generalizing w w' with
  | nil => exact h
  | cons a schedule ih =>
    cases a with
    | tick d =>
      refine ih ⟨hw.queue, hw.current⟩ ⟨hw'.queue, hw'.current⟩ ⟨?_, h.worker, h.keys⟩
      exact congrArg (· + (d : Int)) h.now
    | of t =>
      apply ih (hw.turn t) (hw'.turn t)
      by_cases ht : topic = t
      · subst ht
        exact h.turn hw hmine
      · have hnone : only topic deliveries t = [] := if_neg (Ne.symm ht)
        have hidle : main.turn t w' = w' := turn_idle hw' hnone
        rw [hidle]
        exact h.turn_other ht hw (hothers t ht)

end Main

def Seen.handles : Seen V → Bool
  | .called (.handle _) => true
  | _ => false

/-- A runtime for one text only. -/
def numberedRuntime : Python :=
  { bareRuntime with loads := fun _ => .ok (.obj [("id", .int 1)]) }

/-- The first event of a topic that numbers its events. -/
def firstRecord (topic : String) : ConsumerRecord :=
  ⟨topic, 0, 0, none, some (encode "\x7b\"id\": 1\x7d"), []⟩

def headedRecord (topic : String) : ConsumerRecord :=
  ⟨topic, 0, 0, none, none, [("X-Message-Id", some (encode topic))]⟩

def sampleMain (py : Python) : Main Unit Unit := ⟨py, {}, nullCodec, fun _ _ _ => .ok none⟩

def oneEach (record : String → ConsumerRecord) : Topic → List ConsumerRecord
  | .orders => [record "orders"]
  | .payments => [record "payments"]
  | .shipments => []

/-- The order is processed, and then the payment and the shipment. -/
def orderThenPayment : List Turn :=
  (List.replicate 5 Topic.orders ++ List.replicate 5 Topic.payments ++
    List.replicate 5 Topic.shipments).map .of

/-- The shipment of the order has its id, and the payment is another message. -/
def shippedOrder : Topic → List ConsumerRecord
  | .shipments => [{ headedRecord "orders" with topic := "shipments" }]
  | topic => oneEach headedRecord topic

end MessageDedup
