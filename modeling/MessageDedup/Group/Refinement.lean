import MessageDedup.Group.Life
import MessageDedup.Group.Offsets
import MessageDedup.Group.Answers

/-!
# The group refines the life of each message

For each message id, a step of the group is one step of `Life`, or does nothing to that id.
-/

namespace MessageDedup

open Transition (System Reach Refines)

variable {V R : Type}

/-! ## The abstraction -/

def LoopPc.phase (entered : Bool) : {id : Option MessageId} → LoopPc V id → Phase
  | _, .handle attempts => if entered then .running attempts else .ready attempts
  | _, .markFailed attempts _ => .failing attempts
  | _, .sleep attempts _ => .sleeping attempts
  | _, .reclaim attempts _ => .reclaiming attempts
  | _, .markCompleted _ => .completing
  | _, .commitCompleted => .settling
  | _, .sendToDlq _ _ => .burying
  | _, .commitDlq => .buried

def Pc.phase (entered : Bool) : Pc V → Phase
  | .claim _ => .arriving
  | .getStatus _ => .refused
  | .commitSkipped _ => .skipping
  | .executing _ _ pc => pc.phase entered

def Delivery.task (d : Delivery V) : Task := ⟨d.number, d.pc.phase d.entered, d.leaseUntil⟩

def Local.task (m : MessageId) : Local V → Option Task
  | .busy d => if d.pc.messageId = some m then some d.task else none
  | _ => none

def Entry.life (m : MessageId) (entry : Entry) : Option (Nat × Event) :=
  if entry.messageId = some m then some (entry.delivery, entry.event) else none

def replyOf {A : Type} : Except Exc A → Reply
  | .ok _ => .ok
  | .error exc => .raised exc.isException

namespace Group

variable (g : Group V R) (m : MessageId)

/-- What concerns `m` in a state of the group. -/
def life (s : State g.backend) : Life where
  now := s.now
  record := g.backend.store.cell s.store s.now m
  task := fun c => (s.consumer c).task m
  trace := s.trace.filterMap (·.life m)

def rules : Rules where
  config := g.backend.config
  guarded := g.backend.guarded
  leaseUntil := g.backend.leaseUntil
  maxRetries := fun c => (g.consumers c).config.maxRetries
  dlq := fun c => (g.consumers c).dlq ≠ none
  decodable := ∀ p o, extractMessageId g.py (g.log p o) = .ok (some m.val) →
    ∃ payload, decodePayload g.py (g.log p o) = .ok payload

def replyTo (s : State g.backend) (c : ConsumerId) (d : Delivery V) (outcome : Outcome V) :
    Reply :=
  replyOf (g.backend.answer s.store s.now
    ((g.consumers c).callOf g.py (g.log d.partition d.offset) d.pc) outcome).2

/-- The step of `Life` that an action is for `m`. -/
def label (s : State g.backend) : Action V → Option Label
  | .tick d => some (.tick d (decide (g.backend.store.cell s.store (s.now + d) m ≠
      g.backend.store.cell s.store s.now m)))
  | .assign _ _ => none
  | .poll c p =>
    if ((g.consumers c).start (V := V) g.py (g.log p (s.position p))).2.messageId = some m then
      some (.arrive c)
    else none
  | .enter c => if ((s.consumer c).task m).isSome then some (.enter c) else none
  | .act c outcome =>
    match s.consumer c with
    | .busy d =>
      if d.pc.messageId = some m then some (.act c (replyTo g s c d outcome)) else none
    | _ => none
  | .crash c => if ((s.consumer c).task m).isSome then some (.crash c) else none

end Group

/-! ## One call of a delivery -/

def nextTask (m : MessageId) (n : Nat) (lease : Int) : Next V → Option Task
  | .pc p => if p.messageId = some m then some ⟨n, p.phase false, lease⟩ else none
  | _ => none

theorem nextTask_pc {m : MessageId} {n : Nat} {lease : Int} {p : Pc V}
    (h : p.messageId = some m) : nextTask m n lease (.pc p) = some ⟨n, p.phase false, lease⟩ :=
  if_pos h

namespace Group

variable {g : Group V R} {m : MessageId} {c : ConsumerId} {record : ConsumerRecord}

theorem toExhausted_cases (g : Group V R) (m : MessageId) (c : ConsumerId)
    (record : ConsumerRecord) (payload : Payload) (lastExc : Option Exc) :
    ∃ pc : LoopPc V (some m), (g.rules m).Grave c (pc.phase false) ∧
      (g.consumers c).toExhausted record (some m) payload lastExc =
        ([.dlq record.topic], .pc (.executing (some m) payload pc)) := by
  unfold DedupConsumer.toExhausted Rules.Grave rules
  cases h : (g.consumers c).dlq with
  | some topic => exact ⟨.sendToDlq topic lastExc, .inl ⟨by simp [h], rfl⟩, rfl⟩
  | none => exact ⟨.commitDlq, .inr ⟨by simp [h], rfl⟩, rfl⟩

theorem toAttempt_cases (g : Group V R) (m : MessageId) (c : ConsumerId)
    (record : ConsumerRecord) (payload : Payload) (attempts : Int) (lastExc : Option Exc) :
    (attempts ≤ (g.rules m).maxRetries c ∧
      (g.consumers c).toAttempt (V := V) record (some m) payload attempts lastExc =
        ([], .pc (.executing (some m) payload (.handle attempts)))) ∨
    ((g.rules m).maxRetries c < attempts ∧
      ∃ pc : LoopPc V (some m), (g.rules m).Grave c (pc.phase false) ∧
      (g.consumers c).toAttempt record (some m) payload attempts lastExc =
        ([.dlq record.topic], .pc (.executing (some m) payload pc))) := by
  unfold DedupConsumer.toAttempt
  by_cases h : attempts ≤ (g.consumers c).config.maxRetries
  · exact .inl ⟨h, by rw [if_pos h]⟩
  · right
    rw [if_neg h]
    exact ⟨not_le.mp h, toExhausted_cases g m c record payload lastExc⟩

theorem toBackoff_cases (g : Group V R) (m : MessageId) (c : ConsumerId)
    (record : ConsumerRecord) (payload : Payload) (attempts : Int) (exc : Exc) :
    (attempts < (g.rules m).maxRetries c ∧
      (g.consumers c).toBackoff (V := V) record (some m) payload attempts exc =
        ([], .pc (.executing (some m) payload (.sleep attempts exc)))) ∨
    (¬ attempts < (g.rules m).maxRetries c ∧
      ∃ pc : LoopPc V (some m), (g.rules m).Grave c (pc.phase false) ∧
      (g.consumers c).toBackoff record (some m) payload attempts exc =
        ([.dlq record.topic], .pc (.executing (some m) payload pc))) := by
  unfold DedupConsumer.toBackoff
  by_cases h : attempts < (g.consumers c).config.maxRetries
  · exact .inl ⟨h, by rw [if_pos h]⟩
  · right
    rw [if_neg h]
    refine ⟨h, ?_⟩
    rcases toAttempt_cases g m c record payload (attempts + 1) (some exc) with ⟨hle, -⟩ | ⟨-, h'⟩
    · have hmax : attempts + 1 ≤ (g.consumers c).config.maxRetries := hle
      omega
    · exact h'

/-- The move that a delivery of `m` makes when its awaited call is answered. -/
def Moves (g : Group V R) (m : MessageId) (c : ConsumerId) (record : ConsumerRecord) (now : Int)
    (cell cell' : Option Cell) (n : Nat) (lease : Int) (entered applied : Bool) (pc : Pc V)
    (reply : Except Exc ((g.consumers c).callOf g.py record pc).Reply) : Prop :=
  (g.rules m).Move c now cell ⟨n, pc.phase entered, lease⟩ (replyOf reply) cell'
    (nextTask m n
      (if ((g.consumers c).callOf g.py record pc).won reply then g.backend.leaseUntil now
        else lease)
      ((g.consumers c).resume g.py record pc reply).2)
    (deadLetterEvents ((g.consumers c).resume g.py record pc reply).1 ++
      ((g.consumers c).callOf g.py record pc).events (g.backend.leaseUntil now) applied reply)

variable {now : Int} {cell cell' : Option Cell} {n : Nat} {lease : Int} {entered applied : Bool}

theorem moves_of {pc : Pc V} {reply : Except Exc ((g.consumers c).callOf g.py record pc).Reply}
    {metrics : List Metric} {next : Next V} {record' : Option Cell} {task : Option Task}
    {events : List Event}
    (hmove : (g.rules m).Move c now cell ⟨n, pc.phase entered, lease⟩ (replyOf reply) record' task
      events)
    (hnext : (g.consumers c).resume g.py record pc reply = (metrics, next))
    (hcell : cell' = record')
    (htask : nextTask m n (if ((g.consumers c).callOf g.py record pc).won reply then
      g.backend.leaseUntil now else lease) next = task)
    (hevents : deadLetterEvents metrics ++
      ((g.consumers c).callOf g.py record pc).events (g.backend.leaseUntil now) applied reply =
        events) :
    Moves g m c record now cell cell' n lease entered applied pc reply := by
  unfold Moves
  rw [hnext, hcell, htask, hevents]
  exact hmove

theorem moves_claim {p o : Nat} (hid : extractMessageId g.py (g.log p o) = .ok (some m.val))
    {reply : Except Exc ((g.consumers c).callOf g.py (g.log p o) (.claim m : Pc V)).Reply}
    (h : Answered g.backend now cell _ reply applied cell') :
    Moves g m c (g.log p o) now cell cell' n lease entered applied (.claim m : Pc V) reply := by
  rcases reply with e | claimed
  · exact .stopped applied trivial h.self
  · rcases h.claim with ⟨rfl, hc, hcell⟩ | ⟨rfl, hc, hcell⟩
    · have hresume : (g.consumers c).resume g.py (g.log p o) (.claim m : Pc V) (.ok true) =
        (g.consumers c).toExecute g.py (g.log p o) (some m) := rfl
      unfold DedupConsumer.toExecute at hresume
      cases hd : decodePayload g.py (g.log p o) with
      | error exc =>
        rw [hd] at hresume
        have hdec : ¬ (g.rules m).decodable := by
          intro hall
          obtain ⟨payload, hp⟩ := hall p o hid
          rw [hd] at hp
          simp at hp
        exact moves_of (.undecodable hc hdec) hresume hcell rfl rfl
      | ok payload =>
        rw [hd] at hresume
        rcases toAttempt_cases g m c (g.log p o) payload 1 none with
          ⟨hmax, hnext⟩ | ⟨hmax, pc, hg, hnext⟩
        · exact moves_of (.granted hc hmax) (hresume.trans hnext) hcell (nextTask_pc rfl) rfl
        · exact moves_of (.grantedInVain hc hmax hg) (hresume.trans hnext) hcell
            (nextTask_pc rfl) rfl
    · exact moves_of (.refused hc) rfl hcell (nextTask_pc rfl) rfl

theorem moves_getStatus
    {reply : Except Exc ((g.consumers c).callOf g.py record (.getStatus m : Pc V)).Reply}
    (h : Answered g.backend now cell _ reply applied cell') :
    Moves g m c record now cell cell' n lease entered applied (.getStatus m : Pc V) reply := by
  rcases reply with e | existing
  · exact .stopped applied trivial h.self
  · refine moves_of .statusRead rfl (h.ok _ rfl).2 (nextTask_pc rfl) ?_
    unfold DedupConsumer.skipMetric
    split <;> rfl

theorem moves_commitSkipped
    {reply : Except Exc ((g.consumers c).callOf g.py record (.commitSkipped m : Pc V)).Reply}
    (h : Answered g.backend now cell _ reply applied cell') :
    Moves g m c record now cell cell' n lease entered applied (.commitSkipped m : Pc V) reply := by
  rcases reply with e | r
  · exact .stopped applied trivial h.self
  · obtain ⟨rfl, hcell⟩ := h.ok _ rfl
    exact moves_of .skipped rfl hcell rfl rfl

variable {payload : Payload}

theorem moves_handle {attempts : Int}
    {reply : Except Exc
      ((g.consumers c).callOf g.py record (.executing (some m) payload (.handle attempts))).Reply}
    (h : Answered g.backend now cell _ reply applied cell') :
    Moves g m c record now cell cell' n lease true applied
      (.executing (some m) payload (.handle attempts)) reply := by
  rcases reply with e | result
  · have hself : cell' = cell := h.self.elim id id
    have hreply : replyOf (.error e : Except Exc (Option V)) = .raised e.isException := rfl
    cases he : e.isException with
    | true =>
      rw [he] at hreply
      exact moves_of (hreply ▸ .failed) (if_pos he) hself (nextTask_pc rfl) rfl
    | false =>
      rw [he] at hreply
      exact moves_of (hreply ▸ .stopped applied rfl (.inl rfl))
        (if_neg (by simp [he])) hself rfl rfl
  · exact moves_of .returned rfl (h.ok _ rfl).2 (nextTask_pc rfl) rfl

theorem moves_markFailed {attempts : Int} {exc : Exc}
    {reply : Except Exc ((g.consumers c).callOf g.py record
      (.executing (some m) payload (.markFailed attempts exc) : Pc V)).Reply}
    (h : Answered g.backend now cell _ reply applied cell') :
    Moves g m c record now cell cell' n lease entered applied
      (.executing (some m) payload (.markFailed attempts exc)) reply := by
  rcases reply with e | r
  · exact .stopped applied trivial h.self
  · have hcell := (h.ok _ rfl).2
    rcases toBackoff_cases g m c record payload attempts exc with
      ⟨hlt, hnext⟩ | ⟨hlt, pc, hg, hnext⟩
    · exact moves_of (.retried hlt) hnext hcell (nextTask_pc rfl) rfl
    · exact moves_of (.exhausted hlt hg) hnext hcell (nextTask_pc rfl) rfl

theorem moves_reclaim {attempts : Int} {exc : Exc}
    {reply : Except Exc ((g.consumers c).callOf g.py record
      (.executing (some m) payload (.reclaim attempts exc) : Pc V)).Reply}
    (h : Answered g.backend now cell _ reply applied cell') :
    Moves g m c record now cell cell' n lease entered applied
      (.executing (some m) payload (.reclaim attempts exc)) reply := by
  rcases reply with e | claimed
  · exact .stopped applied trivial h.self
  · rcases h.claim with ⟨rfl, hc, hcell⟩ | ⟨rfl, hc, hcell⟩
    · rcases toAttempt_cases g m c record payload (attempts + 1) (some exc) with
        ⟨hmax, hnext⟩ | ⟨hmax, pc, hg, hnext⟩
      · exact moves_of (.regranted hc hmax) hnext hcell (nextTask_pc rfl) rfl
      · exact moves_of (.regrantedInVain hc hmax hg) hnext hcell (nextTask_pc rfl) rfl
    · obtain ⟨pc, hg, hnext⟩ := toExhausted_cases (V := V) g m c record payload (some exc)
      exact moves_of (.lostRace hc hg) hnext hcell (nextTask_pc rfl) rfl

theorem moves_markCompleted {result : Option V}
    {reply : Except Exc ((g.consumers c).callOf g.py record
      (.executing (some m) payload (.markCompleted result))).Reply}
    (h : Answered g.backend now cell _ reply applied cell') :
    Moves g m c record now cell cell' n lease entered applied
      (.executing (some m) payload (.markCompleted result)) reply := by
  rcases reply with e | r
  · have hreply : replyOf (.error e : Except Exc Unit) = .raised e.isException := rfl
    cases he : e.isException with
    | true =>
      rw [he] at hreply
      exact moves_of (hreply ▸ .markLost h.self) (if_pos he) rfl (nextTask_pc rfl) rfl
    | false =>
      rw [he] at hreply
      exact moves_of (hreply ▸ .stopped applied rfl h.self)
        (if_neg (by simp [he])) rfl rfl rfl
  · exact moves_of .completed rfl (h.ok _ rfl).2 (nextTask_pc rfl) rfl

theorem moves_loop (pc : LoopPc V (some m))
    (henter : (Pc.executing (some m) payload pc).atHandle = true → entered = true)
    {reply : Except Exc ((g.consumers c).callOf g.py record (.executing (some m) payload pc)).Reply}
    (h : Answered g.backend now cell _ reply applied cell') :
    Moves g m c record now cell cell' n lease entered applied (.executing (some m) payload pc)
      reply := by
  cases pc with
  | handle attempts =>
    obtain rfl := henter rfl
    exact moves_handle h
  | markFailed attempts exc => exact moves_markFailed h
  | sleep attempts exc =>
    rcases reply with e | r
    · exact .stopped applied trivial h.self
    · exact moves_of .slept rfl (h.ok _ rfl).2 (nextTask_pc rfl) rfl
  | reclaim attempts exc => exact moves_reclaim h
  | markCompleted result => exact moves_markCompleted h
  | commitCompleted =>
    rcases reply with e | r
    · exact .stopped applied trivial h.self
    · obtain ⟨rfl, hcell⟩ := h.ok _ rfl
      exact moves_of .settled rfl hcell rfl rfl
  | sendToDlq topic lastExc =>
    rcases reply with e | r
    · exact .stopped applied trivial h.self
    · exact moves_of .sent rfl (h.ok _ rfl).2 (nextTask_pc rfl) rfl
  | commitDlq =>
    rcases reply with e | r
    · exact .stopped applied trivial h.self
    · obtain ⟨rfl, hcell⟩ := h.ok _ rfl
      exact moves_of .dropped rfl hcell rfl rfl

theorem moves_pc {p o : Nat} {pc : Pc V} (hpc : pc.messageId = some m)
    (hid : extractMessageId g.py (g.log p o) = .ok (some m.val))
    (henter : pc.atHandle = true → entered = true)
    {reply : Except Exc ((g.consumers c).callOf g.py (g.log p o) pc).Reply}
    (h : Answered g.backend now cell _ reply applied cell') :
    Moves g m c (g.log p o) now cell cell' n lease entered applied pc reply := by
  cases pc with
  | claim m' =>
    obtain rfl := Option.some.inj hpc
    exact moves_claim hid h
  | getStatus m' =>
    obtain rfl := Option.some.inj hpc
    exact moves_getStatus h
  | commitSkipped m' =>
    obtain rfl := Option.some.inj hpc
    exact moves_commitSkipped h
  | executing id payload pc =>
    obtain rfl : id = some m := hpc
    exact moves_loop pc henter h

end Group

theorem loopCall_key {py : Python} {self : DedupConsumer} {record : ConsumerRecord}
    {payload : Payload} {id : Option MessageId} (pc : LoopPc V id) :
    (self.loopCall py record payload pc).key = id.map (·.val) ∨
      (self.loopCall py record payload pc).key = none := by
  cases pc with
  | handle _ | sleep _ _ | commitCompleted | sendToDlq _ _ | commitDlq => exact .inr rfl
  | markFailed _ _ | reclaim _ _ | markCompleted _ => exact .inl rfl

theorem callOf_key (py : Python) (self : DedupConsumer) (record : ConsumerRecord) (pc : Pc V) :
    (self.callOf py record pc).key = pc.messageId.map (·.val) ∨
      (self.callOf py record pc).key = none := by
  cases pc with
  | claim m | getStatus m => exact .inl rfl
  | commitSkipped m => exact .inr rfl
  | executing id payload pc => exact loopCall_key pc

/-! ## What concerns a message after a step -/

def landTask (m : MessageId) (delivery : Pc V → Delivery V) : Next V → Option Task
  | .pc p => (Local.busy (delivery p)).task m
  | _ => none

namespace Group

variable {g : Group V R} {m : MessageId} (s : State g.backend) (c : ConsumerId)

theorem life_setConsumer (l : Local V) : g.life m (s.setConsumer c l) =
    { g.life m s with task := Function.update (g.life m s).task c (l.task m) } := by
  unfold life State.setConsumer
  congr 1
  funext c'
  by_cases h : c' = c
  · subst h
    simp
  · simp [h]

theorem life_update_none {c : ConsumerId} (h : (g.life m s).task c = none) :
    { g.life m s with task := Function.update (g.life m s).task c none } = g.life m s := by
  rw [← h, Function.update_eq_self]

theorem life_stop : g.life m (s.stop c) =
    { g.life m s with task := Function.update (g.life m s).task c none } :=
  life_setConsumer s c .stopped

theorem life_land (delivery : Pc V → Delivery V) (next : Next V) :
    g.life m (s.land c delivery next) =
      { g.life m s with
        task := Function.update (g.life m s).task c (landTask m delivery next) } := by
  cases next with
  | pc p => exact life_setConsumer s c _
  | done => exact life_setConsumer s c .idle
  | raised exc => exact life_stop s c

theorem life_log_self (n : Nat) (events : List Event) :
    g.life m (s.log (some m) n events) =
      { g.life m s with trace := events.map (n, ·) ++ (g.life m s).trace } := by
  unfold life State.log
  congr 1
  rw [List.filterMap_append, List.filterMap_map]
  congr 1
  induction events with
  | nil => rfl
  | cons event events ih => simp [Entry.life]

theorem life_log_other {id : Option MessageId} (h : id ≠ some m) (n : Nat) (events : List Event) :
    g.life m (s.log id n events) = g.life m s := by
  unfold life State.log
  congr 1
  rw [List.filterMap_append, List.filterMap_map]
  simp [Entry.life, Function.comp_def, h]

theorem life_withStore (store : g.backend.State) :
    g.life m { s with store := store } =
      { g.life m s with record := g.backend.store.cell store s.now m } := rfl

theorem life_commitPositions (b : Bool) :
    g.life m (if b then s.commitPositions c else s) = g.life m s := by
  cases b <;> rfl

theorem landTask_acted (d : Delivery V) (lease : Int) (next : Next V) :
    landTask m (fun pc => { d with
      pc := pc
      entered := false
      leaseUntil := lease }) next = nextTask m d.number lease next := by
  cases next <;> rfl

theorem life_acted_self (d : Delivery V) (outcome : Outcome V) (hd : d.pc.messageId = some m) :
    g.life m (g.acted s c d outcome) =
      (g.life m s).put c
        (g.backend.store.cell (g.backend.answer s.store s.now
          ((g.consumers c).callOf g.py (g.log d.partition d.offset) d.pc) outcome).1 s.now m)
        (nextTask m d.number
          (if ((g.consumers c).callOf g.py (g.log d.partition d.offset) d.pc).won
              (g.backend.answer s.store s.now _ outcome).2 then g.backend.leaseUntil s.now
            else d.leaseUntil)
          ((g.consumers c).resume g.py (g.log d.partition d.offset) d.pc
            (g.backend.answer s.store s.now _ outcome).2).2)
        d.number
        (deadLetterEvents ((g.consumers c).resume g.py (g.log d.partition d.offset) d.pc
            (g.backend.answer s.store s.now _ outcome).2).1 ++
          ((g.consumers c).callOf g.py (g.log d.partition d.offset) d.pc).events
            (g.backend.leaseUntil s.now) outcome.applied
            (g.backend.answer s.store s.now _ outcome).2) := by
  unfold acted
  simp only [hd]
  rw [life_land, life_commitPositions, landTask_acted, life_log_self, life_withStore]
  rfl

theorem life_acted_other (d : Delivery V) (outcome : Outcome V) (hc : s.consumer c = .busy d)
    (hd : d.pc.messageId ≠ some m) : g.life m (g.acted s c d outcome) = g.life m s := by
  have hkey : ((g.consumers c).callOf g.py (g.log d.partition d.offset) d.pc).key ≠
      some m.val := by
    rcases callOf_key g.py (g.consumers c) (g.log d.partition d.offset) d.pc with h | h
    · rw [h]
      exact fun e => hd (Option.map_injective Subtype.val_injective e)
    · rw [h]
      exact nofun
  have hbefore : (g.life m s).task c = none := by
    simp [life, hc, Local.task, hd]
  have hafter : ∀ lease, nextTask m d.number lease
      ((g.consumers c).resume g.py (g.log d.partition d.offset) d.pc
        (g.backend.answer s.store s.now _ outcome).2).2 = none := by
    intro lease
    cases hnext : ((g.consumers c).resume g.py (g.log d.partition d.offset) d.pc
        (g.backend.answer s.store s.now _ outcome).2).2 with
    | pc p => exact if_neg (DedupConsumer.resume_messageId hnext ▸ hd)
    | done => rfl
    | raised exc => rfl
  unfold acted
  rw [life_land, life_commitPositions, landTask_acted, life_log_other _ hd, life_withStore,
    Backend.answer_other outcome hkey, hafter]
  exact life_update_none s hbefore

theorem step_act (hcons : Consistent g s) {outcome : Outcome V} {s' : State g.backend}
    (hs : g.act s c outcome = some s') :
    (Life.system (g.rules m)).StepOrStay (g.life m s) (g.label m s (.act c outcome))
      (g.life m s') := by
  unfold act at hs
  cases hc : s.consumer c with
  | idle | stopped => simp [hc] at hs
  | busy d =>
    simp only [hc] at hs
    split at hs
    · simp at hs
    · rename_i henter
      obtain rfl := Option.some.inj hs
      by_cases hd : d.pc.messageId = some m
      · simp only [label, hc, hd, if_true]
        rw [life_acted_self s c d outcome hd]
        have hid := hcons.id c d hc
        rw [hd] at hid
        have htask : (g.life m s).task c = some d.task := by
          simp [life, hc, Local.task, hd]
        have hkey := callOf_key g.py (g.consumers c) (g.log d.partition d.offset) d.pc
        rw [hd] at hkey
        exact .act htask (moves_pc hd hid (by simpa using henter)
          (g.backend.answered s.store s.now outcome hkey))
      · simp only [label, hc, if_neg hd]
        exact life_acted_other s c d outcome hc hd

theorem phase_of_enter {pc : Pc V} (h : pc.atHandle = true) :
    ∃ attempts, pc.phase false = .ready attempts ∧ pc.phase true = .running attempts := by
  cases pc with
  | claim m | getStatus m | commitSkipped m => cases h
  | executing id payload pc =>
    cases pc with
    | handle attempts => exact ⟨attempts, rfl, rfl⟩
    | _ => cases h

theorem task_lt (hcons : Consistent g s) (m : MessageId) (c : ConsumerId) (t : Task)
    (h : (g.life m s).task c = some t) : t.delivery < s.deliveries := by
  change (s.consumer c).task m = some t at h
  unfold Local.task at h
  split at h
  · rename_i d hc
    split at h
    · obtain rfl := Option.some.inj h
      exact hcons.number c d hc
    · simp at h
  · simp at h

theorem trace_lt (hcons : Consistent g s) (m : MessageId) :
    ∀ e ∈ (g.life m s).trace, e.1 < s.deliveries := by
  intro e he
  obtain ⟨entry, hentry, hlife⟩ := List.mem_filterMap.mp he
  unfold Entry.life at hlife
  split at hlife
  · obtain rfl := Option.some.inj hlife
    exact hcons.fresh entry hentry
  · simp at hlife

theorem step_tick (d : Nat) :
    (Life.system (g.rules m)).StepOrStay (g.life m s) (g.label m s (.tick d))
      (g.life m { s with now := s.now + d }) := by
  have hlife : g.life m { s with now := s.now + d } =
      { g.life m s with
        now := s.now + d
        record := g.backend.store.cell s.store (s.now + d) m } := rfl
  have hlabel : g.label m s (.tick d) = some (.tick d (decide
      (g.backend.store.cell s.store (s.now + d) m ≠ g.backend.store.cell s.store s.now m))) := rfl
  rw [hlife, hlabel]
  by_cases hsame : g.backend.store.cell s.store (s.now + d) m =
      g.backend.store.cell s.store s.now m
  · rw [decide_eq_false (not_not_intro hsame), hsame]
    exact Life.Step.tick
  · have hle : s.now ≤ s.now + d := by omega
    rw [decide_eq_true hsame, (g.backend.lawful.expires hle).resolve_left hsame]
    exact Life.Step.expire

theorem step_poll (hcons : Consistent g s) {p : Nat} {s' : State g.backend}
    (hs : g.poll s c p = some s') :
    (Life.system (g.rules m)).StepOrStay (g.life m s) (g.label m s (.poll c p)) (g.life m s') := by
  unfold poll at hs
  split at hs
  · rename_i hc
    split at hs
    · obtain rfl := Option.some.inj hs
      have htask : (g.life m s).task c = none := by simp [life, hc, Local.task]
      rw [life_land]
      by_cases hm : ((g.consumers c).start g.py (g.log p (s.position p)) :
          List Metric × Next V).2.messageId = some m
      · rw [show g.label m s (.poll c p) = some (.arrive c) from if_pos hm]
        have hland : landTask m
            (fun pc : Pc V => (⟨s.deliveries, p, s.position p, pc, false, s.now⟩ : Delivery V))
            (.pc (.claim m)) = some ⟨s.deliveries, .arriving, s.now⟩ := if_pos rfl
        simp only [DedupConsumer.start_claim hm, Next.messageId, Pc.messageId, life_log_self, hland]
        exact Life.Step.arrive htask (task_lt s hcons m) (trace_lt s hcons m)
      · rw [show g.label m s (.poll c p) = none from if_neg hm, life_log_other _ hm]
        have hland : landTask m
            (fun pc : Pc V => (⟨s.deliveries, p, s.position p, pc, false, s.now⟩ : Delivery V))
            ((g.consumers c).start g.py (g.log p (s.position p))).2 = none := by
          cases hn : ((g.consumers c).start g.py (g.log p (s.position p)) :
              List Metric × Next V).2 with
          | pc pc =>
            rw [hn] at hm
            exact if_neg hm
          | done => rfl
          | raised exc => rfl
        rw [hland]
        exact life_update_none s htask
    · simp at hs
  · simp at hs

theorem step_enter {s' : State g.backend} (hs : g.enter s c = some s') :
    (Life.system (g.rules m)).StepOrStay (g.life m s) (g.label m s (.enter c)) (g.life m s') := by
  unfold enter at hs
  split at hs
  · rename_i d hc
    split at hs
    · rename_i henter
      obtain rfl := Option.some.inj hs
      rw [life_setConsumer]
      by_cases hd : d.pc.messageId = some m
      · have htask : (s.consumer c).task m = some d.task := by simp [hc, Local.task, hd]
        obtain ⟨attempts, hready, hrunning⟩ := phase_of_enter henter.1
        rw [show g.label m s (.enter c) = some (.enter c) by simp [label, htask], hd, life_log_self]
        have hnext : (Local.busy { d with entered := true }).task m =
            some ⟨d.number, .running attempts, d.leaseUntil⟩ := by
          simp [Local.task, hd, Delivery.task, hrunning]
        rw [hnext]
        have htask : (g.life m s).task c = some ⟨d.number, .ready attempts, d.leaseUntil⟩ := by
          rw [← hready, ← henter.2]
          exact htask
        exact Life.Step.enter htask
      · have htask : (s.consumer c).task m = none := by simp [hc, Local.task, hd]
        have hnext : (Local.busy { d with entered := true }).task m = none := if_neg hd
        rw [show g.label m s (.enter c) = none by simp [label, htask], life_log_other _ hd, hnext]
        exact life_update_none s htask
    · simp at hs
  · simp at hs

theorem step_crash {s' : State g.backend} (hs : g.crash s c = some s') :
    (Life.system (g.rules m)).StepOrStay (g.life m s) (g.label m s (.crash c)) (g.life m s') := by
  unfold crash at hs
  split at hs
  · simp at hs
  · obtain rfl := Option.some.inj hs
    rw [life_stop]
    cases ht : (s.consumer c).task m with
    | none =>
      rw [show g.label m s (.crash c) = none by simp [label, ht]]
      exact life_update_none s ht
    | some t =>
      simp only [label, ht]
      exact .crash ht

end Group

/-- For each message id, the group refines the life of that message. -/
theorem Group.refines (g : Group V R) (m : MessageId) :
    Refines (g.system m) (Life.system (g.rules m)) (g.life m) (g.label m) where
  init := by
    rintro s ⟨now, store, rfl, hnone⟩
    exact ⟨hnone, fun _ => rfl, rfl⟩
  step := by
    intro s a s' hr hs
    have hcons := consistent_of_reach hr
    cases a with
    | tick d =>
      obtain rfl := Option.some.inj hs
      exact step_tick s d
    | assign p c =>
      simp only [system, Transition.ofExec, exec, assign] at hs
      split at hs
      · obtain rfl := Option.some.inj hs
        rfl
      · simp at hs
    | poll c p => exact step_poll s c hcons hs
    | enter c => exact step_enter s c hs
    | act c outcome => exact step_act s c hcons hs
    | crash c => exact step_crash s c hs

/-- Each step that concerns `m` meets `ok`. -/
def Group.during (g : Group V R) (m : MessageId) (ok : Life → Label → Prop)
    (s : State g.backend) (a : Action V) : Prop :=
  ∀ b, g.label m s a = some b → ok (g.life m s) b

theorem Group.reach_life {g : Group V R} {m : MessageId} {ok : Life → Label → Prop}
    {s : State g.backend} (h : Reach ((g.system m).guard (g.during m ok)) s) :
    Reach ((Life.system (g.rules m)).guard ok) (g.life m s) :=
  (g.refines m).reach (fun _ _ b _ hok hb => hok b hb) h

end MessageDedup
