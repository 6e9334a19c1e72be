import MessageDedup.Group.Attempts
import MessageDedup.Store.Agreement

/-!
# A consumer left alone

While no other consumer of the group acts, each step of a consumer brings its delivery nearer to the
end, and does to the record what the program of a delivery does.
-/

namespace MessageDedup

open Coroutine (Proc)
open Transition (Reach System)

variable {V R : Type}

/-! ## Only `handle()` brings a result -/

def Next.result : Next V → Option (Option V)
  | .pc (.executing _ _ (.markCompleted result)) => some result
  | _ => none

namespace DedupConsumer

variable {py : Python} {self : DedupConsumer} {record : ConsumerRecord}

section

variable {id : Option MessageId} {payload : Payload} {attempts : Int}

theorem toExhausted_result (lastExc : Option Exc) :
    (toExhausted (V := V) self record id payload lastExc).2.result = none := by
  unfold toExhausted
  cases self.dlq <;> rfl

theorem toAttempt_result (lastExc : Option Exc) :
    (toAttempt (V := V) self record id payload attempts lastExc).2.result = none := by
  unfold toAttempt
  split
  · rfl
  · exact toExhausted_result lastExc

theorem toBackoff_result (exc : Exc) :
    (toBackoff (V := V) self record id payload attempts exc).2.result = none := by
  unfold toBackoff
  split
  · rfl
  · exact toAttempt_result _

theorem toExecute_result : (toExecute (V := V) py self record id).2.result = none := by
  unfold toExecute
  split
  · exact toAttempt_result _
  · rfl

theorem afterHandle_result {r : Except Exc (Option V)} {result : Option V}
    (h : (afterHandle self record id payload attempts r).2.result = some result) :
    r = .ok result := by
  rcases r with e | result'
  · simp only [afterHandle] at h
    split at h
    · cases id with
      | none =>
        rw [afterRaise, toBackoff_result] at h
        simp at h
      | some m => simp [afterRaise, Next.result] at h
    · simp [Next.result] at h
  · cases id with
    | none => simp [afterHandle, afterReturn, Next.result] at h
    | some m =>
      simp only [afterHandle, afterReturn, Next.result, Option.some.injEq] at h
      rw [h]

end

end DedupConsumer

/-- What a call of `handle()` returned. -/
def Call.returned : (call : Call V) → Except Exc call.Reply → Option (Option V)
  | .handle _, .ok result => some result
  | _, _ => none

theorem DedupConsumer.resume_result {py : Python} {self : DedupConsumer} {record : ConsumerRecord}
    {p : Pc V} {r : Except Exc (self.callOf py record p).Reply} {result : Option V}
    (h : (self.resume py record p r).2.result = some result) :
    (self.callOf py record p).returned r = some result := by
  cases p with
  | claim m =>
    rcases r with e | claimed
    · cases h
    · cases claimed with
      | false => cases h
      | true => exact absurd (toExecute_result.symm.trans h) nofun
  | getStatus m | commitSkipped m => rcases r with e | x <;> cases h
  | executing id payload pc =>
    cases pc with
    | handle attempts =>
      obtain rfl := afterHandle_result h
      rfl
    | markFailed attempts exc =>
      rcases r with e | x
      · cases h
      · exact absurd ((toBackoff_result exc).symm.trans h) nofun
    | sleep attempts exc =>
      rcases r with e | x
      · cases h
      · cases id with
        | none => exact absurd ((toAttempt_result (some exc)).symm.trans h) nofun
        | some m => cases h
    | reclaim attempts exc =>
      -- A new attempt and the end of the attempts both drop the earlier result.
      rcases r with e | claimed
      · cases h
      · cases claimed with
        | false => exact absurd ((toExhausted_result (some exc)).symm.trans h) nofun
        | true => exact absurd ((toAttempt_result (some exc)).symm.trans h) nofun
    | markCompleted result' =>
      rcases r with e | x
      · simp only [resume, resumeLoop, afterMark] at h
        split at h <;> cases h
      · cases h
    | commitCompleted | sendToDlq | commitDlq => rcases r with e | x <;> cases h

/-! ## Calls that go well -/

section

variable {backend : Backend V R} {now : Int} {call : Call V}

/-- The store takes this result. -/
def Backend.Records (backend : Backend V R) (result : Option V) : Prop :=
  ∀ s now m, ∃ s', backend.store.markCompleted s now m result = .ok s'

/-- A call of the store with nothing to make it raise. -/
def Call.Takes (backend : Backend V R) (now : Int) : Call V → Prop
  | .claim _ => backend.TakesLease now ∧ backend.TakesTtl now
  | .markCompleted _ result => backend.Records result
  | _ => True

theorem Backend.perform_returns (s : backend.State) (result : Option V)
    (h : call.Takes backend now) : ∃ r, backend.perform s now result call = .ok r := by
  cases call with
  | claim m => exact backend.claim_returns h.1 (.inl h.2)
  | markCompleted m value =>
    obtain ⟨s', hs⟩ := h s now m
    exact ⟨(s', ()), by simp only [perform, hs]; rfl⟩
  | markFailed m error attempts =>
    obtain ⟨s', hs⟩ : ∃ s', backend.store.markFailed s now m error attempts = .ok s' := by
      cases backend with
      | inMemory config => exact ⟨_, rfl⟩
      | redis config codec => exact Redis.markFailed_returns m error attempts
    exact ⟨(s', ()), by simp only [perform, hs]; rfl⟩
  | handle _ | getStatus _ | sleep _ | sendAndWait _ _ _ | commit => exact ⟨_, rfl⟩

theorem Pc.takes {py : Python} {self : DedupConsumer} {record : ConsumerRecord} {p : Pc V}
    (hlease : backend.TakesLease now) (httl : backend.TakesTtl now)
    (hresult : ∀ result, (Next.pc p).result = some result → backend.Records result) :
    (self.callOf py record p).Takes backend now := by
  cases p with
  | claim m => exact ⟨hlease, httl⟩
  | getStatus m | commitSkipped m => trivial
  | executing id payload pc =>
    cases pc with
    | markCompleted result => exact hresult result rfl
    | reclaim attempts exc => exact ⟨hlease, httl⟩
    | _ => trivial

end

def Outcome.ofHandle : Except Exc (Option V) → Outcome V
  | .ok result => .done result
  | .error exc => .raised exc true

/-- A `handle()` that ends as its attempt does, or another call that returns. -/
def Call.EndsInTurn (backend : Backend V R) (outcomes : Nat → Except Exc (Option V))
    (attempt : Nat) (s : backend.State) (now : Int) (call : Call V) (outcome : Outcome V) : Prop :=
  if call.isHandle then outcome = .ofHandle (outcomes attempt)
  else ∃ reply, (backend.answer s now call outcome).2 = .ok reply

theorem Backend.endsInTurn {backend : Backend V R} {outcomes : Nat → Except Exc (Option V)}
    {s : backend.State} {now : Int} {call : Call V} {outcome : Outcome V} {m : MessageId}
    {x : Progress} (hkey : call.key = some m.val ∨ call.key = none)
    (hrecord : backend.store.cell s now m = x.record)
    (h : call.EndsInTurn backend outcomes x.handles s now outcome) :
    call.Fits ⟨fun _ => 0, fun _ => outcomes x.handles⟩ backend.config now (fun _ => x.record)
        (backend.answer s now call outcome).2 ∧
      backend.store.cell (backend.answer s now call outcome).1 now m =
        (x.after backend now call).record := by
  have hanswered := backend.answered s now outcome hkey
  rw [hrecord] at hanswered
  unfold Call.EndsInTurn at h
  cases hhandle : call.isHandle with
  | true =>
    rw [if_pos hhandle] at h
    subst h
    cases call with
    | handle payload =>
      refine ⟨⟨0, ?_⟩, hanswered.self.elim id id⟩
      change (backend.answer s now (.handle payload) _).2 = outcomes x.handles
      cases outcomes x.handles <;> rfl
    | _ => cases hhandle
  | false =>
    rw [if_neg (by simp [hhandle])] at h
    obtain ⟨reply, hreply⟩ := h
    refine ⟨?_, (hanswered.ok reply hreply).2⟩
    rw [hreply] at hanswered ⊢
    -- A claim and a status are answered from the record; nothing is read in the other replies.
    cases call with
    | claim key =>
      have htells := hanswered.tells
      exact congrArg Except.ok (Bool.eq_iff_iff.mpr (htells.trans decide_eq_true_iff.symm))
    | getStatus key =>
      obtain rfl : key = m.val := by simpa [Call.key] using hkey
      refine ⟨reply, rfl, ?_⟩
      rw [← hrecord, Backend.answer_status hreply]
      rfl
    | handle payload => cases hhandle
    | _ => exact ⟨reply, rfl⟩

theorem Call.Fits.returned {env : Surroundings V} {config : DeduplicationConfig} {now : Int}
    {record : String → Option Cell} {call : Call V} {reply : Except Exc call.Reply}
    {result : Option V} (h : call.Fits env config now record reply)
    (hreturned : call.returned reply = some result) : ∃ n, env.handle n = .ok result := by
  cases call with
  | handle payload =>
    obtain ⟨n, rfl⟩ := h
    refine ⟨n, ?_⟩
    cases hr : env.handle n with
    | error exc =>
      rw [hr] at hreturned
      cases hreturned
    | ok value =>
      rw [hr] at hreturned
      cases hreturned
      rfl
  | _ => cases hreturned

/-! ## How much is left of a delivery -/

/-- So many steps are left at most, the start of `handle()` counted. -/
def LoopPc.rank (maxRetries : Int) (entered : Bool) :
    {id : Option MessageId} → LoopPc V id → Nat
  | _, .handle attempts => 5 * (maxRetries - attempts).toNat + if entered then 6 else 7
  | _, @LoopPc.markFailed _ _ attempts _ => 5 * (maxRetries - attempts).toNat + 5
  | _, .sleep attempts _ => 5 * (maxRetries - attempts).toNat + 4
  | _, @LoopPc.reclaim _ _ attempts _ => 5 * (maxRetries - attempts).toNat + 3
  | _, @LoopPc.markCompleted _ _ _ => 2
  | _, .commitCompleted => 1
  | _, .sendToDlq _ _ => 2
  | _, .commitDlq => 1

def Pc.rank (maxRetries : Int) (entered : Bool) : Pc V → Nat
  | .claim _ => 5 * maxRetries.toNat + 3
  | .getStatus _ => 2
  | .commitSkipped _ => 1
  | .executing _ _ pc => pc.rank maxRetries entered

def Next.rank (maxRetries : Int) : Next V → Nat
  | .pc p => p.rank maxRetries false
  | _ => 0

theorem Pc.rank_enter {maxRetries : Int} {pc : Pc V} (h : pc.atHandle = true) :
    pc.rank maxRetries true + 1 = pc.rank maxRetries false := by
  cases pc with
  | executing id payload pc =>
    cases pc with
    | handle attempts => rfl
    | _ => cases h
  | _ => cases h

theorem Pc.rank_of_ne {maxRetries : Int} {pc : Pc V} (h : pc.atHandle = false) (entered : Bool) :
    pc.rank maxRetries entered = pc.rank maxRetries true := by
  cases pc with
  | executing id payload pc =>
    cases pc with
    | handle attempts => cases h
    | _ => rfl
  | _ => rfl

namespace DedupConsumer

variable {py : Python} {self : DedupConsumer} {record : ConsumerRecord}

section

variable {id : Option MessageId} {payload : Payload} {attempts : Int}

theorem toExhausted_rank (lastExc : Option Exc) :
    (toExhausted (V := V) self record id payload lastExc).2.rank self.config.maxRetries ≤ 2 := by
  unfold toExhausted
  cases self.dlq with
  | none => exact Nat.le_succ 1
  | some topic => exact le_rfl

theorem toAttempt_rank (lastExc : Option Exc) :
    (toAttempt (V := V) self record id payload attempts lastExc).2.rank self.config.maxRetries ≤
      5 * (self.config.maxRetries - attempts + 1).toNat + 2 := by
  unfold toAttempt
  split
  · change 5 * (self.config.maxRetries - attempts).toNat + 7 ≤ _
    omega
  · exact (toExhausted_rank lastExc).trans (Nat.le_add_left _ _)

theorem toBackoff_rank (exc : Exc) :
    (toBackoff (V := V) self record id payload attempts exc).2.rank self.config.maxRetries ≤
      5 * (self.config.maxRetries - attempts).toNat + 4 := by
  unfold toBackoff
  split
  · exact le_rfl
  · refine (toAttempt_rank (some exc)).trans ?_
    omega

theorem toExecute_rank :
    (toExecute (V := V) py self record id).2.rank self.config.maxRetries ≤
      5 * self.config.maxRetries.toNat + 2 := by
  unfold toExecute
  split
  · refine (toAttempt_rank none).trans ?_
    rw [sub_add_cancel]
  · exact Nat.zero_le _

theorem afterHandle_rank (r : Except Exc (Option V)) :
    (afterHandle self record id payload attempts r).2.rank self.config.maxRetries ≤
      5 * (self.config.maxRetries - attempts).toNat + 5 := by
  rcases r with e | result
  · simp only [afterHandle]
    split
    · cases id with
      | none => exact (toBackoff_rank e).trans (Nat.le_succ _)
      | some m => exact le_rfl
    · exact Nat.zero_le _
  · cases id with
    | none => exact le_add_left (by decide : 1 ≤ 5)
    | some m => exact le_add_left (by decide : 2 ≤ 5)

theorem afterReclaim_rank (exc : Exc) (claimed : Bool) :
    (afterReclaim (V := V) self record id payload attempts exc claimed).2.rank
        self.config.maxRetries ≤ 5 * (self.config.maxRetries - attempts).toNat + 2 := by
  cases claimed with
  | false => exact (toExhausted_rank (some exc)).trans (Nat.le_add_left _ _)
  | true =>
    refine (toAttempt_rank (some exc)).trans ?_
    omega

end

theorem resume_rank (p : Pc V) (r : Except Exc (callOf py self record p).Reply) :
    (resume py self record p r).2.rank self.config.maxRetries <
      p.rank self.config.maxRetries true := by
  cases p with
  | claim m =>
    -- A refused claim still asks the status and commits; a won one enters the loop.
    rcases r with e | claimed
    · exact Nat.succ_pos _
    · cases claimed with
      | false => exact Nat.lt_add_left _ (by decide : 2 < 3)
      | true => exact Nat.lt_succ_of_le toExecute_rank
  | getStatus m | commitSkipped m =>
    rcases r with e | x
    · exact Nat.succ_pos _
    · exact Nat.lt_succ_self _
  | executing id payload pc =>
    cases pc with
    | handle attempts => exact Nat.lt_succ_of_le (afterHandle_rank r)
    | markFailed attempts exc =>
      rcases r with e | x
      · exact Nat.succ_pos _
      · exact Nat.lt_succ_of_le (toBackoff_rank exc)
    | sleep attempts exc =>
      -- Only a record with an id is claimed again after the sleep.
      rcases r with e | x
      · exact Nat.succ_pos _
      · cases id with
        | none => exact Nat.lt_succ_of_le ((afterReclaim_rank exc true).trans (Nat.le_succ _))
        | some m => exact Nat.lt_succ_self _
    | reclaim attempts exc =>
      rcases r with e | claimed
      · exact Nat.succ_pos _
      · exact Nat.lt_succ_of_le (afterReclaim_rank exc claimed)
    | markCompleted result =>
      -- An Exception of `mark_completed` is swallowed and the commit comes next.
      rcases r with e | x
      · simp only [resume, resumeLoop, afterMark]
        split
        · exact Nat.lt_succ_self _
        · exact Nat.succ_pos _
      · exact Nat.lt_succ_self _
    | commitCompleted | commitDlq | sendToDlq topic lastExc =>
      rcases r with e | x
      · exact Nat.succ_pos _
      · exact Nat.lt_succ_self _

end DedupConsumer

/-! ## In the group -/

namespace State

variable {backend : Backend V R}

/-- The `handle()` calls of a delivery. -/
def entered (s : State backend) (n : Nat) : Nat :=
  s.trace.countP fun e => e.delivery = n ∧ e.event = .entered

end State

/-- Only `c` acts, in the delivery at hand: no time passes that the record of `m` does not outlive,
`handle()` ends as its attempt does, and no other call raises. -/
inductive Group.Alone (g : Group V R) (m : MessageId) (c : ConsumerId)
    (outcomes : Nat → Except Exc (Option V)) (s : State g.backend) : Action V → Prop
  | tick (d : Nat) (h : g.backend.store.cell s.store (s.now + d) m =
      g.backend.store.cell s.store s.now m) : Alone g m c outcomes s (.tick d)
  | enter : Alone g m c outcomes s (.enter c)
  | act {d : Delivery V} {outcome : Outcome V} (hc : s.consumer c = .busy d)
      (h : ((g.consumers c).callOf g.py (g.log d.partition d.offset) d.pc).EndsInTurn g.backend
        outcomes (s.entered d.number - 1) s.store s.now outcome) :
      Alone g m c outcomes s (.act c outcome)

/-- What a consumer does itself. -/
def Action.work : Action V → List (Action V)
  | .tick _ => []
  | a => [a]

def Local.ofNext (delivery : Pc V → Delivery V) : Next V → Local V
  | .pc p => .busy (delivery p)
  | .done => .idle
  | .raised _ => .stopped

def Local.rank (maxRetries : Int) : Local V → Nat
  | .busy d => d.pc.rank maxRetries d.entered
  | _ => 0

theorem Local.rank_ofNext {maxRetries : Int} {delivery : Pc V → Delivery V}
    (h : ∀ pc, (delivery pc).pc = pc ∧ (delivery pc).entered = false) (next : Next V) :
    (Local.ofNext delivery next).rank maxRetries = next.rank maxRetries := by
  cases next with
  | pc pc =>
    obtain ⟨hpc, hentered⟩ := h pc
    simp only [ofNext, rank, Next.rank, hpc, hentered]
  | done | raised exc => rfl

def Next.atHandle : Next V → Bool
  | .pc p => p.atHandle
  | _ => false

namespace State

variable {backend : Backend V R}

theorem entered_log (s : State backend) (id : Option MessageId) (n : Nat) (events : List Event) :
    (s.log id n events).entered n = events.count .entered + s.entered n := by
  unfold entered log
  rw [List.countP_append, List.countP_map, List.count]
  congr 1
  apply List.countP_congr
  intro e _
  simp

theorem land_consumer (s : State backend) (c : ConsumerId) (delivery : Pc V → Delivery V)
    (next : Next V) : (s.land c delivery next).consumer c = .ofNext delivery next := by
  cases next <;> exact Function.update_self _ _ _

@[simp] theorem land_now (s : State backend) (c : ConsumerId) (delivery : Pc V → Delivery V)
    (next : Next V) : (s.land c delivery next).now = s.now := by
  cases next <;> rfl

@[simp] theorem land_store (s : State backend) (c : ConsumerId) (delivery : Pc V → Delivery V)
    (next : Next V) : (s.land c delivery next).store = s.store := by
  cases next <;> rfl

@[simp] theorem land_position (s : State backend) (c : ConsumerId) (delivery : Pc V → Delivery V)
    (next : Next V) : (s.land c delivery next).position = s.position := by
  cases next <;> rfl

@[simp] theorem land_trace (s : State backend) (c : ConsumerId) (delivery : Pc V → Delivery V)
    (next : Next V) : (s.land c delivery next).trace = s.trace := by
  cases next <;> rfl

theorem land_assigned (s : State backend) (c : ConsumerId) (delivery : Pc V → Delivery V)
    {next : Next V} (h : ∀ exc, next ≠ .raised exc) :
    (s.land c delivery next).assigned = s.assigned := by
  cases next with
  | pc pc | done => rfl
  | raised exc => exact absurd rfl (h exc)

end State

theorem not_entered_deadLetter (metrics : List Metric) : .entered ∉ deadLetterEvents metrics := by
  unfold deadLetterEvents
  split <;> simp

theorem Pc.atHandle_eq (py : Python) (self : DedupConsumer) (record : ConsumerRecord) (p : Pc V) :
    (self.callOf py record p).isHandle = p.atHandle := by
  cases p with
  | executing id payload pc => cases pc <;> rfl
  | _ => rfl

namespace Group

variable {g : Group V R} {m : MessageId} {c : ConsumerId} {s s' : State g.backend}

/-! ### One step -/

section

variable (s) (d : Delivery V) (outcome : Outcome V)

theorem acted_now : (g.acted s c d outcome).now = s.now := by
  unfold acted
  rw [State.land_now]
  split <;> rfl

theorem acted_store : (g.acted s c d outcome).store =
    (g.backend.answer s.store s.now
      ((g.consumers c).callOf g.py (g.log d.partition d.offset) d.pc) outcome).1 := by
  unfold acted
  rw [State.land_store]
  split <;> rfl

theorem acted_position : (g.acted s c d outcome).position = s.position := by
  unfold acted
  rw [State.land_position]
  split <;> rfl

theorem acted_entered : (g.acted s c d outcome).entered d.number = s.entered d.number := by
  have hnone : ∀ metrics (call : Call V) (reply : Except Exc call.Reply),
      (deadLetterEvents metrics ++ call.events (g.backend.leaseUntil s.now) outcome.applied
        reply).count .entered = 0 := by
    intro metrics call reply
    rw [List.count_eq_zero, List.mem_append, not_or]
    exact ⟨not_entered_deadLetter metrics, call.not_entered _ _ reply⟩
  unfold acted State.entered
  rw [State.land_trace]
  split
  · refine (State.entered_log _ _ _ _).trans ?_
    rw [hnone, Nat.zero_add]
    rfl
  · refine (State.entered_log _ _ _ _).trans ?_
    rw [hnone, Nat.zero_add]
    rfl

theorem acted_consumer : (g.acted s c d outcome).consumer c = .ofNext
    (fun pc => { d with
      pc := pc
      entered := false
      leaseUntil :=
        if Call.won _ (g.backend.answer s.store s.now
          ((g.consumers c).callOf g.py (g.log d.partition d.offset) d.pc) outcome).2 then
          g.backend.leaseUntil s.now
        else d.leaseUntil })
    ((g.consumers c).resume g.py (g.log d.partition d.offset) d.pc
      (g.backend.answer s.store s.now _ outcome).2).2 := by
  unfold acted
  rw [State.land_consumer]

theorem acted_assigned (h : ∀ exc, ((g.consumers c).resume g.py (g.log d.partition d.offset) d.pc
      (g.backend.answer s.store s.now _ outcome).2).2 ≠ .raised exc) :
    (g.acted s c d outcome).assigned = s.assigned := by
  unfold acted
  rw [State.land_assigned _ _ _ h]
  split <;> rfl

end

theorem rank_lt {outcomes : Nat → Except Exc (Option V)} {a : Action V}
    (halone : g.Alone m c outcomes s a) (hexec : g.exec s a = some s') :
    (s'.consumer c).rank (g.consumers c).config.maxRetries + a.work.length ≤
      (s.consumer c).rank (g.consumers c).config.maxRetries := by
  cases halone with
  | tick d h =>
    obtain rfl := Option.some.inj hexec
    exact le_rfl
  | enter =>
    -- Entering `handle()` is a step of its own, for which `Pc.rank` keeps room.
    cases hc : s.consumer c with
    | idle | stopped => simp [exec, enter, hc] at hexec
    | busy d =>
      simp only [exec, enter, hc] at hexec
      split at hexec
      · rename_i hstarts
        obtain ⟨hhandle, hentered⟩ := hstarts
        obtain rfl := Option.some.inj hexec
        rw [show (State.setConsumer _ c _).consumer c = .busy { d with entered := true } from
          Function.update_self _ _ _]
        simp only [Local.rank, hentered]
        exact (Pc.rank_enter hhandle).le
      · cases hexec
  | @act d outcome hc _ =>
    simp only [exec, act, hc] at hexec
    split at hexec
    · cases hexec
    · rename_i hstarted
      obtain rfl := Option.some.inj hexec
      have hd : d.pc.rank (g.consumers c).config.maxRetries d.entered =
          d.pc.rank (g.consumers c).config.maxRetries true := by
        cases hhandle : d.pc.atHandle with
        | true =>
          have hentered : d.entered = true := by simpa [hhandle] using hstarted
          rw [hentered]
        | false => exact Pc.rank_of_ne hhandle _
      rw [acted_consumer, Local.rank_ofNext fun _ => ⟨rfl, rfl⟩, hc]
      simp only [Local.rank, hd]
      exact DedupConsumer.resume_rank _ _

/-! ### The state of a delivery -/

/-- `c` has come to `next` in its delivery `n`, on the record at `o` of partition `p`. -/
structure Standing (g : Group V R) (m : MessageId) (c : ConsumerId) (n p o : Nat)
    (s : State g.backend) (next : Next V) (x : Progress) : Prop where
  stands : ∃ started lease, s.consumer c = .ofNext (fun pc => ⟨n, p, o, pc, started, lease⟩) next ∧
    (started = true → next.atHandle = true) ∧
    s.entered n = x.handles + if started then 1 else 0
  shows : g.backend.store.cell s.store s.now m = x.record
  owned : (∀ exc, next ≠ .raised exc) → s.assigned p = some c
  position : s.position p = o + 1
  records : ∀ result, next.result = some result → g.backend.Records result

namespace Standing

variable {n p o : Nat} {next : Next V} {pc : Pc V} {x : Progress}
  {outcomes : Nat → Except Exc (Option V)}

theorem tick (h : g.Standing m c n p o s next x) (d : Nat)
    (hsame : g.backend.store.cell s.store (s.now + d) m =
      g.backend.store.cell s.store s.now m) :
    g.Standing m c n p o { s with now := s.now + d } next x where
  stands := h.stands
  shows := hsame.trans h.shows
  owned := h.owned
  position := h.position
  records := h.records

theorem enter (h : g.Standing m c n p o s next x) (hexec : g.enter s c = some s') :
    next.atHandle = true ∧ g.Standing m c n p o s' next x := by
  obtain ⟨started, lease, hc, -, hentered⟩ := h.stands
  cases next with
  | done | raised exc => simp [Group.enter, hc, Local.ofNext] at hexec
  | pc pc =>
    simp only [Group.enter, hc, Local.ofNext] at hexec
    split at hexec
    · rename_i hstarts
      obtain ⟨hhandle, rfl⟩ := hstarts
      obtain rfl := Option.some.inj hexec
      refine ⟨hhandle, ⟨true, lease, Function.update_self _ _ _, fun _ => hhandle, ?_⟩, h.shows,
        h.owned, h.position, h.records⟩
      refine (State.entered_log s pc.messageId n [.entered]).trans ?_
      rw [hentered]
      exact Nat.add_comm 1 x.handles
    · cases hexec

/-- The outcome is numbered by the `handle()` calls that were entered. -/
theorem endsInTurn {started : Bool} {lease : Int} {k : Nat} {outcome : Outcome V}
    (hc : s.consumer c = .busy ⟨n, p, o, pc, started, lease⟩)
    (hentered : s.entered n = k + if started then 1 else 0)
    (hstart : started = ((g.consumers c).callOf g.py (g.log p o) pc).isHandle)
    (halone : g.Alone m c outcomes s (.act c outcome)) :
    ((g.consumers c).callOf g.py (g.log p o) pc).EndsInTurn g.backend outcomes k s.store s.now
      outcome := by
  cases halone with
  | @act d _ hd hends =>
    rw [hc] at hd
    cases hd
    have hends : ((g.consumers c).callOf g.py (g.log p o) pc).EndsInTurn g.backend outcomes
        (s.entered n - 1) s.store s.now outcome := hends
    unfold Call.EndsInTurn at hends ⊢
    split
    · rename_i hcalls
      rw [if_pos hcalls, hentered, hstart, if_pos hcalls, Nat.add_sub_cancel] at hends
      exact hends
    · rename_i hcalls
      rwa [if_neg hcalls] at hends

theorem acted (h : g.Standing m c n p o s (.pc pc) x)
    (hrecords : ∀ n result, outcomes n = .ok result → g.backend.Records result)
    (hkey : ((g.consumers c).callOf g.py (g.log p o) pc).key = some m.val ∨
      ((g.consumers c).callOf g.py (g.log p o) pc).key = none) {outcome : Outcome V}
    (halone : g.Alone m c outcomes s (.act c outcome)) (hexec : g.act s c outcome = some s') :
    let call := (g.consumers c).callOf g.py (g.log p o) pc
    ∃ reply : Except Exc call.Reply,
      call.Fits ⟨fun _ => 0, fun _ => outcomes x.handles⟩ g.backend.config s.now
        (fun _ => x.record) reply ∧
      g.Standing m c n p o s' ((g.consumers c).resume g.py (g.log p o) pc reply).2
        (x.after g.backend s.now call) := by
  intro call
  obtain ⟨started, lease, hc, hhandle, hentered⟩ := h.stands
  have hcall : call.isHandle = pc.atHandle := pc.atHandle_eq _ _ _
  simp only [Group.act, hc, Local.ofNext] at hexec
  split at hexec
  · cases hexec
  · rename_i hstarted
    obtain rfl := Option.some.inj hexec
    have hstart : started = call.isHandle := by
      rw [hcall]
      cases started with
      | true => exact (hhandle rfl).symm
      | false => simpa using hstarted
    have hends : call.EndsInTurn g.backend outcomes x.handles s.store s.now outcome :=
      endsInTurn hc hentered hstart halone
    obtain ⟨hfits, hcell⟩ := g.backend.endsInTurn hkey h.shows hends
    refine ⟨_, hfits, ⟨false, _, acted_consumer s _ outcome,
      fun h => absurd h Bool.false_ne_true, ?_⟩, ?_, ?_, ?_, ?_⟩
    · refine (acted_entered s ⟨n, p, o, pc, started, lease⟩ outcome).trans ?_
      rw [hentered, hstart]
      rfl
    · rw [acted_store, acted_now]
      exact hcell
    · intro hraised
      rw [acted_assigned s ⟨n, p, o, pc, started, lease⟩ outcome hraised]
      exact h.owned fun _ hpc => by cases hpc
    · rw [acted_position]
      exact h.position
    · intro result hresult
      have hreturned := DedupConsumer.resume_result hresult
      obtain ⟨_, hout⟩ := hfits.returned hreturned
      exact hrecords _ _ hout

theorem due (h : g.Standing m c n p o s (.pc pc) x) (hlease : g.backend.TakesLease s.now)
    (httl : g.backend.TakesTtl s.now) :
    ∃ a s', a.work = [a] ∧ g.Alone m c outcomes s a ∧ g.exec s a = some s' := by
  obtain ⟨started, lease, hc, hhandle, hentered⟩ := h.stands
  have hcall := pc.atHandle_eq g.py (g.consumers c) (g.log p o)
  cases hpc : pc.atHandle with
  | true =>
    rw [hpc] at hcall
    cases started with
    | false =>
      obtain ⟨s', hexec⟩ : ∃ s', g.exec s (.enter c) = some s' := by
        simp [exec, Group.enter, hc, Local.ofNext, hpc]
      exact ⟨.enter c, s', rfl, .enter, hexec⟩
    | true =>
      obtain ⟨s', hexec⟩ : ∃ s', g.exec s (.act c (.ofHandle (outcomes x.handles))) = some s' := by
        simp [exec, Group.act, hc, Local.ofNext]
      refine ⟨_, s', rfl, .act hc ?_, hexec⟩
      unfold Call.EndsInTurn
      rw [if_pos hcall, hentered]
      rfl
  | false =>
    rw [hpc] at hcall
    obtain ⟨s', hexec⟩ : ∃ s', g.exec s (.act c (.done none)) = some s' := by
      simp [exec, Group.act, hc, Local.ofNext, hpc]
    refine ⟨_, s', rfl, .act hc ?_, hexec⟩
    unfold Call.EndsInTurn
    rw [if_neg (by simp [hcall])]
    have htakes : ((g.consumers c).callOf g.py (g.log p o) pc).Takes g.backend s.now :=
      Pc.takes hlease httl h.records
    obtain ⟨⟨s', reply⟩, hr⟩ := g.backend.perform_returns s.store none htakes
    exact ⟨reply, by simp only [Backend.answer, hr]⟩

end Standing

/-! ### The course of a delivery -/

section

variable {n p o : Nat} {payload : Payload} {outcomes : Nat → Except Exc (Option V)} {since : Int}
  {met : Option Cell} {x : Progress}

/-- What a delivery has made of a record that was `met`, when it ends. -/
structure Settled (g : Group V R) (c : ConsumerId) (outcomes : Nat → Except Exc (Option V))
    (since : Int) (met : Option Cell) (x : Progress) : Prop where
  won : Cell.Claimable g.backend.config since met →
    ∃ ms, Attempted (g.consumers c) g.backend.config outcomes x ms
  lost : ¬ Cell.Claimable g.backend.config since met → x.record = met ∧ x.handles = 0

/-- A delivery since it took its record: its claim is still to come, or the rest of it settles the
record. -/
inductive Course (g : Group V R) (m : MessageId) (c : ConsumerId) (n p o : Nat)
    (outcomes : Nat → Except Exc (Option V)) (since : Int) (met : Option Cell)
    (s : State g.backend) : Prop
  | claims (h : g.Standing m c n p o s (.pc (.claim m)) ⟨met, 0, 0⟩) (hsince : since ≤ s.now) :
      Course g m c n p o outcomes since met s
  | works {next : Next V} {x : Progress} (h : g.Standing m c n p o s next x)
      (hrest : DoesInTurn g.backend m outcomes
        (DedupConsumer.restOf g.py (g.consumers c) (g.log p o) next)
        (fun x' _ r => r = .ok () ∧ g.Settled c outcomes since met x') x) :
      Course g m c n p o outcomes since met s

open DedupConsumer in
theorem Course.of_goTo {next : List Metric × Next V}
    (h : g.Standing m c n p o s next.2 x)
    (hrest : DoesInTurn g.backend m outcomes
      (goTo g.py (g.consumers c) (g.log p o) next : Program V Unit)
      (fun x' _ r => r = .ok () ∧ g.Settled c outcomes since met x') x) :
    g.Course m c n p o outcomes since met s :=
  .works h hrest.of_emits

open DedupConsumer in
theorem Course.claim (hmax : 1 ≤ (g.consumers c).config.maxRetries)
    (hdec : decodePayload g.py (g.log p o) = .ok payload)
    (hexc : ∀ n exc, outcomes n = .error exc → exc.isException = true)
    (hmet : ∀ t, since ≤ t → (Cell.Claimable g.backend.config t met ↔
      Cell.Claimable g.backend.config since met)) {t : Int} (hsince : since ≤ t) :
    DoesInTurn g.backend m outcomes
      (goTo g.py (g.consumers c) (g.log p o) (resume g.py (g.consumers c) (g.log p o)
        (.claim m) (.ok (decide (Cell.Claimable g.backend.config t met)))) : Program V Unit)
      (fun x' _ r => r = .ok () ∧ g.Settled c outcomes since met x')
      (Progress.after g.backend t ⟨met, 0, 0⟩ (.claim m.val : Call V)) := by
  by_cases hclaim : Cell.Claimable g.backend.config t met
  · have hwon := (hmet t hsince).mp hclaim
    rw [decide_eq_true hclaim]
    change DoesInTurn g.backend m outcomes (goTo g.py (g.consumers c) (g.log p o)
      (toExecute g.py (g.consumers c) (g.log p o) (some m)) : Program V Unit) _ _
    rw [goTo_execute]
    have hworking : (Progress.after g.backend t ⟨met, 0, 0⟩ (.claim m.val : Call V)).UnderWork :=
      ⟨_, if_pos hclaim, rfl⟩
    apply (executeAndCommit_inTurn hexc hmax hdec hworking rfl rfl).mono
    rintro x' ms r ⟨rfl, hattempted⟩
    exact ⟨rfl, fun _ => ⟨ms, hattempted⟩, fun hlost => absurd hwon hlost⟩
  · have hlost : ¬ Cell.Claimable g.backend.config since met := by rwa [← hmet t hsince]
    rw [decide_eq_false hclaim]
    apply skip_inTurn.mono
    rintro x' ms r ⟨rfl, rfl⟩
    exact ⟨rfl, fun hwon => absurd hwon hlost, fun _ => ⟨if_neg hclaim, rfl⟩⟩

open DedupConsumer in
theorem Course.step (h : g.Course m c n p o outcomes since met s)
    (hmax : 1 ≤ (g.consumers c).config.maxRetries)
    (hdec : decodePayload g.py (g.log p o) = .ok payload)
    (hexc : ∀ n exc, outcomes n = .error exc → exc.isException = true)
    (hrecords : ∀ n result, outcomes n = .ok result → g.backend.Records result)
    (hmet : ∀ t, since ≤ t → (Cell.Claimable g.backend.config t met ↔
      Cell.Claimable g.backend.config since met)) {a : Action V}
    (halone : g.Alone m c outcomes s a) (hexec : g.exec s a = some s') :
    g.Course m c n p o outcomes since met s' := by
  cases ha : a with
  | tick d =>
    subst ha
    obtain rfl := Option.some.inj hexec
    cases halone with
    | tick d hsame =>
      cases h with
      | claims h hsince => exact .claims (h.tick d hsame) (by simp; omega)
      | works h hrest => exact .works (h.tick d hsame) hrest
  | enter c' =>
    -- `handle()` is entered only past the claim.
    subst ha
    cases halone
    cases h with
    | claims h hsince => exact absurd (h.enter hexec).1 nofun
    | works h hrest => exact .works (h.enter hexec).2 hrest
  | act c' outcome =>
    subst ha
    obtain rfl : c' = c := by
      cases halone
      rfl
    cases h with
    | claims h hsince =>
      -- The claim is answered by the record that was met, however late it comes.
      obtain ⟨reply, hfits, h'⟩ := h.acted hrecords (.inl rfl) halone hexec
      obtain rfl : reply = _ := hfits
      exact .of_goTo h' (Course.claim hmax hdec hexc hmet hsince)
    | @works next x h hrest =>
      cases next with
      | done | raised exc =>
        obtain ⟨started, lease, hc, -⟩ := h.stands
        simp [exec, act, hc, Local.ofNext] at hexec
      | pc pc =>
        rw [restOf, rest_eq] at hrest
        obtain ⟨hkey, hrest⟩ := hrest
        obtain ⟨reply, hfits, h'⟩ := h.acted hrecords hkey halone hexec
        exact .of_goTo h' (hrest reply _ ⟨s.now, hfits, rfl⟩)
  | _ =>
    -- Nobody else acts, and no partition is assigned or polled.
    subst ha
    cases halone

theorem course_of_run {s₁ : State g.backend} {history : List (Action V)}
    (h : g.Course m c n p o outcomes since met s₁)
    (hmax : 1 ≤ (g.consumers c).config.maxRetries)
    (hdec : decodePayload g.py (g.log p o) = .ok payload)
    (hexc : ∀ n exc, outcomes n = .error exc → exc.isException = true)
    (hrecords : ∀ n result, outcomes n = .ok result → g.backend.Records result)
    (hmet : ∀ t, since ≤ t → (Cell.Claimable g.backend.config t met ↔
      Cell.Claimable g.backend.config since met))
    (hrun : Reach ((((g.system m).startingAt s₁).guard (g.Alone m c outcomes)).recording
      fun _ a => a.work) (s, history)) :
    g.Course m c n p o outcomes since met s ∧
      history.length + (s.consumer c).rank (g.consumers c).config.maxRetries ≤
        (s₁.consumer c).rank (g.consumers c).config.maxRetries := by
  refine hrun.invariant (fun x => g.Course m c n p o outcomes since met x.1 ∧
    x.2.length + (x.1.consumer c).rank (g.consumers c).config.maxRetries ≤
      (s₁.consumer c).rank (g.consumers c).config.maxRetries) ?_ ?_
  · rintro ⟨s, history⟩ ⟨rfl, rfl⟩
    exact ⟨h, (Nat.zero_add _).le⟩
  · rintro ⟨s, history⟩ a ⟨s', history'⟩ - ⟨hcourse, hlength⟩ ⟨⟨halone, hexec⟩, hhistory⟩
    refine ⟨hcourse.step hmax hdec hexc hrecords hmet halone hexec, ?_⟩
    have hrank : (s'.consumer c).rank (g.consumers c).config.maxRetries + a.work.length ≤
        (s.consumer c).rank (g.consumers c).config.maxRetries := rank_lt halone hexec
    obtain rfl : history' = a.work ++ history := hhistory
    rw [List.length_append]
    simp only at hlength ⊢
    omega

end

end Group

end MessageDedup
