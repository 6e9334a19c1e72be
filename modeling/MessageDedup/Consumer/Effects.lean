import MessageDedup.Consumer.Machine

/-!
# The order of the effects of one delivery

`_process_record` against a world that answers each call as it likes, with an exception or without.
-/

namespace MessageDedup

open Coroutine (Proc)

variable {V : Type}

/-- A call that was made, and how it ended. -/
structure Made (V : Type) where
  call : Call V
  reply : Except Exc call.Reply

/-- The answers of the world, from the calls so far and the new call. -/
abbrev Oracle (V : Type) := List (Made V) → (call : Call V) → Except Exc call.Reply

/-! ## The statement -/

/-- The last `handle()` in `t`, if there is one, was followed by a `mark_failed` that returned. -/
def MarkedSince (m : String) (t : List (Made V)) : Prop :=
  ∀ newer payload reply older, t = newer ++ ⟨.handle payload, reply⟩ :: older →
    (∀ x ∈ newer, x.call.isHandle = false) →
      ∃ error attempts, ⟨.markFailed m error attempts, .ok ()⟩ ∈ newer

/-- Each `handle()` comes right after a claim that it won, made after the `mark_failed` of the
`handle()` before. -/
def ClaimedEach (m : String) (t : List (Made V)) : Prop :=
  ∀ newer payload reply older, t = newer ++ ⟨.handle payload, reply⟩ :: older →
    ∃ earlier, older = ⟨.claim m, .ok true⟩ :: earlier ∧ MarkedSince m earlier

/-- What follows a `handle()` that returned `result`: one `mark_completed`, and at most one
`commit()`. -/
def Settles (m : String) (result : Option V) (newer : List (Made V)) : Prop :=
  ∃ mark, newer = [⟨.markCompleted m result, mark⟩] ∨
    ∃ reply, newer = [⟨.commit, reply⟩, ⟨.markCompleted m result, mark⟩]

/-- The calls of a delivery of `m`, newest first, and its outcome. -/
structure EffectOrder (m : String) (t : List (Made V)) (outcome : Except Exc Unit) : Prop where
  claimed : ClaimedEach m t
  settled : ∀ newer payload result older, t = newer ++ ⟨.handle payload, .ok result⟩ :: older →
    Settles m result newer
  unburied : ∀ newer topic value key reply older,
    t = newer ++ ⟨.sendAndWait topic value key, reply⟩ :: older →
      ∀ payload result, ⟨.handle payload, .ok result⟩ ∉ older
  once : t.countP (·.call.isCommit) ≤ 1
  last : ∀ newer reply older, t = newer ++ ⟨.commit, reply⟩ :: older → newer = []
  returns : outcome = .ok () ↔ ∃ older, t = ⟨.commit, .ok ()⟩ :: older

/-! ## One more call -/

theorem split_cons {A : Type} {x y : A} {t newer older : List A}
    (h : y :: t = newer ++ x :: older) :
    (newer = [] ∧ x = y ∧ older = t) ∨
      ∃ newer', newer = y :: newer' ∧ t = newer' ++ x :: older := by
  rcases List.cons_eq_append_iff.mp h with ⟨rfl, heq⟩ | ⟨newer', rfl, heq⟩
  · obtain ⟨rfl, rfl⟩ := List.cons.inj heq
    exact .inl ⟨rfl, rfl, rfl⟩
  · exact .inr ⟨newer', rfl, heq⟩

section

variable {m : String} {t : List (Made V)}

theorem MarkedSince.nil : MarkedSince m ([] : List (Made V)) := by
  intro newer payload reply older h
  cases newer <;> cases h

theorem MarkedSince.cons (h : MarkedSince m t) {x : Made V} (hx : x.call.isHandle = false) :
    MarkedSince m (x :: t) := by
  intro newer payload reply older hsplit hnone
  rcases split_cons hsplit with ⟨-, rfl, -⟩ | ⟨newer', rfl, ht⟩
  · cases hx
  · obtain ⟨error, attempts, hmem⟩ := h newer' payload reply older ht
      fun y hy => hnone y (List.mem_cons_of_mem _ hy)
    exact ⟨error, attempts, List.mem_cons_of_mem _ hmem⟩

theorem MarkedSince.mark (error : String) (attempts : Int) :
    MarkedSince m (⟨.markFailed m error attempts, .ok ()⟩ :: t) := by
  intro newer payload reply older hsplit hnone
  rcases split_cons hsplit with ⟨-, heq, -⟩ | ⟨newer', rfl, -⟩
  · simp at heq
  · exact ⟨error, attempts, List.mem_cons_self⟩

theorem ClaimedEach.cons (h : ClaimedEach m t) {x : Made V} (hx : x.call.isHandle = false) :
    ClaimedEach m (x :: t) := by
  intro newer payload reply older hsplit
  rcases split_cons hsplit with ⟨-, rfl, -⟩ | ⟨newer', -, ht⟩
  · cases hx
  · exact h newer' payload reply older ht

/-- The last call was a claim that was won, and may be followed by a `handle()`. -/
def Ready (m : String) (t : List (Made V)) : Prop :=
  ∃ earlier, t = ⟨.claim m, .ok true⟩ :: earlier ∧ MarkedSince m earlier

theorem ClaimedEach.handle (h : ClaimedEach m t) (hready : Ready m t) (payload : Payload)
    (reply : Except Exc (Option V)) : ClaimedEach m (⟨.handle payload, reply⟩ :: t) := by
  intro newer payload' reply' older hsplit
  rcases split_cons hsplit with ⟨-, -, rfl⟩ | ⟨newer', -, ht⟩
  · exact hready
  · exact h newer' payload' reply' older ht

end

/-! ## Stages of a delivery -/

/-- No success, no `commit()` and no DLQ send. -/
def Made.Passing : Made V → Prop
  | ⟨.handle _, .ok _⟩ => False
  | ⟨.commit, _⟩ => False
  | ⟨.sendAndWait _ _ _, _⟩ => False
  | _ => True

structure Underway (m : String) (t : List (Made V)) : Prop where
  claimed : ClaimedEach m t
  passing : ∀ x ∈ t, x.Passing

/-- All that is left is to commit, or to raise. -/
structure Closing (m : String) (t : List (Made V)) : Prop where
  claimed : ClaimedEach m t
  settled : ∀ newer payload result older, t = newer ++ ⟨.handle payload, .ok result⟩ :: older →
    ∃ mark, newer = [⟨.markCompleted m result, mark⟩]
  unburied : ∀ newer topic value key reply older,
    t = newer ++ ⟨.sendAndWait topic value key, reply⟩ :: older →
      ∀ payload result, ⟨.handle payload, .ok result⟩ ∉ older
  uncommitted : ∀ reply, ⟨.commit, reply⟩ ∉ t

section

variable {m : String} {t : List (Made V)}

theorem Underway.nil : Underway m ([] : List (Made V)) where
  claimed := by
    intro newer payload reply older h
    cases newer <;> cases h
  passing := by
    intro x hx
    simp at hx

theorem Underway.cons (h : Underway m t) {x : Made V} (hx : x.call.isHandle = false)
    (hpass : x.Passing) : Underway m (x :: t) where
  claimed := h.claimed.cons hx
  passing := List.forall_mem_cons.mpr ⟨hpass, h.passing⟩

theorem Underway.failed (h : Underway m t) (hready : Ready m t) (payload : Payload) (exc : Exc) :
    Underway m (⟨.handle payload, .error exc⟩ :: t) where
  claimed := h.claimed.handle hready payload _
  passing := List.forall_mem_cons.mpr ⟨trivial, h.passing⟩

theorem Underway.no_success (h : Underway m t) (payload : Payload) (result : Option V) :
    ⟨.handle payload, .ok result⟩ ∉ t :=
  fun hmem => h.passing _ hmem

theorem Underway.closing (h : Underway m t) : Closing m t where
  claimed := h.claimed
  settled := by
    rintro newer payload result older rfl
    exact (h.no_success payload result (List.mem_append_right _ List.mem_cons_self)).elim
  unburied := by
    rintro newer topic value key reply older rfl
    exact (h.passing _ (List.mem_append_right _ List.mem_cons_self)).elim
  uncommitted := fun reply hmem => h.passing _ hmem

theorem Underway.sent (h : Underway m t) (topic : String) (value : DlqPayload)
    (key : Option Bytes) (reply : Except Exc Unit) :
    Closing m (⟨.sendAndWait topic value key, reply⟩ :: t) where
  claimed := h.claimed.cons rfl
  settled := by
    intro newer payload result older hsplit
    rcases split_cons hsplit with ⟨-, heq, -⟩ | ⟨newer', -, ht⟩
    · simp at heq
    · obtain ⟨mark, rfl⟩ := h.closing.settled newer' payload result older ht
      exact (h.no_success payload result (ht ▸ List.mem_append_right _ List.mem_cons_self)).elim
  unburied := by
    intro newer topic' value' key' reply' older hsplit payload result hmem
    rcases split_cons hsplit with ⟨-, -, rfl⟩ | ⟨newer', -, rfl⟩
    · exact h.no_success payload result hmem
    · exact h.no_success payload result
        (List.mem_append_right _ (List.mem_cons_of_mem _ hmem))
  uncommitted := by
    intro reply' hmem
    rcases List.mem_cons.mp hmem with heq | hold
    · simp at heq
    · exact h.closing.uncommitted reply' hold

theorem Underway.marked (h : Underway m t) (hready : Ready m t) (payload : Payload)
    (result : Option V) (mark : Except Exc Unit) :
    Closing m (⟨.markCompleted m result, mark⟩ :: ⟨.handle payload, .ok result⟩ :: t) where
  claimed := (h.claimed.handle hready payload _).cons rfl
  settled := by
    intro newer payload' result' older hsplit
    rcases split_cons hsplit with ⟨-, heq, -⟩ | ⟨newer', rfl, hrest⟩
    · simp at heq
    · rcases split_cons hrest with ⟨rfl, heq, -⟩ | ⟨newer'', -, rfl⟩
      · cases heq
        exact ⟨mark, rfl⟩
      · exact (h.no_success payload' result'
          (List.mem_append_right _ List.mem_cons_self)).elim
  unburied := by
    intro newer topic value key reply older hsplit
    rcases split_cons hsplit with ⟨-, heq, -⟩ | ⟨newer', -, hrest⟩
    · simp at heq
    · rcases split_cons hrest with ⟨-, heq, -⟩ | ⟨newer'', -, rfl⟩
      · simp at heq
      · exact (h.passing _ (List.mem_append_right _ List.mem_cons_self)).elim
  uncommitted := by
    intro reply hmem
    rcases List.mem_cons.mp hmem with heq | hmem
    · simp at heq
    · rcases List.mem_cons.mp hmem with heq | hold
      · simp at heq
      · exact h.closing.uncommitted reply hold

/-! ## The two ends -/

theorem Closing.countP_commit (h : Closing m t) : t.countP (·.call.isCommit) = 0 := by
  apply List.countP_eq_zero.mpr
  rintro ⟨call, reply⟩ hmem hcommit
  cases call <;> cases hcommit
  exact h.uncommitted reply hmem

theorem Closing.raised (h : Closing m t) (exc : Exc) : EffectOrder m t (.error exc) where
  claimed := h.claimed
  settled := by
    intro newer payload result older hsplit
    obtain ⟨mark, hnewer⟩ := h.settled newer payload result older hsplit
    exact ⟨mark, .inl hnewer⟩
  unburied := h.unburied
  once := h.countP_commit ▸ Nat.zero_le 1
  last := by
    rintro newer reply older rfl
    exact (h.uncommitted reply (List.mem_append_right _ List.mem_cons_self)).elim
  returns := by
    constructor
    · intro hok
      simp at hok
    · rintro ⟨older, rfl⟩
      exact (h.uncommitted _ List.mem_cons_self).elim

theorem Closing.committed (h : Closing m t) (reply : Except Exc Unit) :
    EffectOrder m (⟨.commit, reply⟩ :: t) reply where
  claimed := h.claimed.cons rfl
  settled := by
    intro newer payload result older hsplit
    rcases split_cons hsplit with ⟨-, heq, -⟩ | ⟨newer', rfl, ht⟩
    · simp at heq
    · obtain ⟨mark, rfl⟩ := h.settled newer' payload result older ht
      exact ⟨mark, .inr ⟨reply, rfl⟩⟩
  unburied := by
    intro newer topic value key reply' older hsplit
    rcases split_cons hsplit with ⟨-, heq, -⟩ | ⟨newer', -, ht⟩
    · simp at heq
    · exact h.unburied newer' topic value key reply' older ht
  once := by
    have hcount := h.countP_commit
    rw [List.countP_cons_of_pos rfl]
    omega
  last := by
    intro newer reply' older hsplit
    rcases split_cons hsplit with ⟨hnil, -, -⟩ | ⟨newer', -, rfl⟩
    · exact hnil
    · exact (h.uncommitted reply' (List.mem_append_right _ List.mem_cons_self)).elim
  returns := by
    constructor
    · rintro rfl
      exact ⟨t, rfl⟩
    · rintro ⟨older, heq⟩
      cases heq
      rfl

end

/-! ## What a program makes of a trace -/

/-- `Q` holds after each run of `p` from the calls `t`. -/
abbrev Makes {A : Type} (p : Program V A) (Q : List (Made V) → Except Exc A → Prop)
    (t : List (Made V)) : Prop :=
  p.Ensures (fun _ _ => True) (fun t call reply t' => t' = ⟨call, reply⟩ :: t)
    (fun t' _ r => Q t' r) t

section

variable {A B : Type} {t : List (Made V)}

theorem Makes.await {call : Call V} {Q : List (Made V) → Except Exc call.Reply → Prop}
    (h : ∀ reply, Q (⟨call, reply⟩ :: t) reply) : Makes (await call) Q t := by
  refine ⟨trivial, ?_⟩
  rintro reply t' rfl
  cases reply with
  | ok a => exact h (.ok a)
  | error exc => exact h (.error exc)

theorem Makes.attempt {p : Program V A} {f : Except Exc A → Program V B}
    {Q₁ : List (Made V) → Except Exc A → Prop} {Q : List (Made V) → Except Exc B → Prop}
    (h : Makes p Q₁ t) (hnext : ∀ t' r, Q₁ t' r → Makes (f r) Q t') : Makes (p.attempt f) Q t := by
  apply Proc.Ensures.attempt
  apply Proc.Ensures.mono h
  intro t' _ r hr
  exact hnext t' r hr

theorem Makes.bind {p : Program V A} {f : A → Program V B}
    {Q₁ : List (Made V) → Except Exc A → Prop} {Q : List (Made V) → Except Exc B → Prop}
    (h : Makes p Q₁ t) (hok : ∀ t' a, Q₁ t' (.ok a) → Makes (f a) Q t')
    (herror : ∀ t' exc, Q₁ t' (.error exc) → Q t' (.error exc)) : Makes (p >>= f) Q t :=
  Proc.Ensures.bind h (fun t' _ a => hok t' a) (fun t' _ exc => herror t' exc)

theorem Makes.record {metric : Metric} {f : Unit → Program V A}
    {Q : List (Made V) → Except Exc A → Prop} (h : Makes (f ()) Q t) :
    Makes (recordMetric metric >>= f) Q t := h

end

/-! ## `_execute_and_commit` -/

namespace DedupConsumer

variable {py : Python} {self : DedupConsumer} {record : ConsumerRecord} {m : MessageId}
  {payload : Payload} {t : List (Made V)}

theorem commit_makes (h : Closing m.val t) :
    Makes (commit : Program V Unit) (EffectOrder m.val) t :=
  Makes.await fun reply => h.committed reply

theorem sendToDlq_makes (h : Underway m.val t) (error : String) :
    Makes (sendToDlq py self record error : Program V Unit) (fun t' _ => Closing m.val t') t := by
  unfold sendToDlq
  split
  · exact h.closing
  · exact Makes.await fun reply => h.sent _ _ _ reply

theorem exhausted_makes (h : Underway m.val t) (lastExc : Option Exc) :
    Makes (exhausted py self record lastExc : Program V Unit) (EffectOrder m.val) t := by
  apply Makes.record
  apply Makes.bind (sendToDlq_makes h _)
  · intro t' _ hclosing
    exact commit_makes hclosing
  · intro t' exc hclosing
    exact hclosing.raised exc

theorem complete_makes (h : Underway m.val t) (hready : Ready m.val t) (result : Option V) :
    Makes (complete record (some m.val) result) (EffectOrder m.val)
      (⟨.handle payload, .ok result⟩ :: t) := by
  unfold complete
  rw [ifMessageId_some]
  have hmark : Makes (await (.markCompleted m.val result)) (fun t' _ => Closing m.val t')
      (⟨.handle payload, .ok result⟩ :: t) :=
    Makes.await fun mark => h.marked hready payload result mark
  apply Makes.bind (Makes.attempt (Q := fun t' _ => Closing m.val t') hmark ?_)
  · intro t' _ hclosing
    apply Makes.bind (commit_makes hclosing)
    · intro t'' _ horder
      exact horder
    · intro t'' exc horder
      exact horder
  · intro t' exc hclosing
    exact hclosing.raised exc
  · intro t' r hclosing
    cases r with
    | ok _ => exact hclosing
    | error exc =>
      dsimp only
      split
      · exact hclosing
      · exact hclosing

/-- After the `except` clause, the loop goes on at a won claim or ends. -/
def Retrying (self : DedupConsumer) (m : String) (attempts : Int) (t : List (Made V)) :
    Except Exc Bool → Prop
  | .error _ => Underway m t
  | .ok again => Underway m t ∧ (again = true → attempts < self.config.maxRetries → Ready m t)

theorem reclaim_makes (h : Underway m.val t) (hmarked : MarkedSince m.val t) (attempts : Int) :
    Makes (reclaim (some m.val)) (Retrying self m.val attempts) t := by
  rw [reclaim_some]
  apply Makes.await
  intro reply
  have hunder : Underway m.val (⟨.claim m.val, reply⟩ :: t) := h.cons rfl trivial
  rcases reply with exc | claimed
  · exact hunder
  · refine ⟨hunder, ?_⟩
    rintro rfl -
    exact ⟨t, rfl, hmarked⟩

theorem backoff_makes (h : Underway m.val t) (hmarked : MarkedSince m.val t) (attempts : Int) :
    Makes (backoff self record (some m.val) attempts) (Retrying self m.val attempts) t := by
  unfold backoff
  split
  · have hsleep : Makes (await (.sleep (self.config.retryBackoffMs * attempts)))
        (fun t' _ => Underway m.val t' ∧ MarkedSince m.val t') t :=
      Makes.await fun reply => ⟨h.cons rfl trivial, hmarked.cons rfl⟩
    apply Makes.bind hsleep
    · rintro t' _ ⟨hunder, hmarked'⟩
      exact Makes.record (reclaim_makes hunder hmarked' attempts)
    · rintro t' exc ⟨hunder, -⟩
      exact hunder
  · rename_i hlast
    exact ⟨h, fun _ hlt => (hlast hlt).elim⟩

theorem handleFailed_makes (h : Underway m.val t) (attempts : Int) (exc : Exc) :
    Makes (handleFailed self record (some m.val) attempts exc)
      (Retrying self m.val attempts) t := by
  apply Makes.record
  rw [ifMessageId_some]
  have hmark : Makes (await (.markFailed m.val exc.text attempts))
      (fun t' r => Underway m.val t' ∧ (r = .ok () → MarkedSince m.val t')) t := by
    refine Makes.await fun reply => ⟨h.cons rfl trivial, ?_⟩
    rintro rfl
    exact MarkedSince.mark exc.text attempts
  apply Makes.bind hmark
  · rintro t' _ ⟨hunder, hmarked⟩
    exact backoff_makes hunder (hmarked rfl) attempts
  · rintro t' exc' ⟨hunder, -⟩
    exact hunder

theorem attemptLoop_makes (left : Nat) {attempts : Int} (lastExc : Option Exc)
    (h : Underway m.val t)
    (hnext : left ≠ 0 → Ready m.val t ∧ attempts + left = self.config.maxRetries + 1) :
    Makes (attemptLoop (V := V) py self record (some m.val) payload left attempts lastExc)
      (EffectOrder m.val) t := by
  induction left generalizing attempts lastExc t with
  | zero => exact exhausted_makes h lastExc
  | succ left ih =>
    obtain ⟨hready, hleft⟩ := hnext left.succ_ne_zero
    have hhandle : Makes (await (.handle payload)) (fun t' r => t' = ⟨.handle payload, r⟩ :: t) t :=
      Makes.await fun reply => rfl
    apply Makes.attempt hhandle
    rintro _ (exc | result) rfl
    · have hunder : Underway m.val (⟨.handle payload, .error exc⟩ :: t) :=
        h.failed hready payload exc
      dsimp only
      split
      · apply Makes.bind (handleFailed_makes hunder attempts exc)
        · rintro t' again ⟨hunder', hagain⟩
          split
          · rename_i htrue
            apply ih (some exc) hunder'
            intro hleft'
            refine ⟨hagain htrue ?_, ?_⟩
            · omega
            · push_cast at hleft
              omega
          · exact exhausted_makes hunder' (some exc)
        · intro t' exc' hunder'
          exact Closing.raised (Underway.closing hunder') exc'
      · exact hunder.closing.raised exc
    · exact complete_makes h hready result

theorem executeAndCommit_makes (h : Underway m.val t) (hready : Ready m.val t) :
    Makes (executeAndCommit (V := V) py self record (some m.val)) (EffectOrder m.val) t := by
  unfold executeAndCommit
  cases decodePayload py record with
  | error exc => exact h.closing.raised exc
  | ok payload =>
    apply attemptLoop_makes _ none h
    intro hleft
    refine ⟨hready, ?_⟩
    omega

/-! ## `_process_record` -/

theorem skip_makes (h : Underway m.val t) :
    Makes (skip (V := V) record m.val) (EffectOrder m.val) t := by
  have hstatus : Makes (V := V) (await (.getStatus m.val)) (fun t' _ => Underway m.val t') t :=
    Makes.await fun reply => h.cons rfl trivial
  apply Makes.bind hstatus
  · intro t' existing hunder
    dsimp only
    split
    · exact Makes.record (commit_makes (Underway.closing hunder))
    · exact Makes.record (commit_makes (Underway.closing hunder))
  · intro t' exc hunder
    exact Closing.raised (Underway.closing hunder) exc

theorem processRecord_makes (hid : extractMessageId py record = .ok (some m.val)) :
    Makes (processRecord (V := V) py self record) (EffectOrder m.val) [] := by
  unfold processRecord
  rw [hid]
  have hclaim : Makes (V := V) (await (.claim m.val))
      (fun t' r => Underway m.val t' ∧ (r = .ok true → Ready m.val t')) [] := by
    refine Makes.await fun reply => ⟨Underway.nil.cons rfl trivial, ?_⟩
    rintro rfl
    exact ⟨[], rfl, MarkedSince.nil⟩
  apply Makes.bind hclaim
  · rintro t' claimed ⟨hunder, hready⟩
    split
    · rename_i htrue
      exact executeAndCommit_makes hunder (hready (htrue ▸ rfl))
    · exact skip_makes hunder
  · rintro t' exc ⟨hunder, -⟩
    exact hunder.closing.raised exc

end DedupConsumer

/-- The world answers a call, and it stands in the trace. -/
def Oracle.answer (world : Oracle V) (t : List (Made V)) (call : Call V) :
    List (Made V) × Except Exc call.Reply :=
  (⟨call, world t call⟩ :: t, world t call)

/-- The order of the effects of a delivery, with or without a DLQ. -/
theorem delivery_effect_order (py : Python) (self : DedupConsumer) (record : ConsumerRecord)
    (world : Oracle V) {m : String} (hid : extractMessageId py record = .ok (some m)) :
    let r := (self.processRecord py record).run world.answer []
    EffectOrder m r.1 r.2.2 := by
  have hmakes : Makes (self.processRecord py record) (EffectOrder m) ([] : List (Made V)) :=
    DedupConsumer.processRecord_makes (m := ⟨m, extractMessageId_ne_empty hid⟩) hid
  have hans : ∀ (t : List (Made V)) (call : Call V), True →
      (world.answer t call).1 = ⟨call, (world.answer t call).2⟩ :: t := fun _ _ _ => rfl
  exact Proc.Ensures.run_always hans hmakes

/-- The first attempt fails, and then the mark of the second. -/
def secondAttempt : Oracle Unit
  | t, .handle _ => if t.any (·.call.isHandle) then .ok none else .error handlerError
  | _, .markCompleted _ _ => .error handlerError
  | _, .claim _ => .ok true
  | _, .getStatus _ => .ok none
  | _, .markFailed _ _ _ | _, .sleep _ | _, .sendAndWait _ _ _ | _, .commit => .ok ()

theorem delivery_effect_order_retried :
    let record : ConsumerRecord :=
      ⟨"orders", 0, 7, none, none, [("X-Message-Id", some (encode "order-1"))]⟩
    let r := (DedupConsumer.processRecord bareRuntime ⟨{}, some "orders.dlq"⟩ record).run
      secondAttempt.answer []
    EffectOrder "order-1" r.1 r.2.2 ∧ r.1.countP (·.call.isHandle) = 2 ∧ r.1.length = 8 := by
  intro record r
  refine ⟨?_, by decide +kernel, by decide +kernel⟩
  apply delivery_effect_order bareRuntime ⟨{}, some "orders.dlq"⟩ record secondAttempt
  decide +kernel

end MessageDedup
