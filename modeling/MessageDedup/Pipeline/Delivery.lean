import MessageDedup.Group.ExactlyOnce
import MessageDedup.Pipeline.Consumers

/-!
# A row is handled once

The relays may fail at any call, repeat their sends and lose their commits: the consumers see the
copies of a row as one message.
-/

namespace MessageDedup

open Transition (Reach replay)

variable {V R : Type}

theorem Life.Accounted.reached {s : Life} (h : s.Accounted) (htrace : s.trace ≠ []) :
    s.IsCompleted ∨ s.Happened .deadLetter ∨ ∃ c t, s.task c = some t := by
  cases hcell : s.record with
  | none =>
    rcases h.missing hcell with ⟨c, t, ht, -⟩ | ⟨hnil, -⟩
    · exact .inr (.inr ⟨c, t, ht⟩)
    · exact absurd hnil htrace
  | some cell =>
    rcases h.present cell hcell with ⟨-, c, t, ht, -⟩ | hdone | ⟨-, hdead⟩
    · exact .inr (.inr ⟨c, t, ht⟩)
    · exact .inl ⟨cell, hcell, hdone⟩
    · rcases hdead with hdead | ⟨c, t, ht, -⟩
      · exact .inr (.inl hdead)
      · exact .inr (.inr ⟨c, t, ht⟩)

/-! ## What a relay sends -/

namespace OutboxState

variable {w w' : OutboxState} {action : OutboxAction} {batchSize : Nat → Nat}

theorem returned_trace {limit r : Nat} {pc : RelayPc} {tx : Tx} {rows : List OutboxRow} {now : Int}
    (hs : w.returned limit r tx rows now pc = some w') :
    w'.trace = w.trace ∧ (∀ row rest published, pc ≠ .sending row rest published) ∨
      ∃ n event, w'.trace = (n, event) :: w.trace ∧ ∀ message,
        (∃ id, event = .sent id message true) ↔
          ∃ row rest published, pc = .sending row rest published ∧ row.message = message := by
  cases pc with
  | beginning =>
    cases hs
    exact .inl ⟨goOn_trace _, by simp⟩
  | fetching =>
    obtain ⟨-, heq⟩ := Option.ite_none_right_eq_some.mp hs
    cases heq
    exact .inl ⟨goOn_trace _, by simp⟩
  | sending row rest published =>
    cases hs
    exact .inr ⟨_, _, goOn_trace _, by simp⟩
  | markingPublished row rest published =>
    obtain ⟨-, heq⟩ := Option.ite_none_left_eq_some.mp hs
    cases heq
    exact .inr ⟨_, _, goOn_trace _, by simp⟩
  | markingFailed row rest published =>
    obtain ⟨-, heq⟩ := Option.ite_none_left_eq_some.mp hs
    cases heq
    exact .inr ⟨_, _, goOn_trace _, by simp⟩
  | committing published =>
    cases hs
    exact .inr ⟨_, _, goOn_trace _, by cases tx.aborted <;> simp⟩
  | rollingBack exc =>
    cases hs
    exact .inr ⟨_, _, goOn_trace _, by simp⟩

theorem raised_trace (w : OutboxState) (limit r : Nat) (tx : Tx) (exc : Exc) (applied : Bool)
    (pc : RelayPc) : (w.raised limit r tx exc applied pc).trace = w.trace ∨
      ∃ n event, (w.raised limit r tx exc applied pc).trace = (n, event) :: w.trace ∧
        ∀ id message, event ≠ .sent id message true := by
  cases pc with
  | beginning => exact .inl (goOn_trace _)
  | fetching => exact .inl (goOn_trace _)
  | sending row rest published => exact .inr ⟨_, _, goOn_trace _, by simp⟩
  | markingPublished row rest published => exact .inl (goOn_trace _)
  | markingFailed row rest published => exact .inl (goOn_trace _)
  | committing published =>
    exact .inr ⟨_, _, goOn_trace _, by cases applied && !tx.aborted <;> simp⟩
  | rollingBack exc' => exact .inr ⟨_, _, goOn_trace _, by simp⟩

theorem exec_trace (hs : exec batchSize w action = some w') :
    (w'.trace = w.trace ∧ w.acknowledged action = none) ∨
      ∃ n event, w'.trace = (n, event) :: w.trace ∧ ∀ message,
        w.acknowledged action = some message ↔ ∃ id, event = .sent id message true := by
  cases action with
  | write id entry payload =>
    obtain ⟨-, heq⟩ := Option.ite_none_left_eq_some.mp hs
    cases heq
    exact .inl ⟨rfl, rfl⟩
  | start r =>
    simp only [exec] at hs
    split at hs
    · simp at hs
    · cases hs
      exact .inl ⟨rfl, rfl⟩
  | returned r rows now =>
    simp only [exec] at hs
    split at hs
    · rename_i pc tx hrelay
      have hack : ∀ message, w.acknowledged (.returned r rows now) = some message ↔
          ∃ row rest published, pc = .sending row rest published ∧ row.message = message := by
        intro message
        cases pc <;> simp [acknowledged, hrelay]
      -- Only the return of a send is an acknowledgement, and it is logged.
      rcases returned_trace hs with ⟨htrace, hpc⟩ | ⟨n, event, htrace, hevent⟩
      · refine .inl ⟨htrace, Option.eq_none_iff_forall_not_mem.mpr fun message hmem => ?_⟩
        obtain ⟨row, rest, published, heq, -⟩ := (hack message).mp hmem
        exact hpc row rest published heq
      · exact .inr ⟨n, event, htrace, fun message => (hack message).trans (hevent message).symm⟩
    · simp at hs
  | raised r exc applied =>
    simp only [exec] at hs
    split at hs
    · rename_i pc tx hrelay
      cases hs
      rcases raised_trace w (batchSize r) r tx exc applied pc with htrace | ⟨n, event, htrace, hne⟩
      · exact .inl ⟨htrace, rfl⟩
      · exact .inr ⟨n, event, htrace, fun message => by simp [acknowledged, hne]⟩
    · simp at hs

theorem goOn_rows {r : Nat} {tx : Tx} (next : RelayNext) : (w.goOn r tx next).rows = w.rows := by
  unfold rows
  rw [goOn_table]

theorem exec_rows (hs : exec batchSize w action = some w') : w'.rows = w.rows ∨
    ∃ id entry payload, action = .write id entry payload ∧
      w'.table = w.table.insert id entry payload := by
  cases action with
  | write id entry payload =>
    obtain ⟨-, heq⟩ := Option.ite_none_left_eq_some.mp hs
    cases heq
    exact .inr ⟨id, entry, payload, rfl, rfl⟩
  | start r =>
    simp only [exec] at hs
    split at hs
    · simp at hs
    · cases hs
      exact .inl rfl
  | returned r rows now =>
    simp only [exec] at hs
    split at hs
    · obtain ⟨w₁, tx₁, next, rfl, -, hrows, -⟩ := returned_goOn hs
      exact .inl ((goOn_rows next).trans hrows)
    · simp at hs
  | raised r exc applied =>
    simp only [exec] at hs
    split at hs
    · rename_i pc tx hrelay
      cases hs
      obtain ⟨w₁, tx₁, next, heq, -, hrows, -⟩ := raised_goOn w (batchSize r) r tx exc applied pc
      rw [heq]
      exact .inl ((goOn_rows next).trans hrows)
    · simp at hs

theorem sent_of_published (h : Ledger w) {stored : Stored} (hstored : stored ∈ w.table)
    (hstatus : stored.status = .published) :
    ∃ n, (n, .sent stored.row.id stored.row.message true) ∈ w.trace := by
  obtain ⟨n, hmarked⟩ := h.settled stored hstored (by simp [hstatus])
  rw [hstatus] at hmarked
  obtain ⟨row, hrow, hid, hsent⟩ := h.outcome n _ _ hmarked
  obtain ⟨stored', hstored', rfl⟩ := List.mem_map.mp hrow
  obtain rfl := h.row_unique hstored' hstored hid
  exact ⟨n, hsent⟩

end OutboxState

/-! ## What Kafka holds -/

namespace Pipeline

variable {P : Pipeline V R} {m : MessageId} {s s' : PipelineState P.backend}
  {a : PipelineAction V}

/-- The payloads repeat their `message_id`, other producers do not use the id `m`, and the consumers
have no faults with it. The relays may have any. -/
structure Fair (P : Pipeline V R) (m : MessageId) (s : PipelineState P.backend)
    (a : PipelineAction V) : Prop where
  written : ∀ id entry payload p, a = .relay (.write id entry payload) p →
    JsonbText P.py entry.payload payload ∧ Carries P.py entry.payload entry.messageId
  foreign : ∀ p record, a = .produce p record → extractMessageId P.py record ≠ .ok (some m.val)
  consumed : P.Consumes m Life.Faultless s a

/-- The payload of each row repeats its `message_id`. -/
def Labelled (P : Pipeline V R) (s : PipelineState P.backend) : Prop :=
  ∀ row ∈ s.outbox.rows, ∃ fields, JsonbText P.py fields row.payload ∧
    Carries P.py fields row.messageId

/-- An acknowledged send is in Kafka, and what Kafka has under the id `m` was sent. -/
structure Fed (P : Pipeline V R) (m : MessageId) (s : PipelineState P.backend) : Prop where
  arrived : ∀ n id message, (n, .sent id message true) ∈ s.outbox.trace →
    ∃ p o, (s.broker p)[o]? = some (message.record p o)
  origin : ∀ p o record, (s.broker p)[o]? = some record →
    extractMessageId P.py record = .ok (some m.val) →
    ∃ n id message acked, (n, .sent id message acked) ∈ s.outbox.trace ∧
      record = message.record p o

theorem Labelled.step (h : P.Labelled s) (hfair : P.Fair m s a) (hs : Stepped P s a s') :
    P.Labelled s' := by
  have hrelay : ∀ {action p outbox}, a = .relay action p →
      OutboxState.exec P.batchSize s.outbox action = some outbox →
      ∀ row ∈ outbox.rows, ∃ fields, JsonbText P.py fields row.payload ∧
        Carries P.py fields row.messageId := by
    intro action p outbox ha hexec row hrow
    rcases OutboxState.exec_rows hexec with heq | ⟨id, entry, payload, rfl, heq⟩
    · exact h row (heq ▸ hrow)
    · obtain ⟨stored, hstored, rfl⟩ := List.mem_map.mp hrow
      rw [heq] at hstored
      unfold Table.insert at hstored
      split at hstored
      · exact h _ (List.mem_map_of_mem hstored)
      · rcases List.mem_append.mp hstored with hold | hnew
        · exact h _ (List.mem_map_of_mem hold)
        · rw [List.mem_singleton.mp hnew]
          exact ⟨entry.payload, hfair.written id entry payload p ha⟩
  cases hs with
  | relayed hexec => exact hrelay rfl hexec
  | published hexec => exact hrelay rfl hexec
  | repeated => exact h
  | produced => exact h
  | consumed => exact h

theorem Fed.write (h : P.Fed m s) {p : Nat} {message : Message} {outbox : OutboxState}
    (hold : ∀ e ∈ s.outbox.trace, e ∈ outbox.trace)
    (hnew : ∀ n id message', (n, .sent id message' true) ∈ outbox.trace →
      (n, .sent id message' true) ∈ s.outbox.trace ∨ message' = message)
    (hsent : ∃ n id acked, (n, .sent id message acked) ∈ outbox.trace) :
    P.Fed m { s with outbox := outbox, broker := s.broker.write p message } where
  arrived := by
    intro n id message' hmem
    rcases hnew n id message' hmem with hmem | rfl
    · obtain ⟨p', o, hget⟩ := h.arrived n id message' hmem
      exact ⟨p', o, Kafka.append_getElem?.mpr (.inl hget)⟩
    · exact ⟨p, _, Kafka.append_getElem?.mpr (.inr ⟨rfl, rfl, rfl⟩)⟩
  origin := by
    intro p' o record hget hid
    rcases Kafka.append_getElem?.mp hget with hget | ⟨rfl, rfl, rfl⟩
    · obtain ⟨n, id, message', acked, hmem, heq⟩ := h.origin p' o record hget hid
      exact ⟨n, id, message', acked, hold _ hmem, heq⟩
    · obtain ⟨n, id, acked, hmem⟩ := hsent
      exact ⟨n, id, message, acked, hmem, rfl⟩

theorem Fed.step (h : P.Fed m s) (hfair : P.Fair m s a) (hs : Stepped P s a s') : P.Fed m s' := by
  cases hs with
  | @relayed action p outbox hexec hack =>
    -- The event acknowledges nothing, so Kafka has got no record.
    rcases OutboxState.exec_trace hexec with ⟨htrace, -⟩ | ⟨n, event, htrace, hevent⟩
    · exact ⟨htrace ▸ h.arrived, htrace ▸ h.origin⟩
    · refine ⟨?_, ?_⟩
      · intro n' id message hmem
        rw [htrace] at hmem
        rcases List.mem_cons.mp hmem with heq | hmem
        · obtain ⟨rfl, rfl⟩ := Prod.mk.inj heq
          have hsome := (hevent message).mpr ⟨id, rfl⟩
          simp [hack] at hsome
        · exact h.arrived n' id message hmem
      · intro p' o record hget hid
        obtain ⟨n', id, message, acked, hmem, heq⟩ := h.origin p' o record hget hid
        exact ⟨n', id, message, acked, htrace ▸ List.mem_cons_of_mem _ hmem, heq⟩
  | @published action p outbox message hexec hack =>
    rcases OutboxState.exec_trace hexec with ⟨-, hnone⟩ | ⟨n, event, htrace, hevent⟩
    · simp [hack] at hnone
    · obtain ⟨id, rfl⟩ := (hevent message).mp hack
      apply h.write
      · exact fun e hmem => htrace ▸ List.mem_cons_of_mem _ hmem
      · intro n' id' message' hmem
        rw [htrace] at hmem
        rcases List.mem_cons.mp hmem with heq | hmem
        · simp only [Prod.mk.injEq, TxEvent.sent.injEq] at heq
          exact .inr heq.2.2.1
        · exact .inl hmem
      · exact ⟨n, id, true, htrace ▸ List.mem_cons_self⟩
  | repeated hsent =>
    exact h.write (fun _ => id) (fun _ _ _ => .inl) ⟨_, _, _, hsent⟩
  | @produced p record =>
    -- Records of other producers have other ids.
    refine ⟨?_, ?_⟩
    · intro n id message hmem
      obtain ⟨p', o, hget⟩ := h.arrived n id message hmem
      exact ⟨p', o, Kafka.append_getElem?.mpr (.inl hget)⟩
    · intro p' o record' hget hid
      rcases Kafka.append_getElem?.mp hget with hget | ⟨rfl, rfl, rfl⟩
      · exact h.origin p' o record' hget hid
      · exact absurd hid (hfair.foreign p' record' rfl)
  | consumed => exact ⟨h.arrived, h.origin⟩

/-! ## Runs -/

theorem reach_outbox {guard : PipelineState P.backend → PipelineAction V → Prop}
    (h : Reach ((P.system m).guard guard) s) : Reach (outboxSystem P.batchSize) s.outbox := by
  induction h with
  | init h0 =>
    obtain ⟨now, store, rfl, -⟩ := h0
    exact .init rfl
  | step hr hs ih =>
    cases stepped hs.2 with
    | relayed hexec => exact .step ih hexec
    | published hexec => exact .step ih hexec
    | repeated => exact ih
    | produced => exact ih
    | consumed => exact ih

theorem fed_of_reach (h : Reach ((P.system m).guard (P.Fair m)) s) : P.Labelled s ∧ P.Fed m s := by
  refine h.invariant (fun s => P.Labelled s ∧ P.Fed m s) ?_ ?_
  · rintro _ ⟨now, store, rfl, -⟩
    refine ⟨?_, ?_, ?_⟩
    · simp [Labelled, startState, OutboxState.empty, OutboxState.rows]
    · simp [startState, OutboxState.empty]
    · simp [startState]
  · rintro s a s' - ⟨hlabelled, hfed⟩ ⟨hfair, hs⟩
    exact ⟨hlabelled.step hfair (stepped hs), hfed.step hfair (stepped hs)⟩

/-- The life of `m` among the consumers. -/
def life (P : Pipeline V R) (m : MessageId) (s : PipelineState P.backend) : Life :=
  (P.group s.broker.log).life m s.group

/-- What a row with the id `m` comes to. -/
structure HandledOnce (P : Pipeline V R) (m : MessageId) (s : PipelineState P.backend)
    (stored : Stored) : Prop where
  arrives : stored.status = .published →
    ∃ p o, (s.broker p)[o]? = some (stored.row.message.record p o)
  copies : ∀ p o record, (s.broker p)[o]? = some record →
    (extractMessageId P.py record = .ok (some m.val) ↔ record = stored.row.message.record p o)
  exclusive : (P.life m s).NoOverlap
  once : (P.life m s).SucceedsOnce
  settled : ∀ p o, (s.broker p)[o]? = some (stored.row.message.record p o) →
    o < s.group.committed p → (P.life m s).IsCompleted ∨ (P.life m s).Happened .deadLetter ∨
      ∃ c t, (P.life m s).task c = some t

/-- Kafka has copies of the row, and nothing else, under the id of the row. -/
theorem copies_of_reach (h : Reach ((P.system m).guard (P.Fair m)) s) {stored : Stored}
    (hstored : stored ∈ s.outbox.table) (hm : stored.row.messageId = m.val) {p o : Nat}
    {record : ConsumerRecord} (hget : (s.broker p)[o]? = some record) :
    extractMessageId P.py record = .ok (some m.val) ↔
      record = stored.row.message.record p o := by
  obtain ⟨hlabelled, hfed⟩ := fed_of_reach h
  have hreads : ∀ other ∈ s.outbox.table, extractMessageId P.py (other.row.message.record p o) =
      .ok (some other.row.messageId) := by
    intro other hother
    obtain ⟨fields, hjsonb, hcarries⟩ := hlabelled other.row (List.mem_map_of_mem hother)
    exact (extractMessageId_record_iff hjsonb p o).mpr hcarries
  constructor
  · intro hid
    obtain ⟨n, id, message, acked, hsent, rfl⟩ := hfed.origin p o record hget hid
    have hrows := rows_of_reach (reach_outbox h)
    obtain ⟨other, hother, -, rfl⟩ := hrows.sent n id message acked hsent
    have hsame : other.row.messageId = stored.row.messageId := by
      have heq := (hreads other hother).symm.trans hid
      simpa [hm] using heq
    obtain rfl := List.inj_on_of_nodup_map hrows.messageIds hother hstored hsame
    rfl
  · rintro rfl
    rw [hreads stored hstored, hm]

theorem decodes_of_reach (h : Reach ((P.system m).guard (P.Fair m)) s) {p o : Nat}
    (hid : extractMessageId P.py (s.broker.log p o) = .ok (some m.val)) :
    ∃ payload, decodePayload P.py (s.broker.log p o) = .ok payload := by
  obtain ⟨hlabelled, hfed⟩ := fed_of_reach h
  cases hget : (s.broker p)[o]? with
  | none =>
    simp only [Kafka.log, hget, Option.getD_none] at hid
    simp [extractMessageId, headerMessageId, nonEmpty] at hid
  | some record =>
    rw [s.broker.within_log p o record hget] at hid ⊢
    obtain ⟨n, id, message, acked, hsent, rfl⟩ := hfed.origin p o record hget hid
    obtain ⟨other, hother, -, rfl⟩ :=
      (rows_of_reach (reach_outbox h)).sent n id message acked hsent
    obtain ⟨fields, hjsonb, -⟩ := hlabelled other.row (List.mem_map_of_mem hother)
    have hvalue : nonEmpty (other.row.message.record p o).value =
        some (encode other.row.payload) := by
      simp [nonEmpty, Message.record, OutboxRow.message, encode_ne_nil hjsonb.ne_empty]
    refine ⟨.json (.obj fields), ?_⟩
    simp only [decodePayload, hvalue, hjsonb.loads]

/-- However often the relays send a row, its consumers see one message: `handle()` runs in one
delivery at a time and never after a success, and once the offset of a copy is committed the message
is COMPLETED, dead-lettered, or still in hand. A PUBLISHED row has a copy in Kafka. -/
theorem row_handled_once (P : Pipeline V R) (m : MessageId)
    (hmax : ∀ c, 1 ≤ (P.consumers c).config.maxRetries) {s : PipelineState P.backend}
    (h : Reach ((P.system m).guard (P.Fair m)) s) {stored : Stored}
    (hstored : stored ∈ s.outbox.table) (hm : stored.row.messageId = m.val) :
    P.HandledOnce m s stored := by
  obtain ⟨hlabelled, hfed⟩ := fed_of_reach h
  obtain ⟨hgroup, -⟩ := reach_group (fun _ _ hfair => hfair.consumed) h
  have hrun := hgroup s.broker.log s.broker.within_log
  have hsound : (P.life m s).Sound ((P.group s.broker.log).rules m) :=
    Life.sound_of_reach hmax (fun _ _ => decodes_of_reach h) (Group.reach_life hrun)
  have hcopies : ∀ p o record, (s.broker p)[o]? = some record →
      (extractMessageId P.py record = .ok (some m.val) ↔
        record = stored.row.message.record p o) :=
    fun _ _ _ => copies_of_reach h hstored hm
  refine ⟨?_, hcopies, hsound.success.noOverlap, hsound.success.once, ?_⟩
  · intro hstatus
    obtain ⟨n, hsent⟩ := OutboxState.sent_of_published
      (outboxInv_of_reach (reach_outbox h)).ledger hstored hstatus
    exact hfed.arrived n _ _ hsent
  · intro p o hget hcommitted
    have hid : extractMessageId P.py (s.broker.log p o) = .ok (some m.val) := by
      rw [s.broker.within_log p o _ hget]
      exact (hcopies p o _ hget).mpr rfl
    obtain ⟨n, hn⟩ := (consistent_of_reach hrun.of_guard).logged p o m hcommitted hid
    have hevent : (n, Event.committed) ∈ (P.life m s).trace :=
      List.mem_filterMap.mpr ⟨_, hn, if_pos rfl⟩
    exact hsound.accounted.reached (List.ne_nil_of_mem hevent)

/-! ## A commit that is lost -/

/-- A check of the steps after the writes. -/
def isFair (P : Pipeline V R) (m : MessageId) (k : Nat) (s : PipelineState P.backend) :
    PipelineAction V → Bool
  | .relay (.write _ _ _) _ => false
  | .produce _ _ => false
  | .relay _ _ | .again _ _ => true
  | .consume action => (P.group s.broker.log).checked m k (Life.isFaultless k) s.group action

theorem fair_of_isFair {k : Nat} (hq : s.group.Quiet k) (h : P.isFair m k s a = true)
    (hs : P.exec s a = some s') : P.Fair m s a ∧ s'.group.Quiet k := by
  cases stepped hs with
  | relayed | published =>
    refine ⟨⟨?_, nofun, nofun⟩, hq⟩
    rintro id entry payload p ⟨⟩
    simp [isFair] at h
  | repeated => exact ⟨⟨nofun, nofun, nofun⟩, hq⟩
  | produced => simp [isFair] at h
  | consumed hread hexec =>
    refine ⟨⟨nofun, nofun, ?_⟩, Group.quiet_step hq h hexec⟩
    rintro action ⟨⟩
    exact Group.during_of_checked Life.faultless_of_isFaultless hq h

def orderPipeline : Pipeline Unit Unit where
  py := outboxRuntime
  backend := .inMemory {}
  consumers := fun _ => ⟨{}, some "orders.dlq"⟩
  batchSize := fun _ => 100

/-- A relay loses its commit and sends the row again. A consumer takes both copies. -/
def lostCommitRun : List (PipelineAction Unit) :=
  let row := orderRow labelledText
  let relay := fun action => PipelineAction.relay action 0
  [.start 0, .returned 0 [] 0, .returned 0 [row] 0, .returned 0 [] 0, .returned 0 [] 5,
    .raised 0 ⟨.exception "ConnectionDoesNotExistError", ""⟩ false, .start 0, .returned 0 [] 0,
    .returned 0 [row] 0, .returned 0 [] 0, .returned 0 [] 9, .returned 0 [] 0].map relay ++
  [.assign 0 0, .poll 0 0, .act 0 (.done none), .enter 0, .act 0 (.done none),
    .act 0 (.done none), .act 0 (.done none), .poll 0 0, .act 0 (.done none),
    .act 0 (.done none), .act 0 (.done none)].map .consume

theorem row_handled_once_lostCommit :
    ∃ (s : PipelineState orderPipeline.backend) (stored : Stored), stored ∈ s.outbox.table ∧
      stored.status = .published ∧ (s.broker 0).length = 2 ∧ s.group.committed 0 = 2 ∧
      orderPipeline.HandledOnce ⟨"order-123", by decide⟩ s stored := by
  let P := orderPipeline
  let m : MessageId := ⟨"order-123", by decide⟩
  let write : PipelineAction Unit :=
    .relay (.write 1 ⟨"orders", "order-123", labelledPayload, 0⟩ labelledText) 0
  have hrun : ((P.exec (P.startState 0 P.backend.empty) write).bind fun s =>
      (replay P.exec (P.isFair m 1) s lostCommitRun).map fun s =>
        (s.outbox.table.map fun stored => (stored.row.messageId, stored.status),
          (s.broker 0).length, s.group.committed 0)) =
      some ([("order-123", .published)], 2, 2) := by
    decide +kernel
  obtain ⟨s₁, hs₁, hrun⟩ := Option.bind_eq_some_iff.mp hrun
  obtain ⟨s, hs, hfinal⟩ := Option.map_eq_some_iff.mp hrun
  simp only [Prod.mk.injEq] at hfinal
  obtain ⟨htable, hlength, hcommitted⟩ := hfinal
  have hfair : P.Fair m (P.startState 0 P.backend.empty) write := by
    refine ⟨?_, nofun, nofun⟩
    intro id entry payload p heq
    obtain ⟨hwrite, -⟩ := PipelineAction.relay.inj heq
    obtain ⟨rfl, rfl, rfl⟩ := OutboxAction.write.inj hwrite
    exact ⟨labelledText_jsonb, .str "order-123", .inl rfl, by decide, rfl⟩
  have hstart : Reach ((P.system m).guard (P.Fair m)) (P.startState 0 P.backend.empty) :=
    .init ⟨0, _, rfl, rfl⟩
  have hquiet : s₁.group.Quiet 1 := by
    cases hs₁
    exact fun _ _ => rfl
  obtain ⟨hreach, -⟩ := Transition.reach_replay (fun s => s.group.Quiet 1)
    (fun _ _ _ hq hc hs => fair_of_isFair hq hc hs) (.step hstart ⟨hfair, hs₁⟩) hquiet hs
  obtain ⟨stored, hstored, heq⟩ := List.mem_map.mp (htable ▸ List.mem_singleton_self _)
  simp only [Prod.mk.injEq] at heq
  have hmax : (1 : Int) ≤ 3 := by decide
  exact ⟨s, stored, hstored, heq.2, hlength, hcommitted,
    row_handled_once P m (fun _ => hmax) hreach hstored heq.1⟩

end Pipeline

end MessageDedup
