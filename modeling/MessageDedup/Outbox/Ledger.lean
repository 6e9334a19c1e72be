import MessageDedup.Outbox.Transactions

/-!
# The committed table and the sends

What holds of the committed rows, the locks and the sends whatever the relays are doing, and what
keeps it.
-/

namespace MessageDedup

open Transition

/-! ## What the trace says -/

def Closed (trace : TxTrace) (n : Nat) : Prop :=
  (n, .committed) ∈ trace ∨ (n, .rolledBack) ∈ trace

/-- `n` is the transaction that set the committed status of row `id`. -/
def MarkedBy (trace : TxTrace) (n id : Nat) (status : OutboxStatus) : Prop :=
  (n, .committed) ∈ trace ∧ (n, .marked id status) ∈ trace

/-- What the send of row `id` in transaction `n` must have done for `status`. -/
def SendOutcome (rows : List OutboxRow) (trace : TxTrace) (n id : Nat) : OutboxStatus → Prop
  | .published => ∃ row ∈ rows, row.id = id ∧ (n, .sent id row.message true) ∈ trace
  | .failed => ∀ message, (n, .sent id message true) ∉ trace
  | .pending => False

namespace TxEvent

def sends (id : Nat) : TxEvent → Bool
  | sent id' _ _ => id' = id
  | _ => false

def acks (id : Nat) : TxEvent → Bool
  | sent id' _ acked => id' = id ∧ acked
  | _ => false

end TxEvent

/-- The acknowledged sends of row `id`. -/
def acks (id : Nat) (trace : TxTrace) : Nat := trace.countP fun e => e.2.acks id

/-- The transactions that sent row `id` and were rolled back. -/
def lost (id : Nat) (trace : TxTrace) : Nat :=
  trace.countP fun e => e.2 = .rolledBack ∧ ∃ f ∈ trace, f.1 = e.1 ∧ f.2.sends id = true

theorem lost_mono (id : Nat) (trace : TxTrace) (e : Nat × TxEvent) :
    lost id trace ≤ lost id (e :: trace) := by
  unfold lost
  rw [List.countP_cons]
  refine le_trans (List.countP_mono_left ?_) (Nat.le_add_right _ _)
  simp only [decide_eq_true_eq]
  rintro x - ⟨hrolled, f, hf, hsent⟩
  exact ⟨hrolled, f, List.mem_cons_of_mem _ hf, hsent⟩

theorem lost_rolledBack {id n : Nat} {trace : TxTrace} {message : Message} {acked : Bool}
    (h : (n, .sent id message acked) ∈ trace) :
    lost id trace + 1 ≤ lost id ((n, .rolledBack) :: trace) := by
  unfold lost
  rw [List.countP_cons, if_pos]
  · refine Nat.add_le_add_right (List.countP_mono_left ?_) 1
    simp only [decide_eq_true_eq]
    rintro x - ⟨hrolled, f, hf, hsent⟩
    exact ⟨hrolled, f, List.mem_cons_of_mem _ hf, hsent⟩
  · simp only [decide_eq_true_eq]
    exact ⟨trivial, _, List.mem_cons_of_mem _ h, rfl, by simp [TxEvent.sends]⟩

theorem acks_cons (id : Nat) (trace : TxTrace) (e : Nat × TxEvent) :
    acks id (e :: trace) = acks id trace + if e.2.acks id then 1 else 0 := by
  unfold acks
  rw [List.countP_cons]

/-- An event that acknowledges nothing keeps the count, when a live send stays live or is lost. -/
theorem counted_cons {id : Nat} {trace : TxTrace} {e : Nat × TxEvent} {live live' : Prop}
    (hack : e.2.acks id = false)
    (h : acks id trace ≤ lost id trace ∨ acks id trace ≤ lost id trace + 1 ∧ live)
    (hlive : live → live' ∨ lost id trace + 1 ≤ lost id (e :: trace)) :
    acks id (e :: trace) ≤ lost id (e :: trace) ∨
      acks id (e :: trace) ≤ lost id (e :: trace) + 1 ∧ live' := by
  have hmono := lost_mono id trace e
  have hacks := acks_cons id trace e
  simp only [hack, Bool.false_eq_true, if_false, Nat.add_zero] at hacks
  rw [hacks]
  rcases h with hle | ⟨hle, hwas⟩
  · left
    omega
  · rcases hlive hwas with his | hlost
    · right
      exact ⟨by omega, his⟩
    · left
      omega

theorem SendOutcome.cons {rows : List OutboxRow} {trace : TxTrace} {n id : Nat}
    {status : OutboxStatus}
    {e : Nat × TxEvent} (h : SendOutcome rows trace n id status)
    (hne : e.1 ≠ n ∨ ∀ message, e.2 ≠ .sent id message true) :
    SendOutcome rows (e :: trace) n id status := by
  cases status with
  | pending => exact h
  | published =>
    obtain ⟨row, hrow, hid, hsent⟩ := h
    exact ⟨row, hrow, hid, List.mem_cons_of_mem _ hsent⟩
  | failed =>
    intro message hmem
    rcases List.mem_cons.mp hmem with rfl | hold
    · rcases hne with hne | hne
      · exact hne rfl
      · exact hne message rfl
    · exact h message hold

theorem SendOutcome.rows_mono {rows rows' : List OutboxRow} {trace : TxTrace} {n id : Nat}
    {status : OutboxStatus} (h : SendOutcome rows trace n id status)
    (hrows : ∀ row ∈ rows, row ∈ rows') : SendOutcome rows' trace n id status := by
  cases status with
  | pending => exact h
  | failed => exact h
  | published =>
    obtain ⟨row, hrow, hid, hsent⟩ := h
    exact ⟨row, hrows row hrow, hid, hsent⟩

/-! ## The table -/

theorem Stored.after_cases (updates : List Update) (stored : Stored) :
    (∃ update ∈ updates, update.id = stored.row.id ∧ stored.after updates = stored.updated update) ∨
      (∀ update ∈ updates, update.id ≠ stored.row.id) ∧ stored.after updates = stored := by
  unfold Stored.after
  cases hfind : updates.find? (·.id = stored.row.id) with
  | none =>
    rw [List.find?_eq_none] at hfind
    exact .inr ⟨fun update hupdate heq => hfind update hupdate (by simpa using heq), rfl⟩
  | some update =>
    have hid := List.find?_some hfind
    exact .inl ⟨update, List.mem_of_find?_eq_some hfind, by simpa using hid, rfl⟩

@[simp] theorem Stored.after_row (updates : List Update) (stored : Stored) :
    (stored.after updates).row = stored.row := by
  rcases stored.after_cases updates with ⟨_, -, -, heq⟩ | ⟨-, heq⟩ <;> rw [heq]
  rfl

theorem Table.apply_rows (updates : List Update) (table : Table) :
    (table.apply updates).map (·.row) = table.map (·.row) := by
  unfold Table.apply
  simp only [List.map_map, Function.comp_def, Stored.after_row]

theorem Table.apply_ids (updates : List Update) (table : Table) :
    (table.apply updates).map (·.row.id) = table.map (·.row.id) := by
  unfold Table.apply
  simp only [List.map_map, Function.comp_def, Stored.after_row]

theorem Table.mem_apply {updates : List Update} {table : Table} {stored : Stored}
    (h : stored ∈ table.apply updates) :
    (stored ∈ table ∧ ∀ update ∈ updates, update.id ≠ stored.row.id) ∨
      ∃ old ∈ table, ∃ update ∈ updates, update.id = old.row.id ∧ stored = old.updated update := by
  obtain ⟨old, hold, rfl⟩ := List.mem_map.mp h
  rcases old.after_cases updates with ⟨update, hupdate, hid, heq⟩ | ⟨hnone, heq⟩
  · exact .inr ⟨old, hold, update, hupdate, hid, heq⟩
  · rw [heq]
    exact .inl ⟨hold, hnone⟩

theorem Table.apply_of_mem (updates : List Update) {table : Table} {stored : Stored}
    (h : stored ∈ table) :
    (∃ update ∈ updates, update.id = stored.row.id ∧
        stored.updated update ∈ table.apply updates) ∨
      (∀ update ∈ updates, update.id ≠ stored.row.id) ∧ stored ∈ table.apply updates := by
  have hmem : stored.after updates ∈ table.apply updates := List.mem_map_of_mem h
  rcases stored.after_cases updates with ⟨update, hupdate, hid, heq⟩ | ⟨hnone, heq⟩
  · rw [heq] at hmem
    exact .inl ⟨update, hupdate, hid, hmem⟩
  · rw [heq] at hmem
    exact .inr ⟨hnone, hmem⟩

theorem Table.insert_cases (table : Table) (id : Nat) (entry : OutboxEntry) (payload : String) :
    table.insert id entry payload = table ∨ ∃ stored : Stored, stored.row.id = id ∧
      stored.status = .pending ∧ table.insert id entry payload = table ++ [stored] := by
  unfold Table.insert
  split
  · exact .inl rfl
  · exact .inr ⟨_, rfl, rfl, rfl⟩

/-! ## The ledger of a state -/

/-- An acknowledged send of row `id` still counts: its transaction is open, or the row PUBLISHED. -/
def Live (w : OutboxState) (id : Nat) : Prop :=
  (∃ n message, (n, .sent id message true) ∈ w.trace ∧ ¬ Closed w.trace n) ∨
    ∃ stored ∈ w.table, stored.row.id = id ∧ stored.status = .published

def OutboxState.rows (w : OutboxState) : List OutboxRow := w.table.map (·.row)

structure Ledger (w : OutboxState) : Prop where
  ids : (w.table.map (·.row.id)).Nodup
  locked : (w.locks.map (·.2)).Nodup
  pending : ∀ n id, (n, id) ∈ w.locks →
    ∃ stored ∈ w.table, stored.row.id = id ∧ stored.status = .pending
  lockNumber : ∀ n id, (n, id) ∈ w.locks → n < w.nextTx
  traceNumber : ∀ n event, (n, event) ∈ w.trace → n < w.nextTx
  sent : ∀ n id message acked, (n, .sent id message acked) ∈ w.trace →
    (n, id) ∈ w.locks ∨ Closed w.trace n
  settled : ∀ stored ∈ w.table, stored.status ≠ .pending →
    ∃ n, MarkedBy w.trace n stored.row.id stored.status
  outcome : ∀ n id status, MarkedBy w.trace n id status → SendOutcome w.rows w.trace n id status
  counted : ∀ id, acks id w.trace ≤ lost id w.trace ∨
    acks id w.trace ≤ lost id w.trace + 1 ∧ Live w id

theorem Closed.cons {trace : TxTrace} {n : Nat} (h : Closed trace n) (e : Nat × TxEvent) :
    Closed (e :: trace) n := by
  rcases h with hc | hr
  · exact .inl (List.mem_cons_of_mem _ hc)
  · exact .inr (List.mem_cons_of_mem _ hr)

theorem closed_cons {trace : TxTrace} {n : Nat} {e : Nat × TxEvent} (h : Closed (e :: trace) n)
    (hne : e.1 ≠ n ∨ e.2 ≠ .committed ∧ e.2 ≠ .rolledBack) : Closed trace n := by
  unfold Closed at h
  simp only [List.mem_cons] at h
  rcases h with (rfl | hc) | (rfl | hr)
  · simp at hne
  · exact .inl hc
  · simp at hne
  · exact .inr hr

theorem Ledger.lock_unique {w : OutboxState} (h : Ledger w) {n n' id : Nat} (hn : (n, id) ∈ w.locks)
    (hn' : (n', id) ∈ w.locks) : n = n' := by
  have heq := List.inj_on_of_nodup_map h.locked hn hn' rfl
  exact congrArg Prod.fst heq

theorem Ledger.row_unique {w : OutboxState} (h : Ledger w) {a b : Stored} (ha : a ∈ w.table)
    (hb : b ∈ w.table) (hid : a.row.id = b.row.id) : a = b :=
  List.inj_on_of_nodup_map h.ids ha hb hid

theorem Ledger.not_live {w : OutboxState} (h : Ledger w) {n id : Nat} (hlock : (n, id) ∈ w.locks)
    (hunsent : ∀ message acked, (n, .sent id message acked) ∉ w.trace) : ¬ Live w id := by
  rintro (⟨n', message, hsent, hopen⟩ | ⟨stored, hstored, hid, hstatus⟩)
  · rcases h.sent n' id message true hsent with hlock' | hclosed
    · obtain rfl := h.lock_unique hlock hlock'
      exact hunsent message true hsent
    · exact hopen hclosed
  · obtain ⟨stored', hstored', hid', hpending⟩ := h.pending n id hlock
    obtain rfl := h.row_unique hstored hstored' (hid.trans hid'.symm)
    rw [hstatus] at hpending
    simp at hpending

theorem Live.log {w : OutboxState} {id : Nat} (h : Live w id) {n : Nat} {event : TxEvent}
    (hevent : event ≠ .committed ∧ event ≠ .rolledBack) : Live (w.log n event) id := by
  rcases h with ⟨n', message, hsent, hopen⟩ | hstored
  · exact .inl ⟨n', message, List.mem_cons_of_mem _ hsent,
      fun hclosed => hopen (closed_cons hclosed (.inr hevent))⟩
  · exact .inr hstored

/-! ## What keeps the ledger -/

theorem Ledger.log {w : OutboxState} (h : Ledger w) {n : Nat} {event : TxEvent}
    (hn : n < w.nextTx) (hopen : ¬ Closed w.trace n)
    (hevent : event ≠ .committed ∧ event ≠ .rolledBack)
    (hsends : ∀ id message acked, event = .sent id message acked → (n, id) ∈ w.locks ∧
      ∀ message acked, (n, .sent id message acked) ∉ w.trace) : Ledger (w.log n event) where
  ids := h.ids
  locked := h.locked
  pending := h.pending
  lockNumber := h.lockNumber
  traceNumber := by
    intro n' event' hmem
    rcases List.mem_cons.mp hmem with heq | hold
    · cases heq
      exact hn
    · exact h.traceNumber n' event' hold
  sent := by
    intro n' id message acked hmem
    rcases List.mem_cons.mp hmem with heq | hold
    · cases heq
      exact .inl (hsends id message acked rfl).1
    · exact (h.sent n' id message acked hold).imp_right fun hclosed => hclosed.cons _
  settled := by
    intro stored hstored hstatus
    obtain ⟨n', hc, hm⟩ := h.settled stored hstored hstatus
    exact ⟨n', List.mem_cons_of_mem _ hc, List.mem_cons_of_mem _ hm⟩
  outcome := by
    rintro n' id status ⟨hc, hm⟩
    have hc' : (n', TxEvent.committed) ∈ w.trace := by
      rcases List.mem_cons.mp hc with heq | hold
      · cases heq
        exact absurd rfl hevent.1
      · exact hold
    have hne : n ≠ n' := by
      rintro rfl
      exact hopen (.inl hc')
    have hm' : (n', TxEvent.marked id status) ∈ w.trace := by
      rcases List.mem_cons.mp hm with heq | hold
      · cases heq
        exact absurd rfl hne
      · exact hold
    exact (h.outcome n' id status ⟨hc', hm'⟩).cons (.inl hne)
  counted := by
    -- An acknowledged send is the one that may still be live; the earlier ones are lost.
    intro id
    cases hack : event.acks id with
    | false => exact counted_cons hack (h.counted id) fun hlive => .inl (hlive.log hevent)
    | true =>
      obtain ⟨message, rfl⟩ : ∃ message, event = .sent id message true := by
        cases event with
        | sent id' message acked =>
          simp only [TxEvent.acks, decide_eq_true_eq] at hack
          obtain ⟨rfl, rfl⟩ := hack
          exact ⟨message, rfl⟩
        | marked id' status => simp [TxEvent.acks] at hack
        | committed => simp [TxEvent.acks] at hack
        | rolledBack => simp [TxEvent.acks] at hack
      obtain ⟨hlock, hunsent⟩ := hsends id message true rfl
      have hnot := h.not_live hlock hunsent
      have hle := (h.counted id).resolve_right fun hlive => hnot hlive.2
      have hmono := lost_mono id w.trace (n, .sent id message true)
      have hacks := acks_cons id w.trace (n, .sent id message true)
      simp only [hack, if_true] at hacks
      right
      refine ⟨show acks id ((n, _) :: w.trace) ≤ lost id ((n, _) :: w.trace) + 1 by omega, .inl ?_⟩
      exact ⟨n, message, List.mem_cons_self, fun hclosed =>
        hopen (closed_cons hclosed (.inr hevent))⟩

theorem Ledger.lock {w : OutboxState} (h : Ledger w) {n limit : Nat} {rows : List OutboxRow}
    (hn : n < w.nextTx) (hrows : w.Fetchable limit rows) : Ledger (w.lock n rows) where
  ids := h.ids
  locked := by
    obtain ⟨-, hnodup, hfree⟩ := hrows
    show ((rows.map (fun row => (n, row.id)) ++ w.locks).map (·.2)).Nodup
    rw [List.map_append, List.map_map]
    refine List.Nodup.append hnodup h.locked ?_
    intro id hid hlocked
    obtain ⟨row, hrow, rfl⟩ := List.mem_map.mp hid
    exact (hfree row hrow).2 hlocked
  pending := by
    intro n' id hmem
    rcases List.mem_append.mp hmem with hnew | hold
    · obtain ⟨row, hrow, heq⟩ := List.mem_map.mp hnew
      cases heq
      obtain ⟨⟨stored, hstored, rfl, hstatus⟩, -⟩ := hrows.2.2 row hrow
      exact ⟨stored, hstored, rfl, hstatus⟩
    · exact h.pending n' id hold
  lockNumber := by
    intro n' id hmem
    rcases List.mem_append.mp hmem with hnew | hold
    · obtain ⟨row, -, heq⟩ := List.mem_map.mp hnew
      cases heq
      exact hn
    · exact h.lockNumber n' id hold
  traceNumber := h.traceNumber
  sent := fun n' id message acked hmem =>
    (h.sent n' id message acked hmem).imp_left fun hlock => List.mem_append_right _ hlock
  settled := h.settled
  outcome := h.outcome
  counted := h.counted

theorem Ledger.insert {w : OutboxState} (h : Ledger w) {id : Nat} {entry : OutboxEntry}
    {payload : String} (hid : id ∉ w.table.map (·.row.id)) :
    Ledger { w with table := w.table.insert id entry payload } := by
  rcases w.table.insert_cases id entry payload with heq | ⟨new, hnew, hstatus, heq⟩
  · rw [heq]
    exact h
  · rw [heq]
    refine { h with ids := ?_, pending := ?_, settled := ?_, outcome := ?_, counted := ?_ }
    · show ((w.table ++ [new]).map (·.row.id)).Nodup
      rw [List.map_append, List.map_singleton, hnew]
      exact List.Nodup.append h.ids (by simp) (by simpa using hid)
    · intro n id' hlock
      obtain ⟨stored, hstored, hrow⟩ := h.pending n id' hlock
      exact ⟨stored, List.mem_append_left _ hstored, hrow⟩
    · intro stored hstored hne
      rcases List.mem_append.mp hstored with hold | hlast
      · exact h.settled stored hold hne
      · rw [List.mem_singleton] at hlast
        exact absurd hstatus (hlast ▸ hne)
    · intro n id' status hmarked
      refine (h.outcome n id' status hmarked).rows_mono fun row hrow => ?_
      show row ∈ (w.table ++ [new]).map (·.row)
      rw [List.map_append]
      exact List.mem_append_left _ hrow
    · intro id'
      refine (h.counted id').imp_right fun hlive => ⟨hlive.1, hlive.2.imp_right ?_⟩
      rintro ⟨stored, hstored, hrow⟩
      exact ⟨stored, List.mem_append_left _ hstored, hrow⟩

end MessageDedup
