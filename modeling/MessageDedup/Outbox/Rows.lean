import MessageDedup.Outbox.Publishing

/-!
# What becomes of a row

Whatever the writers and the relays do, a row is inserted once, keeps its content, is settled at
most once, and is not sent after that.
-/

namespace MessageDedup

open Transition

/-! ## What a step does to the table -/

/-- An `UPDATE` that sets `published_at` together with PUBLISHED. -/
def Update.Settles (update : Update) : Prop :=
  update.status = .published ∧ update.publishedAt.isSome = true ∨
    update.status = .failed ∧ update.publishedAt = none

theorem markPublished_settles (now : Int) (id : Nat) : (markPublished now id).Settles :=
  .inl ⟨rfl, rfl⟩

theorem markFailed_settles (id : Nat) : (markFailed id).Settles := .inr ⟨rfl, rfl⟩

/-- The committed table and the history after one step. -/
inductive Deed (w : OutboxState) : Table → TxTrace → Prop
  | quiet : Deed w w.table w.trace
  | wrote {id : Nat} {entry : OutboxEntry} {payload : String}
      (hid : id ∉ w.table.map (·.row.id)) : Deed w (w.table.insert id entry payload) w.trace
  | sent {n : Nat} {row : OutboxRow} {acked : Bool} (hrow : row ∈ w.rows)
      (hlock : (n, row.id) ∈ w.locks) :
      Deed w w.table ((n, .sent row.id row.message acked) :: w.trace)
  | noted {n : Nat} {event : TxEvent} (hevent : ∀ id, event.sends id = false) :
      Deed w w.table ((n, event) :: w.trace)
  | committed {tx : Tx} (hlocked : ∀ update ∈ tx.updates, (tx.number, update.id) ∈ w.locks)
      (hsettles : ∀ update ∈ tx.updates, update.Settles) :
      Deed w (w.table.apply tx.updates) ((tx.number, .committed) :: w.trace)

/-- The updates of the open transactions settle their rows. -/
def OutboxState.Settling (w : OutboxState) : Prop :=
  ∀ r pc tx, w.relays r = some (pc, tx) → ∀ update ∈ tx.updates, update.Settles

namespace OutboxState

variable {w w' : OutboxState} {r limit : Nat} {pc : RelayPc} {tx : Tx}

@[simp] theorem goOn_table (next : RelayNext) : (w.goOn r tx next).table = w.table := by
  cases next <;> rfl

@[simp] theorem goOn_trace (next : RelayNext) : (w.goOn r tx next).trace = w.trace := by
  cases next <;> rfl

theorem deed_close {commits : Bool} (hsettles : ∀ update ∈ tx.updates, update.Settles)
    (hcommits : commits = true → Batch w pc tx) :
    Deed w (w.close tx commits).table (w.close tx commits).trace := by
  cases commits with
  | true => exact .committed (hcommits rfl).locked hsettles
  | false => exact .noted fun _ => rfl

theorem returned_deed {rows : List OutboxRow} {now : Int} (hwork : Working w pc tx)
    (hsettles : ∀ update ∈ tx.updates, update.Settles)
    (hstep : w.returned limit r tx rows now pc = some w') : Deed w w'.table w'.trace := by
  cases pc with
  | beginning =>
    cases hstep
    rw [goOn_table, goOn_trace]
    exact .quiet
  | fetching =>
    obtain ⟨-, heq⟩ := Option.ite_none_right_eq_some.mp hstep
    cases heq
    rw [goOn_table, goOn_trace]
    exact .quiet
  | sending row rest published =>
    cases hstep
    have hrow := (hwork.at (by simp) (.inr (by simp))).rows row List.mem_cons_self
    rw [goOn_table, goOn_trace]
    exact .sent hrow.1 hrow.2
  | markingPublished row rest published =>
    obtain ⟨-, heq⟩ := Option.ite_none_left_eq_some.mp hstep
    cases heq
    rw [goOn_table, goOn_trace]
    exact .noted fun _ => rfl
  | markingFailed row rest published =>
    obtain ⟨-, heq⟩ := Option.ite_none_left_eq_some.mp hstep
    cases heq
    rw [goOn_table, goOn_trace]
    exact .noted fun _ => rfl
  | committing published =>
    cases hstep
    rw [goOn_table, goOn_trace]
    exact deed_close hsettles fun _ => hwork.at (by simp) (.inr (by simp))
  | rollingBack exc =>
    cases hstep
    rw [goOn_table, goOn_trace]
    exact .noted fun _ => rfl

theorem raised_deed {exc : Exc} {applied : Bool} (hwork : Working w pc tx)
    (hsettles : ∀ update ∈ tx.updates, update.Settles) :
    Deed w (w.raised limit r tx exc applied pc).table
      (w.raised limit r tx exc applied pc).trace := by
  unfold raised
  cases pc with
  | beginning | fetching | markingPublished row rest published | markingFailed row rest published =>
    rw [goOn_table, goOn_trace]
    exact .quiet
  | sending row rest published =>
    have hrow := (hwork.at (by simp) (.inr (by simp))).rows row List.mem_cons_self
    rw [goOn_table, goOn_trace]
    exact .sent hrow.1 hrow.2
  | committing published =>
    rw [goOn_table, goOn_trace]
    exact deed_close hsettles fun _ => hwork.at (by simp) (.inr (by simp))
  | rollingBack exc' =>
    rw [goOn_table, goOn_trace]
    exact .noted fun _ => rfl

end OutboxState

theorem OutboxInv.deed {batchSize : Nat → Nat} {w w' : OutboxState} {action : OutboxAction}
    (h : OutboxInv w) (hsettling : w.Settling)
    (hstep : OutboxState.exec batchSize w action = some w') : Deed w w'.table w'.trace := by
  cases action with
  | write id entry payload =>
    obtain ⟨hid, heq⟩ := Option.ite_none_left_eq_some.mp hstep
    cases heq
    exact .wrote hid
  | start r =>
    simp only [OutboxState.exec] at hstep
    split at hstep
    · simp at hstep
    · cases hstep
      exact .quiet
  | returned r rows now =>
    simp only [OutboxState.exec] at hstep
    split at hstep
    · rename_i pc tx hrelay
      exact OutboxState.returned_deed (h.working r pc tx hrelay) (hsettling r pc tx hrelay) hstep
    · simp at hstep
  | raised r exc applied =>
    simp only [OutboxState.exec] at hstep
    split at hstep
    · rename_i pc tx hrelay
      cases hstep
      exact OutboxState.raised_deed (h.working r pc tx hrelay) (hsettling r pc tx hrelay)
    · simp at hstep

/-! ## The updates of a transaction -/

namespace OutboxState

variable {w w' : OutboxState} {r limit : Nat} {pc : RelayPc} {tx tx' : Tx}

theorem Settling.goOn {w₁ : OutboxState} (h : w.Settling) (hrelays : w₁.relays = w.relays)
    (htx : ∀ update ∈ tx.updates, update.Settles) (next : RelayNext) :
    (w₁.goOn r tx next).Settling := by
  obtain ⟨relay, hput, hself⟩ : ∃ relay, w₁.goOn r tx next = w₁.put r relay ∧
      ∀ pc' tx', relay = some (pc', tx') → tx' = tx := by
    cases next with
    | pc pc' =>
      refine ⟨some (pc', tx), rfl, ?_⟩
      rintro _ _ ⟨⟩
      rfl
    | done published => exact ⟨none, rfl, by simp⟩
    | raised exc => exact ⟨none, rfl, by simp⟩
  rw [hput]
  intro r' pc' tx' hrelay
  rcases Nat.decEq r' r with hne | rfl
  · exact h r' pc' tx' (by simpa [put, hne, hrelays] using hrelay)
  · simp only [put, Function.update_self] at hrelay
    rw [hself pc' tx' hrelay]
    exact htx

theorem returned_goOn {rows : List OutboxRow} {now : Int}
    (hstep : w.returned limit r tx rows now pc = some w') :
    ∃ (w₁ : OutboxState) (tx₁ : Tx) (next : RelayNext), w' = w₁.goOn r tx₁ next ∧
      w₁.relays = w.relays ∧ w₁.rows = w.rows ∧
      ∀ update ∈ tx₁.updates, update ∈ tx.updates ∨ update.Settles := by
  cases pc with
  | beginning =>
    cases hstep
    exact ⟨_, _, _, rfl, rfl, rfl, fun _ => .inl⟩
  | fetching =>
    obtain ⟨-, heq⟩ := Option.ite_none_right_eq_some.mp hstep
    cases heq
    exact ⟨_, _, _, rfl, rfl, rfl, fun _ => .inl⟩
  | sending row rest published =>
    cases hstep
    exact ⟨_, _, _, rfl, rfl, rfl, fun _ => .inl⟩
  | markingPublished row rest published =>
    obtain ⟨-, heq⟩ := Option.ite_none_left_eq_some.mp hstep
    cases heq
    refine ⟨_, _, _, rfl, rfl, rfl, List.forall_mem_cons.mpr ⟨.inr ?_, fun _ => .inl⟩⟩
    exact markPublished_settles now row.id
  | markingFailed row rest published =>
    obtain ⟨-, heq⟩ := Option.ite_none_left_eq_some.mp hstep
    cases heq
    refine ⟨_, _, _, rfl, rfl, rfl, List.forall_mem_cons.mpr ⟨.inr ?_, fun _ => .inl⟩⟩
    exact markFailed_settles row.id
  | committing published =>
    cases hstep
    exact ⟨_, _, _, rfl, rfl, close_rows .., fun _ => .inl⟩
  | rollingBack exc =>
    cases hstep
    exact ⟨_, _, _, rfl, rfl, close_rows .., fun _ => .inl⟩

theorem raised_goOn (w : OutboxState) (limit r : Nat) (tx : Tx) (exc : Exc) (applied : Bool)
    (pc : RelayPc) : ∃ (w₁ : OutboxState) (tx₁ : Tx) (next : RelayNext),
      w.raised limit r tx exc applied pc = w₁.goOn r tx₁ next ∧
      w₁.relays = w.relays ∧ w₁.rows = w.rows ∧ tx₁.updates = tx.updates := by
  cases pc with
  | beginning => exact ⟨w, tx, RelayPc.beginning.resume limit (.error exc), rfl, rfl, rfl, rfl⟩
  | fetching => exact ⟨w, tx.abort, RelayPc.fetching.resume limit (.error exc), rfl, rfl, rfl, rfl⟩
  | sending row rest published =>
    exact ⟨w.log _ _, tx, (RelayPc.sending row rest published).resume limit (.error exc), rfl, rfl,
      rfl, rfl⟩
  | markingPublished row rest published =>
    exact ⟨w, tx.abort, (RelayPc.markingPublished row rest published).resume limit (.error exc),
      rfl, rfl, rfl, rfl⟩
  | markingFailed row rest published =>
    exact ⟨w, tx.abort, (RelayPc.markingFailed row rest published).resume limit (.error exc),
      rfl, rfl, rfl, rfl⟩
  | committing published =>
    exact ⟨w.close _ _, tx, (RelayPc.committing published).resume limit (.error exc), rfl, rfl,
      close_rows .., rfl⟩
  | rollingBack exc' =>
    exact ⟨w.close _ _, tx, (RelayPc.rollingBack exc').resume limit (.error exc), rfl, rfl,
      close_rows .., rfl⟩

theorem Settling.returned {rows : List OutboxRow} {now : Int} (h : w.Settling)
    (htx : ∀ update ∈ tx.updates, update.Settles)
    (hstep : w.returned limit r tx rows now pc = some w') : w'.Settling := by
  obtain ⟨w₁, tx₁, next, rfl, hrelays, -, hupdates⟩ := returned_goOn hstep
  exact h.goOn hrelays (fun update hmem => (hupdates update hmem).elim (htx update) id) next

theorem Settling.raised {exc : Exc} {applied : Bool} (h : w.Settling)
    (htx : ∀ update ∈ tx.updates, update.Settles) :
    (w.raised limit r tx exc applied pc).Settling := by
  obtain ⟨w₁, tx₁, next, heq, hrelays, -, hupdates⟩ :=
    raised_goOn w limit r tx exc applied pc
  rw [heq]
  exact h.goOn hrelays (hupdates ▸ htx) next

theorem Settling.start (h : w.Settling) (r : Nat) :
    ({ w.put r (some (.beginning, ⟨w.nextTx, [], false⟩)) with nextTx := w.nextTx + 1 } :
      OutboxState).Settling := by
  have hgoOn : (w.goOn r ⟨w.nextTx, [], false⟩ (.pc .beginning)).Settling :=
    h.goOn (by rfl) (by simp) _
  exact hgoOn

theorem Settling.step {batchSize : Nat → Nat} {action : OutboxAction} (h : w.Settling)
    (hstep : OutboxState.exec batchSize w action = some w') : w'.Settling := by
  cases action with
  | write id entry payload =>
    obtain ⟨-, heq⟩ := Option.ite_none_left_eq_some.mp hstep
    cases heq
    exact h
  | start r =>
    simp only [OutboxState.exec] at hstep
    split at hstep
    · simp at hstep
    · cases hstep
      exact h.start r
  | returned r rows now =>
    simp only [OutboxState.exec] at hstep
    split at hstep
    · rename_i pc tx hrelay
      exact h.returned (h r pc tx hrelay) hstep
    · simp at hstep
  | raised r exc applied =>
    simp only [OutboxState.exec] at hstep
    split at hstep
    · rename_i pc tx hrelay
      cases hstep
      exact h.raised (h r pc tx hrelay)
    · simp at hstep

end OutboxState

/-! ## The rows of a state -/

/-- The rows are what the writers inserted, with one row for each `message_id`, and every send is
one of a row. -/
structure Rows (table : Table) (trace : TxTrace) : Prop where
  messageIds : (table.map (·.row.messageId)).Nodup
  published : ∀ stored ∈ table, stored.publishedAt.isSome = true ↔ stored.status = .published
  sent : ∀ n id message acked, (n, .sent id message acked) ∈ trace →
    ∃ stored ∈ table, stored.row.id = id ∧ stored.row.message = message

/-- What a step keeps of the table: the rows with their content, and those that are settled as they
are, with nothing new sent for them. -/
structure Advances (table : Table) (trace : TxTrace) (table' : Table) (trace' : TxTrace) :
    Prop where
  rows : table.map (·.row) <+: table'.map (·.row)
  kept : ∀ stored ∈ table, ∃ stored' ∈ table', stored'.row = stored.row ∧
    stored'.createdAt = stored.createdAt ∧ (stored.status ≠ .pending → stored' = stored)
  unsent : ∀ stored ∈ table, stored.status ≠ .pending →
    trace'.filter (·.2.sends stored.row.id) = trace.filter (·.2.sends stored.row.id)

theorem Advances.refl (table : Table) (trace : TxTrace) : Advances table trace table trace where
  rows := List.prefix_rfl
  kept := fun stored hstored => ⟨stored, hstored, rfl, rfl, fun _ => rfl⟩
  unsent := fun _ _ _ => rfl

theorem Advances.trans {table table' table'' : Table} {trace trace' trace'' : TxTrace}
    (h : Advances table trace table' trace') (h' : Advances table' trace' table'' trace'') :
    Advances table trace table'' trace'' where
  rows := h.rows.trans h'.rows
  kept := by
    intro stored hstored
    obtain ⟨stored', hstored', hrow, hcreated, hsame⟩ := h.kept stored hstored
    obtain ⟨stored'', hstored'', hrow', hcreated', hsame'⟩ := h'.kept stored' hstored'
    refine ⟨stored'', hstored'', hrow'.trans hrow, hcreated'.trans hcreated, fun hsettled => ?_⟩
    obtain rfl := hsame hsettled
    exact hsame' hsettled
  unsent := by
    intro stored hstored hsettled
    obtain ⟨stored', hstored', hrow, -, hsame⟩ := h.kept stored hstored
    obtain rfl := hsame hsettled
    exact (h'.unsent _ hstored' hsettled).trans (h.unsent _ hstored hsettled)

/-! ## What every run keeps -/

theorem Table.insert_fresh {table : Table} {id : Nat} {entry : OutboxEntry} {payload : String}
    {stored : Stored} (h : stored ∈ table.insert id entry payload) : stored ∈ table ∨
      stored.status = .pending ∧ stored.publishedAt = none := by
  unfold Table.insert at h
  split at h
  · exact .inl h
  · rcases List.mem_append.mp h with hold | hnew
    · exact .inl hold
    · rw [List.mem_singleton.mp hnew]
      exact .inr ⟨rfl, rfl⟩

theorem Table.insert_messageIds {table : Table} (id : Nat) (entry : OutboxEntry) (payload : String)
    (h : (table.map (·.row.messageId)).Nodup) :
    ((table.insert id entry payload).map (·.row.messageId)).Nodup := by
  unfold Table.insert
  split
  · exact h
  · rename_i hnone
    rw [List.map_append]
    refine List.Nodup.append h (List.nodup_singleton _) ?_
    intro messageId hold hnew
    obtain ⟨stored, hstored, rfl⟩ := List.mem_map.mp hold
    exact hnone ⟨stored, hstored, List.mem_singleton.mp hnew⟩

theorem Table.mem_insert {table : Table} {stored : Stored} (id : Nat) (entry : OutboxEntry)
    (payload : String) (h : stored ∈ table) : stored ∈ table.insert id entry payload := by
  rcases table.insert_cases id entry payload with heq | ⟨new, -, -, heq⟩
  · rw [heq]
    exact h
  · rw [heq]
    exact List.mem_append_left _ h

theorem Update.Settles.updated {update : Update} {stored : Stored} (h : update.Settles)
    (hnone : stored.publishedAt = none) :
    (stored.updated update).publishedAt.isSome = true ↔
      (stored.updated update).status = .published := by
  unfold Stored.updated
  rcases h with ⟨hstatus, hsome⟩ | ⟨hstatus, heq⟩
  · simp [hstatus, hsome]
  · simp [hstatus, heq, hnone]

theorem Ledger.pending_of_locked {w : OutboxState} (h : Ledger w) {n : Nat} {stored : Stored}
    (hlock : (n, stored.row.id) ∈ w.locks) (hstored : stored ∈ w.table) :
    stored.status = .pending := by
  obtain ⟨stored', hstored', hid, hpending⟩ := h.pending n _ hlock
  obtain rfl := h.row_unique hstored hstored' hid.symm
  exact hpending

theorem Deed.rows {w : OutboxState} {table : Table} {trace : TxTrace} (h : Deed w table trace)
    (hledger : Ledger w) (hrows : Rows w.table w.trace) : Rows table trace := by
  cases h with
  | quiet => exact hrows
  | @wrote id entry payload hid =>
    refine ⟨w.table.insert_messageIds id entry payload hrows.messageIds, ?_, ?_⟩
    · intro stored hstored
      rcases Table.insert_fresh hstored with hold | ⟨hpending, hnone⟩
      · exact hrows.published stored hold
      · simp [hpending, hnone]
    · intro n id' message acked hsent
      obtain ⟨stored, hstored, hcontent⟩ := hrows.sent n id' message acked hsent
      exact ⟨stored, Table.mem_insert id entry payload hstored, hcontent⟩
  | @sent n row acked hrow hlock =>
    refine ⟨hrows.messageIds, hrows.published, ?_⟩
    intro n' id message acked' hsent
    rcases List.mem_cons.mp hsent with heq | hold
    · cases heq
      obtain ⟨stored, hstored, rfl⟩ := List.mem_map.mp hrow
      exact ⟨stored, hstored, rfl, rfl⟩
    · exact hrows.sent n' id message acked' hold
  | @noted n event hevent =>
    refine ⟨hrows.messageIds, hrows.published, ?_⟩
    intro n' id message acked hsent
    rcases List.mem_cons.mp hsent with heq | hold
    · cases heq
      simpa [TxEvent.sends] using hevent id
    · exact hrows.sent n' id message acked hold
  | @committed tx hlocked hsettles =>
    -- COMMIT changes statuses only: the rows themselves stay as they were inserted.
    have hcontent : (w.table.apply tx.updates).map (·.row) = w.table.map (·.row) :=
      w.table.apply_rows tx.updates
    refine ⟨?_, ?_, ?_⟩
    · have hids := congrArg (List.map OutboxRow.messageId) hcontent
      simp only [List.map_map, Function.comp_def] at hids
      rw [hids]
      exact hrows.messageIds
    · intro stored hstored
      rcases Table.mem_apply hstored with ⟨hold, -⟩ | ⟨old, hold, update, hupdate, hid, rfl⟩
      · exact hrows.published stored hold
      · -- The lock says that the row was PENDING, so that it had no `published_at`.
        have hpending := hledger.pending_of_locked (hid ▸ hlocked update hupdate) hold
        refine (hsettles update hupdate).updated ?_
        have hnot := (hrows.published old hold).not.mpr (by simp [hpending])
        simpa using hnot
    · intro n id message acked hsent
      rcases List.mem_cons.mp hsent with heq | hold
      · cases heq
      · obtain ⟨stored, hstored, rfl, rfl⟩ := hrows.sent n id message acked hold
        have hmem : stored.row ∈ (w.table.apply tx.updates).map (·.row) :=
          hcontent ▸ List.mem_map_of_mem hstored
        obtain ⟨stored', hstored', heq⟩ := List.mem_map.mp hmem
        exact ⟨stored', hstored', by rw [heq], by rw [heq]⟩

theorem Deed.advances {w : OutboxState} {table : Table} {trace : TxTrace} (h : Deed w table trace)
    (hledger : Ledger w) : Advances w.table w.trace table trace := by
  cases h with
  | quiet => exact .refl _ _
  | @wrote id entry payload hid =>
    refine ⟨?_, ?_, fun _ _ _ => rfl⟩
    · rcases w.table.insert_cases id entry payload with heq | ⟨new, -, -, heq⟩
      · simp [heq]
      · rw [heq, List.map_append]
        exact List.prefix_append _ _
    · intro stored hstored
      exact ⟨stored, Table.mem_insert id entry payload hstored, rfl, rfl, fun _ => rfl⟩
  | @sent n row acked hrow hlock =>
    refine { Advances.refl w.table w.trace with unsent := ?_ }
    intro stored hstored hsettled
    have hne : row.id ≠ stored.row.id := by
      intro heq
      exact hsettled (hledger.pending_of_locked (heq ▸ hlock) hstored)
    rw [List.filter_cons_of_neg (by simpa [TxEvent.sends] using hne)]
  | @noted n event hevent =>
    refine { Advances.refl w.table w.trace with unsent := ?_ }
    intro stored hstored hsettled
    rw [List.filter_cons_of_neg (by simp [hevent])]
  | @committed tx hlocked hsettles =>
    refine ⟨?_, ?_, ?_⟩
    · simp [Table.apply_rows]
    · intro stored hstored
      rcases Table.apply_of_mem tx.updates hstored with ⟨update, hupdate, hid, hmem⟩ | ⟨-, hmem⟩
      · refine ⟨_, hmem, rfl, rfl, fun hsettled => ?_⟩
        exact absurd (hledger.pending_of_locked (hid ▸ hlocked update hupdate) hstored) hsettled
      · exact ⟨stored, hmem, rfl, rfl, fun _ => rfl⟩
    · intro stored hstored hsettled
      rw [List.filter_cons_of_neg (by simp [TxEvent.sends])]

theorem settling_of_reach {batchSize : Nat → Nat} {w : OutboxState}
    (h : Reach (outboxSystem batchSize) w) : w.Settling := by
  refine h.invariant OutboxState.Settling ?_ ?_
  · rintro _ rfl r pc tx hrelay
    simp [OutboxState.empty] at hrelay
  · exact fun _ _ _ _ hsettling hstep => hsettling.step hstep

theorem deed_of_reach {batchSize : Nat → Nat} {w w' : OutboxState} {action : OutboxAction}
    (h : Reach (outboxSystem batchSize) w) (hstep : (outboxSystem batchSize).step w action w') :
    Deed w w'.table w'.trace :=
  (outboxInv_of_reach h).deed (settling_of_reach h) hstep

theorem rows_of_reach {batchSize : Nat → Nat} {w : OutboxState}
    (h : Reach (outboxSystem batchSize) w) : Rows w.table w.trace := by
  refine h.invariant (fun w => Rows w.table w.trace) ?_ ?_
  · rintro _ rfl
    exact ⟨List.nodup_nil, by simp [OutboxState.empty], by simp [OutboxState.empty]⟩
  · intro w action w' hr hrows hstep
    exact (deed_of_reach hr hstep).rows (outboxInv_of_reach hr).ledger hrows

/-- In every run the table only grows, with one row for each `message_id`; `published_at` is set
with PUBLISHED and never else; and a row that was settled stays as it is and is not sent again. -/
theorem outbox_rows_final {batchSize : Nat → Nat} {w w' : OutboxState}
    (h : Reach (outboxSystem batchSize) w)
    (hrun : Reach ((outboxSystem batchSize).startingAt w) w') :
    Rows w'.table w'.trace ∧ Advances w.table w.trace w'.table w'.trace := by
  refine ⟨rows_of_reach (h.trans hrun), ?_⟩
  refine hrun.invariant (fun w' => Advances w.table w.trace w'.table w'.trace) ?_ ?_
  · rintro _ rfl
    exact .refl _ _
  · intro w₁ action w₂ hr hadvances hstep
    have hreach := h.trans hr
    exact hadvances.trans
      ((deed_of_reach hreach hstep).advances (outboxInv_of_reach hreach).ledger)

/-- One entry, one relay, and no failure. -/
def relayRun : List OutboxAction :=
  let row : OutboxRow := ⟨1, "orders", "order-123", "\x7b\x7d"⟩
  [.write 1 ⟨"orders", "order-123", [], 0⟩ row.payload, .start 0, .returned 0 [] 0,
    .returned 0 [row] 0, .returned 0 [] 0, .returned 0 [] 5, .returned 0 [] 0]

/-- After `relayRun`: the same entry once more, another one, and a relay whose send fails. -/
def secondRun : List OutboxAction :=
  let row : OutboxRow := ⟨3, "orders", "order-124", "\x7b\x7d"⟩
  [.write 2 ⟨"orders", "order-123", [], 9⟩ row.payload,
    .write 3 ⟨"orders", "order-124", [], 9⟩ row.payload, .start 1, .returned 1 [] 0,
    .returned 1 [row] 0, .raised 1 ⟨.exception "KafkaTimeoutError", ""⟩ false, .returned 1 [] 0,
    .returned 1 [] 0]

theorem outbox_rows_final_secondRun : ∃ w w' : OutboxState, w.table.map (·.status) = [.published] ∧
    w'.table.map (fun stored => (stored.row.id, stored.status)) = [(1, .published), (3, .failed)] ∧
    Rows w'.table w'.trace ∧ Advances w.table w.trace w'.table w'.trace := by
  have hruns : ((replay (OutboxState.exec fun _ => 100) (fun _ _ => true) .empty relayRun).bind
      fun w => (replay (OutboxState.exec fun _ => 100) (fun _ _ => true) w secondRun).map fun w' =>
        (w.table.map (·.status), w'.table.map fun stored => (stored.row.id, stored.status))) =
      some ([.published], [(1, .published), (3, .failed)]) := by
    decide
  obtain ⟨w, hw, hrun⟩ := Option.bind_eq_some_iff.mp hruns
  obtain ⟨w', hw', htables⟩ := Option.map_eq_some_iff.mp hrun
  obtain ⟨htable, htable'⟩ := Prod.mk.inj htables
  have hstart : Reach ((outboxSystem fun _ => 100).guard fun _ _ => True) .empty := .init rfl
  have hreach : Reach (outboxSystem fun _ => 100) w :=
    (reach_replay (fun _ => True) (fun _ _ _ _ _ _ => ⟨trivial, trivial⟩) hstart
      trivial hw).1.of_guard
  have hon : Reach (((outboxSystem fun _ => 100).startingAt w).guard fun _ _ => True) w := .init rfl
  have hreach' : Reach ((outboxSystem fun _ => 100).startingAt w) w' :=
    (reach_replay (fun _ => True) (fun _ _ _ _ _ _ => ⟨trivial, trivial⟩) hon
      trivial hw').1.of_guard
  obtain ⟨hrows, hadvances⟩ := outbox_rows_final hreach hreach'
  exact ⟨w, w', htable, htable', hrows, hadvances⟩

end MessageDedup
