import MessageDedup.Outbox.Ledger

/-!
# Publishing is sound and at most once

A row is PUBLISHED or FAILED as its send went in the transaction that marked it, and one send of a
row is acknowledged outside the transactions that rolled back.
-/

namespace MessageDedup

open Transition

/-! ## A batch at work -/

namespace RelayPc

/-- The rows that a batch still has to end. -/
def rows : RelayPc → List OutboxRow
  | sending row rest _ => row :: rest
  | markingPublished row rest _ => row :: rest
  | markingFailed row rest _ => row :: rest
  | _ => []

def unsent : RelayPc → List OutboxRow
  | sending row rest _ => row :: rest
  | markingPublished _ rest _ => rest
  | markingFailed _ rest _ => rest
  | _ => []

@[simp] theorem rows_loop (todo : List OutboxRow) (published : Nat) :
    (loop todo published).rows = todo := by
  cases todo <;> rfl

@[simp] theorem unsent_loop (todo : List OutboxRow) (published : Nat) :
    (loop todo published).unsent = todo := by
  cases todo <;> rfl

theorem loop_cases (todo : List OutboxRow) (published : Nat) :
    loop todo published = committing published ∧ todo = [] ∨
      ∃ row rest, todo = row :: rest ∧ loop todo published = sending row rest published := by
  cases todo with
  | nil => exact .inl ⟨rfl, rfl⟩
  | cons row rest => exact .inr ⟨row, rest, rfl, rfl⟩

end RelayPc

/-- The transaction can still commit, and its updates are what its sends were. -/
structure Batch (w : OutboxState) (pc : RelayPc) (tx : Tx) : Prop where
  alive : tx.aborted = false
  fresh : pc = .beginning ∨ pc = .fetching →
    tx.updates = [] ∧ ∀ event, (tx.number, event) ∉ w.trace
  rows : ∀ row ∈ pc.rows, row ∈ w.rows ∧ (tx.number, row.id) ∈ w.locks
  nodup : (pc.rows.map (·.id)).Nodup
  unsent : ∀ row ∈ pc.unsent, ∀ message acked,
    (tx.number, .sent row.id message acked) ∉ w.trace
  locked : ∀ update ∈ tx.updates, (tx.number, update.id) ∈ w.locks
  updates : ∀ update ∈ tx.updates, (tx.number, .marked update.id update.status) ∈ w.trace
  marked : ∀ id status, (tx.number, .marked id status) ∈ w.trace →
    (∀ row ∈ pc.rows, row.id ≠ id) ∧ SendOutcome w.rows w.trace tx.number id status
  acked : ∀ id message, (tx.number, .sent id message true) ∈ w.trace →
    (∃ row rest published, pc = .markingPublished row rest published ∧ row.id = id) ∨
      ∃ update ∈ tx.updates, update.id = id ∧ update.status = .published
  publishing : ∀ row rest published, pc = .markingPublished row rest published →
    (tx.number, .sent row.id row.message true) ∈ w.trace
  failing : ∀ row rest published, pc = .markingFailed row rest published →
    ∀ message, (tx.number, .sent row.id message true) ∉ w.trace

/-- The transaction can only be rolled back. -/
def Doomed (pc : RelayPc) (tx : Tx) : Prop :=
  (∃ exc, pc = .rollingBack exc) ∨
    tx.aborted = true ∧ ∃ row rest published, pc = .markingFailed row rest published

structure Working (w : OutboxState) (pc : RelayPc) (tx : Tx) : Prop where
  number : tx.number < w.nextTx
  opened : ¬ Closed w.trace tx.number
  batch : Doomed pc tx ∨ Batch w pc tx

theorem Working.frame {w w' : OutboxState} {pc : RelayPc} {tx : Tx} (h : Working w pc tx)
    (hnext : w.nextTx ≤ w'.nextTx) (hrows : ∀ row ∈ w.rows, row ∈ w'.rows)
    (hlocks : ∀ id, (tx.number, id) ∈ w.locks → (tx.number, id) ∈ w'.locks)
    (htrace : ∀ event, (tx.number, event) ∈ w'.trace ↔ (tx.number, event) ∈ w.trace) :
    Working w' pc tx where
  number := lt_of_lt_of_le h.number hnext
  opened := by
    unfold Closed
    rw [htrace, htrace]
    exact h.opened
  batch := by
    rcases h.batch with hdoomed | hbatch
    · exact .inl hdoomed
    · refine .inr { hbatch with
        fresh := ?_, rows := ?_, unsent := ?_, locked := ?_, updates := ?_, marked := ?_
        acked := ?_, publishing := ?_, failing := ?_ }
      · simp only [htrace]
        exact hbatch.fresh
      · intro row hrow
        exact ⟨hrows row (hbatch.rows row hrow).1, hlocks _ (hbatch.rows row hrow).2⟩
      · simp only [htrace]
        exact hbatch.unsent
      · exact fun update hupdate => hlocks _ (hbatch.locked update hupdate)
      · simp only [htrace]
        exact hbatch.updates
      · intro id status hmarked
        rw [htrace] at hmarked
        refine ⟨(hbatch.marked id status hmarked).1, ?_⟩
        have hout := (hbatch.marked id status hmarked).2.rows_mono hrows
        cases status with
        | pending => exact hout
        | published =>
          obtain ⟨row, hrow, hid, hsent⟩ := hout
          exact ⟨row, hrow, hid, (htrace _).mpr hsent⟩
        | failed => exact fun message hsent => hout message ((htrace _).mp hsent)
      · simp only [htrace]
        exact hbatch.acked
      · simp only [htrace]
        exact hbatch.publishing
      · simp only [htrace]
        exact hbatch.failing

/-! ## The end of a transaction -/

theorem mem_closed_locks {w : OutboxState} {tx : Tx} {commits : Bool} {n id : Nat} :
    (n, id) ∈ (w.close tx commits).locks ↔ (n, id) ∈ w.locks ∧ n ≠ tx.number := by
  simp [OutboxState.close]

theorem close_rows (w : OutboxState) (tx : Tx) (commits : Bool) :
    (w.close tx commits).rows = w.rows := by
  cases commits with
  | false => rfl
  | true => exact w.table.apply_rows tx.updates

theorem Ledger.kept {w : OutboxState} (h : Ledger w) {tx : Tx} {n : Nat} {stored : Stored}
    (hlocked : ∀ update ∈ tx.updates, (tx.number, update.id) ∈ w.locks)
    (hlock : (n, stored.row.id) ∈ w.locks) (hne : n ≠ tx.number) (hstored : stored ∈ w.table) :
    stored ∈ w.table.apply tx.updates := by
  rcases Table.apply_of_mem tx.updates hstored with ⟨update, hupdate, hid, -⟩ | ⟨-, hmem⟩
  · exact absurd (h.lock_unique (hid ▸ hlock) (hlocked update hupdate)) hne
  · exact hmem

theorem Ledger.close_number {w : OutboxState} (h : Ledger w) {tx : Tx} {commits : Bool}
    (hn : tx.number < w.nextTx) {n : Nat} {event : TxEvent}
    (hmem : (n, event) ∈ (w.close tx commits).trace) : n < w.nextTx := by
  rcases List.mem_cons.mp hmem with heq | hold
  · cases heq
    exact hn
  · exact h.traceNumber n event hold

theorem closed_close (w : OutboxState) (tx : Tx) (commits : Bool) :
    Closed (w.close tx commits).trace tx.number := by
  cases commits with
  | false => exact .inr List.mem_cons_self
  | true => exact .inl List.mem_cons_self

theorem Ledger.close_sent {w : OutboxState} (h : Ledger w) {tx : Tx} {commits : Bool} {n id : Nat}
    {message : Message} {acked : Bool}
    (hmem : (n, .sent id message acked) ∈ (w.close tx commits).trace) :
    (n, id) ∈ (w.close tx commits).locks ∨ Closed (w.close tx commits).trace n := by
  have hold : (n, TxEvent.sent id message acked) ∈ w.trace := by
    cases commits <;> simpa [OutboxState.close] using hmem
  rcases h.sent n id message acked hold with hlock | hclosed
  · rcases Nat.decEq n tx.number with hne | rfl
    · exact .inl (mem_closed_locks.mpr ⟨hlock, hne⟩)
    · exact .inr (closed_close w tx commits)
  · exact .inr (hclosed.cons _)

theorem Ledger.rollBack {w : OutboxState} (h : Ledger w) {tx : Tx} (hn : tx.number < w.nextTx) :
    Ledger (w.close tx false) where
  ids := h.ids
  locked := (List.filter_sublist.map _).nodup h.locked
  pending := fun n id hlock => h.pending n id (mem_closed_locks.mp hlock).1
  lockNumber := fun n id hlock => h.lockNumber n id (mem_closed_locks.mp hlock).1
  traceNumber := fun _ _ => h.close_number hn
  sent := fun _ _ _ _ => h.close_sent
  settled := by
    intro stored hstored hstatus
    obtain ⟨n, hc, hm⟩ := h.settled stored hstored hstatus
    exact ⟨n, List.mem_cons_of_mem _ hc, List.mem_cons_of_mem _ hm⟩
  outcome := by
    rintro n id status ⟨hc, hm⟩
    have hold : MarkedBy w.trace n id status := by
      simpa [OutboxState.close, MarkedBy] using And.intro hc hm
    rw [close_rows]
    exact (h.outcome n id status hold).cons (.inr (by simp))
  counted := by
    intro id
    refine counted_cons rfl (h.counted id) ?_
    rintro (⟨n, message, hsent, hlive⟩ | hstored)
    · rcases Nat.decEq n tx.number with hne | rfl
      · refine .inl (.inl ⟨n, message, List.mem_cons_of_mem _ hsent, fun hclosed => ?_⟩)
        exact hlive (closed_cons hclosed (.inl (Ne.symm hne)))
      · exact .inr (lost_rolledBack hsent)
    · exact .inl (.inr hstored)

theorem Batch.published {w : OutboxState} {published : Nat} {tx : Tx}
    (h : Batch w (.committing published) tx) (hledger : Ledger w) {id : Nat} {message : Message}
    (hsent : (tx.number, .sent id message true) ∈ w.trace) :
    ∃ stored ∈ w.table.apply tx.updates, stored.row.id = id ∧ stored.status = .published := by
  rcases h.acked id message hsent with ⟨_, _, _, hpc, -⟩ | ⟨update, hupdate, rfl, -⟩
  · simp at hpc
  · obtain ⟨stored, hstored, hid, -⟩ := hledger.pending _ _ (h.locked update hupdate)
    rcases Table.apply_of_mem tx.updates hstored with ⟨last, hlast, hlastId, hmem⟩ | ⟨hnone, -⟩
    · refine ⟨_, hmem, hid, ?_⟩
      -- The status that an update leaves is the outcome of the send in this transaction.
      have hout := (h.marked _ _ (h.updates last hlast)).2
      rw [hlastId, hid] at hout
      show last.status = .published
      cases hs : last.status with
      | published => rfl
      | pending =>
        rw [hs] at hout
        exact hout.elim
      | failed =>
        rw [hs] at hout
        exact absurd hsent (hout message)
    · exact absurd hid.symm (hnone update hupdate)

theorem Live.commit {w : OutboxState} {id published : Nat} {tx : Tx} (h : Live w id)
    (hledger : Ledger w) (hbatch : Batch w (.committing published) tx) :
    Live (w.close tx true) id := by
  rcases h with ⟨n, message, hsent, hlive⟩ | ⟨stored, hstored, rfl, hstatus⟩
  · rcases Nat.decEq n tx.number with hne | rfl
    · refine .inl ⟨n, message, List.mem_cons_of_mem _ hsent, fun hclosed => ?_⟩
      exact hlive (closed_cons hclosed (.inl (Ne.symm hne)))
    · exact .inr (hbatch.published hledger hsent)
  · rcases Table.apply_of_mem tx.updates hstored with ⟨update, hupdate, hid, -⟩ | ⟨-, hmem⟩
    · obtain ⟨stored', hstored', hid', hpending⟩ :=
        hledger.pending _ _ (hbatch.locked update hupdate)
      obtain rfl := hledger.row_unique hstored hstored' (hid.symm.trans hid'.symm)
      rw [hstatus] at hpending
      simp at hpending
    · exact .inr ⟨stored, hmem, rfl, hstatus⟩

theorem Ledger.commit {w : OutboxState} (h : Ledger w) {tx : Tx} {published : Nat}
    (hwork : Working w (.committing published) tx) (hbatch : Batch w (.committing published) tx) :
    Ledger (w.close tx true) := by
  have hbase := h.rollBack hwork.number
  refine { hbase with
    ids := w.table.apply_ids tx.updates ▸ h.ids
    pending := ?_, traceNumber := ?_, sent := ?_, settled := ?_, outcome := ?_, counted := ?_ }
  · intro n id hlock
    obtain ⟨hlock, hne⟩ := mem_closed_locks.mp hlock
    obtain ⟨stored, hstored, rfl, hstatus⟩ := h.pending n id hlock
    exact ⟨stored, h.kept hbatch.locked hlock hne hstored, rfl, hstatus⟩
  · exact fun _ _ => h.close_number hwork.number
  · exact fun _ _ _ _ => h.close_sent
  · intro stored hstored hstatus
    rcases Table.mem_apply hstored with ⟨hold, -⟩ | ⟨old, hold, update, hupdate, hid, rfl⟩
    · obtain ⟨n, hc, hm⟩ := h.settled stored hold hstatus
      exact ⟨n, List.mem_cons_of_mem _ hc, List.mem_cons_of_mem _ hm⟩
    · refine ⟨tx.number, List.mem_cons_self, List.mem_cons_of_mem _ ?_⟩
      have hmarked := hbatch.updates update hupdate
      rw [hid] at hmarked
      exact hmarked
  · rintro n id status ⟨hc, hm⟩
    have hm' : (n, TxEvent.marked id status) ∈ w.trace := by
      simpa [OutboxState.close] using hm
    rw [close_rows]
    refine SendOutcome.cons ?_ (.inr (by simp))
    rcases List.mem_cons.mp hc with heq | hold
    · cases heq
      exact (hbatch.marked id status hm').2
    · exact h.outcome n id status ⟨hold, hm'⟩
  · intro id
    exact counted_cons rfl (h.counted id) fun hlive => .inl (hlive.commit h hbatch)

/-! ## A batch goes on -/

theorem Batch.fetched {w : OutboxState} {tx : Tx} {limit : Nat} {rows : List OutboxRow}
    (h : Batch w .fetching tx) (hrows : w.Fetchable limit rows) :
    Batch (w.lock tx.number rows) (RelayPc.loop rows 0) tx := by
  obtain ⟨hupdates, hnone⟩ := h.fresh (.inr rfl)
  obtain ⟨-, hnodup, hfree⟩ := hrows
  have hpc : ∀ row rest published, RelayPc.loop rows 0 ≠ .markingPublished row rest published ∧
      RelayPc.loop rows 0 ≠ .markingFailed row rest published := by
    intro row rest published
    cases rows <;> simp [RelayPc.loop]
  refine ⟨h.alive, ?_, ?_, ?_, ?_, ?_, ?_, ?_, ?_, ?_, ?_⟩
  · exact fun _ => ⟨hupdates, hnone⟩
  · intro row hrow
    rw [RelayPc.rows_loop] at hrow
    obtain ⟨⟨stored, hstored, heq, -⟩, -⟩ := hfree row hrow
    refine ⟨heq ▸ List.mem_map_of_mem hstored, List.mem_append_left _ ?_⟩
    exact List.mem_map_of_mem hrow
  · rw [RelayPc.rows_loop]
    exact hnodup
  · exact fun _ _ _ _ => hnone _
  · rw [hupdates]
    simp
  · rw [hupdates]
    simp
  · exact fun _ _ hmarked => absurd hmarked (hnone _)
  · exact fun _ _ hsent => absurd hsent (hnone _)
  · exact fun row rest published heq => absurd heq (hpc row rest published).1
  · exact fun row rest published heq => absurd heq (hpc row rest published).2

theorem Batch.sent {w : OutboxState} {tx : Tx} {row : OutboxRow} {rest : List OutboxRow}
    {published : Nat} {acked : Bool} (h : Batch w (.sending row rest published) tx) :
    Batch (w.log tx.number (.sent row.id row.message acked))
      (if acked then .markingPublished row rest published
        else .markingFailed row rest published) tx := by
  have hnodup : row.id ∉ rest.map (·.id) ∧ (rest.map (·.id)).Nodup := List.nodup_cons.mp h.nodup
  have hrows : ∀ {pc : RelayPc}, pc = (if acked then .markingPublished row rest published
      else .markingFailed row rest published) → pc.rows = row :: rest ∧ pc.unsent = rest := by
    rintro _ rfl
    cases acked <;> exact ⟨rfl, rfl⟩
  have hunsent := h.unsent row List.mem_cons_self
  refine ⟨h.alive, ?_, ?_, ?_, ?_, h.locked, ?_, ?_, ?_, ?_, ?_⟩
  · cases acked <;> simp
  · rw [(hrows rfl).1]
    exact h.rows
  · rw [(hrows rfl).1]
    exact h.nodup
  · rw [(hrows rfl).2]
    intro other hother message acked' hmem
    rcases List.mem_cons.mp hmem with heq | hold
    · simp only [Prod.mk.injEq, TxEvent.sent.injEq, true_and] at heq
      exact hnodup.1 (heq.1 ▸ List.mem_map_of_mem hother)
    · exact h.unsent other (List.mem_cons_of_mem _ hother) message acked' hold
  · exact fun update hupdate => List.mem_cons_of_mem _ (h.updates update hupdate)
  -- A mark of this transaction is about another row than the one just sent.
  · intro id status hmem
    rw [(hrows rfl).1]
    have hold : (tx.number, TxEvent.marked id status) ∈ w.trace := by
      simpa [OutboxState.log] using hmem
    obtain ⟨hother, hout⟩ := h.marked id status hold
    refine ⟨hother, hout.cons (.inr fun message heq => ?_)⟩
    simp only [TxEvent.sent.injEq] at heq
    exact hother row List.mem_cons_self heq.1
  · intro id message hmem
    rcases List.mem_cons.mp hmem with heq | hold
    · simp only [Prod.mk.injEq, TxEvent.sent.injEq, true_and] at heq
      obtain ⟨rfl, -, rfl⟩ := heq
      exact .inl ⟨row, rest, published, rfl, rfl⟩
    · rcases h.acked id message hold with ⟨_, _, _, hpc, -⟩ | hupdate
      · simp at hpc
      · exact .inr hupdate
  · intro row' rest' published' hpc
    cases acked with
    | false => cases hpc
    | true =>
      cases hpc
      exact List.mem_cons_self
  -- A refused send is followed by the FAILED mark, and no send of the row was acknowledged.
  · intro row' rest' published' hpc message hmem
    cases acked with
    | true => cases hpc
    | false =>
      cases hpc
      rcases List.mem_cons.mp hmem with heq | hold
      · simp at heq
      · exact hunsent message true hold

theorem Batch.settle {w : OutboxState} {pc : RelayPc} {tx : Tx} {row : OutboxRow}
    {rest : List OutboxRow} {update : Update} (h : Batch w pc tx) (hid : update.id = row.id)
    (hrows : pc.rows = row :: rest) (hunsent : pc.unsent = rest)
    (hout : SendOutcome w.rows w.trace tx.number row.id update.status) (published : Nat) :
    Batch (w.log tx.number (.marked row.id update.status)) (RelayPc.loop rest published)
      (tx.update update) := by
  have hin : ∀ other ∈ rest, other ∈ pc.rows := fun other hother => by
    rw [hrows]
    exact List.mem_cons_of_mem _ hother
  have hnodup : row.id ∉ rest.map (·.id) ∧ (rest.map (·.id)).Nodup := by
    have hall := h.nodup
    rw [hrows] at hall
    exact List.nodup_cons.mp hall
  have hpc := RelayPc.loop_cases rest published
  refine ⟨h.alive, ?_, ?_, ?_, ?_, ?_, ?_, ?_, ?_, ?_, ?_⟩
  · rcases hpc with ⟨hpc, -⟩ | ⟨_, _, -, hpc⟩ <;> simp [hpc]
  · rw [RelayPc.rows_loop]
    exact fun other hother => h.rows other (hin other hother)
  · rw [RelayPc.rows_loop]
    exact hnodup.2
  · rw [RelayPc.unsent_loop]
    intro other hother message acked hmem
    have hold : (tx.number, TxEvent.sent other.id message acked) ∈ w.trace := by
      simpa [OutboxState.log, Tx.update] using hmem
    exact h.unsent other (hunsent ▸ hother) message acked hold
  · intro update' hupdate
    rcases List.mem_cons.mp hupdate with rfl | hold
    · rw [hid]
      exact (h.rows row (hrows ▸ List.mem_cons_self)).2
    · exact h.locked update' hold
  · intro update' hupdate
    rcases List.mem_cons.mp hupdate with rfl | hold
    · rw [hid]
      exact List.mem_cons_self
    · exact List.mem_cons_of_mem _ (h.updates update' hold)
  · intro id status hmem
    rw [RelayPc.rows_loop]
    rcases List.mem_cons.mp hmem with heq | hold
    · simp only [Prod.mk.injEq, TxEvent.marked.injEq] at heq
      obtain ⟨-, rfl, rfl⟩ := heq
      refine ⟨fun other hother heq => hnodup.1 (heq ▸ List.mem_map_of_mem hother), ?_⟩
      exact hout.cons (.inr (by simp))
    · obtain ⟨hother, hout'⟩ := h.marked id status hold
      exact ⟨fun other hmem => hother other (hin other hmem), hout'.cons (.inr (by simp))⟩
  · intro id message hmem
    have hold : (tx.number, TxEvent.sent id message true) ∈ w.trace := by
      simpa [OutboxState.log, Tx.update] using hmem
    right
    -- An acknowledged send of this row is settled now, the others were before.
    rcases h.acked id message hold with ⟨row', rest', published', rfl, rfl⟩ | ⟨update', hmem', hrow⟩
    · cases hrows
      refine ⟨update, List.mem_cons_self, hid, ?_⟩
      cases hs : update.status with
      | published => rfl
      | pending =>
        rw [hs] at hout
        exact hout.elim
      | failed =>
        rw [hs] at hout
        exact absurd hold (hout message)
    · exact ⟨update', List.mem_cons_of_mem _ hmem', hrow⟩
  · intro row' rest' published' heq
    rcases hpc with ⟨hpc, -⟩ | ⟨_, _, -, hpc⟩ <;> rw [hpc] at heq <;> cases heq
  · intro row' rest' published' heq
    rcases hpc with ⟨hpc, -⟩ | ⟨_, _, -, hpc⟩ <;> rw [hpc] at heq <;> cases heq

/-! ## A step of a relay -/

/-- Transaction `n` has acted: nothing of the other transactions has changed. -/
structure ActedBy (n : Nat) (w w' : OutboxState) : Prop where
  relays : w'.relays = w.relays
  nextTx : w'.nextTx = w.nextTx
  rows : w'.rows = w.rows
  locks : ∀ n' id, n' ≠ n → ((n', id) ∈ w'.locks ↔ (n', id) ∈ w.locks)
  trace : ∀ n' event, n' ≠ n → ((n', event) ∈ w'.trace ↔ (n', event) ∈ w.trace)

namespace ActedBy

variable {w : OutboxState}

theorem refl (n : Nat) (w : OutboxState) : ActedBy n w w :=
  ⟨rfl, rfl, rfl, fun _ _ _ => Iff.rfl, fun _ _ _ => Iff.rfl⟩

theorem log (n : Nat) (event : TxEvent) : ActedBy n w (w.log n event) :=
  ⟨rfl, rfl, rfl, fun _ _ _ => Iff.rfl, fun n' event' hne => by simp [OutboxState.log, hne]⟩

theorem lock (n : Nat) (rows : List OutboxRow) : ActedBy n w (w.lock n rows) := by
  refine ⟨rfl, rfl, rfl, fun n' id hne => ?_, fun _ _ _ => Iff.rfl⟩
  simp only [OutboxState.lock, List.mem_append, List.mem_map, Prod.mk.injEq, or_iff_right_iff_imp]
  rintro ⟨row, -, rfl, -⟩
  exact absurd rfl hne

theorem close (tx : Tx) (commits : Bool) : ActedBy tx.number w (w.close tx commits) where
  relays := rfl
  nextTx := rfl
  rows := close_rows w tx commits
  locks := fun n' id hne => by simp [mem_closed_locks, hne]
  trace := fun n' event hne => by simp [OutboxState.close, hne]

end ActedBy

structure OutboxInv (w : OutboxState) : Prop where
  ledger : Ledger w
  working : ∀ r pc tx, w.relays r = some (pc, tx) → Working w pc tx
  distinct : ∀ r r' pc pc' tx tx', w.relays r = some (pc, tx) → w.relays r' = some (pc', tx') →
    tx.number = tx'.number → r = r'

theorem Ledger.put {w : OutboxState} (h : Ledger w) (r : Nat) (relay : Option (RelayPc × Tx)) :
    Ledger (w.put r relay) :=
  { h with }

theorem OutboxInv.goOn {w w' : OutboxState} (h : OutboxInv w) {r : Nat} {pc : RelayPc} {tx tx' : Tx}
    (hrelay : w.relays r = some (pc, tx)) (hact : ActedBy tx.number w w') (hledger : Ledger w')
    (hnumber : tx'.number = tx.number) {next : RelayNext}
    (hnext : ∀ pc', next = .pc pc' → Working w' pc' tx') : OutboxInv (w'.goOn r tx' next) := by
  obtain ⟨relay, hput, hworks⟩ : ∃ relay, w'.goOn r tx' next = w'.put r relay ∧
      ∀ pc' tx'', relay = some (pc', tx'') → tx'' = tx' ∧ Working w' pc' tx' := by
    cases next with
    | pc pc' =>
      refine ⟨some (pc', tx'), rfl, ?_⟩
      rintro _ _ ⟨⟩
      exact ⟨rfl, hnext pc' rfl⟩
    | done published => exact ⟨none, rfl, nofun⟩
    | raised exc => exact ⟨none, rfl, nofun⟩
  rw [hput]
  -- The other relays work on rows of their own.
  have hself : ∀ pc' tx'', (w'.put r relay).relays r = some (pc', tx'') →
      tx''.number = tx.number ∧ Working w' pc' tx'' := by
    intro pc' tx'' heq
    simp only [OutboxState.put, Function.update_self] at heq
    obtain ⟨rfl, hwork⟩ := hworks pc' tx'' heq
    exact ⟨hnumber, hwork⟩
  have hother : ∀ r' pc' tx'', r' ≠ r → (w'.put r relay).relays r' = some (pc', tx'') →
      w.relays r' = some (pc', tx'') := by
    intro r' pc' tx'' hne heq
    simpa [OutboxState.put, hne, hact.relays] using heq
  refine ⟨hledger.put r relay, ?_, ?_⟩
  · intro r' pc' tx'' heq
    rcases Nat.decEq r' r with hne | rfl
    · have hold := hother r' pc' tx'' hne heq
      have hne' : tx''.number ≠ tx.number := fun hsame =>
        hne (h.distinct r' r _ _ _ _ hold hrelay hsame)
      refine (h.working r' pc' tx'' hold).frame hact.nextTx.symm.le ?_ ?_ ?_
      · intro row hrow
        have hrow' : row ∈ w'.rows := hact.rows ▸ hrow
        exact hrow'
      · exact fun id hlock => (hact.locks _ id hne').mpr hlock
      · exact fun event => hact.trace _ event hne'
    · exact (hself pc' tx'' heq).2.frame le_rfl (fun _ hrow => hrow) (fun _ hlock => hlock)
        fun _ => Iff.rfl
  · intro a b pc' pc'' ta tb ha hb hsame
    rcases Nat.decEq a r with hane | rfl
    · rcases Nat.decEq b r with hbne | rfl
      · exact h.distinct a b _ _ _ _ (hother a _ _ hane ha) (hother b _ _ hbne hb) hsame
      · exact h.distinct a b _ _ _ _ (hother a _ _ hane ha) hrelay (hsame.trans (hself _ _ hb).1)
    · rcases Nat.decEq b a with hbne | rfl
      · exact h.distinct a b _ _ _ _ hrelay (hother b _ _ hbne hb)
          ((hself _ _ ha).1.symm.trans hsame)
      · rfl

theorem Working.next {w w' : OutboxState} {pc pc' : RelayPc} {tx tx' : Tx} (h : Working w pc tx)
    (hact : w'.nextTx = w.nextTx) (hnumber : tx'.number = tx.number)
    (hopen : ∀ event, (tx.number, event) ∈ w'.trace → (tx.number, event) ∈ w.trace ∨
      event ≠ .committed ∧ event ≠ .rolledBack)
    (hbatch : Doomed pc' tx' ∨ Batch w' pc' tx') : Working w' pc' tx' where
  number := by
    rw [hnumber, hact]
    exact h.number
  opened := by
    rw [hnumber]
    rintro (hc | hr)
    · exact h.opened (.inl ((hopen _ hc).resolve_right fun hne => hne.1 rfl))
    · exact h.opened (.inr ((hopen _ hr).resolve_right fun hne => hne.2 rfl))
  batch := hbatch

theorem doomed_afterError (row : OutboxRow) (rest : List OutboxRow) (published : Nat) (exc : Exc)
    (tx : Tx) : Doomed (RelayPc.afterError row rest published exc) tx.abort := by
  unfold RelayPc.afterError
  split
  · exact .inr ⟨rfl, row, rest, published, rfl⟩
  · exact .inl ⟨exc, rfl⟩

@[simp] theorem Tx.update_number (tx : Tx) (update : Update) :
    (tx.update update).number = tx.number := rfl
@[simp] theorem Tx.abort_number (tx : Tx) : tx.abort.number = tx.number := rfl

theorem Working.at {w : OutboxState} {pc : RelayPc} {tx : Tx} (h : Working w pc tx)
    (hpc : ∀ exc, pc ≠ .rollingBack exc)
    (hfailed : tx.aborted = false ∨ ∀ row rest published, pc ≠ .markingFailed row rest published) :
    Batch w pc tx := by
  refine h.batch.resolve_left ?_
  rintro (⟨exc, heq⟩ | ⟨haborted, row, rest, published, heq⟩)
  · exact hpc exc heq
  · rcases hfailed with hfalse | hne
    · rw [haborted] at hfalse
      simp at hfalse
    · exact hne row rest published heq

theorem log_keeps_open {w : OutboxState} {n : Nat} {event : TxEvent}
    (hevent : event ≠ .committed ∧ event ≠ .rolledBack) (event' : TxEvent)
    (hmem : (n, event') ∈ (w.log n event).trace) : (n, event') ∈ w.trace ∨
      event' ≠ .committed ∧ event' ≠ .rolledBack := by
  rcases List.mem_cons.mp hmem with heq | hold
  · cases heq
    exact .inr hevent
  · exact .inl hold

theorem Ledger.sends {w : OutboxState} (h : Ledger w) {tx : Tx} {row : OutboxRow}
    {rest : List OutboxRow} {published : Nat} {acked : Bool}
    (hwork : Working w (.sending row rest published) tx)
    (hbatch : Batch w (.sending row rest published) tx) :
    Ledger (w.log tx.number (.sent row.id row.message acked)) := by
  apply h.log hwork.number hwork.opened (by simp)
  rintro _ _ _ ⟨⟩
  have hlocked := (hbatch.rows row List.mem_cons_self).2
  exact ⟨hlocked, hbatch.unsent row List.mem_cons_self⟩

theorem OutboxInv.returned {w w' : OutboxState} (h : OutboxInv w) {limit r : Nat} {pc : RelayPc}
    {tx : Tx} {rows : List OutboxRow} {now : Int} (hrelay : w.relays r = some (pc, tx))
    (hstep : w.returned limit r tx rows now pc = some w') : OutboxInv w' := by
  have hwork := h.working r pc tx hrelay
  cases pc with
  | beginning =>
    -- BEGIN gives the batch its transaction; nothing is known of it before.
    cases hstep
    have hbatch := hwork.at (by simp) (.inr (by simp))
    refine h.goOn hrelay (.refl _ w) h.ledger rfl ?_
    rintro _ ⟨⟩
    refine hwork.next rfl rfl (fun _ hmem => .inl hmem) (.inr ?_)
    exact { hbatch with
      fresh := fun _ => hbatch.fresh (.inl rfl)
      acked := fun id message hsent => absurd hsent ((hbatch.fresh (.inl rfl)).2 _)
      publishing := nofun
      failing := nofun }
  | fetching =>
    -- The rows that are read are locked, and PENDING in the table.
    obtain ⟨hrows, heq⟩ := Option.ite_none_right_eq_some.mp hstep
    cases heq
    have hbatch := hwork.at (by simp) (.inr (by simp))
    refine h.goOn hrelay (.lock _ rows) (h.ledger.lock hwork.number hrows) rfl ?_
    rintro _ ⟨⟩
    exact hwork.next rfl rfl (fun _ hmem => .inl hmem) (.inr (hbatch.fetched hrows))
  | sending row rest published =>
    cases hstep
    have hbatch := hwork.at (by simp) (.inr (by simp))
    refine h.goOn hrelay (.log _ _) (h.ledger.sends hwork hbatch) rfl ?_
    rintro _ ⟨⟩
    exact hwork.next rfl rfl (log_keeps_open (by simp)) (.inr hbatch.sent)
  | markingPublished row rest published =>
    obtain ⟨-, heq⟩ := Option.ite_none_left_eq_some.mp hstep
    cases heq
    have hbatch := hwork.at (by simp) (.inr (by simp))
    have hout : SendOutcome w.rows w.trace tx.number row.id .published :=
      ⟨row, (hbatch.rows row List.mem_cons_self).1, rfl, hbatch.publishing row rest published rfl⟩
    refine h.goOn hrelay (.log _ (.marked row.id .published))
      (h.ledger.log hwork.number hwork.opened (by simp) ?_) (tx.update_number _) ?_
    · rintro _ _ _ ⟨⟩
    · rintro _ ⟨⟩
      refine hwork.next rfl rfl (log_keeps_open (by simp)) (.inr ?_)
      have hid : (markPublished now row.id).id = row.id := rfl
      exact hbatch.settle hid rfl rfl hout (published + 1)
  | markingFailed row rest published =>
    obtain ⟨halive, heq⟩ := Option.ite_none_left_eq_some.mp hstep
    cases heq
    have hbatch := hwork.at (by simp) (.inl (by simpa using halive))
    have hout : SendOutcome w.rows w.trace tx.number row.id .failed :=
      hbatch.failing row rest published rfl
    refine h.goOn hrelay (.log _ (.marked row.id .failed))
      (h.ledger.log hwork.number hwork.opened (by simp) ?_) (tx.update_number _) ?_
    · rintro _ _ _ ⟨⟩
    · rintro _ ⟨⟩
      refine hwork.next rfl rfl (log_keeps_open (by simp)) (.inr ?_)
      exact hbatch.settle (rfl : (markFailed row.id).id = row.id) rfl rfl hout published
  | committing published =>
    -- The updates reach the table here, under the locks taken by the SELECT.
    cases hstep
    have hbatch := hwork.at (by simp) (.inr (by simp))
    rw [hbatch.alive]
    exact h.goOn hrelay (.close tx true) (h.ledger.commit hwork hbatch) rfl nofun
  | rollingBack exc =>
    -- What the transaction did is dropped; the sends stay in the trace.
    cases hstep
    exact h.goOn hrelay (.close tx false) (h.ledger.rollBack hwork.number) rfl nofun

theorem OutboxInv.raised {w : OutboxState} (h : OutboxInv w) {limit r : Nat} {pc : RelayPc}
    {tx : Tx} {exc : Exc} {applied : Bool} (hrelay : w.relays r = some (pc, tx)) :
    OutboxInv (w.raised limit r tx exc applied pc) := by
  have hwork := h.working r pc tx hrelay
  unfold OutboxState.raised
  cases pc with
  | beginning =>
    refine h.goOn hrelay (.refl _ w) h.ledger rfl ?_
    rintro _ ⟨⟩
  | fetching =>
    refine h.goOn hrelay (.refl _ w) h.ledger tx.abort_number ?_
    rintro _ ⟨⟩
    exact hwork.next rfl rfl (fun _ hmem => .inl hmem) (.inl (.inl ⟨exc, rfl⟩))
  | sending row rest published =>
    have hbatch := hwork.at (by simp) (.inr (by simp))
    refine h.goOn hrelay (.log _ _) (h.ledger.sends hwork hbatch) rfl ?_
    rintro _ ⟨⟩
    refine hwork.next rfl rfl (log_keeps_open (by simp)) ?_
    unfold RelayPc.afterError
    split
    · exact .inr hbatch.sent
    · exact .inl (.inl ⟨exc, rfl⟩)
  | markingPublished row rest published =>
    -- The transaction is aborted: its `_MARK_FAILED_SQL` can only raise, and it is rolled back.
    refine h.goOn hrelay (.refl _ w) h.ledger tx.abort_number ?_
    rintro _ ⟨⟩
    exact hwork.next rfl rfl (fun _ hmem => .inl hmem) (.inl (doomed_afterError ..))
  | markingFailed row rest published =>
    refine h.goOn hrelay (.refl _ w) h.ledger tx.abort_number ?_
    rintro _ ⟨⟩
    exact hwork.next rfl rfl (fun _ hmem => .inl hmem) (.inl (.inl ⟨exc, rfl⟩))
  | committing published =>
    -- A `COMMIT` that raises may have been carried out.
    have hbatch := hwork.at (by simp) (.inr (by simp))
    cases applied with
    | false =>
      refine h.goOn hrelay (.close tx false) (h.ledger.rollBack hwork.number) rfl ?_
      rintro _ ⟨⟩
    | true =>
      have hclose : (true && !tx.aborted) = true := by simp [hbatch.alive]
      rw [hclose]
      refine h.goOn hrelay (.close tx true) (h.ledger.commit hwork hbatch) rfl ?_
      rintro _ ⟨⟩
  | rollingBack exc' =>
    refine h.goOn hrelay (.close tx false) (h.ledger.rollBack hwork.number) rfl ?_
    rintro _ ⟨⟩

theorem OutboxInv.start {w : OutboxState} (h : OutboxInv w) {r : Nat} (hidle : w.relays r = none) :
    OutboxInv { w.put r (some (.beginning, ⟨w.nextTx, [], false⟩)) with
      nextTx := w.nextTx + 1 } := by
  have hfresh : ∀ event, (w.nextTx, event) ∉ w.trace := fun event hmem =>
    lt_irrefl _ (h.ledger.traceNumber _ event hmem)
  have hbatch : Batch { w.put r (some (.beginning, ⟨w.nextTx, [], false⟩)) with
      nextTx := w.nextTx + 1 } .beginning ⟨w.nextTx, [], false⟩ := by
    refine ⟨rfl, fun _ => ⟨rfl, hfresh⟩, ?_, ?_, ?_, ?_, ?_, ?_, ?_, nofun, nofun⟩
    · simp [RelayPc.rows]
    · simp [RelayPc.rows]
    · simp [RelayPc.unsent]
    · simp
    · simp
    · exact fun _ _ hmarked => absurd hmarked (hfresh _)
    · exact fun _ _ hsent => absurd hsent (hfresh _)
  have hself : ∀ pc tx, (w.put r (some (.beginning, ⟨w.nextTx, [], false⟩))).relays r =
      some (pc, tx) → pc = .beginning ∧ tx = ⟨w.nextTx, [], false⟩ := by
    intro pc tx heq
    simp only [OutboxState.put, Function.update_self, Option.some.injEq, Prod.mk.injEq] at heq
    exact ⟨heq.1.symm, heq.2.symm⟩
  have hother : ∀ r' pc tx, r' ≠ r →
      (w.put r (some (.beginning, ⟨w.nextTx, [], false⟩))).relays r' = some (pc, tx) →
        w.relays r' = some (pc, tx) := by
    intro r' pc tx hne heq
    simpa [OutboxState.put, hne] using heq
  refine ⟨?_, ?_, ?_⟩
  · exact { h.ledger with
      lockNumber := fun n id hlock => Nat.lt_succ_of_lt (h.ledger.lockNumber n id hlock)
      traceNumber := fun n event hmem => Nat.lt_succ_of_lt (h.ledger.traceNumber n event hmem) }
  · intro r' pc tx heq
    rcases Nat.decEq r' r with hne | rfl
    · exact (h.working r' pc tx (hother r' pc tx hne heq)).frame (Nat.le_succ _)
        (fun _ hrow => hrow) (fun _ hlock => hlock) fun _ => Iff.rfl
    · obtain ⟨rfl, rfl⟩ := hself pc tx heq
      refine ⟨Nat.lt_succ_self _, ?_, .inr hbatch⟩
      rintro (hc | hr)
      · exact hfresh _ hc
      · exact hfresh _ hr
  -- Two relays share a transaction number only if they are the same one: the new number is fresh.
  · intro a b pc pc' tx tx' ha hb hsame
    rcases Nat.decEq a r with hane | rfl
    · have hlt := (h.working a pc tx (hother a _ _ hane ha)).number
      rcases Nat.decEq b r with hbne | rfl
      · exact h.distinct a b _ _ _ _ (hother a _ _ hane ha) (hother b _ _ hbne hb) hsame
      · obtain ⟨rfl, rfl⟩ := hself _ _ hb
        exact absurd hsame hlt.ne
    · rcases Nat.decEq b a with hbne | rfl
      · have hlt := (h.working b pc' tx' (hother b _ _ hbne hb)).number
        obtain ⟨rfl, rfl⟩ := hself _ _ ha
        exact absurd hsame.symm hlt.ne
      · rfl

theorem OutboxInv.write {w : OutboxState} (h : OutboxInv w) {id : Nat} {entry : OutboxEntry}
    {payload : String} (hid : id ∉ w.table.map (·.row.id)) :
    OutboxInv { w with table := w.table.insert id entry payload } := by
  refine ⟨h.ledger.insert hid, ?_, h.distinct⟩
  intro r pc tx hrelay
  refine (h.working r pc tx hrelay).frame le_rfl ?_ (fun _ hlock => hlock) fun _ => Iff.rfl
  intro row hrow
  show row ∈ (w.table.insert id entry payload).map (·.row)
  rcases w.table.insert_cases id entry payload with heq | ⟨new, -, -, heq⟩
  · rw [heq]
    exact hrow
  · rw [heq, List.map_append]
    exact List.mem_append_left _ hrow

theorem OutboxInv.step {batchSize : Nat → Nat} {w w' : OutboxState} {action : OutboxAction}
    (h : OutboxInv w) (hstep : OutboxState.exec batchSize w action = some w') : OutboxInv w' := by
  cases action with
  | write id entry payload =>
    obtain ⟨hid, heq⟩ := Option.ite_none_left_eq_some.mp hstep
    cases heq
    exact h.write hid
  | start r =>
    simp only [OutboxState.exec] at hstep
    split at hstep
    · simp at hstep
    · rename_i hidle
      cases hstep
      exact h.start hidle
  | returned r rows now =>
    simp only [OutboxState.exec] at hstep
    split at hstep
    · rename_i pc tx hrelay
      exact h.returned hrelay hstep
    · simp at hstep
  | raised r exc applied =>
    simp only [OutboxState.exec] at hstep
    split at hstep
    · rename_i pc tx hrelay
      cases hstep
      exact h.raised hrelay
    · simp at hstep

theorem OutboxInv.empty : OutboxInv .empty := by
  have hidle : ∀ r pc tx, OutboxState.empty.relays r ≠ some (pc, tx) := by
    intro r pc tx h
    simp [OutboxState.empty] at h
  refine ⟨?_, fun r pc tx h => (hidle r pc tx h).elim,
    fun r _ pc _ tx _ h => (hidle r pc tx h).elim⟩
  refine ⟨List.nodup_nil, List.nodup_nil, ?_, ?_, ?_, ?_, ?_, ?_, ?_⟩
  · simp [OutboxState.empty]
  · simp [OutboxState.empty]
  · simp [OutboxState.empty]
  · simp [OutboxState.empty]
  · simp [OutboxState.empty]
  · simp [OutboxState.empty, MarkedBy]
  · simp [OutboxState.empty, acks]

theorem outboxInv_of_reach {batchSize : Nat → Nat} {w : OutboxState}
    (h : Reach (outboxSystem batchSize) w) : OutboxInv w := by
  refine h.invariant OutboxInv ?_ ?_
  · rintro _ rfl
    exact .empty
  · exact fun _ _ _ _ hinv hstep => hinv.step hstep

/-! ## Every committed state -/

/-- In every committed state the PUBLISHED rows were acknowledged in the transaction that marked
them, the FAILED rows were not, and a row has one acknowledged send more than transactions that sent
it and rolled back, at most. -/
theorem publishing_sound {batchSize : Nat → Nat} {w : OutboxState}
    (h : Reach (outboxSystem batchSize) w) :
    (∀ stored ∈ w.table, stored.status = .published →
      (∃ n, MarkedBy w.trace n stored.row.id .published) ∧
        ∀ n, MarkedBy w.trace n stored.row.id .published →
          (n, .sent stored.row.id stored.row.message true) ∈ w.trace) ∧
    (∀ stored ∈ w.table, stored.status = .failed →
      (∃ n, MarkedBy w.trace n stored.row.id .failed) ∧
        ∀ n, MarkedBy w.trace n stored.row.id .failed →
          ∀ message, (n, .sent stored.row.id message true) ∉ w.trace) ∧
    ∀ id, acks id w.trace ≤ 1 + lost id w.trace := by
  have hledger := (outboxInv_of_reach h).ledger
  refine ⟨?_, ?_, ?_⟩
  · intro stored hstored hstatus
    constructor
    · have hmarked := hledger.settled stored hstored (by rw [hstatus]; simp)
      rw [hstatus] at hmarked
      exact hmarked
    · intro n hmarked
      obtain ⟨row, hrow, hid, hsent⟩ := hledger.outcome n _ _ hmarked
      obtain ⟨stored', hstored', rfl⟩ := List.mem_map.mp hrow
      obtain rfl := hledger.row_unique hstored' hstored hid
      exact hsent
  · intro stored hstored hstatus
    constructor
    · have hmarked := hledger.settled stored hstored (by rw [hstatus]; simp)
      rw [hstatus] at hmarked
      exact hmarked
    · exact fun n hmarked => hledger.outcome n _ _ hmarked
  · intro id
    rcases hledger.counted id with hle | ⟨hle, -⟩
    · omega
    · omega

/-- Two relays with a row each. The first one sends its row and is rolled back, and publishes it in
a second batch; the send of the other one fails. -/
def twoRelays : List OutboxAction :=
  let first : OutboxRow := ⟨1, "orders", "order-123", "\x7b\x7d"⟩
  let second : OutboxRow := ⟨2, "orders", "order-124", "\x7b\x7d"⟩
  let down : Exc := ⟨.exception "ConnectionDoesNotExistError", "connection was closed"⟩
  [.write 1 ⟨"orders", "order-123", [], 0⟩ first.payload,
    .write 2 ⟨"orders", "order-124", [], 0⟩ second.payload,
    .start 0, .returned 0 [] 0, .returned 0 [first] 0,
    .start 1, .returned 1 [] 0, .returned 1 [second] 0,
    .returned 0 [] 0, .raised 1 ⟨.exception "KafkaTimeoutError", "KafkaTimeoutError"⟩ false,
    .raised 0 down false, .returned 1 [] 0, .raised 0 down false, .returned 1 [] 0,
    .returned 0 [] 0,
    .start 0, .returned 0 [] 0, .returned 0 [first] 0, .returned 0 [] 0, .returned 0 [] 5,
    .returned 0 [] 0]

theorem publishing_sound_relayRun : ∃ w, Reach (outboxSystem fun _ => 1) w ∧
    ∃ first second, first ∈ w.table ∧ second ∈ w.table ∧
      first.status = .published ∧ second.status = .failed ∧
      (∃ n, MarkedBy w.trace n first.row.id .published ∧
        (n, .sent first.row.id first.row.message true) ∈ w.trace) ∧
      (∃ n, MarkedBy w.trace n second.row.id .failed ∧
        ∀ message, (n, .sent second.row.id message true) ∉ w.trace) ∧
      acks first.row.id w.trace = 2 ∧ 2 ≤ 1 + lost first.row.id w.trace := by
  have hrun : ((replay (OutboxState.exec fun _ => 1) (fun _ _ => true) .empty twoRelays).map
      fun w => (w.table.map fun stored => (stored.row.id, stored.status), acks 1 w.trace)) =
        some ([(1, .published), (2, .failed)], 2) := by
    decide
  obtain ⟨w, hw, hshown⟩ := Option.map_eq_some_iff.mp hrun
  obtain ⟨htable, hacks⟩ := Prod.mk.inj hshown
  have hstart : Reach ((outboxSystem fun _ => 1).guard fun _ _ => True) .empty := .init rfl
  have hreach : Reach (outboxSystem fun _ => 1) w :=
    (reach_replay (fun _ => True) (fun _ _ _ _ _ _ => ⟨trivial, trivial⟩) hstart
      trivial hw).1.of_guard
  obtain ⟨first, hfirst, heq⟩ : ∃ stored ∈ w.table,
      (stored.row.id, stored.status) = (1, OutboxStatus.published) :=
    List.mem_map.mp (htable ▸ List.mem_cons_self)
  obtain ⟨second, hsecond, heq'⟩ : ∃ stored ∈ w.table,
      (stored.row.id, stored.status) = (2, OutboxStatus.failed) :=
    List.mem_map.mp (htable ▸ List.mem_cons_of_mem _ List.mem_cons_self)
  obtain ⟨hid, hpublished⟩ := Prod.mk.inj heq
  obtain ⟨-, hfailed⟩ := Prod.mk.inj heq'
  rw [← hid] at hacks
  obtain ⟨hpublishes, hfails, hcount⟩ := publishing_sound hreach
  obtain ⟨⟨n, hmarked⟩, hsent⟩ := hpublishes first hfirst hpublished
  obtain ⟨⟨n', hmarked'⟩, hnone⟩ := hfails second hsecond hfailed
  exact ⟨w, hreach, first, second, hfirst, hsecond, hpublished, hfailed,
    ⟨n, hmarked, hsent n hmarked⟩, ⟨n', hmarked', hnone n' hmarked'⟩, hacks,
    hacks ▸ hcount first.row.id⟩

end MessageDedup
