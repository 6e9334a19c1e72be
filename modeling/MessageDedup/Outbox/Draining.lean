import Mathlib.Algebra.GroupWithZero.Nat
import MessageDedup.Outbox.Stranded

/-!
# The relay drains the outbox

`_process_batch` again and again, until a batch fetches nothing, by one relay that has the table to
itself.
-/

namespace MessageDedup

open Coroutine (Proc)

/-! ## Batch after batch -/

/-- How the send of each message fails, if it does, and the clock after so many sends. -/
structure Broker where
  errors : Message → Option ProducerError
  clock : Nat → Int

/-- `table` is committed, `updates` are those of the open transaction, `fetched` is what it has
fetched, and `sent` has the newest message first. -/
structure DrainEnv where
  table : Table
  updates : List Update
  fetched : List OutboxRow
  sent : List Message

def DrainEnv.answer (broker : Broker) (env : DrainEnv) :
    (c : RelayCall) → DrainEnv × Except Exc c.Reply
  | .begin => ({ env with updates := [], fetched := [] }, .ok ())
  | .fetch limit =>
    ({ env with fetched := env.table.fetch [] limit }, .ok (env.table.fetch [] limit))
  | .sendAndWait message =>
    ({ env with sent := message :: env.sent },
      match broker.errors message with
      | some exc => .error exc
      | none => .ok ())
  | .markPublished id =>
    ({ env with updates := markPublished (broker.clock env.sent.length) id :: env.updates },
      .ok ())
  | .markFailed id => ({ env with updates := markFailed id :: env.updates }, .ok ())
  | .commit => ({ env with table := env.table.apply env.updates, updates := [] }, .ok ())
  | .rollback => ({ env with updates := [] }, .ok ())

/-- The rows that a batch fetched, and what it returned. -/
structure BatchReport where
  fetched : List OutboxRow
  returned : Except Exc Nat

def DrainEnv.batch (batchSize : Nat) (broker : Broker) (env : DrainEnv) : DrainEnv × BatchReport :=
  let r := (processBatch batchSize).run (DrainEnv.answer broker) env
  (r.1, ⟨r.1.fetched, r.2.2⟩)

/-- The batches up to the first one that fetches nothing, if `fuel` batches are enough. -/
def drain (batchSize : Nat) (broker : Broker) :
    (fuel : Nat) → DrainEnv → Option (List BatchReport × DrainEnv)
  | 0, _ => none
  | fuel + 1, env =>
    let r := env.batch batchSize broker
    if r.2.fetched = [] then some ([], r.1)
    else (drain batchSize broker fuel r.1).map fun (reports, last) => (r.2 :: reports, last)

/-! ## One batch -/

namespace Broker

variable (broker : Broker)

def accepts (row : OutboxRow) : Bool := (broker.errors row.message).isNone

/-- The status that a row gets. -/
def verdict (row : OutboxRow) : OutboxStatus :=
  if broker.accepts row then .published else .failed

/-- The update of a row, when `n` messages have been sent. -/
def settle (n : Nat) (row : OutboxRow) : Update :=
  if broker.accepts row then markPublished (broker.clock n) row.id else markFailed row.id

end Broker

section

variable (broker : Broker) (env : DrainEnv)

theorem publishRow_runs (row : OutboxRow) :
    Proc.Runs (DrainEnv.answer broker) (publishRow row) env
      { env with
        sent := row.message :: env.sent
        updates := broker.settle (env.sent.length + 1) row :: env.updates }
      (.ok (broker.accepts row)) := by
  have hsend : Proc.Runs (DrainEnv.answer broker) (relayCall (.sendAndWait row.message)) env
      _ _ := .call _
  unfold publishRow Broker.settle Broker.accepts
  cases herror : broker.errors row.message with
  | none =>
    simp only [DrainEnv.answer, herror] at hsend
    exact (hsend.bind (.call _)).attempt (.pure true)
  | some exc =>
    simp only [DrainEnv.answer, herror] at hsend
    refine hsend.bind_error.attempt ?_
    simp only [rowDone, exc.2, if_true]
    exact Proc.Runs.bind (.call _) (.pure false)

/-- The updates of `rows`, one for each. -/
structure Settlement (broker : Broker) (rows : List OutboxRow) (updates : List Update) : Prop where
  all : ∀ row ∈ rows, ∃ update ∈ updates, update.id = row.id
  only : ∀ update ∈ updates, ∃ row ∈ rows, ∃ n, update = broker.settle n row

theorem publishRows_runs (rows : List OutboxRow) (published : Nat) :
    ∃ updates, Settlement broker rows updates ∧
      Proc.Runs (DrainEnv.answer broker) (publishRows rows published) env
        { env with
          sent := (rows.map (·.message)).reverse ++ env.sent
          updates := updates ++ env.updates }
        (.ok (published + rows.countP broker.accepts)) := by
  induction rows generalizing published env with
  | nil => exact ⟨[], ⟨nofun, nofun⟩, .pure published⟩
  | cons row rows ih =>
    -- One send and one update for the first row, in this order, before those of the rest.
    let update := broker.settle (env.sent.length + 1) row
    let env' : DrainEnv := { env with
      sent := row.message :: env.sent
      updates := update :: env.updates }
    let published' := if broker.accepts row then published + 1 else published
    obtain ⟨updates, hsettled, hrun⟩ := ih env' published'
    have hnext : (if broker.accepts row then publishRows rows (published + 1)
        else publishRows rows published) = publishRows rows published' :=
      (apply_ite (publishRows rows) _ _ _).symm
    have hcount : published' + rows.countP broker.accepts =
        published + (row :: rows).countP broker.accepts := by
      rw [List.countP_cons]
      simp only [published']
      split <;> omega
    refine ⟨updates ++ [update], ⟨?_, ?_⟩, (publishRow_runs broker env row).bind ?_⟩
    · rintro other hother
      rcases List.mem_cons.mp hother with rfl | hrest
      · refine ⟨update, by simp, ?_⟩
        simp only [update, Broker.settle]
        split <;> rfl
      · obtain ⟨u, hu, hid⟩ := hsettled.all other hrest
        exact ⟨u, List.mem_append_left _ hu, hid⟩
    · intro u hu
      rcases List.mem_append.mp hu with hrest | hlast
      · obtain ⟨other, hother, n, rfl⟩ := hsettled.only u hrest
        exact ⟨other, List.mem_cons_of_mem _ hother, n, rfl⟩
      · rw [List.mem_singleton] at hlast
        exact ⟨row, List.mem_cons_self, _, hlast⟩
    · rw [hnext, ← hcount]
      simp only [List.map_cons, List.reverse_cons, List.append_assoc, List.singleton_append]
      exact hrun

theorem closeTransaction_runs (published : Nat) :
    Proc.Runs (DrainEnv.answer broker) (closeTransaction (.ok published)) env
      { env with table := env.table.apply env.updates, updates := [] } (.ok published) :=
  Proc.Runs.bind (.call RelayCall.commit) (.pure published)

theorem batch_eq (batchSize : Nat) :
    let rows := env.table.fetch [] batchSize
    ∃ updates, Settlement broker rows updates ∧
      env.batch batchSize broker =
        (⟨env.table.apply updates, [], rows, (rows.map (·.message)).reverse ++ env.sent⟩,
          ⟨rows, .ok (rows.countP broker.accepts)⟩) := by
  intro rows
  let env' : DrainEnv := { env with updates := [], fetched := rows }
  obtain ⟨updates, hsettled, hrun⟩ := publishRows_runs broker env' rows 0
  refine ⟨updates, hsettled, ?_⟩
  rw [Nat.zero_add] at hrun
  have hloop : Proc.Runs (DrainEnv.answer broker)
      (do let rows ← relayCall (.fetch batchSize); publishRows rows 0)
      { env with updates := [], fetched := [] } _ _ := Proc.Runs.bind (.call _) hrun
  have hbatch : Proc.Runs (DrainEnv.answer broker) (processBatch batchSize) env _ _ :=
    Proc.Runs.bind (.call RelayCall.begin) (hloop.attempt (closeTransaction_runs broker _ _))
  unfold Proc.Runs at hbatch
  unfold DrainEnv.batch
  rw [hbatch]
  simp only [List.append_nil, env']

end

/-! ## The queue -/

/-- The PENDING rows of `table`, by id. -/
structure Queued (table : Table) (queue : List OutboxRow) : Prop where
  ordered : queue.Pairwise (·.id < ·.id)
  mem : ∀ row, row ∈ queue ↔ ∃ stored ∈ table, stored.row = row ∧ stored.status = .pending

section

variable {table : Table} {queue : List OutboxRow}

theorem Queued.nodup (h : Queued table queue) : queue.Nodup :=
  h.ordered.imp fun hlt heq => by simp [heq] at hlt

theorem Queued.ids_nodup (h : Queued table queue) : (queue.map (·.id)).Nodup :=
  List.pairwise_map.mpr (h.ordered.imp fun hlt => Nat.ne_of_lt hlt)

theorem pending_ids_nodup (hkeyed : table.Keyed) :
    (((table.filter (·.status = .pending)).map (·.row)).map (·.id)).Nodup := by
  rw [List.map_map]
  exact (List.filter_sublist.map _).nodup hkeyed

theorem Queued.perm (h : Queued table queue) (hkeyed : table.Keyed) :
    queue.Perm ((table.filter (·.status = .pending)).map (·.row)) := by
  rw [List.perm_ext_iff_of_nodup h.nodup (.of_map _ (pending_ids_nodup hkeyed))]
  intro row
  rw [h.mem]
  simp only [List.mem_map, List.mem_filter, decide_eq_true_eq]
  constructor
  · rintro ⟨stored, hstored, hrow, hpending⟩
    exact ⟨stored, ⟨hstored, hpending⟩, hrow⟩
  · rintro ⟨stored, ⟨hstored, hpending⟩, hrow⟩
    exact ⟨stored, hstored, hrow, hpending⟩

theorem Queued.length (h : Queued table queue) (hkeyed : table.Keyed) :
    queue.length = table.count .pending := by
  rw [(h.perm hkeyed).length_eq, List.length_map, Table.count, List.countP_eq_length_filter]

instance : Std.Total fun a b : OutboxRow => a.id ≤ b.id := ⟨fun a b => Nat.le_total a.id b.id⟩

instance : IsTrans OutboxRow fun a b => a.id ≤ b.id := ⟨fun _ _ _ => Nat.le_trans⟩

theorem exists_queued (hkeyed : table.Keyed) : ∃ queue, Queued table queue := by
  let rows := (table.filter (·.status = .pending)).map (·.row)
  let queue := rows.insertionSort fun a b => a.id ≤ b.id
  refine ⟨queue, ?_, fun row => ?_⟩
  · have hle : queue.Pairwise (·.id ≤ ·.id) := List.pairwise_insertionSort _ rows
    have hnodup : (queue.map (·.id)).Nodup :=
      ((List.perm_insertionSort _ rows).map _).nodup_iff.mpr (pending_ids_nodup hkeyed)
    refine (hle.and (List.pairwise_map.mp hnodup)).imp ?_
    rintro a b ⟨hle, hne⟩
    omega
  · simp only [queue, rows, List.mem_insertionSort, List.mem_map, List.mem_filter,
      decide_eq_true_eq, and_assoc, and_comm (a := _ = row)]

theorem Queued.fetch (h : Queued table queue) (hkeyed : table.Keyed) (limit : Nat) :
    table.fetch [] limit = queue.take limit := by
  let rows := (table.filter (·.status = .pending)).map (·.row)
  have hperm : (rows.insertionSort fun a b => a.id ≤ b.id).Perm queue :=
    (List.perm_insertionSort _ rows).trans (h.perm hkeyed).symm
  have hsorted : (rows.insertionSort fun a b => a.id ≤ b.id).Pairwise (·.id ≤ ·.id) :=
    List.pairwise_insertionSort _ rows
  have hordered : queue.Pairwise (·.id ≤ ·.id) := h.ordered.imp Nat.le_of_lt
  have hantisymm : ∀ a b : OutboxRow, a ∈ rows.insertionSort (fun a b => a.id ≤ b.id) →
      b ∈ queue → a.id ≤ b.id → b.id ≤ a.id → a = b := by
    intro a b ha hb hab hba
    have ha' := hperm.mem_iff.mp ha
    exact List.inj_on_of_nodup_map h.ids_nodup ha' hb (Nat.le_antisymm hab hba)
  have hsort := List.Perm.eq_of_pairwise hantisymm hsorted hordered hperm
  unfold Table.fetch
  simp only [List.not_mem_nil, not_false_eq_true, and_true]
  exact congrArg (List.take limit) hsort

end

/-! ## The rows that are left -/

section

variable {broker : Broker} {table : Table} {queue rows : List OutboxRow} {updates : List Update}

theorem Broker.settle_id (n : Nat) (row : OutboxRow) : (broker.settle n row).id = row.id := by
  unfold settle
  split <;> rfl

theorem Broker.settle_status (n : Nat) (row : OutboxRow) :
    (broker.settle n row).status = broker.verdict row := by
  unfold settle verdict
  split <;> rfl

theorem Broker.verdict_ne_pending (row : OutboxRow) : broker.verdict row ≠ .pending := by
  unfold verdict
  split <;> simp

/-- A stored row keeps everything but its status and its time of publication. -/
def Stored.SettledAs (broker : Broker) (stored stored' : Stored) : Prop :=
  stored'.row = stored.row ∧ stored'.createdAt = stored.createdAt ∧
    stored'.status = broker.verdict stored.row

theorem Settlement.of_mem (h : Settlement broker rows updates) (hids : (rows.map (·.id)).Nodup)
    {stored : Stored} (hrow : stored.row ∈ rows) :
    stored.SettledAs broker (stored.after updates) := by
  rcases stored.after_cases updates with ⟨update, hupdate, hid, heq⟩ | ⟨hnone, -⟩
  · obtain ⟨row, hmem, n, rfl⟩ := h.only update hupdate
    rw [Broker.settle_id] at hid
    obtain rfl := List.inj_on_of_nodup_map hids hmem hrow hid
    rw [heq]
    exact ⟨rfl, rfl, Broker.settle_status n _⟩
  · obtain ⟨update, hupdate, hid⟩ := h.all _ hrow
    exact absurd hid (hnone update hupdate)

theorem Settlement.of_notMem (h : Settlement broker rows updates) {stored : Stored}
    (hid : ∀ row ∈ rows, row.id ≠ stored.row.id) : stored.after updates = stored := by
  apply Table.after_of_notMem
  intro update hupdate
  obtain ⟨row, hmem, n, rfl⟩ := h.only update hupdate
  rw [Broker.settle_id]
  exact hid row hmem

theorem Queued.take_drop_ne (h : Queued table queue) {n : Nat} {row row' : OutboxRow}
    (hrow : row ∈ queue.take n) (hrow' : row' ∈ queue.drop n) : row.id ≠ row'.id := by
  have hordered := h.ordered
  rw [← List.take_append_drop n queue, List.pairwise_append] at hordered
  exact Nat.ne_of_lt (hordered.2.2 row hrow row' hrow')

theorem Queued.row_of_id (h : Queued table queue) (hkeyed : table.Keyed) {stored : Stored}
    (hstored : stored ∈ table) {row : OutboxRow} (hrow : row ∈ queue)
    (hid : row.id = stored.row.id) : row = stored.row ∧ stored.status = .pending := by
  obtain ⟨other, hother, rfl, hpending⟩ := (h.mem row).mp hrow
  obtain rfl := List.inj_on_of_nodup_map hkeyed hother hstored hid
  exact ⟨rfl, hpending⟩

theorem Queued.after (h : Queued table queue) (hkeyed : table.Keyed) {n : Nat}
    (hsettled : Settlement broker (queue.take n) updates) {stored : Stored}
    (hstored : stored ∈ table) :
    (stored.status = .pending ∧ stored.SettledAs broker (stored.after updates)) ∨
      (stored.row ∉ queue.take n ∧ stored.after updates = stored) := by
  by_cases hrow : stored.row ∈ queue.take n
  · have hids : ((queue.take n).map (·.id)).Nodup :=
      ((List.take_sublist n queue).map _).nodup h.ids_nodup
    exact .inl ⟨(h.row_of_id hkeyed hstored (List.mem_of_mem_take hrow) rfl).2,
      hsettled.of_mem hids hrow⟩
  · refine .inr ⟨hrow, hsettled.of_notMem fun row hmem hid => hrow ?_⟩
    rwa [← (h.row_of_id hkeyed hstored (List.mem_of_mem_take hmem) hid).1]

theorem Queued.drop (h : Queued table queue) (hkeyed : table.Keyed) {n : Nat}
    (hsettled : Settlement broker (queue.take n) updates) :
    Queued (table.apply updates) (queue.drop n) where
  ordered := h.ordered.sublist (List.drop_sublist n queue)
  mem := by
    intro row
    constructor
    · intro hrow
      obtain ⟨stored, hstored, rfl, hpending⟩ := (h.mem row).mp (List.mem_of_mem_drop hrow)
      have hsame := hsettled.of_notMem fun row' hrow' => h.take_drop_ne hrow' hrow
      exact ⟨stored, hsame ▸ List.mem_map_of_mem hstored, rfl, hpending⟩
    · rintro ⟨stored', hstored', rfl, hpending⟩
      obtain ⟨stored, hstored, rfl⟩ := List.mem_map.mp hstored'
      rcases h.after hkeyed hsettled hstored with ⟨-, hdone⟩ | ⟨hnot, hsame⟩
      · exact absurd (hdone.2.2.symm.trans hpending) (Broker.verdict_ne_pending _)
      · rw [hsame] at hpending ⊢
        have hrow : stored.row ∈ queue := (h.mem _).mpr ⟨stored, hstored, rfl, hpending⟩
        rw [← List.take_append_drop n queue, List.mem_append] at hrow
        exact hrow.resolve_left hnot

end

/-! ## The whole queue -/

/-- A PENDING row is settled, and any other is left as it was. -/
def Broker.Leaves (broker : Broker) (stored stored' : Stored) : Prop :=
  if stored.status = .pending then stored.SettledAs broker stored' else stored' = stored

section

variable {broker : Broker} {env : DrainEnv} {queue : List OutboxRow}

/-- `reports` and `last` are those of a run that took `queue` in batches. -/
structure Emptied (batchSize : Nat) (broker : Broker) (env : DrainEnv) (queue : List OutboxRow)
    (reports : List BatchReport) (last : DrainEnv) : Prop where
  batches : reports.length = (queue.length + batchSize - 1) / batchSize
  nonempty : ∀ report ∈ reports, report.fetched ≠ []
  sent : last.sent = (queue.map (·.message)).reverse ++ env.sent
  rows : List.Forall₂ broker.Leaves env.table last.table
  counts : ∃ counts : List Nat, reports.map (·.returned) = counts.map .ok ∧
    counts.sum = queue.countP broker.accepts

theorem Emptied.nil {batchSize : Nat} (hbatch : 1 ≤ batchSize) (hqueue : Queued env.table []) :
    Emptied batchSize broker env [] [] ⟨env.table, [], [], env.sent⟩ where
  batches := by
    symm
    apply Nat.div_eq_of_lt
    simp only [List.length_nil]
    omega
  nonempty := nofun
  sent := rfl
  rows := by
    rw [List.forall₂_same]
    intro stored hstored
    unfold Broker.Leaves
    rw [if_neg]
    intro hpending
    have hrow := (hqueue.mem stored.row).mpr ⟨stored, hstored, rfl, hpending⟩
    simp at hrow
  counts := ⟨[], rfl, rfl⟩

theorem batches_succ {n batchSize : Nat} (hbatch : 1 ≤ batchSize) (hn : 0 < n) :
    (n + batchSize - 1) / batchSize = (n - batchSize + batchSize - 1) / batchSize + 1 := by
  have hsplit : n + batchSize - 1 = n - 1 + batchSize := by omega
  rw [hsplit, Nat.add_div_right _ hbatch]
  rcases Nat.lt_or_ge n batchSize with hlt | hge
  · rw [Nat.div_eq_of_lt (by omega), Nat.div_eq_of_lt (by omega)]
  · rw [show n - batchSize + batchSize - 1 = n - 1 by omega]

theorem Emptied.cons {batchSize : Nat} (hbatch : 1 ≤ batchSize) (hkeyed : env.table.Keyed)
    (hqueue : Queued env.table queue) (hne : queue ≠ []) {updates : List Update}
    (hsettled : Settlement broker (queue.take batchSize) updates) {reports : List BatchReport}
    {env' last : DrainEnv} (htable : env'.table = env.table.apply updates)
    (hsent : env'.sent = ((queue.take batchSize).map (·.message)).reverse ++ env.sent)
    (h : Emptied batchSize broker env' (queue.drop batchSize) reports last) :
    Emptied batchSize broker env queue
      (⟨queue.take batchSize, .ok ((queue.take batchSize).countP broker.accepts)⟩ :: reports)
      last where
  batches := by
    rw [List.length_cons, h.batches, List.length_drop]
    exact (batches_succ hbatch (List.length_pos_of_ne_nil hne)).symm
  nonempty := by
    refine List.forall_mem_cons.mpr ⟨?_, h.nonempty⟩
    simp only [ne_eq, List.take_eq_nil_iff, hne, or_false]
    omega
  sent := by
    rw [h.sent, hsent, ← List.append_assoc, ← List.reverse_append, ← List.map_append,
      List.take_append_drop]
  rows := by
    have hrows := h.rows
    rw [htable, Table.apply, List.forall₂_map_left_iff] at hrows
    have hboth := (List.forall₂_and_left _ _).mpr ⟨fun stored hstored => hstored, hrows⟩
    refine hboth.imp ?_
    rintro stored stored' ⟨hstored, hleaves⟩
    unfold Broker.Leaves at hleaves ⊢
    rcases hqueue.after hkeyed hsettled hstored with ⟨hpending, hdone⟩ | ⟨-, hsame⟩
    · rw [if_pos hpending]
      rw [if_neg (by rw [hdone.2.2]; exact Broker.verdict_ne_pending _)] at hleaves
      rwa [hleaves]
    · rwa [hsame] at hleaves
  counts := by
    obtain ⟨counts, hreturned, hsum⟩ := h.counts
    refine ⟨(queue.take batchSize).countP broker.accepts :: counts, ?_, ?_⟩
    · rw [List.map_cons, List.map_cons, hreturned]
    · rw [List.sum_cons, hsum, ← List.countP_append, List.take_append_drop]

theorem drain_queue {batchSize : Nat} (hbatch : 1 ≤ batchSize) (fuel : Nat)
    (hkeyed : env.table.Keyed) (hqueue : Queued env.table queue)
    (hfuel : (queue.length + batchSize - 1) / batchSize < fuel) :
    ∃ reports last, drain batchSize broker fuel env = some (reports, last) ∧
      Emptied batchSize broker env queue reports last := by
  induction fuel generalizing env queue with
  | zero => exact absurd hfuel (Nat.not_lt_zero _)
  | succ fuel ih =>
    obtain ⟨updates, hsettled, hrun⟩ := batch_eq broker env batchSize
    rw [hqueue.fetch hkeyed] at hsettled hrun
    unfold drain
    simp only [hrun]
    by_cases hempty : queue = []
    -- The queue is empty: this batch fetches nothing, and the loop ends.
    · subst hempty
      have hnone : updates = [] := by
        apply List.eq_nil_iff_forall_not_mem.mpr
        intro update hupdate
        obtain ⟨row, hrow, -⟩ := hsettled.only update hupdate
        simp at hrow
      subst hnone
      rw [List.take_nil, if_pos rfl, Table.apply_nil]
      exact ⟨[], _, rfl, Emptied.nil hbatch hqueue⟩
    · have hlen := List.length_pos_of_ne_nil hempty
      have htake : queue.take batchSize ≠ [] := by
        simp only [ne_eq, List.take_eq_nil_iff, hempty, or_false]
        omega
      rw [if_neg htake]
      have hfuel' : ((queue.drop batchSize).length + batchSize - 1) / batchSize < fuel := by
        rw [List.length_drop]
        have hstep := batches_succ hbatch hlen
        omega
      let env' : DrainEnv := ⟨env.table.apply updates, [], queue.take batchSize,
        ((queue.take batchSize).map (·.message)).reverse ++ env.sent⟩
      have hkeyed' : env'.table.Keyed := Table.apply_keyed hkeyed updates
      have hqueue' : Queued env'.table (queue.drop batchSize) := hqueue.drop hkeyed hsettled
      obtain ⟨reports, last, hdrain, hemptied⟩ := ih hkeyed' hqueue' hfuel'
      rw [hdrain]
      exact ⟨_, last, rfl, Emptied.cons hbatch hkeyed hqueue hempty hsettled rfl rfl hemptied⟩

end

/-! ## The whole table -/

theorem Broker.count_leaves {broker : Broker} {table table' : Table}
    (h : List.Forall₂ broker.Leaves table table') :
    table'.count .published = table.count .published +
      table.countP fun stored => stored.status = .pending ∧ broker.accepts stored.row := by
  unfold Table.count
  induction h with
  | nil => rfl
  | @cons stored stored' table table' hleaves _ ih =>
    simp only [List.countP_cons, ih]
    unfold Broker.Leaves at hleaves
    by_cases hpending : stored.status = .pending
    · rw [if_pos hpending] at hleaves
      rw [hleaves.2.2]
      unfold Broker.verdict
      cases broker.accepts stored.row <;> simp [hpending]
      omega
    · rw [if_neg hpending] at hleaves
      simp only [hleaves, hpending, false_and, decide_false]
      simp
      omega

theorem Queued.countP {broker : Broker} {table : Table} {queue : List OutboxRow}
    (h : Queued table queue) (hkeyed : table.Keyed) :
    queue.countP broker.accepts =
      table.countP fun stored => stored.status = .pending ∧ broker.accepts stored.row := by
  rw [(h.perm hkeyed).countP_eq, List.countP_map, List.countP_filter]
  apply List.countP_congr
  intro stored _
  simp [and_comm]

/-- The batches of a relay that started on `table`, and what it left. `queue` has the PENDING rows
by id. -/
structure Drained (batchSize : Nat) (broker : Broker) (table : Table)
    (reports : List BatchReport) (last : DrainEnv) : Prop where
  batches : reports.length = (table.count .pending + batchSize - 1) / batchSize
  nonempty : ∀ report ∈ reports, report.fetched ≠ []
  sends : ∃ queue, Queued table queue ∧ last.sent.reverse = queue.map (·.message)
  rows : List.Forall₂ broker.Leaves table last.table
  counts : ∃ counts : List Nat, reports.map (·.returned) = counts.map .ok ∧
    last.table.count .published = table.count .published + counts.sum

theorem relay_drains (batchSize : Nat) (hbatch : 1 ≤ batchSize) (broker : Broker) (table : Table)
    (hkeyed : table.Keyed) (fuel : Nat)
    (hfuel : (table.count .pending + batchSize - 1) / batchSize < fuel) :
    ∃ reports last, drain batchSize broker fuel ⟨table, [], [], []⟩ = some (reports, last) ∧
      Drained batchSize broker table reports last := by
  let start : DrainEnv := ⟨table, [], [], []⟩
  obtain ⟨queue, hqueue⟩ := exists_queued hkeyed
  rw [← hqueue.length hkeyed] at hfuel
  have hkeyed' : start.table.Keyed := hkeyed
  obtain ⟨reports, last, hdrain, h⟩ := drain_queue hbatch fuel hkeyed' hqueue hfuel
  refine ⟨reports, last, hdrain, ?_, h.nonempty, ⟨queue, hqueue, ?_⟩, h.rows, ?_⟩
  · rw [h.batches, hqueue.length hkeyed]
  · rw [h.sent, List.reverse_append, List.reverse_reverse]
    rfl
  · obtain ⟨counts, hreturned, hsum⟩ := h.counts
    refine ⟨counts, hreturned, ?_⟩
    rw [Broker.count_leaves h.rows, hsum, hqueue.countP hkeyed]

/-- Two batches of two rows each at most, and one send that fails. -/
theorem relay_drains_orders :
    let stored : Nat → String → OutboxStatus → Stored := fun id messageId status =>
      ⟨⟨id, "orders", messageId, "\x7b\x7d"⟩, status, 0, none⟩
    let table : Table := [stored 3 "order-3" .pending, stored 1 "order-1" .pending,
      stored 2 "order-2" .published, stored 5 "order-5" .pending, stored 4 "order-4" .failed]
    let broker : Broker := ⟨fun message =>
      if message.key = encode "order-3" then some ⟨⟨.exception "KafkaTimeoutError", ""⟩, rfl⟩
      else none, fun _ => 0⟩
    let run := drain 2 broker 3 ⟨table, [], [], []⟩
    run.map (fun r => r.1.map fun report => report.fetched.map (·.id)) = some [[1, 3], [5]] ∧
      run.map (fun r => r.2.table.map (·.status)) =
        some [.failed, .published, .published, .published, .failed] ∧
      ∃ reports last, run = some (reports, last) ∧ Drained 2 broker table reports last := by
  intro stored table broker run
  refine ⟨by decide +kernel, by decide +kernel, ?_⟩
  exact relay_drains 2 (by decide) broker table (by unfold Table.Keyed; decide) 3 (by decide)

end MessageDedup
