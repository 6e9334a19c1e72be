import MessageDedup.Outbox.Ledger

/-!
# Batch after batch

Whole runs of `_process_batch`, one batch after the other, against a producer that fails as it
likes. A batch takes the first PENDING rows and ends each of them: what becomes of the rows that
failed is read off the counts.
-/

namespace MessageDedup

open Coroutine (Proc)

/-! ## Running a batch -/

/-- An exception of `send_and_wait`, which `except Exception` catches. -/
abbrev ProducerError := { exc : Exc // exc.isException = true }

/-- `table` is committed, `updates` are those of the open transaction, `sends` counts the sends. -/
structure RelayEnv where
  table : Table
  updates : List Update
  sends : Nat

/-- The producer, where `errors n` says how send number `n` fails, and the clock at that send. -/
structure Producer where
  errors : Nat → Option ProducerError
  clock : Nat → Int

def Producer.fair (producer : Producer) : Producer := { producer with errors := fun _ => none }

def RelayEnv.answer (producer : Producer) (env : RelayEnv) :
    (c : RelayCall) → RelayEnv × Except Exc c.Reply
  | .begin => ({ env with updates := [] }, .ok ())
  | .fetch limit => (env, .ok (env.table.fetch [] limit))
  | .sendAndWait _ =>
    ({ env with sends := env.sends + 1 },
      match producer.errors env.sends with
      | some exc => .error exc
      | none => .ok ())
  | .markPublished id =>
    ({ env with updates := markPublished (producer.clock env.sends) id :: env.updates }, .ok ())
  | .markFailed id => ({ env with updates := markFailed id :: env.updates }, .ok ())
  | .commit => ({ env with table := env.table.apply env.updates, updates := [] }, .ok ())
  | .rollback => ({ env with updates := [] }, .ok ())

def RelayEnv.batch (batchSize : Nat) (producer : Producer) (env : RelayEnv) : RelayEnv :=
  ((processBatch batchSize).run (RelayEnv.answer producer) env).1

def RelayEnv.batches (batchSize : Nat) (producer : Producer) : Nat → RelayEnv → RelayEnv
  | 0, env => env
  | n + 1, env => (env.batches batchSize producer n).batch batchSize producer

theorem run_rest (batchSize : Nat) (producer : Producer) (env : RelayEnv) (pc : RelayPc) :
    (pc.rest batchSize).run (RelayEnv.answer producer) env =
      (RelayPc.restOf batchSize
        (pc.resume batchSize (env.answer producer (pc.call batchSize)).2)).run
          (RelayEnv.answer producer)
          (env.answer producer (pc.call batchSize)).1 := by
  rw [RelayPc.rest_eq]
  rfl

/-! ## Counting rows -/

namespace Table

def count (table : Table) (status : OutboxStatus) : Nat :=
  table.countP fun stored => stored.status = status

/-- A row has its `id` to itself. -/
def Keyed (table : Table) : Prop := (table.map (·.row.id)).Nodup

theorem apply_nil (table : Table) : table.apply [] = table := by
  unfold Table.apply
  exact List.map_id table

theorem apply_keyed {table : Table} (h : table.Keyed) (updates : List Update) :
    (table.apply updates).Keyed := by
  unfold Keyed
  rw [table.apply_ids updates]
  exact h

theorem count_sum (table : Table) :
    table.count .pending + table.count .published + table.count .failed = table.length := by
  induction table with
  | nil => rfl
  | cons stored table ih =>
    unfold count at ih ⊢
    simp only [List.countP_cons, List.length_cons, decide_eq_true_eq]
    cases stored.status <;> simp <;> omega

theorem after_of_notMem {updates : List Update} {stored : Stored}
    (h : ∀ update ∈ updates, update.id ≠ stored.row.id) : stored.after updates = stored := by
  rcases stored.after_cases updates with ⟨update, hupdate, hid, -⟩ | ⟨-, heq⟩
  · exact absurd hid (h update hupdate)
  · exact heq

theorem after_of_eq {update : Update} {updates : List Update} {stored : Stored}
    (h : update.id = stored.row.id) : stored.after (update :: updates) = stored.updated update := by
  simp [Stored.after, h]

theorem apply_cons {table : Table} {update : Update} {updates : List Update}
    (h : ∀ other ∈ updates, other.id ≠ update.id) :
    table.apply (update :: updates) = (table.apply updates).apply [update] := by
  unfold Table.apply
  rw [List.map_map]
  refine List.map_congr_left fun stored _ => ?_
  simp only [Function.comp_apply]
  rcases Nat.decEq update.id stored.row.id with hne | heq
  · have hlast : (stored.after updates).after [update] = stored.after updates :=
      after_of_notMem (by simpa using hne)
    rw [hlast]
    simp [Stored.after, hne]
  · have hnone : stored.after updates = stored :=
      after_of_notMem fun other hother => heq ▸ h other hother
    rw [hnone, after_of_eq heq, after_of_eq heq]

theorem count_apply {table : Table} (hkeyed : table.Keyed) {stored : Stored}
    (hstored : stored ∈ table) {update : Update} (hid : update.id = stored.row.id)
    (status : OutboxStatus) :
    (table.apply [update]).count status + (if stored.status = status then 1 else 0) =
      table.count status + if update.status = status then 1 else 0 := by
  obtain ⟨before, rest, rfl⟩ := List.append_of_mem hstored
  have hother : ∀ rows : Table, (∀ other ∈ rows, other.row.id ≠ stored.row.id) →
      rows.map (·.after [update]) = rows := by
    intro rows hrows
    refine (List.map_congr_left fun other hmem => ?_).trans (List.map_id rows)
    exact after_of_notMem (by simpa [hid] using (hrows other hmem).symm)
  unfold Keyed at hkeyed
  simp only [List.map_append, List.map_cons, List.nodup_append, List.nodup_cons, List.mem_map,
    List.mem_cons] at hkeyed
  obtain ⟨-, ⟨hrest, -⟩, hbefore⟩ := hkeyed
  have hbefore' := hother before fun other hmem =>
    hbefore _ ⟨other, hmem, rfl⟩ _ (.inl rfl)
  have hrest' := hother rest fun other hmem heq => hrest ⟨other, hmem, heq⟩
  unfold Table.apply count
  rw [List.map_append, List.map_cons, hbefore', hrest', after_of_eq hid]
  simp only [List.countP_append, List.countP_cons, decide_eq_true_eq, Stored.updated]
  omega

end Table

/-- How many of the `n` sends from number `first` on fail. -/
def Producer.failures (producer : Producer) : (first n : Nat) → Nat
  | _, 0 => 0
  | first, n + 1 =>
    (if (producer.errors first).isSome then 1 else 0) + producer.failures (first + 1) n

theorem Producer.failures_add (producer : Producer) (first m n : Nat) :
    producer.failures first (m + n) =
      producer.failures first m + producer.failures (first + m) n := by
  induction m generalizing first with
  | zero => simp [failures]
  | succ m ih =>
    rw [Nat.succ_add]
    simp only [failures, ih]
    rw [show first + 1 + m = first + (m + 1) by omega]
    omega

theorem Producer.failures_eq_zero (producer : Producer) (first n : Nat) :
    producer.failures first n = 0 ↔ ∀ i < n, producer.errors (first + i) = none := by
  induction n generalizing first with
  | zero => simp [failures]
  | succ n ih =>
    simp only [failures, Nat.add_eq_zero_iff, ih]
    constructor
    · rintro ⟨hfirst, hrest⟩ i hi
      cases i with
      | zero => simpa using hfirst
      | succ i =>
        rw [show first + (i + 1) = first + 1 + i by omega]
        exact hrest i (by omega)
    · intro h
      refine ⟨by simpa using h 0 (by omega), fun i hi => ?_⟩
      rw [show first + 1 + i = first + (i + 1) by omega]
      exact h (i + 1) (by omega)

@[simp] theorem Producer.failures_fair (producer : Producer) (first n : Nat) :
    producer.fair.failures first n = 0 :=
  (producer.fair.failures_eq_zero first n).mpr fun _ _ => rfl

/-! ## What a batch does to the counts -/

/-- What the open transaction would commit. -/
def RelayEnv.view (env : RelayEnv) : Table := env.table.apply env.updates

/-- `n` PENDING rows of `table` have been sent and ended. -/
structure Ended (producer : Producer) (table : Table) (first n : Nat) (env : RelayEnv) : Prop where
  keyed : env.table.Keyed
  pending : env.table.count .pending + n = table.count .pending
  failed : env.table.count .failed = table.count .failed + producer.failures first n
  length : env.table.length = table.length
  sends : env.sends = first + n

theorem run_row (batchSize : Nat) (producer : Producer) (env : RelayEnv) (row : OutboxRow)
    (rest : List OutboxRow) (published : Nat) :
    ∃ update published', update.id = row.id ∧
      update.status = (if (producer.errors env.sends).isSome then .failed else .published) ∧
      ((RelayPc.loop (row :: rest) published).rest batchSize).run (RelayEnv.answer producer) env =
        ((RelayPc.loop rest published').rest batchSize).run (RelayEnv.answer producer)
          { env with updates := update :: env.updates, sends := env.sends + 1 } := by
  have hsend := run_rest batchSize producer env (.sending row rest published)
  cases herror : producer.errors env.sends with
  | none =>
    refine ⟨markPublished (producer.clock (env.sends + 1)) row.id, published + 1, rfl, rfl, ?_⟩
    have hreply : (env.answer producer (.sendAndWait row.message)).2 = .ok () := by
      simp [RelayEnv.answer, herror]
    refine hsend.trans ?_
    show (RelayPc.restOf batchSize ((RelayPc.sending row rest published).resume batchSize
      (env.answer producer (.sendAndWait row.message)).2)).run _ _ = _
    rw [hreply]
    exact run_rest batchSize producer _ (.markingPublished row rest published)
  | some exc =>
    refine ⟨markFailed row.id, published, rfl, rfl, ?_⟩
    have hreply : (env.answer producer (.sendAndWait row.message)).2 = .error exc.1 := by
      simp [RelayEnv.answer, herror]
    refine hsend.trans ?_
    show (RelayPc.restOf batchSize ((RelayPc.sending row rest published).resume batchSize
      (env.answer producer (.sendAndWait row.message)).2)).run _ _ = _
    rw [hreply]
    have hafter : RelayPc.afterError row rest published exc.1 =
        .markingFailed row rest published := by
      simp [RelayPc.afterError, exc.2]
    show ((RelayPc.afterError row rest published exc.1).rest batchSize).run _ _ = _
    rw [hafter]
    exact run_rest batchSize producer _ (.markingFailed row rest published)

theorem Ended.cons {producer : Producer} {table : Table} {first n : Nat} {env : RelayEnv}
    {update : Update} {stored : Stored} (hkeyed : table.Keyed) (hstored : stored ∈ table)
    (hid : update.id = stored.row.id) (hpending : stored.status = .pending)
    (hstatus : update.status = (if (producer.errors first).isSome then .failed else .published))
    (h : Ended producer (table.apply [update]) (first + 1) n env) :
    Ended producer table first (n + 1) env := by
  have hcount := Table.count_apply hkeyed hstored hid
  refine ⟨h.keyed, ?_, ?_, ?_, ?_⟩
  · have hmoved := hcount .pending
    have hleft := h.pending
    have hother : update.status ≠ .pending := by
      rw [hstatus]
      split <;> simp
    rw [if_pos hpending, if_neg hother] at hmoved
    omega
  · have hmoved := hcount .failed
    have hleft := h.failed
    have hfailed : update.status = .failed ↔ (producer.errors first).isSome = true := by
      rw [hstatus]
      split <;> simp_all
    rw [if_neg (by rw [hpending]; simp)] at hmoved
    simp only [hfailed] at hmoved
    simp only [Producer.failures]
    omega
  · rw [h.length]
    simp [Table.apply]
  · rw [h.sends]
    omega

/-- The loop, by induction on the rows that are left. The transaction has updated none of them, and
would commit each of them as PENDING. -/
theorem run_loop (batchSize : Nat) (producer : Producer) (rows : List OutboxRow) (published : Nat)
    (env : RelayEnv) (hkeyed : env.table.Keyed) (hnodup : (rows.map (·.id)).Nodup)
    (hpending : ∀ row ∈ rows, ∃ stored ∈ env.view, stored.row.id = row.id ∧
      stored.status = .pending)
    (hnew : ∀ row ∈ rows, ∀ update ∈ env.updates, update.id ≠ row.id) :
    Ended producer env.view env.sends rows.length
      (((RelayPc.loop rows published).rest batchSize).run (RelayEnv.answer producer) env).1 := by
  induction rows generalizing published env with
  | nil =>
    -- No row is left: only the COMMIT.
    have hcommit := run_rest batchSize producer env (.committing published)
    show Ended producer env.view env.sends 0
      (((RelayPc.committing published).rest batchSize).run (RelayEnv.answer producer) env).1
    rw [hcommit]
    refine ⟨Table.apply_keyed hkeyed _, rfl, rfl, rfl, rfl⟩
  | cons row rest ih =>
    obtain ⟨update, published', hid, hstatus, hrun⟩ :=
      run_row batchSize producer env row rest published
    rw [hrun]
    let env' : RelayEnv := { env with updates := update :: env.updates, sends := env.sends + 1 }
    have hview : env'.view = env.view.apply [update] :=
      Table.apply_cons fun other hother => hid ▸ hnew row List.mem_cons_self other hother
    obtain ⟨hrow, hrest⟩ := List.nodup_cons.mp hnodup
    have hne : ∀ other ∈ rest, other.id ≠ row.id := fun other hother heq =>
      hrow (List.mem_map.mpr ⟨other, hother, heq⟩)
    have hended := ih published' env' hkeyed hrest ?_ ?_
    -- The first row leaves PENDING by its own update, the rest by the induction.
    · obtain ⟨stored, hstored, hsame, hpend⟩ := hpending row List.mem_cons_self
      rw [hview] at hended
      exact Ended.cons (Table.apply_keyed hkeyed env.updates) hstored (hid.trans hsame.symm) hpend
        hstatus hended
    · intro other hother
      obtain ⟨stored, hstored, hsame, hpend⟩ := hpending other (List.mem_cons_of_mem _ hother)
      have hkept : stored.after [update] = stored := by
        refine Table.after_of_notMem ?_
        simp only [List.mem_singleton, forall_eq, hid, hsame]
        exact (hne other hother).symm
      refine ⟨stored, ?_, hsame, hpend⟩
      rw [hview, ← hkept]
      exact List.mem_map_of_mem hstored
    · intro other hother update' hupdate
      rcases List.mem_cons.mp hupdate with rfl | hold
      · rw [hid]
        exact (hne other hother).symm
      · exact hnew other (List.mem_cons_of_mem _ hother) update' hold

/-! ## Whole runs -/

theorem length_fetch (table : Table) (limit : Nat) :
    (table.fetch [] limit).length = min limit (table.count .pending) := by
  unfold Table.fetch Table.count
  rw [List.length_take, List.length_insertionSort, List.length_map, List.countP_eq_length_filter]
  simp

theorem fetch_nodup {table : Table} (hkeyed : table.Keyed) (locked : List Nat) (limit : Nat) :
    ((table.fetch locked limit).map (·.id)).Nodup := by
  unfold Table.fetch
  rw [List.map_take]
  refine (List.take_sublist _ _).nodup ?_
  rw [((List.perm_insertionSort _ _).map _).nodup_iff, List.map_map]
  exact (List.filter_sublist.map _).nodup hkeyed

theorem RelayEnv.batch_ended (batchSize : Nat) (producer : Producer) (env : RelayEnv)
    (hkeyed : env.table.Keyed) :
    Ended producer env.table env.sends (min batchSize (env.table.count .pending))
      (env.batch batchSize producer) := by
  have hbegin := run_rest batchSize producer env .beginning
  have hfetch := run_rest batchSize producer { env with updates := [] } .fetching
  have hrun : env.batch batchSize producer =
      (((RelayPc.loop (env.table.fetch [] batchSize) 0).rest batchSize).run
        (RelayEnv.answer producer) { env with updates := [] }).1 :=
    congrArg Prod.fst (hbegin.trans hfetch)
  have hview : RelayEnv.view { env with updates := [] } = env.table := Table.apply_nil _
  rw [hrun, ← length_fetch]
  have hended := run_loop batchSize producer (env.table.fetch [] batchSize) 0
    { env with updates := [] }
    hkeyed (fetch_nodup hkeyed _ _) ?_ (by simp)
  · rw [hview] at hended
    exact hended
  · intro row hrow
    obtain ⟨stored, hstored, rfl, hstatus, -⟩ := Table.mem_fetch hrow
    rw [hview]
    exact ⟨stored, hstored, rfl, hstatus⟩

theorem RelayEnv.batches_ended (batchSize : Nat) (producer : Producer) (env : RelayEnv)
    (hkeyed : env.table.Keyed) (n : Nat) :
    Ended producer env.table env.sends (min (n * batchSize) (env.table.count .pending))
      (env.batches batchSize producer n) := by
  induction n with
  | zero =>
    simp only [Nat.zero_mul, Nat.zero_min]
    exact ⟨hkeyed, rfl, rfl, rfl, rfl⟩
  | succ n ih =>
    have hbatch := (env.batches batchSize producer n).batch_ended batchSize producer ih.keyed
    have hsum : min (n * batchSize) (env.table.count .pending) +
        min batchSize ((env.batches batchSize producer n).table.count .pending) =
          min ((n + 1) * batchSize) (env.table.count .pending) := by
      have hpending := ih.pending
      rw [Nat.succ_mul]
      omega
    refine ⟨hbatch.keyed, ?_, ?_, ?_, ?_⟩
    · have hpending := ih.pending
      have hpending' := hbatch.pending
      simp only [batches]
      omega
    · have hfailed := ih.failed
      have hfailed' := hbatch.failed
      rw [ih.sends] at hfailed'
      rw [← hsum, producer.failures_add]
      simp only [batches]
      omega
    · exact hbatch.length.trans ih.length
    · have hsends := ih.sends
      have hsends' := hbatch.sends
      simp only [batches]
      omega

/-! ## Rows that are not PUBLISHED -/

namespace Table

def unpublished (table : Table) : Nat := table.countP fun stored => stored.status ≠ .published

theorem unpublished_eq (table : Table) :
    table.unpublished = table.count .pending + table.count .failed := by
  have hsum := table.count_sum
  have hlength := List.length_eq_countP_add_countP (fun stored : Stored =>
    decide (stored.status = .published)) (l := table)
  unfold unpublished
  unfold count at *
  simp only [decide_not, Bool.decide_eq_true] at *
  omega

theorem all_published_iff (table : Table) :
    (∀ stored ∈ table, stored.status = .published) ↔ table.unpublished = 0 := by
  unfold unpublished
  rw [List.countP_eq_zero]
  simp

theorem eligible_iff {table : Table} (hkeyed : table.Keyed) :
    (∀ stored ∈ table, stored.status ≠ .published → stored.row ∈ table.fetch [] table.length) ↔
      table.count .failed = 0 := by
  unfold count
  rw [List.countP_eq_zero]
  constructor
  · intro h stored hstored hfailed
    simp only [decide_eq_true_eq] at hfailed
    obtain ⟨other, hother, hrow, hpending, -⟩ := mem_fetch (h stored hstored (by simp [hfailed]))
    obtain rfl := List.inj_on_of_nodup_map hkeyed hother hstored (congrArg (·.id) hrow)
    rw [hfailed] at hpending
    simp at hpending
  · intro h stored hstored hne
    have hpending : stored.status = .pending := by
      have hnot := h stored hstored
      cases hs : stored.status <;> simp_all
    unfold fetch
    rw [List.take_of_length_le]
    · rw [(List.perm_insertionSort _ _).mem_iff]
      refine List.mem_map_of_mem (List.mem_filter.mpr ⟨hstored, ?_⟩)
      simp [hpending]
    · rw [List.length_insertionSort, List.length_map]
      exact List.length_filter_le _ _

end Table

theorem fair_batches_publish {batchSize : Nat} {producer : Producer} {table : Table}
    (hbatch : 1 ≤ batchSize) (hkeyed : table.Keyed) (hfailed : table.count .failed = 0) :
    ∀ stored ∈ (RelayEnv.batches batchSize producer.fair
      ((table.unpublished + batchSize - 1) / batchSize) ⟨table, [], 0⟩).table,
      stored.status = .published := by
  have hended := RelayEnv.batches_ended batchSize producer.fair ⟨table, [], 0⟩ hkeyed
    ((table.unpublished + batchSize - 1) / batchSize)
  have hunpublished := table.unpublished_eq
  have henough : table.unpublished ≤
      (table.unpublished + batchSize - 1) / batchSize * batchSize := by
    have hdiv := Nat.div_add_mod (table.unpublished + batchSize - 1) batchSize
    have hmod := Nat.mod_lt (table.unpublished + batchSize - 1) hbatch
    rw [Nat.mul_comm] at hdiv
    omega
  rw [Table.all_published_iff, Table.unpublished_eq]
  have hpending := hended.pending
  have hfailed' := hended.failed
  rw [Producer.failures_fair] at hfailed'
  simp only at hpending hfailed'
  omega

/-- Nothing is stranded exactly when no row is FAILED at the start and no send fails. With `pending`
rows, the first `n` batches make `min (n * batchSize) pending` sends. -/
theorem nothing_stranded_iff (batchSize : Nat) (producer : Producer) (table : Table) (n : Nat)
    (hbatch : 1 ≤ batchSize) (hkeyed : table.Keyed) :
    (∀ i ≤ n,
      let reached := (RelayEnv.batches batchSize producer i ⟨table, [], 0⟩).table
      (∀ stored ∈ reached, stored.status ≠ .published →
        stored.row ∈ reached.fetch [] reached.length) ∧
      ∀ stored ∈ (RelayEnv.batches batchSize producer.fair
          ((reached.unpublished + batchSize - 1) / batchSize) ⟨reached, [], 0⟩).table,
        stored.status = .published) ↔
    (∀ stored ∈ table, stored.status ≠ .failed) ∧
      ∀ i < min (n * batchSize) (table.count .pending), producer.errors i = none := by
  have hended := fun i => RelayEnv.batches_ended batchSize producer ⟨table, [], 0⟩ hkeyed i
  have hnone : (∀ stored ∈ table, stored.status ≠ .failed) ↔ table.count .failed = 0 := by
    unfold Table.count
    rw [List.countP_eq_zero]
    simp
  have hfair := producer.failures_eq_zero 0 (min (n * batchSize) (table.count .pending))
  simp only [Nat.zero_add] at hfair
  rw [hnone, ← hfair]
  constructor
  -- A row that failed by the last batch is out of reach of every later one.
  · intro h
    have hlast := (Table.eligible_iff (hended n).keyed).mp (h n le_rfl).1
    rw [(hended n).failed] at hlast
    simp only at hlast
    omega
  · rintro ⟨hfailed, hsends⟩ i hi
    have hless : min (i * batchSize) (table.count .pending) ≤
        min (n * batchSize) (table.count .pending) := by
      have hmul := Nat.mul_le_mul_right batchSize hi
      omega
    have hzero :
        (RelayEnv.batches batchSize producer i ⟨table, [], 0⟩).table.count .failed = 0 := by
      rw [(hended i).failed]
      rw [producer.failures_eq_zero] at hsends
      have hearlier :=
        (producer.failures_eq_zero 0 (min (i * batchSize) (table.count .pending))).mpr
        fun j hj => hsends j (lt_of_lt_of_le hj hless)
      simp only
      omega
    refine ⟨(Table.eligible_iff (hended i).keyed).mpr hzero, ?_⟩
    exact fair_batches_publish hbatch (hended i).keyed hzero

/-- One PENDING row and a producer that fails on it. -/
def orderPending : Table := [⟨⟨1, "orders", "order-123", "\x7b\x7d"⟩, .pending, 0, none⟩]

def failingFirst : Producer where
  errors := fun n => if n = 0 then some ⟨⟨.exception "KafkaTimeoutError", ""⟩, rfl⟩ else none
  clock := fun _ => 0

/-- The row is FAILED and no batch takes it any more, while its entry is committed. -/
theorem failed_row_stranded :
    ¬ ∀ i ≤ 1,
      let reached := (RelayEnv.batches 100 failingFirst i ⟨orderPending, [], 0⟩).table
      (∀ stored ∈ reached, stored.status ≠ .published →
        stored.row ∈ reached.fetch [] reached.length) ∧
      ∀ stored ∈ (RelayEnv.batches 100 failingFirst.fair
          ((reached.unpublished + 100 - 1) / 100) ⟨reached, [], 0⟩).table,
        stored.status = .published := by
  intro h
  exact absurd (h 1 le_rfl).1 (by decide)

theorem nothing_stranded_fair :
    orderPending.count .pending = 1 ∧
      ∀ stored ∈ (RelayEnv.batches 100 failingFirst.fair 1 ⟨orderPending, [], 0⟩).table,
        stored.status = .published := by
  refine ⟨by decide, ?_⟩
  have hall := (nothing_stranded_iff 100 failingFirst.fair orderPending 1 (by decide)
    (List.nodup_singleton _)).mpr
    ⟨by decide, fun _ _ => rfl⟩
  exact (hall 0 (by decide)).2

end MessageDedup
