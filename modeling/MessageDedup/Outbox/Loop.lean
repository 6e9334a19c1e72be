import MessageDedup.Outbox.Stranded

/-!
# The loop of the relay

`_loop` calls `_process_batch` until `stop()`, and sleeps when a batch published nothing or raised.
One relay has the table to itself. Any call may raise: a statement that fails aborts its
transaction, and a `COMMIT` that raises may have been carried out. A sleep may raise too, and an
`Exception` out of the one in the `except` clause leaves the loop.
-/

namespace MessageDedup

open Coroutine (Proc)

/-! ## The program -/

/-- `_loop` sleeps after an empty batch, and in its `except` clause. -/
inductive LoopCall where
  | relay (call : RelayCall)
  | idleSleep
  | errorSleep

abbrev LoopCall.Reply : LoopCall → Type
  | .relay call => call.Reply
  | .idleSleep | .errorSleep => Unit

abbrev LoopProgram (A : Type) := Proc LoopCall LoopCall.Reply Unit Exc A

/-- The `except` clause of `_loop`. -/
def loopError : Except Exc Unit → LoopProgram Unit
  | .ok _ => return
  | .error exc => if exc.isException then Proc.call LoopCall.errorSleep else Proc.raise exc

/-- The body of the `while`. -/
def loopBody (batchSize : Nat) : LoopProgram Unit :=
  Proc.attempt (do
    let published ← (processBatch batchSize).within .relay fun _ reply => reply
    if published = 0 then Proc.call LoopCall.idleSleep else return) loopError

/-! ## Postgres, Kafka and the clock -/

/-- A call that raises. `applied` says whether a `COMMIT` has had its effect all the same. -/
structure Fault where
  exc : Exc
  applied : Bool

/-- `fault n` and `clock n` are those of call number `n`, and `stopped n` says whether `stop()` was
called before it. If it is the sleep of the `except` clause, it raises `errorSleep n`. -/
structure LoopInputs where
  fault : Nat → Option Fault
  errorSleep : Nat → Option Exc
  clock : Nat → Int
  stopped : Nat → Bool

/-- `table` is committed, `updates` are those of the open transaction, and `sleeps` are the sleeps
that did not raise. -/
structure LoopEnv where
  table : Table
  updates : List Update
  aborted : Bool
  calls : Nat
  sleeps : Nat

/-- What asyncpg raises for a statement of an aborted transaction. -/
def inFailedTransaction : Exc :=
  ⟨.exception "InFailedSQLTransactionError",
    "current transaction is aborted, commands ignored until end of transaction block"⟩

namespace LoopEnv

def close (env : LoopEnv) (commits : Bool) : LoopEnv :=
  { env with
    table := if commits && !env.aborted then env.table.apply env.updates else env.table
    updates := []
    aborted := false }

def update (env : LoopEnv) (update : Update) : LoopEnv × Except Exc Unit :=
  if env.aborted then (env, .error inFailedTransaction)
  else ({ env with updates := update :: env.updates }, .ok ())

/-- A call without a fault. -/
def carryOut (now : Int) (env : LoopEnv) : (call : RelayCall) → LoopEnv × Except Exc call.Reply
  | .begin => (env, .ok ())
  | .fetch limit => (env, .ok (env.table.fetch [] limit))
  | .sendAndWait _ => (env, .ok ())
  | .markPublished id => env.update (markPublished now id)
  | .markFailed id => env.update (markFailed id)
  | .commit => (env.close true, .ok ())
  | .rollback => (env.close false, .ok ())

/-- What a call that raises leaves behind. -/
def fail (applied : Bool) (env : LoopEnv) : RelayCall → LoopEnv
  | .begin => env
  | .fetch _ => { env with aborted := true }
  | .sendAndWait _ => env
  | .markPublished _ => { env with aborted := true }
  | .markFailed _ => { env with aborted := true }
  | .commit => env.close applied
  | .rollback => env.close false

def relayed (inputs : LoopInputs) (env : LoopEnv) (call : RelayCall) :
    LoopEnv × Except Exc call.Reply :=
  let next := { env with calls := env.calls + 1 }
  match inputs.fault env.calls with
  | none => next.carryOut (inputs.clock env.calls) call
  | some fault => (next.fail fault.applied call, .error fault.exc)

def slept (raised : Option Exc) (env : LoopEnv) : LoopEnv × Except Exc Unit :=
  match raised with
  | none => ({ env with calls := env.calls + 1, sleeps := env.sleeps + 1 }, .ok ())
  | some exc => ({ env with calls := env.calls + 1 }, .error exc)

def answer (inputs : LoopInputs) (env : LoopEnv) : (c : LoopCall) → LoopEnv × Except Exc c.Reply
  | .relay call => env.relayed inputs call
  | .idleSleep => env.slept ((inputs.fault env.calls).map (·.exc))
  | .errorSleep => env.slept (inputs.errorSleep env.calls)

end LoopEnv

/-- `_loop` for `fuel` turns at most. It goes on as long as there is no outcome. -/
def runLoop (batchSize : Nat) (inputs : LoopInputs) :
    (fuel : Nat) → LoopEnv → LoopEnv × Option (Except Exc Unit)
  | 0, env => (env, none)
  | fuel + 1, env =>
    if inputs.stopped env.calls then (env, some (.ok ()))
    else
      let r := (loopBody batchSize).run (LoopEnv.answer inputs) env
      match r.2.2 with
      | .ok _ => runLoop batchSize inputs fuel r.1
      | .error exc => (r.1, some (.error exc))

/-! ## A batch -/

namespace LoopInputs

variable (inputs : LoopInputs)

/-- No call from number `a` to before number `b` raises by itself. -/
def Calm (a b : Nat) : Prop := ∀ n, a ≤ n → n < b → inputs.fault n = none

def OnlyExceptions : Prop := ∀ n fault, inputs.fault n = some fault → fault.exc.isException = true

end LoopInputs

/-- From `env` to `env'` the open transaction has not ended. -/
structure LoopEnv.Kept (env env' : LoopEnv) : Prop where
  table : env'.table = env.table
  sleeps : env'.sleeps = env.sleeps
  calls : env.calls ≤ env'.calls

/-- Between the two some call raised by itself, and `exc` came of it. -/
structure LoopEnv.Broke (inputs : LoopInputs) (env env' : LoopEnv) (exc : Exc) : Prop where
  fault : ¬ inputs.Calm env.calls env'.calls
  exc : inputs.OnlyExceptions → exc.isException = true

/-- `Q` holds after each run of `p` from `env`. -/
abbrev LoopEnv.Does {A : Type} (inputs : LoopInputs) (p : RelayProgram A)
    (Q : LoopEnv → Except Exc A → Prop) (env : LoopEnv) : Prop :=
  p.Ensures (fun _ _ => True) (fun env call r env' => env.relayed inputs call = (env', r))
    (fun env' _ r => Q env' r) env

section

variable {inputs : LoopInputs} {env env' env'' : LoopEnv} {exc : Exc} {row : OutboxRow}
  {rows : List OutboxRow} {published batchSize : Nat}

namespace LoopEnv

theorem Kept.trans (h : Kept env env') (h' : Kept env' env'') : Kept env env'' where
  table := h'.table.trans h.table
  sleeps := h'.sleeps.trans h.sleeps
  calls := h.calls.trans h'.calls

theorem Broke.earlier (h : Broke inputs env' env'' exc) (hcalls : env.calls ≤ env'.calls) :
    Broke inputs env env'' exc where
  fault := fun hcalm => h.fault fun n hn => hcalm n (hcalls.trans hn)
  exc := h.exc

theorem Broke.before (h : Broke inputs env' env'' exc) (hkept : Kept env env') :
    Broke inputs env env'' exc :=
  h.earlier hkept.calls

theorem Broke.after (h : Broke inputs env env' exc) (hkept : Kept env' env'') :
    Broke inputs env env'' exc where
  fault := fun hcalm => h.fault fun n hn hlt => hcalm n hn (lt_of_lt_of_le hlt hkept.calls)
  exc := h.exc

theorem broke_of_fault {fault : Fault} (hfault : inputs.fault env.calls = some fault)
    (hcalls : env'.calls = env.calls + 1) : Broke inputs env env' fault.exc where
  fault := by
    intro hcalm
    have hnone := hcalm env.calls le_rfl (by omega)
    simp [hfault] at hnone
  exc := fun honly => honly _ _ hfault

theorem relayed_cases {call : RelayCall} {r : Except Exc call.Reply}
    (h : env.relayed inputs call = (env', r)) :
    { env with calls := env.calls + 1 }.carryOut (inputs.clock env.calls) call = (env', r) ∨
      ∃ fault, inputs.fault env.calls = some fault ∧ r = .error fault.exc ∧
        env' = { env with calls := env.calls + 1 }.fail fault.applied call := by
  unfold relayed at h
  cases hfault : inputs.fault env.calls with
  | none =>
    simp only [hfault] at h
    exact .inl h
  | some fault =>
    simp only [hfault] at h
    cases h
    exact .inr ⟨fault, rfl, rfl, rfl⟩

/-- How an `UPDATE` ends: it aborts its transaction when it raises. -/
inductive Marked (inputs : LoopInputs) (env : LoopEnv) (id : Nat) :
    LoopEnv → Except Exc Unit → Prop
  | done {update : Update} (hlive : env.aborted = false) (hid : update.id = id)
      (hstatus : update.status ≠ .pending) :
      Marked inputs env id
        { env with calls := env.calls + 1, updates := update :: env.updates } (.ok ())
  | refused (haborted : env.aborted = true) :
      Marked inputs env id { env with calls := env.calls + 1 } (.error inFailedTransaction)
  | raised {fault : Fault} (hfault : inputs.fault env.calls = some fault) :
      Marked inputs env id { env with calls := env.calls + 1, aborted := true } (.error fault.exc)

theorem marked_of_relayed {id : Nat} {update : Update} {r : Except Exc Unit}
    (hid : update.id = id) (hstatus : update.status ≠ .pending)
    (h : ({ env with calls := env.calls + 1 } : LoopEnv).update update = (env', r) ∨
      ∃ fault, inputs.fault env.calls = some fault ∧ r = .error fault.exc ∧
        env' = { env with calls := env.calls + 1, aborted := true }) :
    Marked inputs env id env' r := by
  rcases h with h | ⟨fault, hfault, rfl, rfl⟩
  · unfold LoopEnv.update at h
    split at h
    · rename_i haborted
      cases h
      exact .refused haborted
    · rename_i hlive
      cases h
      exact .done (by simpa using hlive) hid hstatus
  · exact .raised hfault

theorem markPublished_marked {id : Nat} {r : Except Exc Unit}
    (h : env.relayed inputs (.markPublished id) = (env', r)) : Marked inputs env id env' r :=
  marked_of_relayed rfl (by simp [markPublished]) (relayed_cases h)

theorem markFailed_marked {id : Nat} {r : Except Exc Unit}
    (h : env.relayed inputs (.markFailed id) = (env', r)) : Marked inputs env id env' r :=
  marked_of_relayed rfl (by simp [markFailed]) (relayed_cases h)

/-- How the body of the `for` loop ends. -/
inductive RowEnd (inputs : LoopInputs) (env : LoopEnv) (row : OutboxRow) (env' : LoopEnv) :
    Except Exc Bool → Prop
  | settled {counts : Bool} {update : Update} (hkept : Kept env env') (hlive : env'.aborted = false)
      (hid : update.id = row.id) (hstatus : update.status ≠ .pending)
      (hupdates : env'.updates = update :: env.updates) : RowEnd inputs env row env' (.ok counts)
  | broke {exc : Exc} (hkept : Kept env env') (hbroke : Broke inputs env env' exc) :
      RowEnd inputs env row env' (.error exc)

theorem rowDone_does (hkept : Kept env env') (hbroke : Broke inputs env env' exc)
    (hupdates : env'.updates = env.updates) :
    Does inputs (rowDone row (.error exc)) (RowEnd inputs env row) env' := by
  change Does inputs (if exc.isException = true then _ else Proc.raise exc) _ _
  split
  · refine ⟨trivial, fun r env₁ h => ?_⟩
    have hnext : ∀ aborted, Kept env' { env' with calls := env'.calls + 1, aborted := aborted } :=
      fun _ => ⟨rfl, rfl, Nat.le_succ _⟩
    cases markFailed_marked h with
    | done hlive hid hstatus =>
      exact .settled (hkept.trans ⟨rfl, rfl, Nat.le_succ _⟩) hlive hid hstatus
        (congrArg (_ :: ·) hupdates)
    | refused haborted =>
      refine .broke (hkept.trans (hnext _)) ⟨(hbroke.after (hnext true)).fault, fun _ => rfl⟩
    | raised hfault =>
      exact .broke (hkept.trans (hnext true)) ((broke_of_fault hfault rfl).before hkept)
  · exact RowEnd.broke hkept hbroke

theorem publishRow_does (row : OutboxRow) (hlive : env.aborted = false) :
    Does inputs (publishRow row) (RowEnd inputs env row) env := by
  refine ⟨trivial, fun r env₁ h₁ => ?_⟩
  have hkept : ∀ calls aborted, env.calls ≤ calls →
      Kept env { env with calls := calls, aborted := aborted } := fun _ _ hle => ⟨rfl, rfl, hle⟩
  rcases relayed_cases h₁ with h₁ | ⟨fault, hfault, rfl, rfl⟩
  · cases h₁
    refine ⟨trivial, fun r env₂ h₂ => ?_⟩
    cases markPublished_marked h₂ with
    | done _ hid hstatus =>
      exact .settled ⟨rfl, rfl, Nat.le_add_right _ 2⟩ hlive hid hstatus rfl
    | refused haborted => simp [hlive] at haborted
    | raised hfault =>
      refine rowDone_does (hkept _ _ (Nat.le_add_right _ 2)) ?_ rfl
      exact (broke_of_fault hfault rfl).before (hkept _ _ (Nat.le_succ _))
  · exact rowDone_does (hkept _ _ (Nat.le_succ _)) (broke_of_fault hfault rfl) rfl

/-- How the `for` loop ends: all rows are settled, or a call raised by itself. -/
inductive RowsEnd (inputs : LoopInputs) (env : LoopEnv) (rows : List OutboxRow) (published : Nat)
    (env' : LoopEnv) : Except Exc Nat → Prop
  | settled {n : Nat} (hkept : Kept env env') (hlive : env'.aborted = false)
      (hcount : n ≤ published + rows.length) (hold : ∀ update ∈ env.updates, update ∈ env'.updates)
      (hstatus : ∀ update ∈ env'.updates, update ∈ env.updates ∨ update.status ≠ .pending)
      (hrows : ∀ row ∈ rows, ∃ update ∈ env'.updates, update.id = row.id) :
      RowsEnd inputs env rows published env' (.ok n)
  | broke {exc : Exc} (hkept : Kept env env') (hbroke : Broke inputs env env' exc) :
      RowsEnd inputs env rows published env' (.error exc)

theorem publishRows_does (rows : List OutboxRow) (published : Nat) (hlive : env.aborted = false) :
    Does inputs (publishRows rows published) (RowsEnd inputs env rows published) env := by
  induction rows generalizing env published with
  | nil =>
    exact RowsEnd.settled ⟨rfl, rfl, le_rfl⟩ hlive le_rfl (fun _ => id) (fun _ => .inl) (by simp)
  | cons row rows ih =>
    apply Proc.Ensures.bind (publishRow_does row hlive)
    · rintro env₁ ms counts hend
      cases hend with
      | @settled _ update hkept hlive₁ hid hstatus hupdates =>
        -- This row has its update, whether or not its send counts as published.
        have hrest : ∀ {published'}, published' ≤ published + 1 → Does inputs
            (publishRows rows published') (RowsEnd inputs env (row :: rows) published) env₁ := by
          intro published' hle
          apply (ih published' hlive₁).mono
          intro env₂ ms' r hend
          cases hend with
          | settled hkept₂ hlive₂ hcount hold hstatus₂ hrows =>
            refine .settled (hkept.trans hkept₂) hlive₂ ?_ ?_ ?_ ?_
            · simp only [List.length_cons]
              omega
            · exact fun update' hmem => hold _ (hupdates ▸ List.mem_cons_of_mem _ hmem)
            · intro update' hmem
              rcases hstatus₂ update' hmem with hmem' | hne
              · rw [hupdates] at hmem'
                rcases List.mem_cons.mp hmem' with rfl | hmem'
                · exact .inr hstatus
                · exact .inl hmem'
              · exact .inr hne
            · intro row' hrow'
              rcases List.mem_cons.mp hrow' with rfl | hrow'
              · exact ⟨update, hold _ (hupdates ▸ List.mem_cons_self), hid⟩
              · exact hrows row' hrow'
          | broke hkept₂ hbroke => exact .broke (hkept.trans hkept₂) (hbroke.before hkept)
        cases counts with
        | true => exact hrest le_rfl
        | false => exact hrest (Nat.le_succ _)
    · rintro env₁ ms exc hend
      cases hend with
      -- An exception out of one row ends the batch, and no later row is tried.
      | broke hkept hbroke => exact .broke hkept hbroke

end LoopEnv

/-! ## Counting what a commit settles -/

theorem Table.count_apply_add {table : Table} {rows : List OutboxRow} {updates : List Update}
    (hnodup : (rows.map (·.id)).Nodup)
    (hrows : ∀ row ∈ rows, ∃ stored ∈ table, stored.row = row ∧ stored.status = .pending)
    (hall : ∀ row ∈ rows, ∃ update ∈ updates, update.id = row.id)
    (hstatus : ∀ update ∈ updates, update.status ≠ .pending) :
    (table.apply updates).count .pending + rows.length ≤ table.count .pending := by
  let touched : Stored → Bool := fun stored =>
    decide (∃ update ∈ updates, update.id = stored.row.id)
  let pending := table.filter fun stored => stored.status = .pending
  have hsplit : pending.length =
      pending.countP touched + pending.countP fun stored => !touched stored := by
    simpa using pending.length_eq_countP_add_countP touched
  have hleft : (table.apply updates).count .pending ≤ pending.countP fun s => !touched s := by
    unfold Table.count Table.apply
    rw [List.countP_map, List.countP_filter]
    apply List.countP_mono_left
    intro stored _ hpending
    simp only [Function.comp_apply, decide_eq_true_eq] at hpending
    rcases stored.after_cases updates with ⟨update, hupdate, -, heq⟩ | ⟨hnone, heq⟩
    · rw [heq] at hpending
      exact absurd hpending (hstatus update hupdate)
    · rw [heq] at hpending
      simp only [touched, hpending]
      simpa using hnone
  have htouched : rows.length ≤ pending.countP touched := by
    -- The rows are distinct and each is touched, so that as many leave PENDING.
    have hsub : rows.map (·.id) ⊆ (pending.filter touched).map (·.row.id) := by
      intro id hid
      obtain ⟨row, hrow, rfl⟩ := List.mem_map.mp hid
      obtain ⟨stored, hstored, rfl, hpending⟩ := hrows row hrow
      refine List.mem_map.mpr ⟨stored, List.mem_filter.mpr ⟨List.mem_filter.mpr ⟨hstored, ?_⟩, ?_⟩,
        rfl⟩
      · simpa using hpending
      · simpa [touched] using hall _ hrow
    have hle := (List.subperm_of_subset hnodup hsub).length_le
    simpa [List.countP_eq_length_filter] using hle
  have hcount : table.count .pending = pending.length := List.countP_eq_length_filter
  omega

namespace LoopEnv

def pending (env : LoopEnv) : Nat := env.table.count .pending

/-- Between two batches. -/
structure Ready (env : LoopEnv) : Prop where
  updates : env.updates = []
  live : env.aborted = false
  keyed : env.table.Keyed

/-- How a batch ends: it takes a batch of rows off the PENDING ones, or a call raised by itself. -/
inductive BatchEnd (inputs : LoopInputs) (limit : Nat) (env env' : LoopEnv) : Except Exc Nat → Prop
  | committed {n : Nat} (hcount : n ≤ min limit env.pending)
      (hpending : env'.pending + min limit env.pending ≤ env.pending) :
      BatchEnd inputs limit env env' (.ok n)
  | broke {exc : Exc} (hpending : env'.pending ≤ env.pending) (hbroke : Broke inputs env env' exc) :
      BatchEnd inputs limit env env' (.error exc)

structure Batched (inputs : LoopInputs) (limit : Nat) (env env' : LoopEnv) (r : Except Exc Nat) :
    Prop where
  ready : env'.Ready
  sleeps : env'.sleeps = env.sleeps
  calls : env.calls ≤ env'.calls
  batch : BatchEnd inputs limit env env' r

theorem ready_close (h : env.table.Keyed) (commits : Bool) : (env.close commits).Ready where
  updates := rfl
  live := rfl
  keyed := by
    simp only [close]
    split
    · exact Table.apply_keyed h _
    · exact h

theorem close_pending_le (hstatus : ∀ update ∈ env.updates, update.status ≠ .pending)
    (commits : Bool) : (env.close commits).pending ≤ env.pending := by
  unfold pending close
  split
  · have hle : (env.table.apply env.updates).count .pending + ([] : List OutboxRow).length ≤
        env.table.count .pending :=
      Table.count_apply_add (by simp) (by simp) (by simp) hstatus
    simpa using hle
  · exact le_rfl

theorem rolledBack_does {limit : Nat} (hready : env.Ready) (hkept : Kept env env')
    (hbroke : Broke inputs env env' exc) :
    Does inputs (closeTransaction (.error exc)) (Batched inputs limit env) env' := by
  refine ⟨trivial, fun r env₁ h => ?_⟩
  have hclosed : env₁ = { env' with calls := env'.calls + 1 }.close false := by
    rcases relayed_cases h with h | ⟨fault, -, -, rfl⟩
    · cases h
      rfl
    · rfl
  subst hclosed
  have hkept' : Kept env ({ env' with calls := env'.calls + 1 }.close false) :=
    ⟨hkept.table, hkept.sleeps, hkept.calls.trans (Nat.le_succ _)⟩
  have hkeyed : env'.table.Keyed := by
    rw [hkept.table]
    exact hready.keyed
  have hend : ∀ {exc'}, Broke inputs env ({ env' with calls := env'.calls + 1 }.close false) exc' →
      Batched inputs limit env ({ env' with calls := env'.calls + 1 }.close false)
        (.error exc') := by
    intro exc' hbroke'
    refine ⟨ready_close (by exact hkeyed) false, hkept'.sleeps, hkept'.calls, .broke ?_ hbroke'⟩
    exact le_of_eq (congrArg (Table.count · .pending) hkept'.table)
  rcases relayed_cases h with h | ⟨fault, hfault, rfl, -⟩
  · cases h
    exact hend ⟨fun hcalm => hbroke.fault fun n hn hlt => hcalm n hn (Nat.lt_succ_of_lt hlt),
      hbroke.exc⟩
  · exact hend ((broke_of_fault hfault rfl).before hkept)

theorem committed_does {limit n : Nat} (hready : env.Ready) (hkept : Kept env env')
    (hlive : env'.aborted = false) (hcount : n ≤ min limit env.pending)
    (hstatus : ∀ update ∈ env'.updates, update.status ≠ .pending)
    (hrows : ∀ row ∈ env.table.fetch [] limit, ∃ update ∈ env'.updates, update.id = row.id) :
    Does inputs (closeTransaction (.ok n)) (Batched inputs limit env) env' := by
  refine ⟨trivial, fun r env₁ h => ?_⟩
  have hkeyed : env'.table.Keyed := by
    rw [hkept.table]
    exact hready.keyed
  have hcalls : env.calls ≤ env'.calls + 1 := hkept.calls.trans (Nat.le_succ _)
  rcases relayed_cases h with h | ⟨fault, hfault, rfl, rfl⟩
  · cases h
    refine ⟨ready_close (by exact hkeyed) true, hkept.sleeps, hcalls, .committed hcount ?_⟩
    have hpending : ∀ row ∈ env.table.fetch [] limit,
        ∃ stored ∈ env.table, stored.row = row ∧ stored.status = .pending := by
      intro row hrow
      obtain ⟨stored, hstored, heq, hpending, -⟩ := Table.mem_fetch hrow
      exact ⟨stored, hstored, heq, hpending⟩
    have hle := Table.count_apply_add (fetch_nodup hready.keyed [] limit) hpending hrows hstatus
    rw [length_fetch] at hle
    simpa [pending, close, hlive, hkept.table] using hle
  · refine ⟨ready_close (by exact hkeyed) _, hkept.sleeps, hcalls, .broke ?_ ?_⟩
    · have hle : (({ env' with calls := env'.calls + 1 } : LoopEnv).close fault.applied).pending ≤
          env'.pending := close_pending_le hstatus fault.applied
      exact hle.trans (le_of_eq (congrArg (Table.count · .pending) hkept.table))
    · exact (broke_of_fault hfault rfl).before hkept

theorem processBatch_does (limit : Nat) (hready : env.Ready) :
    Does inputs (processBatch limit) (Batched inputs limit env) env := by
  refine ⟨trivial, fun r env₁ h₁ => ?_⟩
  have hkept₁ : ∀ aborted, Kept env { env with calls := env.calls + 1, aborted := aborted } :=
    fun _ => ⟨rfl, rfl, Nat.le_succ _⟩
  rcases relayed_cases h₁ with h₁ | ⟨fault, hfault, rfl, rfl⟩
  · cases h₁
    change Does inputs ((do
      let rows ← relayCall (.fetch limit)
      publishRows rows 0).attempt closeTransaction) _ _
    apply Proc.Ensures.attempt
    refine ⟨trivial, fun r env₂ h₂ => ?_⟩
    rcases relayed_cases h₂ with h₂ | ⟨fault, hfault, rfl, rfl⟩
    · cases h₂
      have hkept₂ : Kept env { env with calls := env.calls + 1 + 1 } :=
        ⟨rfl, rfl, Nat.le_add_right _ 2⟩
      have hloop : Does inputs (publishRows (env.table.fetch [] limit) 0)
          (RowsEnd inputs { env with calls := env.calls + 1 + 1 } (env.table.fetch [] limit) 0)
          { env with calls := env.calls + 1 + 1 } := publishRows_does _ 0 hready.live
      refine hloop.mono fun env₃ ms r hend => ?_
      cases hend with
      | settled hkept hlive hcount hold hstatus hrows =>
        apply committed_does hready (hkept₂.trans hkept) hlive
        · rw [Nat.zero_add, length_fetch] at hcount
          exact hcount
        · intro update hmem
          have hnone : update ∉ env.updates := by simp [hready.updates]
          exact (hstatus update hmem).resolve_left hnone
        · exact hrows
      | broke hkept hbroke =>
        exact rolledBack_does hready (hkept₂.trans hkept) (hbroke.before hkept₂)
    · have hkept₂ : Kept env { env with calls := env.calls + 1 + 1, aborted := true } :=
        ⟨rfl, rfl, Nat.le_add_right _ 2⟩
      exact rolledBack_does hready hkept₂ ((broke_of_fault hfault rfl).before (hkept₁ env.aborted))
  · refine ⟨⟨hready.updates, hready.live, hready.keyed⟩, rfl, Nat.le_succ _, .broke le_rfl ?_⟩
    exact broke_of_fault hfault rfl

/-! ## A turn -/

/-- How a turn of the `while` loop ends: it sleeps or takes a row off the PENDING ones, and it takes
a batch off them unless a call raised by itself. Or it ends the loop, by a cancellation or because
the sleep of the `except` clause raised. -/
inductive TurnEnd (inputs : LoopInputs) (limit : Nat) (env env' : LoopEnv) : Except Exc Unit → Prop
  | goesOn (hready : env'.Ready) (hcalls : env.calls ≤ env'.calls)
      (hpending : env'.pending ≤ env.pending)
      (hrests : env.sleeps + 1 + env'.pending ≤ env'.sleeps + env.pending)
      (hprogress : inputs.Calm env.calls env'.calls →
        env'.pending + min limit env.pending ≤ env.pending) : TurnEnd inputs limit env env' (.ok ())
  | cancelled {exc : Exc} (hexc : exc.isException = false) (hcause : ¬ inputs.OnlyExceptions) :
      TurnEnd inputs limit env env' (.error exc)
  | unrested {exc : Exc} {n : Nat} (hcalls : env'.calls = n + 1)
      (hexc : inputs.errorSleep n = some exc) : TurnEnd inputs limit env env' (.error exc)

abbrev LoopDoes {A : Type} (inputs : LoopInputs) (p : LoopProgram A)
    (Q : LoopEnv → Except Exc A → Prop) (env : LoopEnv) : Prop :=
  p.Ensures (fun _ _ => True) (fun env call r env' => env.answer inputs call = (env', r))
    (fun env' _ r => Q env' r) env

theorem turnEnd_slept {limit : Nat} (hready : env'.Ready) (hcalls : env.calls ≤ env'.calls)
    (hsleeps : env'.sleeps = env.sleeps) (hpending : env'.pending ≤ env.pending)
    (hprogress : inputs.Calm env.calls env'.calls →
      env'.pending + min limit env.pending ≤ env.pending) :
    TurnEnd inputs limit env { env' with calls := env'.calls + 1, sleeps := env'.sleeps + 1 }
      (.ok ()) := by
  refine .goesOn ⟨hready.updates, hready.live, hready.keyed⟩ (by simp; omega) hpending ?_ ?_
  · simp only [pending] at hpending ⊢
    omega
  · exact fun hcalm => hprogress fun n hn hlt => hcalm n hn (Nat.lt_succ_of_lt hlt)

theorem loopError_does {limit : Nat} (hready : env'.Ready) (hcalls : env.calls ≤ env'.calls)
    (hsleeps : env'.sleeps = env.sleeps) (hpending : env'.pending ≤ env.pending)
    (hbroke : Broke inputs env env' exc) :
    LoopDoes inputs (loopError (.error exc)) (TurnEnd inputs limit env) env' := by
  change LoopDoes inputs (if exc.isException = true then Proc.call LoopCall.errorSleep
    else Proc.raise exc) _ _
  split
  · refine ⟨trivial, fun r env₁ h => ?_⟩
    simp only [answer, slept] at h
    cases hraised : inputs.errorSleep env'.calls with
    | none =>
      simp only [hraised] at h
      cases h
      exact turnEnd_slept hready hcalls hsleeps hpending fun hcalm => absurd hcalm hbroke.fault
    | some exc' =>
      simp only [hraised] at h
      cases h
      exact TurnEnd.unrested rfl hraised
  · rename_i hexc
    exact TurnEnd.cancelled (by simpa using hexc) fun honly => hexc (hbroke.exc honly)

theorem loopBody_does (limit : Nat) (hready : env.Ready) :
    LoopDoes inputs (loopBody limit) (TurnEnd inputs limit env) env := by
  have hbatch : LoopDoes inputs ((processBatch limit).within .relay fun _ reply => reply)
      (Batched inputs limit env) env := by
    refine Proc.Ensures.within (fun _ _ _ => trivial) ?_ (processBatch_does limit hready)
    intro env call r env' h
    cases r <;> exact h
  apply Proc.Ensures.attempt
  apply Proc.Ensures.bind hbatch
  · rintro env₁ ms n ⟨hready₁, hsleeps, hcalls, hend⟩
    cases hend with
    | committed hcount hpending =>
      split
      -- nothing was published: an idle sleep, and the `except` clause if that raises
      · refine ⟨trivial, fun r env₂ h => ?_⟩
        simp only [answer, slept] at h
        cases hfault : inputs.fault env₁.calls with
        | none =>
          simp only [hfault, Option.map_none] at h
          cases h
          exact turnEnd_slept hready₁ hcalls hsleeps (by omega) fun _ => hpending
        | some fault =>
          simp only [hfault, Option.map_some] at h
          cases h
          refine loopError_does ⟨hready₁.updates, hready₁.live, hready₁.keyed⟩ ?_ hsleeps ?_ ?_
          · exact hcalls.trans (Nat.le_succ _)
          · simp only [pending] at hpending ⊢
            omega
          · exact (broke_of_fault hfault rfl).earlier hcalls
      · exact TurnEnd.goesOn hready₁ hcalls (by omega) (by omega) fun _ => hpending
  · rintro env₁ ms exc ⟨hready₁, hsleeps, hcalls, hend⟩
    cases hend with
    | broke hpending hbroke => exact loopError_does hready₁ hcalls hsleeps hpending hbroke

end LoopEnv

end

/-! ## The loop -/

/-- How many of the calls before number `n` raise by themselves. -/
def LoopInputs.faults (inputs : LoopInputs) (n : Nat) : Nat :=
  (List.range n).countP fun k => (inputs.fault k).isSome

theorem LoopInputs.faults_mono (inputs : LoopInputs) {a b : Nat} (h : a ≤ b) :
    inputs.faults a ≤ inputs.faults b :=
  (List.range_sublist.mpr h).countP_le

theorem LoopInputs.faults_lt {inputs : LoopInputs} {a b : Nat} (hfault : ¬ inputs.Calm a b) :
    inputs.faults a < inputs.faults b := by
  simp only [Calm, not_forall] at hfault
  obtain ⟨n, hn, hlt, hsome⟩ := hfault
  have hnext : inputs.faults (n + 1) = inputs.faults n + 1 := by
    unfold faults
    rw [List.range_succ, List.countP_append]
    simp [Option.isSome_iff_ne_none.mpr hsome]
  have hbefore := inputs.faults_mono hn
  have hafter : inputs.faults (n + 1) ≤ inputs.faults b := inputs.faults_mono hlt
  omega

section

variable {inputs : LoopInputs} {batchSize : Nat} {env : LoopEnv}

/-- The loop rule: what holds of a run of no turns, of one that is stopped, of one whose next turn
ends it, and of one that goes on after its next turn. -/
theorem runLoop_induct (P : Nat → LoopEnv → LoopEnv × Option (Except Exc Unit) → Prop)
    (hzero : ∀ env, env.Ready → P 0 env (env, none))
    (hstop : ∀ fuel env, env.Ready → P (fuel + 1) env (env, some (.ok ())))
    (hends : ∀ fuel env env' exc, env.Ready →
      LoopEnv.TurnEnd inputs batchSize env env' (.error exc) →
      P (fuel + 1) env (env', some (.error exc)))
    (hgoes : ∀ fuel env env' r, env.Ready → LoopEnv.TurnEnd inputs batchSize env env' (.ok ()) →
      P fuel env' r → P (fuel + 1) env r) (fuel : Nat) (hready : env.Ready) :
    P fuel env (runLoop batchSize inputs fuel env) := by
  induction fuel generalizing env with
  | zero => exact hzero env hready
  | succ fuel ih =>
    have hturn : LoopEnv.TurnEnd inputs batchSize env ((loopBody batchSize).run
        (LoopEnv.answer inputs) env).1 ((loopBody batchSize).run (LoopEnv.answer inputs) env).2.2 :=
      Proc.Ensures.run_always (fun _ _ _ => rfl) (LoopEnv.loopBody_does batchSize hready)
    unfold runLoop
    split
    · exact hstop fuel env hready
    · cases houtcome : ((loopBody batchSize).run (LoopEnv.answer inputs) env).2.2 with
      | ok u =>
        rw [houtcome] at hturn
        simp only [houtcome]
        apply hgoes fuel env _ _ hready hturn
        cases hturn with
        | goesOn hready' => exact ih hready'
      | error exc =>
        rw [houtcome] at hturn
        simp only [houtcome]
        exact hends fuel env _ exc hready hturn

theorem runLoop_outcome (fuel : Nat) (hready : env.Ready) :
    ∀ exc, (runLoop batchSize inputs fuel env).2 = some (.error exc) →
      (exc.isException = false ∧ ¬ inputs.OnlyExceptions) ∨
        ∃ n, (runLoop batchSize inputs fuel env).1.calls = n + 1 ∧
          inputs.errorSleep n = some exc := by
  refine runLoop_induct (fun _ _ r => ∀ exc, r.2 = some (.error exc) →
    (exc.isException = false ∧ ¬ inputs.OnlyExceptions) ∨
      ∃ n, r.1.calls = n + 1 ∧ inputs.errorSleep n = some exc) ?_ ?_ ?_ ?_ fuel hready
  · simp
  · simp
  · rintro _ _ _ exc _ hturn _ ⟨⟩
    cases hturn with
    | cancelled hexc hcause => exact .inl ⟨hexc, hcause⟩
    | unrested hcalls hexc => exact .inr ⟨_, hcalls, hexc⟩
  · exact fun _ _ _ _ _ _ ih => ih

theorem runLoop_rests (fuel : Nat) (hready : env.Ready) :
    (runLoop batchSize inputs fuel env).2 = none →
      fuel + env.sleeps + (runLoop batchSize inputs fuel env).1.pending ≤
        (runLoop batchSize inputs fuel env).1.sleeps + env.pending := by
  refine runLoop_induct (fun fuel env r => r.2 = none →
    fuel + env.sleeps + r.1.pending ≤ r.1.sleeps + env.pending) ?_ ?_ ?_ ?_ fuel hready
  · simp
  · simp
  · simp
  · intro fuel env env' r _ hturn ih hnone
    have hle := ih hnone
    cases hturn with
    | goesOn _ _ _ hrests _ => omega

theorem ceil_step {p p' b : Nat} (hb : 1 ≤ b) (hp : 0 < p) (h : p' + min b p ≤ p) :
    (p' + b - 1) / b + 1 ≤ (p + b - 1) / b := by
  rcases Nat.lt_or_ge p b with hlt | hge
  · have hzero : (p' + b - 1) / b = 0 := Nat.div_eq_of_lt (by omega)
    have hone : 0 < (p + b - 1) / b := Nat.div_pos (by omega) hb
    omega
  · rw [← Nat.add_div_right _ hb]
    apply Nat.div_le_div_right
    omega

theorem runLoop_drains (hbatch : 1 ≤ batchSize) {n : Nat} (hfaults : ∀ k, inputs.faults k ≤ n)
    (fuel : Nat) (hready : env.Ready)
    (hfuel : n - inputs.faults env.calls + (env.pending + batchSize - 1) / batchSize ≤ fuel)
    (hnone : (runLoop batchSize inputs fuel env).2 = none) :
    (runLoop batchSize inputs fuel env).1.pending = 0 := by
  refine (runLoop_induct (fun fuel env r => r.2 = none →
    r.1.pending ≤ env.pending ∧
      (n - inputs.faults env.calls + (env.pending + batchSize - 1) / batchSize ≤ fuel →
        r.1.pending = 0)) ?_ ?_ ?_ ?_ fuel hready hnone).2 hfuel
  · intro env _ _
    refine ⟨le_rfl, fun hle => ?_⟩
    have hceil : (env.pending + batchSize - 1) / batchSize = 0 :=
      Nat.le_zero.mp ((Nat.le_add_left _ _).trans hle)
    have hlt := Nat.lt_of_div_eq_zero hbatch hceil
    show env.pending = 0
    omega
  · simp
  · simp
  · intro fuel env env' r _ hturn ih hnone
    obtain ⟨hrest, hzero⟩ := ih hnone
    cases hturn with
    | goesOn _ hcalls hpending _ hprogress =>
      refine ⟨hrest.trans hpending, fun hle => ?_⟩
      rcases Nat.eq_zero_or_pos env.pending with hnothing | hpos
      · omega
      · apply hzero
        by_cases hcalm : inputs.Calm env.calls env'.calls
        · have hmono := inputs.faults_mono hcalls
          have hceil := ceil_step hbatch hpos (hprogress hcalm)
          omega
        · have hlt := LoopInputs.faults_lt hcalm
          have hbound := hfaults env'.calls
          have hceil : (env'.pending + batchSize - 1) / batchSize ≤
              (env.pending + batchSize - 1) / batchSize := Nat.div_le_div_right (by omega)
          omega

/-- An `Exception` ends the loop of the relay only out of the sleep in its `except` clause. Each
turn that goes on sleeps or takes a row off the PENDING ones. When `n` calls raise at most, none of
them such a sleep or by a cancellation, the loop ends by `stop()` only, and no row is PENDING after
`n` turns and one more for each batch of rows. -/
theorem relay_loop {batchSize : Nat} (hbatch : 1 ≤ batchSize) (inputs : LoopInputs) (fuel : Nat)
    {env : LoopEnv} (hready : env.Ready) :
    (∀ exc, (runLoop batchSize inputs fuel env).2 = some (.error exc) → exc.isException = true →
      ∃ n, (runLoop batchSize inputs fuel env).1.calls = n + 1 ∧
        inputs.errorSleep n = some exc) ∧
    ((runLoop batchSize inputs fuel env).2 = none →
      fuel + env.sleeps + (runLoop batchSize inputs fuel env).1.pending ≤
        (runLoop batchSize inputs fuel env).1.sleeps + env.pending) ∧
    (inputs.OnlyExceptions → (∀ n, inputs.errorSleep n = none) →
      ∀ n, (∀ k, inputs.faults k ≤ n) → n + (env.pending + batchSize - 1) / batchSize ≤ fuel →
        (runLoop batchSize inputs fuel env).2 = some (.ok ()) ∨
          (runLoop batchSize inputs fuel env).2 = none ∧
            (runLoop batchSize inputs fuel env).1.pending = 0) := by
  refine ⟨fun exc h hexc => ?_, runLoop_rests fuel hready, ?_⟩
  · rcases runLoop_outcome fuel hready exc h with ⟨hcancelled, -⟩ | hsleep
    · simp [hcancelled] at hexc
    · exact hsleep
  · intro honly hsleep n hfaults hfuel
    cases hend : (runLoop batchSize inputs fuel env).2 with
    | none => exact .inr ⟨rfl, runLoop_drains hbatch hfaults fuel hready (by omega) hend⟩
    | some outcome =>
      cases outcome with
      | ok u => exact .inl rfl
      | error exc =>
        rcases runLoop_outcome fuel hready exc hend with ⟨-, hcause⟩ | ⟨k, -, hraised⟩
        · exact absurd honly hcause
        · simp [hsleep k] at hraised

/-- A send that fails, a commit that is lost, and an idle sleep that raises. -/
def looseCommit : LoopInputs where
  fault := fun n =>
    if n = 2 then some ⟨⟨.exception "KafkaTimeoutError", ""⟩, false⟩
    else if n = 6 then some ⟨⟨.exception "ConnectionDoesNotExistError", ""⟩, false⟩
    else if n = 23 then some ⟨⟨.exception "RuntimeError", "idle"⟩, false⟩
    else none
  errorSleep := fun _ => none
  clock := fun n => n
  stopped := fun _ => false

/-- And the sleep after that raises as well. -/
def noSleep : LoopInputs :=
  { looseCommit with
    errorSleep := fun n => if n = 24 then some ⟨.exception "RuntimeError", "error"⟩ else none }

theorem looseCommit_faults (k : Nat) : looseCommit.faults k ≤ 3 := by
  have hsub : (List.range k).filter (fun n => (looseCommit.fault n).isSome) ⊆ [2, 6, 23] := by
    intro n hn
    have hsome := (List.mem_filter.mp hn).2
    simp only [looseCommit] at hsome
    split_ifs at hsome <;> simp_all
  have hle := (List.subperm_of_subset (List.nodup_range.filter _) hsub).length_le
  rwa [← List.countP_eq_length_filter] at hle

theorem looseCommit_onlyExceptions : looseCommit.OnlyExceptions := by
  intro n fault hfault
  simp only [looseCommit] at hfault
  split_ifs at hfault <;> cases hfault <;> rfl

theorem relay_loop_looseCommit :
    let env : LoopEnv := ⟨[1, 2, 3].map fun id =>
      ⟨⟨id, "orders", "order-123", "\x7b\x7d"⟩, .pending, 0, none⟩, [], false, 0, 0⟩
    (runLoop 2 looseCommit 5 env).1.table.map (·.status) = [.published, .published, .published] ∧
      (runLoop 2 looseCommit 5 env).1.pending = 0 ∧
      (runLoop 2 noSleep 5 env).2 = some (.error ⟨.exception "RuntimeError", "error"⟩) ∧
      ∃ n, (runLoop 2 noSleep 5 env).1.calls = n + 1 ∧
        noSleep.errorSleep n = some ⟨.exception "RuntimeError", "error"⟩ := by
  intro env
  have hrun : (runLoop 2 looseCommit 5 env).1.table.map (·.status) =
      [.published, .published, .published] := by
    decide +kernel
  have hgoes : (runLoop 2 looseCommit 5 env).2.isNone = true := by
    decide +kernel
  have hends : (runLoop 2 noSleep 5 env).2 =
      some (.error ⟨.exception "RuntimeError", "error"⟩) := by
    decide +kernel
  have hready : env.Ready := ⟨rfl, rfl, by unfold Table.Keyed; decide⟩
  have htwo : 1 ≤ 2 := by decide
  have hend := (relay_loop htwo looseCommit 5 hready).2.2 looseCommit_onlyExceptions
    (fun _ => rfl) 3 looseCommit_faults (by decide)
  refine ⟨hrun, ?_, hends, (relay_loop htwo noSleep 5 hready).1 _ hends rfl⟩
  rw [Option.isNone_iff_eq_none] at hgoes
  rcases hend with hstopped | ⟨-, hpending⟩
  · simp [hgoes] at hstopped
  · exact hpending

end

end MessageDedup
