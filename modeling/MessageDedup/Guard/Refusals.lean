import MessageDedup.Guard.AtMostOnce

/-!
# What a refused claim hides

A use whose first claim is refused says that its key was processed already. That is true of a key
that is PROCESSING. A key that was COMPLETED in the meantime has a result that the use does not
give, and a key that has FAILED for good was never processed.
-/

namespace MessageDedup

open Transition (Reach System replay)

variable {V R : Type}

/-! ## The statements -/

/-- FAILED for good. -/
def Cell.Exhausted (config : DeduplicationConfig) (cell : Cell) : Prop :=
  cell.status = .failed ∧ ¬ cell.Retryable config

instance (config : DeduplicationConfig) (cell : Cell) : Decidable (cell.Exhausted config) :=
  inferInstanceAs (Decidable (_ ∧ _))

/-- Each refused first claim met a record that was PROCESSING. -/
def Callers.NothingHidden {backend : Backend V R} (s : Callers backend) : Prop :=
  ∀ n found, (n, .refused found) ∈ s.log → ∃ cell, found = some cell ∧ cell.status = .processing

/-- On this record, the call completes the key or marks it FAILED for good. -/
def Call.Settles (backend : Backend V R) (cell : Cell) : Call V → Prop
  | .markCompleted _ _ => cell.status = .processing
  | .markFailed _ _ attempts =>
    (backend.guarded = true → cell.status = .processing) ∧
      ¬ (backend.config.retryFailed = true ∧ attempts < backend.config.maxRetries)
  | _ => False

def StoreOp.toCall : StoreOp V → Option (Call V)
  | .claim m => some (.claim m)
  | .markCompleted m result => some (.markCompleted m result)
  | .markFailed m error attempts => some (.markFailed m error attempts)
  | .getStatus m => some (.getStatus m)
  | .isDuplicate _ | .delete _ => none

namespace GuardedKey

variable (g : GuardedKey V R) (s : Callers g.backend)

/-- The call that a step ends, and how it ends. -/
def Ends (call : Call V) (outcome : Outcome V) : Activity V → Prop
  | .act n o => ∃ c, s.caller n = some c ∧ call = c.use.callOf g.key ∧ outcome = o
  | .others op => op.toCall = some call ∧ outcome = .done none
  | _ => False

/-- The step carries out a call on the key. -/
structure CarriesOut (a : Activity V) (call : Call V) : Prop where
  key : call.key = some g.key
  ends : ∃ outcome, g.Ends s call outcome a ∧ outcome.applied = true
  returns : ∃ r, g.backend.perform s.store s.now none call = .ok r

/-- No `get_status` of a use finds the key FAILED for good, and nobody completes the key or marks it
FAILED for good while a use is between its `get_status` and its first claim. -/
structure Undisturbed (a : Activity V) : Prop where
  looks : ∀ n result c cell, a = .act n (.done result) → s.caller n = some c →
    c.use.opening = some .getStatus → g.cell s = some cell → ¬ cell.Exhausted g.backend.config
  claims : ∀ n c, s.caller n = some c → c.use.opening = some .claim →
    ∀ call cell, g.CarriesOut s a call → g.cell s = some cell → ¬ call.Settles g.backend cell

end GuardedKey

/-! ## The record is never SKIPPED -/

def Cell.NotSkipped (record : Option Cell) : Prop := ∀ cell ∈ record, cell.status ≠ .skipped

namespace Cell

theorem NotSkipped.none : NotSkipped none := nofun

theorem NotSkipped.claimed (lease : Int) (record : Option Cell) :
    NotSkipped (some (claimed lease record)) := by
  rintro _ ⟨⟩
  simp

theorem NotSkipped.completed {record : Option Cell} (h : NotSkipped record) :
    NotSkipped (record.map Cell.completed) := by
  intro cell' hcell'
  obtain ⟨cell, hcell, rfl⟩ := Option.map_eq_some_iff.mp hcell'
  unfold Cell.completed
  split
  · simp
  · exact h cell hcell

theorem NotSkipped.markedFailed {record : Option Cell} (h : NotSkipped record) (guarded : Bool)
    (attempts : Int) : NotSkipped (record.map (Cell.markedFailed guarded attempts)) := by
  intro cell' hcell'
  obtain ⟨cell, hcell, rfl⟩ := Option.map_eq_some_iff.mp hcell'
  unfold Cell.markedFailed
  split
  · exact h cell hcell
  · simp

end Cell

section

variable {backend : Backend V R} {s : backend.State} {now : Int} {key : String}

theorem Call.notSkipped {record : Option Cell} (h : Cell.NotSkipped record) (call : Call V) :
    Cell.NotSkipped (call.effect backend now record) := by
  cases call with
  | claim m =>
    simp only [effect]
    split
    · exact .claimed _ _
    · exact h
  | markFailed m error attempts => exact h.markedFailed _ _
  | markCompleted m result => exact h.completed
  | getStatus _ | handle _ | sleep _ | sendAndWait _ _ _ | commit => exact h

variable (backend s now key) in
theorem Backend.cell_delete (m : String) :
    backend.store.cell (backend.store.delete s m) now key = none ∨
      backend.store.cell (backend.store.delete s m) now key = backend.store.cell s now key := by
  cases backend with
  | inMemory config =>
    rcases eq_or_ne key m with rfl | hne
    · exact .inl (congrArg _ (Function.update_self _ _ _))
    · exact .inr (congrArg _ (Function.update_of_ne hne _ _))
  | redis config codec =>
    rcases eq_or_ne key m with rfl | hne
    · left
      refine (Redis.cell_eq now).trans ?_
      simp [Keyspace.get, Keyspace.entryAt, Keyspace.del, store, storeOn, redisStoreOn,
        Redis.delete]
    · right
      refine (Redis.cell_eq now).trans (Eq.trans ?_ (Redis.cell_eq now).symm)
      have hget := Keyspace.get_congr
        (Function.update_of_ne (redisKey_injective.ne hne) none s) (Redis.nowMs now)
      exact congrArg _ hget

theorem Backend.after_cases (s : backend.State) (now : Int) (op : StoreOp V) :
    (∃ call, op.toCall = some call ∧
        backend.store.after s now op = (backend.answer s now call (.done none)).1) ∨
      (op.toCall = none ∧
        (backend.store.after s now op = s ∨
          ∃ m, backend.store.after s now op = backend.store.delete s m)) := by
  cases op with
  | isDuplicate m => exact .inr ⟨rfl, .inl rfl⟩
  | delete m => exact .inr ⟨rfl, .inr ⟨m, rfl⟩⟩
  | getStatus m => exact .inl ⟨_, rfl, rfl⟩
  | claim m =>
    refine .inl ⟨_, rfl, ?_⟩
    simp only [DeduplicationStore.after, DeduplicationStore.call, answer, perform]
    cases backend.store.claim s now m <;> rfl
  | markCompleted m result =>
    refine .inl ⟨_, rfl, ?_⟩
    simp only [DeduplicationStore.after, DeduplicationStore.call, answer, perform]
    cases backend.store.markCompleted s now m result <;> rfl
  | markFailed m error attempts =>
    refine .inl ⟨_, rfl, ?_⟩
    simp only [DeduplicationStore.after, DeduplicationStore.call, answer, perform]
    cases backend.store.markFailed s now m error attempts <;> rfl

theorem Backend.perform_notSkipped {s' : backend.State} {result : Option V} {call : Call V}
    {reply : call.Reply} (h : Cell.NotSkipped (backend.store.cell s now key))
    (hp : backend.perform s now result call = .ok (s', reply)) :
    Cell.NotSkipped (backend.store.cell s' now key) := by
  by_cases hkey : call.key = some key
  · rw [perform_self hp (.inl hkey)]
    exact call.notSkipped h
  · rw [perform_other hp hkey]
    exact h

theorem Backend.answer_notSkipped (h : Cell.NotSkipped (backend.store.cell s now key))
    (call : Call V) (outcome : Outcome V) :
    Cell.NotSkipped (backend.store.cell (backend.answer s now call outcome).1 now key) := by
  have hcases : (backend.answer s now call outcome).1 = s ∨ ∃ result reply,
      backend.perform s now result call = .ok ((backend.answer s now call outcome).1, reply) :=
    answer_cases call outcome
  rcases hcases with hsame | ⟨result, reply, hp⟩
  · rw [hsame]
    exact h
  · exact perform_notSkipped h hp

theorem Backend.after_notSkipped (h : Cell.NotSkipped (backend.store.cell s now key))
    (op : StoreOp V) :
    Cell.NotSkipped (backend.store.cell (backend.store.after s now op) now key) := by
  rcases after_cases s now op with ⟨call, -, hafter⟩ | ⟨-, hafter | ⟨m, hafter⟩⟩ <;> rw [hafter]
  · exact answer_notSkipped h call _
  · exact h
  · rcases backend.cell_delete s now key m with hnone | hsame
    · rw [hnone]
      exact .none
    · rwa [hsame]

end

theorem GuardedKey.notSkipped_step {g : GuardedKey V R} {s s' : Callers g.backend} {a : Activity V}
    (h : Cell.NotSkipped (g.cell s)) (hstep : g.Stepped s a s') : Cell.NotSkipped (g.cell s') := by
  cases hstep with
  | tick d =>
    have hle : s.now ≤ s.now + d := by omega
    rcases g.backend.lawful.expires hle with hsame | hnone
    · exact fun cell hcell => h cell (hsame.symm.trans hcell)
    · exact fun cell hcell => by cases hnone.symm.trans hcell
  | block payload | call self arguments hkey | enter hc hwork hentered => exact h
  | act outcome hc hentered => exact Backend.answer_notSkipped h _ outcome
  | others op => exact Backend.after_notSkipped h op


/-! ## Records that are over -/

/-- COMPLETED, or FAILED for good. -/
def Cell.Over (config : DeduplicationConfig) (cell : Cell) : Prop :=
  cell.status = .completed ∨ cell.Exhausted config

theorem Cell.processing_of_refused {config : DeduplicationConfig} {now : Int} {cell : Cell}
    (hclaim : ¬ Claimable config now (some cell)) (hover : ¬ cell.Over config)
    (hskipped : cell.status ≠ .skipped) : cell.status = .processing := by
  cases hstatus : cell.status with
  | processing => rfl
  | completed => exact absurd (.inl hstatus) hover
  | skipped => exact absurd hstatus hskipped
  | failed =>
    rw [claimable_failed hstatus] at hclaim
    exact absurd (.inr ⟨hstatus, hclaim⟩) hover

theorem Cell.Over.not_claimable {config : DeduplicationConfig} {now : Int} {cell : Cell}
    (h : cell.Over config) : ¬ Claimable config now (some cell) := by
  rcases h with hdone | ⟨hfailed, hlost⟩
  · exact not_claimable_completed hdone
  · rwa [claimable_failed hfailed]

theorem Cell.not_over_of_processing {config : DeduplicationConfig} {cell : Cell}
    (h : cell.status = .processing) : ¬ cell.Over config := by
  simp [Over, Exhausted, h]

section

variable {backend : Backend V R} {s : backend.State} {now : Int} {key : String}
  {record : Option Cell} {call : Call V}

theorem Call.effect_open (hopen : ∀ cell ∈ record, ¬ cell.Over backend.config)
    (h : ∀ cell, record = some cell → ¬ call.Settles backend cell) :
    ∀ cell ∈ call.effect backend now record, ¬ cell.Over backend.config := by
  intro cell' hcell'
  cases call with
  | claim m =>
    simp only [effect] at hcell'
    split at hcell'
    · obtain rfl := Option.some.inj hcell'
      exact Cell.not_over_of_processing rfl
    · exact hopen cell' hcell'
  | markFailed m error attempts =>
    obtain ⟨cell, hcell, rfl⟩ := Option.map_eq_some_iff.mp hcell'
    have hset := h cell hcell
    unfold Cell.markedFailed
    split
    · exact hopen cell hcell
    · rename_i hmarks
      push Not at hmarks
      have hretry : backend.config.retryFailed = true ∧ attempts < backend.config.maxRetries := by
        by_contra hno
        exact hset ⟨hmarks, hno⟩
      rintro (hdone | ⟨-, hlost⟩)
      · cases hdone
      · exact hlost ⟨rfl, hretry⟩
  | markCompleted m result =>
    obtain ⟨cell, hcell, rfl⟩ := Option.map_eq_some_iff.mp hcell'
    have hidle : cell.status ≠ .processing := h cell hcell
    unfold Cell.completed
    rw [if_neg hidle]
    exact hopen cell hcell
  | getStatus _ | handle _ | sleep _ | sendAndWait _ _ _ | commit => exact hopen cell' hcell'

theorem Call.Settles.over {cell : Cell} (h : call.Settles backend cell) :
    ∃ cell', call.effect backend now (some cell) = some cell' ∧ cell'.Over backend.config := by
  cases call with
  | markCompleted m result =>
    refine ⟨_, rfl, .inl ?_⟩
    have hprocessing : cell.status = .processing := h
    unfold Cell.completed
    rw [if_pos hprocessing]
  | markFailed m error attempts =>
    refine ⟨_, rfl, .inr ?_⟩
    have hmarks : ¬ (backend.guarded = true ∧ cell.status ≠ .processing) :=
      fun hspared => hspared.2 (h.1 hspared.1)
    unfold Cell.markedFailed
    rw [if_neg hmarks]
    exact ⟨rfl, fun hretry => h.2 hretry.2⟩
  | claim _ | getStatus _ | handle _ | sleep _ | sendAndWait _ _ _ | commit => exact h.elim

theorem Backend.perform_result (result : Option V) (hkey : call.key ≠ none) :
    backend.perform s now result call = backend.perform s now none call := by
  cases call with
  | handle payload => exact absurd rfl hkey
  | _ => rfl

theorem Backend.answer_applied {outcome : Outcome V} (happlied : outcome.applied = true)
    (hreturns : ∃ r, backend.perform s now none call = .ok r) (hkey : call.key = some key) :
    backend.store.cell (backend.answer s now call outcome).1 now key =
      call.effect backend now (backend.store.cell s now key) := by
  obtain ⟨⟨s', reply⟩, hp⟩ := hreturns
  cases outcome with
  | done result =>
    rw [← perform_result result (by simp [hkey])] at hp
    simp only [answer, hp]
    exact perform_self hp (.inl hkey)
  | raised exc applied =>
    obtain rfl : applied = true := happlied
    simp only [answer, hp, if_true]
    exact perform_self hp (.inl hkey)

theorem Backend.answer_carried (call : Call V) (outcome : Outcome V) :
    backend.store.cell (backend.answer s now call outcome).1 now key =
        backend.store.cell s now key ∨
      (outcome.applied = true ∧ call.key = some key ∧
        (∃ r, backend.perform s now none call = .ok r) ∧
        backend.store.cell (backend.answer s now call outcome).1 now key =
          call.effect backend now (backend.store.cell s now key)) := by
  by_cases hkey : call.key = some key
  · rcases answer_cases call outcome with hsame | ⟨result, reply, hp⟩
    · rw [hsame]
      exact .inl rfl
    · by_cases happlied : outcome.applied = true
      · have hreturns := hp
        rw [perform_result result (by simp [hkey])] at hreturns
        exact .inr ⟨happlied, hkey, ⟨_, hreturns⟩, perform_self hp (.inl hkey)⟩
      · left
        cases outcome with
        | done result => exact absurd rfl happlied
        | raised exc applied =>
          obtain rfl : applied = false := by simpa [Outcome.applied] using happlied
          simp only [answer]
          cases backend.perform s now none call <;> rfl
  · exact .inl (answer_other outcome hkey now)

end

namespace GuardedKey

variable {g : GuardedKey V R} {s s' : Callers g.backend} {a : Activity V}

theorem cell_step (hstep : g.Stepped s a s') :
    g.cell s' = g.cell s ∨ g.cell s' = none ∨
      ∃ call, g.CarriesOut s a call ∧ g.cell s' = call.effect g.backend s.now (g.cell s) := by
  cases hstep with
  | tick d =>
    have hle : s.now ≤ s.now + d := by omega
    rcases g.backend.lawful.expires hle with hsame | hnone
    · exact .inl hsame
    · exact .inr (.inl hnone)
  | block payload | call self arguments hkey | enter hc hwork hentered => exact .inl rfl
  | @act n c outcome hc hentered =>
    rcases g.backend.answer_carried (c.use.callOf g.key) outcome with
      hsame | ⟨happlied, hkey, hreturns, heffect⟩
    · exact .inl hsame
    · exact .inr (.inr ⟨_, ⟨hkey, ⟨outcome, ⟨c, hc, rfl, rfl⟩, happlied⟩, hreturns⟩, heffect⟩)
  | others op =>
    rcases Backend.after_cases s.store s.now op with
      ⟨call, hcall, hafter⟩ | ⟨-, hafter | ⟨m, hafter⟩⟩
    · simp only [GuardedKey.cell, hafter]
      rcases g.backend.answer_carried call (.done none) with
        hsame | ⟨happlied, hkey, hreturns, heffect⟩
      · exact .inl hsame
      · exact .inr (.inr ⟨_, ⟨hkey, ⟨_, ⟨hcall, rfl⟩, happlied⟩, hreturns⟩, heffect⟩)
    · simp only [GuardedKey.cell, hafter, true_or]
    · simp only [GuardedKey.cell, hafter]
      rcases g.backend.cell_delete s.store s.now g.key m with hnone | hsame
      · exact .inr (.inl hnone)
      · exact .inl hsame

end GuardedKey

/-! ## What a refusal says -/

theorem Call.refused_findings {first : Bool} {found found' : Option Cell} {call : Call V}
    {reply : Except Exc call.Reply} (h : .refused found' ∈ call.findings first found reply) :
    first = true ∧ found' = found ∧ (∃ r, reply = .ok r) ∧ ∀ p, call.Tells p reply → ¬ p := by
  cases call with
  | claim m =>
    rcases reply with e | claimed
    · cases h
    · change Bool at claimed
      cases first <;> cases claimed
      · cases h
      · cases h
      · obtain rfl := Note.refused.inj (List.mem_singleton.mp h)
        exact ⟨rfl, rfl, ⟨false, rfl⟩, fun p htells hp => by cases htells.mpr hp⟩
      · cases h
  | getStatus m =>
    rcases reply with e | existing
    · cases h
    · cases List.mem_singleton.mp h
  | _ => rcases reply with e | r <;> cases h

theorem Caller.refused_mem {key : String} {found found' : Option Cell} {lease : Int}
    {applied : Bool} {c : Caller V} {reply : Except Exc (c.use.callOf key).Reply}
    (h : .refused found' ∈ c.notes key found lease applied reply) :
    .refused found' ∈ (c.use.callOf key).findings c.use.atFirstClaim found reply := by
  unfold Caller.notes at h
  rw [List.mem_append, List.mem_append] at h
  rcases h with h | h | h
  · exact absurd h (UseNext.not_mem_notes (by rintro _ ⟨⟩))
  · obtain ⟨event, -, hrefused⟩ := List.mem_map.mp h
    simp at hrefused
  · exact h

namespace GuardedKey

variable {g : GuardedKey V R} {s s' : Callers g.backend} {a : Activity V} {n : Nat} {c : Caller V}

/-- No use is at its first claim on a record that is over. -/
def WaitsOpen (g : GuardedKey V R) (s : Callers g.backend) : Prop :=
  ∀ n c, s.caller n = some c → c.use.opening = some .claim →
    ∀ cell, g.cell s = some cell → ¬ cell.Over g.backend.config

theorem nothingHidden_step (h : s.NothingHidden) (hskipped : Cell.NotSkipped (g.cell s))
    (hwaits : g.WaitsOpen s) (hstep : g.Stepped s a s') : s'.NothingHidden := by
  cases hstep with
  | tick d => exact h
  | block payload => exact h
  | call self arguments hkey => exact h
  | others op => exact h
  | @enter n c hc hwork hentered =>
    intro k found hmem
    rcases (Callers.moved_note s n _ _).mem_log.mp hmem with ⟨-, hnote⟩ | hold
    · cases List.mem_singleton.mp hnote
    · exact h k found hold
  | @act n c outcome hc hentered =>
    intro k found hmem
    rcases (moved_acted s n c outcome).mem_log.mp hmem with ⟨-, hnote⟩ | hold
    · obtain ⟨hfirst, rfl, ⟨r, hreply⟩, htells⟩ := Call.refused_findings (Caller.refused_mem hnote)
      have hanswered := g.backend.answered s.store s.now outcome (c.use.callOf_key g.key)
      have hrefused : ¬ Cell.Claimable g.backend.config s.now (g.cell s) :=
        htells _ hanswered.tells
      cases hcell : g.cell s with
      | none =>
        rw [hcell] at hrefused
        exact absurd trivial hrefused
      | some cell =>
        rw [hcell] at hrefused
        have hover := hwaits n c hc (of_decide_eq_true hfirst) cell hcell
        exact ⟨cell, rfl, Cell.processing_of_refused hrefused hover (hskipped cell hcell)⟩
    · exact h k found hold

/-! ## Between a `get_status` and the claim after it -/

theorem claims_step (hstep : g.Stepped s a s') (hc' : s'.caller n = some c)
    (hclaim : c.use.opening = some .claim) :
    s.caller n = some c ∨ g.cell s' = g.cell s ∧
      completedRecord (g.backend.store.getStatus s.store s.now g.key) = none ∧
      ∃ old result, a = .act n (.done result) ∧ s.caller n = some old ∧
        old.use.opening = some .getStatus := by
  have hstart : ∀ use : Use V, use.opening = some .getStatus →
      (s.start use).caller n = some c → s.caller n = some c := by
    intro use hstatus hc'
    rcases eq_or_ne n s.calls with rfl | hne
    · obtain rfl := Option.some.inj ((Callers.setCaller_self s _ _).symm.trans hc')
      cases hstatus.symm.trans hclaim
    · exact ((Callers.moved_start s use).other n hne).symm.trans hc'
  cases hstep with
  | tick d | others op => exact .inl hc'
  | block payload => exact .inl (hstart _ rfl hc')
  | call self arguments hkey => exact .inl (hstart _ rfl hc')
  | @enter k old hold hwork hentered =>
    rcases eq_or_ne n k with rfl | hne
    · obtain rfl := Option.some.inj ((Callers.setCaller_self _ n _).symm.trans hc')
      cases (Use.opening_of_atWork hwork).symm.trans hclaim
    · exact .inl (((Callers.moved_note s k _ _).other n hne).symm.trans hc')
  | @act k old outcome hold hentered =>
    rcases eq_or_ne n k with rfl | hne
    · obtain ⟨hstatus, ⟨result, rfl⟩, hshown⟩ := (acted_onward hc').claims hclaim
      refine .inr ⟨?_, hshown, old, result, rfl, hold, hstatus⟩
      obtain ⟨use, entered, l⟩ := old
      rcases Use.opening_cases hstatus with ⟨payload, rfl⟩ | ⟨self, arguments, rfl⟩ <;> rfl
    · exact .inl (((moved_acted s k old outcome).other n hne).symm.trans hc')

theorem waits_step (hwaits : g.WaitsOpen s) (hund : g.Undisturbed s a)
    (hstep : g.Stepped s a s') : g.WaitsOpen s' := by
  intro n c hc' hclaim cell hcell
  rcases claims_step hstep hc' hclaim with hc | ⟨hsame, hshown, old, result, rfl, hold, hstatus⟩
  · rcases cell_step hstep with hsame | hnone | ⟨call, hcarries, heffect⟩
    · exact hwaits n c hc hclaim cell (hsame.symm.trans hcell)
    · cases hnone.symm.trans hcell
    · exact Call.effect_open (hwaits n c hc hclaim)
        (fun cell => hund.claims n c hc hclaim call cell hcarries) cell (heffect.symm.trans hcell)
  · rw [hsame] at hcell
    rintro (hdone | hlost)
    · obtain ⟨record, hrecord, rfl⟩ := Option.map_eq_some_iff.mp hcell
      rw [hrecord] at hshown
      exact (Option.filter_eq_none_iff.mp hshown) record rfl (decide_eq_true hdone)
    · exact hund.looks n result old cell rfl hold hstatus hcell hlost

/-! ## A run that is disturbed -/

theorem refused_of_over {result : Option V} {cell : Cell} (htakes : g.backend.TakesLease s.now)
    (hfirst : c.use.opening = some .claim) (hcell : g.cell s = some cell)
    (hover : cell.Over g.backend.config) :
    (n, .refused (some cell)) ∈ (g.acted s n c (.done result)).log := by
  have hfound : g.backend.store.cell s.store s.now g.key ≠ none :=
    Option.ne_none_iff_exists'.mpr ⟨cell, hcell⟩
  obtain ⟨⟨store', b⟩, hclaim⟩ := Backend.claim_returns htakes (.inr hfound)
  obtain rfl : b = false := by
    rw [(g.backend.lawful.claim hclaim).1]
    apply decide_eq_false
    rw [show g.backend.store.cell s.store s.now g.key = some cell from hcell]
    exact hover.not_claimable
  have hreply : (g.backend.answer s.store s.now (.claim g.key) (.done result)).2 = .ok false := by
    simp only [Backend.answer, Backend.perform, hclaim]
  rw [(moved_acted s n c _).mem_log, hcell]
  refine .inl ⟨rfl, ?_⟩
  obtain ⟨use, entered, l⟩ := c
  rcases Use.opening_cases hfirst with ⟨payload, rfl⟩ | ⟨self, arguments, rfl⟩
  · have hans : (g.backend.answer s.store s.now
        (Use.callOf g.key (.block payload (Opening.blockPc .claim))) (.done result)).2 =
          .ok false := hreply
    rw [hans]
    exact List.mem_cons_of_mem _ (List.mem_singleton_self _)
  · have hans : (g.backend.answer s.store s.now
        (Use.callOf g.key (.decorated self arguments (Opening.callPc .claim))) (.done result)).2 =
          .ok false := hreply
    rw [hans]
    exact List.mem_cons_of_mem _ (List.mem_singleton_self _)

theorem hides_next {cell : Cell} (htakes : g.backend.TakesLease s.now) (hc : s.caller n = some c)
    (hfirst : c.use.opening = some .claim) (hcell : g.cell s = some cell)
    (hover : cell.Over g.backend.config) :
    ∃ s', g.system.step s (.act n (.done none)) s' ∧ ¬ s'.NothingHidden := by
  refine ⟨g.acted s n c (.done none), ?_, fun hhidden => ?_⟩
  · have hidle : ¬ (c.use.atWork = true ∧ c.entered = false) := by
      rintro ⟨hwork, -⟩
      cases (Use.opening_of_atWork hwork).symm.trans hfirst
    change g.act s n (.done none) = _
    simp only [act, hc]
    exact if_neg hidle
  · obtain ⟨cell', hcell', hprocessing⟩ := hhidden n _ (refused_of_over htakes hfirst hcell hover)
    obtain rfl := Option.some.inj hcell'
    exact Cell.not_over_of_processing hprocessing hover

theorem acted_looks {result : Option V} (hstatus : c.use.opening = some .getStatus)
    (hshown : completedRecord (g.backend.store.getStatus s.store s.now g.key) = none) :
    ∃ c', (g.acted s n c (.done result)).caller n = some c' ∧ c'.use.opening = some .claim := by
  rw [acted_caller]
  obtain ⟨use, entered, l⟩ := c
  rcases Use.opening_cases hstatus with ⟨payload, rfl⟩ | ⟨self, arguments, rfl⟩
  · change ∃ c', (BlockPc.afterStatus payload _).caller _ = some c' ∧ _
    unfold BlockPc.afterStatus
    rw [hshown]
    exact ⟨_, rfl, rfl⟩
  · change ∃ c', (CallPc.afterStatus self arguments _).caller _ = some c' ∧ _
    unfold CallPc.afterStatus
    rw [hshown]
    exact ⟨_, rfl, rfl⟩

theorem not_completed_of_exhausted {cell : Cell} (hcell : g.cell s = some cell)
    (hlost : cell.Exhausted g.backend.config) :
    completedRecord (g.backend.store.getStatus s.store s.now g.key) = none := by
  apply Option.filter_eq_none_iff.mpr
  intro record hrecord hdone
  have hshown : g.cell s = some record.cell := congrArg (Option.map _) hrecord
  obtain rfl := Option.some.inj (hcell.symm.trans hshown)
  cases (of_decide_eq_true hdone).symm.trans hlost.1

theorem carried {call : Call V} {cell : Cell} (hstep : g.Stepped s a s')
    (hcarries : g.CarriesOut s a call) (hc : s.caller n = some c)
    (hclaim : c.use.opening = some .claim) (hsettles : call.Settles g.backend cell) :
    s'.now = s.now ∧ s'.caller n = some c ∧
      g.cell s' = call.effect g.backend s.now (g.cell s) := by
  obtain ⟨outcome, hends, happlied⟩ := hcarries.ends
  have heffect := Backend.answer_applied happlied hcarries.returns hcarries.key
  cases hstep with
  | @act k old o hold hentered =>
    obtain ⟨old', hold', rfl, rfl⟩ := hends
    obtain rfl := Option.some.inj (hold.symm.trans hold')
    have hne : n ≠ k := by
      rintro rfl
      obtain rfl := Option.some.inj (hc.symm.trans hold)
      obtain ⟨use, entered, l⟩ := c
      rcases Use.opening_cases hclaim with ⟨payload, rfl⟩ | ⟨self, arguments, rfl⟩ <;>
        exact hsettles
    exact ⟨rfl, ((moved_acted s k old outcome).other n hne).trans hc, heffect⟩
  | others op =>
    obtain ⟨hop, rfl⟩ := hends
    refine ⟨rfl, hc, ?_⟩
    rcases Backend.after_cases s.store s.now op with ⟨call', hcall', hafter⟩ | ⟨hnone, -⟩
    · obtain rfl := Option.some.inj (hop.symm.trans hcall')
      simp only [GuardedKey.cell, hafter]
      exact heffect
    · cases hnone.symm.trans hop
  | tick d | block payload | call self arguments hkey | enter hold hwork hentered =>
    exact hends.elim

/-- After a step that disturbs a use, its claim hides what has become of the key. -/
theorem hides_of_disturbed (hstep : g.Stepped s a s') (htakes : g.backend.TakesLease s.now)
    (h : ¬ g.Undisturbed s a) :
    ∃ n s'', g.system.step s' (.act n (.done none)) s'' ∧ ¬ s''.NothingHidden := by
  by_cases hlooks : ∀ n result c cell, a = .act n (.done result) → s.caller n = some c →
      c.use.opening = some .getStatus → g.cell s = some cell → ¬ cell.Exhausted g.backend.config
  · have hclaims : ¬ ∀ n c, s.caller n = some c → c.use.opening = some .claim →
        ∀ call cell, g.CarriesOut s a call → g.cell s = some cell →
          ¬ call.Settles g.backend cell := fun hclaims => h ⟨hlooks, hclaims⟩
    push Not at hclaims
    obtain ⟨n, c, hc, hclaim, call, cell, hcarries, hcell, hsettles⟩ := hclaims
    obtain ⟨cell', heffect, hover⟩ : ∃ cell', call.effect g.backend s.now (some cell) = some cell' ∧
        cell'.Over g.backend.config := hsettles.over
    obtain ⟨hnow, hc', hcell'⟩ := carried hstep hcarries hc hclaim hsettles
    rw [hcell, heffect] at hcell'
    exact ⟨n, hides_next (hnow ▸ htakes) hc' hclaim hcell' hover⟩
  · push Not at hlooks
    obtain ⟨n, result, c, cell, rfl, hc, hstatus, hcell, hlost⟩ := hlooks
    cases hstep with
    | @act _ c' _ hc' hentered =>
      obtain rfl := Option.some.inj (hc.symm.trans hc')
      obtain ⟨next, hnext, hclaim⟩ : ∃ c', (g.acted s n c (.done result)).caller n = some c' ∧
          c'.use.opening = some .claim :=
        acted_looks hstatus (not_completed_of_exhausted hcell hlost)
      have hsame : g.cell (g.acted s n c (.done result)) = g.cell s := by
        obtain ⟨use, entered, l⟩ := c
        rcases Use.opening_cases hstatus with ⟨payload, rfl⟩ | ⟨self, arguments, rfl⟩ <;> rfl
      exact ⟨n, hides_next htakes hnext hclaim (hsame.trans hcell) (.inr hlost)⟩

/-- What a run keeps. -/
structure Open (g : GuardedKey V R) (s : Callers g.backend) : Prop where
  hidden : s.NothingHidden
  skipped : Cell.NotSkipped (g.cell s)
  waits : g.WaitsOpen s

/-- A run hides nothing as long as no use is disturbed, and after a step that disturbs one its claim
can hide what has become of the key. -/
theorem nothing_hidden_exactly (g : GuardedKey V R) :
    (∀ s, Reach (g.system.guard g.Undisturbed) s → s.NothingHidden) ∧
      ∀ s a s', Reach g.system s → g.system.step s a s' → g.backend.TakesLease s.now →
        ¬ g.Undisturbed s a →
          ∃ n s'', g.system.step s' (.act n (.done none)) s'' ∧ ¬ s''.NothingHidden := by
  constructor
  · intro s h
    refine (h.invariant g.Open ?_ ?_).hidden
    · rintro _ ⟨now, store, rfl, hnone⟩
      refine ⟨fun n found hmem => (List.not_mem_nil hmem).elim, ?_, fun n c hc => ?_⟩
      · rw [hnone]
        exact .none
      · simp [startState] at hc
    · rintro s a s' - ⟨hhidden, hskipped, hwaits⟩ ⟨hund, hexec⟩
      have hstep := stepped hexec
      exact ⟨nothingHidden_step hhidden hskipped hwaits hstep, notSkipped_step hskipped hstep,
        waits_step hwaits hund hstep⟩
  · rintro s a s' - hexec htakes hdisturbs
    exact hides_of_disturbed (stepped hexec) htakes hdisturbs

end GuardedKey

/-! ## Two runs that hide something, and one that does not -/

def Note.hides : Note V → Bool
  | .refused found => !found.any fun cell => decide (cell.status = .processing)
  | _ => false

theorem Callers.not_nothingHidden {backend : Backend V R} {s : Callers backend}
    (h : s.log.any (fun entry => entry.2.hides) = true) : ¬ s.NothingHidden := by
  intro hhidden
  obtain ⟨⟨n, note⟩, hmem, hides⟩ := List.any_eq_true.mp h
  cases note with
  | refused found =>
    obtain ⟨cell, rfl, hprocessing⟩ := hhidden n found hmem
    simp [Note.hides, hprocessing] at hides
  | looked existing | did event | ended outcome => cases hides

/-- With one attempt, a block fails, and the next block is told that the key was processed. -/
def failedForGood : List (Activity Unit) :=
  [.block (.json .null), .act 0 (.done none), .act 0 (.done none), .enter 0,
    .act 0 (.raised handlerError true), .act 0 (.done none),
    .block (.json .null), .act 1 (.done none), .act 1 (.done none)]

/-- A call completes the key between the `get_status` and the `claim` of another, which returns
nothing. -/
def completedMeanwhile : List (Activity Unit) :=
  let call : Activity Unit := .call ⟨none, none⟩ ⟨[.str "order-1"], []⟩
  [call, call, .act 0 (.done none), .act 1 (.done none), .act 0 (.done none), .enter 0,
    .act 0 (.done (some ())), .act 0 (.done none), .act 1 (.done none)]

theorem GuardedKey.hidden_of_replay (g : GuardedKey V R) (as : List (Activity V))
    (hnone : g.cell (g.startState 0 g.backend.empty) = none)
    (h : (replay g.exec (fun _ _ => true) (g.startState 0 g.backend.empty) as).any
      (fun s => s.log.any fun entry => entry.2.hides) = true) :
    ∃ s, Reach g.system s ∧ ¬ s.NothingHidden := by
  obtain ⟨s, hs, hides⟩ := (Option.any_eq_true _ _).mp h
  have hstart : Reach (g.system.guard fun _ _ => True) (g.startState 0 g.backend.empty) :=
    .init ⟨0, g.backend.empty, rfl, hnone⟩
  have hr := (Transition.reach_replay (fun _ => True) (fun _ _ _ _ _ _ => ⟨trivial, trivial⟩)
    hstart trivial hs).1
  exact ⟨s, hr.of_guard, Callers.not_nothingHidden hides⟩

/-- A refused claim hides a failure, and it hides a result. -/
theorem GuardedKey.hidden_failure_and_result :
    (∃ s, Reach (smallKey { maxRetries := 1 }).system s ∧ ¬ s.NothingHidden) ∧
      ∃ s, Reach (smallKey {}).system s ∧ ¬ s.NothingHidden :=
  ⟨hidden_of_replay _ failedForGood rfl (by decide +kernel),
    hidden_of_replay _ completedMeanwhile rfl (by decide +kernel)⟩


/-! ### A run that nobody disturbs -/

instance (backend : Backend V R) (cell : Cell) :
    (call : Call V) → Decidable (call.Settles backend cell)
  | .markCompleted _ _ => inferInstanceAs (Decidable (cell.status = .processing))
  | .markFailed _ _ attempts => inferInstanceAs (Decidable ((backend.guarded = true →
      cell.status = .processing) ∧
        ¬ (backend.config.retryFailed = true ∧ attempts < backend.config.maxRetries)))
  | .claim _ | .getStatus _ | .handle _ | .sleep _ | .sendAndWait _ _ _ | .commit =>
    inferInstanceAs (Decidable False)

def Callers.waiting {backend : Backend V R} (s : Callers backend) : Bool :=
  (List.range s.calls).any fun n => (s.caller n).any (·.use.atFirstClaim)

theorem Callers.waiting_of {backend : Backend V R} {s : Callers backend} (h : s.Ordered) {n : Nat}
    {c : Caller V} (hc : s.caller n = some c) (hclaim : c.use.opening = some .claim) :
    s.waiting = true := by
  have hn : n < s.calls := by
    by_contra hle
    cases (h.fresh n (by omega)).symm.trans hc
  refine List.any_eq_true.mpr ⟨n, List.mem_range.mpr hn, ?_⟩
  rw [hc]
  exact decide_eq_true hclaim

namespace GuardedKey

variable {g : GuardedKey V R} {s : Callers g.backend} {a : Activity V}

variable (g s) in
/-- Nobody else is at the store, no use looks at a record that has FAILED for good, and no call
settles the key while a use waits. -/
def undisturbed : Activity V → Bool
  | .act n _ => (s.caller n).all fun c => (g.cell s).all fun cell =>
      !(decide (c.use.opening = some .getStatus) && decide (cell.Exhausted g.backend.config)) &&
        !(s.waiting && decide ((c.use.callOf g.key).Settles g.backend cell))
  | .others _ => false
  | _ => true

theorem undisturbed_of (hord : s.Ordered) (h : g.undisturbed s a = true) : g.Undisturbed s a where
  looks := by
    rintro n result c cell rfl hc hstatus hcell hlost
    simp [undisturbed, hc, hcell, hstatus, hlost] at h
  claims := by
    intro n c hc hclaim call cell hcarries hcell hsettles
    have hwaiting := Callers.waiting_of hord hc hclaim
    obtain ⟨outcome, hends, -⟩ := hcarries.ends
    cases a with
    | act k o =>
      obtain ⟨c', hc', rfl, -⟩ := hends
      simp [undisturbed, hc', hcell, hwaiting, hsettles] at h
    | others op => cases h
    | tick d | block payload | call self arguments | enter k => exact hends.elim

end GuardedKey

/-- One block claims the key, one is refused while the first works, and one that comes later is
given the stored result. -/
def refusedInFlight : List (Activity Unit) :=
  [.block (.json .null), .block (.json .null), .act 0 (.done none), .act 1 (.done none),
    .act 0 (.done none), .act 1 (.done none), .enter 0, .act 0 (.done (some ())),
    .act 0 (.done none), .block (.json .null), .act 2 (.done none)]

theorem GuardedKey.nothing_hidden_in_flight :
    let g := smallKey {}
    ∃ s, Reach (g.system.guard g.Undisturbed) s ∧ s.log.length = 11 ∧ s.NothingHidden := by
  intro g
  have hrun : (replay g.exec g.undisturbed (g.startState 0 g.backend.empty) refusedInFlight).any
      (fun s => decide (s.log.length = 11)) = true := by
    decide +kernel
  obtain ⟨s, hs, hlength⟩ := (Option.any_eq_true _ _).mp hrun
  have hstart : Reach (g.system.guard g.Undisturbed) (g.startState 0 g.backend.empty) :=
    .init ⟨0, g.backend.empty, rfl, rfl⟩
  have hordered : (g.startState 0 g.backend.empty).Ordered :=
    ⟨fun _ _ => rfl, fun _ he => absurd he List.not_mem_nil, fun n c hc => by
      simp [GuardedKey.startState] at hc⟩
  have hr := (Transition.reach_replay Callers.Ordered (fun _ _ _ hord hcheck hexec =>
    ⟨undisturbed_of hord hcheck, ordered_step hord (stepped hexec)⟩) hstart hordered hs).1
  exact ⟨s, hr, of_decide_eq_true hlength, (GuardedKey.nothing_hidden_exactly g).1 s hr⟩

end MessageDedup
