import MessageDedup.Group.Sequential
import MessageDedup.Consumer.Extraction

/-!
# Records that end the consumer

Any headers and any value, against the in-memory store, where `handle()` raises nothing but
`Exception`s and no commit and no DLQ send fails.
-/

namespace MessageDedup

open Coroutine (Proc)

variable {V R : Type}

/-! ## Programs that return -/

/-- `p` returns, and commits so often. -/
def Returns {backend : Backend V R} {A : Type} (env : Surroundings V) (p : Program V A)
    (commits : Nat) (s : Session backend) : Prop :=
  Does env p (fun s' _ r => (∃ a, r = .ok a) ∧ s'.commits = s.commits + commits) s

section

variable {backend : Backend V R} {A B : Type} {env : Surroundings V} {s : Session backend}
  {n : Nat}

theorem Returns.pure (a : A) : Returns env (Proc.pure a) 0 s := ⟨⟨a, rfl⟩, rfl⟩

theorem Returns.record (metric : Metric) : Returns env (recordMetric metric) 0 s := ⟨⟨(), rfl⟩, rfl⟩

theorem Returns.bind {p : Program V A} {f : A → Program V B} (hp : Returns env p 0 s)
    (hf : ∀ a (s' : Session backend), Returns env (f a) n s') : Returns env (p >>= f) n s := by
  apply Proc.Ensures.bind hp
  · rintro s' ms a ⟨-, hcommits⟩
    apply (hf a s').mono
    rintro s'' ms' r ⟨hret, hcommits'⟩
    exact ⟨hret, by omega⟩
  · rintro s' ms e ⟨⟨a, hret⟩, -⟩
    simp at hret

theorem Returns.await {call : Call V} (hcall : call.isHandle = false) :
    Returns env (await call) (if call.isCommit then 1 else 0) s := by
  refine Does.await fun r s' h => ?_
  have hreply : ∃ reply, r = .ok reply := by
    have hfits := h.fits
    cases call with
    | handle payload => simp [Call.isHandle] at hcall
    | claim m => exact ⟨_, hfits⟩
    | getStatus m => exact ⟨_, hfits.choose_spec.1⟩
    | _ => exact hfits
  obtain ⟨reply, rfl⟩ := hreply
  exact ⟨⟨reply, rfl⟩, h.commits⟩

end

/-! ## The parts of a delivery -/

section

variable {backend : Backend V R} {self : DedupConsumer} {record : ConsumerRecord} {py : Python}
  {id : Option MessageId} {payload : Payload} {attempts : Int} {env : Surroundings V}
  {s : Session backend}

open DedupConsumer

theorem commit_returns : Returns env (commit : Program V Unit) 1 s := Returns.await rfl

theorem sendToDlq_returns (error : String) :
    Returns env (sendToDlq py self record error : Program V Unit) 0 s := by
  unfold sendToDlq
  cases self.dlq with
  | none => exact Returns.pure ()
  | some topic => exact Returns.await rfl

theorem exhausted_returns (lastExc : Option Exc) :
    Returns env (exhausted py self record lastExc : Program V Unit) 1 s := by
  unfold exhausted
  apply (Returns.record _).bind
  intro _ s₁
  apply (sendToDlq_returns _).bind
  intro _ s₂
  exact commit_returns

theorem complete_returns (result : Option V) :
    Returns env (complete record (id.map (·.val)) result : Program V Unit) 1 s := by
  have hcommitted : ∀ s : Session backend,
      Returns env (do commit; recordMetric (.processed record.topic) : Program V Unit) 1 s := by
    intro s
    refine Does.await fun r s' h => ?_
    obtain ⟨_, rfl⟩ := h.fits
    exact ⟨⟨(), rfl⟩, h.commits⟩
  unfold complete
  cases id with
  | none => exact hcommitted s
  | some m =>
    rw [Option.map_some, ifMessageId_some]
    refine Does.await fun r s₁ h₁ => ?_
    obtain ⟨_, rfl⟩ := h₁.fits
    apply (hcommitted s₁).mono
    rintro s' ms r ⟨hret, hcommits⟩
    exact ⟨hret, hcommits.trans (congrArg (· + 1) h₁.commits)⟩

theorem reclaim_returns : Returns env (reclaim (id.map (·.val)) : Program V Bool) 0 s := by
  cases id with
  | none => exact Returns.pure true
  | some m =>
    rw [Option.map_some, reclaim_some]
    exact Returns.await rfl

theorem backoff_returns :
    Returns env (backoff self record (id.map (·.val)) attempts : Program V Bool) 0 s := by
  unfold backoff
  split
  · apply (Returns.await rfl).bind
    intro _ s₁
    apply (Returns.record _).bind
    intro _ s₂
    exact reclaim_returns
  · exact Returns.pure true

theorem handleFailed_returns (exc : Exc) :
    Returns env (handleFailed self record (id.map (·.val)) attempts exc : Program V Bool) 0 s := by
  have hmark : ∀ s : Session backend, Returns env (ifMessageId (id.map (·.val)) fun m =>
      await (.markFailed m exc.text attempts)) 0 s := by
    intro s
    cases id with
    | none => exact Returns.pure ()
    | some m =>
      rw [Option.map_some, ifMessageId_some]
      exact Returns.await rfl
  unfold handleFailed
  apply (Returns.record _).bind
  intro _ s₁
  apply (hmark s₁).bind
  intro _ s₂
  exact backoff_returns

theorem attemptLoop_returns (henv : env.RaisesExceptions) (left : Nat) (lastExc : Option Exc) :
    Returns env (attemptLoop py self record (id.map (·.val)) payload left attempts lastExc :
      Program V Unit) 1 s := by
  induction left generalizing s attempts lastExc with
  | zero => exact exhausted_returns lastExc
  | succ left ih =>
    refine Does.await fun r s₁ h₁ => ?_
    have hcommits₁ : s₁.commits = s.commits := h₁.commits
    have hrest : ∀ {p : Program V Unit}, Returns env p 1 s₁ →
        Does env p (fun s' _ r => (∃ a, r = .ok a) ∧ s'.commits = s.commits + 1) s₁ := by
      intro p hp
      rwa [← hcommits₁]
    apply hrest
    cases r with
    | ok result => exact complete_returns result
    | error exc =>
      obtain ⟨n, hraised⟩ := h₁.fits
      change Returns env (if exc.isException then _ else _) 1 s₁
      rw [if_pos (henv n exc hraised.symm)]
      apply (handleFailed_returns exc).bind
      intro again s₂
      cases again with
      | true => exact ih (some exc)
      | false => exact exhausted_returns (some exc)

theorem skip_returns (m : String) : Returns env (skip record m : Program V Unit) 1 s := by
  unfold skip
  apply (Returns.await rfl).bind
  intro existing s₁
  dsimp only
  split
  all_goals
    apply (Returns.record _).bind
    intro _ s₂
    exact commit_returns

theorem executeAndCommit_raises {exc : Exc} (hdec : decodePayload py record = .error exc)
    (messageId : Option String) :
    (executeAndCommit py self record messageId : Program V Unit) = .raise exc := by
  unfold executeAndCommit
  rw [hdec]
  rfl

theorem executeAndCommit_returns (henv : env.RaisesExceptions)
    (hdec : decodePayload py record = .ok payload) :
    Returns env (executeAndCommit py self record (id.map (·.val)) : Program V Unit) 1 s := by
  unfold executeAndCommit whileAttempts
  rw [hdec]
  exact attemptLoop_returns henv _ none

end

/-! ## Which records are survived -/

/-- The header that holds the id, if there is one, is valid UTF-8. -/
def IdHeaderDecodes (record : ConsumerRecord) : Prop :=
  ∀ bytes ∈ idHeader record.headers, (String.fromUTF8? ⟨bytes.toArray⟩).isSome = true

/-- `json.loads` does not raise what `_execute_and_commit` does not catch. -/
def ValueDecodes (py : Python) (record : ConsumerRecord) : Prop :=
  ∀ value ∈ nonEmpty record.value, ∀ exc, py.loads value = .error exc →
    exc.kind = .jsonDecodeError ∨ exc.kind = .unicodeDecodeError

section

variable {py : Python} {record : ConsumerRecord}

theorem decodePayload_ok_iff :
    (∃ payload, decodePayload py record = .ok payload) ↔ ValueDecodes py record := by
  unfold decodePayload ValueDecodes
  cases nonEmpty record.value with
  | none => simp
  | some value =>
    cases hloads : py.loads value with
    | ok payload => simp [hloads]
    | error exc => cases hkind : exc.kind <;> simp [hloads, hkind]

theorem extractMessageId_header {bytes : Bytes} {m : String}
    (hbytes : idHeader record.headers = some bytes)
    (hm : String.fromUTF8? ⟨bytes.toArray⟩ = some m) :
    extractMessageId py record = .ok (some m) := by
  have hdecode : some <$> py.decode bytes = .ok (String.fromUTF8? ⟨bytes.toArray⟩) :=
    decode_eq (Option.isSome_iff_exists.mpr ⟨m, hm⟩)
  unfold extractMessageId
  rw [headerMessageId_eq, hbytes]
  simp only [hdecode, hm]

theorem extractMessageId_ok (hheader : IdHeaderDecodes record) (hvalue : ValueDecodes py record) :
    ∃ id : Option MessageId, extractMessageId py record = .ok (id.map (·.val)) := by
  have hok : ∃ id, extractMessageId py record = .ok id := by
    cases hbytes : idHeader record.headers with
    | some bytes =>
      obtain ⟨m, hm⟩ := Option.isSome_iff_exists.mp (hheader bytes hbytes)
      exact ⟨some m, extractMessageId_header hbytes hm⟩
    | none =>
      unfold extractMessageId
      rw [headerMessageId_eq, hbytes]
      unfold ValueDecodes at hvalue
      cases hv : nonEmpty record.value with
      | none => exact ⟨none, rfl⟩
      | some value =>
        cases hloads : py.loads value with
        | ok payload => cases payload <;> simp [hloads]
        | error exc => rcases hvalue value hv exc hloads with hkind | hkind <;> simp [hloads, hkind]
  obtain ⟨id, hid⟩ := hok
  exact exists_messageId hid

/-- What the extraction raises without an id in a header, the decoding raises as well. -/
theorem extractMessageId_raises (hbytes : idHeader record.headers = none)
    {exc : Exc} (hdec : decodePayload py record = .error exc) :
    extractMessageId py record = .ok none ∨ ∃ exc, extractMessageId py record = .error exc := by
  unfold extractMessageId
  unfold decodePayload at hdec
  rw [headerMessageId_eq, hbytes]
  cases hv : nonEmpty record.value with
  | none => simp [hv] at hdec
  | some value =>
    cases hloads : py.loads value with
    | ok payload => simp [hv, hloads] at hdec
    | error exc' => cases hkind : exc'.kind <;> simp [hloads, hkind]

theorem extractMessageId_undecodable {bytes : Bytes} (hbytes : idHeader record.headers = some bytes)
    (hm : String.fromUTF8? ⟨bytes.toArray⟩ = none) :
    ∃ exc, extractMessageId py record = .error exc := by
  unfold extractMessageId
  rw [headerMessageId_eq, hbytes]
  unfold Python.decode
  simp only [hm]
  exact ⟨_, rfl⟩

end

section

variable {config : DeduplicationConfig} {self : DedupConsumer} {record : ConsumerRecord}
  {py : Python} {env : Surroundings V}

open DedupConsumer

theorem processRecord_returns {backend : Backend V R} {s : Session backend} {id : Option MessageId}
    {payload : Payload} (henv : env.RaisesExceptions)
    (hid : extractMessageId py record = .ok (id.map (·.val)))
    (hdec : decodePayload py record = .ok payload) :
    Returns env (processRecord py self record : Program V Unit) 1 s := by
  unfold processRecord
  rw [hid]
  cases id with
  | none =>
    apply (Returns.record _).bind
    intro _ s₁
    have hdone : Returns env (executeAndCommit py self record
        ((none : Option MessageId).map (·.val)) : Program V Unit) 1 s₁ :=
      executeAndCommit_returns henv hdec
    exact hdone
  | some m =>
    change Returns env (await (.claim m.val) >>= _) 1 s
    apply (Returns.await rfl).bind
    intro claimed s₁
    dsimp only
    split
    · have hdone : Returns env (executeAndCommit py self record ((some m).map (·.val)) :
          Program V Unit) 1 s₁ := executeAndCommit_returns henv hdec
      exact hdone
    · exact skip_returns m.val

theorem processRecord_raises {exc : Exc} (hid : extractMessageId py record = .error exc) :
    (processRecord py self record : Program V Unit) = .raise exc := by
  unfold processRecord
  rw [hid]
  rfl

theorem processRecord_run {s : Session (.inMemory config : Backend V R)} {m : String}
    (hsmooth : ((processRecord py self record).run (Session.answer env) s).1.Smooth)
    (hid : extractMessageId py record = .ok (some m)) :
    (processRecord py self record).run (Session.answer env) s =
      (if Cell.Claimable config (s.now + env.pause s.calls) (s.cell m) then
        executeAndCommit py self record (some m) else skip record m).run (Session.answer env)
          (s.answer env (.claim m)).1 := by
  unfold processRecord at hsmooth ⊢
  rw [hid] at hsmooth ⊢
  change (((Proc.call _).attempt _).run (Session.answer env) s).1.Smooth at hsmooth
  change ((Proc.call _).attempt _).run (Session.answer env) s = _
  rw [Proc.run_call_attempt] at hsmooth ⊢
  have hanswers : Answers env s (.claim m) _ _ := Session.answers env hsmooth.of_run
  have hreply : (s.answer env (.claim m)).2 =
      .ok (decide (Cell.Claimable config (s.now + env.pause s.calls) (s.cell m))) := hanswers.fits
  rw [hreply]
  by_cases hclaim : Cell.Claimable config (s.now + env.pause s.calls) (s.cell m) <;> simp [hclaim]

theorem idHeaderDecodes_of_returned {backend : Backend V R} {s : Session backend}
    (hret : ((processRecord py self record).run (Session.answer env) s).2.2 = .ok ()) :
    IdHeaderDecodes record := by
  intro bytes hbytes
  by_contra hm
  rw [Option.not_isSome_iff_eq_none] at hm
  obtain ⟨exc, hid⟩ := extractMessageId_undecodable hbytes hm
  rw [processRecord_raises hid] at hret
  simp [Proc.run] at hret

theorem idHeader_of_returned {backend : Backend V R} {s : Session backend} {exc : Exc}
    (hdec : decodePayload py record = .error exc)
    (hret : ((processRecord py self record).run (Session.answer env) s).2.2 = .ok ()) :
    ∃ bytes, idHeader record.headers = some bytes := by
  cases hbytes : idHeader record.headers with
  | some bytes => exact ⟨bytes, rfl⟩
  | none =>
    rcases extractMessageId_raises hbytes hdec with hid | ⟨exc', hid⟩
    · unfold processRecord at hret
      rw [hid] at hret
      simp [executeAndCommit_raises hdec, recordMetric, Proc.note, Proc.ofExcept, Proc.bind,
        Proc.run] at hret
    · rw [processRecord_raises hid] at hret
      simp [Proc.run] at hret

theorem refused_of_returned {s : Session (.inMemory config : Backend V R)} {exc : Exc} {m : String}
    (hsmooth : ((processRecord py self record).run (Session.answer env) s).1.Smooth)
    (hdec : decodePayload py record = .error exc)
    (hid : extractMessageId py record = .ok (some m))
    (hret : ((processRecord py self record).run (Session.answer env) s).2.2 = .ok ()) :
    ¬ Cell.Claimable config (s.now + env.pause s.calls) (s.cell m) := by
  intro hclaim
  rw [processRecord_run hsmooth hid, if_pos hclaim, executeAndCommit_raises hdec] at hret
  simp [Proc.run] at hret

theorem Returns.run {backend : Backend V R} {p : Program V Unit} {s : Session backend}
    {commits : Nat} (hp : Returns env p commits s)
    (hsmooth : (p.run (Session.answer env) s).1.Smooth) :
    (p.run (Session.answer env) s).2.2 = .ok () ∧
      (p.run (Session.answer env) s).1.commits = s.commits + commits := by
  obtain ⟨⟨a, hret⟩, hcommits⟩ := Does.run hp hsmooth
  exact ⟨hret, hcommits⟩

end

/-- Exactly when a delivery returns and has committed its record: the id header decodes, and
`json.loads` of the value raises nothing but the two exceptions that are caught, unless the record
has its id in a header and the claim is refused. -/
theorem delivery_survives_iff (py : Python) (self : DedupConsumer) (config : DeduplicationConfig)
    (env : Surroundings V) (record : ConsumerRecord) (s : Session (.inMemory config : Backend V R))
    (henv : env.RaisesExceptions) (hsmooth : (s.deliver env py self record).2.Smooth) :
    let report := (s.deliver env py self record).2
    (report.outcome = .ok () ∧ report.commits = 1) ↔
      IdHeaderDecodes record ∧
        (ValueDecodes py record ∨ ∃ bytes ∈ idHeader record.headers, ∃ m,
          String.fromUTF8? ⟨bytes.toArray⟩ = some m ∧
          ¬ Cell.Claimable config (s.now + env.pause s.calls) (s.cell m)) := by
  intro report
  let start : Session (.inMemory config : Backend V R) := { s with log := [] }
  have hrun : ((self.processRecord py record).run (Session.answer env) start).1.Smooth := hsmooth
  change (((self.processRecord py record).run (Session.answer env) start).2.2 = .ok () ∧
    ((self.processRecord py record).run (Session.answer env) start).1.commits = 1) ↔ _
  constructor
  · rintro ⟨hret, -⟩
    have hheader : IdHeaderDecodes record := idHeaderDecodes_of_returned hret
    refine ⟨hheader, ?_⟩
    rw [← decodePayload_ok_iff]
    cases hdec : decodePayload py record with
    | ok payload => exact .inl ⟨payload, rfl⟩
    | error exc =>
      -- The value does not decode, and yet the delivery returned: the claim was refused before.
      obtain ⟨bytes, hbytes⟩ := idHeader_of_returned hdec hret
      obtain ⟨m, hm⟩ := Option.isSome_iff_exists.mp (hheader bytes hbytes)
      have hid : extractMessageId py record = .ok (some m) := extractMessageId_header hbytes hm
      have hrefused := refused_of_returned (s := start) hrun hdec hid hret
      exact .inr ⟨bytes, hbytes, m, hm, hrefused⟩
  · rintro ⟨hheader, hvalue | ⟨bytes, hbytes, m, hm, hrefused⟩⟩
    · obtain ⟨id, hid⟩ := extractMessageId_ok hheader hvalue
      obtain ⟨payload, hdec⟩ := decodePayload_ok_iff.mpr hvalue
      exact (processRecord_returns henv hid hdec).run hrun
    · have hrefused' :
          ¬ Cell.Claimable config (start.now + env.pause start.calls) (start.cell m) := hrefused
      have hskip := processRecord_run hrun (extractMessageId_header hbytes hm)
      rw [if_neg hrefused'] at hskip
      rw [hskip] at hrun ⊢
      exact (skip_returns m).run hrun

def steadyOutcomes : Surroundings Unit where
  pause := fun _ => 1
  handle := fun _ => .ok none

/-- A value that is no JSON is handled as it is. -/
theorem delivery_survives_malformed :
    let start : Session (.inMemory {} : Backend Unit Unit) := ⟨0, fun _ => none, 0, []⟩
    let report := (start.deliver steadyOutcomes bareRuntime ⟨{}, none⟩
      (payloadRecord "not-json")).2
    report.outcome = .ok () ∧ report.commits = 1 := by
  intro start report
  have henv : steadyOutcomes.RaisesExceptions := by
    intro n exc hraised
    simp [steadyOutcomes] at hraised
  have hvalue : ValueDecodes bareRuntime (payloadRecord "not-json") := by
    rintro value - exc hloads
    obtain rfl := Except.error.inj hloads
    exact .inl rfl
  have hheader : IdHeaderDecodes (payloadRecord "not-json") := by
    intro bytes hbytes
    simp [payloadRecord, idHeader] at hbytes
  have hlog : ∀ x ∈ report.log, (x.raised.isNone || x.call.isHandle) = true := by
    decide +kernel
  have hsmooth : report.Smooth := fun x hx => Moment.smooth_of_check (hlog x hx)
  exact (delivery_survives_iff bareRuntime ⟨{}, none⟩ {} steadyOutcomes (payloadRecord "not-json")
    start henv hsmooth).mpr ⟨hheader, .inl hvalue⟩

/-- One byte in the id header ends the consumer, with nothing committed. -/
theorem delivery_survives_header :
    let start : Session (.inMemory {} : Backend Unit Unit) := ⟨0, fun _ => none, 0, []⟩
    let record : ConsumerRecord := ⟨"orders", 0, 7, none, none, [("X-Message-Id", some [0xff])]⟩
    let report := (start.deliver steadyOutcomes bareRuntime ⟨{}, none⟩ record).2
    report.outcome = .error ⟨.unicodeDecodeError, ""⟩ ∧ report.commits = 0 := by
  decide +kernel

end MessageDedup
