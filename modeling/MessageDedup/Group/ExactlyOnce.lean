import MessageDedup.Group.Replay

/-!
# Exactly once without faults

No crash, no failure outside `handle()`, leases that outlast the work: then `handle()` succeeds at
most once for a message, and never runs twice at a time.
-/

namespace MessageDedup

open Transition (Reach System replay)

variable {V R : Type} {rules : Rules} {s s' : Life} {label : Label}

namespace Life

/-- Nothing fails but `handle()`, which raises `Exception`s only. -/
structure Faultless (s : Life) (label : Label) : Prop where
  calm : s.Calm label
  noCrash : ∀ c, label ≠ .crash c
  replies : ∀ c isException, label = .act c (.raised isException) →
    isException = true ∧ ∃ t attempts, s.task c = some t ∧ t.phase = .running attempts

def isFaultless (k : Nat) (s : Life) (label : Label) : Bool :=
  s.isCalm k label &&
    match label with
    | .crash _ => false
    | .act c (.raised isException) =>
      isException && (s.task c).any (·.phase.isRunning)
    | _ => true

theorem faultless_of_isFaultless {k : Nat} (s : Life) (label : Label) (hq : s.Quiet k)
    (h : s.isFaultless k label = true) : s.Faultless label := by
  simp only [isFaultless, Bool.and_eq_true] at h
  refine ⟨calm_of_isCalm hq h.1, ?_, ?_⟩
  · rintro c rfl
    simp at h
  · rintro c isException rfl
    have hreply := h.2
    simp only [Bool.and_eq_true, Option.any_eq_true] at hreply
    obtain ⟨hexc, t, ht, hrun⟩ := hreply
    obtain ⟨a, ha⟩ := Phase.running_of_isRunning hrun
    exact ⟨hexc, t, a, ht, ha⟩

theorem Faultless.replied {c : ConsumerId} {reply : Reply} {t : Task}
    (hf : Faultless s (.act c reply)) (ht : s.task c = some t) :
    reply = .ok ∨ reply = .raised true ∧ ∃ attempts, t.phase = .running attempts := by
  cases reply with
  | ok => exact .inl rfl
  | raised isException =>
    obtain ⟨rfl, t', attempts, ht', hrun⟩ := hf.replies c isException rfl
    rw [ht] at ht'
    obtain rfl := Option.some.inj ht'
    exact .inr ⟨rfl, attempts, hrun⟩

theorem not_fatal_of_faultless {isException : Bool} {phase : Phase}
    (h : Rules.Fatal isException phase) :
    ¬ (Reply.raised isException = .ok ∨
      Reply.raised isException = .raised true ∧ ∃ attempts, phase = .running attempts) := by
  rintro (hok | ⟨hraised, attempts, rfl⟩)
  · simp at hok
  · obtain rfl := Reply.raised.inj hraised
    cases h

/-! ## The statements -/

/-- Two `handle()` calls never overlap. -/
def NoOverlap (s : Life) : Prop :=
  ∀ c c' t t' a a', s.task c = some t → s.task c' = some t' →
    t.phase = .running a → t'.phase = .running a' → c = c'

/-- No `handle()` call starts or succeeds after one that succeeded. -/
def SucceedsOnce (s : Life) : Prop :=
  s.trace.Pairwise fun newer older =>
    older.2 = .returned → newer.2 ≠ .entered ∧ newer.2 ≠ .returned

def IsCompleted (s : Life) : Prop := ∃ cell, s.record = some cell ∧ cell.status = .completed

/-- Some delivery has come, and all have ended. -/
def Finished (s : Life) : Prop := s.Happened .delivered ∧ ∀ c, s.task c = none

/-! ## After a success -/

/-- The success is on record, or in the hands of its consumer. -/
def Settled (s : Life) : Prop :=
  s.IsCompleted ∨ ∃ c t, s.task c = some t ∧ t.phase = .completing

theorem Settled.completing (h : s.Settled) (hown : s.OneOwner) {c : ConsumerId} {t : Task}
    (ht : s.task c = some t) (hh : t.phase.Holds) : t.phase = .completing := by
  rcases h with ⟨cell, hcell, hdone⟩ | ⟨c', t', ht', hphase⟩
  · obtain ⟨cell', hcell', hp, -⟩ := hown.processing ht hh
    rw [hcell] at hcell'
    rw [Option.some.inj hcell', hp] at hdone
    simp at hdone
  · have hc : c = c' := hown.unique' ht ht' hh (by rw [hphase]; trivial)
    subst hc
    rw [ht] at ht'
    rw [Option.some.inj ht']
    exact hphase

theorem Settled.step (h : s.Settled) (hown : s.OneOwner) (hf : Faultless s label)
    (hstep : Step rules s label s') : s'.Settled := by
  rcases h with ⟨cell, hcell, hdone⟩ | ⟨c, t, ht, hphase⟩
  · left
    have hclaim : ¬ Cell.Claimable rules.config s.now s.record := by
      rw [hcell]
      exact Cell.not_claimable_completed hdone
    refine ⟨cell, ?_, hdone⟩
    rw [hown.record_stays hf.calm.2 hcell (by simp [hdone]) hclaim hstep]
    exact hcell
  · -- Either the owner itself acts, or its task is left alone.
    by_cases hactor : label.actor = some c
    · cases hstep with
      | tick | expire => cases hactor
      | arrive hc =>
        obtain rfl := Option.some.inj hactor
        rw [hc] at ht
        simp at ht
      | enter hc =>
        obtain rfl := Option.some.inj hactor
        rw [hc] at ht
        obtain rfl := Option.some.inj ht
        simp at hphase
      | crash _ => exact absurd rfl (hf.noCrash _)
      | act hc hmove =>
        obtain rfl := Option.some.inj hactor
        rw [hc] at ht
        obtain rfl := Option.some.inj ht
        obtain ⟨cell, hcell, hp, -⟩ := hown.processing hc (by rw [hphase]; trivial)
        rcases hf.replied hc with rfl | ⟨-, a, hrun⟩
        · cases hmove with
          | completed =>
            left
            refine ⟨cell.completed, ?_, Cell.completed_of_processing hp⟩
            change s.record.map Cell.completed = _
            rw [hcell]
            rfl
          | _ => cases hphase
        · cases hphase.symm.trans hrun
    · right
      exact ⟨c, t, (hstep.task_other hactor).trans ht, hphase⟩

/-! ## At most one success -/

end Life

theorem Rules.Move.handle_events {c : ConsumerId} {now : Int} {record record' : Option Cell}
    {t : Task} {t' : Option Task} {reply : Reply} {events : List Event}
    (h : rules.Move c now record t reply record' t' events) :
    .entered ∉ events ∧
      (.returned ∈ events → events = [.returned] ∧ (∃ a, t.phase = .running a) ∧
        ∃ u, t' = some u ∧ u.phase = .completing) := by
  cases h with
  | returned => exact ⟨by decide, fun _ => ⟨rfl, ⟨_, rfl⟩, _, rfl, rfl⟩⟩
  | @stopped applied _ _ phase => cases phase <;> cases applied <;> simp [Rules.lastWords]
  | _ => simp

namespace Life

theorem SucceedsOnce.put (h : s.SucceedsOnce) (c : ConsumerId) (record' : Option Cell)
    (t' : Option Task) (n : Nat) {events : List Event}
    (hsingle : .returned ∈ events → events = [.returned])
    (hold : s.Happened .returned → .entered ∉ events ∧ .returned ∉ events) :
    (s.put c record' t' n events).SucceedsOnce := by
  unfold SucceedsOnce Life.put
  rw [List.pairwise_append]
  refine ⟨?_, h, ?_⟩
  · by_cases hr : .returned ∈ events
    · rw [hsingle hr]
      exact List.pairwise_singleton _ _
    · apply List.pairwise_of_forall_mem_list
      intro newer _ older holder heq
      obtain ⟨event, hevent, rfl⟩ := List.mem_map.mp holder
      exact absurd (heq ▸ hevent) hr
  · intro newer hnewer older holder heq
    obtain ⟨event, hevent, rfl⟩ := List.mem_map.mp hnewer
    obtain ⟨hentered, hreturned⟩ := hold ⟨older.1, heq ▸ holder⟩
    exact ⟨fun e => hentered (e ▸ hevent), fun e => hreturned (e ▸ hevent)⟩

/-- At most one success, and what follows it. -/
structure SuccessInv (s : Life) : Prop where
  owner : s.OneOwner
  settled : s.Happened .returned → s.Settled
  once : s.SucceedsOnce

theorem SuccessInv.start (hidle : ∀ c, s.task c = none) (htrace : s.trace = []) :
    s.SuccessInv := by
  refine ⟨Owned.start hidle, ?_, ?_⟩
  · rintro ⟨n, hn⟩
    rw [htrace] at hn
    simp at hn
  · unfold SucceedsOnce
    rw [htrace]
    exact .nil

theorem SuccessInv.step (h : s.SuccessInv) (hf : Faultless s label)
    (hstep : Step rules s label s') : s'.SuccessInv := by
  have hkeep := fun hr => (h.settled hr).step h.owner hf hstep
  refine ⟨h.owner.step hf.calm hstep, ?_, ?_⟩
  · rintro ⟨n, hn⟩
    cases hstep with
    | tick => exact hkeep ⟨n, hn⟩
    | expire => exact absurd rfl (hf.calm.2 _)
    | crash _ => exact absurd rfl (hf.noCrash _)
    | arrive _ | enter _ =>
      rcases mem_put.mp hn with ⟨-, hmem⟩ | hmem
      · simp at hmem
      · exact hkeep ⟨n, hmem⟩
    | @act c t reply record' t' events hc hmove =>
      rcases mem_put.mp hn with ⟨-, hmem⟩ | hmem
      · obtain ⟨-, -, u, rfl, hphase⟩ := hmove.handle_events.2 hmem
        exact .inr ⟨c, u, task_put_self _ _ _ _ _ _, hphase⟩
      · exact hkeep ⟨n, hmem⟩
  · cases hstep with
    | tick => exact h.once
    | expire => exact absurd rfl (hf.calm.2 _)
    | crash _ => exact absurd rfl (hf.noCrash _)
    | arrive _ => exact h.once.put _ _ _ _ (by simp) (by simp)
    | enter hc =>
      apply h.once.put _ _ _ _ (by simp)
      intro hr
      have := (h.settled hr).completing h.owner hc trivial
      simp at this
    | @act c t reply record' t' events hc hmove =>
      obtain ⟨hentered, hreturned⟩ := hmove.handle_events
      apply h.once.put _ _ _ _ fun hr => (hreturned hr).1
      intro hr
      refine ⟨hentered, fun hmem => ?_⟩
      obtain ⟨-, ⟨a, hrun⟩, -⟩ := hreturned hmem
      have := (h.settled hr).completing h.owner hc (by rw [hrun]; trivial)
      cases hrun.symm.trans this

theorem SuccessInv.noOverlap (h : s.SuccessInv) : s.NoOverlap := by
  intro c c' t t' a a' ht ht' hrun hrun'
  exact h.owner.unique' ht ht' (by rw [hrun]; trivial) (by rw [hrun']; trivial)

/-! ## No delivery is forgotten -/

/-- Where the record stands, some delivery is at work on it, unless it is COMPLETED or dead. -/
structure Accounted (s : Life) : Prop where
  missing : s.record = none → (∃ c t, s.task c = some t ∧ t.phase = .arriving) ∨
    (s.trace = [] ∧ ∀ c, s.task c = none)
  present : ∀ cell, s.record = some cell →
    (cell.status = .processing ∧ ∃ c t, s.task c = some t ∧ t.phase.Holds) ∨
    cell.status = .completed ∨
    (cell.status = .failed ∧
      (s.Happened .deadLetter ∨ ∃ c t, s.task c = some t ∧ t.phase.Retries))

namespace Accounted

theorem keep (h : s.Accounted) {c : ConsumerId} {t : Task} (ht : s.task c = some t)
    {t' : Option Task} {events : List Event} (harrive : t.phase = .arriving → s.record ≠ none)
    (hholds : t.phase.Holds → ∃ u, t' = some u ∧ u.phase.Holds)
    (hretries : t.phase.Retries →
      .deadLetter ∈ events ∨ ∃ u, t' = some u ∧ u.phase.Retries) :
    (s.put c s.record t' t.delivery events).Accounted where
  missing := by
    intro hnone
    rcases h.missing hnone with ⟨c', t₁, ht₁, harr⟩ | ⟨-, hidle⟩
    · have hc : c' ≠ c := by
        rintro rfl
        rw [ht] at ht₁
        obtain rfl := Option.some.inj ht₁
        exact harrive harr hnone
      exact .inl ⟨c', t₁, (task_put_other s hc _ _ _ _).trans ht₁, harr⟩
    · rw [hidle c] at ht
      simp at ht
  present := by
    intro cell hcell
    rcases h.present cell hcell with ⟨hp, c', t₁, ht₁, hh⟩ | hdone | ⟨hfailed, hdead⟩
    · refine .inl ⟨hp, ?_⟩
      -- The one who works on the record is this consumer or another, which nothing touches.
      by_cases hc : c' = c
      · subst hc
        rw [ht] at ht₁
        obtain rfl := Option.some.inj ht₁
        obtain ⟨u, rfl, hu⟩ := hholds hh
        exact ⟨c', u, task_put_self _ _ _ _ _ _, hu⟩
      · exact ⟨c', t₁, (task_put_other s hc _ _ _ _).trans ht₁, hh⟩
    · exact .inr (.inl hdone)
    · refine .inr (.inr ⟨hfailed, ?_⟩)
      rcases hdead with ⟨n, hn⟩ | ⟨c', t₁, ht₁, hh⟩
      · exact .inl ⟨n, mem_put.mpr (.inr hn)⟩
      · by_cases hc : c' = c
        · subst hc
          rw [ht] at ht₁
          obtain rfl := Option.some.inj ht₁
          rcases hretries hh with hmem | ⟨u, rfl, hu⟩
          · exact .inl ⟨_, mem_put.mpr (.inl ⟨rfl, hmem⟩)⟩
          · exact .inr ⟨c', u, task_put_self _ _ _ _ _ _, hu⟩
        · exact .inr ⟨c', t₁, (task_put_other s hc _ _ _ _).trans ht₁, hh⟩

theorem arrive (h : s.Accounted) {c : ConsumerId} {n : Nat} {l : Int} (hc : s.task c = none) :
    (s.put c s.record (some ⟨n, .arriving, l⟩) n [.delivered]).Accounted where
  missing := fun _ => .inl ⟨c, _, task_put_self _ _ _ _ _ _, rfl⟩
  present := by
    intro cell hcell
    have hother : ∀ {c' t}, s.task c' = some t →
        (s.put c s.record (some ⟨n, .arriving, l⟩) n [.delivered]).task c' = some t := by
      intro c' t ht
      rw [← ht]
      apply task_put_other
      rintro rfl
      rw [hc] at ht
      simp at ht
    rcases h.present cell hcell with ⟨hp, c', t, ht, hh⟩ | hdone | ⟨hfailed, hdead⟩
    · exact .inl ⟨hp, c', t, hother ht, hh⟩
    · exact .inr (.inl hdone)
    · refine .inr (.inr ⟨hfailed, ?_⟩)
      rcases hdead with ⟨n', hn'⟩ | ⟨c', t, ht, hh⟩
      · exact .inl ⟨n', mem_put.mpr (.inr hn')⟩
      · exact .inr ⟨c', t, hother ht, hh⟩

theorem working {c : ConsumerId} {cell : Cell} {u : Task} (hp : cell.status = .processing)
    (hu : u.phase.Holds) (n : Nat) (events : List Event) :
    (s.put c (some cell) (some u) n events).Accounted where
  missing := nofun
  present := by
    rintro _ ⟨⟩
    exact .inl ⟨hp, c, u, task_put_self _ _ _ _ _ _, hu⟩

theorem failed {c : ConsumerId} {cell : Cell} {t' : Option Task} {n : Nat} {events : List Event}
    (hfailed : cell.status = .failed)
    (hdead : .deadLetter ∈ events ∨ ∃ u, t' = some u ∧ u.phase.Retries) :
    (s.put c (some cell) t' n events).Accounted where
  missing := nofun
  present := by
    rintro _ ⟨⟩
    refine .inr (.inr ⟨hfailed, ?_⟩)
    rcases hdead with hmem | ⟨u, rfl, hu⟩
    · exact .inl ⟨n, mem_put.mpr (.inl ⟨rfl, hmem⟩)⟩
    · exact .inr ⟨c, u, task_put_self _ _ _ _ _ _, hu⟩

theorem move (h : s.Accounted) (hmax : ∀ c, 1 ≤ rules.maxRetries c) (hdec : rules.decodable)
    (hown : s.OneOwner) (hrange : s.Bounded rules) {c : ConsumerId} {t : Task} {reply : Reply}
    {record' : Option Cell} {t' : Option Task} {events : List Event} (ht : s.task c = some t)
    (hreply : reply = .ok ∨ reply = .raised true ∧ ∃ attempts, t.phase = .running attempts)
    (hmove : rules.Move c s.now s.record t reply record' t' events) :
    (s.put c record' t' t.delivery events).Accounted := by
  cases hmove with
  | granted _ _ | regranted _ _ =>
    refine working rfl ?_ _ _
    trivial
  | grantedInVain _ hlt =>
    have := hmax c
    omega
  | undecodable _ hd => exact absurd hdec hd
  | regrantedInVain _ hlt =>
    obtain ⟨-, hbelow⟩ := hrange c _ ht
    change _ < rules.maxRetries c at hbelow
    omega
  -- A refused claim finds the key taken, which someone else accounts for.
  | refused hc => exact h.keep ht (fun _ e => hc (by rw [e]; trivial)) nofun nofun
  | returned | failed => exact h.keep ht nofun (fun _ => ⟨_, rfl, trivial⟩) nofun
  | slept => exact h.keep ht nofun nofun fun _ => .inr ⟨_, rfl, trivial⟩
  | lostRace _ _ => exact h.keep ht nofun nofun fun _ => .inl (List.mem_singleton_self _)
  | statusRead | skipped | settled | sent | dropped => exact h.keep ht nofun nofun nofun
  | retried _ =>
    obtain ⟨cell, hcell, hp, -⟩ := hown.processing ht trivial
    rw [hcell, Option.map_some, Cell.markedFailed_of_processing hp]
    exact failed rfl (.inr ⟨_, rfl, trivial⟩)
  | exhausted _ _ =>
    obtain ⟨cell, hcell, hp, -⟩ := hown.processing ht trivial
    rw [hcell, Option.map_some, Cell.markedFailed_of_processing hp]
    exact failed rfl (.inl (List.mem_singleton_self _))
  | completed =>
    -- The owner marks its own record, still PROCESSING by `hown`.
    obtain ⟨cell, hcell, hp, -⟩ := hown.processing ht trivial
    rw [hcell]
    refine ⟨nofun, ?_⟩
    rintro _ ⟨⟩
    exact .inr (.inl (Cell.completed_of_processing hp))
  | markLost _ => rcases hreply with h | ⟨-, a, hrun⟩ <;> contradiction
  | stopped _ hfatal _ => exact absurd hreply (not_fatal_of_faultless hfatal)

theorem step (h : s.Accounted) (hmax : ∀ c, 1 ≤ rules.maxRetries c) (hdec : rules.decodable)
    (hown : s.OneOwner) (hrange : s.Bounded rules) (hf : Faultless s label)
    (hstep : Step rules s label s') : s'.Accounted := by
  cases hstep with
  | tick => exact ⟨h.missing, h.present⟩
  | expire => exact absurd rfl (hf.calm.2 _)
  | crash _ => exact absurd rfl (hf.noCrash _)
  | @arrive c n l hc => exact h.arrive hc
  | enter hc => exact h.keep hc nofun (fun _ => ⟨_, rfl, trivial⟩) nofun
  | act hc hmove => exact h.move hmax hdec hown hrange hc (hf.replied hc) hmove

end Accounted

/-! ## The result -/

/-- What a run without faults keeps. -/
structure Sound (s : Life) (rules : Rules) : Prop where
  success : s.SuccessInv
  accounted : s.Accounted
  range : s.Bounded rules

theorem sound_of_reach (hmax : ∀ c, 1 ≤ rules.maxRetries c) (hdec : rules.decodable)
    (h : Reach ((system rules).guard Faultless) s) : s.Sound rules := by
  apply h.invariant (fun s => s.Sound rules)
  · rintro s ⟨hnone, hidle, htrace⟩
    refine ⟨.start hidle htrace, ⟨?_, ?_⟩, .start hidle⟩
    · exact fun _ => .inr ⟨htrace, hidle⟩
    · intro cell hcell
      rw [hnone] at hcell
      simp at hcell
  · rintro s a s' - hs ⟨hf, hstep⟩
    exact ⟨hs.success.step hf hstep,
      hs.accounted.step hmax hdec hs.success.owner hs.range hf hstep, hs.range.step hstep⟩

theorem Sound.finished (h : s.Sound rules) (hfin : s.Finished) :
    s.IsCompleted ∨ s.Happened .deadLetter := by
  obtain ⟨⟨n, hn⟩, hidle⟩ := hfin
  have hnone : ∀ {c t}, s.task c ≠ some t := by simp [hidle]
  cases hcell : s.record with
  | none =>
    rcases h.accounted.missing hcell with ⟨c, t, ht, -⟩ | ⟨htrace, -⟩
    · exact (hnone ht).elim
    · rw [htrace] at hn
      simp at hn
  | some cell =>
    rcases h.accounted.present cell hcell with ⟨-, c, t, ht, -⟩ | hdone | ⟨-, hdead⟩
    · exact (hnone ht).elim
    · exact .inl ⟨cell, hcell, hdone⟩
    · rcases hdead with hdead | ⟨c, t, ht, -⟩
      · exact .inr hdead
      · exact (hnone ht).elim

end Life

/-- Exactly once without faults: no two `handle()` calls overlap, none starts or succeeds after one
that succeeded, and when all deliveries have ended the message is COMPLETED or was dead-lettered. -/
theorem Group.exactly_once (g : Group V R) (m : MessageId)
    (hmax : ∀ c, 1 ≤ (g.consumers c).config.maxRetries)
    (hdec : ∀ p o, extractMessageId g.py (g.log p o) = .ok (some m.val) →
      ∃ payload, decodePayload g.py (g.log p o) = .ok payload)
    {s : State g.backend} (h : Reach ((g.system m).guard (g.during m Life.Faultless)) s) :
    (g.life m s).NoOverlap ∧ (g.life m s).SucceedsOnce ∧
      ((g.life m s).Finished → (g.life m s).IsCompleted ∨ (g.life m s).Happened .deadLetter) := by
  have hsound := Life.sound_of_reach hmax hdec (Group.reach_life h)
  exact ⟨hsound.success.noOverlap, hsound.success.once, hsound.finished⟩

/-- Two deliveries whose retries take turns. -/
def retryRun : List (Action Unit) :=
  [.assign 0 0, .assign 1 1, .poll 0 0, .act 0 (.done none), .enter 0,
    .act 0 (.raised handlerError false), .act 0 (.done none),
    .poll 1 1, .act 1 (.done none), .enter 1, .act 1 (.raised handlerError false),
    .act 1 (.done none), .tick 500000,
    .act 0 (.done none), .act 0 (.done none), .enter 0, .act 0 (.raised handlerError false),
    .act 0 (.done none),
    .act 1 (.done none), .act 1 (.done none), .enter 1, .act 1 (.done none), .act 1 (.done none),
    .act 1 (.done none), .tick 1000000,
    .act 0 (.done none), .act 0 (.done none), .act 0 (.done none), .act 0 (.done none)]

/-- The fourth `handle()` succeeds, the second one of the second delivery. -/
theorem Group.exactly_once_retried :
    let g := smallGroup (.inMemory {}) ⟨{}, some "orders.dlq"⟩ sampleId
    ∃ s, Reach ((g.system sampleId).guard (g.during sampleId Life.Faultless)) s ∧
      (g.life sampleId s).trace.countP (·.2 = .entered) = 4 ∧ (g.life sampleId s).NoOverlap ∧
      (g.life sampleId s).SucceedsOnce ∧
      ((g.life sampleId s).IsCompleted ∨ (g.life sampleId s).Happened .deadLetter) := by
  intro g
  have hrun : (replay g.exec (g.checked sampleId 2 (Life.isFaultless 2))
      (g.startState 0 g.backend.empty) retryRun).any (fun s =>
        (g.life sampleId s).happened .delivered && ((g.life sampleId s).tasks 2).isEmpty &&
          decide ((g.life sampleId s).trace.countP (·.2 = .entered) = 4)) =
      true := by
    decide +kernel
  obtain ⟨s, hs, hfin⟩ := (Option.any_eq_true _ _).mp hrun
  obtain ⟨hr, hq⟩ := Group.reach_replay Life.faultless_of_isFaultless rfl hs
  simp only [Bool.and_eq_true, List.isEmpty_iff, decide_eq_true_eq] at hfin
  obtain ⟨⟨hdelivered, hdone⟩, hentered⟩ := hfin
  have hmax : (1 : Int) ≤ 3 := by decide
  obtain ⟨hoverlap, honce, hend⟩ := Group.exactly_once g sampleId (fun _ => hmax)
    (fun p o _ => smallGroup_decodes _ _ _ p o) hr
  refine ⟨s, hr, hentered, hoverlap, honce, hend ⟨?_, ?_⟩⟩
  · exact Life.happened_iff.mpr hdelivered
  · exact Life.idle_of_tasks hq hdone

end MessageDedup
