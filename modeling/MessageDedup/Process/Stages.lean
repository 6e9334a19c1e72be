import MessageDedup.Process.Main

/-!
# The stages of main()

What the tasks and the signals can do while `main()` waits, and what they leave as it is in each of
its stages.
-/

namespace MessageDedup

open ProcessProgram (consumers)
open Transition (Reach)

variable {V : Type}

theorem mem_consumers (topic : Topic) : topic ∈ consumers := by
  cases topic <;> decide

theorem Topic.dlq_isSome (config : DeduplicationConfig) (topic : Topic) :
    (topic.handler config).dlq.isSome = true := by
  cases topic <;> rfl

/-! ## A run task -/

namespace RunState

variable {r : Runner} {run run' : RunState V} {a : RunAction V}

theorem InOrder.of_reach (h : Reach r.system run) : run.InOrder := by
  apply h.invariant InOrder
  · rintro _ ⟨position, rfl⟩
    exact .start position
  · exact fun _ _ _ _ hs hstep => hs.exec hstep

theorem running_exec (ha : a ≠ .stop) (h : r.exec run a = some run') :
    run'.running = run.running := by
  cases a with
  | stop => exact absurd rfl ha
  | yield record =>
    simp only [Runner.exec, Runner.yield] at h
    split at h
    · split at h
      · obtain rfl := Option.some.inj h
        rfl
      · simp at h
    · simp at h
  | interrupt exc =>
    simp only [Runner.exec, interrupt] at h
    split at h
    · obtain rfl := Option.some.inj h
      rfl
    · simp at h
  | act reply applied =>
    simp only [Runner.exec, Runner.act] at h
    split at h
    · obtain rfl := Option.some.inj h
      simp only [goTo]
      split <;> rfl
    · simp at h

theorem exec_ended {e : TaskEnd} (he : run.phase.taskEnd = some e) (ha : a ≠ .stop) :
    r.exec run a = none := by
  obtain ⟨running, position, committed, phase, yielded⟩ := run
  cases a with
  | stop => exact absurd rfl ha
  | yield record | interrupt exc | act reply applied =>
    cases phase with
    | waiting | processing record pc => simp [RunPhase.taskEnd] at he
    | raised exc atCommit | interrupted exc | broken => rfl

/-- The loop breaks off only once `_running` is cleared. -/
def BreaksOff (run : RunState V) : Prop :=
  run.phase.taskEnd = some .returned → run.running = false

theorem next_not_returned {record : ConsumerRecord} {atCommit : Bool} (next : Next V) :
    (next.phase record atCommit).taskEnd ≠ some .returned := by
  cases next <;> simp [Next.phase, RunPhase.taskEnd]

theorem BreaksOff.exec (hs : r.exec run a = some run') : run'.BreaksOff := by
  cases a with
  | stop =>
    obtain rfl := Option.some.inj hs
    exact fun _ => rfl
  | yield record =>
    simp only [Runner.exec, Runner.yield] at hs
    split at hs
    · split at hs
      · obtain rfl := Option.some.inj hs
        intro hend
        by_cases hrunning : run.running = true
        · simp only [goTo, if_pos hrunning] at hend
          exact absurd hend (next_not_returned _)
        · exact Bool.not_eq_true _ ▸ hrunning
      · simp at hs
    · simp at hs
  | interrupt exc =>
    simp only [Runner.exec, interrupt] at hs
    split at hs
    · obtain rfl := Option.some.inj hs
      simp [BreaksOff, goTo, RunPhase.taskEnd]
    · simp at hs
  | act reply applied =>
    simp only [Runner.exec, Runner.act] at hs
    split at hs
    · obtain rfl := Option.some.inj hs
      exact fun hend => absurd hend (next_not_returned _)
    · simp at hs

theorem BreaksOff.of_reach (h : Reach r.system run) : run.BreaksOff := by
  apply h.invariant BreaksOff
  · rintro _ ⟨position, rfl⟩
    exact nofun
  · exact fun _ _ _ _ _ hstep => .exec hstep

end RunState

/-! ## What the others do -/

namespace Process

variable {p : Process} {s s' : ProcessState V}

theorem taskStep_cases {topic : Topic} {a : RunAction V} (h : p.taskStep s topic a = some s') :
    ∃ run run', s.run topic = some run ∧ a ≠ .stop ∧ (p.runner topic).exec run a = some run' ∧
      s' = s.setRun topic (some run') := by
  have hstop : a ≠ .stop := by
    rintro rfl
    simp [taskStep] at h
  have hstep : ∃ run', ((s.run topic).bind fun run => (p.runner topic).exec run a) = some run' ∧
      s' = s.setRun topic (some run') := by
    cases a with
    | stop => exact absurd rfl hstop
    | yield _ | interrupt _ | act _ _ =>
      obtain ⟨run', hrun', rfl⟩ := Option.map_eq_some_iff.mp h
      exact ⟨run', (Option.filter_eq_some_iff.mp hrun').1, rfl⟩
  obtain ⟨run', hrun', rfl⟩ := hstep
  obtain ⟨run, hrun, hexec⟩ := Option.bind_eq_some_iff.mp hrun'
  exact ⟨run, run', hrun, hstop, hexec, rfl⟩

/-- What becomes of a run task. -/
structure RunLater (p : Process) (topic : Topic) (run run' : RunState V) : Prop where
  reach : Reach (p.runner topic).system run → Reach (p.runner topic).system run'
  running : run'.running = run.running
  ended : ∀ e, run.phase.taskEnd = some e → run' = run

/-- What the others leave as it is while `main()` waits. -/
structure Later (p : Process) (s s' : ProcessState V) : Prop where
  clients : s'.clients = s.clients
  done : s'.done = s.done
  gathered : s'.gathered = s.gathered
  cancelRequested : s'.cancelRequested = s.cancelRequested
  requested : s.stopRequested = true → s'.stopRequested = true
  stopTask : s'.stopTask = s.stopTask ∨ s'.stopTask = .over ∧
    (s.stopTask = .cancelling ∨ s.stopTask = .waiting ∧ s.stopRequested = true)
  noRun : ∀ topic, s.run topic = none → s'.run topic = none
  run : ∀ topic run, s.run topic = some run →
    ∃ run', s'.run topic = some run' ∧ RunLater p topic run run'

theorem RunLater.refl (topic : Topic) (run : RunState V) : RunLater p topic run run :=
  ⟨id, rfl, fun _ _ => rfl⟩

theorem later {a : Event V} (h : p.move s a = some s') : Later p s s' := by
  have hsame : ∀ topic run, s.run topic = some run →
      ∃ run', s.run topic = some run' ∧ RunLater p topic run run' :=
    fun topic run hrun => ⟨run, hrun, .refl topic run⟩
  cases a with
  | signal =>
    obtain rfl := Option.some.inj h
    exact ⟨rfl, rfl, rfl, rfl, fun _ => rfl, .inl rfl, fun _ h => h, hsame⟩
  | stopTaskEnds =>
    simp only [move, ProcessState.endStop] at h
    split at h
    · rename_i hstop
      obtain rfl := Option.some.inj h
      exact ⟨rfl, rfl, rfl, rfl, id, .inr ⟨rfl, hstop⟩, fun _ h => h, hsame⟩
    · simp at h
  | task topic a =>
    obtain ⟨run, run', hrun, ha, hexec, rfl⟩ := taskStep_cases h
    refine ⟨rfl, rfl, rfl, rfl, id, .inl rfl, ?_, ?_⟩
    · intro t ht
      have hne : t ≠ topic := by
        rintro rfl
        simp [hrun] at ht
      simpa [ProcessState.setRun, Function.update_of_ne hne] using ht
    · intro t run₀ ht
      rcases eq_or_ne t topic with rfl | hne
      · obtain rfl : run = run₀ := Option.some.inj (hrun.symm.trans ht)
        refine ⟨run', by simp [ProcessState.setRun], fun hr => hr.step hexec,
          RunState.running_exec ha hexec, ?_⟩
        intro e he
        rw [RunState.exec_ended he ha] at hexec
        simp at hexec
      · exact ⟨run₀, by simpa [ProcessState.setRun, Function.update_of_ne hne] using ht, .refl t _⟩

theorem Later.taskEnd (h : Later p s s') {topic : Topic} {e : TaskEnd}
    (he : s.taskEnd topic = some e) : s'.taskEnd topic = some e := by
  obtain ⟨run, hrun, hend⟩ := Option.bind_eq_some_iff.mp he
  obtain ⟨run', hrun', hlater⟩ := h.run topic run hrun
  obtain rfl := hlater.ended e hend
  exact Option.bind_eq_some_iff.mpr ⟨run', hrun', hend⟩

/-! ## The stages of main() -/

/-- `rest` are still to be started. -/
structure Starting (rest : List Topic) (s : ProcessState V) : Prop where
  distinct : rest.Nodup
  noRun : ∀ topic, s.run topic = none
  noStop : s.stopTask = .absent
  notDone : s.done = none
  notGathered : s.gathered = false
  started : ∀ topic, topic ∉ rest → ∀ client, s.clients topic client = .started

/-- Each consumer is connected and has its task. -/
structure Working (p : Process) (s : ProcessState V) : Prop where
  runs : ∀ topic, ∃ run, s.run topic = some run ∧ Reach (p.runner topic).system run ∧
    run.running = true
  connected : ∀ topic client, s.clients topic client = .started
  notGathered : s.gathered = false

structure Waiting (p : Process) (s : ProcessState V) : Prop extends Working p s where
  notDone : s.done = none
  stop : s.stopTask = .waiting ∨ s.stopTask = .over ∧ s.stopRequested = true

/-- `main()` woke, and `wait` gave `ends`. -/
structure Woken (ends : Topic → Option TaskEnd) (s : ProcessState V) : Prop where
  known : s.done = some ends
  stays : ∀ topic e, ends topic = some e → s.taskEnd topic = some e
  raised : ∀ topic e, ends topic = some e → ∃ exc, e = .raised exc
  cause : (∃ topic, (ends topic).isSome = true) ∨ s.stopRequested = true

/-- No task was cancelled from elsewhere. -/
def Uncancelled (ends : Topic → Option TaskEnd) : Prop :=
  ∀ topic exc, ends topic = some (.raised exc) → exc.isCancelled = false

/-- The tasks of `rest` are still to be cancelled. -/
structure Cancelling (p : Process) (ends : Topic → Option TaskEnd) (rest : List Topic)
    (s : ProcessState V) : Prop extends Working p s, woken : Woken ends s where
  uncancelled : Uncancelled ends
  requested : ∀ topic, topic ∉ rest → s.cancelRequested topic = true
  stop : s.stopTask = .cancelling ∨ s.stopTask = .over

/-- All tasks have ended. -/
structure Over (p : Process) (s : ProcessState V) : Prop where
  runs : ∀ topic, ∃ run e, s.run topic = some run ∧ Reach (p.runner topic).system run ∧
    run.phase.taskEnd = some e
  stop : s.stopTask = .over

structure Stopping (p : Process) (ends : Topic → Option TaskEnd) (s : ProcessState V) : Prop
    extends Over p s, woken : Woken ends s where
  uncancelled : Uncancelled ends
  gathered : s.gathered = true

/-! ### The others keep them -/

section

variable {rest : List Topic} {ends : Topic → Option TaskEnd}

theorem Starting.later (h : Starting rest s) (hl : Later p s s') : Starting rest s' where
  distinct := h.distinct
  noRun := fun topic => hl.noRun topic (h.noRun topic)
  noStop := by
    rcases hl.stopTask with hsame | ⟨-, hstop | ⟨hstop, -⟩⟩
    · exact hsame.trans h.noStop
    · simp [h.noStop] at hstop
    · simp [h.noStop] at hstop
  notDone := hl.done.trans h.notDone
  notGathered := hl.gathered.trans h.notGathered
  started := hl.clients ▸ h.started

theorem Working.later (h : Working p s) (hl : Later p s s') : Working p s' where
  runs := by
    intro topic
    obtain ⟨run, hrun, hreach, hrunning⟩ := h.runs topic
    obtain ⟨run', hrun', hlater⟩ := hl.run topic run hrun
    exact ⟨run', hrun', hlater.reach hreach, hlater.running.trans hrunning⟩
  connected := hl.clients ▸ h.connected
  notGathered := hl.gathered.trans h.notGathered

theorem Waiting.later (h : Waiting p s) (hl : Later p s s') : Waiting p s' where
  toWorking := h.toWorking.later hl
  notDone := hl.done.trans h.notDone
  stop := by
    rcases hl.stopTask with hsame | ⟨hover, hcancelling | ⟨-, hrequested⟩⟩
    · rw [hsame]
      exact h.stop.imp_right fun ⟨hover, hrequested⟩ => ⟨hover, hl.requested hrequested⟩
    · rcases h.stop with hstop | ⟨hstop, -⟩ <;> simp [hcancelling] at hstop
    · exact .inr ⟨hover, hl.requested hrequested⟩

theorem Woken.later (h : Woken ends s) (hl : Later p s s') : Woken ends s' where
  known := hl.done.trans h.known
  stays := fun topic e he => hl.taskEnd (h.stays topic e he)
  raised := h.raised
  cause := h.cause.imp_right hl.requested

theorem Cancelling.later (h : Cancelling p ends rest s) (hl : Later p s s') :
    Cancelling p ends rest s' where
  toWorking := h.toWorking.later hl
  woken := h.woken.later hl
  uncancelled := h.uncancelled
  requested := hl.cancelRequested ▸ h.requested
  stop := by
    rcases hl.stopTask with hsame | ⟨hover, -⟩
    · exact hsame ▸ h.stop
    · exact .inr hover

theorem Over.later (h : Over p s) (hl : Later p s s') : Over p s' where
  runs := by
    intro topic
    obtain ⟨run, e, hrun, hreach, hend⟩ := h.runs topic
    obtain ⟨run', hrun', hlater⟩ := hl.run topic run hrun
    obtain rfl := hlater.ended e hend
    exact ⟨run', e, hrun', hreach, hend⟩
  stop := by
    rcases hl.stopTask with hsame | ⟨hover, -⟩
    · exact hsame.trans h.stop
    · exact hover

theorem Stopping.later (h : Stopping p ends s) (hl : Later p s s') : Stopping p ends s' where
  toOver := h.toOver.later hl
  woken := h.woken.later hl
  uncancelled := h.uncancelled
  gathered := hl.gathered.trans h.gathered

end

end Process

end MessageDedup
