import MessageDedup.Process.Stages

/-!
# What main() keeps

`main()` stage by stage: the run tasks run over clients that are started, and the clients are
stopped when all tasks have ended, whatever comes first: a signal, a crash, or a call that raises.
-/

namespace MessageDedup

open Coroutine (Proc Setting)
open ProcessProgram (consumers call)
open Transition (Reach)

variable {V : Type}

namespace Process

variable {p : Process} {s s' : ProcessState V}

/-! ## Where main() stands -/

/-- Where `main()` stands when it waits. -/
def At (p : Process) (s : ProcessState V) : ProcessCall → Prop
  | .start _ _ => ∃ rest, Starting rest s
  | .wait => Waiting p s
  | .gather => ∃ ends, Cancelling p ends [] s
  | .stop topic client => (∃ ends, Stopping p ends s) ∧ s.clients topic client = .started
  | _ => False

/-- `main()` returned. -/
structure Returned (p : Process) (code : Nat) (s : ProcessState V) : Prop where
  stopping : ∃ ends, Stopping p ends s ∧
    code = if consumers.any (fun topic => (ends topic).isSome) then 1 else 0
  stopped : ∀ topic client, s.clients topic client = .stopped

/-- `main()` raised: in a `start()`, at a task that was cancelled from elsewhere, or in a
`stop()`. -/
inductive Raised (p : Process) (s : ProcessState V) : Prop where
  | start (rest : List Topic) (h : Starting rest s)
  | cancelled (ends : Topic → Option TaskEnd) (hworking : Working p s) (hwoken : Woken ends s)
      (topic : Topic) (exc : Exc) (hend : ends topic = some (.raised exc))
      (hcancelled : exc.isCancelled = true)
  | stop (ends : Topic → Option TaskEnd) (h : Stopping p ends s) (topic : Topic)
      (client : Client) (hfailed : s.clients topic client = .failed)

abbrev Keeps {A : Type} (p : Process) (ok : A → ProcessState V → Prop) (program : ProcessProgram A)
    (s : ProcessState V) : Prop :=
  p.surroundings.Keeps p.At ok (fun _ => p.Raised) program s

theorem stable {I : ProcessState V → Prop} (h : ∀ s s', I s → Later p s s' → I s') :
    p.surroundings.Stable I :=
  fun s _ s' hs hmove => h s s' hs (later hmove)

/-! ### start() -/

section

variable {topic : Topic} {rest : List Topic}

theorem setClient_other {t : Topic} (h : t ≠ topic) (client : Client) (state : ClientState) :
    (s.setClient topic client state).clients t = s.clients t :=
  Function.update_of_ne h _ _

theorem setClient_self (client : Client) (state : ClientState) :
    (s.setClient topic client state).clients topic =
      Function.update (s.clients topic) client state :=
  Function.update_self _ _ _

theorem Starting.setClient (h : Starting (topic :: rest) s) (client : Client)
    (state : ClientState) : Starting (topic :: rest) (s.setClient topic client state) where
  distinct := h.distinct
  noRun := h.noRun
  noStop := h.noStop
  notDone := h.notDone
  notGathered := h.notGathered
  started := by
    intro t ht
    have hne : t ≠ topic := fun heq => ht (heq ▸ List.mem_cons_self)
    rw [setClient_other hne]
    exact h.started t ht

/-- `start()` of `topic` has got to the clients `up`. -/
def StartingUp (topic : Topic) (rest : List Topic) (up : List Client) (s : ProcessState V) :
    Prop :=
  Starting (topic :: rest) s ∧ ∀ client ∈ up, s.clients topic client = .started

theorem make_keeps {up : List Client} (client : Client) (hnew : client ∉ up)
    (h : StartingUp topic rest up s) :
    p.Keeps (fun _ => StartingUp topic rest up) (call (.make topic client)) s := by
  refine .call rfl ⟨h.1.setClient client .made, ?_⟩
  intro other hother
  have hne : other ≠ client := fun heq => hnew (heq ▸ hother)
  rw [setClient_self, Function.update_of_ne hne]
  exact h.2 other hother

theorem startClient_keeps {up : List Client} (client : Client)
    (h : StartingUp topic rest up s) :
    p.Keeps (fun _ => StartingUp topic rest (client :: up)) (call (.start topic client)) s := by
  refine .wait rfl (StartingUp topic rest up) h (stable ?_) (fun s hs => ⟨_, hs.1⟩) ?_ ?_
  · exact fun s s' hs hl => ⟨hs.1.later hl, hl.clients ▸ hs.2⟩
  · rintro s (_ | exc) s' r hs hanswer
    · cases hanswer
      refine ⟨hs.1.setClient client .started, ?_⟩
      intro other hother
      rw [setClient_self]
      rcases eq_or_ne other client with rfl | hne
      · exact Function.update_self _ _ _
      · rw [Function.update_of_ne hne]
        exact hs.2 other ((List.mem_cons.mp hother).resolve_left hne)
    · cases hanswer
  · rintro s (_ | exc) s' e hs hanswer
    · cases hanswer
    · cases hanswer
      exact .start _ (hs.1.setClient client .failed)

theorem start_keeps {self : DedupConsumer} (hdlq : self.dlq.isSome = true)
    (h : Starting (topic :: rest) s) :
    p.Keeps (fun _ => Starting rest) (ProcessProgram.start self topic) s := by
  unfold ProcessProgram.start ProcessProgram.startDlqProducer
  rw [if_pos hdlq]
  have hnone : StartingUp topic rest [] s := ⟨h, nofun⟩
  refine (make_keeps .consumer (by decide) hnone).bind fun _ _ h => ?_
  refine (startClient_keeps .consumer h).bind fun _ _ h => ?_
  have hdlq : p.Keeps (fun _ => StartingUp topic rest [.dlqProducer, .consumer]) _ _ :=
    (make_keeps .dlqProducer (by decide) h).bind fun _ _ h => startClient_keeps .dlqProducer h
  refine hdlq.bind fun _ _ h => (startClient_keeps .store h).mono ?_ fun _ _ h => h
  rintro - s ⟨h, hup⟩
  exact {
    h with
    distinct := h.distinct.of_cons
    started := by
      intro t ht client
      rcases eq_or_ne t topic with rfl | hne
      · exact hup client (by cases client <;> decide)
      · exact h.started t (fun hmem => ht ((List.mem_cons.mp hmem).resolve_left hne)) client }

end

/-! ### The tasks -/

/-- The tasks of `rest` are still to be created. -/
structure Creating (p : Process) (rest : List Topic) (s : ProcessState V) : Prop where
  runs : ∀ topic, topic ∉ rest → ∃ run, s.run topic = some run ∧
    Reach (p.runner topic).system run ∧ run.running = true
  connected : ∀ topic client, s.clients topic client = .started
  notDone : s.done = none
  notGathered : s.gathered = false

theorem Starting.creating (h : Starting [] s) : Creating p consumers s where
  runs := fun topic hnot => absurd (mem_consumers topic) hnot
  connected := fun topic => h.started topic nofun
  notDone := h.notDone
  notGathered := h.notGathered

theorem createRunTask_keeps {topic : Topic} {rest : List Topic} (h : Creating p (topic :: rest) s) :
    p.Keeps (fun _ => Creating p rest) (call (.createRunTask topic)) s := by
  refine .call rfl { h with runs := ?_ }
  intro t ht
  rcases eq_or_ne t topic with rfl | hne
  · exact ⟨_, Function.update_self _ _ _, .init ⟨_, rfl⟩, rfl⟩
  · obtain ⟨run, hrun, hrest⟩ :=
      h.runs t fun hmem => ht ((List.mem_cons.mp hmem).resolve_left hne)
    exact ⟨run, (Function.update_of_ne hne _ _).trans hrun, hrest⟩

theorem createStopTask_keeps (h : Creating p [] s) :
    p.Keeps (fun _ => p.Waiting) (call .createStopTask) s := by
  refine .call rfl ?_
  exact {
    runs := fun topic => h.runs topic nofun
    connected := h.connected
    notGathered := h.notGathered
    notDone := h.notDone
    stop := .inl rfl }

/-! ### wait() -/

/-- `main()` has just woken. -/
structure Waking (p : Process) (ends : Topic → Option TaskEnd) (s : ProcessState V) : Prop
    extends Working p s, woken : Woken ends s where
  stop : s.stopTask = .waiting ∨ s.stopTask = .over

theorem Working.raised (h : Working p s) {topic : Topic} {e : TaskEnd}
    (he : s.taskEnd topic = some e) : ∃ exc, e = .raised exc := by
  obtain ⟨run, hrun, hreach, hrunning⟩ := h.runs topic
  cases e with
  | raised exc => exact ⟨exc, rfl⟩
  | returned =>
    unfold ProcessState.taskEnd at he
    rw [hrun] at he
    have hbroken := RunState.BreaksOff.of_reach hreach he
    rw [hrunning] at hbroken
    simp at hbroken

theorem Waiting.wakes (h : Waiting p s) (hdone : s.someDone = true) :
    Waking p s.taskEnd { s with done := some s.taskEnd } where
  toWorking := { h.toWorking with }
  woken := {
    known := rfl
    stays := fun _ _ he => he
    raised := fun _ _ he => h.raised he
    cause := by
      unfold ProcessState.someDone at hdone
      rw [Bool.or_eq_true, decide_eq_true_eq, List.any_eq_true] at hdone
      rcases hdone with hover | ⟨topic, -, hend⟩
      · rcases h.stop with hstop | ⟨-, hrequested⟩
        · simp [hover] at hstop
        · exact .inr hrequested
      · exact .inl ⟨topic, hend⟩ }
  stop := h.stop.imp_right And.left

theorem wait_keeps (h : Waiting p s) : p.Keeps p.Waking (call .wait) s := by
  refine .wait rfl p.Waiting h (stable fun _ _ => .later) (fun _ hs => hs) ?_ ?_
  · rintro s (_ | exc) s' ends hs hanswer
    · simp only [surroundings, ProcessState.answer] at hanswer
      split at hanswer
      · rename_i hdone
        cases hanswer
        exact hs.wakes hdone
      · simp at hanswer
    · cases hanswer
  · rintro s (_ | exc) s' e hs hanswer
    · simp only [surroundings, ProcessState.answer] at hanswer
      split at hanswer <;> simp at hanswer
    · cases hanswer

/-! ### The exit code -/

section

variable {ends : Topic → Option TaskEnd}

theorem exitCode_keeps (h : Waking p ends s) (topics : List Topic) (code : Nat) :
    p.Keeps
      (fun code' s' => Waking p ends s' ∧
        (∀ topic ∈ topics, ∀ exc, ends topic = some (.raised exc) → exc.isCancelled = false) ∧
        code' = if topics.any (fun topic => (ends topic).isSome) then 1 else code)
      (ProcessProgram.exitCode ends topics code) s := by
  induction topics generalizing code with
  | nil => exact ⟨h, nofun, rfl⟩
  | cons topic topics ih =>
    unfold ProcessProgram.exitCode
    cases hend : ends topic with
    | none =>
      refine (ih code).mono ?_ fun _ _ h => h
      rintro code' s' ⟨hs, hclean, rfl⟩
      refine ⟨hs, List.forall_mem_cons.mpr ⟨?_, hclean⟩, ?_⟩
      · simp [hend]
      · simp [hend]
    | some e =>
      obtain ⟨exc, rfl⟩ := h.raised topic e hend
      simp only [TaskEnd.exception]
      cases hcancelled : exc.isCancelled with
      | true =>
        exact Setting.Keeps.raise (.cancelled ends h.toWorking h.woken topic exc hend hcancelled)
      | false =>
        refine Setting.Keeps.mono (ih 1) ?_ fun _ _ h => h
        rintro code' s' ⟨hs, hclean, rfl⟩
        refine ⟨hs, List.forall_mem_cons.mpr ⟨?_, hclean⟩, ?_⟩
        · intro exc' hexc'
          obtain rfl : exc = exc' := by simpa [hend] using hexc'
          exact hcancelled
        · simp [hend]

/-! ### Cancellation -/

theorem cancelStopTask_keeps (h : Waking p ends s) (hclean : Uncancelled ends) :
    p.Keeps (fun _ => Cancelling p ends consumers) (call .cancelStopTask) s := by
  refine .call rfl ?_
  unfold ProcessState.cancelStop
  have hrequested : ∀ topic, topic ∉ consumers → s.cancelRequested topic = true :=
    fun topic hnot => absurd (mem_consumers topic) hnot
  rcases h.stop with hstop | hstop
  · simp only [hstop, ↓reduceIte]
    exact {
      runs := h.runs
      connected := h.connected
      notGathered := h.notGathered
      woken := { h.woken with }
      uncancelled := hclean
      requested := hrequested
      stop := .inl rfl }
  · simp only [hstop, reduceCtorEq, ↓reduceIte]
    exact { h with uncancelled := hclean, requested := hrequested, stop := .inr hstop }

theorem cancelRunTask_keeps {topic : Topic} {rest : List Topic}
    (h : Cancelling p ends (topic :: rest) s) :
    p.Keeps (fun _ => Cancelling p ends rest) (call (.cancelRunTask topic)) s := by
  refine .call rfl ?_
  exact {
    runs := h.runs
    connected := h.connected
    notGathered := h.notGathered
    woken := { h.woken with }
    uncancelled := h.uncancelled
    requested := by
      intro t ht
      rcases eq_or_ne t topic with rfl | hne
      · exact Function.update_self _ _ _
      · refine (Function.update_of_ne hne _ _).trans (h.requested t ?_)
        exact fun hmem => ht ((List.mem_cons.mp hmem).resolve_left hne)
    stop := h.stop }

/-- `rest` are still to be stopped. -/
structure Closing (p : Process) (ends : Topic → Option TaskEnd) (rest : List Topic)
    (s : ProcessState V) : Prop extends Stopping p ends s where
  distinct : rest.Nodup
  started : ∀ topic ∈ rest, ∀ client, s.clients topic client = .started
  stopped : ∀ topic, topic ∉ rest → ∀ client, s.clients topic client = .stopped

theorem Cancelling.gathers (h : Cancelling p ends [] s) (hdone : s.allDone = true) :
    Closing p ends consumers { s with gathered := true } := by
  unfold ProcessState.allDone at hdone
  rw [Bool.and_eq_true, decide_eq_true_eq, List.all_eq_true] at hdone
  obtain ⟨hstop, hended⟩ := hdone
  exact {
    runs := by
      intro topic
      obtain ⟨e, he⟩ := Option.isSome_iff_exists.mp (hended topic (mem_consumers topic))
      obtain ⟨run, hrun, hreach, -⟩ := h.runs topic
      unfold ProcessState.taskEnd at he
      rw [hrun] at he
      exact ⟨run, e, hrun, hreach, he⟩
    stop := hstop
    woken := { h.woken with }
    uncancelled := h.uncancelled
    gathered := rfl
    distinct := by decide
    started := fun topic _ => h.connected topic
    stopped := fun topic hnot => absurd (mem_consumers topic) hnot }

theorem gather_keeps (h : Cancelling p ends [] s) :
    p.Keeps (fun _ => Closing p ends consumers) (call .gather) s := by
  refine .wait rfl (Cancelling p ends []) h (stable fun _ _ => .later) (fun _ hs => ⟨_, hs⟩) ?_ ?_
  · rintro s (_ | exc) s' r hs hanswer
    · simp only [surroundings, ProcessState.answer] at hanswer
      split at hanswer
      · rename_i hdone
        cases hanswer
        exact hs.gathers hdone
      · simp at hanswer
    · cases hanswer
  · rintro s (_ | exc) s' e hs hanswer
    · simp only [surroundings, ProcessState.answer] at hanswer
      split at hanswer <;> simp at hanswer
    · cases hanswer

end

/-! ### stop() -/

section

variable {ends : Topic → Option TaskEnd} {topic : Topic} {rest : List Topic}

/-- `stop()` of `topic` has stopped the clients `down`. -/
structure StoppingDown (p : Process) (ends : Topic → Option TaskEnd) (topic : Topic)
    (rest : List Topic) (down : List Client) (s : ProcessState V) : Prop
    extends Stopping p ends s where
  distinct : (topic :: rest).Nodup
  isDown : ∀ client ∈ down, s.clients topic client = .stopped
  isUp : ∀ client, client ∉ down → s.clients topic client = .started
  started : ∀ t ∈ rest, ∀ client, s.clients t client = .started
  stopped : ∀ t, t ∉ topic :: rest → ∀ client, s.clients t client = .stopped

theorem StoppingDown.later {down : List Client} (h : StoppingDown p ends topic rest down s)
    (hl : Later p s s') : StoppingDown p ends topic rest down s' where
  toStopping := h.toStopping.later hl
  distinct := h.distinct
  isDown := hl.clients ▸ h.isDown
  isUp := hl.clients ▸ h.isUp
  started := hl.clients ▸ h.started
  stopped := hl.clients ▸ h.stopped

theorem clearRunning_taskEnd (t : Topic) :
    (s.setRun topic ((s.run topic).map fun run => { run with running := false })).taskEnd t =
      s.taskEnd t := by
  unfold ProcessState.taskEnd ProcessState.setRun
  rcases eq_or_ne t topic with rfl | hne
  · simp only [Function.update_self]
    cases s.run t <;> rfl
  · simp only [Function.update_of_ne hne]

theorem Stopping.clearRunning (h : Stopping p ends s) (topic : Topic) :
    Stopping p ends
      (s.setRun topic ((s.run topic).map fun run => { run with running := false })) where
  runs := by
    intro t
    obtain ⟨run, e, hrun, hreach, hend⟩ := h.runs t
    rcases eq_or_ne t topic with rfl | hne
    · refine ⟨{ run with running := false }, e, ?_, hreach.step (a := .stop) rfl, hend⟩
      simp [ProcessState.setRun, hrun]
    · exact ⟨run, e, (Function.update_of_ne hne _ _).trans hrun, hreach, hend⟩
  stop := h.stop
  woken := {
    known := h.known
    stays := fun t e he => (clearRunning_taskEnd t).trans (h.stays t e he)
    raised := h.raised
    cause := h.cause }
  uncancelled := h.uncancelled
  gathered := h.gathered

theorem clearRunning_keeps (h : Closing p ends (topic :: rest) s) :
    p.Keeps (fun _ => StoppingDown p ends topic rest []) (call (.clearRunning topic)) s := by
  refine .call rfl ?_
  exact {
    h.toStopping.clearRunning topic with
    distinct := h.distinct
    isDown := nofun
    isUp := fun client _ => h.started topic List.mem_cons_self client
    started := fun t ht => h.started t (List.mem_cons_of_mem _ ht)
    stopped := h.stopped }

theorem Stopping.setClient (h : Stopping p ends s) (topic : Topic) (client : Client)
    (state : ClientState) : Stopping p ends (s.setClient topic client state) where
  runs := h.runs
  stop := h.stop
  woken := { h.woken with }
  uncancelled := h.uncancelled
  gathered := h.gathered

theorem StoppingDown.stopClient {down : List Client} (h : StoppingDown p ends topic rest down s)
    (client : Client) :
    StoppingDown p ends topic rest (client :: down) (s.setClient topic client .stopped) where
  toStopping := h.toStopping.setClient topic client .stopped
  distinct := h.distinct
  isDown := by
    intro other hother
    rw [setClient_self]
    rcases eq_or_ne other client with rfl | hne
    · exact Function.update_self _ _ _
    · rw [Function.update_of_ne hne]
      exact h.isDown other ((List.mem_cons.mp hother).resolve_left hne)
  isUp := by
    intro other hother
    obtain ⟨hne, hup⟩ := not_or.mp fun heq => hother (List.mem_cons.mpr heq)
    rw [setClient_self, Function.update_of_ne hne]
    exact h.isUp other hup
  started := by
    intro t ht
    have hne : t ≠ topic := fun heq => (List.nodup_cons.mp h.distinct).1 (heq ▸ ht)
    rw [setClient_other hne]
    exact h.started t ht
  stopped := by
    intro t ht
    have hne : t ≠ topic := fun heq => ht (heq ▸ List.mem_cons_self)
    rw [setClient_other hne]
    exact h.stopped t ht

theorem stopClient_keeps {down : List Client} (client : Client) (hup : client ∉ down)
    (h : StoppingDown p ends topic rest down s) :
    p.Keeps (fun _ => StoppingDown p ends topic rest (client :: down))
      (call (.stop topic client)) s := by
  refine .wait rfl (StoppingDown p ends topic rest down) h (stable fun _ _ => .later)
    (fun s hs => ⟨⟨_, hs.toStopping⟩, hs.isUp client hup⟩) ?_ ?_
  · rintro s (_ | exc) s' r hs hanswer
    · cases hanswer
      exact hs.stopClient client
    · cases hanswer
  · rintro s (_ | exc) s' e hs hanswer
    · cases hanswer
    · cases hanswer
      exact .stop ends (hs.toStopping.setClient topic client .failed) topic client
        (by rw [setClient_self, Function.update_self])

theorem stopIfMade_keeps {down : List Client} (client : Client) (hup : client ∉ down)
    (h : StoppingDown p ends topic rest down s) :
    p.Keeps (fun _ => StoppingDown p ends topic rest (client :: down))
      (ProcessProgram.stopIfMade topic client) s := by
  have hhas : p.Keeps (fun made s' => made = true ∧ s' = s) (call (.has topic client)) s :=
    .call rfl ⟨decide_eq_true (by simp [h.isUp client hup]), rfl⟩
  refine hhas.bind ?_
  rintro made s' ⟨rfl, rfl⟩
  exact stopClient_keeps client hup h

theorem stop_keeps (h : Closing p ends (topic :: rest) s) :
    p.Keeps (fun _ => Closing p ends rest) (ProcessProgram.stop topic) s := by
  refine (clearRunning_keeps h).bind fun _ _ h => ?_
  refine (stopIfMade_keeps .consumer (by decide) h).bind fun _ _ h => ?_
  refine (stopIfMade_keeps .dlqProducer (by decide) h).bind fun _ _ h => ?_
  refine (stopClient_keeps .store (by decide) h).mono ?_ fun _ _ h => h
  rintro - s h
  exact {
    h with
    distinct := h.distinct.of_cons
    stopped := by
      intro t ht client
      rcases eq_or_ne t topic with rfl | hne
      · exact h.isDown client (by cases client <;> decide)
      · exact h.stopped t (fun hmem => ht ((List.mem_cons.mp hmem).resolve_left hne)) client }

end

/-! ### main() -/

theorem start_starting : Starting consumers (ProcessState.startState : ProcessState V) where
  distinct := by decide
  noRun := fun _ => rfl
  noStop := rfl
  notDone := rfl
  notGathered := rfl
  started := fun topic hnot => absurd (mem_consumers topic) hnot

theorem main_keeps (h : Starting consumers s) :
    p.Keeps p.Returned (ProcessProgram.main p.config) s := by
  refine (Setting.Keeps.forM (fun rest => Starting rest)
    (fun topic rest s hs => start_keeps (topic.dlq_isSome p.config) hs) consumers h).bind
    fun _ _ h => ?_
  refine (Setting.Keeps.forM (Creating p)
    (fun topic rest s hs => createRunTask_keeps hs) consumers h.creating).bind fun _ _ h => ?_
  refine (createStopTask_keeps h).bind fun _ _ h => ?_
  refine (wait_keeps h).bind fun ends _ h => ?_
  refine (exitCode_keeps h consumers 0).bind ?_
  rintro code s ⟨h, hclean, rfl⟩
  refine (cancelStopTask_keeps h fun topic => hclean topic (mem_consumers topic)).bind
    fun _ _ h => ?_
  refine (Setting.Keeps.forM (Cancelling p ends)
    (fun topic rest s hs => cancelRunTask_keeps hs) consumers h).bind fun _ _ h => ?_
  refine (gather_keeps h).bind fun _ _ h => ?_
  refine (Setting.Keeps.forM (Closing p ends)
    (fun topic rest s hs => stop_keeps hs) consumers h).bind fun _ _ h => ?_
  exact .pure ⟨⟨ends, h.toStopping, rfl⟩, fun topic => h.stopped topic nofun⟩

theorem Returned.later {code : Nat} (h : Returned p code s) (hl : Later p s s') :
    Returned p code s' where
  stopping := by
    obtain ⟨ends, hs, hcode⟩ := h.stopping
    exact ⟨ends, hs.later hl, hcode⟩
  stopped := hl.clients ▸ h.stopped

theorem Raised.later (h : Raised p s) (hl : Later p s s') : Raised p s' := by
  cases h with
  | start rest h => exact .start rest (h.later hl)
  | cancelled ends hworking hwoken topic exc hend hcancelled =>
    exact .cancelled ends (hworking.later hl) (hwoken.later hl) topic exc hend hcancelled
  | stop ends h topic client hfailed =>
    exact .stop ends (h.later hl) topic client (hl.clients ▸ hfailed)

theorem holds {x : State V} (h : Reach p.system x) :
    Setting.Holds p.At p.Returned (fun _ => p.Raised) x := by
  refine Setting.Keeps.holds (fun code => stable fun _ _ => .later)
    (fun _ => stable fun _ _ => .later) ?_ h
  rintro s rfl
  exact main_keeps start_starting

/-! ## Every run -/

/-- The tasks are runs of `run()`, over connected clients. -/
structure Sound (p : Process) (s : ProcessState V) : Prop where
  reach : ∀ topic run, s.run topic = some run → Reach (p.runner topic).system run
  connected : ∀ topic run, s.run topic = some run → run.phase.taskEnd = none →
    ∀ client, s.clients topic client = .started

theorem Starting.sound {rest : List Topic} (h : Starting rest s) : Sound p s where
  reach := by
    intro topic run hrun
    simp [h.noRun topic] at hrun
  connected := by
    intro topic run hrun
    simp [h.noRun topic] at hrun

theorem Working.sound (h : Working p s) : Sound p s where
  reach := by
    intro topic run hrun
    obtain ⟨run', hrun', hreach, -⟩ := h.runs topic
    obtain rfl : run' = run := Option.some.inj (hrun'.symm.trans hrun)
    exact hreach
  connected := fun topic _ _ _ => h.connected topic

theorem Over.sound (h : Over p s) : Sound p s where
  reach := by
    intro topic run hrun
    obtain ⟨run', e, hrun', hreach, -⟩ := h.runs topic
    obtain rfl : run' = run := Option.some.inj (hrun'.symm.trans hrun)
    exact hreach
  connected := by
    intro topic run hrun halive
    obtain ⟨run', e, hrun', -, hend⟩ := h.runs topic
    obtain rfl : run' = run := Option.some.inj (hrun'.symm.trans hrun)
    simp [halive] at hend

theorem At.sound {c : ProcessCall} (h : At p s c) : Sound p s := by
  cases c with
  | start topic client =>
    obtain ⟨rest, h⟩ := h
    exact h.sound
  | wait => exact Working.sound h.toWorking
  | gather =>
    obtain ⟨ends, h⟩ := h
    exact h.toWorking.sound
  | stop topic client =>
    obtain ⟨⟨ends, h⟩, -⟩ := h
    exact h.toOver.sound
  | make _ _ | createRunTask _ | createStopTask | cancelStopTask | cancelRunTask _
  | clearRunning _ | has _ _ => exact h.elim

theorem Raised.sound (h : Raised p s) : Sound p s := by
  cases h with
  | start rest h => exact h.sound
  | cancelled ends h => exact h.sound
  | stop ends h => exact h.toOver.sound

theorem Returned.sound {code : Nat} (h : Returned p code s) : Sound p s := by
  obtain ⟨ends, h, -⟩ := h.stopping
  exact h.toOver.sound

theorem sound {x : State V} (h : Reach p.system x) : Sound p x.shared := by
  have hholds := holds h
  obtain ⟨program, s⟩ := x
  cases program with
  | pure code => exact Returned.sound hholds
  | raise exc => exact Raised.sound hholds
  | emit m k => exact hholds.elim
  | await c k => exact At.sound hholds

def AllEnded (s : ProcessState V) : Prop := ∀ topic, (s.taskEnd topic).isSome = true

theorem Over.allEnded (h : Over p s) : AllEnded s := by
  intro topic
  obtain ⟨run, e, hrun, -, hend⟩ := h.runs topic
  unfold ProcessState.taskEnd
  rw [hrun, Option.bind_some, hend]
  rfl

/-- How `main()` returns: it exits with 1 when a task had crashed by the time it woke, and with 0
when only a signal woke it. -/
def Exits (s : ProcessState V) (code : Nat) : Prop :=
  ∃ ends, s.done = some ends ∧ (∀ topic e, ends topic = some e → s.taskEnd topic = some e) ∧
    ((code = 1 ∧ ∃ topic exc, ends topic = some (.raised exc) ∧ exc.isCancelled = false) ∨
      (code = 0 ∧ (∀ topic, ends topic = none) ∧ s.stopRequested = true))

/-- How `main()` raises: a `start()` did, and no task was created; a task had been cancelled by
another than `main()`, and nothing is stopped; or a `stop()` did, when all tasks had ended. -/
def Fails (s : ProcessState V) : Prop :=
  (∀ topic, s.run topic = none) ∨
    (∃ topic exc, s.taskEnd topic = some (.raised exc) ∧ exc.isCancelled = true ∧
      ∀ t client, s.clients t client = .started) ∨
    (AllEnded s ∧ ∃ topic client, s.clients topic client = .failed)

/-- The promises of `main()`. -/
structure Orderly (p : Process) (x : State V) : Prop where
  tasks : ∀ topic run, x.shared.run topic = some run →
    run.OffsetsSafe ∧ run.EndsUncommitted (p.runner topic)
  connected : ∀ topic run, x.shared.run topic = some run → run.phase.taskEnd = none →
    ∀ client, x.shared.clients topic client = .started
  stops : ∀ topic client k, x.program = .await (.stop topic client) k → AllEnded x.shared
  returns : ∀ code, x.program = .pure code → AllEnded x.shared ∧
    (∀ topic client, x.shared.clients topic client = .stopped) ∧ Exits x.shared code
  raises : ∀ exc, x.program = .raise exc → Fails x.shared

theorem Returned.exits {code : Nat} (h : Returned p code s) : Exits s code := by
  obtain ⟨ends, hs, rfl⟩ := h.stopping
  refine ⟨ends, hs.known, hs.stays, ?_⟩
  by_cases hany : consumers.any (fun topic => (ends topic).isSome) = true
  · obtain ⟨topic, -, hsome⟩ := List.any_eq_true.mp hany
    obtain ⟨e, he⟩ := Option.isSome_iff_exists.mp hsome
    obtain ⟨exc, rfl⟩ := hs.raised topic e he
    exact .inl ⟨if_pos hany, topic, exc, he, hs.uncancelled topic exc he⟩
  · have hnone : ∀ topic, ends topic = none := by
      intro topic
      rw [List.any_eq_true] at hany
      by_contra hsome
      exact hany ⟨topic, mem_consumers topic, Option.isSome_iff_ne_none.mpr hsome⟩
    refine .inr ⟨if_neg hany, hnone, hs.cause.resolve_left ?_⟩
    rintro ⟨topic, hsome⟩
    simp [hnone topic] at hsome

theorem Raised.fails (h : Raised p s) : Fails s := by
  cases h with
  | start rest h => exact .inl h.noRun
  | cancelled ends hworking hwoken topic exc hend hcancelled =>
    exact .inr (.inl ⟨topic, exc, hwoken.stays topic _ hend, hcancelled, hworking.connected⟩)
  | stop ends h topic client hfailed =>
    exact .inr (.inr ⟨h.toOver.allEnded, topic, client, hfailed⟩)

/-- Over every order of calls, task steps and signals: the offsets of each consumer stay safe, its
clients are connected while its task lives, and they are stopped only when all tasks have ended.
When `main()` returns, every client is stopped, and its exit code tells a crash from a signal; when
it raises, `Fails` says what is left. -/
theorem main_orderly (p : Process) {x : State V} (h : Reach p.system x) : Orderly p x := by
  have hsound := sound h
  have hholds := holds h
  obtain ⟨program, s⟩ := x
  constructor
  · intro topic run hrun
    have hrunning := RunState.InOrder.of_reach (hsound.reach topic run hrun)
    exact ⟨hrunning.offsetsSafe, hrunning.endsUncommitted⟩
  · exact hsound.connected
  · rintro topic client k rfl
    obtain ⟨⟨ends, h⟩, -⟩ := hholds
    exact h.toOver.allEnded
  · rintro code rfl
    have hreturned : Returned p code s := hholds
    obtain ⟨ends, hstopping, -⟩ := hreturned.stopping
    exact ⟨hstopping.toOver.allEnded, hreturned.stopped, hreturned.exits⟩
  · rintro exc rfl
    exact Raised.fails hholds

def result (x : State V) : Option Nat :=
  match x.program with
  | .pure code => some code
  | _ => none

theorem program_of_result {x : State V} {code : Nat} (h : result x = some code) :
    x.program = .pure code := by
  unfold result at h
  split at h
  · rename_i hp
    exact hp.trans (congrArg Proc.pure (Option.some.inj h))
  · simp at h

def bareProcess : Process := ⟨bareRuntime, {}, fun _ _ => true, fun _ _ => 0⟩

def cancellation : Exc := ⟨.baseException "CancelledError", ""⟩

/-- SIGTERM comes, and Kafka is gone while the orders are being cancelled. -/
def lateCrash : List (Event Unit ⊕ Option Exc) :=
  List.replicate 9 (.inr none) ++
    [.inl .signal, .inl .stopTaskEnds, .inr none,
      .inl (.task .orders (.interrupt ⟨.exception "KafkaConnectionError", ""⟩)),
      .inl (.task .payments (.interrupt cancellation)),
      .inl (.task .shipments (.interrupt cancellation))] ++
    List.replicate 10 (.inr none)

/-- A crash that comes after the signal does not change the exit code. -/
theorem main_orderly_lateCrash :
    ∃ x : State Unit, Reach bareProcess.system x ∧ Orderly bareProcess x ∧
      x.program = .pure 0 ∧ ∃ exc, x.shared.taskEnd .orders = some (.raised exc) ∧
        exc.isCancelled = false := by
  let begin : State Unit :=
    bareProcess.surroundings.settle (ProcessProgram.main bareProcess.config) .startState
  have hrun : (Transition.replay bareProcess.surroundings.exec (fun _ _ => true) begin
      lateCrash).any (fun x => decide (result x = some 0 ∧
        x.shared.taskEnd .orders = some (.raised ⟨.exception "KafkaConnectionError", ""⟩))) =
      true := by
    decide +kernel
  obtain ⟨x, hx, hfin⟩ := (Option.any_eq_true _ _).mp hrun
  obtain ⟨hcode, hend⟩ := of_decide_eq_true hfin
  have hstart : Reach (bareProcess.system.guard fun _ _ => True) begin := .init ⟨_, rfl, rfl⟩
  have hr := (Transition.reach_replay (fun _ => True) (fun _ _ _ _ _ _ => ⟨trivial, trivial⟩)
    hstart trivial hx).1.of_guard
  exact ⟨x, hr, main_orderly bareProcess hr, program_of_result hcode, _, hend, rfl⟩

end Process

end MessageDedup
