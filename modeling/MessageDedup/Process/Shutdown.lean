import MessageDedup.Process.Orderly

/-!
# The shutdown

Once `main()` has woken it comes to an end, if the awaited calls let the cancellation through:
`rank` is lowered by each step but a further signal, and until `main()` is over some step can be
taken.
-/

namespace MessageDedup

open Coroutine (Proc Setting)
open ProcessProgram (consumers)
open Transition (Reach)

variable {V : Type}

/-! ## A cancelled task -/

theorem Exc.isException_cancelled {exc : Exc} (h : exc.isCancelled = true) :
    exc.isException = false := by
  unfold isCancelled at h
  rw [decide_eq_true_eq] at h
  unfold isException
  rw [h]

theorem DedupConsumer.resume_uncaught {py : Python} {self : DedupConsumer} {record : ConsumerRecord}
    (pc : Pc V) {exc : Exc} (h : exc.isException = false) :
    (self.resume py record pc (.error exc)).2 = .raised exc := by
  cases pc with
  | claim m | getStatus m | commitSkipped m => rfl
  | executing id payload pc =>
    cases pc with
    | markFailed attempts exc | sleep attempts exc | reclaim attempts exc | commitCompleted
    | sendToDlq topic lastExc | commitDlq => rfl
    | handle attempts => simp [resume, resumeLoop, afterHandle, h]
    | markCompleted result => simp [resume, resumeLoop, afterMark, h]

/-- The awaited call lets the cancellation through. -/
def RunAction.Cancelled : RunAction V → Prop
  | .interrupt exc => exc.isCancelled = true
  | .act reply _ => ∀ call, ∃ exc, reply call = .error exc ∧ exc.isCancelled = true
  | _ => False

theorem RunAction.Cancelled.ends {r : Runner} {run run' : RunState V} {a : RunAction V}
    (ha : a.Cancelled) (h : r.exec run a = some run') : run'.phase.taskEnd.isSome = true := by
  cases a with
  | stop | yield record => exact ha.elim
  | interrupt exc =>
    simp only [Runner.exec, RunState.interrupt] at h
    split at h
    · obtain rfl := Option.some.inj h
      rfl
    · simp at h
  | act reply applied =>
    simp only [Runner.exec, Runner.act] at h
    split at h
    · rename_i record pc hphase
      obtain rfl := Option.some.inj h
      obtain ⟨exc, hreply, hcancelled⟩ := ha (r.consumer.callOf r.py record pc)
      rw [hreply, DedupConsumer.resume_uncaught pc (Exc.isException_cancelled hcancelled)]
      rfl
    · simp at h

namespace Process

variable {p : Process} {s s' : ProcessState V} {x x' : State V}

theorem taskStep_ends {topic : Topic} {a : RunAction V} {run run' : RunState V} {e : TaskEnd}
    (ha : a ≠ .stop) (hrun : s.run topic = some run)
    (hexec : (p.runner topic).exec run a = some run') (hend : run'.phase.taskEnd = some e)
    (he : e.endsLoop = false) : (p.taskStep s topic a).isSome = true := by
  have hstep : ((s.run topic).bind fun run => (p.runner topic).exec run a) = some run' := by
    rw [hrun, Option.bind_some, hexec]
  cases a with
  | stop => exact absurd rfl ha
  | yield _ | interrupt _ | act _ _ => simp [taskStep, hstep, hend, he]

theorem cancels (p : Process) {topic : Topic} {run : RunState V} (hrun : s.run topic = some run)
    (halive : run.phase.taskEnd = none) :
    ∃ a : RunAction V, a.Cancelled ∧ (p.taskStep s topic a).isSome = true := by
  have hcancelled : cancellation.isCancelled = true := by decide
  obtain ⟨running, position, committed, phase, yielded⟩ := run
  cases phase with
  | waiting =>
    exact ⟨.interrupt cancellation, hcancelled,
      taskStep_ends (e := .raised cancellation) nofun hrun rfl rfl (by decide)⟩
  | processing record pc =>
    refine ⟨.act (fun _ => .error cancellation) true, fun _ => ⟨_, rfl, hcancelled⟩,
      taskStep_ends (e := .raised cancellation) nofun hrun rfl ?_ (by decide)⟩
    simp only [RunState.goTo]
    rw [DedupConsumer.resume_uncaught pc (Exc.isException_cancelled hcancelled)]
    rfl
  | raised exc atCommit | interrupted exc | broken => simp [RunPhase.taskEnd] at halive

/-! ## The rank -/

def clientsOf (topic : Topic) : List (Topic × Client) :=
  [(topic, .consumer), (topic, .dlqProducer), (topic, .store)]

def allClients : List (Topic × Client) := consumers.flatMap clientsOf

theorem mem_allClients (topic : Topic) (client : Client) : (topic, client) ∈ allClients := by
  cases topic <;> cases client <;> decide

/-- The tasks that are alive. -/
def alive (s : ProcessState V) : Nat := consumers.countP fun topic => (s.taskEnd topic).isNone

def stopLeft (s : ProcessState V) : Nat := if s.stopTask = .over then 0 else 1

def isOpen (s : ProcessState V) (client : Topic × Client) : Bool :=
  s.clients client.1 client.2 = .started

/-- The clients that are still to be stopped. -/
def opened (s : ProcessState V) : Nat := allClients.countP (isOpen s)

def callsLeft (x : State V) : Nat :=
  match x.program with
  | .await _ _ => if x.shared.gathered then opened x.shared else 10
  | _ => 0

def rank (x : State V) : Nat := alive x.shared + stopLeft x.shared + callsLeft x

theorem opened_le (s : ProcessState V) : opened s ≤ 9 := List.countP_le_length

theorem rank_le (x : State V) : rank x ≤ 14 := by
  have halive : alive x.shared ≤ 3 := List.countP_le_length
  have hstop : stopLeft x.shared ≤ 1 := by
    unfold stopLeft
    split <;> omega
  have hopened := opened_le x.shared
  have hcalls : callsLeft x ≤ 10 := by
    unfold callsLeft
    split
    · split <;> omega
    · omega
  unfold rank
  omega

theorem AllEnded.alive_eq (h : AllEnded s) : alive s = 0 := by
  unfold alive
  rw [List.countP_eq_zero]
  intro topic _
  simp [Option.isSome_iff_ne_none.mp (h topic)]

theorem countP_lt {X : Type} {f g : X → Bool} {l : List X} {y : X} (hy : y ∈ l)
    (hf : f y = true) (hg : g y = false) (hle : ∀ z, g z = true → f z = true) :
    l.countP g < l.countP f := by
  obtain ⟨before, after, rfl⟩ := List.append_of_mem hy
  have hbefore := List.countP_mono_left fun z (_ : z ∈ before) => hle z
  have hafter := List.countP_mono_left fun z (_ : z ∈ after) => hle z
  simp only [List.countP_append, List.countP_cons, hf, hg, if_true, Bool.false_eq_true, if_false]
  omega

/-! ## A step lowers it -/

/-- `main()` has woken. -/
def Awake (s : ProcessState V) : Prop := s.done.isSome = true

/-- While `main()` shuts down, it waits for `gather` or for a `stop`. -/
inductive Shutting (p : Process) (s : ProcessState V) : ProcessCall → Prop
  | gather {ends : Topic → Option TaskEnd} (h : Cancelling p ends [] s) : Shutting p s .gather
  | stop {topic : Topic} {client : Client} {ends : Topic → Option TaskEnd}
      (h : Stopping p ends s) (hopen : s.clients topic client = .started) :
      Shutting p s (.stop topic client)

theorem At.shutting {c : ProcessCall} (h : At p s c) (hawake : Awake s) :
    Shutting p s c := by
  cases c with
  | start topic client =>
    obtain ⟨rest, h⟩ := h
    simp [Awake, h.notDone] at hawake
  | wait =>
    have hwaiting : Waiting p s := h
    simp [Awake, hwaiting.notDone] at hawake
  | gather =>
    obtain ⟨ends, h⟩ := h
    exact .gather h
  | stop topic client =>
    obtain ⟨⟨ends, h⟩, hopen⟩ := h
    exact .stop h hopen
  | make _ _ | createRunTask _ | createStopTask | cancelStopTask | cancelRunTask _
  | clearRunning _ | has _ _ => exact h.elim

theorem stopTask_rank (h : s.endStop = some s') :
    stopLeft s' < stopLeft s ∧ alive s' = alive s ∧ opened s' = opened s ∧
      s'.gathered = s.gathered := by
  unfold ProcessState.endStop at h
  split at h
  · rename_i hstop
    obtain rfl := Option.some.inj h
    refine ⟨?_, rfl, rfl, rfl⟩
    have hnot : s.stopTask ≠ .over := by
      rintro hover
      simp [hover] at hstop
    unfold stopLeft
    rw [if_pos rfl, if_neg hnot]
    exact Nat.one_pos
  · simp at h

theorem taskStep_rank {topic : Topic} {a : RunAction V} (ha : a.Cancelled)
    (h : p.taskStep s topic a = some s') :
    alive s' < alive s ∧ stopLeft s' = stopLeft s ∧ opened s' = opened s ∧
      s'.gathered = s.gathered := by
  obtain ⟨run, run', hrun, hstop, hexec, rfl⟩ := taskStep_cases h
  refine ⟨?_, rfl, rfl, rfl⟩
  have halive : run.phase.taskEnd = none := by
    by_contra hended
    obtain ⟨e, he⟩ := Option.ne_none_iff_exists'.mp hended
    rw [RunState.exec_ended he hstop] at hexec
    simp at hexec
  apply countP_lt (mem_consumers topic)
  · simp [ProcessState.taskEnd, hrun, halive]
  · have hended := ha.ends hexec
    simpa [ProcessState.taskEnd, ProcessState.setRun, Option.isSome_iff_ne_none] using hended
  · intro t ht
    rcases eq_or_ne t topic with rfl | hne
    · simp [ProcessState.taskEnd, hrun, halive]
    · simpa [ProcessState.taskEnd, ProcessState.setRun, Function.update_of_ne hne] using ht

theorem setClient_isOpen {topic : Topic} {client : Client} {state : ClientState}
    (hstate : state ≠ .started) (y : Topic × Client)
    (h : isOpen (s.setClient topic client state) y = true) :
    isOpen s y = true ∧ y ≠ (topic, client) := by
  obtain ⟨t, other⟩ := y
  unfold isOpen at h ⊢
  rcases eq_or_ne t topic with rfl | hne
  · rw [setClient_self] at h
    rcases eq_or_ne other client with rfl | hother
    · simp [hstate] at h
    · rw [Function.update_of_ne hother] at h
      exact ⟨h, fun heq => hother (congrArg Prod.snd heq)⟩
  · rw [setClient_other hne] at h
    exact ⟨h, fun heq => hne (congrArg Prod.fst heq)⟩

theorem setClient_opened {topic : Topic} {client : Client} {state : ClientState}
    (hstate : state ≠ .started) (hopen : s.clients topic client = .started) :
    opened (s.setClient topic client state) < opened s := by
  apply countP_lt (mem_allClients topic client)
  · exact decide_eq_true hopen
  · by_contra hstill
    rw [Bool.not_eq_false] at hstill
    exact (setClient_isOpen hstate _ hstill).2 rfl
  · exact fun y hy => (setClient_isOpen hstate y hy).1

theorem atOnce_opened (c : ProcessCall) {f : ProcessState V → ProcessState V × c.Reply}
    (hf : p.atOnce c = some f) (s : ProcessState V) :
    opened (f s).1 ≤ opened s ∧ (f s).1.gathered = s.gathered ∧ (f s).1.done = s.done := by
  cases c with
  | start _ _ | wait | gather | stop _ _ => simp [atOnce] at hf
  | make topic client =>
    obtain rfl := Option.some.inj hf
    refine ⟨List.countP_mono_left fun y _ hy => ?_, rfl, rfl⟩
    have hmade : ClientState.made ≠ .started := by decide
    exact (setClient_isOpen hmade y hy).1
  | createRunTask _ | createStopTask | cancelRunTask _ | clearRunning _ | has _ _ =>
    obtain rfl := Option.some.inj hf
    exact ⟨Nat.le_refl _, rfl, rfl⟩
  | cancelStopTask =>
    obtain rfl := Option.some.inj hf
    simp only [ProcessState.cancelStop]
    split <;> exact ⟨Nat.le_refl _, rfl, rfl⟩

theorem Over.alive (h : Over p s) : alive s = 0 ∧ stopLeft s = 0 := by
  refine ⟨h.allEnded.alive_eq, ?_⟩
  unfold stopLeft
  rw [if_pos h.stop]

theorem rank_over (h : Over p x.shared) : rank x = callsLeft x := by
  obtain ⟨halive, hstop⟩ := h.alive
  unfold rank
  omega

section

variable {c : ProcessCall} {k : Except Exc c.Reply → ProcessProgram Nat}

theorem callsLeft_gathered (h : s.gathered = true) :
    callsLeft (⟨.await c k, s⟩ : State V) = opened s := if_pos h

theorem callsLeft_waiting (h : s.gathered = false) : callsLeft (⟨.await c k, s⟩ : State V) = 10 :=
  if_neg (by simp [h])

end

theorem rank_gathered (h : Reach p.system x) (hawake : Awake x.shared)
    (hgathered : x.shared.gathered = true) : rank x ≤ opened x.shared := by
  have hholds := holds h
  obtain ⟨program, s⟩ := x
  have hnot : ¬ Working p s := by
    intro hworking
    simp [hworking.notGathered] at hgathered
  cases program with
  | pure code =>
    obtain ⟨⟨ends, hstopping, -⟩, -⟩ : Returned p code s := hholds
    rw [rank_over hstopping.toOver]
    exact Nat.zero_le _
  | raise exc =>
    have hraised : Raised p s := hholds
    cases hraised with
    | start rest hstarting => simp [Awake, hstarting.notDone] at hawake
    | cancelled ends hworking => exact absurd hworking hnot
    | stop ends hstopping =>
      rw [rank_over hstopping.toOver]
      exact Nat.zero_le _
  | emit m k => exact hholds.elim
  | await c k =>
    cases At.shutting hholds hawake with
    | gather hcancelling => exact absurd hcancelling.toWorking hnot
    | stop hstopping hopen =>
      rw [rank_over hstopping.toOver, callsLeft_gathered hgathered]

theorem settle_after {A : Type} (program : ProcessProgram A) (s : ProcessState V) :
    let x := p.surroundings.settle program s
    opened x.shared ≤ opened s ∧ x.shared.gathered = s.gathered ∧ x.shared.done = s.done := by
  refine Setting.settle_shared (I := fun s' =>
    opened s' ≤ opened s ∧ s'.gathered = s.gathered ∧ s'.done = s.done) ?_ program
    ⟨Nat.le_refl _, rfl, rfl⟩
  intro c f s' hf ⟨hopened, hgathered, hdone⟩
  obtain ⟨hopened', hgathered', hdone'⟩ := atOnce_opened c hf s'
  exact ⟨Nat.le_trans hopened' hopened, hgathered'.trans hgathered, hdone'.trans hdone⟩

theorem gather_rank {k : Except Exc Unit → ProcessProgram Nat} {o : Option Exc}
    {ends : Topic → Option TaskEnd} (h : Reach p.system (⟨.await .gather k, s⟩ : State V))
    (hcancelling : Cancelling p ends [] s)
    (hs : p.surroundings.exec ⟨.await .gather k, s⟩ (.inr o) = some x') :
    rank x' < rank (⟨.await .gather k, s⟩ : State V) ∧ Awake x'.shared := by
  have hreach : Reach p.system x' := h.step hs
  obtain ⟨y, hy, rfl⟩ := Option.map_eq_some_iff.mp hs
  have hgathers : y.1 = { s with gathered := true } := by
    cases o with
    | some exc => cases hy
    | none =>
      simp only [surroundings, ProcessState.answer] at hy
      split at hy
      · rw [← Option.some.inj hy]
      · simp at hy
  obtain ⟨-, hgathered, hdone⟩ := settle_after (p := p) (k y.2) y.1
  rw [hgathers] at hreach hgathered hdone ⊢
  have hawake : Awake (p.surroundings.settle (k y.2) { s with gathered := true }).shared := by
    unfold Awake
    rw [hdone, hcancelling.known]
    rfl
  refine ⟨?_, hawake⟩
  have hle := rank_gathered hreach hawake hgathered
  have hnine := opened_le (p.surroundings.settle (k y.2) { s with gathered := true }).shared
  have hten : 10 ≤ rank (⟨.await .gather k, s⟩ : State V) := by
    unfold rank
    rw [callsLeft_waiting hcancelling.notGathered]
    omega
  omega

theorem stop_rank {topic : Topic} {client : Client} {k : Except Exc Unit → ProcessProgram Nat}
    {o : Option Exc} {ends : Topic → Option TaskEnd}
    (h : Reach p.system (⟨.await (.stop topic client) k, s⟩ : State V))
    (hstopping : Stopping p ends s) (hopen : s.clients topic client = .started)
    (hs : p.surroundings.exec ⟨.await (.stop topic client) k, s⟩ (.inr o) = some x') :
    rank x' < rank (⟨.await (.stop topic client) k, s⟩ : State V) ∧ Awake x'.shared := by
  have hreach : Reach p.system x' := h.step hs
  obtain ⟨y, hy, rfl⟩ := Option.map_eq_some_iff.mp hs
  have hcloses : ∃ state, state ≠ .started ∧ y.1 = s.setClient topic client state := by
    cases o with
    | none =>
      cases hy
      exact ⟨.stopped, by decide, rfl⟩
    | some exc =>
      cases hy
      exact ⟨.failed, by decide, rfl⟩
  obtain ⟨state, hstate, hcloses⟩ := hcloses
  obtain ⟨hopened, hgathered, hdone⟩ := settle_after (p := p) (k y.2) y.1
  rw [hcloses] at hreach hopened hgathered hdone ⊢
  have hawake : Awake (p.surroundings.settle (k y.2)
      (s.setClient topic client state)).shared := by
    unfold Awake
    rw [hdone]
    exact (congrArg Option.isSome hstopping.known).trans rfl
  refine ⟨?_, hawake⟩
  have hle := rank_gathered hreach hawake (hgathered.trans hstopping.gathered)
  have hlt := setClient_opened hstate hopen
  have hover : Over p (⟨.await (.stop topic client) k, s⟩ : State V).shared := hstopping.toOver
  have hrank := (rank_over hover).trans (callsLeft_gathered hstopping.gathered)
  omega

/-! ## Runs -/

/-- A signal, which has no effect any more. -/
def isSignal : Event V ⊕ Option Exc → Bool
  | .inl .signal => true
  | _ => false

/-- The tasks take no steps but to end by their cancellation. -/
def LetsThrough : Event V ⊕ Option Exc → Prop
  | .inl (.task _ a) => a.Cancelled
  | _ => True

theorem exec_move {a : Event V} (hs : p.surroundings.exec x (.inl a) = some x') :
    ∃ s', p.move x.shared a = some s' ∧ x' = { x with shared := s' } := by
  obtain ⟨s', hs', rfl⟩ := Option.map_eq_some_iff.mp hs
  exact ⟨s', hs', rfl⟩

theorem step_rank {a : Event V ⊕ Option Exc} (h : Reach p.system x) (hawake : Awake x.shared)
    (ha : LetsThrough a) (hs : p.surroundings.exec x a = some x') :
    rank x' + (if isSignal a then 0 else 1) ≤ rank x ∧ Awake x'.shared := by
  rcases a with (_ | _ | ⟨topic, a⟩) | o
  · obtain ⟨s', hs', rfl⟩ := exec_move hs
    obtain rfl := Option.some.inj hs'
    exact ⟨Nat.le_refl _, hawake⟩
  · obtain ⟨s', hs', rfl⟩ := exec_move hs
    obtain ⟨hlt, halive, hopened, hgathered⟩ := stopTask_rank hs'
    refine ⟨?_, (congrArg Option.isSome (later hs').done).trans hawake⟩
    simp only [rank, callsLeft, halive, hopened, hgathered, isSignal, Bool.false_eq_true,
      if_false]
    omega
  · obtain ⟨s', hs', rfl⟩ := exec_move hs
    obtain ⟨hlt, hstop, hopened, hgathered⟩ := taskStep_rank ha hs'
    refine ⟨?_, (congrArg Option.isSome (later hs').done).trans hawake⟩
    simp only [rank, callsLeft, hstop, hopened, hgathered, isSignal, Bool.false_eq_true,
      if_false]
    omega
  · have hholds := holds h
    obtain ⟨program, s⟩ := x
    cases program with
    | pure code | raise exc | emit m k => simp [Setting.exec] at hs
    | await c k =>
      cases At.shutting hholds hawake with
      | gather hcancelling => exact gather_rank h hcancelling hs
      | stop hstopping hopen => exact stop_rank h hstopping hopen hs

theorem run_rank {moves : List (Event V ⊕ Option Exc)} (h : Reach p.system x)
    (hawake : Awake x.shared) (hmoves : ∀ a ∈ moves, LetsThrough a)
    (hrun : Transition.replay p.surroundings.exec (fun _ _ => true) x moves = some x') :
    moves.countP (fun a => !isSignal a) + rank x' ≤ rank x ∧ Reach p.system x' ∧
      Awake x'.shared := by
  induction moves generalizing x with
  | nil =>
    obtain rfl := Option.some.inj hrun
    exact ⟨by simp, h, hawake⟩
  | cons a moves ih =>
    rw [List.forall_mem_cons] at hmoves
    simp only [Transition.replay, if_true] at hrun
    obtain ⟨x₁, hx₁, hrest⟩ := Option.bind_eq_some_iff.mp hrun
    obtain ⟨hrank, hawake₁⟩ := step_rank h hawake hmoves.1 hx₁
    obtain ⟨hle, hreach⟩ := ih (h.step hx₁) hawake₁ hmoves.2 hrest
    refine ⟨?_, hreach⟩
    rw [List.countP_cons]
    cases hsignal : isSignal a <;> simp [hsignal] at hrank ⊢ <;> omega

/-! ## Progress -/

def Ended (x : State V) : Prop :=
  (∃ code, x.program = .pure code) ∨ ∃ exc, x.program = .raise exc

/-- A step of the shutdown that is due: `main()` gets its answer, a task that it has cancelled ends,
or its stop task does. -/
inductive Due (p : Process) (x : State V) : Prop
  | answer (o : Option Exc) (h : (p.surroundings.exec x (.inr o)).isSome = true)
  | stopTask (h : x.shared.endStop.isSome = true)
  | task (topic : Topic) (a : RunAction V) (ha : a.Cancelled)
      (hrequested : x.shared.cancelRequested topic = true)
      (h : (p.taskStep x.shared topic a).isSome = true)

/-- `gather` waits for nothing that does not come. -/
theorem Cancelling.due {k : Except Exc Unit → ProcessProgram Nat}
    {ends : Topic → Option TaskEnd} (h : Cancelling p ends [] s) :
    Due p (⟨.await .gather k, s⟩ : State V) := by
  by_cases hended : AllEnded s
  · rcases h.stop with hstop | hstop
    · exact .stopTask (by simp [ProcessState.endStop, hstop])
    · have hdone : s.allDone = true := by
        simp [ProcessState.allDone, hstop, List.all_eq_true, hended _]
      have hanswer : s.answer .gather none = some ({ s with gathered := true }, .ok ()) :=
        if_pos hdone
      exact .answer none (Option.isSome_map.trans (congrArg Option.isSome hanswer))
  · obtain ⟨topic, halive⟩ := not_forall.mp hended
    obtain ⟨run, hrun, -⟩ := h.runs topic
    simp only [ProcessState.taskEnd, hrun, Option.bind_some, Option.not_isSome_iff_eq_none]
      at halive
    obtain ⟨a, ha, hstep⟩ := cancels p hrun halive
    exact .task topic a ha (h.requested topic List.not_mem_nil) hstep

theorem ended_or_due (h : Reach p.system x) (hawake : Awake x.shared) : Ended x ∨ Due p x := by
  have hholds := holds h
  obtain ⟨program, s⟩ := x
  cases program with
  | pure code => exact .inl (.inl ⟨code, rfl⟩)
  | raise exc => exact .inl (.inr ⟨exc, rfl⟩)
  | emit m k => exact hholds.elim
  | await c k =>
    cases At.shutting hholds hawake with
    | gather hcancelling => exact .inr hcancelling.due
    | stop hstopping hopen => exact .inr (.answer none rfl)

/-- Once `main()` has woken, and if the calls that are awaited let the cancellation through, every
order of steps brings it to its end: at most 14 steps are left, further signals aside, and until it
has ended there is one that is due. -/
theorem shutdown_ends (p : Process) {x x' : State V} (h : Reach p.system x)
    (hawake : Awake x.shared) {moves : List (Event V ⊕ Option Exc)}
    (hmoves : ∀ a ∈ moves, LetsThrough a)
    (hrun : Transition.replay p.surroundings.exec (fun _ _ => true) x moves = some x') :
    moves.countP (fun a => !isSignal a) ≤ 14 ∧ (Ended x' ∨ Due p x') := by
  obtain ⟨hrank, hreach, hawake'⟩ := run_rank h hawake hmoves hrun
  have hle := rank_le x
  exact ⟨by omega, ended_or_due hreach hawake'⟩

/-- Kafka is gone for the payments, and `main()` wakes. -/
def crashed : List (Event Unit ⊕ Option Exc) :=
  List.replicate 9 (.inr none) ++
    [.inl (.task .payments (.interrupt ⟨.exception "KafkaConnectionError", ""⟩)), .inr none]

def shutdown : List (Event Unit ⊕ Option Exc) :=
  [.inl (.task .orders (.interrupt cancellation)), .inl .signal,
    .inl (.task .shipments (.interrupt cancellation)), .inl .stopTaskEnds] ++
    List.replicate 10 (.inr none)

theorem shutdown_letsThrough : ∀ a ∈ shutdown, LetsThrough a := by
  intro a ha
  rcases List.mem_append.mp ha with hlist | hreply
  · simp only [List.mem_cons, List.not_mem_nil, or_false] at hlist
    rcases hlist with rfl | rfl | rfl | rfl
    · exact (by decide : cancellation.isCancelled = true)
    · trivial
    · exact (by decide : cancellation.isCancelled = true)
    · trivial
  · rw [List.eq_of_mem_replicate hreply]
    trivial

/-- A consumer crashes, and the process ends with 1 after 13 steps. -/
theorem shutdown_ends_crash :
    ∃ x x' : State Unit, Reach bareProcess.system x ∧ x'.program = .pure 1 ∧
      shutdown.countP (fun a => !isSignal a) = 13 ∧
      shutdown.countP (fun a => !isSignal a) ≤ 14 ∧ (Ended x' ∨ Due bareProcess x') := by
  let begin : State Unit :=
    bareProcess.surroundings.settle (ProcessProgram.main bareProcess.config) .startState
  let play := Transition.replay bareProcess.surroundings.exec fun (_ : State Unit) _ => true
  have hrun : ((play begin crashed).bind fun x => (play x shutdown).map fun x' => (x, x')).any
      (fun y => y.1.shared.done.isSome && result y.2 = some 1) = true := by
    decide +kernel
  obtain ⟨⟨x, x'⟩, hplay, hfin⟩ := (Option.any_eq_true _ _).mp hrun
  obtain ⟨hawake, hcode⟩ := (Bool.and_eq_true _ _).mp hfin
  obtain ⟨x₁, hcrashed, hrest⟩ := Option.bind_eq_some_iff.mp hplay
  obtain ⟨x₂, hshutdown, hpair⟩ := Option.map_eq_some_iff.mp hrest
  obtain ⟨rfl, rfl⟩ := Prod.mk.inj hpair
  have hstart : Reach (bareProcess.system.guard fun _ _ => True) begin := .init ⟨_, rfl, rfl⟩
  have hr := (Transition.reach_replay (fun _ => True) (fun _ _ _ _ _ _ => ⟨trivial, trivial⟩)
    hstart trivial hcrashed).1.of_guard
  exact ⟨x₁, x₂, hr, program_of_result (of_decide_eq_true hcode), by decide,
    shutdown_ends bareProcess hr hawake shutdown_letsThrough hshutdown⟩

end Process

end MessageDedup
