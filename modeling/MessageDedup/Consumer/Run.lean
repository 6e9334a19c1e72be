import MessageDedup.Consumer.Machine
import MessageDedup.Lib.Transition

/-!
# run()

The loop of one consumer over the records that Kafka yields, and the offsets that its commits move.
Any awaited call may raise, and the consumer may be stopped or cancelled at any point.
-/

namespace MessageDedup

open Transition (Reach System replay)

variable {V : Type}

structure TopicPartition where
  topic : String
  partition : Nat
  deriving DecidableEq, Repr

def ConsumerRecord.tp (record : ConsumerRecord) : TopicPartition :=
  ⟨record.topic, record.partition⟩

/-- A record that iteration has yielded, and whether a commit of its `_process_record` was carried
out. -/
structure Yielded where
  record : ConsumerRecord
  committed : Bool
  deriving DecidableEq, Repr

/-- Where `run()` is. `raised` is an exception out of `_process_record`, `interrupted` one out of
the iteration itself, and `broken` the `break` after `stop()`. -/
inductive RunPhase (V : Type) where
  | waiting
  | processing (record : ConsumerRecord) (pc : Pc V)
  | raised (exc : Exc) (atCommit : Bool)
  | interrupted (exc : Exc)
  | broken

/-- `running` is `self._running`. `yielded` has the newest record first. -/
structure RunState (V : Type) where
  running : Bool
  position : TopicPartition → Nat
  committed : TopicPartition → Nat
  phase : RunPhase V
  yielded : List Yielded

/-- `reply` answers the awaited call. A commit that raises may have been carried out. -/
inductive RunAction (V : Type) where
  | stop
  | yield (record : ConsumerRecord)
  | interrupt (exc : Exc)
  | act (reply : (call : Call V) → Except Exc call.Reply) (applied : Bool)

/-- A started consumer, and the partitions that are assigned to it. -/
structure Runner where
  py : Python
  consumer : DedupConsumer
  assigned : TopicPartition → Bool

namespace RunState

/-- `commit()` without arguments, by the `_process_record` of the newest record. -/
def commitPositions (s : RunState V) (assigned : TopicPartition → Bool) : RunState V :=
  { s with
    committed := fun tp => if assigned tp then s.position tp else s.committed tp
    yielded := s.yielded.modifyHead fun y => { y with committed := true } }

def take (s : RunState V) (record : ConsumerRecord) : RunState V :=
  { s with
    position := Function.update s.position record.tp (record.offset + 1)
    yielded := ⟨record, false⟩ :: s.yielded }

def goTo (s : RunState V) (phase : RunPhase V) : RunState V := { s with phase := phase }

def interrupt (s : RunState V) (exc : Exc) : Option (RunState V) :=
  match s.phase with
  | .waiting => some (s.goTo (.interrupted exc))
  | _ => none

end RunState

def Next.phase (record : ConsumerRecord) (atCommit : Bool) : Next V → RunPhase V
  | .pc p => .processing record p
  | .done => .waiting
  | .raised exc => .raised exc atCommit

namespace Runner

variable (r : Runner)

/-- Iteration yields the next record of an assigned partition. -/
def yield (s : RunState V) (record : ConsumerRecord) : Option (RunState V) :=
  match s.phase with
  | .waiting =>
    if r.assigned record.tp = true ∧ s.position record.tp ≤ record.offset then
      some ((s.take record).goTo
        (if s.running then (r.consumer.start r.py record).2.phase record false else .broken))
    else none
  | _ => none

def act (s : RunState V) (reply : (call : Call V) → Except Exc call.Reply) (applied : Bool) :
    Option (RunState V) :=
  match s.phase with
  | .processing record pc =>
    let call := r.consumer.callOf r.py record pc
    let carriedOut := call.isCommit && (applied || (reply call).toBool)
    some ((if carriedOut then s.commitPositions r.assigned else s).goTo
      ((r.consumer.resume r.py record pc (reply call)).2.phase record call.isCommit))
  | _ => none

def exec (s : RunState V) : RunAction V → Option (RunState V)
  | .stop => some { s with running := false }
  | .yield record => r.yield s record
  | .interrupt exc => s.interrupt exc
  | .act reply applied => r.act s reply applied

def startState (position : TopicPartition → Nat) : RunState V where
  running := true
  position := position
  committed := position
  phase := .waiting
  yielded := []

def system : System (RunState V) (RunAction V) :=
  Transition.ofExec (fun s => ∃ position, s = startState position) r.exec

end Runner

/-! ## Committed offsets -/

namespace RunState

/-- A record of `tp` at `offset` has not reached its commit: it is still to come, or its
`_process_record` is on the way or was given up. -/
def Unfinished (s : RunState V) (tp : TopicPartition) (offset : Nat) : Prop :=
  s.position tp ≤ offset ∨
    ∃ y ∈ s.yielded, y.record.tp = tp ∧ y.record.offset = offset ∧ y.committed = false

def OffsetsSafe (s : RunState V) : Prop :=
  ∀ tp offset, s.Unfinished tp offset → s.committed tp ≤ offset

/-- An exception out of `_process_record`, but for one out of its commit, ends `run()`: its record
stays uncommitted, and no other is processed. -/
def EndsUncommitted (r : Runner) (s : RunState V) : Prop :=
  ∀ exc, s.phase = .raised exc false →
    (∃ record rest, s.yielded = ⟨record, false⟩ :: rest) ∧
      ∀ a s', r.exec s a = some s' →
        s'.phase = s.phase ∧ s'.committed = s.committed ∧ s'.yielded = s.yielded

end RunState

/-- What each point of the loop says of the newest record. -/
def RunPhase.Fits (yielded : List Yielded) : RunPhase V → Prop
  | .waiting => ∀ y ∈ yielded, y.committed = true
  | .processing record _ => yielded.head? = some ⟨record, false⟩
  | .raised _ false => ∃ record, yielded.head? = some ⟨record, false⟩
  | _ => True

namespace RunState

/-- Only the newest record may be uncommitted, and no offset has passed it. -/
structure InOrder (s : RunState V) : Prop where
  behind : ∀ tp, s.committed tp ≤ s.position tp
  older : ∀ y ∈ s.yielded.tail, y.committed = true
  newest : ∀ y ∈ s.yielded.head?, y.committed = false →
    s.committed y.record.tp ≤ y.record.offset
  fits : s.phase.Fits s.yielded

namespace InOrder

variable {r : Runner} {s s' : RunState V} {a : RunAction V}

theorem start (position : TopicPartition → Nat) :
    (Runner.startState position : RunState V).InOrder where
  behind := fun _ => Nat.le_refl _
  older := nofun
  newest := nofun
  fits := nofun

theorem goOn (h : s.InOrder) {phase : RunPhase V} (hfits : phase.Fits s.yielded) :
    (s.goTo phase).InOrder :=
  { h with fits := hfits }

theorem take (h : s.InOrder) (hphase : s.phase = .waiting) {record : ConsumerRecord}
    (hnext : s.position record.tp ≤ record.offset) {phase : RunPhase V}
    (hfits : phase.Fits (⟨record, false⟩ :: s.yielded)) :
    ((s.take record).goTo phase).InOrder where
  behind := by
    intro tp
    have hle := h.behind tp
    simp only [goTo, RunState.take]
    rcases eq_or_ne tp record.tp with rfl | hne
    · rw [Function.update_self]
      omega
    · rwa [Function.update_of_ne hne]
  older := by
    have hall := h.fits
    rw [hphase] at hall
    exact hall
  newest := by
    rintro _ ⟨⟩ -
    exact Nat.le_trans (h.behind record.tp) hnext
  fits := hfits

theorem yield (h : s.InOrder) {record : ConsumerRecord} (hs : r.yield s record = some s') :
    s'.InOrder := by
  unfold Runner.yield at hs
  split at hs
  · rename_i hphase
    split at hs
    · rename_i hnext
      obtain rfl := Option.some.inj hs
      apply h.take hphase hnext.2
      split
      · rcases DedupConsumer.start_cases r.py r.consumer record with ⟨p, hp, -⟩ | ⟨exc, hexc⟩
        · rw [hp]
          rfl
        · rw [hexc]
          exact ⟨record, rfl⟩
      · trivial
    · simp at hs
  · simp at hs

theorem commit (h : s.InOrder) (assigned : TopicPartition → Bool) {phase : RunPhase V}
    (hfits : phase.Fits (s.commitPositions assigned).yielded) :
    ((s.commitPositions assigned).goTo phase).InOrder where
  behind := by
    intro tp
    simp only [goTo, commitPositions]
    split
    · exact Nat.le_refl _
    · exact h.behind tp
  older := by
    simp only [goTo, commitPositions, List.tail_modifyHead]
    exact h.older
  newest := by
    intro y hy hfalse
    simp only [goTo, commitPositions, List.head?_modifyHead, Option.mem_def,
      Option.map_eq_some_iff] at hy
    obtain ⟨first, -, rfl⟩ := hy
    simp at hfalse
  fits := hfits

theorem committed_all (h : s.InOrder) (assigned : TopicPartition → Bool) :
    ∀ y ∈ (s.commitPositions assigned).yielded, y.committed = true := by
  have holder := h.older
  unfold commitPositions
  cases hy : s.yielded with
  | nil => exact nofun
  | cons y rest =>
    rw [hy] at holder
    rw [List.modifyHead_cons, List.forall_mem_cons]
    exact ⟨rfl, holder⟩

theorem act (h : s.InOrder) {reply : (call : Call V) → Except Exc call.Reply} {applied : Bool}
    (hs : r.act s reply applied = some s') : s'.InOrder := by
  unfold Runner.act at hs
  split at hs
  · rename_i record pc hphase
    obtain rfl := Option.some.inj hs
    have hhead := h.fits
    rw [hphase] at hhead
    cases hcommit : (r.consumer.callOf r.py record pc).isCommit with
    | false =>
      have hwithin := DedupConsumer.resume_within pc hcommit (reply _)
      rw [Bool.false_and, if_neg Bool.false_ne_true]
      apply h.goOn
      cases hn : (r.consumer.resume r.py record pc (reply _)).2 with
      | pc p => exact hhead
      | done =>
        rw [hn] at hwithin
        exact hwithin.elim
      | raised exc => exact ⟨record, hhead⟩
    | true =>
      rcases DedupConsumer.resume_commit pc hcommit (reply _) with ⟨hn, x, hx⟩ | ⟨exc, hn⟩
      · rw [hn, hx, if_pos (by rw [Bool.true_and]; exact Bool.or_true _)]
        exact h.commit r.assigned (h.committed_all r.assigned)
      · rw [hn]
        split
        · exact h.commit r.assigned trivial
        · exact h.goOn trivial
  · simp at hs

theorem exec (h : s.InOrder) (hs : r.exec s a = some s') : s'.InOrder := by
  cases a with
  | stop =>
    obtain rfl := Option.some.inj hs
    exact ⟨h.behind, h.older, h.newest, h.fits⟩
  | yield record => exact h.yield hs
  | interrupt exc =>
    simp only [Runner.exec, interrupt] at hs
    split at hs
    · obtain rfl := Option.some.inj hs
      exact h.goOn trivial
    · simp at hs
  | act reply applied => exact h.act hs

theorem offsetsSafe (h : s.InOrder) : s.OffsetsSafe := by
  rintro tp offset (hahead | ⟨y, hy, rfl, rfl, hfalse⟩)
  · exact Nat.le_trans (h.behind tp) hahead
  · cases hyielded : s.yielded with
    | nil =>
      rw [hyielded] at hy
      simp at hy
    | cons first rest =>
      rw [hyielded] at hy
      rcases List.mem_cons.mp hy with rfl | hrest
      · exact h.newest y (by rw [hyielded]; rfl) hfalse
      · have hdone := h.older y (by rw [hyielded]; exact hrest)
        rw [hfalse] at hdone
        simp at hdone

theorem endsUncommitted (h : s.InOrder) : s.EndsUncommitted r := by
  intro exc hphase
  have hfits := h.fits
  rw [hphase] at hfits
  obtain ⟨record, hhead⟩ := hfits
  obtain ⟨rest, hrest⟩ := List.head?_eq_some_iff.mp hhead
  refine ⟨⟨record, rest, hrest⟩, ?_⟩
  intro a s' hs
  cases a with
  | stop =>
    obtain rfl := Option.some.inj hs
    exact ⟨rfl, rfl, rfl⟩
  | yield record' =>
    simp only [Runner.exec, Runner.yield, hphase] at hs
    simp at hs
  | interrupt exc' =>
    simp only [Runner.exec, interrupt, hphase] at hs
    simp at hs
  | act reply applied =>
    simp only [Runner.exec, Runner.act, hphase] at hs
    simp at hs

end InOrder

end RunState

/-- Committed offsets never pass unfinished work. -/
theorem offsets_never_pass (r : Runner) {s : RunState V} (h : Reach r.system s) :
    s.OffsetsSafe ∧ s.EndsUncommitted r := by
  have hinv : s.InOrder := by
    apply h.invariant RunState.InOrder
    · rintro _ ⟨position, rfl⟩
      exact .start position
    · exact fun _ _ _ _ hs hstep => hs.exec hstep
  exact ⟨hinv.offsetsSafe, hinv.endsUncommitted⟩

def wellReplies : (call : Call Unit) → Except Exc call.Reply
  | .claim _ => .ok true
  | .getStatus _ => .ok none
  | .markFailed _ _ _ | .markCompleted _ _ | .sleep _ | .sendAndWait _ _ _ | .commit => .ok ()
  | .handle _ => .ok none

/-- The records of two partitions: the first is committed, and the claim of the second raises. -/
def interruptedRun : List (RunAction Unit) :=
  let record (partition : Nat) : ConsumerRecord :=
    ⟨"orders", partition, 7, none, none, [("X-Message-Id", some (encode "order-1"))]⟩
  [.yield (record 0), .act wellReplies true, .act wellReplies true, .act wellReplies true,
    .act wellReplies true, .yield (record 1), .act (fun _ => .error handlerError) false]

theorem offsets_never_pass_interrupted :
    let r : Runner := ⟨bareRuntime, ⟨{}, none⟩, fun _ => true⟩
    ∃ s : RunState Unit, Reach r.system s ∧ s.committed ⟨"orders", 0⟩ = 8 ∧
      s.committed ⟨"orders", 1⟩ = 3 ∧ s.OffsetsSafe ∧ s.EndsUncommitted r := by
  intro r
  let start : RunState Unit := Runner.startState fun _ => 3
  have hrun : (replay r.exec (fun _ _ => true) start interruptedRun).any
      (fun s => decide (s.committed ⟨"orders", 0⟩ = 8 ∧ s.committed ⟨"orders", 1⟩ = 3)) =
        true := by
    decide +kernel
  obtain ⟨s, hs, hfin⟩ := (Option.any_eq_true _ _).mp hrun
  have hstart : Reach (r.system.guard fun _ _ => True) start := .init ⟨_, rfl⟩
  have hr := (Transition.reach_replay (fun _ => True) (fun _ _ _ _ _ _ => ⟨trivial, trivial⟩)
    hstart trivial hs).1.of_guard
  obtain ⟨h0, h1⟩ := of_decide_eq_true hfin
  exact ⟨s, hr, h0, h1, offsets_never_pass r hr⟩

end MessageDedup
