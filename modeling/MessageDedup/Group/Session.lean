import MessageDedup.Group.Refinement

/-!
# A session with the store

What a program does that is the only client of its store. Time passes before each call, and how the
business logic ends is given from outside.
-/

namespace MessageDedup

open Coroutine (Proc)

variable {V R : Type}

/-! ## Calls -/

/-- The time before each call, and how each call of `handle()` ends, by the number of the call. -/
structure Surroundings (V : Type) where
  pause : Nat → Nat
  handle : Nat → Except Exc (Option V)

/-- A call that has ended: the store and the time before it, the time at which it was carried out,
and the exception that it raised. -/
structure Moment (backend : Backend V R) where
  before : backend.State
  since : Int
  now : Int
  call : Call V
  raised : Option Exc

/-- `log` has the newest call first. -/
structure Session (backend : Backend V R) where
  now : Int
  store : backend.State
  calls : Nat
  log : List (Moment backend)

def raisedOf {A : Type} : Except Exc A → Option Exc
  | .ok _ => none
  | .error exc => some exc

def Surroundings.outcome (env : Surroundings V) (n : Nat) : Call V → Outcome V
  | .handle _ =>
    match env.handle n with
    | .ok result => .done result
    | .error exc => .raised exc true
  | _ => .done none

/-- `handle()` raises nothing but `Exception`s. -/
def Surroundings.RaisesExceptions (env : Surroundings V) : Prop :=
  ∀ n exc, env.handle n = .error exc → exc.isException = true

def Session.answer {backend : Backend V R} (env : Surroundings V) (s : Session backend)
    (call : Call V) : Session backend × Except Exc call.Reply :=
  let now := s.now + env.pause s.calls
  let answer := backend.answer s.store now call (env.outcome s.calls call)
  ({ now := now
     store := answer.1
     calls := s.calls + 1
     log := ⟨s.store, s.now, now, call, raisedOf answer.2⟩ :: s.log }, answer.2)

/-! ## What is assumed of a call -/

/-- No record expires before the call, and only `handle()` raises. -/
structure Moment.Smooth {backend : Backend V R} (x : Moment backend) : Prop where
  durable : ∀ m, backend.store.cell x.before x.now m = backend.store.cell x.before x.since m
  answered : x.raised ≠ none → x.call.isHandle = true

def Session.Smooth {backend : Backend V R} (s : Session backend) : Prop :=
  ∀ x ∈ s.log, x.Smooth

theorem Moment.smooth_of_check {config : DeduplicationConfig}
    {x : Moment (.inMemory config : Backend V R)}
    (h : (x.raised.isNone || x.call.isHandle) = true) : x.Smooth where
  durable := fun _ => rfl
  answered := by
    intro hraised
    rw [Bool.or_eq_true, Option.isNone_iff_eq_none] at h
    exact h.resolve_left hraised

namespace Moment

variable {backend : Backend V R}

def isCommit (x : Moment backend) : Bool := x.call.isCommit
def isHandle (x : Moment backend) : Bool := x.call.isHandle
def isSuccess (x : Moment backend) : Bool := x.call.isHandle && x.raised.isNone

end Moment

/-! ## The rule for a call -/

namespace Session

variable {backend : Backend V R}

def cell (s : Session backend) (m : String) : Option Cell := backend.store.cell s.store s.now m

def commits (s : Session backend) : Nat := s.log.countP Moment.isCommit
def handles (s : Session backend) : Nat := s.log.countP Moment.isHandle
def successes (s : Session backend) : Nat := s.log.countP Moment.isSuccess

theorem Smooth.back {env : Surroundings V} {s : Session backend} {call : Call V}
    (h : (s.answer env call).1.Smooth) : s.Smooth :=
  fun x hx => h x (List.mem_cons_of_mem _ hx)

end Session

/-- The replies of a call that goes well. -/
def Call.Fits (env : Surroundings V) (config : DeduplicationConfig) (now : Int)
    (record : String → Option Cell) : (call : Call V) → Except Exc call.Reply → Prop
  | .claim m, reply => reply = .ok (decide (Cell.Claimable config now (record m)))
  | .getStatus m, reply => ∃ existing, reply = .ok existing ∧ existing.map (·.cell) = record m
  | .handle _, reply => ∃ n, reply = env.handle n
  | _, reply => ∃ x, reply = .ok x

/-- A call that goes well: its reply, the records after it, and the log. -/
structure Answers {backend : Backend V R} (env : Surroundings V) (s : Session backend)
    (call : Call V) (reply : Except Exc call.Reply) (s' : Session backend) : Prop where
  fits : call.Fits env backend.config s'.now s.cell reply
  self : ∀ m, call.key = some m → s'.cell m = call.effect backend s'.now (s.cell m)
  other : ∀ m, call.key ≠ some m → s'.cell m = s.cell m
  commits : s'.commits = s.commits + if call.isCommit then 1 else 0
  handles : s'.handles = s.handles + if call.isHandle then 1 else 0
  successes : s'.successes =
    s.successes + if call.isHandle && (raisedOf reply).isNone then 1 else 0

theorem Surroundings.handle_answer {backend : Backend V R} (env : Surroundings V)
    (store : backend.State) (now : Int) (n : Nat) (payload : Payload) :
    (backend.answer store now (.handle payload) (env.outcome n (.handle payload))).2 =
      env.handle n := by
  unfold outcome
  cases env.handle n <;> rfl

theorem Session.answers {backend : Backend V R} (env : Surroundings V) {s : Session backend}
    {call : Call V} (h : (s.answer env call).1.Smooth) :
    Answers env s call (s.answer env call).2 (s.answer env call).1 := by
  obtain ⟨hdurable, hanswered⟩ := h _ List.mem_cons_self
  have hcell : ∀ m, backend.store.cell s.store (s.answer env call).1.now m = s.cell m := hdurable
  have hkeyed : ∀ {m}, call.key = some m → Answered backend (s.answer env call).1.now (s.cell m)
      call (s.answer env call).2 (env.outcome s.calls call).applied
      ((s.answer env call).1.cell m) := by
    intro m hkey
    rw [← hcell m]
    exact backend.answered _ _ _ (.inl hkey)
  -- By smoothness only `handle()` raises.
  have hraised : ∀ exc, (s.answer env call).2 = .error exc → call.isHandle = true := by
    intro exc hreply
    apply hanswered
    rw [show raisedOf (backend.answer _ _ _ _).2 = some exc from congrArg raisedOf hreply]
    exact nofun
  refine ⟨?_, ?_, ?_, ?_, ?_, ?_⟩
  · cases hreply : (s.answer env call).2 with
    | error exc =>
      have hhandle := hraised exc hreply
      cases call with
      | handle payload => exact ⟨_, hreply.symm.trans (env.handle_answer _ _ _ _)⟩
      | _ => cases hhandle
    | ok reply =>
      cases call with
      | claim m =>
        have htells := (hkeyed rfl).tells
        rw [hreply] at htells
        exact congrArg Except.ok (Bool.eq_iff_iff.mpr (htells.trans decide_eq_true_iff.symm))
      | handle payload => exact ⟨_, hreply.symm.trans (env.handle_answer _ _ _ _)⟩
      | getStatus m =>
        refine ⟨reply, rfl, ?_⟩
        rw [← hcell m, Backend.answer_status hreply]
        rfl
      | _ => exact ⟨reply, rfl⟩
  · intro m hkey
    cases hreply : (s.answer env call).2 with
    | error exc =>
      have hhandle := hraised exc hreply
      cases call <;> cases hhandle
      cases hkey
    | ok reply => exact ((hkeyed hkey).ok reply hreply).2
  · intro m hkey
    exact (Backend.answer_other _ hkey _).trans (hcell m)
  · exact List.countP_cons
  · exact List.countP_cons
  · exact List.countP_cons

/-! ## What a program does in a session -/

/-- `Q` holds after each smooth run of `p` from `s`. -/
abbrev Does {backend : Backend V R} {A : Type} (env : Surroundings V) (p : Program V A)
    (Q : Session backend → List Metric → Except Exc A → Prop) (s : Session backend) : Prop :=
  p.Ensures (fun _ _ => True) (Answers env) Q s

section

variable {backend : Backend V R} {A : Type} {env : Surroundings V} {p : Program V A}
  {s : Session backend} {Q : Session backend → List Metric → Except Exc A → Prop}

theorem Does.await {call : Call V} {k : Except Exc call.Reply → Program V A}
    (h : ∀ r s', Answers env s call r s' → Does env (k r) Q s') :
    Does env (.await call k) Q s :=
  ⟨trivial, h⟩

theorem Does.run (h : Does env p Q s) (hsmooth : (p.run (Session.answer env) s).1.Smooth) :
    Q (p.run (Session.answer env) s).1 (p.run (Session.answer env) s).2.1
      (p.run (Session.answer env) s).2.2 := by
  have hback : ∀ (s : Session backend) (call : Call V), (s.answer env call).1.Smooth → s.Smooth :=
    fun _ _ => Session.Smooth.back
  have hans : ∀ (s : Session backend) (call : Call V), True → (s.answer env call).1.Smooth →
      Answers env s call (s.answer env call).2 (s.answer env call).1 :=
    fun _ _ _ => Session.answers env
  exact Proc.Ensures.run hback hans h hsmooth

theorem Session.Smooth.of_run (h : (p.run (Session.answer env) s).1.Smooth) : s.Smooth := by
  have hback : ∀ (s : Session backend) (call : Call V), (s.answer env call).1.Smooth → s.Smooth :=
    fun _ _ => Session.Smooth.back
  exact Proc.run_back hback p h

end

/-! ## Stretches of a session -/

/-- From `s` to `s'` only the record of `id` changes, and so many calls of `commit()` and
`handle()` are made, so many of them well. -/
structure Between {backend : Backend V R} (id : Option MessageId) (s s' : Session backend)
    (commits handles successes : Nat) : Prop where
  other : ∀ m, id.map (·.val) ≠ some m → s'.cell m = s.cell m
  commits : s'.commits = s.commits + commits
  handles : s'.handles = s.handles + handles
  successes : s'.successes = s.successes + successes

namespace Between

variable {backend : Backend V R} {id : Option MessageId} {s s' s'' : Session backend}
  {c h k c' h' k' : Nat}

theorem trans (hst : Between id s s' c h k) (htu : Between id s' s'' c' h' k') :
    Between id s s'' (c + c') (h + h') (k + k') where
  other := fun m hm => (htu.other m hm).trans (hst.other m hm)
  commits := by rw [htu.commits, hst.commits, Nat.add_assoc]
  handles := by rw [htu.handles, hst.handles, Nat.add_assoc]
  successes := by rw [htu.successes, hst.successes, Nat.add_assoc]

theorem of_none (hst : Between none s s' c h k) : Between id s s' c h k :=
  { hst with other := fun m _ => hst.other m nofun }

end Between

/-- `P` holds of the record of `id`, if there is one. -/
def On {backend : Backend V R} (id : Option MessageId) (s : Session backend) (P : Cell → Prop) :
    Prop :=
  ∀ m ∈ id, ∃ cell, s.cell m.val = some cell ∧ P cell

theorem On.of_none {backend : Backend V R} {id : Option MessageId} {s s' : Session backend}
    {P : Cell → Prop} {c h k : Nat} (hon : On id s P) (hst : Between none s s' c h k) :
    On id s' P := by
  intro m hm
  rw [hst.other m nofun]
  exact hon m hm

namespace Cell

/-- PROCESSING, in so many attempts. -/
def WorkedOn (attempts : Int) (cell : Cell) : Prop :=
  cell.status = .processing ∧ cell.attempts = attempts

def FailedAt (attempts : Int) (cell : Cell) : Prop :=
  cell.status = .failed ∧ cell.attempts = attempts

/-- FAILED, and not claimable. -/
def Lost (config : DeduplicationConfig) (cell : Cell) : Prop :=
  cell.status = .failed ∧ ¬ cell.Retryable config

end Cell

namespace Answers

variable {backend : Backend V R} {env : Surroundings V} {s s' : Session backend} {call : Call V}
  {reply : Except Exc call.Reply}

theorem between (h : Answers env s call reply s') {id : Option MessageId}
    (hkey : ∀ m, call.key = some m → id.map (·.val) = some m) :
    Between id s s' (if call.isCommit then 1 else 0) (if call.isHandle then 1 else 0)
      (if call.isHandle && (raisedOf reply).isNone then 1 else 0) where
  other := fun m hm => h.other m fun e => hm (hkey m e)
  commits := h.commits
  handles := h.handles
  successes := h.successes

theorem keeps (h : Answers env s call reply s')
    (hself : ∀ m, call.key = some m → s'.cell m = s.cell m) :
    Between none s s' (if call.isCommit then 1 else 0) (if call.isHandle then 1 else 0)
      (if call.isHandle && (raisedOf reply).isNone then 1 else 0) where
  other := fun m _ => by
    by_cases hkey : call.key = some m
    · exact hself m hkey
    · exact h.other m hkey
  commits := h.commits
  handles := h.handles
  successes := h.successes

end Answers

end MessageDedup
