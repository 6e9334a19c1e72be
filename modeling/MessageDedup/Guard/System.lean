import MessageDedup.Group.Refinement
import MessageDedup.Store.Agreement
import MessageDedup.Guard.Machine

/-!
# Many uses of one key

Any number of guarded blocks and decorated calls on one key of one store, and whatever else is done
to that store. One action is one atomic step: time passes, a use starts, its business logic starts,
an awaited call ends, or someone else calls the store.
-/

namespace MessageDedup

open Transition (System)

variable {V R : Type}

/-- What does not change in a run. -/
structure GuardedKey (V R : Type) where
  py : Python
  backend : Backend V R
  key : String

/-! ## States -/

/-- What the history keeps of a use: the answer to its `get_status`, a first claim that it lost,
with the record that it lost it to, the events of its life, and its outcome. -/
inductive Note (V : Type) where
  | looked (existing : Option (ProcessingStatus V))
  | refused (found : Option Cell)
  | did (event : Event)
  | ended (outcome : Except Exc (Option V))

/-- A use that has not ended. `entered` says that its business logic has started, and `leaseUntil`
is the lease of its last claim. -/
structure Caller (V : Type) where
  use : Use V
  entered : Bool
  leaseUntil : Int

/-- `log` has the newest note first. Uses are numbered as they start. -/
structure Callers (backend : Backend V R) where
  now : Int
  store : backend.State
  caller : Nat → Option (Caller V)
  calls : Nat
  log : List (Nat × Note V)

inductive Activity (V : Type) where
  | tick (d : Nat)
  | block (payload : Payload)
  | call (self : Idempotent) (arguments : Arguments)
  | enter (n : Nat)
  | act (n : Nat) (outcome : Outcome V)
  | others (op : StoreOp V)

/-! ## Steps -/

def Use.atWork : Use V → Bool
  | .block _ .body => true
  | .decorated _ _ (.execute _) => true
  | _ => false

/-- The awaits of a use before its first attempt. -/
inductive Opening where
  | getStatus
  | claim
deriving DecidableEq

def Use.opening : Use V → Option Opening
  | .block _ .getStatus | .decorated _ _ .getStatus => some .getStatus
  | .block _ .claim | .decorated _ _ .claim => some .claim
  | _ => none

def Use.atFirstClaim (use : Use V) : Bool := decide (use.opening = some .claim)

/-- What a use has found out from a call. `found` is the record of the key before it. -/
def Call.findings (first : Bool) (found : Option Cell) :
    (call : Call V) → Except Exc call.Reply → List (Note V)
  | .getStatus _, .ok existing => [.looked existing]
  | .claim _, .ok claimed => if first && !(show Bool from claimed) then [.refused found] else []
  | _, _ => []

def UseNext.notes : UseNext V → List (Note V)
  | .awaits _ => []
  | .ended outcome => [.ended outcome]

def UseNext.caller (leaseUntil : Int) : UseNext V → Option (Caller V)
  | .awaits use => some ⟨use, false, leaseUntil⟩
  | .ended _ => none

/-- The notes of one call of a use. -/
def Caller.notes (key : String) (found : Option Cell) (lease : Int) (applied : Bool) (c : Caller V)
    (reply : Except Exc (c.use.callOf key).Reply) : List (Note V) :=
  (c.use.resume key reply).notes ++
    (((c.use.callOf key).events lease applied reply).map Note.did ++
      (c.use.callOf key).findings c.use.atFirstClaim found reply)

namespace Callers

variable {backend : Backend V R}

def setCaller (s : Callers backend) (n : Nat) (caller : Option (Caller V)) : Callers backend :=
  { s with caller := Function.update s.caller n caller }

def note (s : Callers backend) (n : Nat) (notes : List (Note V)) : Callers backend :=
  { s with log := notes.map (n, ·) ++ s.log }

def start (s : Callers backend) (use : Use V) : Callers backend :=
  { s.setCaller s.calls (some ⟨use, false, s.now⟩) with calls := s.calls + 1 }

end Callers

namespace GuardedKey

variable (g : GuardedKey V R)

def cell (s : Callers g.backend) : Option Cell := g.backend.store.cell s.store s.now g.key

def enter (s : Callers g.backend) (n : Nat) : Option (Callers g.backend) :=
  match s.caller n with
  | some c =>
    if c.use.atWork = true ∧ c.entered = false then
      some ((s.note n [.did .entered]).setCaller n (some { c with entered := true }))
    else none
  | none => none

/-- The awaited call of `c` ends, and the use runs to its next await. -/
def acted (s : Callers g.backend) (n : Nat) (c : Caller V) (outcome : Outcome V) :
    Callers g.backend :=
  let call := c.use.callOf g.key
  let answer := g.backend.answer s.store s.now call outcome
  let lease := g.backend.leaseUntil s.now
  (({ s with store := answer.1 }).note n
    (c.notes g.key (cell g s) lease outcome.applied answer.2)).setCaller n
    ((c.use.resume g.key answer.2).caller (if call.won answer.2 then lease else c.leaseUntil))

def act (s : Callers g.backend) (n : Nat) (outcome : Outcome V) : Option (Callers g.backend) :=
  match s.caller n with
  | some c =>
    if c.use.atWork = true ∧ c.entered = false then none else some (acted g s n c outcome)
  | none => none

def exec (s : Callers g.backend) : Activity V → Option (Callers g.backend)
  | .tick d => some { s with now := s.now + d }
  | .block payload => some (s.start (.block payload .getStatus))
  | .call self arguments =>
    match self.idempotencyKey g.py arguments with
    | .ok key => if key = g.key then some (s.start (.decorated self arguments .getStatus)) else none
    | .error _ => none
  | .enter n => enter g s n
  | .act n outcome => act g s n outcome
  | .others op => some { s with store := g.backend.store.after s.store s.now op }

def startState (now : Int) (store : g.backend.State) : Callers g.backend where
  now := now
  store := store
  caller := fun _ => none
  calls := 0
  log := []

/-- The runs that start with no record of the key. -/
def system : System (Callers g.backend) (Activity V) :=
  Transition.ofExec (fun s => ∃ now store, s = startState g now store ∧ cell g s = none) (exec g)

end GuardedKey

/-! ## What a step does -/

/-- An action, and what it leaves. -/
inductive GuardedKey.Stepped (g : GuardedKey V R) (s : Callers g.backend) :
    Activity V → Callers g.backend → Prop
  | tick (d : Nat) : Stepped g s (.tick d) { s with now := s.now + d }
  | block (payload : Payload) : Stepped g s (.block payload) (s.start (.block payload .getStatus))
  | call (self : Idempotent) (arguments : Arguments)
      (hkey : self.idempotencyKey g.py arguments = .ok g.key) :
      Stepped g s (.call self arguments) (s.start (.decorated self arguments .getStatus))
  | enter {n : Nat} {c : Caller V} (hc : s.caller n = some c) (hwork : c.use.atWork = true)
      (hentered : c.entered = false) :
      Stepped g s (.enter n)
        ((s.note n [.did .entered]).setCaller n (some { c with entered := true }))
  | act {n : Nat} {c : Caller V} (outcome : Outcome V) (hc : s.caller n = some c)
      (hentered : c.use.atWork = true → c.entered = true) :
      Stepped g s (.act n outcome) (g.acted s n c outcome)
  | others (op : StoreOp V) :
      Stepped g s (.others op) { s with store := g.backend.store.after s.store s.now op }

theorem GuardedKey.stepped {g : GuardedKey V R} {s s' : Callers g.backend} {a : Activity V}
    (h : g.exec s a = some s') : g.Stepped s a s' := by
  cases a with
  | tick d =>
    obtain rfl := Option.some.inj h
    exact .tick d
  | block payload =>
    obtain rfl := Option.some.inj h
    exact .block payload
  | call self arguments =>
    -- A decorated call counts here only if its key is the one that is watched.
    simp only [exec] at h
    split at h
    · rename_i key hkey
      split at h
      · rename_i heq
        obtain rfl := Option.some.inj h
        exact .call self arguments (heq ▸ hkey)
      · simp at h
    · simp at h
  | enter n =>
    simp only [exec, enter] at h
    split at h
    · rename_i c hc
      split at h
      · rename_i hready
        obtain rfl := Option.some.inj h
        exact .enter hc hready.1 hready.2
      · simp at h
    · simp at h
  | act n outcome =>
    simp only [exec, act] at h
    split at h
    · rename_i c hc
      split at h
      · simp at h
      · rename_i hready
        obtain rfl := Option.some.inj h
        exact .act outcome hc (by simpa using hready)
    · simp at h
  | others op =>
    obtain rfl := Option.some.inj h
    exact .others op

end MessageDedup
