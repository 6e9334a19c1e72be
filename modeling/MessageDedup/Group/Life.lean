import MessageDedup.Group.System

/-!
# The life of one message

What a consumer group does to one message id, without the code around it: the record, the delivery
that each consumer has in hand, and the history. `Refinement.lean` shows that every run of the
group is, for each id, a run of this system.
-/

namespace MessageDedup

open Transition (System)

/-! ## States -/

/-- How far a delivery has come. A delivery from `ready` to `failing` or `completing` works under
its own claim. -/
inductive Phase where
  | arriving
  | refused
  | skipping
  | ready (attempts : Int)
  | running (attempts : Int)
  | failing (attempts : Int)
  | sleeping (attempts : Int)
  | reclaiming (attempts : Int)
  | completing
  | settling
  | burying
  | buried
  deriving DecidableEq, Repr

structure Task where
  delivery : Nat
  phase : Phase
  lease : Int
  deriving DecidableEq, Repr

structure Life where
  now : Int
  record : Option Cell
  task : ConsumerId → Option Task
  trace : List (Nat × Event)

namespace Phase

/-- Between a claim and the mark that answers it. -/
def Holds : Phase → Prop
  | ready _ | running _ | failing _ | completing => True
  | _ => False

instance : (phase : Phase) → Decidable phase.Holds
  | .ready _ | .running _ | .failing _ | .completing => .isTrue trivial
  | .arriving | .refused | .skipping | .sleeping _ | .reclaiming _ | .settling | .burying
  | .buried => .isFalse id

/-- Before the mark of a claim. -/
def Marks : Phase → Prop
  | failing _ | completing => True
  | _ => False

instance : (phase : Phase) → Decidable phase.Marks
  | .failing _ | .completing => .isTrue trivial
  | .arriving | .refused | .skipping | .ready _ | .running _ | .sleeping _ | .reclaiming _
  | .settling | .burying | .buried => .isFalse id

/-- The attempts of a delivery, where it has a number of them, lie between 1 and `max`, and below
`max` when a retry is to come. -/
def InRange (max : Int) : Phase → Prop
  | ready attempts | running attempts | failing attempts => 1 ≤ attempts ∧ attempts ≤ max
  | sleeping attempts | reclaiming attempts => 1 ≤ attempts ∧ attempts < max
  | _ => True

/-- Past a `mark_failed`, with the retry still to come. -/
def Retries : Phase → Prop
  | sleeping _ | reclaiming _ => True
  | _ => False

/-- Past a `mark_failed`, with the retry or the dead letter still to come. -/
def Waits : Phase → Prop
  | sleeping _ | reclaiming _ | burying => True
  | _ => False

instance : (phase : Phase) → Decidable phase.Waits
  | .sleeping _ | .reclaiming _ | .burying => .isTrue trivial
  | .arriving | .refused | .skipping | .ready _ | .running _ | .failing _ | .completing | .settling
  | .buried => .isFalse id

end Phase

/-! ## Steps -/

/-- What a message id can depend on. `decodable` says that the payloads of its records decode. -/
structure Rules where
  config : DeduplicationConfig
  guarded : Bool
  leaseUntil : Int → Int
  maxRetries : ConsumerId → Int
  dlq : ConsumerId → Prop
  decodable : Prop

inductive Reply where
  | ok
  | raised (isException : Bool)
  deriving DecidableEq, Repr

/-- A `tick` says whether the record expired by its TTL. -/
inductive Label where
  | tick (d : Nat) (expired : Bool)
  | arrive (c : ConsumerId)
  | enter (c : ConsumerId)
  | act (c : ConsumerId) (reply : Reply)
  | crash (c : ConsumerId)
  deriving DecidableEq, Repr

def Label.actor : Label → Option ConsumerId
  | .tick _ _ => none
  | .arrive c | .enter c | .act c _ | .crash c => some c

namespace Rules

variable (rules : Rules)

open Cell (Claimable)

/-- What the awaited call of a phase does to the record. -/
def effect (now : Int) (record : Option Cell) : Phase → Option Cell
  | .arriving | .reclaiming _ =>
    if Claimable rules.config now record then some (Cell.claimed (rules.leaseUntil now) record)
    else record
  | .failing attempts => record.map (Cell.markedFailed rules.guarded attempts)
  | .completing => record.map Cell.completed
  | _ => record

/-- The start of the dead-letter path. -/
def Grave (c : ConsumerId) (phase : Phase) : Prop :=
  (rules.dlq c ∧ phase = .burying) ∨ (¬ rules.dlq c ∧ phase = .buried)

/-- Whether an exception out of the awaited call ends the delivery. -/
def Fatal (isException : Bool) : Phase → Prop
  | .ready _ => False
  | .running _ | .completing => isException = false
  | _ => True

def lastWords (applied : Bool) : Phase → List Event
  | .skipping | .settling | .buried => if applied then [.committed] else []
  | .completing => [.lost]
  | _ => []

/-- One awaited call of a delivery: the task before it, the reply, the record and the task after
it, and what the history keeps, newest first. -/
inductive Move (c : ConsumerId) (now : Int) (record : Option Cell) :
    Task → Reply → Option Cell → Option Task → List Event → Prop
  | granted {d : Nat} {l : Int} (h : Claimable rules.config now record)
      (hmax : 1 ≤ rules.maxRetries c) :
      Move c now record ⟨d, .arriving, l⟩ .ok
        (some (Cell.claimed (rules.leaseUntil now) record))
        (some ⟨d, .ready 1, rules.leaseUntil now⟩) [.claimed (rules.leaseUntil now)]
  | grantedInVain {d : Nat} {l : Int} {phase : Phase} (h : Claimable rules.config now record)
      (hmax : rules.maxRetries c < 1) (hg : rules.Grave c phase) :
      Move c now record ⟨d, .arriving, l⟩ .ok
        (some (Cell.claimed (rules.leaseUntil now) record))
        (some ⟨d, phase, rules.leaseUntil now⟩) [.deadLetter, .claimed (rules.leaseUntil now)]
  | undecodable {d : Nat} {l : Int} (h : Claimable rules.config now record)
      (hd : ¬ rules.decodable) :
      Move c now record ⟨d, .arriving, l⟩ .ok
        (some (Cell.claimed (rules.leaseUntil now) record)) none
        [.claimed (rules.leaseUntil now)]
  | refused {d : Nat} {l : Int} (h : ¬ Claimable rules.config now record) :
      Move c now record ⟨d, .arriving, l⟩ .ok record (some ⟨d, .refused, l⟩) []
  | statusRead {d : Nat} {l : Int} :
      Move c now record ⟨d, .refused, l⟩ .ok record (some ⟨d, .skipping, l⟩) []
  | skipped {d : Nat} {l : Int} :
      Move c now record ⟨d, .skipping, l⟩ .ok record none [.committed]
  | returned {d : Nat} {l attempts : Int} :
      Move c now record ⟨d, .running attempts, l⟩ .ok record (some ⟨d, .completing, l⟩)
        [.returned]
  | failed {d : Nat} {l attempts : Int} :
      Move c now record ⟨d, .running attempts, l⟩ (.raised true) record
        (some ⟨d, .failing attempts, l⟩) []
  | retried {d : Nat} {l attempts : Int} (hlt : attempts < rules.maxRetries c) :
      Move c now record ⟨d, .failing attempts, l⟩ .ok
        (record.map (Cell.markedFailed rules.guarded attempts)) (some ⟨d, .sleeping attempts, l⟩)
        []
  | exhausted {d : Nat} {l attempts : Int} {phase : Phase}
      (hlt : ¬ attempts < rules.maxRetries c) (hg : rules.Grave c phase) :
      Move c now record ⟨d, .failing attempts, l⟩ .ok
        (record.map (Cell.markedFailed rules.guarded attempts)) (some ⟨d, phase, l⟩)
        [.deadLetter]
  | slept {d : Nat} {l attempts : Int} :
      Move c now record ⟨d, .sleeping attempts, l⟩ .ok record
        (some ⟨d, .reclaiming attempts, l⟩) []
  | regranted {d : Nat} {l attempts : Int} (h : Claimable rules.config now record)
      (hmax : attempts + 1 ≤ rules.maxRetries c) :
      Move c now record ⟨d, .reclaiming attempts, l⟩ .ok
        (some (Cell.claimed (rules.leaseUntil now) record))
        (some ⟨d, .ready (attempts + 1), rules.leaseUntil now⟩)
        [.claimed (rules.leaseUntil now)]
  | regrantedInVain {d : Nat} {l attempts : Int} {phase : Phase}
      (h : Claimable rules.config now record) (hmax : rules.maxRetries c < attempts + 1)
      (hg : rules.Grave c phase) :
      Move c now record ⟨d, .reclaiming attempts, l⟩ .ok
        (some (Cell.claimed (rules.leaseUntil now) record))
        (some ⟨d, phase, rules.leaseUntil now⟩) [.deadLetter, .claimed (rules.leaseUntil now)]
  | lostRace {d : Nat} {l attempts : Int} {phase : Phase}
      (h : ¬ Claimable rules.config now record) (hg : rules.Grave c phase) :
      Move c now record ⟨d, .reclaiming attempts, l⟩ .ok record (some ⟨d, phase, l⟩)
        [.deadLetter]
  | completed {d : Nat} {l : Int} :
      Move c now record ⟨d, .completing, l⟩ .ok (record.map Cell.completed)
        (some ⟨d, .settling, l⟩) [.marked]
  | markLost {d : Nat} {l : Int} {record' : Option Cell}
      (h : record' = record ∨ record' = record.map Cell.completed) :
      Move c now record ⟨d, .completing, l⟩ (.raised true) record' (some ⟨d, .settling, l⟩)
        [.lost]
  | settled {d : Nat} {l : Int} :
      Move c now record ⟨d, .settling, l⟩ .ok record none [.committed]
  | sent {d : Nat} {l : Int} :
      Move c now record ⟨d, .burying, l⟩ .ok record (some ⟨d, .buried, l⟩) [.dlqSent]
  | dropped {d : Nat} {l : Int} :
      Move c now record ⟨d, .buried, l⟩ .ok record none [.committed]
  | stopped (applied : Bool) {d : Nat} {l : Int} {phase : Phase} {isException : Bool}
      {record' : Option Cell} (hf : Fatal isException phase)
      (h : record' = record ∨ record' = rules.effect now record phase) :
      Move c now record ⟨d, phase, l⟩ (.raised isException) record' none
        (lastWords applied phase)

end Rules

namespace Life

def put (s : Life) (c : ConsumerId) (record : Option Cell) (task : Option Task)
    (delivery : Nat) (events : List Event) : Life :=
  { s with
    record := record
    task := Function.update s.task c task
    trace := events.map (delivery, ·) ++ s.trace }

theorem task_put {s : Life} {c c' : ConsumerId} {record : Option Cell} {task : Option Task}
    {delivery : Nat} {events : List Event} {t : Task}
    (h : (s.put c record task delivery events).task c' = some t) :
    (c' = c ∧ task = some t) ∨ (c' ≠ c ∧ s.task c' = some t) := by
  by_cases hc : c' = c
  · subst hc
    exact .inl ⟨rfl, by simpa [put] using h⟩
  · exact .inr ⟨hc, by simpa [put, hc] using h⟩

@[simp] theorem task_put_self (s : Life) (c : ConsumerId) (record : Option Cell)
    (task : Option Task) (delivery : Nat) (events : List Event) :
    (s.put c record task delivery events).task c = task := by
  simp [put]

theorem task_put_other (s : Life) {c c' : ConsumerId} (h : c' ≠ c) (record : Option Cell)
    (task : Option Task) (delivery : Nat) (events : List Event) :
    (s.put c record task delivery events).task c' = s.task c' := by
  simp [put, h]

theorem mem_put {s : Life} {c : ConsumerId} {record : Option Cell} {task : Option Task}
    {delivery : Nat} {events : List Event} {e : Nat × Event} :
    e ∈ (s.put c record task delivery events).trace ↔
      (e.1 = delivery ∧ e.2 ∈ events) ∨ e ∈ s.trace := by
  unfold put
  rw [List.mem_append, List.mem_map]
  apply or_congr_left
  constructor
  · rintro ⟨event, hmem, rfl⟩
    exact ⟨rfl, hmem⟩
  · rintro ⟨rfl, hmem⟩
    exact ⟨e.2, hmem, rfl⟩

inductive Step (rules : Rules) : Life → Label → Life → Prop
  | tick {s : Life} {d : Nat} : Step rules s (.tick d false) { s with now := s.now + d }
  | expire {s : Life} {d : Nat} :
      Step rules s (.tick d true) { s with now := s.now + d, record := none }
  | arrive {s : Life} {c : ConsumerId} {n : Nat} {l : Int} (hc : s.task c = none)
      (htask : ∀ c' t, s.task c' = some t → t.delivery < n)
      (htrace : ∀ e ∈ s.trace, e.1 < n) :
      Step rules s (.arrive c) (s.put c s.record (some ⟨n, .arriving, l⟩) n [.delivered])
  | enter {s : Life} {c : ConsumerId} {d : Nat} {attempts l : Int}
      (hc : s.task c = some ⟨d, .ready attempts, l⟩) :
      Step rules s (.enter c) (s.put c s.record (some ⟨d, .running attempts, l⟩) d [.entered])
  | act {s : Life} {c : ConsumerId} {t : Task} {reply : Reply} {record' : Option Cell}
      {t' : Option Task} {events : List Event} (hc : s.task c = some t)
      (h : rules.Move c s.now s.record t reply record' t' events) :
      Step rules s (.act c reply) (s.put c record' t' t.delivery events)
  | crash {s : Life} {c : ConsumerId} {t : Task} (hc : s.task c = some t) :
      Step rules s (.crash c) (s.put c s.record none t.delivery [])

def system (rules : Rules) : System Life Label where
  init s := s.record = none ∧ (∀ c, s.task c = none) ∧ s.trace = []
  step := Step rules

/-! ## What every step keeps -/

variable {rules : Rules} {s s' : Life} {label : Label}

theorem Step.task_other (hstep : Step rules s label s') {c : ConsumerId}
    (hactor : label.actor ≠ some c) : s'.task c = s.task c := by
  cases hstep with
  | tick | expire => rfl
  | arrive _ | enter _ | act _ _ | crash _ =>
    exact task_put_other s (fun e => hactor (by rw [e]; rfl)) _ _ _ _

def Happened (s : Life) (event : Event) : Prop := ∃ n, (n, event) ∈ s.trace

/-- The attempts of every delivery are in range. -/
def Bounded (s : Life) (rules : Rules) : Prop :=
  ∀ c t, s.task c = some t → t.phase.InRange (rules.maxRetries c)

theorem Bounded.start (hidle : ∀ c, s.task c = none) : s.Bounded rules := by
  intro c t ht
  rw [hidle c] at ht
  simp at ht

theorem Bounded.step (h : s.Bounded rules) (hstep : Step rules s label s') : s'.Bounded rules := by
  have hput : ∀ {c record' t' n events}, (∀ u, t' = some u → u.phase.InRange (rules.maxRetries c)) →
      (s.put c record' t' n events).Bounded rules := by
    intro c record' t' n events hnew c' u hu
    rcases task_put hu with ⟨rfl, hself⟩ | ⟨-, hold⟩
    · exact hnew u hself
    · exact h c' u hold
  cases hstep with
  | tick | expire => exact h
  | arrive hc => exact hput (by rintro u ⟨⟩; trivial)
  | enter hc =>
    have hready := h _ _ hc
    exact hput (by rintro u ⟨⟩; exact hready)
  | crash hc => exact hput nofun
  | @act c t reply record' t' events hc hmove =>
    have hrange := h c t hc
    apply hput
    cases hmove with
    | granted _ hmax =>
      rintro u ⟨⟩
      exact ⟨Int.le_refl 1, hmax⟩
    | regranted _ hmax =>
      -- The next attempt is the one place where the counter grows.
      rintro u ⟨⟩
      obtain ⟨hone, -⟩ := hrange
      exact ⟨by omega, hmax⟩
    | retried hlt =>
      rintro u ⟨⟩
      exact ⟨hrange.1, hlt⟩
    | failed | slept =>
      rintro u ⟨⟩
      exact hrange
    | grantedInVain _ _ hg | exhausted _ hg | regrantedInVain _ _ hg | lostRace _ hg =>
      rintro u ⟨⟩
      rcases hg with ⟨-, rfl⟩ | ⟨-, rfl⟩ <;> trivial
    | refused | statusRead | returned | completed | markLost | sent =>
      rintro u ⟨⟩
      trivial
    | undecodable | skipped | settled | dropped | stopped => exact nofun

end Life

end MessageDedup
