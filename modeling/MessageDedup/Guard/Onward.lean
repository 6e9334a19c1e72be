import MessageDedup.Guard.Turns

/-!
# How a use goes on

From its `get_status` to its first claim, from there to its work, and never back: all that the end
of a call can lead a use to.
-/

namespace MessageDedup

variable {V R : Type}

def Opening.blockPc : Opening → BlockPc V
  | .getStatus => .getStatus
  | .claim => .claim

def Opening.callPc : Opening → CallPc V
  | .getStatus => .getStatus
  | .claim => .claim

theorem Use.opening_cases {use : Use V} {opening : Opening} (h : use.opening = some opening) :
    (∃ payload, use = .block payload opening.blockPc) ∨
      ∃ self arguments, use = .decorated self arguments opening.callPc := by
  cases use with
  | block payload pc =>
    cases pc with
    | getStatus | claim =>
      obtain rfl := Option.some.inj h
      exact .inl ⟨payload, rfl⟩
    | body | markFailed exc | markCompleted result => cases h
  | decorated self arguments pc =>
    cases pc with
    | getStatus | claim =>
      obtain rfl := Option.some.inj h
      exact .inr ⟨self, arguments, rfl⟩
    | _ => cases h

theorem Use.opening_of_atWork {use : Use V} (h : use.atWork = true) : use.opening = none := by
  cases use with
  | block payload pc => cases pc <;> first | rfl | cases h
  | decorated self arguments pc => cases pc <;> first | rfl | cases h

/-- The result that a use is about to store. -/
def Use.toMark : Use V → Option (Option V)
  | .block _ (.markCompleted result) => some result
  | .decorated _ _ (.markCompleted result) => some result
  | _ => none

theorem Use.toMark_of_opening {use : Use V} {opening : Opening} (h : use.opening = some opening) :
    use.toMark = none := by
  rcases opening_cases h with ⟨payload, rfl⟩ | ⟨self, arguments, rfl⟩ <;> cases opening <;> rfl

/-- What a use can make of the end of its call, where `shown` is what `get_status` gives. -/
inductive Use.Onward (shown : Option (ProcessingStatus V)) (outcome : Outcome V) (use : Use V) :
    UseNext V → Prop
  | looked {use' : Use V} {result : Option V} (hstatus : use.opening = some .getStatus)
      (hdone : outcome = .done result) (hshown : completedRecord shown = none)
      (hclaim : use'.opening = some .claim) : Onward shown outcome use (.awaits use')
  | returned {use' : Use V} {result : Option V} (hwork : use.atWork = true)
      (hdone : outcome = .done result) (hopening : use'.opening = none)
      (hmark : use'.toMark = some result) : Onward shown outcome use (.awaits use')
  | goesOn {use' : Use V} (hopening : use'.opening = none) (hmark : use'.toMark = none) :
      Onward shown outcome use (.awaits use')
  | served {record : ProcessingStatus V} (hstatus : use.opening = some .getStatus)
      (hshown : shown = some record) : Onward shown outcome use (.ended (.ok record.result))
  | refused (hclaim : use.opening = some .claim) : Onward shown outcome use (.ended (.ok none))
  | marked {result : Option V} (hmark : use.toMark = some result) :
      Onward shown outcome use (.ended (.ok result))
  | raised {exc : Exc} : Onward shown outcome use (.ended (.error exc))

section

variable {key : String} {shown : Option (ProcessingStatus V)} {outcome : Outcome V}

theorem CallPc.toAttempt_onward {use : Use V} (self : Idempotent) (arguments : Arguments)
    (attempts : Int) (lastExc : Option Exc) :
    use.Onward shown outcome (toAttempt self arguments attempts lastExc) := by
  unfold toAttempt
  split
  · exact .goesOn rfl rfl
  · exact .raised

variable {backend : Backend V R} {s : backend.State} {now : Int}

theorem BlockPc.onward (payload : Payload) (pc : BlockPc V) :
    (Use.block payload pc).Onward (backend.store.getStatus s now key) outcome
      (pc.resume key payload (backend.answer s now (pc.callOf key payload) outcome).2) := by
  cases hreply : (backend.answer s now (pc.callOf key payload) outcome).2 with
  | error e =>
    cases pc with
    | body => exact .goesOn rfl rfl
    | getStatus | claim | markFailed exc | markCompleted result => exact .raised
  | ok r =>
    cases pc with
    | getStatus =>
      obtain ⟨result, hdone, -, -⟩ := backend.answer_ok hreply (.inl rfl)
      obtain rfl := Backend.answer_status hreply
      change Use.Onward _ _ _ (afterStatus payload _)
      unfold afterStatus
      split
      · rename_i record hrecord
        exact .served rfl (Option.filter_eq_some_iff.mp hrecord).1
      · rename_i hrecord
        exact .looked rfl hdone hrecord rfl
    | claim =>
      change Bool at r
      cases r
      · exact .refused rfl
      · exact .goesOn rfl rfl
    | body =>
      cases outcome with
      | done result =>
        obtain rfl : result = r := Except.ok.inj hreply
        exact .returned rfl rfl rfl rfl
      | raised exc applied => cases hreply
    | markFailed exc => exact .raised
    | markCompleted result => exact .marked rfl

theorem CallPc.onward_raised (self : Idempotent) (arguments : Arguments) (pc : CallPc V)
    (e : Exc) :
    (Use.decorated self arguments pc).Onward shown outcome
      (pc.resume key self arguments (.error e)) := by
  cases pc with
  | execute attempts =>
    change Use.Onward _ _ _ (afterExecute self arguments attempts (.error e))
    unfold afterExecute
    simp only
    split
    · exact .goesOn rfl rfl
    · exact .raised
  | markCompleted result =>
    -- A `mark_completed` that raises an `Exception` is swallowed.
    change Use.Onward _ _ _ (afterMark result (.error e))
    unfold afterMark
    simp only
    split
    · exact .marked rfl
    · exact .raised
  | getStatus | claim | markFailed attempts exc | sleep attempts exc | reclaim attempts exc =>
    exact .raised

theorem CallPc.onward_returned (self : Idempotent) (arguments : Arguments) (pc : CallPc V)
    {r : (pc.callOf key self arguments).Reply}
    (hreply : (backend.answer s now (pc.callOf key self arguments) outcome).2 = .ok r) :
    (Use.decorated self arguments pc).Onward (backend.store.getStatus s now key) outcome
      (pc.resume key self arguments (.ok r)) := by
  cases pc with
  | getStatus =>
    obtain ⟨result, hdone, -, -⟩ := backend.answer_ok hreply (.inl rfl)
    obtain rfl := Backend.answer_status hreply
    change Use.Onward _ _ _ (afterStatus self arguments _)
    unfold afterStatus
    split
    · rename_i record hrecord
      exact .served rfl (Option.filter_eq_some_iff.mp hrecord).1
    · rename_i hrecord
      exact .looked rfl hdone hrecord rfl
  | claim =>
    change Bool at r
    cases r
    · exact .refused rfl
    · exact toAttempt_onward self arguments 1 none
  | execute attempts =>
    cases outcome with
    | done result =>
      obtain rfl : result = r := Except.ok.inj hreply
      exact .returned rfl rfl rfl rfl
    | raised exc applied => cases hreply
  | markFailed attempts exc =>
    change Use.Onward _ _ _ (afterFailed self arguments attempts exc)
    unfold afterFailed
    split
    · exact .goesOn rfl rfl
    · exact toAttempt_onward self arguments _ _
  | sleep attempts exc => exact .goesOn rfl rfl
  | reclaim attempts exc =>
    change Bool at r
    cases r
    · exact .raised
    · exact toAttempt_onward self arguments _ _
  | markCompleted result => exact .marked rfl

theorem CallPc.onward (self : Idempotent) (arguments : Arguments) (pc : CallPc V) :
    (Use.decorated self arguments pc).Onward (backend.store.getStatus s now key) outcome
      (pc.resume key self arguments
        (backend.answer s now (pc.callOf key self arguments) outcome).2) := by
  cases hreply : (backend.answer s now (pc.callOf key self arguments) outcome).2 with
  | error e => exact onward_raised self arguments pc e
  | ok r => exact onward_returned self arguments pc hreply

theorem Use.onward (use : Use V) :
    use.Onward (backend.store.getStatus s now key) outcome
      (use.resume key (backend.answer s now (use.callOf key) outcome).2) := by
  cases use with
  | block payload pc => exact pc.onward payload
  | decorated self arguments pc => exact pc.onward self arguments

theorem Use.Onward.claims {use use' : Use V} (h : use.Onward shown outcome (.awaits use'))
    (hclaim : use'.opening = some .claim) :
    use.opening = some .getStatus ∧ (∃ result, outcome = .done result) ∧
      completedRecord shown = none := by
  cases h with
  | looked hstatus hdone hshown => exact ⟨hstatus, ⟨_, hdone⟩, hshown⟩
  | returned hwork hdone hopening => cases hopening.symm.trans hclaim
  | goesOn hopening => cases hopening.symm.trans hclaim

theorem Use.Onward.past {use use' : Use V} (h : use.Onward shown outcome (.awaits use')) :
    use'.opening ≠ some .getStatus := by
  cases h with
  | looked hstatus hdone hshown hclaim => simp [hclaim]
  | returned hwork hdone hopening => simp [hopening]
  | goesOn hopening => simp [hopening]

end

/-! ## The next use of a caller -/

theorem UseNext.caller_eq {next : UseNext V} {leaseUntil : Int} {c : Caller V}
    (h : next.caller leaseUntil = some c) : next = .awaits c.use ∧ c.entered = false := by
  cases next with
  | awaits use =>
    obtain rfl := Option.some.inj h
    exact ⟨rfl, rfl⟩
  | ended outcome => cases h

namespace GuardedKey

variable {g : GuardedKey V R} {s : Callers g.backend} {n : Nat} {c c' : Caller V}
  {outcome : Outcome V}

theorem acted_caller (s : Callers g.backend) (n : Nat) (c : Caller V) (outcome : Outcome V) :
    (g.acted s n c outcome).caller n =
      (c.use.resume g.key
        (g.backend.answer s.store s.now (c.use.callOf g.key) outcome).2).caller
          (if (c.use.callOf g.key).won (g.backend.answer s.store s.now _ outcome).2 then
            g.backend.leaseUntil s.now else c.leaseUntil) :=
  Function.update_self _ _ _

theorem acted_onward (h : (g.acted s n c outcome).caller n = some c') :
    c.use.Onward (g.backend.store.getStatus s.store s.now g.key) outcome (.awaits c'.use) := by
  have hnext := (UseNext.caller_eq ((acted_caller s n c outcome).symm.trans h)).1
  rw [← hnext]
  exact c.use.onward

end GuardedKey

end MessageDedup
