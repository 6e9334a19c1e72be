import MessageDedup.Guard.Ownership

/-!
# Each step of a use, on the life of its key

While no store call fails, each awaited call is a turn, and each action a shift.
-/

namespace MessageDedup

open Transition (Reach System replay)

variable {V R : Type}

/-! ## Each call is a turn -/

def UseNext.task (n : Nat) (lease : Int) : UseNext V → Option Task
  | .awaits use => some ⟨n, use.phase false, lease⟩
  | .ended _ => none

section

variable {backend : Backend V R} {now : Int} {record record' : Option Cell} {applied : Bool}

variable {key : String} {n : Nat} {l : Int} {entered : Bool}

/-- What a use makes of an answer, when only its business logic may raise. -/
def Use.Turns (backend : Backend V R) (now : Int) (record record' : Option Cell) (n : Nat) (l : Int)
    (entered applied : Bool) (key : String) (use : Use V)
    (reply : Except Exc (use.callOf key).Reply) : Prop :=
  UseTurn backend now record ⟨n, use.phase entered, l⟩ record'
    ((use.resume key reply).task n
      (if (use.callOf key).won reply then backend.leaseUntil now else l))
    ((use.callOf key).events (backend.leaseUntil now) applied reply)

theorem BlockPc.turns {payload : Payload} (pc : BlockPc V)
    {reply : Except Exc ((Use.block payload pc).callOf key).Reply}
    (hready : (Use.block payload pc).atWork = true → entered = true)
    (hok : (Use.block payload pc).atWork = false → ∃ r, reply = .ok r)
    (h : Answered backend now record ((Use.block payload pc).callOf key) reply applied record') :
    (Use.block payload pc).Turns backend now record record' n l entered applied key reply := by
  cases pc with
  | getStatus =>
    obtain ⟨existing, rfl⟩ := hok rfl
    obtain rfl : record' = record := (h.ok existing rfl).2
    change UseTurn _ _ _ _ _ ((afterStatus payload existing).task n l) []
    unfold afterStatus
    cases completedRecord existing with
    | none => exact .looked
    | some found => exact .ends id
  | claim =>
    obtain ⟨claimed, rfl⟩ := hok rfl
    rcases h.claim with ⟨rfl, hclaim, rfl⟩ | ⟨rfl, -, rfl⟩
    · exact .granted id hclaim (by rintro u ⟨⟩; exact ⟨⟨1, rfl⟩, rfl⟩)
    · exact .ends id
  | body =>
    obtain rfl := hready rfl
    obtain rfl : record' = record := h.self.elim id id
    cases reply with
    | ok result => exact .returned
    | error exc => exact .raised
  | markFailed exc =>
    obtain ⟨r, rfl⟩ := hok rfl
    obtain rfl := (h.ok r rfl).2
    exact .failed nofun
  | markCompleted result =>
    obtain ⟨r, rfl⟩ := hok rfl
    obtain rfl := (h.ok r rfl).2
    exact .completed

theorem CallPc.toAttempt_ready {self : Idempotent} {arguments : Arguments} {attempts : Int}
    {lastExc : Option Exc} {u : Task}
    (h : (toAttempt (V := V) self arguments attempts lastExc).task n l = some u) :
    u.phase = .ready attempts ∧ u.lease = l := by
  unfold toAttempt at h
  split at h
  · obtain rfl := Option.some.inj h
    exact ⟨rfl, rfl⟩
  · cases h

theorem CallPc.turns {self : Idempotent} {arguments : Arguments} (pc : CallPc V)
    {reply : Except Exc ((Use.decorated self arguments pc).callOf key).Reply}
    (hready : (Use.decorated self arguments pc).atWork = true → entered = true)
    (hok : (Use.decorated self arguments pc).atWork = false → ∃ r, reply = .ok r)
    (h : Answered backend now record ((Use.decorated self arguments pc).callOf key) reply applied
      record') :
    (Use.decorated self arguments pc).Turns backend now record record' n l entered applied key
      reply := by
  cases pc with
  | getStatus =>
    obtain ⟨existing, rfl⟩ := hok rfl
    obtain rfl : record' = record := (h.ok existing rfl).2
    change UseTurn _ _ _ _ _ ((afterStatus self arguments existing).task n l) []
    unfold afterStatus
    cases completedRecord existing with
    | none => exact .looked
    | some found => exact .ends id
  | claim =>
    obtain ⟨claimed, rfl⟩ := hok rfl
    rcases h.claim with ⟨rfl, hclaim, rfl⟩ | ⟨rfl, -, rfl⟩
    · exact .granted id hclaim fun u hu => ⟨⟨1, (toAttempt_ready hu).1⟩, (toAttempt_ready hu).2⟩
    · exact .ends id
  | execute attempts =>
    obtain rfl := hready rfl
    obtain rfl : record' = record := h.self.elim id id
    cases reply with
    | ok result => exact .returned
    | error exc =>
      change UseTurn _ _ _ _ _ ((afterExecute self arguments attempts (.error exc)).task n l) []
      unfold afterExecute
      simp only
      split
      · exact .raised
      · exact .ends id
  | markFailed attempts exc =>
    -- After the last attempt nothing is left to do but to raise.
    obtain ⟨r, rfl⟩ := hok rfl
    obtain rfl := (h.ok r rfl).2
    refine .failed fun u hu => ?_
    change (afterFailed self arguments attempts exc).task n l = some u at hu
    unfold afterFailed at hu
    split at hu
    · obtain rfl := Option.some.inj hu
      rfl
    · rename_i hlast
      unfold toAttempt at hu
      rw [if_neg (by omega)] at hu
      cases hu
  | sleep attempts exc =>
    obtain ⟨r, rfl⟩ := hok rfl
    obtain rfl := (h.ok r rfl).2
    exact .slept
  | reclaim attempts exc =>
    obtain ⟨claimed, rfl⟩ := hok rfl
    rcases h.claim with ⟨rfl, hclaim, rfl⟩ | ⟨rfl, -, rfl⟩
    · exact .granted id hclaim fun u hu =>
        ⟨⟨attempts + 1, (toAttempt_ready hu).1⟩, (toAttempt_ready hu).2⟩
    · exact .ends id
  | markCompleted result =>
    obtain ⟨r, rfl⟩ := hok rfl
    obtain rfl := (h.ok r rfl).2
    exact .completed

theorem Use.turns (use : Use V) {reply : Except Exc (use.callOf key).Reply}
    (hready : use.atWork = true → entered = true)
    (hok : use.atWork = false → ∃ r, reply = .ok r)
    (h : Answered backend now record (use.callOf key) reply applied record') :
    use.Turns backend now record record' n l entered applied key reply := by
  cases use with
  | block payload pc => exact pc.turns hready hok h
  | decorated self arguments pc => exact pc.turns hready hok h

theorem Use.callOf_key (use : Use V) (key : String) :
    (use.callOf key).key = some key ∨ (use.callOf key).key = none := by
  cases use with
  | block payload pc => cases pc <;> simp [callOf, BlockPc.callOf, Call.key]
  | decorated self arguments pc => cases pc <;> simp [callOf, CallPc.callOf, Call.key]

end

/-! ## Each action is a shift -/

namespace GuardedKey

variable {g : GuardedKey V R} (s : Callers g.backend) (n : Nat)

theorem life_setCaller (caller : Option (Caller V)) :
    g.life (s.setCaller n caller) =
      { g.life s with task := Function.update (g.life s).task n (caller.map (·.task n)) } := by
  unfold life Callers.setCaller
  congr 1
  funext n'
  by_cases h : n' = n
  · subst h
    simp
  · simp [h]

theorem life_note (notes : List (Note V)) :
    g.life (s.note n notes) =
      { g.life s with trace := (notes.filterMap Note.event).map (n, ·) ++ (g.life s).trace } := by
  unfold life Callers.note
  congr 1
  rw [List.filterMap_append, List.filterMap_map, List.map_filterMap]
  rfl

theorem event_findings (first : Bool) (found : Option Cell) (call : Call V)
    (reply : Except Exc call.Reply) :
    (call.findings first found reply).filterMap Note.event = [] := by
  cases call with
  | getStatus m => cases reply <;> rfl
  | claim m =>
    cases reply with
    | error exc => rfl
    | ok claimed =>
      change Bool at claimed
      cases first <;> cases claimed <;> rfl
  | _ => cases reply <;> rfl

theorem event_did (events : List Event) :
    (events.map (Note.did (V := V))).filterMap Note.event = events := by
  rw [List.filterMap_map]
  exact List.filterMap_some

theorem event_notes (next : UseNext V) : next.notes.filterMap Note.event = [] := by
  cases next <;> rfl

theorem life_acted (c : Caller V) (outcome : Outcome V) :
    g.life (g.acted s n c outcome) =
      (g.life s).put n
        (g.backend.store.cell
          (g.backend.answer s.store s.now (c.use.callOf g.key) outcome).1 s.now g.key)
        ((c.use.resume g.key (g.backend.answer s.store s.now _ outcome).2).task n
          (if (c.use.callOf g.key).won (g.backend.answer s.store s.now _ outcome).2 then
            g.backend.leaseUntil s.now else c.leaseUntil))
        n
        ((c.use.callOf g.key).events (g.backend.leaseUntil s.now) outcome.applied
          (g.backend.answer s.store s.now _ outcome).2) := by
  unfold acted
  rw [life_setCaller, life_note, Caller.notes, List.filterMap_append,
    List.filterMap_append, event_notes, event_findings, event_did, List.append_nil, List.nil_append]
  cases c.use.resume g.key (g.backend.answer s.store s.now (c.use.callOf g.key) outcome).2 <;> rfl

end GuardedKey

theorem Use.phase_atWork {use : Use V} (h : use.atWork = true) :
    ∃ a, use.phase false = .ready a ∧ use.phase true = .running a := by
  cases use with
  | block payload pc =>
    cases pc with
    | body => exact ⟨1, rfl, rfl⟩
    | _ => cases h
  | decorated self arguments pc =>
    cases pc with
    | execute attempts => exact ⟨attempts, rfl, rfl⟩
    | _ => cases h

/-- No store call fails, no record expires, nobody else is at the store, and each step is taken
while the claims in force have a live lease. -/
structure GuardedKey.Faultless (g : GuardedKey V R) (s : Callers g.backend) (a : Activity V) :
    Prop where
  leases : (g.life s).LeasesLive
  lasting : ∀ d, a = .tick d → g.backend.store.cell s.store (s.now + d) g.key = g.cell s
  alone : ∀ op, a ≠ .others op
  answered : ∀ n outcome c, a = .act n outcome → s.caller n = some c → c.use.atWork = false →
    ∃ reply, (g.backend.answer s.store s.now (c.use.callOf g.key) outcome).2 = .ok reply

theorem GuardedKey.shift {g : GuardedKey V R} {s s' : Callers g.backend} {a : Activity V}
    (hfresh : s.caller s.calls = none) (hf : g.Faultless s a) (h : g.Stepped s a s') :
    (g.life s).Shift g.backend (g.life s') := by
  have hstart : ∀ use : Use V, use.phase false = .arriving →
      (g.life s).Shift g.backend (g.life (s.start use)) := by
    intro use hphase
    have hn : (g.life s).task s.calls = none := by simp [life, hfresh]
    have hlife : g.life (s.start use) =
        (g.life s).put s.calls (g.life s).record (some ⟨s.calls, use.phase false, s.now⟩) s.calls
          [] :=
      life_setCaller s s.calls _
    rw [hlife, hphase]
    exact .start s.now hn
  cases h with
  | tick d =>
    -- The record does not expire meanwhile: only the clock moves.
    have hlife : g.life { s with now := s.now + d } =
        { g.life s with
          now := s.now + d
          record := g.backend.store.cell s.store (s.now + d) g.key } := rfl
    rw [hlife, hf.lasting d rfl]
    exact .tick d
  | block payload => exact hstart _ rfl
  | call self arguments hkey => exact hstart _ rfl
  | @enter n c hc hwork hentered =>
    obtain ⟨a, hready, hrunning⟩ := Use.phase_atWork hwork
    have hn : (g.life s).task n = some ⟨n, .ready a, c.leaseUntil⟩ := by
      simp [life, hc, Caller.task, hentered, hready]
    have hlife : g.life ((s.note n [.did .entered]).setCaller n (some { c with entered := true })) =
        (g.life s).put n (g.life s).record (some ⟨n, c.use.phase true, c.leaseUntil⟩) n
          [.entered] := by
      rw [life_setCaller, life_note]
      rfl
    rw [hlife, hrunning]
    exact .enter hn
  | @act n c outcome hc hentered =>
    -- No call but the guarded work raises in a faultless step.
    have hn : (g.life s).task n = some (c.task n) := by simp [life, hc]
    rw [life_acted]
    exact .turn hn (Use.turns c.use hentered (hf.answered n outcome c rfl hc)
      (g.backend.answered s.store s.now outcome (c.use.callOf_key g.key)))
  | others op => exact absurd rfl (hf.alone op)

end MessageDedup
