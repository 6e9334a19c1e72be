import MessageDedup.Guard.Onward

/-!
# At most one success for a key

No store failure, no expiry, leases that outlast the work: then no two executions overlap, at most
one succeeds, and a use that looks after the mark of that success is given the stored result.
-/

namespace MessageDedup

open Transition (Reach System replay)

variable {V R : Type}

/-! ## Uses that look after the mark -/

/-- The use has ended with the result of the record that it looked at, and executed nothing. -/
structure Callers.Served {backend : Backend V R} (s : Callers backend) (n : Nat)
    (existing : Option (ProcessingStatus V)) : Prop where
  gone : s.caller n = none
  completed : ∃ record, existing = some record ∧ record.status = .completed
  idle : (n, .did .entered) ∉ s.log
  ended : ∀ outcome, (n, .ended outcome) ∈ s.log ↔ outcome = .ok (existing.bind (·.result))

/-- Each use whose `get_status` came after the mark of a success was served by it. -/
def Callers.LateServed {backend : Backend V R} (s : Callers backend) : Prop :=
  s.log.Pairwise fun newer older =>
    older.2 = .did .marked → ∀ existing, newer.2 = .looked existing → s.Served newer.1 existing

/-- Notes are about uses that have started, and beyond its `get_status`. -/
structure Callers.Ordered {backend : Backend V R} (s : Callers backend) : Prop where
  fresh : ∀ n, s.calls ≤ n → s.caller n = none
  logged : ∀ e ∈ s.log, e.1 < s.calls
  new : ∀ n c, s.caller n = some c → c.use.opening = some .getStatus → ∀ note, (n, note) ∉ s.log

/-- Only use `n` moves, and adds `notes`. -/
structure Callers.Moved {backend : Backend V R} (s s' : Callers backend) (n : Nat)
    (notes : List (Note V)) : Prop where
  log : s'.log = notes.map (n, ·) ++ s.log
  other : ∀ k, k ≠ n → s'.caller k = s.caller k

namespace Callers.Moved

variable {backend : Backend V R} {s s' : Callers backend} {n : Nat} {notes : List (Note V)}

theorem mem_log (h : s.Moved s' n notes) {k : Nat} {note : Note V} :
    (k, note) ∈ s'.log ↔ (k = n ∧ note ∈ notes) ∨ (k, note) ∈ s.log := by
  rw [h.log, List.mem_append, List.mem_map]
  apply or_congr_left
  constructor
  · rintro ⟨note', hmem, heq⟩
    obtain ⟨rfl, rfl⟩ := Prod.mk.inj heq
    exact ⟨rfl, hmem⟩
  · rintro ⟨rfl, hmem⟩
    exact ⟨note, hmem, rfl⟩

theorem served (h : s.Moved s' n notes) {k : Nat} {existing : Option (ProcessingStatus V)}
    (hserved : s.Served k existing) (hne : k ≠ n) : s'.Served k existing := by
  have hmem : ∀ note, (k, note) ∈ s'.log ↔ (k, note) ∈ s.log := by
    intro note
    rw [h.mem_log]
    simp [hne]
  refine ⟨(h.other k hne).trans hserved.gone, hserved.completed, ?_, ?_⟩
  · exact fun hin => hserved.idle ((hmem _).mp hin)
  · exact fun outcome => (hmem _).trans (hserved.ended outcome)

theorem lateServed (h : s.Moved s' n notes) (hlate : s.LateServed)
    (hother : ∀ k existing, (k, .looked existing) ∈ s.log → s.Served k existing → k ≠ n)
    (hnew : ∀ existing, .looked existing ∈ notes → .did .marked ∉ notes ∧
      ((∃ k, (k, .did .marked) ∈ s.log) → s'.Served n existing)) :
    s'.LateServed := by
  unfold LateServed
  rw [h.log, List.pairwise_append]
  refine ⟨?_, ?_, ?_⟩
  · apply List.pairwise_of_forall_mem_list
    intro newer hnewer older holder hmarked existing hlooked
    obtain ⟨note, hnote, rfl⟩ := List.mem_map.mp hnewer
    obtain ⟨note', hnote', rfl⟩ := List.mem_map.mp holder
    obtain rfl : note = .looked existing := hlooked
    obtain rfl : note' = .did .marked := hmarked
    exact absurd hnote' (hnew existing hnote).1
  · apply List.Pairwise.imp_of_mem _ hlate
    rintro ⟨k, note⟩ older hnewer - hserved hmarked existing hlooked
    obtain rfl : note = .looked existing := hlooked
    have hold := hserved hmarked existing rfl
    exact h.served hold (hother k existing hnewer hold)
  · intro newer hnewer older holder hmarked existing hlooked
    obtain ⟨note, hnote, rfl⟩ := List.mem_map.mp hnewer
    obtain rfl : note = .looked existing := hlooked
    obtain ⟨k, note'⟩ := older
    obtain rfl : note' = .did .marked := hmarked
    exact (hnew existing hnote).2 ⟨k, holder⟩

end Callers.Moved

/-! ### What a call notes -/

section

variable {key : String} {found : Option Cell} {lease : Int} {applied : Bool}

theorem Call.looked_findings {first : Bool} {call : Call V} {reply : Except Exc call.Reply}
    {existing : Option (ProcessingStatus V)}
    (h : .looked existing ∈ call.findings first found reply) :
    ∃ m, call = .getStatus m := by
  cases call with
  | getStatus m => exact ⟨m, rfl⟩
  | claim m =>
    rcases reply with e | claimed
    · cases h
    · change Bool at claimed
      cases first <;> cases claimed <;> simp [findings] at h
  | _ => rcases reply with e | r <;> cases h

theorem Use.status_of_callOf {use : Use V} {m : String} (h : use.callOf key = .getStatus m) :
    use.opening = some .getStatus := by
  cases use with
  | block payload pc => cases pc <;> first | rfl | cases h
  | decorated self arguments pc => cases pc <;> first | rfl | cases h

theorem UseNext.not_mem_notes {next : UseNext V} {note : Note V}
    (hnote : ∀ outcome, note ≠ .ended outcome) : note ∉ next.notes := by
  unfold notes
  split
  · exact List.not_mem_nil
  · rw [List.mem_singleton]
    exact hnote _

theorem Caller.looked_mem (c : Caller V) {reply : Except Exc (c.use.callOf key).Reply}
    {existing : Option (ProcessingStatus V)}
    (h : .looked existing ∈ c.notes key found lease applied reply) :
    c.use.opening = some .getStatus := by
  unfold Caller.notes at h
  rw [List.mem_append, List.mem_append] at h
  rcases h with h | h | h
  · exact absurd h (UseNext.not_mem_notes (by rintro _ ⟨⟩))
  · obtain ⟨event, -, hlooked⟩ := List.mem_map.mp h
    simp at hlooked
  · obtain ⟨m, hcall⟩ := Call.looked_findings h
    exact Use.status_of_callOf hcall

end

/-! ### Each step -/

namespace Callers

variable {backend : Backend V R} {s s' : Callers backend}

@[simp] theorem setCaller_self (s : Callers backend) (n : Nat) (caller : Option (Caller V)) :
    (s.setCaller n caller).caller n = caller :=
  Function.update_self _ _ _

theorem moved_start (s : Callers backend) (use : Use V) : s.Moved (s.start use) s.calls [] :=
  ⟨rfl, fun _ hk => Function.update_of_ne hk _ _⟩

theorem moved_note (s : Callers backend) (n : Nat) (notes : List (Note V))
    (caller : Option (Caller V)) : s.Moved ((s.note n notes).setCaller n caller) n notes :=
  ⟨rfl, fun _ hk => Function.update_of_ne hk _ _⟩

theorem Ordered.start (h : s.Ordered) (use : Use V) : (s.start use).Ordered where
  fresh := by
    intro n hn
    have hlt : s.calls < n := hn
    rw [(moved_start s use).other n (by omega)]
    exact h.fresh n (by omega)
  logged := fun e he => Nat.lt_succ_of_lt (h.logged e he)
  new := by
    intro n c hc hstatus note hmem
    rcases eq_or_ne n s.calls with rfl | hne
    · exact absurd (h.logged _ hmem) (Nat.lt_irrefl _)
    · rw [(moved_start s use).other n hne] at hc
      exact h.new n c hc hstatus note hmem

theorem Ordered.moved (h : s.Ordered) {n : Nat} {notes : List (Note V)}
    (hmoved : s.Moved s' n notes)
    (hcalls : s'.calls = s.calls) {c : Caller V} (hc : s.caller n = some c)
    (hpast : ∀ c', s'.caller n = some c' → c'.use.opening ≠ some .getStatus) : s'.Ordered := by
  have hlt : n < s.calls := by
    by_contra hle
    rw [h.fresh n (by omega)] at hc
    simp at hc
  refine ⟨?_, ?_, ?_⟩
  · intro k hk
    rw [hmoved.other k (by omega)]
    exact h.fresh k (by omega)
  · rintro ⟨k, note⟩ he
    rw [hcalls]
    rcases hmoved.mem_log.mp he with ⟨rfl, -⟩ | hmem
    · exact hlt
    · exact h.logged _ hmem
  · intro k c' hc' hstatus note hmem
    rcases eq_or_ne k n with rfl | hne
    · exact absurd hstatus (hpast c' hc')
    · rw [hmoved.other k hne] at hc'
      rcases hmoved.mem_log.mp hmem with ⟨rfl, -⟩ | hmem
      · exact hne rfl
      · exact h.new k c' hc' hstatus note hmem

theorem Moved.found {n : Nat} {record : ProcessingStatus V}
    (h : s.Moved s' n [.ended (.ok record.result), .looked (some record)])
    (hdone : record.status = .completed) (hgone : s'.caller n = none)
    (hnew : ∀ note, (n, note) ∉ s.log) : s'.Served n (some record) where
  gone := hgone
  completed := ⟨record, rfl, hdone⟩
  idle := by
    intro hmem
    rcases h.mem_log.mp hmem with ⟨-, hnote⟩ | hold
    · simp at hnote
    · exact hnew _ hold
  ended := by
    intro outcome
    rw [h.mem_log]
    simp [hnew]

end Callers

namespace GuardedKey

variable {g : GuardedKey V R} {s s' : Callers g.backend} {a : Activity V}

theorem moved_acted (s : Callers g.backend) (n : Nat) (c : Caller V) (outcome : Outcome V) :
    s.Moved (g.acted s n c outcome) n
      (c.notes g.key (g.cell s) (g.backend.leaseUntil s.now) outcome.applied
        (g.backend.answer s.store s.now (c.use.callOf g.key) outcome).2) :=
  ⟨rfl, fun _ hk => Function.update_of_ne hk _ _⟩

theorem ordered_step (h : s.Ordered) (hstep : g.Stepped s a s') : s'.Ordered := by
  cases hstep with
  | tick d => exact ⟨h.fresh, h.logged, h.new⟩
  | others op => exact ⟨h.fresh, h.logged, h.new⟩
  | block payload => exact h.start _
  | call self arguments hkey => exact h.start _
  | @enter n c hc hwork hentered =>
    apply h.moved (Callers.moved_note s n _ _) rfl hc
    intro c' hc'
    rw [Callers.setCaller_self] at hc'
    obtain rfl := Option.some.inj hc'
    rw [Use.opening_of_atWork hwork]
    simp
  | @act n c outcome hc hentered =>
    apply h.moved (moved_acted s n c outcome) rfl hc
    exact fun c' hc' => (acted_onward hc').past

theorem acted_status {c : Caller V} {outcome : Outcome V}
    (hstatus : c.use.opening = some .getStatus)
    (hok : ∃ reply, (g.backend.answer s.store s.now (c.use.callOf g.key) outcome).2 = .ok reply) :
    let reply := (g.backend.answer s.store s.now (c.use.callOf g.key) outcome).2
    let existing := g.backend.store.getStatus s.store s.now g.key
    c.notes g.key (g.cell s) (g.backend.leaseUntil s.now) outcome.applied reply =
        (c.use.resume g.key reply).notes ++ [.looked existing] ∧
      ∀ record, completedRecord existing = some record →
        c.use.resume g.key reply = .ended (.ok record.result) := by
  obtain ⟨use, entered, l⟩ := c
  rcases Use.opening_cases hstatus with ⟨payload, rfl⟩ | ⟨self, arguments, rfl⟩
  · obtain ⟨existing, hreply⟩ := hok
    obtain rfl := Backend.answer_status hreply
    simp only [hreply]
    refine ⟨rfl, fun record hrecord => ?_⟩
    change BlockPc.afterStatus payload _ = _
    unfold BlockPc.afterStatus
    rw [hrecord]
  · obtain ⟨existing, hreply⟩ := hok
    obtain rfl := Backend.answer_status hreply
    simp only [hreply]
    refine ⟨rfl, fun record hrecord => ?_⟩
    change CallPc.afterStatus self arguments _ = _
    unfold CallPc.afterStatus
    rw [hrecord]

theorem served_acted {n : Nat} {c : Caller V} {outcome : Outcome V}
    (hstatus : c.use.opening = some .getStatus) (hnew : ∀ note, (n, note) ∉ s.log)
    (hok : ∃ reply, (g.backend.answer s.store s.now (c.use.callOf g.key) outcome).2 = .ok reply)
    (hdone : (g.life s).IsCompleted) :
    (g.acted s n c outcome).Served n (g.backend.store.getStatus s.store s.now g.key) := by
  obtain ⟨cell, hcell, hcompleted⟩ := hdone
  obtain ⟨record, hrecord, rfl⟩ := Option.map_eq_some_iff.mp hcell
  have hfound : completedRecord (some record) = some record := by
    unfold completedRecord
    rw [Option.filter_some]
    exact if_pos (decide_eq_true hcompleted)
  obtain ⟨hnotes, hnext⟩ := acted_status (s := s) hstatus hok
  rw [hrecord] at hnotes hnext ⊢
  have hended := hnext record hfound
  have hmoved := moved_acted s n c outcome
  rw [hnotes, hended] at hmoved
  refine hmoved.found hcompleted ?_ hnew
  rw [acted_caller, hended]
  rfl

theorem late_step (h : s.LateServed) (hord : s.Ordered) (hmarked : (g.life s).Marked)
    (hf : g.Faultless s a) (hstep : g.Stepped s a s') : s'.LateServed := by
  have hquiet : s.Moved s' s.calls [] → s'.LateServed := by
    intro hmoved
    apply hmoved.lateServed h
    · rintro k existing hlooked - rfl
      exact Nat.lt_irrefl _ (hord.logged _ hlooked)
    · intro existing hmem
      simp at hmem
  -- A use that was served has ended, so the one that moves is another.
  have hactive : ∀ {n c}, s.caller n = some c → ∀ k existing, (k, .looked existing) ∈ s.log →
      s.Served k existing → k ≠ n := by
    rintro n c hc k existing - hserved rfl
    rw [hserved.gone] at hc
    simp at hc
  cases hstep with
  | tick d => exact hquiet ⟨rfl, fun _ _ => rfl⟩
  | others op => exact absurd rfl (hf.alone op)
  | block payload | call self arguments hkey => exact hquiet (Callers.moved_start s _)
  | @enter n c hc hwork hentered =>
    apply (Callers.moved_note s n _ _).lateServed h (hactive hc)
    intro existing hmem
    cases List.mem_singleton.mp hmem
  | @act n c outcome hc hentered =>
    apply (moved_acted s n c outcome).lateServed h (hactive hc)
    intro existing hmem
    have hstatus := c.looked_mem hmem
    have hidle : c.use.atWork = false := by
      cases hwork : c.use.atWork with
      | false => rfl
      | true =>
        cases (Use.opening_of_atWork hwork).symm.trans hstatus
    have hok := hf.answered n outcome c rfl hc hidle
    obtain ⟨hnotes, -⟩ := acted_status (s := s) hstatus hok
    rw [hnotes] at hmem ⊢
    constructor
    · rw [List.mem_append, List.mem_singleton]
      rintro (hin | hin)
      · exact UseNext.not_mem_notes (by rintro _ ⟨⟩) hin
      · simp at hin
    · rintro ⟨k, hk⟩
      rcases List.mem_append.mp hmem with hin | hin
      · exact absurd hin (UseNext.not_mem_notes (by rintro _ ⟨⟩))
      · obtain rfl := Note.looked.inj (List.mem_singleton.mp hin)
        refine served_acted hstatus (hord.new n c hc hstatus) hok (hmarked ⟨k, ?_⟩)
        exact List.mem_filterMap.mpr ⟨_, hk, rfl⟩

end GuardedKey

/-- What a run without faults keeps. -/
structure GuardedKey.Sound (g : GuardedKey V R) (s : Callers g.backend) : Prop where
  success : (g.life s).SuccessInv
  marked : (g.life s).Marked
  ordered : s.Ordered
  late : s.LateServed

theorem GuardedKey.sound_of_reach {g : GuardedKey V R} {s : Callers g.backend}
    (h : Reach (g.system.guard g.Faultless) s) : g.Sound s := by
  apply h.invariant g.Sound
  · rintro _ ⟨now, store, rfl, hnone⟩
    refine ⟨.start (fun _ => rfl) rfl, ?_, ⟨fun _ _ => rfl, ?_, ?_⟩, .nil⟩
    · rintro ⟨n, hn⟩
      cases hn
    · intro e he
      cases he
    · intro n c hc
      cases hc
  · rintro s a s' - hs ⟨hf, hexec⟩
    have hstep := stepped hexec
    have hshift := shift (hs.ordered.fresh _ (Nat.le_refl _)) hf hstep
    exact ⟨hs.success.shift hf.leases hshift, hs.marked.shift hs.success.owner hshift,
      ordered_step hs.ordered hstep, late_step hs.late hs.ordered hs.marked hf hstep⟩

/-- Guarded blocks and decorated calls on one key, without store failures: no two executions
overlap, none starts or succeeds after one that succeeded, and each use whose `get_status` comes
after the mark of that success executes nothing and ends with the stored result. -/
theorem GuardedKey.at_most_once (g : GuardedKey V R) {s : Callers g.backend}
    (h : Reach (g.system.guard g.Faultless) s) :
    (g.life s).NoOverlap ∧ (g.life s).SucceedsOnce ∧ s.LateServed := by
  have hsound := sound_of_reach h
  exact ⟨hsound.success.noOverlap, hsound.success.once, hsound.late⟩

/-! ## Replaying a run -/

namespace GuardedKey

variable {g : GuardedKey V R} {s s' : Callers g.backend} {a : Activity V}

/-- `Faultless`, for the first `k` uses. -/
def isFaultless (g : GuardedKey V R) (k : Nat) (s : Callers g.backend) (a : Activity V) : Bool :=
  (g.life s).isCalm k (.tick 0 false) &&
    match a with
    | .tick d => decide (g.backend.store.cell s.store (s.now + d) g.key = g.cell s)
    | .block _ | .call _ _ => decide (s.calls < k)
    | .enter n => decide (n < k)
    | .act n outcome => decide (n < k) && (s.caller n).all fun c => c.use.atWork ||
        (g.backend.answer s.store s.now (c.use.callOf g.key) outcome).2.toBool
    | .others _ => false

theorem quiet_of_isFaultless {k : Nat} (hq : (g.life s).Quiet k)
    (h : g.isFaultless k s a = true) (hstep : g.Stepped s a s') : (g.life s').Quiet k := by
  have hkeep : ∀ {n notes}, s.Moved s' n notes → n < k → (g.life s').Quiet k := by
    intro n notes hmoved hn j hj
    change (s'.caller j).map _ = none
    rw [hmoved.other j (by omega)]
    exact hq j hj
  simp only [isFaultless, Bool.and_eq_true] at h
  cases hstep with
  | tick d => exact hq
  | others op => exact absurd h.2 (by simp)
  | block payload | call self arguments hkey =>
    exact hkeep (Callers.moved_start s _) (of_decide_eq_true h.2)
  | enter hc hwork hentered => exact hkeep (Callers.moved_note s _ _ _) (of_decide_eq_true h.2)
  | @act n c outcome hc hentered =>
    simp only [Bool.and_eq_true] at h
    exact hkeep (moved_acted s n c outcome) (of_decide_eq_true h.2.1)

theorem faultless_of_isFaultless {k : Nat} (hq : (g.life s).Quiet k)
    (h : g.isFaultless k s a = true) : g.Faultless s a := by
  simp only [isFaultless, Bool.and_eq_true] at h
  refine ⟨(Life.calm_of_isCalm hq h.1).1, ?_, ?_, ?_⟩
  · rintro d rfl
    exact of_decide_eq_true h.2
  · rintro op rfl
    simp at h
  · rintro n outcome c rfl hc hidle
    have hans := h.2
    simp only [hc, Option.all_some, hidle, Bool.false_or, Bool.and_eq_true] at hans
    cases hreply : (g.backend.answer s.store s.now (c.use.callOf g.key) outcome).2 with
    | ok reply => exact ⟨reply, rfl⟩
    | error exc =>
      rw [hreply] at hans
      cases hans.2

theorem reach_replay {k : Nat} {now : Int} {store : g.backend.State}
    (hnone : g.cell (g.startState now store) = none) {as : List (Activity V)}
    (h : replay g.exec (g.isFaultless k) (g.startState now store) as = some s) :
    Reach (g.system.guard g.Faultless) s := by
  have hstart : Reach (g.system.guard g.Faultless) (g.startState now store) :=
    .init ⟨now, store, rfl, hnone⟩
  refine (Transition.reach_replay (fun s => (g.life s).Quiet k) ?_ hstart (fun _ _ => rfl) h).1
  intro s a s' hq hcheck hexec
  exact ⟨faultless_of_isFaultless hq hcheck, quiet_of_isFaultless hq hcheck (stepped hexec)⟩

end GuardedKey

/-- A key of a store in memory. -/
def smallKey (config : DeduplicationConfig) : GuardedKey Unit Unit where
  py := bareRuntime
  backend := .inMemory config
  key := "order-1"

/-- A decorated call fails and loses its key to a block while it waits for its retry. The block
succeeds, and a second call comes late. -/
def mixedUses : List (Activity Unit) :=
  let call : Activity Unit := .call ⟨none, none⟩ ⟨[.str "order-1"], []⟩
  [.block (.json .null), call, .act 0 (.done none), .act 1 (.done none), .act 1 (.done none),
    .enter 1, .act 1 (.raised handlerError true), .act 1 (.done none), .act 0 (.done none),
    .enter 0, .act 1 (.done none), .act 1 (.done none), .act 0 (.done (some ())),
    .act 0 (.done none), call, .act 2 (.done none)]

theorem GuardedKey.at_most_once_mixed :
    let g := smallKey {}
    ∃ s, Reach (g.system.guard g.Faultless) s ∧ s.log.length = 12 ∧ (g.life s).NoOverlap ∧
      (g.life s).SucceedsOnce ∧ s.LateServed := by
  intro g
  have hrun : (replay g.exec (g.isFaultless 3) (g.startState 0 g.backend.empty) mixedUses).any
      (fun s => decide (s.log.length = 12)) = true := by
    decide +kernel
  obtain ⟨s, hs, hlength⟩ := (Option.any_eq_true _ _).mp hrun
  have hr := GuardedKey.reach_replay rfl hs
  exact ⟨s, hr, of_decide_eq_true hlength, GuardedKey.at_most_once g hr⟩

end MessageDedup
