import MessageDedup.Guard.Refusals

/-!
# Where an answer comes from

What a use ends with is what its own business logic returned, or what another one has stored under
the key, as the store gives it back.
-/

namespace MessageDedup

open Transition (Reach System replay)

variable {V R : Type}

/-! ## The statements -/

/-- The value that a use ends with, unless it raises. -/
def Note.answer : Note V → Option (Option V)
  | .ended (.ok result) => some result
  | _ => none

/-- What the uses have ended with. -/
def Callers.answers {backend : Backend V R} (s : Callers backend) : List (Nat × Option V) :=
  s.log.filterMap fun e => e.2.answer.map (e.1, ·)

/-- A value under the key, with the use whose business logic returned it. Without a use, someone
else has marked the key with it. -/
abbrev Given (V : Type) := Option Nat × Option V

def Outcome.returned : Outcome V → List (Option V)
  | .done result => [result]
  | .raised _ _ => []

namespace GuardedKey

variable (g : GuardedKey V R)

/-- The values that an action brings in. -/
def given (s : Callers g.backend) : Activity V → List (Given V)
  | .act n outcome =>
    if (s.caller n).any (·.use.atWork) then outcome.returned.map (some n, ·) else []
  | .others op => (op.marks g.key).toList.map fun value => (none, some value)
  | _ => []

/-- The use has worked and ends with what its own work returned, or it has not worked and ends with
what another has stored, or with nothing. -/
inductive Origin (s : Callers g.backend) (given : List (Given V)) (n : Nat) : Option V → Prop
  | own {result : Option V} (hentered : (n, .did .entered) ∈ s.log)
      (hgiven : (some n, result) ∈ given) : Origin s given n result
  | stored {source : Option Nat} {w v : V} (hidle : (n, .did .entered) ∉ s.log)
      (hgiven : (source, some w) ∈ given) (hother : source ≠ some n)
      (hrecorded : g.backend.Recorded w v) : Origin s given n (some v)
  | nothing (hidle : (n, .did .entered) ∉ s.log) : Origin s given n none

end GuardedKey

/-! ## What each use keeps -/

/-- The accounts of use `n`. -/
structure GuardedKey.Accounted (g : GuardedKey V R) (s : Callers g.backend)
    (given : List (Given V)) (n : Nat) : Prop where
  entered : ∀ c, s.caller n = some c → c.entered = true → (n, .did .entered) ∈ s.log
  early : ∀ c, s.caller n = some c → c.use.opening ≠ none → (n, .did .entered) ∉ s.log
  marks : ∀ c result, s.caller n = some c → c.use.toMark = some result → (some n, result) ∈ given
  own : ∀ result, (some n, result) ∈ given → (n, .did .entered) ∈ s.log
  gone : ∀ outcome, (n, .ended outcome) ∈ s.log → s.caller n = none
  origin : ∀ result, (n, .ended (.ok result)) ∈ s.log → g.Origin s given n result

/-- What a run keeps. -/
structure GuardedKey.Honest (g : GuardedKey V R) (s : Callers g.backend)
    (given : List (Given V)) : Prop where
  ordered : s.Ordered
  shown : ∀ v, g.backend.shown s.store s.now g.key = some v →
    ∃ source w, (source, some w) ∈ given ∧ g.backend.Recorded w v
  uses : ∀ n, g.Accounted s given n

namespace GuardedKey

variable {g : GuardedKey V R} {s s' : Callers g.backend} {a : Activity V}
  {given given' : List (Given V)} {n : Nat}

theorem Origin.mono {result : Option V} (h : g.Origin s given n result)
    (hlog : ∀ note, (n, note) ∈ s'.log ↔ (n, note) ∈ s.log) (hgiven : given ⊆ given') :
    g.Origin s' given' n result := by
  cases h with
  | own hentered hold => exact .own ((hlog _).mpr hentered) (hgiven hold)
  | stored hidle hold hother hrecorded =>
    exact .stored (fun hin => hidle ((hlog _).mp hin)) (hgiven hold) hother hrecorded
  | nothing hidle => exact .nothing fun hin => hidle ((hlog _).mp hin)

theorem Accounted.still (h : g.Accounted s given n)
    (hlog : ∀ note, (n, note) ∈ s'.log ↔ (n, note) ∈ s.log) (hcaller : s'.caller n = s.caller n)
    (hgiven : given ⊆ given') (hown : ∀ result, (some n, result) ∈ given' →
      (some n, result) ∈ given) : g.Accounted s' given' n where
  entered := fun c hc hentered => (hlog _).mpr (h.entered c (hcaller ▸ hc) hentered)
  early := fun c hc hearly hin => h.early c (hcaller ▸ hc) hearly ((hlog _).mp hin)
  marks := fun c result hc hmark => hgiven (h.marks c result (hcaller ▸ hc) hmark)
  own := fun result hin => (hlog _).mpr (h.own result (hown result hin))
  gone := fun outcome hin => hcaller.trans (h.gone outcome ((hlog _).mp hin))
  origin := fun result hin => (h.origin result ((hlog _).mp hin)).mono hlog hgiven

theorem Accounted.other {k : Nat} {notes : List (Note V)} (h : g.Accounted s given k)
    (hmoved : s.Moved s' n notes) (hne : k ≠ n) (results : List (Option V)) :
    g.Accounted s' (results.map (some n, ·) ++ given) k := by
  apply h.still _ (hmoved.other k hne) (List.subset_append_right _ _)
  · intro result hin
    rcases List.mem_append.mp hin with hin | hin
    · obtain ⟨result', -, heq⟩ := List.mem_map.mp hin
      exact absurd (Option.some.inj (congrArg Prod.fst heq)).symm hne
    · exact hin
  · intro note
    rw [hmoved.mem_log]
    simp [hne]

/-! ### A use that starts -/

theorem Honest.start (h : g.Honest s given) {use : Use V}
    (hstatus : use.opening = some .getStatus) :
    g.Honest (s.start use) given := by
  refine ⟨h.ordered.start use, h.shown, fun k => ?_⟩
  rcases eq_or_ne k s.calls with rfl | hne
  · have hnone : ∀ note, (s.calls, note) ∉ s.log :=
      fun note hin => Nat.lt_irrefl _ (h.ordered.logged _ hin)
    have hcaller : ∀ {c}, (s.start use).caller s.calls = some c →
        c.use = use ∧ c.entered = false := by
      intro c hc
      obtain rfl := Option.some.inj ((Callers.setCaller_self s _ _).symm.trans hc)
      exact ⟨rfl, rfl⟩
    refine ⟨?_, fun c _ _ => hnone _, ?_, (h.uses s.calls).own, fun _ hin => absurd hin (hnone _),
      fun _ hin => absurd hin (hnone _)⟩
    · intro c hc hentered
      rw [(hcaller hc).2] at hentered
      simp at hentered
    · intro c result hc hmark
      rw [(hcaller hc).1] at hmark
      cases (Use.toMark_of_opening hstatus).symm.trans hmark
  · exact (h.uses k).other (Callers.moved_start s use) hne []

/-! ### A use that starts its work -/

theorem Honest.enter (h : g.Honest s given) {c : Caller V} (hc : s.caller n = some c)
    (hwork : c.use.atWork = true) (hentered : c.entered = false) :
    g.Honest ((s.note n [.did .entered]).setCaller n (some { c with entered := true })) given := by
  have hmoved := Callers.moved_note s n [.did .entered] (some { c with entered := true })
  have hself := Callers.setCaller_self (s.note n [.did .entered]) n
    (some { c with entered := true })
  refine ⟨ordered_step h.ordered (.enter hc hwork hentered), h.shown, fun k => ?_⟩
  rcases eq_or_ne k n with rfl | hne
  · have hn := h.uses k
    have hin := hmoved.mem_log.mpr (.inl ⟨rfl, List.mem_singleton_self (Note.did .entered)⟩)
    have hend : ∀ outcome, (k, .ended outcome) ∉
        ((s.note k [.did .entered]).setCaller k (some { c with entered := true })).log := by
      intro outcome hmem
      rcases hmoved.mem_log.mp hmem with ⟨-, hnote⟩ | hold
      · cases List.mem_singleton.mp hnote
      · rw [hn.gone outcome hold] at hc
        simp at hc
    refine ⟨fun _ _ _ => hin, ?_, ?_, fun _ _ => hin, fun _ hmem => absurd hmem (hend _),
      fun _ hmem => absurd hmem (hend _)⟩
    · intro c' hc' hearly
      obtain rfl := Option.some.inj (hself.symm.trans hc')
      exact absurd (Use.opening_of_atWork hwork) hearly
    · intro c' result hc' hmark
      obtain rfl := Option.some.inj (hself.symm.trans hc')
      exact hn.marks c result hc hmark
  · exact (h.uses k).other hmoved hne []

end GuardedKey

/-! ### A use whose call ends -/

theorem UseNext.mem_notes {next : UseNext V} {note : Note V} (h : note ∈ next.notes) :
    ∃ outcome, next = .ended outcome ∧ note = .ended outcome := by
  cases next with
  | awaits use => cases h
  | ended outcome => exact ⟨outcome, rfl, List.mem_singleton.mp h⟩

theorem Call.mem_findings {first : Bool} {found : Option Cell} {call : Call V}
    {reply : Except Exc call.Reply} {note : Note V} (h : note ∈ call.findings first found reply) :
    (∃ existing, note = .looked existing) ∨ ∃ found, note = .refused found := by
  cases call with
  | claim m =>
    rcases reply with e | claimed
    · cases h
    · simp only [findings] at h
      split at h
      · exact .inr ⟨found, List.mem_singleton.mp h⟩
      · cases h
  | getStatus m =>
    rcases reply with e | existing
    · cases h
    · exact .inl ⟨existing, List.mem_singleton.mp h⟩
  | _ => rcases reply with e | r <;> cases h

theorem Caller.mem_notes {key : String} {found : Option Cell} {lease : Int} {applied : Bool}
    {c : Caller V} {reply : Except Exc (c.use.callOf key).Reply} {note : Note V}
    (h : note ∈ c.notes key found lease applied reply) :
    note ≠ .did .entered ∧
      ∀ outcome, note = .ended outcome → c.use.resume key reply = .ended outcome := by
  unfold notes at h
  rw [List.mem_append, List.mem_append] at h
  rcases h with hnext | hevent | hfound
  · obtain ⟨outcome, hended, rfl⟩ := UseNext.mem_notes hnext
    exact ⟨nofun, fun _ heq => Note.ended.inj heq ▸ hended⟩
  · obtain ⟨event, hmem, rfl⟩ := List.mem_map.mp hevent
    refine ⟨?_, nofun⟩
    rintro ⟨⟩
    exact Call.not_entered _ _ _ _ hmem
  · rcases Call.mem_findings hfound with ⟨existing, rfl⟩ | ⟨found, rfl⟩ <;> exact ⟨nofun, nofun⟩

namespace GuardedKey

variable {g : GuardedKey V R} {s s' : Callers g.backend} {a : Activity V}
  {given given' : List (Given V)} {n : Nat} {c : Caller V} {outcome : Outcome V}

theorem given_act (hc : s.caller n = some c) : g.given s (.act n outcome) =
    (if c.use.atWork then outcome.returned else []).map (some n, ·) := by
  simp only [GuardedKey.given, hc, Option.any_some]
  split <;> rfl

theorem mem_given_act (hc : s.caller n = some c) {result : Option V}
    (h : (some n, result) ∈ g.given s (.act n outcome)) : c.use.atWork = true := by
  rw [given_act hc] at h
  by_contra hidle
  rw [if_neg hidle] at h
  cases h

/-! #### The accounts of the use, one by one -/

theorem entered_acted :
    (n, .did .entered) ∈ (g.acted s n c outcome).log ↔ (n, .did .entered) ∈ s.log := by
  rw [(moved_acted s n c outcome).mem_log]
  refine ⟨?_, .inr⟩
  rintro (⟨-, hnote⟩ | hold)
  · exact absurd rfl (Caller.mem_notes hnote).1
  · exact hold

theorem ended_acted (h : g.Accounted s given n) (hc : s.caller n = some c)
    {outcome' : Except Exc (Option V)}
    (hmem : (n, .ended outcome') ∈ (g.acted s n c outcome).log) :
    c.use.resume g.key (g.backend.answer s.store s.now (c.use.callOf g.key) outcome).2 =
      .ended outcome' := by
  rcases (moved_acted s n c outcome).mem_log.mp hmem with ⟨-, hnote⟩ | hold
  · exact (Caller.mem_notes hnote).2 _ rfl
  · cases (h.gone _ hold).symm.trans hc

theorem Accounted.early_acted (h : g.Accounted s given n) (hc : s.caller n = some c)
    (hearly : c.use.opening ≠ none) : (n, .did .entered) ∉ (g.acted s n c outcome).log :=
  fun hin => h.early c hc hearly (entered_acted.mp hin)

theorem Accounted.own_acted (h : g.Accounted s given n) (hc : s.caller n = some c)
    (hentered : c.use.atWork = true → c.entered = true) (result : Option V)
    (hin : (some n, result) ∈ g.given s (.act n outcome) ++ given) :
    (n, .did .entered) ∈ (g.acted s n c outcome).log := by
  rw [entered_acted]
  rcases List.mem_append.mp hin with hnew | hold
  · exact h.entered c hc (hentered (mem_given_act hc hnew))
  · exact h.own result hold

theorem marks_acted (hc : s.caller n = some c) {c' : Caller V} {result : Option V}
    (hc' : (g.acted s n c outcome).caller n = some c') (hmark : c'.use.toMark = some result) :
    (some n, result) ∈ g.given s (.act n outcome) ++ given := by
  cases acted_onward hc' with
  | looked hstatus hdone hshown hclaim => cases (Use.toMark_of_opening hclaim).symm.trans hmark
  | goesOn hopening hnone => cases hnone.symm.trans hmark
  | returned hwork hdone hopening hresult =>
    obtain rfl := Option.some.inj (hresult.symm.trans hmark)
    apply List.mem_append_left
    rw [given_act hc, if_pos hwork, hdone]
    exact List.mem_singleton_self _

theorem Honest.origin_acted (h : g.Honest s given) (hc : s.caller n = some c)
    (hentered : c.use.atWork = true → c.entered = true) {result : Option V}
    (hmem : (n, .ended (.ok result)) ∈ (g.acted s n c outcome).log) :
    g.Origin (g.acted s n c outcome) (g.given s (.act n outcome) ++ given) n result := by
  have hn := h.uses n
  have honward : c.use.Onward (g.backend.store.getStatus s.store s.now g.key) outcome
      (.ended (.ok result)) := ended_acted hn hc hmem ▸ c.use.onward
  generalize hresult : (Except.ok result : Except Exc (Option V)) = o at honward
  cases honward with
  | raised => cases hresult
  | refused hclaim =>
    obtain rfl := Except.ok.inj hresult
    exact .nothing (hn.early_acted hc (by simp [hclaim]))
  | marked hmark =>
    obtain rfl := Except.ok.inj hresult
    have hgiven := List.mem_append_right (g.given s (.act n outcome)) (hn.marks c _ hc hmark)
    exact .own (hn.own_acted hc hentered _ hgiven) hgiven
  | @served record hstatus hshown =>
    obtain rfl := Except.ok.inj hresult
    have hquiet : (n, .did .entered) ∉ (g.acted s n c outcome).log :=
      hn.early_acted hc (by simp [hstatus])
    cases hv : record.result with
    | none => exact .nothing hquiet
    | some v =>
      obtain ⟨source, w, hsource, hrecorded⟩ := h.shown v (by
        unfold Backend.shown
        rw [hshown]
        exact hv)
      have hgiven := List.mem_append_right (g.given s (.act n outcome)) hsource
      refine .stored hquiet hgiven ?_ hrecorded
      rintro rfl
      exact hquiet (hn.own_acted hc hentered _ hgiven)

theorem Honest.accounted_acted (h : g.Honest s given) (hc : s.caller n = some c)
    (hentered : c.use.atWork = true → c.entered = true) :
    g.Accounted (g.acted s n c outcome) (g.given s (.act n outcome) ++ given) n where
  entered := by
    intro c' hc' htrue
    have hnext := UseNext.caller_eq ((acted_caller s n c outcome).symm.trans hc')
    cases hnext.2.symm.trans htrue
  early := by
    intro c' hc' hearly
    cases acted_onward hc' with
    | looked hstatus => exact (h.uses n).early_acted hc (by simp [hstatus])
    | returned hwork hdone hopening => exact absurd hopening hearly
    | goesOn hopening => exact absurd hopening hearly
  marks := fun c' result hc' hmark => marks_acted hc hc' hmark
  own := (h.uses n).own_acted hc hentered
  gone := by
    intro outcome' hmem
    rw [acted_caller, ended_acted (h.uses n) hc hmem]
    rfl
  origin := fun result hmem => h.origin_acted hc hentered hmem

end GuardedKey

/-! ### What the key shows -/

theorem Use.toMark_of_callOf {use : Use V} {key m : String} {result : Option V}
    (h : use.callOf key = .markCompleted m result) : use.toMark = some result := by
  cases use with
  | block payload pc =>
    cases pc with
    | markCompleted value => exact congrArg some (Call.markCompleted.inj h).2
    | _ => cases h
  | decorated self arguments pc =>
    cases pc with
    | markCompleted value => exact congrArg some (Call.markCompleted.inj h).2
    | _ => cases h

namespace GuardedKey

variable {g : GuardedKey V R} {s s' : Callers g.backend} {a : Activity V}
  {given : List (Given V)} {n : Nat} {c : Caller V} {outcome : Outcome V}

theorem Honest.act (h : g.Honest s given) (hc : s.caller n = some c)
    (hentered : c.use.atWork = true → c.entered = true) :
    g.Honest (g.acted s n c outcome) (g.given s (.act n outcome) ++ given) where
  ordered := ordered_step h.ordered (.act outcome hc hentered)
  shown := by
    intro v hv
    rcases Backend.answer_shownFrom (c.use.callOf g.key) outcome v hv with
      hshown | ⟨w, hw, hrecorded⟩
    · obtain ⟨source, w, hin, hrecorded⟩ := h.shown v hshown
      exact ⟨source, w, List.mem_append_right _ hin, hrecorded⟩
    · have hgiven := (h.uses n).marks c _ hc (Use.toMark_of_callOf (Call.eq_of_marks hw))
      exact ⟨some n, w, List.mem_append_right _ hgiven, hrecorded⟩
  uses := by
    intro k
    rcases eq_or_ne k n with rfl | hne
    · exact h.accounted_acted hc hentered
    · rw [given_act hc]
      exact (h.uses k).other (moved_acted s n c outcome) hne _

theorem Honest.others (h : g.Honest s given) (op : StoreOp V) :
    g.Honest { s with store := g.backend.store.after s.store s.now op }
      (g.given s (.others op) ++ given) where
  ordered := ordered_step h.ordered (.others op)
  shown := by
    intro v hv
    rcases Backend.after_shownFrom op v hv with hshown | ⟨w, hw, hrecorded⟩
    · obtain ⟨source, w, hin, hrecorded⟩ := h.shown v hshown
      exact ⟨source, w, List.mem_append_right _ hin, hrecorded⟩
    · refine ⟨none, w, List.mem_append_left _ ?_, hrecorded⟩
      simp only [GuardedKey.given, hw, Option.toList_some, List.map_cons, List.map_nil]
      exact List.mem_singleton_self _
  uses := by
    intro k
    refine (h.uses k).still (fun _ => Iff.rfl) ?_ (List.subset_append_right _ _) ?_
    · rfl
    intro result hin
    rcases List.mem_append.mp hin with hin | hin
    · obtain ⟨value, -, heq⟩ := List.mem_map.mp hin
      cases congrArg Prod.fst heq
    · exact hin

theorem Honest.step (h : g.Honest s given) (hstep : g.Stepped s a s') :
    g.Honest s' (g.given s a ++ given) := by
  cases hstep with
  | tick d =>
    refine ⟨ordered_step h.ordered (.tick d), fun v hv => ?_, fun k => ?_⟩
    · have hle : s.now ≤ s.now + d := by omega
      exact h.shown v (Backend.shown_later hle hv)
    · exact (h.uses k).still (fun _ => Iff.rfl) rfl (List.Subset.refl _) fun _ => id
  | block payload => exact h.start rfl
  | call self arguments hkey => exact h.start rfl
  | enter hc hwork hentered => exact h.enter hc hwork hentered
  | act outcome hc hentered => exact h.act hc hentered
  | others op => exact h.others op

theorem Honest.startState {now : Int} {store : g.backend.State}
    (hnone : g.cell (startState g now store) = none) : g.Honest (startState g now store) [] where
  ordered := by
    refine ⟨fun _ _ => rfl, fun _ he => absurd he List.not_mem_nil, ?_⟩
    intro n c hc
    simp [GuardedKey.startState] at hc
  shown := by
    intro v hv
    have hshown := Backend.shown_of_cell_none hnone
    rw [hshown] at hv
    simp at hv
  uses := by
    intro n
    have hidle : ∀ c, (GuardedKey.startState g now store).caller n ≠ some c := by
      intro c hc
      simp [GuardedKey.startState] at hc
    exact ⟨fun c hc => absurd hc (hidle c), fun c hc => absurd hc (hidle c),
      fun c _ hc => absurd hc (hidle c), fun _ hin => absurd hin List.not_mem_nil,
      fun _ hin => absurd hin List.not_mem_nil, fun _ hin => absurd hin List.not_mem_nil⟩

theorem honest_of_reach {given : List (Given V)}
    (h : Reach (g.system.recording g.given) (s, given)) : g.Honest s given := by
  refine h.invariant (fun t => g.Honest t.1 t.2) ?_ ?_
  · rintro ⟨s, given⟩ ⟨⟨now, store, rfl, hnone⟩, rfl⟩
    exact .startState hnone
  · rintro ⟨s, given⟩ a ⟨s', given'⟩ - hs ⟨hexec, rfl⟩
    exact hs.step (stepped hexec)

end GuardedKey

theorem Callers.mem_answers {backend : Backend V R} {s : Callers backend} {n : Nat}
    {result : Option V} : (n, result) ∈ s.answers ↔ (n, .ended (.ok result)) ∈ s.log := by
  unfold answers
  rw [List.mem_filterMap]
  constructor
  · rintro ⟨⟨k, note⟩, hin, heq⟩
    obtain ⟨value, hvalue, heq⟩ := Option.map_eq_some_iff.mp heq
    obtain ⟨rfl, rfl⟩ := Prod.mk.inj heq
    cases note with
    | ended outcome =>
      cases outcome with
      | ok value' =>
        obtain rfl := Option.some.inj hvalue
        exact hin
      | error exc => cases hvalue
    | _ => cases hvalue
  · exact fun hin => ⟨_, hin, rfl⟩

/-- Every answer is real, in every run of guarded blocks and decorated calls on one key: with
calls that fail or are carried out and raise all the same, records that expire, and other callers
that mark, fail or delete the key. -/
theorem GuardedKey.answers_real (g : GuardedKey V R) {s : Callers g.backend}
    {given : List (Given V)} (h : Reach (g.system.recording g.given) (s, given)) :
    ∀ e ∈ s.answers, g.Origin s given e.1 e.2 := by
  rintro ⟨n, result⟩ hin
  exact ((honest_of_reach h).uses n).origin result (Callers.mem_answers.mp hin)

/-! ## A run -/

/-- A codec of booleans. -/
def boolCodec : ResultCodec Bool Bool where
  dumps := fun b => .ok (if b then "true" else "false")
  cjson := fun text => .ok (decide (text = "true"))
  loads := some

/-- A key on Redis. -/
def sharedKey (config : DeduplicationConfig) : GuardedKey Bool Bool where
  py := bareRuntime
  backend := .redis config boolCodec
  key := "order-1"

/-- A block works and stores its result, although the store raises after it. A decorated call is
given that result, and a second block is refused while a third call works on the key. -/
def sharedUses : List (Activity Bool) :=
  let call : Activity Bool := .call ⟨none, none⟩ ⟨[.str "order-1"], []⟩
  [.block (.json .null), .act 0 (.done none), .act 0 (.done none), .enter 0,
    .act 0 (.done (some true)), .act 0 (.raised handlerError true),
    call, .act 1 (.done none), .others (.delete "order-1"),
    call, .block (.json .null), .act 2 (.done none), .act 3 (.done none), .act 2 (.done none),
    .act 3 (.done none), .enter 2, .act 2 (.done (some false)), .act 2 (.done none)]

theorem GuardedKey.answers_real_shared :
    let g := sharedKey {}
    ∃ s given, Reach (g.system.recording g.given) (s, given) ∧
      s.answers = [(2, some false), (3, none), (1, some true)] ∧
      ∀ e ∈ s.answers, g.Origin s given e.1 e.2 := by
  intro g
  have hrun : (replay g.exec (fun _ _ => true) (g.startState 0 g.backend.empty) sharedUses).any
      (fun s => decide (s.answers = [(2, some false), (3, none), (1, some true)])) = true := by
    decide +kernel
  obtain ⟨s, hs, hanswers⟩ := (Option.any_eq_true _ _).mp hrun
  have hstart : Reach (g.system.guard fun _ _ => True) (g.startState 0 g.backend.empty) :=
    .init ⟨0, g.backend.empty, rfl, rfl⟩
  have hr := (Transition.reach_replay (fun _ => True) (fun _ _ _ _ _ _ => ⟨trivial, trivial⟩)
    hstart trivial hs).1
  obtain ⟨given, hgiven⟩ := hr.of_guard.recorded g.given
  exact ⟨s, given, hgiven, of_decide_eq_true hanswers, GuardedKey.answers_real g hgiven⟩

end MessageDedup
