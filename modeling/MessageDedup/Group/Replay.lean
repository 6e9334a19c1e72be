import MessageDedup.Group.Ownership

/-!
# Replaying a run

A list of actions of the first `k` consumers is a run when each of them is enabled and passes a
check. What a check may ask of all consumers it asks of the first `k`.
-/

namespace MessageDedup

open Transition (Reach replay)

variable {V R : Type}

def Action.actor : Action V → Option ConsumerId
  | .tick _ => none
  | .assign _ c | .poll c _ | .enter c | .act c _ | .crash c => some c

/-- All consumers from `k` on are idle. -/
def State.Quiet {backend : Backend V R} (k : Nat) (s : State backend) : Prop :=
  ∀ c, k ≤ c → s.consumer c = .idle

def Life.Quiet (k : Nat) (s : Life) : Prop := ∀ c, k ≤ c → s.task c = none

theorem Life.both_of_checks {k : Nat} {check check' : Life → Label → Bool}
    {ok ok' : Life → Label → Prop}
    (h : ∀ s label, s.Quiet k → check s label = true → ok s label)
    (h' : ∀ s label, s.Quiet k → check' s label = true → ok' s label) (s : Life) (label : Label)
    (hq : s.Quiet k) (hboth : (check s label && check' s label) = true) :
    ok s label ∧ ok' s label := by
  rw [Bool.and_eq_true] at hboth
  exact ⟨h s label hq hboth.1, h' s label hq hboth.2⟩

namespace Group

variable {g : Group V R} {m : MessageId}

theorem land_other {s : State g.backend} {c c' : ConsumerId} (h : c' ≠ c)
    (delivery : Pc V → Delivery V) (next : Next V) :
    (s.land c delivery next).consumer c' = s.consumer c' := by
  cases next <;> exact Function.update_of_ne h _ _

theorem exec_other {s s' : State g.backend} {a : Action V} (hs : g.exec s a = some s')
    {c : ConsumerId} (h : a.actor ≠ some c) : s'.consumer c = s.consumer c := by
  have hne : ∀ {c'}, a.actor = some c' → c ≠ c' := fun ha e => h (e ▸ ha)
  cases a with
  | tick d =>
    obtain rfl := Option.some.inj hs
    rfl
  | assign p c' =>
    simp only [exec, assign] at hs
    split at hs
    · obtain rfl := Option.some.inj hs
      rfl
    · simp at hs
  | poll c' p =>
    simp only [exec, poll] at hs
    split at hs
    · split at hs
      · obtain rfl := Option.some.inj hs
        exact land_other (hne rfl) _ _
      · simp at hs
    · simp at hs
  | enter c' =>
    simp only [exec, enter] at hs
    split at hs
    · split at hs
      · obtain rfl := Option.some.inj hs
        exact Function.update_of_ne (hne rfl) _ _
      · simp at hs
    · simp at hs
  | act c' outcome =>
    simp only [exec, act] at hs
    split at hs
    · split at hs
      · simp at hs
      · obtain rfl := Option.some.inj hs
        unfold acted
        rw [land_other (hne rfl)]
        split <;> rfl
    · simp at hs
  | crash c' =>
    simp only [exec, crash] at hs
    split at hs
    · simp at hs
    · obtain rfl := Option.some.inj hs
      exact Function.update_of_ne (hne rfl) _ _

/-- A check of the steps that concern `m`, of actions of the first `k` consumers only. -/
def checked (g : Group V R) (m : MessageId) (k : Nat) (check : Life → Label → Bool)
    (s : State g.backend) (a : Action V) : Bool :=
  a.actor.all (· < k) && (g.label m s a).all (check (g.life m s))

theorem life_quiet {k : Nat} {s : State g.backend} (h : s.Quiet k) : (g.life m s).Quiet k := by
  intro c hk
  simp [life, h c hk, Local.task]

theorem during_of_checked {ok : Life → Label → Prop} {k : Nat} {check : Life → Label → Bool}
    (himp : ∀ s label, s.Quiet k → check s label = true → ok s label) {s : State g.backend}
    {a : Action V} (hq : s.Quiet k) (hc : g.checked m k check s a = true) :
    g.during m ok s a := by
  simp only [checked, Bool.and_eq_true, Option.all_eq_true] at hc
  intro b hb
  exact himp _ _ (life_quiet hq) (hc.2 b hb)

theorem quiet_step {k : Nat} {check : Life → Label → Bool} {s s' : State g.backend}
    {a : Action V} (hq : s.Quiet k) (hc : g.checked m k check s a = true)
    (hs : g.exec s a = some s') : s'.Quiet k := by
  simp only [checked, Bool.and_eq_true, Option.all_eq_true] at hc
  intro c hk
  rw [exec_other hs]
  · exact hq c hk
  · intro ha
    have hlt := of_decide_eq_true (hc.1 c ha)
    omega

theorem reach_replay_on {ok : Life → Label → Prop} {k : Nat} {check : Life → Label → Bool}
    (himp : ∀ s label, s.Quiet k → check s label = true → ok s label)
    {init : State g.backend → Prop} {s₀ s : State g.backend}
    (h₀ : Reach ((Transition.ofExec init g.exec).guard (g.during m ok)) s₀) (hq₀ : s₀.Quiet k)
    {as : List (Action V)} (h : replay g.exec (g.checked m k check) s₀ as = some s) :
    Reach ((Transition.ofExec init g.exec).guard (g.during m ok)) s ∧ s.Quiet k := by
  refine Transition.reach_replay (State.Quiet k) ?_ h₀ hq₀ h
  intro s a s' hq hc hs
  exact ⟨during_of_checked himp hq hc, quiet_step hq hc hs⟩

theorem reach_replay {ok : Life → Label → Prop} {k : Nat} {check : Life → Label → Bool}
    (himp : ∀ s label, s.Quiet k → check s label = true → ok s label) {now : Int}
    {store : g.backend.State} (hnone : g.backend.store.cell store now m = none)
    {as : List (Action V)} {s : State g.backend}
    (h : replay g.exec (g.checked m k check) (g.startState now store) as = some s) :
    Reach ((g.system m).guard (g.during m ok)) s ∧ (g.life m s).Quiet k := by
  have h₀ : Reach ((g.system m).guard (g.during m ok)) (g.startState now store) :=
    .init ⟨now, store, rfl, hnone⟩
  obtain ⟨hr, hq⟩ := reach_replay_on himp h₀ (fun _ _ => rfl) h
  exact ⟨hr, life_quiet hq⟩

end Group

/-! ## Checks -/

def Phase.isRunning : Phase → Bool
  | .running _ => true
  | _ => false

theorem Phase.running_of_isRunning {phase : Phase} (h : phase.isRunning = true) :
    ∃ attempts, phase = .running attempts := by
  cases phase with
  | running attempts => exact ⟨attempts, rfl⟩
  | _ => cases h

namespace Life

variable {k : Nat} {s : Life} {label : Label}

def tasks (k : Nat) (s : Life) : List Task := (List.range k).filterMap s.task

theorem mem_tasks (hq : s.Quiet k) {c : ConsumerId} {t : Task} (ht : s.task c = some t) :
    t ∈ s.tasks k := by
  have hc : c < k := by
    by_contra hle
    rw [hq c (Nat.le_of_not_lt hle)] at ht
    simp at ht
  exact List.mem_filterMap.mpr ⟨c, List.mem_range.mpr hc, ht⟩

theorem idle_of_tasks (hq : s.Quiet k) (h : s.tasks k = []) (c : ConsumerId) :
    s.task c = none := by
  cases ht : s.task c with
  | none => rfl
  | some t =>
    have hmem := mem_tasks hq ht
    rw [h] at hmem
    simp at hmem

def happened (s : Life) (event : Event) : Bool := s.trace.any fun e => e.2 = event

theorem happened_iff {event : Event} : s.Happened event ↔ s.happened event = true := by
  simp only [happened, List.any_eq_true, decide_eq_true_eq]
  constructor
  · rintro ⟨n, hn⟩
    exact ⟨_, hn, rfl⟩
  · rintro ⟨⟨n, _⟩, hmem, rfl⟩
    exact ⟨n, hmem⟩

def isCalm (k : Nat) (s : Life) (label : Label) : Bool :=
  (s.tasks k).all (fun t => !decide t.phase.Holds || decide (s.now < t.lease)) &&
    match label with
    | .tick _ expired => !expired
    | _ => true

theorem calm_of_isCalm (hq : s.Quiet k) (h : s.isCalm k label = true) : s.Calm label := by
  simp only [isCalm, Bool.and_eq_true, List.all_eq_true] at h
  refine ⟨fun c t ht hh => ?_, ?_⟩
  · have := h.1 t (mem_tasks hq ht)
    simpa [hh] using this
  · rintro d rfl
    simp at h

end Life

/-! ## A small group -/

/-- A group in which every record is empty but for its id. -/
def smallGroup (backend : Backend Unit Unit) (self : DedupConsumer) (m : MessageId) :
    Group Unit Unit where
  py := bareRuntime
  backend := backend
  consumers := fun _ => self
  log := fun p o => ⟨"orders", p, o, none, none, [("X-Message-Id", some (encode m))]⟩

def kafkaTimeout : Exc := ⟨.exception "KafkaTimeoutError", "KafkaTimeoutError"⟩

def sampleId : MessageId := ⟨"order-1712000000000-001", by decide⟩

theorem smallGroup_decodes (backend : Backend Unit Unit) (self : DedupConsumer) (m : MessageId)
    (p o : Nat) : ∃ payload,
      decodePayload (smallGroup backend self m).py ((smallGroup backend self m).log p o) =
        .ok payload :=
  ⟨_, rfl⟩

end MessageDedup
