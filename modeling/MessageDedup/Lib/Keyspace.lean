import Mathlib.Order.Lattice
import Mathlib.Logic.Function.Basic

/-!
# A key-value store whose keys can expire

A key with an expiry time is gone for every reader whose clock is past it. A write sets a new
expiry, or keeps the one that is there.
-/

namespace Keyspace

variable {K V T : Type*}

structure Entry (V T : Type*) where
  value : V
  expireAt : Option T
  deriving DecidableEq

abbrev Keys (K V T : Type*) := K → Option (Entry V T)

section

variable [LinearOrder T]

def Entry.Live (now : T) (entry : Entry V T) : Prop := ∀ t ∈ entry.expireAt, now ≤ t

instance (now : T) (entry : Entry V T) : Decidable (entry.Live now) :=
  match h : entry.expireAt with
  | none => .isTrue (by simp [Entry.Live, h])
  | some t => decidable_of_iff (now ≤ t) (by simp [Entry.Live, h])

/-- The entry that a reader sees at time `now`. -/
def entryAt (keys : Keys K V T) (now : T) (key : K) : Option (Entry V T) :=
  (keys key).filter fun entry => entry.Live now

def get (keys : Keys K V T) (now : T) (key : K) : Option V :=
  (entryAt keys now key).map (·.value)

theorem entryAt_live {keys : Keys K V T} {now : T} {key : K} {entry : Entry V T}
    (h : entryAt keys now key = some entry) : entry.Live now := by
  unfold entryAt at h
  rw [Option.filter_eq_some_iff] at h
  simpa using h.2

theorem get_later (keys : Keys K V T) (key : K) {now t : T} (h : now ≤ t) :
    get keys t key = get keys now key ∨ get keys t key = none := by
  unfold get entryAt
  cases hk : keys key with
  | none => simp
  | some entry =>
    by_cases hlive : entry.Live t
    · have hnow : entry.Live now := fun t' ht' => le_trans h (hlive t' ht')
      left
      simp [Option.filter, hlive, hnow]
    · right
      simp [Option.filter, hlive]

theorem get_earlier {keys : Keys K V T} {key : K} {now t : T} (h : now ≤ t)
    (hlive : get keys t key ≠ none) : get keys now key = get keys t key :=
  ((get_later keys key h).resolve_right hlive).symm

theorem get_congr {keys keys' : Keys K V T} {key : K} (h : keys key = keys' key) (now : T) :
    get keys now key = get keys' now key := by
  unfold get entryAt
  rw [h]

variable [DecidableEq K]

def set (keys : Keys K V T) (key : K) (value : V) (expireAt : Option T) : Keys K V T :=
  Function.update keys key (some ⟨value, expireAt⟩)

def setKeepTtl (keys : Keys K V T) (now : T) (key : K) (value : V) : Keys K V T :=
  set keys key value ((entryAt keys now key).bind (·.expireAt))

def del (keys : Keys K V T) (key : K) : Keys K V T := Function.update keys key none

theorem get_set_self {keys : Keys K V T} {now : T} {key : K} {value : V} {expireAt : Option T}
    (h : ∀ t ∈ expireAt, now ≤ t) : get (set keys key value expireAt) now key = some value := by
  have hlive : Entry.Live now (⟨value, expireAt⟩ : Entry V T) := h
  simp [get, entryAt, set, Option.filter, hlive]

theorem get_setKeepTtl_self (keys : Keys K V T) (now : T) (key : K) (value : V) :
    get (setKeepTtl keys now key value) now key = some value := by
  apply get_set_self
  intro t ht
  cases he : entryAt keys now key with
  | none => simp [he] at ht
  | some entry =>
    rw [he] at ht
    exact entryAt_live he t ht

theorem get_setKeepTtl_later {keys : Keys K V T} {now t : T} {key : K} (h : now ≤ t)
    (hlive : get keys t key ≠ none) (value : V) :
    get (setKeepTtl keys now key value) t key = some value := by
  apply get_set_self
  intro expireAt hexpire
  cases hk : keys key with
  | none => simp [get, entryAt, hk] at hlive
  | some entry =>
    have ht : entry.Live t := by
      by_contra hdead
      simp [get, entryAt, hk, Option.filter, hdead] at hlive
    have hnow : entry.Live now := fun t' ht' => le_trans h (ht t' ht')
    simp only [entryAt, hk, Option.filter, hnow, decide_true, if_true, Option.bind_some] at hexpire
    exact ht _ hexpire

omit [LinearOrder T] in
theorem set_self (keys : Keys K V T) (key : K) (value : V) (expireAt : Option T) :
    set keys key value expireAt key = some ⟨value, expireAt⟩ := Function.update_self _ _ _

theorem setKeepTtl_congr {keys keys' : Keys K V T} {key : K} (h : keys key = keys' key) (now : T)
    (value : V) : setKeepTtl keys now key value key = setKeepTtl keys' now key value key := by
  unfold setKeepTtl entryAt
  rw [set_self, set_self, h]

end

/-! ## Operations on one key -/

/-- An operation that reads and writes one key only. -/
structure OnKey {E A : Type*} (key : K) (f : Keys K V T → Except E (Keys K V T × A)) : Prop where
  frame : ∀ {keys keys' : Keys K V T} {a : A}, f keys = .ok (keys', a) → ∀ k, k ≠ key →
    keys' k = keys k
  congr : ∀ {keys keys' : Keys K V T}, keys key = keys' key →
    (f keys).map (fun r => (r.1 key, r.2)) = (f keys').map fun r => (r.1 key, r.2)

namespace OnKey

variable {E A B : Type*} {key : K} {f : Keys K V T → Except E (Keys K V T × A)}

theorem map (h : OnKey key f) (g : A → B) :
    OnKey key fun keys => (f keys).map fun r => (r.1, g r.2) where
  frame := by
    intro keys keys' b hf k hk
    cases hr : f keys with
    | error e => simp [hr, Except.map] at hf
    | ok r =>
      simp only [hr, Except.map, Except.ok.injEq, Prod.mk.injEq] at hf
      rw [← hf.1]
      exact h.frame hr k hk
  congr := by
    intro keys keys' heq
    have hcongr := h.congr heq
    cases hr : f keys <;> cases hr' : f keys' <;> simp_all [Except.map]

theorem bindConst {x : Except E B} {f : B → Keys K V T → Except E (Keys K V T × A)}
    (h : ∀ b, OnKey key (f b)) : OnKey key fun keys => x.bind fun b => f b keys := by
  cases x with
  | error e => exact ⟨nofun, fun _ => rfl⟩
  | ok b => exact h b

/-- On two states that agree on some keys, the operation gives the same answer, and states that
agree on them. -/
theorem agree (h : OnKey key f) {P : K → Prop} (hkey : P key) {keys keys' : Keys K V T}
    (heq : ∀ k, P k → keys k = keys' k) :
    (∃ e, f keys = .error e ∧ f keys' = .error e) ∨
      ∃ r r', f keys = .ok r ∧ f keys' = .ok r' ∧ r.2 = r'.2 ∧ ∀ k, P k → r.1 k = r'.1 k := by
  have hcongr := h.congr (heq key hkey)
  cases hr : f keys with
  | error e =>
    cases hr' : f keys' with
    | error e' =>
      simp only [hr, hr', Except.map, Except.error.injEq] at hcongr
      exact .inl ⟨e, rfl, by rw [hcongr]⟩
    | ok r' => simp [hr, hr', Except.map] at hcongr
  | ok r =>
    cases hr' : f keys' with
    | error e' => simp [hr, hr', Except.map] at hcongr
    | ok r' =>
      simp only [hr, hr', Except.map, Except.ok.injEq, Prod.mk.injEq] at hcongr
      refine .inr ⟨r, r', rfl, rfl, hcongr.2, fun k hk => ?_⟩
      by_cases hne : k = key
      · rw [hne]
        exact hcongr.1
      · rw [h.frame hr k hne, h.frame hr' k hne]
        exact heq k hk

end OnKey

end Keyspace
