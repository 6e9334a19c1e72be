import Mathlib.Data.Nat.Log
import Mathlib.Tactic.Ring
import Mathlib.Tactic.Linarith

/-!
# Rounding to significant digits

Natural numbers rounded to `p` significant digits in base `b`, to nearest, ties to even, and what
survives when a number goes from one base to another and back.
-/

namespace Rounding

/-- How often `u` goes into the multiple of `u` nearest to `n`; of two, the even one. -/
def nearest (u n : Nat) : Nat :=
  if 2 * (n % u) < u ∨ (2 * (n % u) = u ∧ n / u % 2 = 0) then n / u else n / u + 1

/-- The unit in the last of `p` places of `n`. -/
def ulp (b p n : Nat) : Nat := b ^ (Nat.log b n + 1 - p)

def round (b p n : Nat) : Nat := nearest (ulp b p n) n * ulp b p n

/-- `n` rounded by its magnitude. -/
def roundInt (b p : Nat) (n : Int) : Int := n.sign * round b p n.natAbs

/-- `n` has at most `p` significant digits. -/
def Fits (b p n : Nat) : Prop := ∃ c e, c < b ^ p ∧ n = c * b ^ e

variable {b b' p q n x m u : Nat}

/-! ## The nearest multiple -/

theorem nearest_close (hu : 0 < u) :
    2 * n ≤ 2 * (nearest u n * u) + u ∧ 2 * (nearest u n * u) ≤ 2 * n + u := by
  have hdiv := Nat.div_add_mod n u
  have hmod := Nat.mod_lt n hu
  have hcomm := Nat.mul_comm u (n / u)
  unfold nearest
  split
  · omega
  · have hsucc : (n / u + 1) * u = n / u * u + u := Nat.succ_mul _ _
    omega

theorem nearest_eq (hbelow : 2 * n < 2 * (m * u) + u) (habove : 2 * (m * u) < 2 * n + u) :
    nearest u n = m := by
  have hu : 0 < u := by
    rcases Nat.eq_zero_or_pos u with rfl | hu
    · omega
    · exact hu
  have hdiv := Nat.div_add_mod n u
  have hmod := Nat.mod_lt n hu
  have hcomm := Nat.mul_comm u (n / u)
  have hle : n / u ≤ m := by
    have hlt : n / u * u < (m + 1) * u := by
      rw [Nat.succ_mul]
      omega
    exact Nat.lt_succ_iff.mp (Nat.lt_of_mul_lt_mul_right hlt)
  have hge : m ≤ n / u + 1 := by
    have hlt : m * u < (n / u + 2) * u := by
      rw [Nat.add_mul]
      omega
    exact Nat.lt_succ_iff.mp (Nat.lt_of_mul_lt_mul_right hlt)
  unfold nearest
  rcases Nat.lt_or_ge m (n / u + 1) with hlt | hge'
  · obtain rfl : m = n / u := by omega
    rw [if_pos (by omega)]
  · obtain rfl : m = n / u + 1 := by omega
    have hsucc : (n / u + 1) * u = n / u * u + u := Nat.succ_mul _ _
    rw [if_neg (by omega)]

/-! ## The last place -/

theorem ulp_pos (hb : 2 ≤ b) : 0 < ulp b p n := Nat.pow_pos (by omega)

theorem lt_ulp (hb : 2 ≤ b) : n < b ^ p * ulp b p n := by
  unfold ulp
  rw [← Nat.pow_add]
  have hlog : n < b ^ (Nat.log b n + 1) := Nat.lt_pow_succ_log_self hb n
  exact lt_of_lt_of_le hlog (Nat.pow_le_pow_right (by omega) (by omega))

theorem ulp_mul_le (hb : 2 ≤ b) (hp : 0 < p) (h : b ^ p ≤ n) : ulp b p n * b ^ (p - 1) ≤ n := by
  have hne : n ≠ 0 := by
    have := Nat.pow_pos (n := p) (show 0 < b by omega)
    omega
  have hlog : p ≤ Nat.log b n := Nat.le_log_of_pow_le (by omega) h
  unfold ulp
  rw [← Nat.pow_add, show Nat.log b n + 1 - p + (p - 1) = Nat.log b n by omega]
  exact Nat.pow_log_le_self b hne

/-! ## Rounding -/

theorem fits_of_lt (h : n < b ^ p) : Fits b p n := ⟨n, 0, h, by simp⟩

theorem fits_round (hb : 2 ≤ b) (hp : 0 < p) : Fits b p (round b p n) := by
  have hle : nearest (ulp b p n) n ≤ b ^ p := by
    have hlt : n / ulp b p n < b ^ p := by
      rw [Nat.div_lt_iff_lt_mul (ulp_pos hb)]
      exact lt_ulp hb
    unfold nearest
    split <;> omega
  rcases Nat.lt_or_eq_of_le hle with hlt | heq
  · exact ⟨_, _, hlt, rfl⟩
  · refine ⟨b ^ (p - 1), Nat.log b n + 1 - p + 1, ?_, ?_⟩
    · exact Nat.pow_lt_pow_right (by omega) (by omega)
    · unfold round
      rw [heq, ulp, ← Nat.pow_add, ← Nat.pow_add]
      congr 1
      omega

theorem Fits.multiple (hb : 2 ≤ b) (hp : 0 < p) (hx : Fits b p x)
    (hbelow : b * n < b * x + ulp b p n) : ∃ m, x = m * ulp b p n := by
  obtain ⟨c, e, hc, rfl⟩ := hx
  unfold ulp at *
  rcases Nat.lt_or_ge e (Nat.log b n + 1 - p) with hlt | hge
  · exfalso
    obtain ⟨k, hk⟩ : ∃ k, Nat.log b n + 1 - p = k + 1 := ⟨Nat.log b n - p, by omega⟩
    have hne : n ≠ 0 := by
      rintro rfl
      rw [Nat.log_zero_right] at hk
      omega
    have hpow : b ^ p * b ^ k ≤ n := by
      rw [← Nat.pow_add, show p + k = Nat.log b n by omega]
      exact Nat.pow_log_le_self b hne
    have hstep : c * b ^ e + b ^ k ≤ n := by
      calc c * b ^ e + b ^ k
          ≤ c * b ^ k + b ^ k :=
            Nat.add_le_add_right
              (Nat.mul_le_mul_left _ (Nat.pow_le_pow_right (by omega) (by omega))) _
        _ = (c + 1) * b ^ k := (Nat.succ_mul _ _).symm
        _ ≤ b ^ p * b ^ k := Nat.mul_le_mul_right _ hc
        _ ≤ n := hpow
    have hscaled := Nat.mul_le_mul_left b hstep
    rw [Nat.mul_add, ← Nat.pow_succ', Nat.succ_eq_add_one, ← hk] at hscaled
    omega
  · refine ⟨c * b ^ (e - (Nat.log b n + 1 - p)), ?_⟩
    rw [Nat.mul_assoc, ← Nat.pow_add, Nat.sub_add_cancel hge]

theorem two_mul_lt (hb : 2 ≤ b) (h : b * n < b * x + u) (hu : 0 < u) : 2 * n < 2 * x + u := by
  rcases Nat.le_total n x with hle | hle
  · omega
  · obtain ⟨d, rfl⟩ := Nat.exists_eq_add_of_le hle
    have hd : 2 * d ≤ b * d := Nat.mul_le_mul_right d hb
    rw [Nat.mul_add] at h
    omega

theorem round_eq (hb : 2 ≤ b) (hp : 0 < p) (hx : Fits b p x)
    (hbelow : b * n < b * x + ulp b p n) (habove : b * x < b * n + ulp b p n) :
    round b p n = x := by
  obtain ⟨m, hm⟩ := hx.multiple hb hp hbelow
  have hu : 0 < ulp b p n := ulp_pos hb
  have h := two_mul_lt hb hbelow hu
  have h' := two_mul_lt hb habove hu
  rw [hm] at h h'
  rw [round, nearest_eq h h', ← hm]

theorem Fits.round (hb : 2 ≤ b) (hp : 0 < p) (h : Fits b p n) : round b p n = n := by
  have hu : 0 < ulp b p n := ulp_pos hb
  exact round_eq hb hp h (by omega) (by omega)

/-! ## Rounding and the order -/

theorem nearest_mono {m n : Nat} (h : m ≤ n) : nearest u m ≤ nearest u n := by
  have hdiv : m / u ≤ n / u := Nat.div_le_div_right h
  have hm := Nat.div_add_mod m u
  have hn := Nat.div_add_mod n u
  rcases Nat.lt_or_eq_of_le hdiv with hlt | heq
  · unfold nearest
    split <;> split <;> omega
  · have hmod : m % u ≤ n % u := by
      rw [heq] at hm
      omega
    unfold nearest
    split <;> split <;> omega

theorem div_mul_le_round : n / ulp b p n * ulp b p n ≤ round b p n := by
  unfold round nearest
  split
  · exact le_rfl
  · exact Nat.mul_le_mul_right _ (Nat.le_succ _)

theorem Fits.multiple_or_lt (hb : 2 ≤ b) (hp : 0 < p) (hx : Fits b p x) :
    (∃ m, x = m * ulp b p n) ∨ ∃ m, x < m * ulp b p n ∧ m * ulp b p n ≤ n := by
  obtain ⟨c, e, hc, rfl⟩ := hx
  unfold ulp
  rcases Nat.lt_or_ge e (Nat.log b n + 1 - p) with hlt | hge
  · right
    have hne : n ≠ 0 := by
      rintro rfl
      rw [Nat.log_zero_right] at hlt
      omega
    refine ⟨b ^ (p - 1), ?_, ?_⟩
    · calc c * b ^ e < b ^ p * b ^ e := Nat.mul_lt_mul_of_pos_right hc (Nat.pow_pos (by omega))
        _ ≤ b ^ (p - 1) * b ^ (Nat.log b n + 1 - p) := by
          rw [← Nat.pow_add, ← Nat.pow_add]
          exact Nat.pow_le_pow_right (by omega) (by omega)
    · rw [← Nat.pow_add, show p - 1 + (Nat.log b n + 1 - p) = Nat.log b n by omega]
      exact Nat.pow_log_le_self b hne
  · left
    refine ⟨c * b ^ (e - (Nat.log b n + 1 - p)), ?_⟩
    rw [Nat.mul_assoc, ← Nat.pow_add, Nat.sub_add_cancel hge]

/-- Rounding does not cross a number that stays as it is. -/
theorem Fits.le_round (hb : 2 ≤ b) (hp : 0 < p) (hx : Fits b p x) (hle : x ≤ n) :
    x ≤ Rounding.round b p n := by
  have hbelow : ∀ m, m * ulp b p n ≤ n → m * ulp b p n ≤ Rounding.round b p n := by
    intro m hm
    have hdiv : m ≤ n / ulp b p n := (Nat.le_div_iff_mul_le (ulp_pos hb)).mpr hm
    exact le_trans (Nat.mul_le_mul_right _ hdiv) div_mul_le_round
  rcases hx.multiple_or_lt (n := n) hb hp with ⟨m, rfl⟩ | ⟨m, hlt, hm⟩
  · exact hbelow m hle
  · exact le_trans hlt.le (hbelow m hm)

theorem Fits.round_le (hb : 2 ≤ b) (hp : 0 < p) (hx : Fits b p x) (hle : n ≤ x) :
    Rounding.round b p n ≤ x := by
  rcases hx.multiple_or_lt (n := n) hb hp with ⟨m, rfl⟩ | ⟨m, hlt, hm⟩
  · have hclose : 2 * Rounding.round b p n ≤ 2 * n + ulp b p n := (nearest_close (ulp_pos hb)).2
    have hu : 0 < ulp b p n := ulp_pos hb
    unfold Rounding.round at hclose ⊢
    generalize nearest (ulp b p n) n = k at hclose ⊢
    generalize ulp b p n = u at *
    by_contra hlarge
    have hmk : m + 1 ≤ k := Nat.lt_of_mul_lt_mul_right (not_le.mp hlarge)
    have hscaled := Nat.mul_le_mul_right u hmk
    rw [Nat.add_mul] at hscaled
    omega
  · omega

theorem fits_pow (hb : 2 ≤ b) (hp : 0 < p) (e : Nat) : Fits b p (b ^ e) :=
  ⟨1, e, Nat.one_lt_pow (by omega) (by omega), (one_mul _).symm⟩

theorem round_mono (hb : 2 ≤ b) (hp : 0 < p) {m n : Nat} (h : m ≤ n) :
    round b p m ≤ round b p n := by
  rcases Nat.lt_or_eq_of_le (Nat.log_mono_right (b := b) h) with hlt | heq
  · have hfits : Fits b p (b ^ Nat.log b n) := fits_pow hb hp _
    have hm : m < b ^ Nat.log b n := Nat.lt_pow_of_log_lt (by omega) hlt
    have hn : b ^ Nat.log b n ≤ n := by
      apply Nat.pow_log_le_self
      rintro rfl
      rw [Nat.log_zero_right] at hlt
      omega
    exact (hfits.round_le hb hp hm.le).trans (hfits.le_round hb hp hn)
  · unfold round ulp
    rw [heq]
    exact Nat.mul_le_mul_right _ (nearest_mono h)

/-! ## From one base to another -/

/-- A number with at most `q` digits in base `b'` survives being rounded to `p` digits in base
`b`, when these are enough. -/
theorem round_round (hb : 2 ≤ b) (hb' : 2 ≤ b') (hp : 0 < p) (hq : 0 < q)
    (henough : b' ^ (q + 1) < 2 * b ^ (p - 1)) (hx : Fits b' q x) :
    Rounding.round b' q (Rounding.round b p x) = x := by
  rcases Nat.lt_or_ge x (b ^ p) with hlt | hge
  · rw [(fits_of_lt hlt).round hb hp]
    exact hx.round hb' hq
  · have hclose : 2 * x ≤ 2 * Rounding.round b p x + ulp b p x ∧
        2 * Rounding.round b p x ≤ 2 * x + ulp b p x := nearest_close (ulp_pos hb)
    have hulp := ulp_mul_le hb hp hge
    generalize Rounding.round b p x = n at hclose ⊢
    have hn : n < b' ^ q * ulp b' q n := lt_ulp hb'
    -- An error of half a place of `x` is less than a digit of the last place of `n`.
    have herror : ∀ d, 2 * d ≤ ulp b p x → x ≤ n + d → b' * d < ulp b' q n := by
      intro d hd hxd
      by_contra hlarge
      have hscaled := Nat.mul_le_mul_left (b' ^ q) (not_lt.mp hlarge)
      have hnarrow := Nat.mul_le_mul_right d (Nat.succ_le_of_lt henough)
      have hwide := Nat.mul_le_mul_right (b ^ (p - 1)) hd
      have hless : x < x := by
        calc x ≤ n + d := hxd
          _ < b' ^ q * ulp b' q n + d := Nat.add_lt_add_right hn d
          _ ≤ b' ^ q * (b' * d) + d := Nat.add_le_add_right hscaled d
          _ = (b' ^ (q + 1) + 1) * d := by ring
          _ ≤ 2 * b ^ (p - 1) * d := hnarrow
          _ = 2 * d * b ^ (p - 1) := by ring
          _ ≤ ulp b p x * b ^ (p - 1) := hwide
          _ ≤ x := hulp
      omega
    apply round_eq hb' hq hx
    · rcases Nat.le_total n x with hle | hle
      · have := Nat.mul_le_mul_left b' hle
        have := ulp_pos hb' (p := q) (n := n)
        omega
      · obtain ⟨d, rfl⟩ := Nat.exists_eq_add_of_le hle
        have := herror d (by omega) (by omega)
        rw [Nat.mul_add]
        omega
    · rcases Nat.le_total n x with hle | hle
      · obtain ⟨d, rfl⟩ := Nat.exists_eq_add_of_le hle
        have := herror d (by omega) (by omega)
        rw [Nat.mul_add]
        omega
      · have := Nat.mul_le_mul_left b' hle
        have := ulp_pos hb' (p := q) (n := n)
        omega

/-! ## Integers -/

theorem roundInt_neg (n : Int) : roundInt b p (-n) = -roundInt b p n := by
  simp [roundInt]

theorem roundInt_natCast (hb : 2 ≤ b) (hp : 0 < p) (n : Nat) :
    roundInt b p n = Rounding.round b p n := by
  unfold roundInt
  rcases Nat.eq_zero_or_pos n with rfl | hpos
  · rw [(fits_of_lt (Nat.pow_pos (by omega))).round hb hp]
    simp
  · rw [Int.sign_natCast_of_ne_zero (by omega), Int.natAbs_natCast, one_mul]

theorem natAbs_roundInt (hb : 2 ≤ b) (hp : 0 < p) (n : Int) :
    (roundInt b p n).natAbs = round b p n.natAbs := by
  obtain ⟨k, rfl | rfl⟩ := n.eq_nat_or_neg
  · rw [roundInt_natCast hb hp, Int.natAbs_natCast, Int.natAbs_natCast]
  · rw [roundInt_neg, roundInt_natCast hb hp, Int.natAbs_neg, Int.natAbs_neg, Int.natAbs_natCast,
      Int.natAbs_natCast]

theorem fits_roundInt (hb : 2 ≤ b) (hp : 0 < p) (n : Int) : Fits b p (roundInt b p n).natAbs := by
  rw [natAbs_roundInt hb hp]
  exact fits_round hb hp

theorem Fits.roundInt {n : Int} (hb : 2 ≤ b) (hp : 0 < p) (h : Fits b p n.natAbs) :
    roundInt b p n = n := by
  unfold Rounding.roundInt
  rw [h.round hb hp, Int.sign_mul_natAbs]

theorem roundInt_roundInt (hb : 2 ≤ b) (hb' : 2 ≤ b') (hp : 0 < p) (hq : 0 < q)
    (henough : b' ^ (q + 1) < 2 * b ^ (p - 1)) {x : Int} (hx : Fits b' q x.natAbs) :
    Rounding.roundInt b' q (Rounding.roundInt b p x) = x := by
  obtain ⟨k, rfl | rfl⟩ := x.eq_nat_or_neg
  · rw [roundInt_natCast hb hp, roundInt_natCast hb' hq]
    exact congrArg _ (round_round hb hb' hp hq henough hx)
  · rw [Int.natAbs_neg] at hx
    rw [roundInt_neg, roundInt_neg, roundInt_natCast hb hp, roundInt_natCast hb' hq]
    exact congrArg _ (congrArg _ (round_round hb hb' hp hq henough hx))

theorem Fits.le_roundInt {x n : Int} (hb : 2 ≤ b) (hp : 0 < p) (hx : Fits b p x.natAbs)
    (hle : x ≤ n) : x ≤ Rounding.roundInt b p n := by
  obtain ⟨k, rfl | rfl⟩ := n.eq_nat_or_neg
  · rw [roundInt_natCast hb hp]
    rcases le_total x 0 with hneg | hpos
    · omega
    · have hround := hx.le_round hb hp (n := k) (by omega)
      omega
  · rw [roundInt_neg, roundInt_natCast hb hp]
    have hround := hx.round_le hb hp (n := k) (by omega)
    omega

theorem Fits.roundInt_le {x n : Int} (hb : 2 ≤ b) (hp : 0 < p) (hx : Fits b p x.natAbs)
    (hle : n ≤ x) : Rounding.roundInt b p n ≤ x := by
  have hneg : -x ≤ Rounding.roundInt b p (-n) := by
    apply le_roundInt hb hp
    · rwa [Int.natAbs_neg]
    · omega
  rw [roundInt_neg] at hneg
  omega

end Rounding
