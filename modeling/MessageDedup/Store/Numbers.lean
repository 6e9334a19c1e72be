import MessageDedup.Python
import MessageDedup.Lib.Rounding

/-!
# The numbers of the scripts

Lua computes with doubles, and `cjson` writes them with 14 digits. Numbers are integers here: a
double is held as the integer that it equals.
-/

namespace MessageDedup

/-- A number as it is written, with its value. -/
inductive Numeral where
  | digits (n : Int)
  | exponent (n : Int)
  deriving DecidableEq

def Numeral.value : Numeral → Int
  | .digits n => n
  | .exponent n => n

/-- The double nearest to `n`, where it is finite. -/
def double (n : Int) : Int := Rounding.roundInt 2 53 n

def maxExponent : Nat := 1024

def isFinite (d : Int) : Prop := d.natAbs < 2 ^ maxExponent

instance (d : Int) : Decidable (isFinite d) := inferInstanceAs (Decidable (_ < _))

/-- `%.14g` -/
def writeNumber (d : Int) : Numeral :=
  let n := Rounding.roundInt 10 14 d
  if n.natAbs < 10 ^ 14 then .digits n else .exponent n

/-- `json.loads` of a number: an `int`, or the `float` nearest to it. -/
def readNumber : Numeral → Int
  | .digits n => n
  | .exponent n => double n

def invalidNumber : Exc where
  kind := .exception "ResponseError"
  text := "Cannot serialise number: must not be NaN or Inf"

/-! ## What comes back -/

/-- An integer that is the double nearest to a decimal of at most 14 digits. -/
def Representable (n : Int) : Prop :=
  isFinite n ∧ ∃ x : Int, Rounding.Fits 10 14 x.natAbs ∧ n = double x

theorem double_of_lt {n : Int} (h : n.natAbs < 10 ^ 14) : double n = n :=
  (Rounding.fits_of_lt (lt_trans h (by decide))).roundInt (by decide) (by decide)

theorem representable_of_lt {n : Int} (h : n.natAbs < 10 ^ 14) : Representable n := by
  have hdouble : n.natAbs < 2 ^ 53 := lt_trans h (by decide)
  have hle : 2 ^ 53 ≤ 2 ^ maxExponent := Nat.pow_le_pow_right (by decide) (by decide)
  have hfinite : isFinite n := lt_of_lt_of_le hdouble hle
  exact ⟨hfinite, n, Rounding.fits_of_lt h, (double_of_lt h).symm⟩

theorem representable_of_le {n : Int} (h : n.natAbs ≤ 10 ^ 14) : Representable n := by
  rcases Nat.lt_or_eq_of_le h with hlt | heq
  · exact representable_of_lt hlt
  · have hfits : Rounding.Fits 10 14 n.natAbs := by
      rw [heq]
      exact Rounding.fits_pow (by decide) (by decide) 14
    have hle : 2 ^ 53 ≤ 2 ^ maxExponent := Nat.pow_le_pow_right (by decide) (by decide)
    have hdouble : n.natAbs < 2 ^ 53 := lt_of_le_of_lt h (by decide)
    have hround : double n = n :=
      (Rounding.fits_of_lt hdouble).roundInt (by decide) (by decide)
    exact ⟨lt_of_lt_of_le hdouble hle, n, hfits, hround.symm⟩

theorem double_double (n : Int) : double (double n) = double n :=
  (Rounding.fits_roundInt (by decide) (by decide) n).roundInt (by decide) (by decide)

theorem readNumber_writeNumber (d : Int) :
    readNumber (writeNumber d) = double (Rounding.roundInt 10 14 d) := by
  unfold writeNumber
  by_cases hlt : (Rounding.roundInt 10 14 d).natAbs < 10 ^ 14
  · simp only [hlt, if_true]
    exact (double_of_lt hlt).symm
  · simp only [hlt, if_false]
    rfl

theorem number_preserved_iff (n : Int) :
    (isFinite (double n) ∧ readNumber (writeNumber (double n)) = n) ↔ Representable n := by
  rw [readNumber_writeNumber]
  constructor
  · rintro ⟨hfinite, hback⟩
    have hdouble : double n = n := by
      rw [← hback, double_double]
    rw [hdouble] at hfinite
    exact ⟨hfinite, _, Rounding.fits_roundInt (by decide) (by decide) _, hback.symm⟩
  · rintro ⟨hfinite, x, hx, rfl⟩
    rw [double_double]
    refine ⟨hfinite, congrArg double ?_⟩
    exact Rounding.roundInt_roundInt (by decide) (by decide) (by decide) (by decide) (by decide) hx

/-! ## The expiry of a key -/

/-- Times in Redis have 64 bits. -/
def ValidExpire (nowMs ttlMs : Int) : Prop := 0 < ttlMs ∧ nowMs + ttlMs < 2 ^ 63

instance (nowMs ttlMs : Int) : Decidable (ValidExpire nowMs ttlMs) :=
  inferInstanceAs (Decidable (_ ∧ _))

/-- Which expiry `SET` takes from a script. It comes as text, and up to which number that is an
integer depends on the version of Redis. -/
class RedisServer where
  expires : (nowMs ttlMs : Int) → Bool
  valid : ∀ {nowMs ttlMs}, expires nowMs ttlMs = true → ValidExpire nowMs ttlMs
  small : ∀ {nowMs ttlMs}, ValidExpire nowMs ttlMs → ttlMs < 10 ^ 17 → expires nowMs ttlMs = true

/-- A version that writes a number up to 2^62 as an integer, and a larger one with an exponent. -/
instance redis72 : RedisServer where
  expires nowMs ttlMs := decide (ValidExpire nowMs ttlMs ∧ ttlMs ≤ 2 ^ 62)
  valid h := (of_decide_eq_true h).1
  small h hsmall := decide_eq_true ⟨h, hsmall.le.trans (by decide)⟩

/-! ## A script's numbers -/

/-- What `tonumber` makes of an argument, what a record holds of a number that it is written with,
and which expiry `SET` takes. -/
structure Numbers where
  tonumber : Int → Int
  written : Int → Except Exc Int
  expires : (nowMs ttlMs : Int) → Bool

namespace Numbers

/-- Every integer is held as it is. -/
def exact : Numbers where
  tonumber := id
  written := .ok
  expires nowMs ttlMs := decide (ValidExpire nowMs ttlMs)

@[simp] theorem exact_expires (nowMs ttlMs : Int) :
    exact.expires nowMs ttlMs = decide (ValidExpire nowMs ttlMs) := rfl

variable [RedisServer]

def doubles : Numbers where
  tonumber := double
  written n :=
    if isFinite (double n) then .ok (readNumber (writeNumber (double n)))
    else .error invalidNumber
  expires := RedisServer.expires

theorem expires_of_lt {nowMs ttlMs : Int} (h : ttlMs.natAbs < 10 ^ 14) :
    doubles.expires nowMs ttlMs = exact.expires nowMs ttlMs := by
  rw [Bool.eq_iff_iff, exact_expires, decide_eq_true_iff]
  exact ⟨RedisServer.valid, fun hvalid => RedisServer.small hvalid (by omega)⟩

theorem tonumber_of_lt {n : Int} (h : n.natAbs < 10 ^ 14) : doubles.tonumber n = n := double_of_lt h

theorem written_iff {n : Int} : doubles.written n = .ok n ↔ Representable n := by
  rw [← number_preserved_iff]
  unfold doubles
  by_cases hfinite : isFinite (double n) <;> simp [hfinite]

theorem written_of_finite {n : Int} (h : isFinite (double n)) :
    doubles.written n = .ok (readNumber (writeNumber (double n))) := by
  simp only [doubles, h, if_true]

theorem written_of_lt {n : Int} (h : n.natAbs < 10 ^ 14) : doubles.written n = .ok n :=
  written_iff.mpr (representable_of_lt h)

theorem written_tonumber (n : Int) : doubles.written (doubles.tonumber n) = doubles.written n := by
  simp only [doubles, double_double]

theorem written_eq {n k : Int} (h : doubles.written n = .ok k) :
    isFinite (double n) ∧ k = double (Rounding.roundInt 10 14 (double n)) := by
  unfold doubles at h
  by_cases hfinite : isFinite (double n)
  · simp only [hfinite, if_true, Except.ok.injEq, readNumber_writeNumber] at h
    exact ⟨hfinite, h.symm⟩
  · simp [hfinite] at h

theorem le_written {x n k : Int} (hx : Rounding.Fits 10 14 x.natAbs)
    (hx' : Rounding.Fits 2 53 x.natAbs) (hle : x ≤ n) (h : doubles.written n = .ok k) : x ≤ k := by
  rw [(written_eq h).2]
  have hdouble : x ≤ double n := hx'.le_roundInt (by decide) (by decide) hle
  have hround : x ≤ Rounding.roundInt 10 14 (double n) :=
    hx.le_roundInt (by decide) (by decide) hdouble
  exact hx'.le_roundInt (by decide) (by decide) hround

theorem one_le_tonumber {n : Int} (h : 1 ≤ n) : 1 ≤ doubles.tonumber n :=
  Rounding.Fits.le_roundInt (by decide) (by decide) (Rounding.fits_of_lt (by decide)) h

/-- A written number is below a limit when it is below the limit's double. -/
theorem lt_of_lt_tonumber {n k limit : Int} (h : doubles.written n = .ok k)
    (hlt : k < doubles.tonumber limit) : k < limit := by
  by_contra hge
  have hfits : Rounding.Fits 2 53 k.natAbs := by
    rw [(written_eq h).2]
    exact Rounding.fits_roundInt (by decide) (by decide) _
  have hle : double limit ≤ k := hfits.roundInt_le (by decide) (by decide) (not_lt.mp hge)
  exact absurd hlt (not_lt.mpr hle)

theorem isFinite_succ {n k : Int} (h : doubles.written n = .ok k) : isFinite (double (k + 1)) := by
  obtain ⟨hfinite, rfl⟩ := written_eq h
  generalize double n = d at hfinite
  have hround : (Rounding.roundInt 10 14 d).natAbs ≤
      Rounding.round 10 14 (2 ^ maxExponent - 1) := by
    rw [Rounding.natAbs_roundInt (by decide) (by decide)]
    exact Rounding.round_mono (by decide) (by decide) (Nat.le_sub_one_of_lt hfinite)
  generalize Rounding.roundInt 10 14 d = x at hround ⊢
  have hdouble : (double x).natAbs ≤
      Rounding.round 2 53 (Rounding.round 10 14 (2 ^ maxExponent - 1)) := by
    unfold double
    rw [Rounding.natAbs_roundInt (by decide) (by decide)]
    exact Rounding.round_mono (by decide) (by decide) hround
  have hsucc : (double (double x + 1)).natAbs ≤ Rounding.round 2 53
      (Rounding.round 2 53 (Rounding.round 10 14 (2 ^ maxExponent - 1)) + 1) := by
    rw [double, Rounding.natAbs_roundInt (by decide) (by decide)]
    apply Rounding.round_mono (by decide) (by decide)
    omega
  exact lt_of_le_of_lt hsucc (by decide +kernel)

end Numbers

end MessageDedup
