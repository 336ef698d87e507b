import Mathlib.Data.Int.Log
import Mathlib.Data.Rat.Cast.Order
import Mathlib.Data.Rat.Floor
import Mathlib.Tactic.Linarith
import Mathlib.Tactic.Ring

/-!
# Decimal numerals and double precision

A numeral denotes a rational number. A finite IEEE 754 double is one too; reading a numeral as a
double gives the nearest one, `nearest_le`, and writing a double gives the shortest numeral that
reads back as it, `ofDecimal_shortest`.
-/

/-- A numeral: a sign, an integer and a power of ten. -/
structure Decimal where
  neg : Bool
  coeff : Nat
  exp : Int
deriving DecidableEq, Repr

/-- A magnitude with a sign. -/
def signed (neg : Bool) (q : ℚ) : ℚ := if neg then -q else q

namespace Decimal

/-- The number denoted, without its sign. -/
def magnitude (d : Decimal) : ℚ := d.coeff * 10 ^ d.exp

/-- The number denoted. -/
def value (d : Decimal) : ℚ := signed d.neg d.magnitude

/-- The numeral of an integer. -/
def ofInt (n : Int) : Decimal := ⟨n < 0, n.natAbs, 0⟩

end Decimal

/-! ### Rounding to integers -/

/-- The integer nearest to a rational; of two, the even one. -/
def roundHalfEven (q : ℚ) : ℤ :=
  if q - ⌊q⌋ < 1 / 2 then ⌊q⌋
  else if 1 / 2 < q - ⌊q⌋ then ⌊q⌋ + 1
  else ⌊q⌋ + ⌊q⌋ % 2

@[simp] theorem roundHalfEven_intCast (n : ℤ) : roundHalfEven (n : ℚ) = n := by
  simp [roundHalfEven]

/-- No integer is nearer. -/
theorem roundHalfEven_nearest (q : ℚ) (k : ℤ) : |(roundHalfEven q : ℚ) - q| ≤ |(k : ℚ) - q| := by
  have hf := Int.floor_le q
  have hl := Int.lt_floor_add_one q
  have hk : (k : ℚ) ≤ ⌊q⌋ ∨ (⌊q⌋ : ℚ) + 1 ≤ k := by
    rcases le_or_gt k ⌊q⌋ with h | h
    · exact .inl (Int.cast_le.mpr h)
    · exact .inr (by exact_mod_cast h)
  have hd : min (q - ⌊q⌋) (⌊q⌋ + 1 - q) ≤ |(k : ℚ) - q| := by
    rcases hk with h | h
    · rw [abs_of_nonpos (by linarith)]
      exact (min_le_left _ _).trans (by linarith)
    · rw [abs_of_nonneg (by linarith)]
      exact (min_le_right _ _).trans (by linarith)
  refine le_trans ?_ hd
  unfold roundHalfEven
  split
  · rw [abs_of_nonpos (by linarith), min_eq_left (by linarith)]
    linarith
  · split
    · push_cast
      rw [abs_of_nonneg (by linarith), min_eq_right (by linarith)]
    · have hm : min (q - ⌊q⌋) (⌊q⌋ + 1 - q) = 1 / 2 := by
        rw [min_eq_left (by linarith)]
        linarith
      rw [hm]
      rcases Int.emod_two_eq ⌊q⌋ with h | h
      · rw [h, Int.cast_add, Int.cast_zero, add_zero, abs_of_nonpos (by linarith)]
        linarith
      · rw [h, Int.cast_add, Int.cast_one, abs_of_nonneg (by linarith)]
        linarith

theorem le_roundHalfEven {q : ℚ} {n : ℤ} (h : (n : ℚ) ≤ q) : n ≤ roundHalfEven q := by
  have hn : n ≤ ⌊q⌋ := Int.le_floor.mpr h
  have hm := Int.emod_nonneg ⌊q⌋ (by decide : (2 : ℤ) ≠ 0)
  unfold roundHalfEven
  split
  · exact hn
  · split <;> omega

theorem roundHalfEven_le {q : ℚ} {n : ℤ} (h : q ≤ n) : roundHalfEven q ≤ n := by
  by_contra hc
  have h₁ : (n : ℚ) + 1 ≤ roundHalfEven q := by exact_mod_cast Int.not_le.mp hc
  have h₂ := roundHalfEven_nearest q n
  rw [abs_of_nonneg (by linarith), abs_of_nonneg (by linarith)] at h₂
  linarith

/-! ### Doubles -/

/-- A finite double: a sign, a significand and a power of two, in normal form. -/
structure Double where
  neg : Bool
  mant : Nat
  exp : Int
  mant_lt : mant < 2 ^ 53
  normal : 2 ^ 52 ≤ mant ∨ exp = -1074
  exp_ge : -1074 ≤ exp
  exp_le : exp ≤ 971
deriving DecidableEq

namespace Double

/-- The number denoted, without its sign. -/
def magnitude (x : Double) : ℚ := x.mant * 2 ^ x.exp

/-- The number denoted. -/
def value (x : Double) : ℚ := signed x.neg x.magnitude

/-- The power of two that is the unit in the last place of doubles near `q`. -/
def ulpExp (q : ℚ) : ℤ := max (-1074) (Int.log 2 q - 52)

/-- The significand of `q`, before a carry. -/
def significand (q : ℚ) : Nat := (roundHalfEven (q / 2 ^ ulpExp q)).toNat

private theorem two_zpow_pos (e : ℤ) : (0 : ℚ) < 2 ^ e := zpow_pos (by norm_num) e

private theorem div_lt {q : ℚ} : q / 2 ^ ulpExp q < 2 ^ (53 : ℤ) := by
  rw [div_lt_iff₀ (two_zpow_pos _), ← zpow_add₀ (by norm_num)]
  refine (Int.lt_zpow_succ_log_self (b := 2) (by decide) q).trans_le ?_
  rw [Nat.cast_ofNat]
  exact zpow_le_zpow_right₀ (by norm_num) (by unfold ulpExp; omega)

private theorem le_div {q : ℚ} (hq : 0 < q) (he : ulpExp q ≠ -1074) :
    2 ^ (52 : ℤ) ≤ q / 2 ^ ulpExp q := by
  have hu : ulpExp q = Int.log 2 q - 52 := by
    unfold ulpExp at he ⊢
    omega
  rw [le_div_iff₀ (two_zpow_pos _), ← zpow_add₀ (by norm_num), hu]
  have hl := Int.zpow_log_le_self (by decide : 1 < 2) hq
  rw [Nat.cast_ofNat] at hl
  simpa using hl

private theorem significand_cast {q : ℚ} (hq : 0 < q) :
    ((significand q : ℕ) : ℤ) = roundHalfEven (q / 2 ^ ulpExp q) :=
  Int.toNat_of_nonneg (le_roundHalfEven (by
    rw [Int.cast_zero]
    exact (div_pos hq (two_zpow_pos _)).le))

theorem significand_le (q : ℚ) : significand q ≤ 2 ^ 53 := by
  have h : roundHalfEven (q / 2 ^ ulpExp q) ≤ (2 ^ 53 : ℕ) :=
    roundHalfEven_le (by exact_mod_cast (div_lt (q := q)).le)
  unfold significand
  omega

theorem significand_normal {q : ℚ} (hq : 0 < q) :
    2 ^ 52 ≤ significand q ∨ ulpExp q = -1074 := by
  by_cases he : ulpExp q = -1074
  · exact .inr he
  · left
    have h : ((2 ^ 52 : ℕ) : ℤ) ≤ roundHalfEven (q / 2 ^ ulpExp q) :=
      le_roundHalfEven (by exact_mod_cast le_div hq he)
    rw [← significand_cast hq] at h
    exact Int.ofNat_le.mp h

/-- The double nearest to a magnitude, with a sign; none if it is too large. -/
def round (neg : Bool) (q : ℚ) : Option Double :=
  if hq : 0 < q then
    if h : significand q < 2 ^ 53 ∧ ulpExp q ≤ 971 then
      some ⟨neg, significand q, ulpExp q, h.1, significand_normal hq, le_max_left _ _, h.2⟩
    else if h : significand q = 2 ^ 53 ∧ ulpExp q < 971 then
      some ⟨neg, 2 ^ 52, ulpExp q + 1, by decide, .inl le_rfl,
        (le_max_left _ _ : -1074 ≤ ulpExp q).trans (Int.le_add_one le_rfl), h.2⟩
    else none
  else some ⟨neg, 0, -1074, by decide, .inr rfl, le_rfl, by decide⟩

/-- The double a numeral is read as. -/
def ofDecimal (d : Decimal) : Option Double := round d.neg d.magnitude

theorem round_magnitude {neg : Bool} {q : ℚ} {x : Double} (hq : 0 < q)
    (h : round neg q = some x) :
    x.neg = neg ∧ x.magnitude = (roundHalfEven (q / 2 ^ ulpExp q) : ℤ) * 2 ^ ulpExp q := by
  rw [← significand_cast hq]
  unfold round at h
  rw [dif_pos hq] at h
  split at h
  · cases h
    exact ⟨rfl, rfl⟩
  · split at h
    · next hs =>
      cases h
      refine ⟨rfl, ?_⟩
      rw [magnitude, hs.1, zpow_add_one₀ (by norm_num)]
      push_cast
      ring
    · cases h

/-- Below 2^53 every magnitude is rounded to a multiple of a unit that divides 1. -/
theorem round_small {neg : Bool} {q : ℚ} (hq : 0 < q) (hlt : q < 2 ^ 53) :
    ulpExp q ≤ 0 ∧ ∃ x, round neg q = some x ∧
      x.magnitude = (roundHalfEven (q / 2 ^ ulpExp q) : ℤ) * 2 ^ ulpExp q := by
  have hlog : Int.log 2 q < 53 := by
    rw [← Int.lt_zpow_iff_log_lt (by decide) hq]
    exact_mod_cast hlt
  have hu : ulpExp q ≤ 0 := by
    unfold ulpExp
    omega
  refine ⟨hu, ?_⟩
  have hx : ∃ x, round neg q = some x := by
    have hs := significand_le q
    unfold round
    rw [dif_pos hq]
    by_cases h : significand q < 2 ^ 53
    · rw [dif_pos ⟨h, by omega⟩]
      exact ⟨_, rfl⟩
    · rw [dif_neg (fun hn ↦ h hn.1), dif_pos ⟨by omega, by omega⟩]
      exact ⟨_, rfl⟩
  obtain ⟨x, hx⟩ := hx
  exact ⟨x, hx, (round_magnitude hq hx).2⟩

/-- Such a unit divides 1. -/
private theorem unit_inv {u : ℤ} (hu : u ≤ 0) : ((2 ^ (-u).toNat : ℤ) : ℚ) * 2 ^ u = 1 := by
  push_cast
  rw [← zpow_natCast, Int.toNat_of_nonneg (by omega), ← zpow_add₀ (by norm_num), neg_add_cancel,
    zpow_zero]

/-- Integers are rounded to themselves. -/
theorem round_natCast {neg : Bool} {n : Nat} (hn : 0 < n) (hlt : n < 2 ^ 53) :
    ∃ x, round neg n = some x ∧ x.magnitude = n := by
  obtain ⟨hu, x, hx, hmag⟩ := @round_small neg n (by exact_mod_cast hn)
    (by exact_mod_cast hlt)
  refine ⟨x, hx, ?_⟩
  have hdiv : (n : ℚ) / 2 ^ ulpExp n = ((n * 2 ^ (-ulpExp n).toNat : ℤ) : ℚ) := by
    rw [div_eq_iff (two_zpow_pos _).ne']
    push_cast
    rw [mul_assoc]
    have hone := unit_inv hu
    push_cast at hone
    rw [hone, mul_one]
  rw [hmag, hdiv, roundHalfEven_intCast, ← hdiv, div_mul_cancel₀ _ (two_zpow_pos _).ne']

/-- Rounding a quotient does not move it past an integer. -/
theorem ceil_round_div {neg : Bool} {n d : Nat} (hn : 0 < n) (hd : 0 < d) (hn' : n ≤ 2 ^ 52)
    (hd' : d ≤ 2 ^ 52) : ∃ x, round neg (n / d) = some x ∧ ⌈x.magnitude⌉ = ⌈(n : ℚ) / d⌉ := by
  have hdq : (0 : ℚ) < d := by exact_mod_cast hd
  have hnq : (0 : ℚ) < n := by exact_mod_cast hn
  have hq : (0 : ℚ) < n / d := div_pos hnq hdq
  have hnle : (n : ℚ) ≤ 2 ^ 52 := by exact_mod_cast hn'
  have hle : (n : ℚ) / d ≤ n := div_le_self hnq.le (by exact_mod_cast hd)
  obtain ⟨hu, x, hx, hmag⟩ := @round_small neg _ hq (by linarith)
  refine ⟨x, hx, ?_⟩
  have hunit : (2 : ℚ) ^ ulpExp (n / d) ≤ 1 / d := by
    have hlog := Int.zpow_log_le_self (b := 2) (by decide) hq
    have hmin : (-52 : ℤ) ≤ Int.log 2 ((n : ℚ) / d) := by
      rw [← Int.zpow_le_iff_le_log (by decide) hq, le_div_iff₀ hdq]
      have hdle : (d : ℚ) ≤ 2 ^ 52 := by exact_mod_cast hd'
      have hone : (1 : ℚ) ≤ n := by exact_mod_cast hn
      calc ((2 : ℕ) : ℚ) ^ (-52 : ℤ) * d ≤ ((2 : ℕ) : ℚ) ^ (-52 : ℤ) * 2 ^ 52 := by
            exact mul_le_mul_of_nonneg_left hdle (by positivity)
        _ = 1 := by norm_num
        _ ≤ n := hone
    have he : ulpExp ((n : ℚ) / d) = Int.log 2 ((n : ℚ) / d) - 52 := by
      unfold ulpExp
      omega
    rw [he, zpow_sub₀ (by norm_num), div_le_iff₀ (by positivity)]
    calc (2 : ℚ) ^ Int.log 2 ((n : ℚ) / d) ≤ n / d := by exact_mod_cast hlog
      _ ≤ 2 ^ 52 / d := div_le_div_of_nonneg_right hnle hdq.le
      _ = 1 / d * 2 ^ (52 : ℤ) := by
        norm_num
        ring
  generalize ulpExp ((n : ℚ) / d) = u at hu hmag hunit
  have hinv := unit_inv hu
  have hpos := two_zpow_pos u
  generalize (2 : ℤ) ^ (-u).toNat = m at hinv
  have hdiv : (n : ℚ) / d / 2 ^ u = n / d * m := by
    rw [div_eq_iff hpos.ne', mul_assoc, hinv, mul_one]
  have hmpos : (0 : ℚ) < m := by
    rw [eq_div_of_mul_eq hpos.ne' hinv]
    exact one_div_pos.mpr hpos
  generalize hc : ⌈(n : ℚ) / d⌉ = c
  obtain ⟨hlow, hupp⟩ := Int.ceil_eq_iff.mp hc
  -- between the integers around it, the quotient is at least a unit above the lower one
  have hfar : (c : ℚ) - 1 + 1 / d ≤ n / d := by
    rw [lt_div_iff₀ hdq] at hlow
    have hint : (c - 1) * d + 1 ≤ (n : ℤ) := by
      have hlt : ((c - 1) * d : ℤ) < (n : ℤ) := by exact_mod_cast hlow
      omega
    rw [le_div_iff₀ hdq, add_mul, one_div, inv_mul_cancel₀ hdq.ne']
    exact_mod_cast hint
  have hround : (c - 1) * m + 1 ≤ roundHalfEven ((n : ℚ) / d / 2 ^ u) := by
    refine le_roundHalfEven ?_
    rw [hdiv]
    push_cast
    have hstep : (1 : ℚ) = 2 ^ u * m := by
      rw [mul_comm]
      exact hinv.symm
    nlinarith
  have hround' : roundHalfEven ((n : ℚ) / d / 2 ^ u) ≤ c * m := by
    refine roundHalfEven_le ?_
    rw [hdiv]
    push_cast
    exact mul_le_mul_of_nonneg_right hupp hmpos.le
  rw [hmag, Int.ceil_eq_iff]
  generalize roundHalfEven ((n : ℚ) / d / 2 ^ u) = k at hround hround'
  have hk : ((c : ℚ) - 1) * m + 1 ≤ k := by exact_mod_cast hround
  have hk' : (k : ℚ) ≤ c * m := by exact_mod_cast hround'
  constructor
  · calc (c : ℚ) - 1 = ((c : ℚ) - 1) * (m * 2 ^ u) := by rw [hinv, mul_one]
      _ < (((c : ℚ) - 1) * m + 1) * 2 ^ u := by
        rw [add_mul, mul_assoc]
        linarith
      _ ≤ k * 2 ^ u := mul_le_mul_of_nonneg_right hk hpos.le
  · calc (k : ℚ) * 2 ^ u ≤ c * m * 2 ^ u := mul_le_mul_of_nonneg_right hk' hpos.le
      _ = c := by rw [mul_assoc, hinv, mul_one]

/-- The grid of one unit in the last place holds every double as far out as `q`. -/
private theorem grid {q : ℚ} (hq : 0 < q) (y : Double) :
    ∃ k : ℤ, |(k : ℚ) * 2 ^ ulpExp q - q| ≤ |y.magnitude - q| := by
  by_cases he : ulpExp q ≤ y.exp
  · refine ⟨y.mant * 2 ^ (y.exp - ulpExp q).toNat, le_of_eq ?_⟩
    have hz : (2 : ℚ) ^ (y.exp - ulpExp q).toNat * 2 ^ ulpExp q = 2 ^ y.exp := by
      rw [← zpow_natCast, ← zpow_add₀ (by norm_num), Int.toNat_of_nonneg (by omega)]
      congr 1
      omega
    push_cast
    rw [mul_assoc, hz, magnitude]
  · -- `y` is below the normal doubles around `q`, which start at a grid point
    have hlt : y.magnitude < 2 ^ (52 + ulpExp q) := by
      have hm : (y.mant : ℚ) < 2 ^ (53 : ℤ) := by exact_mod_cast y.mant_lt
      calc y.magnitude < 2 ^ (53 : ℤ) * 2 ^ y.exp := by
            rw [magnitude]
            exact mul_lt_mul_of_pos_right hm (two_zpow_pos _)
        _ = 2 ^ (53 + y.exp) := by rw [← zpow_add₀ (by norm_num)]
        _ ≤ 2 ^ (52 + ulpExp q) := zpow_le_zpow_right₀ (by norm_num) (by omega)
    have hge : 2 ^ (52 + ulpExp q) ≤ q := by
      have h := le_div hq (by have := y.exp_ge; omega)
      rwa [le_div_iff₀ (two_zpow_pos _), ← zpow_add₀ (by norm_num)] at h
    refine ⟨2 ^ 52, ?_⟩
    have hz : ((2 ^ 52 : ℤ) : ℚ) * 2 ^ ulpExp q = 2 ^ (52 + ulpExp q) := by
      rw [zpow_add₀ (by norm_num)]
      norm_num
    rw [hz, abs_of_nonpos (by linarith), abs_of_nonpos (by linarith)]
    linarith

/-- No double is nearer than the one a magnitude is rounded to. -/
theorem round_nearest {neg : Bool} {q : ℚ} {x : Double} (hq : 0 ≤ q) (h : round neg q = some x)
    (y : Double) : |x.magnitude - q| ≤ |y.magnitude - q| := by
  rcases hq.eq_or_lt with rfl | hq
  · rw [round, dif_neg (lt_irrefl _)] at h
    cases h
    simp only [magnitude, Nat.cast_zero, zero_mul, sub_self, abs_zero]
    exact abs_nonneg _
  · obtain ⟨k, hk⟩ := grid hq y
    refine le_trans ?_ hk
    rw [(round_magnitude hq h).2]
    have hp := two_zpow_pos (ulpExp q)
    have hs : ∀ n : ℤ, |(n : ℚ) * 2 ^ ulpExp q - q| = |(n : ℚ) - q / 2 ^ ulpExp q| * 2 ^ ulpExp q :=
      fun n ↦ by
        rw [← abs_of_pos hp, ← abs_mul, abs_of_pos hp, sub_mul, div_mul_cancel₀ _ hp.ne']
    rw [hs, hs]
    exact mul_le_mul_of_nonneg_right (roundHalfEven_nearest _ _) hp.le

private theorem ulpExp_magnitude (x : Double) (hx : x.mant ≠ 0) : ulpExp x.magnitude = x.exp := by
  have hp := two_zpow_pos x.exp
  have hq : 0 < x.magnitude := mul_pos (by exact_mod_cast Nat.pos_of_ne_zero hx) hp
  have hlt : Int.log 2 x.magnitude < 53 + x.exp := by
    rw [← Int.lt_zpow_iff_log_lt (by decide) hq, Nat.cast_ofNat, zpow_add₀ (by norm_num)]
    exact mul_lt_mul_of_pos_right (by exact_mod_cast x.mant_lt) hp
  unfold ulpExp
  rcases x.normal with h | h
  · have hle : 52 + x.exp ≤ Int.log 2 x.magnitude := by
      rw [← Int.zpow_le_iff_le_log (by decide) hq, Nat.cast_ofNat, zpow_add₀ (by norm_num)]
      exact mul_le_mul_of_nonneg_right (by exact_mod_cast h) hp.le
    have := x.exp_ge
    omega
  · omega

/-- A double is rounded to itself. -/
theorem round_self (x : Double) : round x.neg x.magnitude = some x := by
  obtain ⟨neg, mant, exp, mant_lt, normal, exp_ge, exp_le⟩ := x
  by_cases hm : mant = 0
  · subst hm
    have he : exp = -1074 := normal.resolve_left (by decide)
    subst he
    simp [round, magnitude]
  · have hp := two_zpow_pos exp
    have hu := ulpExp_magnitude ⟨neg, mant, exp, mant_lt, normal, exp_ge, exp_le⟩ hm
    have hq : (0 : ℚ) < mant * 2 ^ exp := mul_pos (by exact_mod_cast Nat.pos_of_ne_zero hm) hp
    simp only [magnitude] at hu ⊢
    have hs : significand (mant * 2 ^ exp) = mant := by
      rw [significand, hu, mul_div_cancel_right₀ _ hp.ne', ← Int.cast_natCast,
        roundHalfEven_intCast, Int.toNat_natCast]
    rw [round, dif_pos hq, dif_pos (by rw [hs, hu]; exact ⟨mant_lt, exp_le⟩)]
    simp only [hs, hu]

/-! ### Shortest numerals -/

/-- All digits of a magnitude: every double has finitely many. -/
def allDigits (x : Double) : Decimal :=
  if 0 ≤ x.exp then ⟨x.neg, x.mant * 2 ^ x.exp.toNat, 0⟩
  else ⟨x.neg, x.mant * 5 ^ (-x.exp).toNat, x.exp⟩

/-- The numeral of `n` digits nearest to the double that reads back as it; of two the one with an
even last digit. -/
def digits (x : Double) (n : Nat) : Option Decimal :=
  let k := Int.log 10 x.magnitude + 1 - n
  let q := x.magnitude / 10 ^ k
  let below : Decimal := ⟨x.neg, ⌊q⌋.toNat, k⟩
  let above : Decimal := ⟨x.neg, ⌊q⌋.toNat + 1, k⟩
  let near : Decimal := ⟨x.neg, (roundHalfEven q).toNat, k⟩
  [near, below, above].find? fun d ↦ ofDecimal d = some x

/-- The shortest numeral that reads back as the double. Seventeen digits are enough for every
double, so that the last case does not arise. -/
def shortest (x : Double) : Decimal :=
  if x.mant = 0 then ⟨x.neg, 0, 0⟩
  else ((List.range 17).findSome? fun n ↦ x.digits (n + 1)).getD x.allDigits

theorem magnitude_allDigits (x : Double) : x.allDigits.magnitude = x.magnitude := by
  unfold allDigits
  split
  · next h =>
    simp only [Decimal.magnitude, magnitude, zpow_zero, mul_one]
    push_cast
    rw [← zpow_natCast, Int.toNat_of_nonneg h]
  · next h =>
    have hz : (10 : ℚ) ^ x.exp = 5 ^ x.exp * 2 ^ x.exp := by
      rw [← mul_zpow]
      norm_num
    have hc : (5 : ℚ) ^ (-x.exp).toNat * 5 ^ x.exp = 1 := by
      rw [← zpow_natCast, ← zpow_add₀ (by norm_num), Int.toNat_of_nonneg (by omega),
        neg_add_cancel, zpow_zero]
    simp only [Decimal.magnitude, magnitude, hz]
    push_cast
    calc (x.mant : ℚ) * 5 ^ (-x.exp).toNat * (5 ^ x.exp * 2 ^ x.exp)
        = x.mant * (5 ^ (-x.exp).toNat * 5 ^ x.exp) * 2 ^ x.exp := by ring
      _ = x.mant * 2 ^ x.exp := by rw [hc, mul_one]

/-- The shortest numeral reads back as the double it was written for. -/
theorem ofDecimal_shortest (x : Double) : ofDecimal x.shortest = some x := by
  unfold shortest
  split
  · next h =>
    have hz : x.magnitude = 0 := by rw [magnitude, h, Nat.cast_zero, zero_mul]
    rw [ofDecimal, Decimal.magnitude, Nat.cast_zero, zero_mul, ← hz]
    exact round_self x
  · cases h : (List.range 17).findSome? fun n ↦ x.digits (n + 1) with
    | none =>
      have hn : x.allDigits.neg = x.neg := by
        unfold allDigits
        split <;> rfl
      rw [Option.getD_none, ofDecimal, magnitude_allDigits, hn]
      exact round_self x
    | some d =>
      obtain ⟨n, -, hd⟩ := List.exists_of_findSome?_eq_some h
      simpa using List.find?_some hd

end Double
