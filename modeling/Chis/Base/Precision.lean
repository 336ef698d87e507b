import Chis.Base.Decimal
import Mathlib.Algebra.Order.Round

/-!
# How many digits survive

A numeral of at most fifteen digits in the range of the normal doubles denotes the same number as the
shortest numeral of the double it is read as.
-/

/-- No integer is further away than a half. -/
theorem roundHalfEven_half (q : ℚ) : |(roundHalfEven q : ℚ) - q| ≤ 1 / 2 := by
  apply (roundHalfEven_nearest q (round q)).trans
  rw [abs_sub_comm]
  exact abs_sub_round q

namespace Double

/-- The distance to the double is at most half a unit in the last place. -/
theorem round_error {neg : Bool} {q : ℚ} {x : Double} (hq : 0 < q) (h : round neg q = some x) :
    |x.magnitude - q| ≤ 2 ^ ulpExp q / 2 := by
  have hp : (0 : ℚ) < 2 ^ ulpExp q := zpow_pos (by norm_num) _
  have hs : x.magnitude - q = ((roundHalfEven (q / 2 ^ ulpExp q) : ℚ) - q / 2 ^ ulpExp q) *
      2 ^ ulpExp q := by
    rw [(round_magnitude hq h).2, sub_mul, div_mul_cancel₀ _ hp.ne']
  rw [hs, abs_mul, abs_of_pos hp]
  calc _ ≤ 1 / 2 * 2 ^ ulpExp q := mul_le_mul_of_nonneg_right (roundHalfEven_half _) hp.le
    _ = 2 ^ ulpExp q / 2 := by ring

/-- The smallest normal double. -/
def minNormal : ℚ := 2 ^ (-1022 : ℤ)

/-- Whatever is read as a normal double is near it. -/
theorem error_le {neg : Bool} {q : ℚ} {x : Double} (hq : 0 < q) (h : round neg q = some x)
    (hx : minNormal ≤ x.magnitude) : |x.magnitude - q| ≤ x.magnitude * 2 ^ (-52 : ℤ) := by
  have herr := round_error hq h
  by_cases hu : ulpExp q = -1074
  · calc |x.magnitude - q| ≤ 2 ^ ulpExp q / 2 := herr
      _ ≤ minNormal * 2 ^ (-52 : ℤ) := by
        rw [hu, minNormal, ← zpow_add₀ (by norm_num)]
        norm_num
      _ ≤ x.magnitude * 2 ^ (-52 : ℤ) := by gcongr
  · have hunit : (2 : ℚ) ^ ulpExp q ≤ q * 2 ^ (-52 : ℤ) := by
      have he : ulpExp q = Int.log 2 q + -52 := by
        unfold ulpExp at hu ⊢
        omega
      have hlog := Int.zpow_log_le_self (b := 2) (by decide) hq
      rw [Nat.cast_ofNat] at hlog
      rw [he, zpow_add₀ (by norm_num)]
      gcongr
    have hle := (abs_le.mp herr).1
    have hsmall : 2 ^ ulpExp q ≤ q * (1 / 2) := hunit.trans (by gcongr; norm_num)
    -- so `q` is less than twice the double
    have htwo : q ≤ 2 * x.magnitude := by linarith
    calc |x.magnitude - q| ≤ 2 ^ ulpExp q / 2 := herr
      _ ≤ q * 2 ^ (-52 : ℤ) / 2 := by gcongr
      _ ≤ 2 * x.magnitude * 2 ^ (-52 : ℤ) / 2 := by gcongr
      _ = x.magnitude * 2 ^ (-52 : ℤ) := by ring

/-- A magnitude of a normal double or more is read as a normal double. -/
theorem minNormal_le {neg : Bool} {q : ℚ} {x : Double} (hq : minNormal ≤ q)
    (h : round neg q = some x) : minNormal ≤ x.magnitude := by
  have hpos : (0 : ℚ) < minNormal := zpow_pos (by norm_num) _
  by_contra hlt
  rw [not_le] at hlt
  let least : Double := ⟨false, 2 ^ 52, -1074, by decide, .inl le_rfl, le_rfl, by decide⟩
  have hleast : least.magnitude = minNormal := by
    have hmant : ((2 ^ 52 : ℕ) : ℚ) = 2 ^ (52 : ℤ) := by norm_num
    rw [magnitude, hmant, ← zpow_add₀ (by norm_num)]
    rfl
  have hnear := round_nearest (hpos.le.trans hq) h least
  rw [hleast, abs_of_neg (by linarith), abs_of_nonpos (by linarith)] at hnear
  linarith

/-- The unit of the fifteenth digit. -/
def step (x : Double) : ℚ := 10 ^ (Int.log 10 x.magnitude - 14)

theorem step_pos (x : Double) : 0 < x.step := zpow_pos (by norm_num) _

theorem magnitude_lt_step (x : Double) : x.magnitude < 10 ^ 15 * x.step := by
  have hlt := Int.lt_zpow_succ_log_self (b := 10) (by decide) x.magnitude
  rw [Nat.cast_ofNat] at hlt
  calc x.magnitude < 10 ^ (Int.log 10 x.magnitude + 1) := hlt
    _ = 10 ^ 15 * x.step := by
      rw [step, ← zpow_natCast, ← zpow_add₀ (by norm_num)]
      congr 1
      push_cast
      ring

/-- A multiple of that unit that is read as a normal double is the one nearest to it. -/
theorem near_step {neg : Bool} {M : ℤ} {x : Double} (hM : 0 < (M : ℚ) * x.step)
    (h : round neg (M * x.step) = some x) (hx : minNormal ≤ x.magnitude) :
    |(M : ℚ) - x.magnitude / x.step| < 1 / 4 := by
  have hs := x.step_pos
  have herr := error_le hM h hx
  have hlt := x.magnitude_lt_step
  have he : (M : ℚ) - x.magnitude / x.step = -((x.magnitude - M * x.step) / x.step) := by
    field_simp
    ring
  rw [he, abs_neg, abs_div, abs_of_pos hs, div_lt_iff₀ hs]
  calc |x.magnitude - M * x.step| ≤ x.magnitude * 2 ^ (-52 : ℤ) := herr
    _ < 10 ^ 15 * x.step * 2 ^ (-52 : ℤ) := by gcongr
    _ < 1 / 4 * x.step := by
      have : (10 : ℚ) ^ 15 * 2 ^ (-52 : ℤ) < 1 / 4 := by norm_num
      nlinarith

/-- So there is at most one. -/
theorem step_unique {neg neg' : Bool} {M M' : ℤ} {x : Double} (hM : 0 < (M : ℚ) * x.step)
    (hM' : 0 < (M' : ℚ) * x.step) (h : round neg (M * x.step) = some x)
    (h' : round neg' (M' * x.step) = some x) (hx : minNormal ≤ x.magnitude) : M = M' := by
  have hn := near_step hM h hx
  have hn' := near_step hM' h' hx
  rw [abs_lt] at hn hn'
  have hlt : |((M - M' : ℤ) : ℚ)| < 1 := by
    push_cast
    rw [abs_lt]
    constructor <;> linarith
  have hz : |M - M'| < 1 := by exact_mod_cast hlt
  have := Int.abs_lt_one_iff.mp hz
  omega

/-! ### Shortest numerals -/

/-- A numeral of at most fifteen digits that is written for a double is a multiple of the unit. -/
theorem digits_step {x : Double} {n : Nat} {e : Decimal} (hn : n < 15)
    (h : x.digits (n + 1) = some e) : e.neg = x.neg ∧ ofDecimal e = some x ∧
      ∃ M : ℤ, e.magnitude = M * x.step := by
  have hfind := List.find?_some h
  have hmem := List.mem_of_find?_eq_some h
  have hk {c : Nat} : (c : ℚ) * 10 ^ (Int.log 10 x.magnitude + 1 - ((n + 1 : ℕ) : ℤ)) =
      ((c * 10 ^ (14 - n) : ℤ) : ℚ) * x.step := by
    have hz : (10 : ℚ) ^ (Int.log 10 x.magnitude + 1 - ((n + 1 : ℕ) : ℤ)) =
        10 ^ (14 - n) * x.step := by
      rw [step, ← zpow_natCast, ← zpow_add₀ (by norm_num)]
      congr 1
      omega
    rw [hz]
    push_cast
    ring
  refine ⟨?_, by simpa using hfind, ?_⟩
  · simp only [List.mem_cons, List.not_mem_nil, or_false] at hmem
    rcases hmem with rfl | rfl | rfl <;> rfl
  · simp only [List.mem_cons, List.not_mem_nil, or_false] at hmem
    rcases hmem with rfl | rfl | rfl <;> exact ⟨_, hk⟩

/-- A numeral of at most fifteen digits is a multiple of the unit of the double it is read as. -/
theorem step_of_coeff {d : Decimal} {x : Double} (hd : d.coeff < 10 ^ 15)
    (hn : minNormal ≤ d.magnitude) (hx : ofDecimal d = some x) :
    ∃ M : ℤ, d.magnitude = M * x.step := by
  have hpos : 0 < d.magnitude := lt_of_lt_of_le (zpow_pos (by norm_num) _) hn
  have hx' := minNormal_le hn hx
  have hxpos : 0 < x.magnitude := lt_of_lt_of_le (zpow_pos (by norm_num) _) hx'
  by_cases he : Int.log 10 x.magnitude - 14 ≤ d.exp
  · refine ⟨d.coeff * 10 ^ (d.exp - (Int.log 10 x.magnitude - 14)).toNat, ?_⟩
    have hz : (10 : ℚ) ^ d.exp =
        10 ^ (d.exp - (Int.log 10 x.magnitude - 14)).toNat * x.step := by
      rw [step, ← zpow_natCast, ← zpow_add₀ (by norm_num), Int.toNat_of_nonneg (by omega)]
      congr 1
      omega
    rw [Decimal.magnitude, hz]
    push_cast
    ring
  · -- the double would have more digits than the numeral, and be too far away from it
    exfalso
    have herr := (abs_le.mp (error_le hpos hx hx')).2
    have hlog := Int.zpow_log_le_self (b := 10) (by decide) hxpos
    rw [Nat.cast_ofNat] at hlog
    have hs : (0 : ℚ) < 10 ^ (Int.log 10 x.magnitude - 15) := zpow_pos (by norm_num) _
    have hten : (10 : ℚ) ^ Int.log 10 x.magnitude = 10 ^ 15 * 10 ^ (Int.log 10 x.magnitude - 15) := by
      rw [← zpow_natCast, ← zpow_add₀ (by norm_num)]
      congr 1
      push_cast
      ring
    have hcoeff : (d.coeff : ℚ) ≤ 10 ^ 15 - 1 := by
      have hle : d.coeff + 1 ≤ 10 ^ 15 := hd
      have : (d.coeff : ℚ) + 1 ≤ 10 ^ 15 := by exact_mod_cast hle
      linarith
    have hexp : (10 : ℚ) ^ d.exp ≤ 10 ^ (Int.log 10 x.magnitude - 15) :=
      zpow_le_zpow_right₀ (by norm_num) (by omega)
    have hq : d.magnitude ≤ (10 ^ 15 - 1) * 10 ^ (Int.log 10 x.magnitude - 15) :=
      mul_le_mul hcoeff hexp (zpow_pos (by norm_num) _).le (by norm_num)
    rw [hten] at hlog
    generalize (10 : ℚ) ^ (Int.log 10 x.magnitude - 15) = s at hs hlog hq
    norm_num at herr hlog hq
    linarith

/-- The numeral of fifteen digits that is nearest to the double denotes that multiple. -/
private theorem digits_fifteen {M : ℤ} {x : Double} (hM : 0 < (M : ℚ) * x.step)
    (h : round x.neg (M * x.step) = some x) (hx : minNormal ≤ x.magnitude) :
    (x.digits 15).isSome = true := by
  have hnear := near_step hM h hx
  have hround : roundHalfEven (x.magnitude / x.step) = M := by
    have hle := (roundHalfEven_nearest (x.magnitude / x.step) M).trans_lt hnear
    rw [abs_lt] at hnear hle
    have hlt : |((roundHalfEven (x.magnitude / x.step) - M : ℤ) : ℚ)| < 1 := by
      push_cast
      rw [abs_lt]
      constructor <;> linarith
    have hz : |roundHalfEven (x.magnitude / x.step) - M| < 1 := by exact_mod_cast hlt
    have := Int.abs_lt_one_iff.mp hz
    omega
  have hMpos : 0 < M := by
    have := (mul_pos_iff_of_pos_right x.step_pos).mp hM
    exact_mod_cast this
  have hstep : (10 : ℚ) ^ (Int.log 10 x.magnitude + 1 - ((15 : ℕ) : ℤ)) = x.step := by
    rw [step]
    congr 1
    omega
  unfold digits
  rw [List.find?_isSome, hstep, hround]
  refine ⟨_, List.mem_cons_self, ?_⟩
  rw [decide_eq_true_eq, ofDecimal, Decimal.magnitude, hstep]
  rw [show ((M.toNat : ℕ) : ℚ) = (M : ℚ) by exact_mod_cast Int.toNat_of_nonneg hMpos.le]
  exact h

/-- The shortest numeral of a normal double denotes the same number as any numeral of at most fifteen
digits that is read as it. -/
theorem magnitude_shortest {d : Decimal} {x : Double} (hd : d.coeff < 10 ^ 15)
    (hn : minNormal ≤ d.magnitude) (hx : ofDecimal d = some x) :
    x.shortest.neg = d.neg ∧ x.shortest.magnitude = d.magnitude := by
  have hpos : 0 < d.magnitude := lt_of_lt_of_le (zpow_pos (by norm_num) _) hn
  have hx' := minNormal_le hn hx
  have hneg := (round_magnitude hpos hx).1
  obtain ⟨M, hM⟩ := step_of_coeff hd hn hx
  have hmant : x.mant ≠ 0 := by
    intro h0
    have hxpos : 0 < x.magnitude := lt_of_lt_of_le (zpow_pos (by norm_num) _) hx'
    rw [magnitude, h0, Nat.cast_zero, zero_mul] at hxpos
    exact lt_irrefl _ hxpos
  have hround : round x.neg (M * x.step) = some x := by
    rw [hneg, ← hM]
    exact hx
  rw [hM] at hpos
  have hsome : ((List.range 15).findSome? fun n ↦ x.digits (n + 1)).isSome = true :=
    List.findSome?_isSome_iff.mpr ⟨14, by decide, digits_fifteen hpos hround hx'⟩
  obtain ⟨e, he⟩ := Option.isSome_iff_exists.mp hsome
  have hshortest : x.shortest = e := by
    rw [shortest, if_neg hmant, show List.range 17 = List.range 15 ++ [15, 16] from rfl,
      List.findSome?_append, he]
    rfl
  obtain ⟨n, hmem, hdigits⟩ := List.exists_of_findSome?_eq_some he
  obtain ⟨heneg, hread, M', hM'⟩ := digits_step (List.mem_range.mp hmem) hdigits
  rw [hshortest]
  refine ⟨heneg.trans hneg, ?_⟩
  have hepos : 0 < (M' : ℚ) * x.step := by
    rw [← hM']
    by_contra hle
    rw [ofDecimal, round, dif_neg hle] at hread
    exact hmant (congrArg mant (Option.some.inj hread)).symm
  have hread' : round e.neg (M' * x.step) = some x := by
    rw [← hM']
    exact hread
  rw [hM', hM, step_unique hepos hpos hread' hround hx']

/-- A numeral that survives being read as a double: zero, or at most fifteen digits and at least the
smallest normal double. -/
def Safe (d : Decimal) : Prop := d.coeff = 0 ∨ d.coeff < 10 ^ 15 ∧ minNormal ≤ d.magnitude

theorem value_shortest {d : Decimal} {x : Double} (hd : Safe d) (hx : ofDecimal d = some x) :
    x.shortest.value = d.value := by
  rcases hd with hd | ⟨hd, hn⟩
  · have hz : d.magnitude = 0 := by rw [Decimal.magnitude, hd, Nat.cast_zero, zero_mul]
    rw [ofDecimal, hz, round, dif_neg (lt_irrefl _)] at hx
    cases hx
    simp [shortest, Decimal.value, Decimal.magnitude, hd]
  · obtain ⟨hneg, hmag⟩ := magnitude_shortest hd hn hx
    rw [Decimal.value, Decimal.value, hneg, hmag]

end Double
