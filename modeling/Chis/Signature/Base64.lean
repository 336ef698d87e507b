import Chis.Helper.Signature

/-!
# Reading base64

The other direction of `base64Chars`. `sextets` is what a reader that skips padding and whatever else
is no digit gets to see; nothing of the encoded bytes is lost in it.
-/

namespace Chis.Helper

/-- The value of a digit of the standard alphabet. -/
def base64Value (c : Char) : Option Nat :=
  if 65 ≤ c.toNat ∧ c.toNat ≤ 90 then some (c.toNat - 65)
  else if 97 ≤ c.toNat ∧ c.toNat ≤ 122 then some (c.toNat - 71)
  else if 48 ≤ c.toNat ∧ c.toNat ≤ 57 then some (c.toNat + 4)
  else if c.toNat = 43 then some 62
  else if c.toNat = 47 then some 63
  else none

/-- The bytes of a sequence of values below 64, six bits each; a single value at the end, with less
than eight bits, is dropped. -/
def joinSextets : List Nat → List UInt8
  | a :: b :: c :: d :: rest =>
    UInt8.ofNat (a * 4 + b / 16) :: UInt8.ofNat (b % 16 * 16 + c / 4) ::
      UInt8.ofNat (c % 4 * 64 + d) :: joinSextets rest
  | [a, b, c] => [UInt8.ofNat (a * 4 + b / 16), UInt8.ofNat (b % 16 * 16 + c / 4)]
  | [a, b] => [UInt8.ofNat (a * 4 + b / 16)]
  | _ => []

/-- The values of the digits of a text. -/
def sextets (cs : List Char) : List Nat := cs.filterMap base64Value

theorem base64Value_digit : ∀ n < 64, base64Value (base64Digit n) = some n := by decide

private theorem base64Value_pad : base64Value '=' = none := by decide

private theorem ofNat_eq {n : Nat} {a : UInt8} (h : n = a.toNat) : UInt8.ofNat n = a := by
  rw [h, UInt8.ofNat_toNat]

/-- What has been encoded is read back. -/
theorem joinSextets_base64Chars (bytes : List UInt8) :
    joinSextets (sextets (base64Chars bytes)) = bytes := by
  have digit {n : Nat} (cs : List Char) (h : n < 64) :
      sextets (base64Digit n :: cs) = n :: sextets cs :=
    List.filterMap_cons_some (base64Value_digit n h)
  have pad (cs : List Char) : sextets ('=' :: cs) = sextets cs :=
    List.filterMap_cons_none base64Value_pad
  fun_induction base64Chars bytes with
  | case1 => rfl
  | case2 a =>
    have ha := a.toNat_lt
    rw [digit _ (by omega), digit _ (by omega), pad, pad]
    exact congrArg (· :: []) (ofNat_eq (by omega))
  | case3 a b =>
    have ha := a.toNat_lt
    have hb := b.toNat_lt
    rw [digit _ (by omega), digit _ (by omega), digit _ (by omega), pad]
    change [_, _] = [a, b]
    rw [@ofNat_eq _ a (by omega), @ofNat_eq _ b (by omega)]
  | case4 a b c rest ih =>
    have ha := a.toNat_lt
    have hb := b.toNat_lt
    have hc := c.toNat_lt
    rw [digit _ (by omega), digit _ (by omega), digit _ (by omega), digit _ (by omega), joinSextets,
      ih, @ofNat_eq _ a (by omega), @ofNat_eq _ b (by omega), @ofNat_eq _ c (by omega)]

/-- Different bytes have different texts. -/
theorem base64Chars_injective : Function.Injective base64Chars := by
  intro x y h
  rw [← joinSextets_base64Chars x, ← joinSextets_base64Chars y, h]

/-- Bytes come out of at least as many digits. -/
theorem length_joinSextets_le (values : List Nat) : (joinSextets values).length ≤ values.length := by
  fun_induction joinSextets values with
  | case1 a b c d rest ih =>
    simp only [List.length_cons]
    omega
  | case2 | case3 => simp
  | case4 => exact Nat.zero_le _

end Chis.Helper
