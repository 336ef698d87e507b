import Chis.Base.JsonText
import Chis.Base.Uuid

/-!
# How receivers read a number

The timestamp header is text, and the receivers read it with what their language has for that: the
global `parseInt` of JavaScript and `int` of Python. Both read the integers the worker prints, and
both read more.
-/

namespace Chis.Receiver

open Json (sign)

/-- The value of a digit of base `base`. -/
def digit? (base : Nat) (c : Char) : Option Nat := (Uuid.hexVal c).filter (· < base)

/-- A number with its sign. -/
def signed (neg : Bool) (n : Nat) : Int := if neg then -n else n

/-- Spaces of Unicode that every one of the languages takes for spaces. -/
def wideSpace (n : Nat) : Bool :=
  n = 0xa0 || n = 0x1680 || (0x2000 ≤ n && n ≤ 0x200a) || n = 0x2028 || n = 0x2029 || n = 0x202f ||
    n = 0x205f || n = 0x3000

/-! ### JavaScript -/

/-- `WhiteSpace` and `LineTerminator` of ECMAScript. -/
def jsSpace (c : Char) : Bool :=
  (9 ≤ c.toNat && c.toNat ≤ 13) || c.toNat = 32 || c.toNat = 0xfeff || wideSpace c.toNat

/-- The digits up to the first character that is none, after the value of earlier ones. -/
def leadingDigits (base : Nat) (acc : Option Nat) : List Char → Option Nat
  | [] => acc
  | c :: cs =>
    match digit? base c with
    | none => acc
    | some d => leadingDigits base (some (acc.getD 0 * base + d)) cs

/-- A prefix that asks for base 16, and what follows it. -/
def radix : List Char → Nat × List Char
  | '0' :: 'x' :: cs | '0' :: 'X' :: cs => (16, cs)
  | cs => (10, cs)

/-- `parseInt` without a radix; no number is `NaN`. -/
def parseInt (s : String) : Option Int :=
  let (neg, cs) := sign (s.toList.dropWhile jsSpace)
  let (base, cs) := radix cs
  (leadingDigits base none cs).map (signed neg)

/-! ### Python -/

/-- The zeros of the decimal digits of Unicode. -/
def zeros : List Nat :=
  [0x30, 0x660, 0x6f0, 0x7c0, 0x966, 0x9e6, 0xa66, 0xae6, 0xb66, 0xbe6, 0xc66, 0xce6, 0xd66, 0xde6,
    0xe50, 0xed0, 0xf20, 0x1040, 0x1090, 0x17e0, 0x1810, 0x1946, 0x19d0, 0x1a80, 0x1a90, 0x1b50,
    0x1bb0, 0x1c40, 0x1c50, 0xa620, 0xa8d0, 0xa900, 0xa9d0, 0xa9f0, 0xaa50, 0xabf0, 0xff10, 0x104a0,
    0x10d30, 0x11066, 0x110f0, 0x11136, 0x111d0, 0x112f0, 0x11450, 0x114d0, 0x11650, 0x116c0,
    0x11730, 0x118e0, 0x11950, 0x11c50, 0x11d50, 0x11da0, 0x16a60, 0x16ac0, 0x16b50, 0x1d7ce,
    0x1d7d8, 0x1d7e2, 0x1d7ec, 0x1d7f6, 0x1e140, 0x1e2f0, 0x1e950, 0x1fbf0]

/-- The value of a decimal digit of any script. -/
def pyDigit? (c : Char) : Option Nat :=
  (zeros.find? fun z ↦ z ≤ c.toNat && c.toNat ≤ z + 9).map fun z ↦ c.toNat - z

/-- What `int` skips around a number: of ASCII, less than `str.isspace` knows. -/
def pySpace (c : Char) : Bool :=
  (9 ≤ c.toNat && c.toNat ≤ 13) || c.toNat = 32 || c.toNat = 0x85 || wideSpace c.toNat

/-- Digits after a digit, with single underscores between them. -/
def pyDigits (acc : Nat) : List Char → Option Nat
  | [] => some acc
  | '_' :: c :: cs => (pyDigit? c).bind fun d ↦ pyDigits (acc * 10 + d) cs
  | c :: cs => (pyDigit? c).bind fun d ↦ pyDigits (acc * 10 + d) cs

/-- `int` of a text; without a number it raises `ValueError`. -/
def pyInt (s : String) : Option Int :=
  let (neg, cs) := sign ((s.toList.dropWhile pySpace).reverse.dropWhile pySpace).reverse
  match cs with
  | [] => none
  | c :: cs => ((pyDigit? c).bind fun d ↦ pyDigits d cs).map (signed neg)

/-! ### What the worker prints -/

/-- The characters of a printed integer. -/
theorem toList_toString (n : Int) :
    (toString n).toList = (if n < 0 then ['-'] else []) ++ Nat.toDigits 10 n.natAbs := by
  rw [Int.toString_eq_repr, Int.repr_eq_if]
  by_cases h : n < 0
  · rw [if_neg (by omega), if_pos h, String.toList_append, Nat.toList_repr]
    have hn : (-n).toNat = n.natAbs := by omega
    rw [hn]
    rfl
  · rw [if_pos (by omega), if_neg h, Nat.toList_repr]
    have hn : n.toNat = n.natAbs := by omega
    rw [hn]
    rfl

private theorem isDigit_of_mem {n : Nat} {c : Char} (h : c ∈ Nat.toDigits 10 n) : c.isDigit = true :=
  Nat.isDigit_of_mem_toDigits (by decide) (by decide) h

/-- A printed integer has no dot. -/
theorem dot_notMem_toString (n : Int) : '.' ∉ (toString n).toList := by
  rw [toList_toString, List.mem_append]
  rintro (h | h)
  · split at h
    · exact absurd h (by decide)
    · cases h
  · exact absurd (isDigit_of_mem h) (by decide)

private theorem digit?_ten (c : Char) :
    digit? 10 c = if c.isDigit then some (c.toNat - 48) else none := by
  unfold digit? Uuid.hexVal
  by_cases h : c.isDigit = true
  · have hc : 48 ≤ c.toNat ∧ c.toNat ≤ 57 := Char.isDigit_iff_toNat.mp h
    rw [if_pos hc, if_pos h, Option.filter_some, if_pos (by simp; omega)]
  · have hc : ¬(48 ≤ c.toNat ∧ c.toNat ≤ 57) := mt Char.isDigit_iff_toNat.mpr h
    rw [if_neg hc, if_neg h]
    split
    · rw [Option.filter_some, if_neg (by simp; omega)]
    · split
      · rw [Option.filter_some, if_neg (by simp; omega)]
      · rfl

private theorem leadingDigits_digits {ds : List Char} (hds : ∀ c ∈ ds, c.isDigit = true)
    {r : List Char} (hr : ∀ c ∈ r.head?, c.isDigit = false) (acc : Nat) :
    leadingDigits 10 (some acc) (ds ++ r) = some (Nat.ofDigitChars 10 ds acc) := by
  induction ds generalizing acc with
  | nil =>
    cases r with
    | nil => rfl
    | cons c r => rw [List.nil_append, leadingDigits, digit?_ten, hr c rfl]; rfl
  | cons d ds ih =>
    rw [List.cons_append, leadingDigits, digit?_ten, if_pos (hds d List.mem_cons_self)]
    change leadingDigits 10 (some (acc * 10 + (d.toNat - 48))) (ds ++ r) = _
    rw [ih (fun c hc ↦ hds c (List.mem_cons_of_mem _ hc)), Nat.ofDigitChars_cons, Nat.mul_comm]
    rfl

private theorem pyDigit?_digit {c : Char} (h : c.isDigit = true) :
    pyDigit? c = some (c.toNat - 48) := by
  have hc : 48 ≤ c.toNat ∧ c.toNat ≤ 57 := Char.isDigit_iff_toNat.mp h
  have hz : (48 ≤ c.toNat && c.toNat ≤ 48 + 9) = true := by
    rw [Bool.and_eq_true, decide_eq_true_eq, decide_eq_true_eq]
    omega
  have hf : zeros.find? (fun z ↦ z ≤ c.toNat && c.toNat ≤ z + 9) = some 48 :=
    List.find?_cons_of_pos hz
  rw [pyDigit?, hf]
  rfl

private theorem pyDigits_digits {ds : List Char} (hds : ∀ c ∈ ds, c.isDigit = true) (acc : Nat) :
    pyDigits acc ds = some (Nat.ofDigitChars 10 ds acc) := by
  induction ds generalizing acc with
  | nil => rfl
  | cons d ds ih =>
    have hd := hds d List.mem_cons_self
    have hrest : pyDigits acc (d :: ds) = (pyDigit? d).bind fun v ↦ pyDigits (acc * 10 + v) ds := by
      rw [pyDigits]
      rintro c cs rfl -
      exact absurd hd (by decide)
    rw [hrest, pyDigit?_digit hd, Option.bind_some, ih fun c hc ↦ hds c (List.mem_cons_of_mem _ hc),
      Nat.ofDigitChars_cons, Nat.mul_comm]
    rfl

private theorem sign_digits {ds : List Char} (hds : ∀ c ∈ ds, c.isDigit = true) (r : List Char)
    (hne : ds ≠ []) : sign (ds ++ r) = (false, ds ++ r) := by
  cases ds with
  | nil => exact absurd rfl hne
  | cons d ds =>
    have hd := hds d List.mem_cons_self
    rw [List.cons_append, sign]
    · intro cs h
      rw [(List.cons.inj h).1] at hd
      exact absurd hd (by decide)
    · intro cs h
      rw [(List.cons.inj h).1] at hd
      exact absurd hd (by decide)

private theorem sign_toString (n : Int) (r : List Char) :
    sign ((toString n).toList ++ r) = (decide (n < 0), Nat.toDigits 10 n.natAbs ++ r) := by
  rw [toList_toString]
  by_cases h : n < 0
  · rw [if_pos h, decide_eq_true h]
    rfl
  · rw [if_neg h, decide_eq_false h]
    exact sign_digits (fun _ ↦ isDigit_of_mem) r Nat.toDigits_ne_nil

private theorem signed_natAbs (n : Int) : signed (decide (n < 0)) n.natAbs = n := by
  by_cases h : n < 0
  · rw [decide_eq_true h, signed, if_pos rfl]
    omega
  · rw [decide_eq_false h, signed, if_neg Bool.false_ne_true]
    omega

/-- No space stands at either end of a printed integer. -/
private theorem numeral_of_mem {n : Int} {c : Char} (h : c ∈ (toString n).toList) :
    c = '-' ∨ c.isDigit = true := by
  rw [toList_toString, List.mem_append] at h
  rcases h with h | h
  · split at h
    · exact .inl (List.mem_singleton.mp h)
    · cases h
  · exact .inr (isDigit_of_mem h)

private theorem numeral_not_space {c : Char} (h : c = '-' ∨ c.isDigit = true) :
    jsSpace c = false ∧ pySpace c = false := by
  rcases h with rfl | h
  · decide
  · have hc : 48 ≤ c.toNat ∧ c.toNat ≤ 57 := Char.isDigit_iff_toNat.mp h
    simp only [jsSpace, pySpace, wideSpace, Bool.or_eq_false_iff, Bool.and_eq_false_imp,
      decide_eq_true_eq, decide_eq_false_iff_not]
    omega

private theorem dropWhile_numerals {p : Char → Bool} (hp : ∀ c, c = '-' ∨ c.isDigit = true →
    p c = false) {cs : List Char} (hcs : ∀ c ∈ cs, c = '-' ∨ c.isDigit = true) (hne : cs ≠ [])
    (r : List Char) : (cs ++ r).dropWhile p = cs ++ r := by
  cases cs with
  | nil => exact absurd rfl hne
  | cons c cs =>
    rw [List.cons_append, List.dropWhile_cons_of_neg]
    rw [hp c (hcs c List.mem_cons_self)]
    exact Bool.false_ne_true

private theorem toString_ne_nil (n : Int) : (toString n).toList ≠ [] := by
  rw [toList_toString]
  exact List.append_ne_nil_of_right_ne_nil _ Nat.toDigits_ne_nil

private theorem radix_ten {cs : List Char} (h : ∀ c ∈ cs.tail.head?, c ≠ 'x' ∧ c ≠ 'X') :
    radix cs = (10, cs) := by
  rw [radix]
  · rintro r rfl
    exact (h 'x' rfl).1 rfl
  · rintro r rfl
    exact (h 'X' rfl).2 rfl

private theorem leadingDigits_toDigits (n : Nat) {r : List Char}
    (hr : ∀ c ∈ r.head?, c.isDigit = false) :
    leadingDigits 10 none (Nat.toDigits 10 n ++ r) = some n := by
  have hds : ∀ c ∈ Nat.toDigits 10 n, c.isDigit = true := fun _ ↦ isDigit_of_mem
  have hread := leadingDigits_digits hds hr 0
  rw [Nat.ofDigitChars_ten_toDigits] at hread
  rw [← hread]
  cases hd : Nat.toDigits 10 n with
  | nil => exact absurd hd Nat.toDigits_ne_nil
  | cons d ds =>
    rw [hd] at hds
    rw [List.cons_append, leadingDigits, leadingDigits, digit?_ten,
      if_pos (hds d List.mem_cons_self)]
    rfl

/-- `parseInt` reads a printed integer, and does not look at a dot and what follows it. -/
theorem parseInt_toString (n : Int) (rest : String) (hr : ∀ c ∈ rest.toList.head?, c = '.') :
    parseInt (toString n ++ rest) = some n := by
  have hstop : ∀ c ∈ rest.toList.head?, c.isDigit = false := by
    intro c hc
    rw [hr c hc]
    decide
  have hradix : radix (Nat.toDigits 10 n.natAbs ++ rest.toList) =
      (10, Nat.toDigits 10 n.natAbs ++ rest.toList) := by
    apply radix_ten
    intro c hc
    have hdigit : c.isDigit = true ∨ c = '.' := by
      cases hd : Nat.toDigits 10 n.natAbs with
      | nil => exact absurd hd Nat.toDigits_ne_nil
      | cons d ds =>
        rw [hd, List.cons_append, List.tail_cons] at hc
        cases ds with
        | nil => exact .inr (hr c hc)
        | cons d' ds =>
          have hmem : c ∈ Nat.toDigits 10 n.natAbs := by
            rw [hd, ← Option.mem_some_iff.mp hc]
            exact List.mem_cons_of_mem _ List.mem_cons_self
          exact .inl (isDigit_of_mem hmem)
    constructor
    · rintro rfl
      exact absurd hdigit (by decide)
    · rintro rfl
      exact absurd hdigit (by decide)
  rw [parseInt, String.toList_append, dropWhile_numerals (fun c h ↦ (numeral_not_space h).1)
    (fun c ↦ numeral_of_mem) (toString_ne_nil n), sign_toString]
  dsimp only
  rw [hradix]
  dsimp only
  rw [leadingDigits_toDigits _ hstop, Option.map_some, signed_natAbs]

private theorem trim_toString (n : Int) :
    (((toString n).toList.dropWhile pySpace).reverse.dropWhile pySpace).reverse =
      (toString n).toList := by
  have hp : ∀ c, c = '-' ∨ c.isDigit = true → pySpace c = false := fun c h ↦ (numeral_not_space h).2
  have hfront := dropWhile_numerals hp (fun c ↦ numeral_of_mem) (toString_ne_nil n) []
  have hback := dropWhile_numerals hp (fun c h ↦ numeral_of_mem (List.mem_reverse.mp h))
    (mt List.reverse_eq_nil_iff.mp (toString_ne_nil n)) []
  rw [List.append_nil] at hfront hback
  rw [hfront, hback, List.reverse_reverse]

/-- `int` reads a printed integer. -/
theorem pyInt_toString (n : Int) : pyInt (toString n) = some n := by
  have hsign := sign_toString n []
  rw [List.append_nil, List.append_nil] at hsign
  rw [pyInt, trim_toString, hsign]
  dsimp only
  have hds : ∀ c ∈ Nat.toDigits 10 n.natAbs, c.isDigit = true := fun _ ↦ isDigit_of_mem
  have hread := Nat.ofDigitChars_ten_toDigits (n := n.natAbs)
  cases hd : Nat.toDigits 10 n.natAbs with
  | nil => exact absurd hd Nat.toDigits_ne_nil
  | cons d ds =>
    rw [hd] at hds hread
    rw [Nat.ofDigitChars_cons] at hread
    dsimp only
    rw [pyDigit?_digit (hds d List.mem_cons_self), Option.bind_some,
      pyDigits_digits fun c hc ↦ hds c (List.mem_cons_of_mem _ hc)]
    have hstart : 10 * 0 + (d.toNat - '0'.toNat) = d.toNat - 48 := Nat.zero_add _
    rw [hstart] at hread
    rw [hread, Option.map_some, signed_natAbs]

/-! ### Dots -/

private theorem mem_dropWhile {p : Char → Bool} {c : Char} (hc : p c = false) {cs : List Char}
    (h : c ∈ cs) : c ∈ cs.dropWhile p := by
  induction cs with
  | nil => cases h
  | cons d cs ih =>
    rw [List.dropWhile_cons]
    split
    · next hd =>
      rcases List.mem_cons.mp h with rfl | h
      · rw [hc] at hd
        cases hd
      · exact ih h
    · exact h

private theorem dot_of_sign {cs : List Char} (h : '.' ∈ cs) : '.' ∈ (sign cs).2 := by
  unfold sign
  split
  · exact (List.mem_cons.mp h).resolve_left (by decide)
  · exact (List.mem_cons.mp h).resolve_left (by decide)
  · exact h

private theorem pyDigit?_dot : pyDigit? '.' = none := by decide

private theorem pyDigits_dot {acc : Nat} {cs : List Char} (h : '.' ∈ cs) : pyDigits acc cs = none := by
  fun_induction pyDigits acc cs with
  | case1 => cases h
  | case2 acc c cs ih =>
    have h := (List.mem_cons.mp h).resolve_left (by decide)
    rcases List.mem_cons.mp h with rfl | h
    · rw [pyDigit?_dot, Option.bind_none]
    · rw [Option.bind_eq_none_iff]
      exact fun d _ ↦ ih d h
  | case3 acc c cs _ ih =>
    rcases List.mem_cons.mp h with rfl | h
    · rw [pyDigit?_dot, Option.bind_none]
    · rw [Option.bind_eq_none_iff]
      exact fun d _ ↦ ih d h

/-- `int` accepts no text with a dot. -/
theorem pyInt_dot {s : String} (h : '.' ∈ s.toList) : pyInt s = none := by
  have htrim : '.' ∈ ((s.toList.dropWhile pySpace).reverse.dropWhile pySpace).reverse :=
    List.mem_reverse.mpr (mem_dropWhile (by decide)
      (List.mem_reverse.mpr (mem_dropWhile (by decide) h)))
  have hcs := dot_of_sign htrim
  rw [pyInt]
  cases hs : sign ((s.toList.dropWhile pySpace).reverse.dropWhile pySpace).reverse with
  | mk neg cs =>
    rw [hs] at hcs
    cases cs with
    | nil => rfl
    | cons c cs =>
      dsimp only
      rcases List.mem_cons.mp hcs with rfl | h
      · rw [pyDigit?_dot, Option.bind_none, Option.map_none]
      · rw [Option.map_eq_none_iff, Option.bind_eq_none_iff]
        exact fun d _ ↦ pyDigits_dot h

example : pyInt " +1_000" = some 1000 ∧ parseInt " +1_000" = some 1 := by decide

end Chis.Receiver
