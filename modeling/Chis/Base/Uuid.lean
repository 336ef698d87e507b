import Mathlib.Algebra.GroupWithZero.Nat
import Mathlib.Data.List.Basic

/-!
# Identifiers and their text

`uuid.UUID` with `String` and `Parse` of the package the services use: 32 lower-case hexadecimal
digits in groups of 8-4-4-4-12. `parse` accepts the four forms of the package; `parse_toString`
is what the queue relies on, since the services exchange message ids as text.
-/

namespace Chis

/-- A 128-bit identifier. -/
structure Uuid where
  toFin : Fin (2 ^ 128)
deriving DecidableEq

instance Uuid.instNeZero : NeZero (2 ^ 128) := ⟨by decide⟩

namespace Uuid

/-- `uuid.Nil`, the zero value. -/
def nil : Uuid := ⟨0⟩

/-! ### Hexadecimal digits -/

/-- The lower-case digit of a value below 16. -/
def hexDigit (n : Nat) : Char := Char.ofNat (if n < 10 then 48 + n else 87 + n)

/-- The value of a digit of either case. -/
def hexVal (c : Char) : Option Nat :=
  if 48 ≤ c.toNat ∧ c.toNat ≤ 57 then some (c.toNat - 48)
  else if 97 ≤ c.toNat ∧ c.toNat ≤ 102 then some (c.toNat - 87)
  else if 65 ≤ c.toNat ∧ c.toNat ≤ 70 then some (c.toNat - 55)
  else none

/-- The last `width` digits of `n`, most significant first. -/
def hexChars : Nat → Nat → List Char
  | 0, _ => []
  | width + 1, n => hexChars width (n / 16) ++ [hexDigit (n % 16)]

/-- Read digits after a value already read. -/
def readHex (acc : Nat) : List Char → Option Nat
  | [] => some acc
  | c :: cs => (hexVal c).bind fun d ↦ readHex (acc * 16 + d) cs

private theorem hexVal_hexDigit : ∀ n < 16, hexVal (hexDigit n) = some n := by decide

private theorem hexDigit_ascii : ∀ n < 16, (hexDigit n).toNat < 128 := by decide

private theorem hexDigit_ne_dot : ∀ n < 16, hexDigit n ≠ '.' := by decide

private theorem readHex_append (acc : Nat) (xs ys : List Char) :
    readHex acc (xs ++ ys) = (readHex acc xs).bind fun a ↦ readHex a ys := by
  induction xs generalizing acc with
  | nil => rfl
  | cons c cs ih =>
    simp only [List.cons_append, readHex, Option.bind_assoc]
    congr 1
    funext d
    exact ih _

private theorem readHex_hexChars (width n acc : Nat) :
    readHex acc (hexChars width n) = some (acc * 16 ^ width + n % 16 ^ width) := by
  induction width generalizing n acc with
  | zero => simp [hexChars, readHex, Nat.mod_one]
  | succ width ih =>
    have hv := hexVal_hexDigit (n % 16) (Nat.mod_lt _ (by decide))
    rw [hexChars, readHex_append, ih]
    simp only [Option.bind_some, readHex, hv, Option.some.injEq]
    rw [Nat.pow_succ', Nat.mod_mul, Nat.add_mul, Nat.mul_assoc, Nat.mul_comm (16 ^ width) 16]
    omega

private theorem length_hexChars (width n : Nat) : (hexChars width n).length = width := by
  induction width generalizing n with
  | zero => rfl
  | succ width ih => simp [hexChars, ih]

private theorem ascii_hexChars (width n : Nat) : ∀ c ∈ hexChars width n, c.toNat < 128 := by
  induction width generalizing n with
  | zero => simp [hexChars]
  | succ width ih =>
    intro c hc
    rcases List.mem_append.mp hc with h | h
    · exact ih _ c h
    · rw [List.mem_singleton.mp h]
      exact hexDigit_ascii _ (Nat.mod_lt _ (by decide))

/-! ### Text -/

/-- The digits with a hyphen after the 8th, 12th, 16th and 20th. -/
def hyphenate (h : List Char) : List Char :=
  h.take 8 ++ '-' :: (h.drop 8).take 4 ++ '-' :: (h.drop 12).take 4 ++
    '-' :: (h.drop 16).take 4 ++ '-' :: h.drop 20

/-- The form of 36 characters: hyphens in their places and digits in the others. -/
def parseHyphenated (cs : List Char) : Option Nat :=
  if cs[8]? = some '-' ∧ cs[13]? = some '-' ∧ cs[18]? = some '-' ∧ cs[23]? = some '-' then
    readHex 0 (cs.take 8 ++ (cs.drop 9).take 4 ++ (cs.drop 14).take 4 ++ (cs.drop 19).take 4 ++
      (cs.drop 24).take 12)
  else none

/-- `UUID.String`. -/
def toString (u : Uuid) : String := String.ofList (hyphenate (hexChars 32 u.toFin))

/-- The value behind an accepted text. The lengths are lengths in bytes; a text with a character
of more than one byte fits none of the forms. -/
def parseNat (s : String) : Option Nat :=
  let cs := s.toList
  if cs.any fun c ↦ 128 ≤ c.toNat then none
  else if cs.length = 36 then parseHyphenated cs
  else if cs.length = 45 then
    if (cs.take 9).map Char.toLower = "urn:uuid:".toList then parseHyphenated (cs.drop 9) else none
  -- the surrounding characters are dropped without a look at them
  else if cs.length = 38 then parseHyphenated ((cs.drop 1).take 36)
  else if cs.length = 32 then readHex 0 cs
  else none

/-- `uuid.Parse`. -/
def parse (s : String) : Option Uuid := (parseNat s).map fun n ↦ ⟨Fin.ofNat (2 ^ 128) n⟩

private theorem parseHyphenated_hyphenate (h : List Char) (hl : h.length = 32) :
    parseHyphenated (hyphenate h) = readHex 0 h := by
  have he : h = h.take 8 ++ ((h.drop 8).take 4 ++ ((h.drop 12).take 4 ++
      ((h.drop 16).take 4 ++ h.drop 20))) := by
    conv_lhs => rw [← List.take_append_drop 8 h, ← List.take_append_drop 4 (h.drop 8),
      ← List.take_append_drop 4 ((h.drop 8).drop 4),
      ← List.take_append_drop 4 (((h.drop 8).drop 4).drop 4)]
    simp only [List.drop_drop]
  have h₁ : (h.take 8).length = 8 := by simp [hl]
  have h₂ : ((h.drop 8).take 4).length = 4 := by simp [hl]
  have h₃ : ((h.drop 12).take 4).length = 4 := by simp [hl]
  have h₄ : ((h.drop 16).take 4).length = 4 := by simp [hl]
  have h₅ : (h.drop 20).length = 12 := by simp [hl]
  unfold hyphenate
  conv_rhs => rw [he]
  generalize h.take 8 = a at *
  generalize (h.drop 8).take 4 = b at *
  generalize (h.drop 12).take 4 = c at *
  generalize (h.drop 16).take 4 = d at *
  generalize h.drop 20 = e at *
  simp [parseHyphenated, List.drop_append, h₁, h₂, h₃, h₄, h₅, List.take_of_length_le,
    List.drop_of_length_le]

private theorem length_hyphenate (h : List Char) (hl : h.length = 32) :
    (hyphenate h).length = 36 := by
  simp [hyphenate, hl]

private theorem mem_hyphenate (h : List Char) (c : Char) (hc : c ∈ hyphenate h) :
    c ∈ h ∨ c = '-' := by
  simp only [hyphenate, List.mem_append, List.mem_cons] at hc
  rcases hc with (((hc | hc | hc) | hc | hc) | hc | hc) | hc | hc
  all_goals first
    | exact .inr hc
    | exact .inl (List.mem_of_mem_take hc)
    | exact .inl (List.mem_of_mem_drop hc)
    | exact .inl (List.mem_of_mem_drop (List.mem_of_mem_take hc))

/-- Parsing the text of an identifier gives the identifier back. -/
@[simp] theorem parse_toString (u : Uuid) : parse u.toString = some u := by
  have hl := length_hexChars 32 u.toFin
  have ha : ¬ (hyphenate (hexChars 32 u.toFin)).any (fun c ↦ 128 ≤ c.toNat) = true := by
    rw [List.any_eq_true]
    rintro ⟨c, hc, hge⟩
    rw [decide_eq_true_eq] at hge
    rcases mem_hyphenate _ c hc with h | rfl
    · exact absurd (ascii_hexChars 32 _ c h) (by omega)
    · exact absurd hge (by decide)
  have hn : parseNat u.toString = some (u.toFin : Nat) := by
    simp only [parseNat, toString, String.toList_ofList, length_hyphenate _ hl, ha, if_true,
      parseHyphenated_hyphenate _ hl, readHex_hexChars]
    simp only [Nat.zero_mul, Nat.zero_add, Bool.false_eq_true, if_false, Option.some.injEq]
    exact Nat.mod_eq_of_lt (Nat.lt_of_lt_of_eq u.toFin.isLt (by decide))
  rw [parse, hn, Option.map_some]
  exact congrArg (some ∘ Uuid.mk) (Fin.ofNat_val_eq_self u.toFin)

theorem parse_empty : parse "" = none := by decide

private theorem dot_notMem_hexChars (width n : Nat) : '.' ∉ hexChars width n := by
  induction width generalizing n with
  | zero => exact List.not_mem_nil
  | succ width ih =>
    rw [hexChars, List.mem_append, List.mem_singleton]
    rintro (h | h)
    · exact ih _ h
    · exact absurd h.symm (hexDigit_ne_dot _ (Nat.mod_lt _ (by decide)))

theorem length_toString (u : Uuid) : u.toString.toList.length = 36 := by
  rw [toString, String.toList_ofList]
  exact length_hyphenate _ (length_hexChars 32 _)

/-- The text of an identifier has no dot. -/
theorem dot_notMem_toString (u : Uuid) : '.' ∉ u.toString.toList := by
  rw [toString, String.toList_ofList]
  intro h
  rcases mem_hyphenate _ _ h with h | h
  · exact dot_notMem_hexChars _ _ h
  · exact absurd h (by decide)

/-- Different identifiers have different texts. -/
theorem toString_inj {u v : Uuid} : u.toString = v.toString ↔ u = v := by
  constructor
  · intro h
    have hp := congrArg parse h
    simpa using hp
  · rintro rfl
    rfl

end Uuid

end Chis
