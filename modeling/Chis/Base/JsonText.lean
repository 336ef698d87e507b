import Chis.Base.Decimal
import Chis.Base.Json

/-!
# JSON texts

The grammar of RFC 8259 as a parser, and compact texts as the encoder of Go's `encoding/json` writes
them. A text that was written parses to a tree that denotes the same value, `parse_print`.
-/

namespace Json

/-! ### Strings -/

/-- The digits of a code below `16 ^ 4`. -/
def hex4 (n : Nat) : List Char :=
  [n / 4096 % 16, n / 256 % 16, n / 16 % 16, n % 16].map Nat.digitChar

/-- The value of a hexadecimal digit of either case. -/
def hexVal (c : Char) : Option Nat :=
  if c.isDigit then some (c.toNat - 48)
  else if 'a' ≤ c ∧ c ≤ 'f' then some (c.toNat - 87)
  else if 'A' ≤ c ∧ c ≤ 'F' then some (c.toNat - 55)
  else none

/-- The character an escape of one letter stands for. -/
def shortEscape (c : Char) : Option Char :=
  if c = '"' ∨ c = '\\' ∨ c = '/' then some c
  else if c = 'b' then some (Char.ofNat 8)
  else if c = 'f' then some (Char.ofNat 12)
  else if c = 'n' then some '\n'
  else if c = 'r' then some '\r'
  else if c = 't' then some '\t'
  else none

/-- A piece of a string text: a character, or the code of a `\u` escape. -/
abbrev Piece := Char ⊕ Nat

/-- Read the pieces of a string up to its closing quotation mark. -/
def pieces : List Char → Option (List Piece × List Char)
  | [] => none
  | '"' :: r => some ([], r)
  | '\\' :: 'u' :: a :: b :: c :: d :: r =>
    match hexVal a, hexVal b, hexVal c, hexVal d with
    | some a, some b, some c, some d =>
      (pieces r).map fun p ↦ (.inr (a * 4096 + b * 256 + c * 16 + d) :: p.1, p.2)
    | _, _, _, _ => none
  | '\\' :: e :: r => (shortEscape e).bind fun c ↦ (pieces r).map fun p ↦ (.inl c :: p.1, p.2)
  | c :: r =>
    if c = '\\' ∨ c.toNat < 32 then none else (pieces r).map fun p ↦ (.inl c :: p.1, p.2)

/-- The characters of a string. Two surrogates that belong together make one character, and any
other surrogate is replaced. -/
def combine : List Piece → List Char
  | [] => []
  | .inl c :: ps => c :: combine ps
  | .inr n :: .inr m :: ps =>
    if 0xD800 ≤ n ∧ n < 0xDC00 ∧ 0xDC00 ≤ m ∧ m < 0xE000 then
      Char.ofNat (0x10000 + (n - 0xD800) * 0x400 + (m - 0xDC00)) :: combine ps
    else
      (if 0xD800 ≤ n ∧ n < 0xE000 then Char.ofNat 0xFFFD else Char.ofNat n) ::
        combine (.inr m :: ps)
  | .inr n :: ps =>
    (if 0xD800 ≤ n ∧ n < 0xE000 then Char.ofNat 0xFFFD else Char.ofNat n) :: combine ps

/-- Read a string after its opening quotation mark. -/
def string (cs : List Char) : Option (String × List Char) :=
  (pieces cs).map fun p ↦ (String.ofList (combine p.1), p.2)

/-- The characters written as a `\u` escape: control characters, those with a meaning in HTML, and
two line separators. -/
def unicodeEscaped (c : Char) : Bool :=
  c.toNat < 32 || c = '<' || c = '>' || c = '&' || c.toNat = 0x2028 || c.toNat = 0x2029

/-- Write one character of a string. -/
def escape (c : Char) : List Char :=
  if c = '"' then ['\\', '"']
  else if c = '\\' then ['\\', '\\']
  else if c = Char.ofNat 8 then ['\\', 'b']
  else if c = Char.ofNat 12 then ['\\', 'f']
  else if c = '\n' then ['\\', 'n']
  else if c = '\r' then ['\\', 'r']
  else if c = '\t' then ['\\', 't']
  else if unicodeEscaped c then '\\' :: 'u' :: hex4 c.toNat
  else [c]

/-- Write a string. -/
def printString (s : String) : List Char := '"' :: (s.toList.flatMap escape ++ ['"'])

private theorem hexVal_digitChar : ∀ n < 16, hexVal (Nat.digitChar n) = some n := by decide

/-- The piece that a written character is read as. -/
private def pieceOf (c : Char) : Piece :=
  if unicodeEscaped c ∧ c ∉ [Char.ofNat 8, Char.ofNat 12, '\n', '\r', '\t'] then .inr c.toNat
  else .inl c

private theorem pieces_hex4 {n : Nat} (hn : n < 16 ^ 4) (r : List Char) :
    pieces ('\\' :: 'u' :: (hex4 n ++ r)) = (pieces r).map fun p ↦ (.inr n :: p.1, p.2) := by
  have h : n / 4096 % 16 * 4096 + n / 256 % 16 * 256 + n / 16 % 16 * 16 + n % 16 = n := by omega
  simp only [hex4, List.map_cons, List.map_nil, List.cons_append, List.nil_append, pieces,
    hexVal_digitChar _ (Nat.mod_lt _ (by decide : 16 > 0)), h]

private theorem pieces_escape (c : Char) (r : List Char) :
    pieces (escape c ++ r) = (pieces r).map fun p ↦ (pieceOf c :: p.1, p.2) := by
  by_cases h₁ : c = '"'
  · subst h₁
    simp [escape, pieces, shortEscape, pieceOf, unicodeEscaped]
  by_cases h₂ : c = '\\'
  · subst h₂
    simp [escape, pieces, shortEscape, pieceOf, unicodeEscaped]
  by_cases h₃ : c ∈ [Char.ofNat 8, Char.ofNat 12, '\n', '\r', '\t']
  · have hp : pieceOf c = .inl c := by
      rw [pieceOf, if_neg]
      exact fun h ↦ h.2 h₃
    rw [hp]
    simp only [List.mem_cons, List.not_mem_nil, or_false] at h₃
    rcases h₃ with rfl | rfl | rfl | rfl | rfl <;> simp [escape, pieces, shortEscape]
  have h₄ := h₃
  simp only [List.mem_cons, List.not_mem_nil, or_false, not_or] at h₄
  obtain ⟨hb, hf, hn, hr, ht⟩ := h₄
  by_cases hu : unicodeEscaped c
  · have hc : c.toNat < 16 ^ 4 := by
      simp only [unicodeEscaped, Bool.or_eq_true, decide_eq_true_eq] at hu
      rcases hu with ((((h | rfl) | rfl) | rfl) | h) | h
      · omega
      all_goals first | decide | omega
    have hp : pieceOf c = .inr c.toNat := if_pos ⟨hu, h₃⟩
    rw [hp, ← pieces_hex4 hc]
    simp [escape, h₁, h₂, hb, hf, hn, hr, ht, hu]
  · have hp : pieceOf c = .inl c := if_neg fun h ↦ hu h.1
    have hc : ¬ c.toNat < 32 := fun h ↦ hu (by simp [unicodeEscaped, h])
    rw [hp]
    simp only [escape, h₁, h₂, hb, hf, hn, hr, ht, hu, if_false, List.cons_append, List.nil_append,
      Bool.false_eq_true]
    rw [pieces.eq_def]
    split
    · next h => cases h
    · next h => exact absurd (List.cons.inj h).1 h₁
    · next h => exact absurd (List.cons.inj h).1 h₂
    · next h => exact absurd (List.cons.inj h).1 h₂
    · next h =>
      obtain ⟨rfl, rfl⟩ := List.cons.inj h
      simp [h₂, hc]

private theorem combine_pieceOf (cs : List Char) : combine (cs.map pieceOf) = cs := by
  induction cs with
  | nil => rfl
  | cons c cs ih =>
    have hc : ∀ ps, combine (pieceOf c :: ps) = c :: combine ps := by
      intro ps
      unfold pieceOf
      split
      · next h =>
        -- a code that is written is no surrogate
        have hs : ¬ (0xD800 ≤ c.toNat ∧ c.toNat < 0xE000) := by
          rcases c.valid with hv | hv
          · have : c.toNat = c.val.toNat := rfl
            omega
          · have : c.toNat = c.val.toNat := rfl
            omega
        have hn : ¬ (0xD800 ≤ c.toNat ∧ c.toNat < 0xDC00) := by omega
        cases ps with
        | nil => simp [combine, hs]
        | cons p ps =>
          cases p with
          | inl d => simp [combine, hs]
          | inr m =>
            rw [combine, if_neg (by omega), if_neg hs, Char.ofNat_toNat]
      · simp [combine]
    rw [List.map_cons, hc, ih]

/-- A string is read as it was written. -/
theorem string_print (s : String) (r : List Char) :
    string (s.toList.flatMap escape ++ '"' :: r) = some (s, r) := by
  have h : ∀ cs : List Char, pieces (cs.flatMap escape ++ '"' :: r) = some (cs.map pieceOf, r) := by
    intro cs
    induction cs with
    | nil => simp [pieces]
    | cons c cs ih =>
      rw [List.flatMap_cons, List.append_assoc, pieces_escape, ih]
      rfl
  rw [string, h, Option.map_some, combine_pieceOf, String.ofList_toList]

/-! ### Numbers -/

/-- Read the digits after a decimal point, if there is one. -/
def fraction : List Char → Option (List Char × List Char)
  | '.' :: r =>
    if r.takeWhile Char.isDigit = [] then none
    else some (r.takeWhile Char.isDigit, r.dropWhile Char.isDigit)
  | r => some ([], r)

/-- Read a sign that may be left out. -/
def sign : List Char → Bool × List Char
  | '-' :: r => (true, r)
  | '+' :: r => (false, r)
  | r => (false, r)

/-- Read an exponent, if there is one. -/
def exponent : List Char → Option (Int × List Char)
  | [] => some (0, [])
  | c :: r =>
    if c = 'e' ∨ c = 'E' then
      let (neg, r) := sign r
      let ds := r.takeWhile Char.isDigit
      let n : Int := Nat.ofDigitChars 10 ds 0
      if ds = [] then none else some (if neg then -n else n, r.dropWhile Char.isDigit)
    else some (0, c :: r)

/-- Read the minus sign of a number, if there is one. -/
def minus : List Char → Bool × List Char
  | '-' :: r => (true, r)
  | r => (false, r)

/-- Read a number. -/
def number (cs : List Char) : Option (Decimal × List Char) :=
  let (neg, cs) := minus cs
  let ds := cs.takeWhile Char.isDigit
  if ds = [] ∨ ds.head? = some '0' ∧ 1 < ds.length then none
  else
    (fraction (cs.dropWhile Char.isDigit)).bind fun (fs, r) ↦
      (exponent r).map fun (e, r) ↦ (⟨neg, Nat.ofDigitChars 10 (ds ++ fs) 0, e - fs.length⟩, r)

/-- Write a magnitude that is not zero: in plain notation from `1e-6` up to `1e21`, else with an
exponent. -/
def printMagnitude (coeff : Nat) (exp : Int) : List Char :=
  let ds := Nat.toDigits 10 coeff
  let point : Int := ds.length + exp
  if -6 < point ∧ point ≤ 21 then
    if point ≤ 0 then '0' :: '.' :: (List.replicate (-point).toNat '0' ++ ds)
    else if 0 ≤ exp then ds ++ List.replicate exp.toNat '0'
    else ds.take point.toNat ++ '.' :: ds.drop point.toNat
  else
    ds.take 1 ++ (if ds.length = 1 then [] else '.' :: ds.drop 1) ++
      'e' :: (if point ≤ 0 then '-' else '+') :: Nat.toDigits 10 (point - 1).natAbs

/-- Write a number. -/
def printNumber (d : Decimal) : List Char :=
  (if d.neg then ['-'] else []) ++ if d.coeff = 0 then ['0'] else printMagnitude d.coeff d.exp

/-- What may follow a number inside a text. -/
def Delimited (r : List Char) : Prop :=
  ∀ c ∈ r.head?, c.isDigit = false ∧ c ≠ '.' ∧ c ≠ 'e' ∧ c ≠ 'E'

private theorem takeWhile_digits {ds r : List Char} (hd : ∀ c ∈ ds, c.isDigit = true)
    (hr : ∀ c ∈ r.head?, c.isDigit = false) : (ds ++ r).takeWhile Char.isDigit = ds := by
  rw [List.takeWhile_append_of_pos hd]
  cases r with
  | nil => simp
  | cons c r => simp [hr c rfl]

private theorem dropWhile_digits {ds r : List Char} (hd : ∀ c ∈ ds, c.isDigit = true)
    (hr : ∀ c ∈ r.head?, c.isDigit = false) : (ds ++ r).dropWhile Char.isDigit = r := by
  rw [List.dropWhile_append_of_pos hd]
  cases r with
  | nil => simp
  | cons c r => simp [hr c rfl]

private theorem toDigits_isDigit (n : Nat) : ∀ c ∈ Nat.toDigits 10 n, c.isDigit = true :=
  fun _ h ↦ Nat.isDigit_of_mem_toDigits (by decide) (by decide) h

/-- The digits of a positive number do not begin with a zero. -/
private theorem head_toDigits {n : Nat} (hn : n ≠ 0) : (Nat.toDigits 10 n).head? ≠ some '0' := by
  induction n using Nat.strong_induction_on with
  | _ n ih =>
    by_cases h : n < 10
    · rw [Nat.toDigits_of_lt_base h]
      have hd : ∀ n < 10, n ≠ 0 → Nat.digitChar n ≠ '0' := by decide
      simpa using hd n h hn
    · have hne : Nat.toDigits 10 (n / 10) ≠ [] := Nat.toDigits_ne_nil
      rw [Nat.toDigits_of_base_le (by decide) (by omega), List.head?_append_of_ne_nil _ hne]
      exact ih (n / 10) (by omega) (by omega)

private theorem delimited_head {r : List Char} (hr : Delimited r) :
    ∀ c ∈ r.head?, c.isDigit = false := fun c hc ↦ (hr c hc).1

private theorem exponent_none {r : List Char} (hr : Delimited r) : exponent r = some (0, r) := by
  cases r with
  | nil => rfl
  | cons c r =>
    obtain ⟨-, -, h₁, h₂⟩ := hr c rfl
    simp [exponent, h₁, h₂]

private theorem fraction_none {r : List Char} (hr : ∀ c ∈ r.head?, c ≠ '.') :
    fraction r = some ([], r) := by
  unfold fraction
  split
  · exact absurd rfl (hr '.' rfl)
  · rfl

/-- Reading a number part by part. -/
private theorem number_parts (neg : Bool) {ds fs r r₁ r₂ : List Char} {e : Int}
    (hd : ∀ c ∈ ds, c.isDigit = true) (hne : ds ≠ []) (hz : ds = ['0'] ∨ ds.head? ≠ some '0')
    (hr : ∀ c ∈ r.head?, c.isDigit = false) (hf : fraction r = some (fs, r₁))
    (he : exponent r₁ = some (e, r₂)) :
    number ((if neg then ['-'] else []) ++ ds ++ r) =
      some (⟨neg, Nat.ofDigitChars 10 (ds ++ fs) 0, e - fs.length⟩, r₂) := by
  have hm : minus ((if neg then ['-'] else []) ++ ds ++ r) = (neg, ds ++ r) := by
    cases neg with
    | true => rfl
    | false =>
      cases ds with
      | nil => exact absurd rfl hne
      | cons c ds =>
        have hc := hd c List.mem_cons_self
        unfold minus
        split
        · next h =>
          simp only [Bool.false_eq_true, if_false, List.nil_append, List.cons_append,
            List.cons.injEq] at h
          rw [h.1] at hc
          cases hc
        · rfl
  have hc : ¬ (ds = [] ∨ ds.head? = some '0' ∧ 1 < ds.length) := by
    rintro (h | ⟨h₀, h₁⟩)
    · exact hne h
    · rcases hz with rfl | h
      · exact absurd h₁ (by decide)
      · exact h h₀
  simp only [number, hm, takeWhile_digits hd hr, dropWhile_digits hd hr, hc, if_false, hf,
    Option.bind_some, he, Option.map_some]

private theorem fraction_digits {fs r : List Char} (hf : ∀ c ∈ fs, c.isDigit = true) (hne : fs ≠ [])
    (hr : ∀ c ∈ r.head?, c.isDigit = false) : fraction ('.' :: (fs ++ r)) = some (fs, r) := by
  rw [fraction, takeWhile_digits hf hr, dropWhile_digits hf hr, if_neg hne]

private theorem exponent_print (e : Int) {r : List Char} (hr : Delimited r) :
    exponent ('e' :: (if e < 0 then '-' else '+') :: (Nat.toDigits 10 e.natAbs ++ r)) =
      some (e, r) := by
  have ht := takeWhile_digits (toDigits_isDigit e.natAbs) (delimited_head hr)
  have hd := dropWhile_digits (toDigits_isDigit e.natAbs) (delimited_head hr)
  have hne : Nat.toDigits 10 e.natAbs ≠ [] := Nat.toDigits_ne_nil
  by_cases he : e < 0
  · have hn : -(e.natAbs : Int) = e := by omega
    simp only [exponent, sign, he, if_true, true_or, ht, hd, hne, if_false,
      Nat.ofDigitChars_ten_toDigits, hn]
  · have hn : (e.natAbs : Int) = e := by omega
    simp only [exponent, sign, he, if_false, true_or, if_true, ht, hd, hne,
      Nat.ofDigitChars_ten_toDigits, hn, Bool.false_eq_true]

section Magnitude

variable {neg : Bool} {coeff : Nat} {exp : Int} {r : List Char}

private theorem length_toDigits_pos : 0 < (Nat.toDigits 10 coeff).length :=
  List.length_pos_iff.mpr Nat.toDigits_ne_nil

private theorem zero_isDigit : ∀ c ∈ ['0'], c.isDigit = true := by
  intro c hc
  rw [List.mem_singleton.mp hc]
  rfl

variable (neg) in
/-- A magnitude below one in plain notation. -/
private theorem number_below_one (hr : Delimited r) (hp : (Nat.toDigits 10 coeff).length + exp ≤ 0) :
    number ((if neg then ['-'] else []) ++ ['0'] ++ '.' ::
      (List.replicate (-((Nat.toDigits 10 coeff).length + exp)).toNat '0' ++
        Nat.toDigits 10 coeff ++ r)) = some (⟨neg, coeff, exp⟩, r) := by
  have hf : ∀ c ∈ List.replicate (-((Nat.toDigits 10 coeff).length + exp)).toNat '0' ++
      Nat.toDigits 10 coeff, c.isDigit = true := by
    intro c hc
    rcases List.mem_append.mp hc with h | h
    · rw [List.eq_of_mem_replicate h]
      rfl
    · exact toDigits_isDigit _ c h
  rw [number_parts neg zero_isDigit (List.cons_ne_nil _ _) (.inl rfl) (by simp)
    (fraction_digits hf (by simp [Nat.toDigits_ne_nil]) (delimited_head hr)) (exponent_none hr)]
  simp only [List.length_append, List.length_replicate, Nat.ofDigitChars_append,
    Nat.ofDigitChars_replicate_zero, Option.some.injEq, Prod.mk.injEq, Decimal.mk.injEq, true_and,
    and_true]
  constructor
  · have hz : Nat.ofDigitChars 10 ['0'] 0 = 0 := rfl
    rw [hz, Nat.mul_zero, Nat.ofDigitChars_ten_toDigits]
  · omega

/-- An integer in plain notation. -/
private theorem number_integer (hr : Delimited r) (hc : coeff ≠ 0) (n : Nat) :
    number ((if neg then ['-'] else []) ++ (Nat.toDigits 10 coeff ++ List.replicate n '0') ++ r) =
      some (⟨neg, 10 ^ n * coeff, 0⟩, r) := by
  have hd : ∀ c ∈ Nat.toDigits 10 coeff ++ List.replicate n '0', c.isDigit = true := by
    intro c hc
    rcases List.mem_append.mp hc with h | h
    · exact toDigits_isDigit _ c h
    · rw [List.eq_of_mem_replicate h]
      rfl
  have hne : Nat.toDigits 10 coeff ≠ [] := Nat.toDigits_ne_nil
  have hh : (Nat.toDigits 10 coeff ++ List.replicate n '0').head? ≠ some '0' := by
    rw [List.head?_append_of_ne_nil _ hne]
    exact head_toDigits hc
  rw [number_parts neg hd (by simp [hne]) (.inr hh) (delimited_head hr)
    (fraction_none fun c hc ↦ (hr c hc).2.1) (exponent_none hr), List.append_nil,
    Nat.ofDigitChars_append, Nat.ofDigitChars_replicate_zero, Nat.ofDigitChars_ten_toDigits]
  rfl

variable (neg) in
/-- Digits split by a decimal point. -/
private theorem number_split (hc : coeff ≠ 0) {n : Nat} (hn : 0 < n)
    (hl : n < (Nat.toDigits 10 coeff).length) {e : Int} {r' : List Char}
    (hr : ∀ c ∈ r.head?, c.isDigit = false) (he : exponent r = some (e, r')) :
    number ((if neg then ['-'] else []) ++ (Nat.toDigits 10 coeff).take n ++
      '.' :: ((Nat.toDigits 10 coeff).drop n ++ r)) =
      some (⟨neg, coeff, e + n - (Nat.toDigits 10 coeff).length⟩, r') := by
  have hd := toDigits_isDigit coeff
  have hh : ((Nat.toDigits 10 coeff).take n).head? ≠ some '0' := by
    rw [List.head?_take, if_neg (by omega)]
    exact head_toDigits hc
  have hne : (Nat.toDigits 10 coeff).take n ≠ [] := by
    rw [← List.length_pos_iff, List.length_take]
    omega
  have hne' : (Nat.toDigits 10 coeff).drop n ≠ [] := by
    rw [← List.length_pos_iff, List.length_drop]
    omega
  rw [number_parts neg (fun c h ↦ hd c (List.mem_of_mem_take h)) hne (.inr hh) (by simp)
    (fraction_digits (fun c h ↦ hd c (List.mem_of_mem_drop h)) hne' hr) he,
    List.take_append_drop, Nat.ofDigitChars_ten_toDigits, List.length_drop]
  simp only [Option.some.injEq, Prod.mk.injEq, Decimal.mk.injEq, true_and, and_true]
  omega

/-- Digits with an exponent. -/
private theorem number_scientific (hr : Delimited r) (hc : coeff ≠ 0) :
    let point : Int := (Nat.toDigits 10 coeff).length + exp
    number ((if neg then ['-'] else []) ++ ((Nat.toDigits 10 coeff).take 1 ++
      (if (Nat.toDigits 10 coeff).length = 1 then [] else '.' :: (Nat.toDigits 10 coeff).drop 1) ++
      'e' :: (if point ≤ 0 then '-' else '+') :: Nat.toDigits 10 (point - 1).natAbs) ++ r) =
      some (⟨neg, coeff, exp⟩, r) := by
  intro point
  have he := exponent_print (point - 1) hr
  have hs : (point - 1 < 0) = (point ≤ 0) := propext (by omega)
  simp only [hs] at he
  by_cases hl : (Nat.toDigits 10 coeff).length = 1
  · rw [if_pos hl]
    have ht : (Nat.toDigits 10 coeff).take 1 = Nat.toDigits 10 coeff :=
      List.take_of_length_le hl.le
    have h := number_parts neg (toDigits_isDigit coeff) Nat.toDigits_ne_nil
      (.inr (head_toDigits hc)) (by simp) (fraction_none (by simp)) he
    rw [List.append_nil, Nat.ofDigitChars_ten_toDigits] at h
    have hx : point - 1 - (([] : List Char).length : Int) = exp := by
      rw [List.length_nil]
      omega
    rw [hx] at h
    simpa [ht] using h
  · rw [if_neg hl]
    have hp : 0 < (Nat.toDigits 10 coeff).length := length_toDigits_pos
    have h := number_split neg hc (by decide : 0 < 1) (by omega) (by simp) he
    have hx : point - 1 + ((1 : Nat) : Int) - (Nat.toDigits 10 coeff).length = exp := by omega
    rw [hx] at h
    simpa using h

variable (neg exp) in
private theorem number_printMagnitude (hr : Delimited r) (hc : coeff ≠ 0) :
    ∃ d, number ((if neg then ['-'] else []) ++ printMagnitude coeff exp ++ r) = some (d, r) ∧
      d.neg = neg ∧ d.magnitude = coeff * 10 ^ exp := by
  unfold printMagnitude
  by_cases hplain : -6 < ((Nat.toDigits 10 coeff).length : Int) + exp ∧
      ((Nat.toDigits 10 coeff).length : Int) + exp ≤ 21
  · rw [if_pos hplain]
    by_cases hp : ((Nat.toDigits 10 coeff).length : Int) + exp ≤ 0
    · rw [if_pos hp]
      exact ⟨_, by simpa using number_below_one neg hr hp, rfl, rfl⟩
    · rw [if_neg hp]
      by_cases he : 0 ≤ exp
      · rw [if_pos he]
        refine ⟨_, number_integer hr hc _, rfl, ?_⟩
        have hz : (10 : ℚ) ^ exp.toNat = 10 ^ exp := by
          rw [← zpow_natCast, Int.toNat_of_nonneg he]
        simp only [Decimal.magnitude, Nat.cast_mul, Nat.cast_pow, Nat.cast_ofNat, hz]
        rw [zpow_zero, mul_one, mul_comm]
      · rw [if_neg he]
        have h := number_split neg hc (n := ((Nat.toDigits 10 coeff).length + exp).toNat)
          (by omega) (by omega) (delimited_head hr) (exponent_none hr)
        have hx : (0 : Int) + (((Nat.toDigits 10 coeff).length + exp).toNat : Int) -
            (Nat.toDigits 10 coeff).length = exp := by omega
        rw [hx] at h
        exact ⟨_, by simpa using h, rfl, rfl⟩
  · rw [if_neg hplain]
    exact ⟨_, number_scientific hr hc, rfl, rfl⟩

end Magnitude

/-- A number is read with the value it was written for. -/
theorem number_print (d : Decimal) {r : List Char} (hr : Delimited r) :
    ∃ d', number (printNumber d ++ r) = some (d', r) ∧ d'.value = d.value := by
  obtain ⟨neg, coeff, exp⟩ := d
  unfold printNumber
  by_cases hc : coeff = 0
  · subst hc
    have h := number_parts neg zero_isDigit (List.cons_ne_nil _ _) (.inl rfl : ['0'] = ['0'] ∨ _)
      (delimited_head hr) (fraction_none fun c hc ↦ (hr c hc).2.1) (exponent_none hr)
    have hz : Nat.ofDigitChars 10 (['0'] ++ []) 0 = 0 := rfl
    rw [hz] at h
    refine ⟨_, h, ?_⟩
    simp only [Decimal.value, Decimal.magnitude, Nat.cast_zero, zero_mul]
  · obtain ⟨d, h, hn, hm⟩ := number_printMagnitude neg exp hr hc
    rw [if_neg hc]
    refine ⟨d, h, ?_⟩
    rw [Decimal.value, hn, hm]
    rfl

/-! ### Trees -/

/-- Skip white space. -/
def skipWs : List Char → List Char
  | [] => []
  | c :: r => if c = ' ' ∨ c = '\t' ∨ c = '\n' ∨ c = '\r' then skipWs r else c :: r

/-- Read one given character. -/
def expect (c : Char) (cs : List Char) : Option (List Char) :=
  match skipWs cs with
  | [] => none
  | d :: r => if d = c then some r else none

/-- Read the rest of a literal name. -/
def literal (rest : List Char) (j : Json Decimal) (cs : List Char) :
    Option (Json Decimal × List Char) :=
  if rest.isPrefixOf cs then some (j, cs.drop rest.length) else none

mutual

/-- Read a value. Every nested value is read with one step less; as many steps as characters are
enough. -/
def value : Nat → List Char → Option (Json Decimal × List Char)
  | 0, _ => none
  | n + 1, cs =>
    match skipWs cs with
    | [] => none
    | c :: r =>
      if c = 'n' then literal ['u', 'l', 'l'] .null r
      else if c = 't' then literal ['r', 'u', 'e'] (.bool true) r
      else if c = 'f' then literal ['a', 'l', 's', 'e'] (.bool false) r
      else if c = '"' then (string r).map fun (s, r) ↦ (.str s, r)
      else if c = '[' then (elements true n r).map fun (xs, r) ↦ (.arr xs, r)
      else if c = '{' then (members true n r).map fun (ms, r) ↦ (.obj ms, r)
      else (number (c :: r)).map fun (d, r) ↦ (.num d, r)

/-- Read the elements of an array that are left; all but the first stand after a comma. -/
def elements : Bool → Nat → List Char → Option (List (Json Decimal) × List Char)
  | _, 0, _ => none
  | first, n + 1, cs =>
    match expect ']' cs with
    | some r => some ([], r)
    | none => do
      let r ← if first then some cs else expect ',' cs
      let (x, r) ← value n r
      let (xs, r) ← elements false n r
      return (x :: xs, r)

/-- Read the members of an object that are left; all but the first stand after a comma. -/
def members : Bool → Nat → List Char → Option (List (String × Json Decimal) × List Char)
  | _, 0, _ => none
  | first, n + 1, cs =>
    match expect '}' cs with
    | some r => some ([], r)
    | none => do
      let r ← if first then some cs else expect ',' cs
      let r ← expect '"' r
      let (k, r) ← string r
      let r ← expect ':' r
      let (x, r) ← value n r
      let (ms, r) ← members false n r
      return ((k, x) :: ms, r)

end

/-- The first value of a text. -/
def parsePrefix (s : String) : Option (Json Decimal × List Char) := value (s.length + 1) s.toList

/-- The value that is the whole text. -/
def parse (s : String) : Option (Json Decimal) :=
  match parsePrefix s with
  | some (j, r) => if skipWs r = [] then some j else none
  | none => none

mutual

/-- Write a tree. -/
def printChars : Json Decimal → List Char
  | .null => ['n', 'u', 'l', 'l']
  | .bool true => ['t', 'r', 'u', 'e']
  | .bool false => ['f', 'a', 'l', 's', 'e']
  | .num d => printNumber d
  | .str s => printString s
  | .arr xs => '[' :: printElems true xs
  | .obj ms => '{' :: printMembers true ms

/-- Write the elements of an array that are left. -/
def printElems : Bool → List (Json Decimal) → List Char
  | _, [] => [']']
  | first, x :: xs => (if first then [] else [',']) ++ (printChars x ++ printElems false xs)

/-- Write the members of an object that are left. -/
def printMembers : Bool → List (String × Json Decimal) → List Char
  | _, [] => ['}']
  | first, (k, x) :: ms =>
    (if first then [] else [',']) ++
      (printString k ++ ':' :: (printChars x ++ printMembers false ms))

end

/-- The compact text of a tree. -/
def print (j : Json Decimal) : String := String.ofList j.printChars

/-- A character that begins a value. -/
def Begins (c : Char) : Prop := c ∉ [' ', '\t', '\n', '\r', ']', '}']

instance (c : Char) : Decidable (Begins c) := inferInstanceAs (Decidable (c ∉ _))

private theorem skipWs_cons {c : Char} (hc : Begins c) (r : List Char) :
    skipWs (c :: r) = c :: r := by
  simp only [Begins, List.mem_cons, List.not_mem_nil, or_false, not_or] at hc
  simp [skipWs, hc]

private theorem expect_self {c : Char} (hc : skipWs [c] = [c]) (r : List Char) :
    expect c (c :: r) = some r := by
  have hs : ¬ (c = ' ' ∨ c = '\t' ∨ c = '\n' ∨ c = '\r') := fun h ↦ by
    rw [skipWs, if_pos h] at hc
    cases hc
  rw [expect, skipWs, if_neg hs]
  simp

private theorem expect_close {c d : Char} (hc : Begins c) (hd : d = ']' ∨ d = '}') (r : List Char) :
    expect d (c :: r) = none := by
  have hne : c ≠ d := by
    rintro rfl
    exact hc (by rcases hd with rfl | rfl <;> decide)
  rw [expect, skipWs_cons hc]
  exact if_neg hne

private theorem number_head {cs : List Char} {x : Decimal × List Char} (h : number cs = some x) :
    ∃ c r, cs = c :: r ∧ (c = '-' ∨ c.isDigit = true) := by
  cases cs with
  | nil => simp [number, minus] at h
  | cons c r =>
    refine ⟨c, r, rfl, ?_⟩
    by_cases hc : c = '-'
    · exact .inl hc
    · by_cases hd : c.isDigit = true
      · exact .inr hd
      · have hm : minus (c :: r) = (false, c :: r) := by
          unfold minus
          split
          · next h => exact absurd (List.cons.inj h).1 hc
          · rfl
        simp [number, hm, hd] at h

private theorem delimited_of_head {c : Char} {r : List Char} (hc : c ∈ [',', ']', '}']) :
    Delimited (c :: r) := by
  intro d hd
  cases hd
  simp only [List.mem_cons, List.not_mem_nil, or_false] at hc
  rcases hc with rfl | rfl | rfl <;> decide

private theorem digit_begins {c : Char} (h : c = '-' ∨ c.isDigit = true) : Begins c := by
  intro hc
  simp only [List.mem_cons, List.not_mem_nil, or_false] at hc
  rcases hc with rfl | rfl | rfl | rfl | rfl | rfl <;> revert h <;> decide

/-- The text of a value is not empty. -/
private theorem printChars_begins (j : Json Decimal) :
    ∃ c r, j.printChars = c :: r ∧ Begins c := by
  cases j with
  | num d =>
    obtain ⟨d', h, -⟩ := number_print d (r := []) (fun c hc ↦ by cases hc)
    obtain ⟨c, r, he, hc⟩ := number_head h
    rw [List.append_nil] at he
    exact ⟨c, r, he, digit_begins hc⟩
  | bool b => cases b <;> exact ⟨_, _, rfl, by decide⟩
  | _ => exact ⟨_, _, rfl, by decide⟩

/-- A tree is read with the value it was written for. -/
private def Reads (j : Json Decimal) : Prop :=
  ∀ (n : Nat) (r : List Char), j.printChars.length ≤ n → Delimited r →
    ∃ j', value n (j.printChars ++ r) = some (j', r) ∧ j'.map Decimal.value = j.map Decimal.value

private theorem reads_num (d : Decimal) : Reads (.num d) := by
  intro n r hn hr
  obtain ⟨c, cs, hp, hb⟩ := printChars_begins (.num d)
  obtain ⟨d', h, hv⟩ := number_print d hr
  rw [printChars] at hp
  obtain ⟨c', cs', he, hc⟩ := number_head h
  have hcc : c' = c := by
    rw [hp, List.cons_append] at he
    exact (List.cons.inj he).1.symm
  subst hcc
  have hne : ∀ a ∈ ['n', 't', 'f', '"', '[', '{'], c' ≠ a := by
    rintro a ha rfl
    revert hc
    simp only [List.mem_cons, List.not_mem_nil, or_false] at ha
    rcases ha with rfl | rfl | rfl | rfl | rfl | rfl <;> decide
  simp only [List.mem_cons, List.not_mem_nil, or_false, forall_eq_or_imp, forall_eq] at hne
  obtain ⟨h₁, h₂, h₃, h₄, h₅, h₆⟩ := hne
  cases n with
  | zero =>
    rw [printChars, hp] at hn
    cases hn
  | succ n =>
    refine ⟨.num d', ?_, by rw [map, map, hv]⟩
    rw [hp, List.cons_append] at h
    rw [printChars, hp, List.cons_append, value, skipWs_cons hb]
    simp only [h₁, h₂, h₃, h₄, h₅, h₆, if_false, h, Option.map_some]

private theorem reads_str (s : String) : Reads (.str s) := by
  intro n r hn hr
  cases n with
  | zero => cases hn
  | succ n =>
    have h := string_print s r
    refine ⟨.str s, ?_, rfl⟩
    rw [printChars, printString, List.cons_append, value, skipWs_cons (by decide)]
    simp only [Char.reduceEq, if_false, if_true, List.append_assoc, List.cons_append,
      List.nil_append, h, Option.map_some]

private theorem delimited_elems (xs : List (Json Decimal)) (r : List Char) :
    Delimited (printElems false xs ++ r) := by
  cases xs with
  | nil => exact delimited_of_head (by decide)
  | cons x xs => exact delimited_of_head (by decide)

private theorem delimited_members (ms : List (String × Json Decimal)) (r : List Char) :
    Delimited (printMembers false ms ++ r) := by
  cases ms with
  | nil => exact delimited_of_head (by decide)
  | cons m ms =>
    obtain ⟨k, x⟩ := m
    exact delimited_of_head (by decide)

private theorem reads_elems {xs : List (Json Decimal)} (ih : ∀ x ∈ xs, Reads x) (first : Bool)
    (n : Nat) (r : List Char) (hn : (printElems first xs).length ≤ n) :
    ∃ xs', elements first n (printElems first xs ++ r) = some (xs', r) ∧
      mapElems Decimal.value xs' = mapElems Decimal.value xs := by
  induction xs generalizing first n with
  | nil =>
    cases n with
    | zero => cases hn
    | succ n =>
      refine ⟨[], ?_, rfl⟩
      rw [printElems, List.cons_append, elements, expect_self (by decide)]
      rfl
  | cons x xs ihx =>
    cases n with
    | zero =>
      obtain ⟨c, cs, hp, -⟩ := printChars_begins x
      simp [printElems, hp] at hn
    | succ n =>
      obtain ⟨c, cs, hp, hb⟩ := printChars_begins x
      simp only [printElems, List.length_append] at hn
      have hpos : 0 < (printElems false xs).length := by
        cases xs <;> simp [printElems]
      obtain ⟨x', hx, hxv⟩ := ih x List.mem_cons_self n (printElems false xs ++ r)
        (by omega) (delimited_elems xs r)
      have hlen : 0 < (if first then [] else [',']).length + x.printChars.length := by
        rw [hp]
        simp
      obtain ⟨xs', hxs, hxsv⟩ := ihx (fun x hx ↦ ih x (List.mem_cons_of_mem _ hx)) false n
        (by omega)
      refine ⟨x' :: xs', ?_, by rw [mapElems, mapElems, hxv, hxsv]⟩
      cases first with
      | true =>
        have hexp : expect ']' (x.printChars ++ (printElems false xs ++ r)) = none := by
          rw [hp]
          exact expect_close hb (.inl rfl) _
        simp [printElems, elements, hexp, hx, hxs]
      | false =>
        have hexp : expect ']' (',' :: (x.printChars ++ (printElems false xs ++ r))) = none :=
          expect_close (by decide) (.inl rfl) _
        have hcomma : expect ',' (',' :: (x.printChars ++ (printElems false xs ++ r))) =
          some (x.printChars ++ (printElems false xs ++ r)) := expect_self (by decide) _
        simp [printElems, elements, hexp, hcomma, hx, hxs]

private theorem reads_members {ms : List (String × Json Decimal)} (ih : ∀ m ∈ ms, Reads m.2)
    (first : Bool) (n : Nat) (r : List Char) (hn : (printMembers first ms).length ≤ n) :
    ∃ ms', members first n (printMembers first ms ++ r) = some (ms', r) ∧
      mapMembers Decimal.value ms' = mapMembers Decimal.value ms := by
  induction ms generalizing first n with
  | nil =>
    cases n with
    | zero => cases hn
    | succ n =>
      refine ⟨[], ?_, rfl⟩
      rw [printMembers, List.cons_append, members, expect_self (by decide)]
      rfl
  | cons m ms ihm =>
    obtain ⟨k, x⟩ := m
    cases n with
    | zero =>
      simp [printMembers, printString] at hn
    | succ n =>
      simp only [printMembers, printString, List.length_append, List.length_cons] at hn
      obtain ⟨x', hx, hxv⟩ := ih (k, x) List.mem_cons_self n (printMembers false ms ++ r)
        (by simp only; omega) (delimited_members ms r)
      obtain ⟨ms', hms, hmsv⟩ := ihm (fun m hm ↦ ih m (List.mem_cons_of_mem _ hm)) false n
        (by omega)
      refine ⟨(k, x') :: ms', ?_, by rw [mapMembers, mapMembers, hxv, hmsv]⟩
      have hk := string_print k (':' :: (x.printChars ++ (printMembers false ms ++ r)))
      have hcolon : expect ':' (':' :: (x.printChars ++ (printMembers false ms ++ r))) =
        some (x.printChars ++ (printMembers false ms ++ r)) := expect_self (by decide) _
      have hquote : ∀ r, expect '"' ('"' :: r) = some r := expect_self (by decide)
      cases first with
      | true =>
        have hexp : ∀ r, expect '}' ('"' :: r) = none := expect_close (by decide) (.inr rfl)
        simp [printMembers, printString, members, hexp, hquote, hk, hcolon, hx, hms]
      | false =>
        have hexp : ∀ r, expect '}' (',' :: r) = none := expect_close (by decide) (.inr rfl)
        have hcomma : ∀ r, expect ',' (',' :: r) = some r := expect_self (by decide)
        simp [printMembers, printString, members, hexp, hcomma, hquote, hk, hcolon, hx, hms]

private theorem reads (j : Json Decimal) : Reads j := by
  induction j with
  | num d => exact reads_num d
  | str s => exact reads_str s
  | arr xs ih =>
    intro n r hn hr
    cases n with
    | zero => cases hn
    | succ n =>
      obtain ⟨xs', h, hv⟩ := reads_elems ih true n r (Nat.le_of_succ_le_succ hn)
      refine ⟨.arr xs', ?_, by rw [map, map, hv]⟩
      rw [printChars, List.cons_append, value, skipWs_cons (by decide)]
      simp [h]
  | obj ms ih =>
    intro n r hn hr
    cases n with
    | zero => cases hn
    | succ n =>
      obtain ⟨ms', h, hv⟩ := reads_members ih true n r (Nat.le_of_succ_le_succ hn)
      refine ⟨.obj ms', ?_, by rw [map, map, hv]⟩
      rw [printChars, List.cons_append, value, skipWs_cons (by decide)]
      simp [h]
  | bool b =>
    intro n r hn hr
    cases n with
    | zero => cases b <;> cases hn
    | succ n => cases b <;> exact ⟨_, rfl, rfl⟩
  | null =>
    intro n r hn hr
    cases n with
    | zero => cases hn
    | succ n => exact ⟨_, rfl, rfl⟩

/-- A text that was written parses to a tree that denotes the same. -/
theorem parse_print (j : Json Decimal) :
    ∃ j', parse j.print = some j' ∧ j'.map Decimal.value = j.map Decimal.value := by
  have hl : j.print.length = j.printChars.length := by
    rw [print, String.length_ofList]
  obtain ⟨j', h, hv⟩ := reads j (j.printChars.length + 1) [] (Nat.le_succ _)
    (fun c hc ↦ by cases hc)
  rw [List.append_nil] at h
  refine ⟨j', ?_, hv⟩
  rw [parse, parsePrefix, hl, print, String.toList_ofList, h]
  rfl

end Json
