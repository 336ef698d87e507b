import Chis.Base.Calendar
import Mathlib.Algebra.Ring.Int.Defs

/-!
# Reading timestamps

A reader of the timestamps of RFC 3339, and what it reads from the calendar texts of an instant.
`dayNumber` inverts `civil`, by taking a day apart into centuries, leap cycles and years.
-/

namespace Calendar

/-! ### Days -/

/-- The number of a day counted from the epoch. -/
def dayNumber (y : Int) (m d : Nat) : Int :=
  let y := if m ≤ 2 then y - 1 else y
  let mp := if 2 < m then m - 3 else m + 9
  let yoe := (y % 400).toNat
  let doy := (153 * mp + 2) / 5 + d - 1
  y / 400 * 146097 + (yoe * 365 + yoe / 4 - yoe / 100 + doy : Nat) - 719468

/-- A day of a cycle of 400 years, by its century, leap cycle, year and day. -/
private structure Split (doe c q s d : Nat) : Prop where
  century : c ≤ 3
  cycle : q ≤ 24
  year : s ≤ 3
  day : d ≤ if s = 3 then 365 else 364
  within : 1461 * q + 365 * s + d ≤ if c = 3 then 36524 else 36523
  sum : doe = 36524 * c + 1461 * q + 365 * s + d

private theorem exists_split {doe : Nat} (h : doe < 146097) : ∃ c q s d, Split doe c q s d := by
  obtain ⟨c, hc⟩ : ∃ c, c = min (doe / 36524) 3 := ⟨_, rfl⟩
  obtain ⟨r, hr⟩ : ∃ r, r = doe - 36524 * c := ⟨_, rfl⟩
  obtain ⟨q, hq⟩ : ∃ q, q = r / 1461 := ⟨_, rfl⟩
  obtain ⟨s, hs⟩ : ∃ s, s = min (r % 1461 / 365) 3 := ⟨_, rfl⟩
  refine ⟨c, q, s, r % 1461 - 365 * s, ?_, ?_, ?_, ?_, ?_, ?_⟩
  · omega
  · omega
  · omega
  · split <;> omega
  · split <;> omega
  · omega

/-- The year that `civil` computes. -/
private theorem Split.yoe {doe c q s d : Nat} (h : Split doe c q s d) :
    (doe - doe / 1460 + doe / 36524 - doe / 146096) / 365 = 100 * c + 4 * q + s := by
  obtain ⟨hc, hq, hs, hd, hw, hsum⟩ := h
  have h₁ : doe / 1460 = 25 * c + q + (24 * c + q + 365 * s + d) / 1460 := by omega
  have h₂ : (24 * c + q + 365 * s + d) / 1460 =
      if 1460 ≤ 24 * c + q + 365 * s + d then 1 else 0 := by
    split at hd <;> split at hw <;> split <;> omega
  have h₃ : doe / 36524 = if doe = 146096 then 4 else c := by
    split at hd <;> split at hw <;> split <;> omega
  have h₄ : doe / 146096 = if doe = 146096 then 1 else 0 := by
    split at hd <;> split at hw <;> split <;> omega
  rw [h₁, h₂, h₃, h₄]
  split at hd <;> split at hw <;> split <;> split <;> omega

/-- The day of that year. -/
private theorem Split.doy {doe c q s d : Nat} (h : Split doe c q s d) :
    365 * (100 * c + 4 * q + s) + (100 * c + 4 * q + s) / 4 - (100 * c + 4 * q + s) / 100 + d =
      doe := by
  obtain ⟨hc, hq, hs, hd, hw, hsum⟩ := h
  omega

/-- What `civil` takes from a day: a year of its cycle, and a day of that year. -/
private theorem year_and_day {doe : Nat} (h : doe < 146097) :
    ∃ yoe doy : Nat, (doe - doe / 1460 + doe / 36524 - doe / 146096) / 365 = yoe ∧ yoe < 400 ∧
      doy ≤ 365 ∧ doe = yoe * 365 + yoe / 4 - yoe / 100 + doy := by
  obtain ⟨c, q, s, d, hs⟩ := exists_split h
  refine ⟨100 * c + 4 * q + s, d, hs.yoe, ?_, ?_, ?_⟩
  · have := hs.century
    have := hs.cycle
    have := hs.year
    omega
  · have hd := hs.day
    split at hd <;> omega
  · have hdoy := hs.doy
    omega

/-- The month and the day of the month, counted from March, by the day of the year. -/
private theorem month_and_day {doy : Nat} (h : doy ≤ 365) :
    (5 * doy + 2) / 153 ≤ 11 ∧ (153 * ((5 * doy + 2) / 153) + 2) / 5 ≤ doy ∧
      doy - (153 * ((5 * doy + 2) / 153) + 2) / 5 ≤ 30 := by
  omega

/-- `civil`, by the year of the cycle and the day of that year. -/
private theorem civil_eq {day : Int} {yoe doy : Nat}
    (hyoe : let doe := ((day + 719468) % 146097).toNat
      (doe - doe / 1460 + doe / 36524 - doe / 146096) / 365 = yoe ∧
        doe = yoe * 365 + yoe / 4 - yoe / 100 + doy) :
    let mp := (5 * doy + 2) / 153
    let m := if mp < 10 then mp + 3 else mp - 9
    civil day = ((day + 719468) / 146097 * 400 + yoe + (if m ≤ 2 then 1 else 0), m,
      doy - (153 * mp + 2) / 5 + 1) := by
  obtain ⟨hy, hd⟩ := hyoe
  have hdoy : ((day + 719468) % 146097).toNat - (365 * yoe + yoe / 4 - yoe / 100) = doy := by omega
  unfold civil
  simp only [hy, hdoy]

private theorem civil_parts (day : Int) : ∃ (era : Int) (yoe doy : Nat), yoe < 400 ∧ doy ≤ 365 ∧
    day + 719468 = era * 146097 + (yoe * 365 + yoe / 4 - yoe / 100 + doy : Nat) ∧
    (let mp := (5 * doy + 2) / 153
      let m := if mp < 10 then mp + 3 else mp - 9
      civil day = (era * 400 + yoe + (if m ≤ 2 then 1 else 0), m, doy - (153 * mp + 2) / 5 + 1)) := by
  have hdoe : ((day + 719468) % 146097).toNat < 146097 := by omega
  obtain ⟨yoe, doy, hy, hlt, hle, hd⟩ := year_and_day hdoe
  exact ⟨(day + 719468) / 146097, yoe, doy, hlt, hle, by omega, civil_eq ⟨hy, hd⟩⟩

/-- The months have the numbers 1 to 12, their days the numbers 1 to 31. -/
theorem civil_range (day : Int) :
    (1 ≤ (civil day).2.1 ∧ (civil day).2.1 ≤ 12) ∧ 1 ≤ (civil day).2.2 ∧ (civil day).2.2 ≤ 31 := by
  obtain ⟨era, yoe, doy, -, hdoy, -, hcivil⟩ := civil_parts day
  obtain ⟨hmp, hle, hd⟩ := month_and_day hdoy
  rw [hcivil]
  have hmonth (mp : Nat) (h : mp ≤ 11) : 1 ≤ (if mp < 10 then mp + 3 else mp - 9) ∧
      (if mp < 10 then mp + 3 else mp - 9) ≤ 12 := by
    split <;> omega
  exact ⟨hmonth _ hmp, by show 1 ≤ _ + 1; omega, by show _ + 1 ≤ 31; omega⟩

/-- A day is the day of its date. -/
theorem dayNumber_civil (day : Int) :
    dayNumber (civil day).1 (civil day).2.1 (civil day).2.2 = day := by
  obtain ⟨era, yoe, doy, hyoe, hdoy, hday, hcivil⟩ := civil_parts day
  obtain ⟨hmp, hle, hd⟩ := month_and_day hdoy
  generalize hm : (5 * doy + 2) / 153 = mp at *
  have hyear : (era * 400 + yoe : Int) / 400 = era ∧ ((era * 400 + yoe : Int) % 400).toNat = yoe := by
    omega
  rw [hcivil]
  unfold dayNumber
  by_cases h : mp < 10
  · have h₁ : ¬ mp + 3 ≤ 2 := by omega
    have h₂ : 2 < mp + 3 := by omega
    simp only [if_pos h, if_neg h₁, if_pos h₂, add_zero, hyear]
    omega
  · have h₁ : mp - 9 ≤ 2 := by omega
    have h₂ : ¬ 2 < mp - 9 := by omega
    simp only [if_neg h, if_pos h₁, if_neg h₂, add_sub_cancel_right, hyear]
    omega

/-! ### The reader -/

/-- The number that the next `width` characters write. -/
def readNumber (width : Nat) (cs : List Char) : Option (Nat × List Char) :=
  let ds := cs.take width
  if ds.length = width ∧ ds.all Char.isDigit then some (Nat.ofDigitChars 10 ds 0, cs.drop width)
  else none

/-- The rest after a character that has to come next. -/
def readChar (c : Char) : List Char → Option (List Char)
  | [] => none
  | c' :: cs => if c' = c then some cs else none

/-- A date of the calendar, as its day. -/
def readDate (cs : List Char) : Option (Int × List Char) := do
  let (y, cs) ← readNumber 4 cs
  let cs ← readChar '-' cs
  let (m, cs) ← readNumber 2 cs
  let cs ← readChar '-' cs
  let (d, cs) ← readNumber 2 cs
  let day := dayNumber y m d
  if civil day = (↑y, m, d) then some (day, cs) else none

/-- A time of day in seconds; a minute may have a leap second. -/
def readTime (cs : List Char) : Option (Nat × List Char) := do
  let (h, cs) ← readNumber 2 cs
  let cs ← readChar ':' cs
  let (m, cs) ← readNumber 2 cs
  let cs ← readChar ':' cs
  let (s, cs) ← readNumber 2 cs
  if h ≤ 23 ∧ m ≤ 59 ∧ s ≤ 60 then some ((h * 60 + m) * 60 + s, cs) else none

/-- The rest after a fraction of a second, if there is one. -/
def skipFraction : List Char → Option (List Char)
  | '.' :: cs => if cs.head?.any Char.isDigit then some (cs.dropWhile Char.isDigit) else none
  | cs => some cs

/-- Hours and minutes that end a text, in seconds. -/
def readMinutes (cs : List Char) : Option Int := do
  let (h, cs) ← readNumber 2 cs
  let cs ← readChar ':' cs
  let (m, cs) ← readNumber 2 cs
  if cs = [] ∧ h ≤ 23 ∧ m ≤ 59 then some (60 * (60 * (h : Int) + m)) else none

/-- The offset that ends a timestamp, in seconds. -/
def readOffset : List Char → Option Int
  | ['Z'] => some 0
  | '+' :: cs => readMinutes cs
  | '-' :: cs => (readMinutes cs).map fun secs ↦ -secs
  | _ => none

/-- The second, counted from the epoch, in which the instant of a timestamp lies. -/
def readRfc3339 (text : String) : Option Int := do
  let (day, cs) ← readDate text.toList
  let cs ← readChar 'T' cs
  let (secs, cs) ← readTime cs
  let cs ← skipFraction cs
  let offset ← readOffset cs
  return day * 86400 + secs - offset

example : readRfc3339 "1970-01-01T00:00:05Z" = some 5 := rfl

example : readRfc3339 "2001-02-29T00:59:59Z" = none := rfl

private theorem toList_pad (w n : Nat) : (pad w n).toList =
    List.replicate (w - (Nat.toDigits 10 n).length) '0' ++ Nat.toDigits 10 n :=
  String.toList_ofList

private theorem pad_isDigit {w n : Nat} {c : Char} (h : c ∈ (pad w n).toList) :
    c.isDigit = true := by
  rw [toList_pad, List.mem_append] at h
  cases h with
  | inl hz => exact (List.mem_replicate.mp hz).2 ▸ rfl
  | inr hd => exact Nat.isDigit_of_mem_toDigits (by decide) (by decide) hd

private theorem readNumber_digits {ds rest : List Char} (h : ∀ c ∈ ds, c.isDigit = true) :
    readNumber ds.length (ds ++ rest) = some (Nat.ofDigitChars 10 ds 0, rest) := by
  unfold readNumber
  rw [List.take_left, List.drop_left, if_pos ⟨rfl, List.all_eq_true.mpr h⟩]

@[simp] private theorem readNumber_pad {w n : Nat} {rest : List Char} (hw : 0 < w)
    (h : n < 10 ^ w) : readNumber w ((pad w n).toList ++ rest) = some (n, rest) := by
  have hlen : (Nat.toDigits 10 n).length ≤ w :=
    (Nat.length_toDigits_le_iff (by decide) hw).mpr h
  have hpad : (pad w n).toList.length = w := by
    rw [toList_pad, List.length_append, List.length_replicate]
    omega
  have hread := @readNumber_digits (pad w n).toList rest fun c hc ↦ pad_isDigit hc
  rw [hpad] at hread
  rw [hread, toList_pad, Nat.ofDigitChars_append, Nat.ofDigitChars_replicate_zero, Nat.mul_zero,
    Nat.ofDigitChars_ten_toDigits]

@[simp] private theorem readChar_cons (c : Char) (cs : List Char) :
    readChar c (c :: cs) = some cs :=
  if_pos rfl

private theorem readDate_text {y : Int} {m d : Nat} {rest : List Char} (hy : 0 ≤ y ∧ y ≤ 9999)
    (hm : m ≤ 12) (hd : d ≤ 31) :
    readDate ((yearText y).toList ++ '-' :: ((pad 2 m).toList ++ '-' :: ((pad 2 d).toList ++ rest))) =
      if civil (dayNumber y m d) = (y, m, d) then some (dayNumber y m d, rest) else none := by
  have hyear : yearText y = pad 4 y.toNat := if_neg (by omega)
  have hcast : (y.toNat : Int) = y := Int.toNat_of_nonneg hy.1
  unfold readDate
  rw [hyear, readNumber_pad (by decide) (by omega)]
  simp [readNumber_pad (w := 2) (n := m) (by decide) (by omega),
    readNumber_pad (w := 2) (n := d) (by decide) (by omega), hcast]

private theorem readTime_text {h m s : Nat} {rest : List Char} (hh : h ≤ 23) (hm : m ≤ 59)
    (hs : s ≤ 59) :
    readTime ((pad 2 h).toList ++ ':' :: ((pad 2 m).toList ++ ':' :: ((pad 2 s).toList ++ rest))) =
      some ((h * 60 + m) * 60 + s, rest) := by
  unfold readTime
  simp [readNumber_pad (w := 2) (n := h) (by decide) (by omega),
    readNumber_pad (w := 2) (n := m) (by decide) (by omega),
    readNumber_pad (w := 2) (n := s) (by decide) (by omega), hh, hm]
  omega

/-- A year of another length is not read. -/
private theorem readDate_year {y : Int} {rest : List Char} (hy : ¬ (0 ≤ y ∧ y ≤ 9999)) :
    readDate ((yearText y).toList ++ '-' :: rest) = none := by
  unfold yearText readDate
  split
  · have hsign (cs : List Char) : readNumber 4 ('-' :: cs) = none := if_neg (by simp)
    rw [String.toList_append]
    show (readNumber 4 ('-' :: ((pad 4 y.natAbs).toList ++ '-' :: rest)) >>= _) = none
    rw [hsign]
    rfl
  · next hneg =>
    have hlen : 4 < (Nat.toDigits 10 y.toNat).length := by
      have := Nat.length_toDigits_le_iff (b := 10) (n := y.toNat) (k := 4) (by decide) (by decide)
      omega
    have htext : (pad 4 y.toNat).toList = Nat.toDigits 10 y.toNat := by
      rw [toList_pad, Nat.sub_eq_zero_of_le (Nat.le_of_lt hlen)]
      rfl
    have hdigit {c : Char} (hc : c ∈ Nat.toDigits 10 y.toNat) : c.isDigit = true :=
      Nat.isDigit_of_mem_toDigits (by decide) (by decide) hc
    rw [htext]
    -- A fifth digit stands where the hyphen should.
    generalize Nat.toDigits 10 y.toNat = ds at hlen hdigit
    have hsplit : ds = ds.take 4 ++ ds[4] :: ds.drop 5 := by
      rw [← List.drop_eq_getElem_cons hlen, List.take_append_drop]
    have hfour : (ds.take 4).length = 4 := List.length_take_of_le (Nat.le_of_lt hlen)
    have hread := @readNumber_digits (ds.take 4) (ds[4] :: ds.drop 5 ++ '-' :: rest)
      fun c hc ↦ hdigit (List.mem_of_mem_take hc)
    have hfifth : ds[4] ≠ '-' := fun he ↦
      absurd (hdigit (List.getElem_mem hlen)) (he ▸ by decide)
    rw [hfour, ← List.append_assoc, ← hsplit] at hread
    have hhyphen : readChar '-' (ds[4] :: ds.drop 5 ++ '-' :: rest) = none := if_neg hfifth
    rw [hread]
    simp only [Option.bind_eq_bind, Option.bind_some, hhyphen, Option.bind_none]

/-! ### What is read from the texts -/

/-- The year that the clock of a zone shows. -/
def clockYear (zone t : Int) : Int := (civil ((t / 1000000 + zone) / 86400)).1

private theorem toList_clockText (zone t : Int) (rest : String) :
    let secs := t / 1000000 + zone
    let date := civil (secs / 86400)
    let s := (secs % 86400).toNat
    (clockText zone t ++ rest).toList = (yearText date.1).toList ++ '-' :: ((pad 2 date.2.1).toList ++
      '-' :: ((pad 2 date.2.2).toList ++ 'T' :: ((pad 2 (s / 3600)).toList ++ ':' ::
        ((pad 2 (s / 60 % 60)).toList ++ ':' :: ((pad 2 (s % 60)).toList ++ rest.toList))))) := by
  simp [clockText, String.toList_append]

/-- A clock with a year of four digits is read as the clock of its zone. -/
theorem read_clockText {zone t : Int} (hy : 0 ≤ clockYear zone t ∧ clockYear zone t ≤ 9999)
    (rest : String) : readRfc3339 (clockText zone t ++ rest) =
      (skipFraction rest.toList >>= readOffset).map (t / 1000000 + zone - ·) := by
  have hdate := civil_range ((t / 1000000 + zone) / 86400)
  have hday := dayNumber_civil ((t / 1000000 + zone) / 86400)
  have hclock (day : Int) (s : Nat) : day * 86400 + ((s / 3600 * 60 + s / 60 % 60) * 60 + s % 60 : Nat) =
      day * 86400 + s := by
    have : (s / 3600 * 60 + s / 60 % 60) * 60 + s % 60 = s := by omega
    rw [this]
  unfold clockYear at hy
  unfold readRfc3339
  rw [toList_clockText, readDate_text hy hdate.1.2 hdate.2.2, hday, if_pos rfl]
  simp only [Option.bind_eq_bind, Option.bind_some, readChar_cons]
  rw [readTime_text (by omega) (by omega) (by omega)]
  simp only [Option.bind_some, hclock]
  have hsecs : (t / 1000000 + zone) / 86400 * 86400 + ((t / 1000000 + zone) % 86400).toNat =
      t / 1000000 + zone := by
    omega
  rw [hsecs]
  cases skipFraction rest.toList with
  | none => rfl
  | some cs =>
    rw [Option.bind_some, Option.bind_some]
    cases readOffset cs <;> rfl

/-- A clock with another year is not read. -/
theorem not_read_clockText {zone t : Int} (hy : ¬ (0 ≤ clockYear zone t ∧ clockYear zone t ≤ 9999))
    (rest : String) : readRfc3339 (clockText zone t ++ rest) = none := by
  unfold clockYear at hy
  unfold readRfc3339
  rw [toList_clockText, readDate_year hy]
  rfl

/-- The letter `Z` says that the clock is that of UTC. -/
theorem read_clockZ_iff {zone t : Int} : readRfc3339 (clockZ zone t) = some (t / 1000000) ↔
    zone = 0 ∧ 0 ≤ clockYear zone t ∧ clockYear zone t ≤ 9999 := by
  unfold clockZ
  by_cases hy : 0 ≤ clockYear zone t ∧ clockYear zone t ≤ 9999
  · rw [read_clockText hy]
    show some (t / 1000000 + zone - 0) = some (t / 1000000) ↔ _
    rw [Option.some_inj]
    omega
  · rw [not_read_clockText hy]
    exact ⟨fun h ↦ (nomatch h), fun h ↦ absurd h.2 hy⟩

private theorem readMinutes_text {h m : Nat} (hh : h ≤ 23) (hm : m ≤ 59) :
    readMinutes ((pad 2 h).toList ++ ':' :: (pad 2 m).toList) = some (60 * (60 * (h : Int) + m)) := by
  have hmin := @readNumber_pad 2 m [] (by decide) (by omega)
  rw [List.append_nil] at hmin
  unfold readMinutes
  rw [readNumber_pad (by decide) (by omega)]
  simp [hmin, hh, hm]

private theorem readOffset_plus (cs : List Char) :
    skipFraction ("+".toList ++ cs) >>= readOffset = readMinutes cs := rfl

private theorem readOffset_minus (cs : List Char) :
    skipFraction ("-".toList ++ cs) >>= readOffset = (readMinutes cs).map fun secs ↦ -secs := rfl

private theorem readOffset_text {zone : Int} (hmin : zone % 60 = 0) (hzone : zone.natAbs < 86400) :
    skipFraction (offsetText zone).toList >>= readOffset = some zone := by
  have hread := readMinutes_text (h := zone.natAbs / 60 / 60) (m := zone.natAbs / 60 % 60)
    (by omega) (by omega)
  have hsecs : 60 * (60 * ((zone.natAbs / 60 / 60 : Nat) : Int) + (zone.natAbs / 60 % 60 : Nat)) =
      zone.natAbs := by
    omega
  rw [hsecs] at hread
  have htext (sign : String) : (sign ++ pad 2 (zone.natAbs / 60 / 60) ++ ":" ++
      pad 2 (zone.natAbs / 60 % 60)).toList = sign.toList ++ ((pad 2 (zone.natAbs / 60 / 60)).toList ++
        ':' :: (pad 2 (zone.natAbs / 60 % 60)).toList) := by
    simp [String.toList_append]
  unfold offsetText
  split
  · next h => exact congrArg some h.symm
  · next h =>
    rw [htext]
    split
    · next hneg =>
      rw [readOffset_minus, hread]
      exact congrArg some (show -(zone.natAbs : Int) = zone by omega)
    · next hpos =>
      rw [readOffset_plus, hread]
      exact congrArg some (show (zone.natAbs : Int) = zone by omega)

/-- A zone of whole minutes gets its own offset. -/
theorem read_rfc3339 {zone t : Int} (hy : 0 ≤ clockYear zone t ∧ clockYear zone t ≤ 9999)
    (hmin : zone % 60 = 0) (hzone : zone.natAbs < 86400) :
    readRfc3339 (rfc3339 zone t) = some (t / 1000000) := by
  unfold rfc3339
  rw [read_clockText hy, readOffset_text hmin hzone]
  show some (t / 1000000 + zone - zone) = _
  rw [add_sub_cancel_right]

end Calendar
