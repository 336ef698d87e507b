import Chis.Signature.Agreement

/-!
# The verifiers of the website

`VerifyTabs.tsx:16-517`, in Node.js, Python, Go and PHP. They differ in how they read a timestamp, remove
the prefix of the secret, decode base64 and compare two texts; the rest is one scheme.
-/

namespace Chis.Receiver

open Json (sign)

/-! ### Timestamps -/

/-- An exponent at the start, and what follows it. -/
def exponentPrefix : List Char → Int × List Char
  | [] => (0, [])
  | c :: cs =>
    let (neg, r) := sign cs
    let ds := r.takeWhile Char.isDigit
    if (c = 'e' ∨ c = 'E') ∧ ds ≠ [] then
      (signed neg (Nat.ofDigitChars 10 ds 0), r.dropWhile Char.isDigit)
    else (0, c :: cs)

/-- A decimal without sign at the start, and what follows it. -/
def decimalPrefix (cs : List Char) : Option (ℚ × List Char) :=
  let ds := cs.takeWhile Char.isDigit
  let (fs, r) : List Char × List Char :=
    match cs.dropWhile Char.isDigit with
    | '.' :: r => (r.takeWhile Char.isDigit, r.dropWhile Char.isDigit)
    | r => ([], r)
  if ds ++ fs = [] then none
  else
    let (e, r) := exponentPrefix r
    some (Nat.ofDigitChars 10 (ds ++ fs) 0 * 10 ^ (e - fs.length), r)

/-- A number of JavaScript, before it is rounded. -/
inductive JsNumber
  | nan
  | infinity
  | finite (q : ℚ)

/-- Digits of a base to the end of the text. -/
def allDigits (base : Nat) (cs : List Char) : JsNumber :=
  if cs ≠ [] ∧ cs.all (fun c ↦ (digit? base c).isSome) then
    .finite ((leadingDigits base none cs).getD 0)
  else .nan

/-- `Number` of a text. -/
def toNumber (s : String) : JsNumber :=
  match ((s.toList.dropWhile jsSpace).reverse.dropWhile jsSpace).reverse with
  | [] => .finite 0
  | '0' :: 'x' :: cs | '0' :: 'X' :: cs => allDigits 16 cs
  | '0' :: 'o' :: cs | '0' :: 'O' :: cs => allDigits 8 cs
  | '0' :: 'b' :: cs | '0' :: 'B' :: cs => allDigits 2 cs
  | cs =>
    let (neg, cs) := sign cs
    if cs = "Infinity".toList then .infinity
    else
      match decimalPrefix cs with
      | some (q, []) => .finite (if neg then -q else q)
      | _ => .nan

/-- The nearest 64-bit integer. -/
def clamp64 (n : Int) : Int := max (-2 ^ 63) (min n (2 ^ 63 - 1))

/-- The value that `strconv.ParseInt` returns in base 10, beside an error or not. -/
def goParseInt (s : String) : Int :=
  let (neg, ds) := sign s.toList
  if ds ≠ [] ∧ ds.all Char.isDigit then clamp64 (signed neg (Nat.ofDigitChars 10 ds 0)) else 0

/-- `(int)` of a text in PHP. -/
def phpInt (s : String) : Int :=
  let (neg, cs) := sign (s.toList.dropWhile fun c ↦ (9 ≤ c.toNat && c.toNat ≤ 13) || c.toNat = 32)
  match decimalPrefix cs with
  | none => 0
  | some (q, _) => clamp64 (signed neg ⌊q⌋.toNat)

/-! ### Secrets -/

/-- The prefix that the keys are taken without. -/
def secretPrefix : List Char := "whsec_".toList

/-- `s.replace(pattern, "")` of JavaScript: the first occurrence. -/
def jsReplace (pattern : List Char) : List Char → List Char
  | [] => []
  | c :: cs =>
    if pattern.isPrefixOf (c :: cs) then (c :: cs).drop pattern.length
    else c :: jsReplace pattern cs

/-- `str_replace(pattern, '', s)` of PHP: every occurrence. The first `skip` characters belong to one. -/
def strReplace (pattern : List Char) (skip : Nat) : List Char → List Char
  | [] => []
  | c :: cs =>
    if 0 < skip then strReplace pattern (skip - 1) cs
    else if pattern.isPrefixOf (c :: cs) then strReplace pattern (pattern.length - 1) cs
    else c :: strReplace pattern 0 cs

/-- `s.removeprefix(pattern)` of Python and `strings.TrimPrefix` of Go. -/
def trimPrefix (pattern cs : List Char) : List Char :=
  if pattern.isPrefixOf cs then cs.drop pattern.length else cs

/-! ### Base64 -/

/-- A digit of the standard alphabet or of the one for URLs. -/
def urlValue (c : Char) : Option Nat :=
  if c = '-' then some 62 else if c = '_' then some 63 else Helper.base64Value c

/-- `Buffer.from(s, "base64")`: up to the padding, whatever is no digit is left out. -/
def nodeDecode (cs : List Char) : List UInt8 :=
  Helper.joinSextets ((cs.takeWhile fun c ↦ c ≠ '=').filterMap urlValue)

/-- `base64_decode`: whatever is no digit is left out. -/
def phpDecode (cs : List Char) : List UInt8 := Helper.joinSextets (Helper.sextets cs)

/-- `base64.b64decode` of ASCII text, at position `pos` of a group with the bits `left` over and `pads`
padding characters; too few of these raise an error. -/
def pyDecode (pos left pads : Nat) : List Char → Option (List UInt8)
  | [] => if pos = 0 then some [] else none
  | c :: cs =>
    if c = '=' then
      if 2 ≤ pos ∧ 4 ≤ pos + (pads + 1) then some []
      else pyDecode pos left (if 2 ≤ pos then pads + 1 else pads) cs
    else
      match Helper.base64Value c, pos with
      | none, _ => pyDecode pos left pads cs
      | some v, 0 => pyDecode 1 v 0 cs
      | some v, 1 => (pyDecode 2 (v % 16) 0 cs).map (UInt8.ofNat (left * 4 + v / 16) :: ·)
      | some v, 2 => (pyDecode 3 (v % 4) 0 cs).map (UInt8.ofNat (left * 16 + v / 4) :: ·)
      | some v, _ => (pyDecode 0 0 0 cs).map (UInt8.ofNat (left * 64 + v) :: ·)

/-- The bytes that `base64.StdEncoding.DecodeString` returns, beside an error or not: those of the groups
before the first that is none. -/
def goDecode : List Char → List UInt8
  | a :: b :: c :: d :: rest =>
    match Helper.base64Value a, Helper.base64Value b, Helper.base64Value c, Helper.base64Value d with
    | some a, some b, some c, some d => Helper.joinSextets [a, b, c, d] ++ goDecode rest
    | some a, some b, some c, none => if d = '=' then Helper.joinSextets [a, b, c] else []
    | some a, some b, none, none => if c = '=' ∧ d = '=' then Helper.joinSextets [a, b] else []
    | _, _, _, _ => []
  | _ => []

/-! ### The tabs -/

/-- What differs from one language to the other; `none` is an exception. -/
structure Tab where
  fresh : Int → String → Option Bool
  key : String → Option (List UInt8)
  equal : String → String → Option Bool

namespace Tab

/-- Whether one of the signatures is the expected one, looked for from the left. -/
def anyEqual (tab : Tab) (expected : String) : List String → Option Bool
  | [] => some false
  | s :: rest => do if ← tab.equal s expected then return true else tab.anyEqual expected rest

/-- `verify`; the keyed hash takes the bytes of the key. -/
def verify (tab : Tab) (mac : List UInt8 → String → List UInt8) (now : Int) (secret : String)
    (r : Webhook) : Option Bool := do
  if ← tab.fresh now r.timestamp then
    let key ← tab.key secret
    let expected := "v1," ++ String.ofList (Helper.base64Chars (mac key r.content))
    tab.anyEqual expected ((r.signature.toList.splitOn ' ').map String.ofList)
  else return false

/-- `VerifyTabs.tsx:20`. -/
def nodejs : Tab :=
  { fresh := fun now ts ↦
      match toNumber ts with
      | .nan => some true
      | .infinity => some false
      | .finite q => some (|(now / 1000 : Int) / 1000 - q| ≤ 300)
    key := fun secret ↦ some (nodeDecode (jsReplace secretPrefix secret.toList))
    equal := fun s expected ↦ some (s = expected) }

/-- `VerifyTabs.tsx:137`. -/
def python : Tab :=
  { fresh := fun now ts ↦ (pyInt ts).map fun ts ↦ (now - ts * 1000000).natAbs ≤ 300 * 1000000
    key := fun secret ↦
      let cs := trimPrefix secretPrefix secret.toList
      if cs.all fun c ↦ c.toNat < 128 then pyDecode 0 0 0 cs else none
    equal := fun s expected ↦
      if (s ++ expected).toList.any fun c ↦ 128 ≤ c.toNat then none else some (s = expected) }

/-- `VerifyTabs.tsx:251`; both errors are thrown away. -/
def go : Tab :=
  { fresh := fun now ts ↦ some ((Worker.wrap64 (now / 1000000 - goParseInt ts)).natAbs ≤ 300)
    key := fun secret ↦ some (goDecode
      ((trimPrefix secretPrefix secret.toList).filter fun c ↦ c ≠ '\n' ∧ c ≠ '\r'))
    equal := fun s expected ↦ some (s = expected) }

/-- `VerifyTabs.tsx:403`. -/
def php : Tab :=
  { fresh := fun now ts ↦ some ((now / 1000000 - phpInt ts).natAbs ≤ 300)
    key := fun secret ↦ some (phpDecode (strReplace secretPrefix 0 secret.toList))
    equal := fun s expected ↦ some (s = expected) }

/-- `tabs`. -/
def all : List Tab := [nodejs, python, go, php]

end Tab

/-! ### Keys -/

/-- `[]byte(s)`. -/
def utf8 (s : String) : List UInt8 := s.toByteArray.data.toList

/-- The secrets that `GenerateSigningSecret` and the default of the column give out; `helper.go:49`,
`000005_add_signing_secret.up.sql:4`. -/
def Issued (secret : String) : Prop :=
  ∃ bytes : List UInt8, bytes.length = 32 ∧ secret = Helper.randomText "whsec_" bytes

private theorem length_hexEncode (bytes : List UInt8) :
    (Helper.hexEncode bytes).toList.length = 2 * bytes.length := by
  rw [Helper.hexEncode, String.toList_ofList, List.length_flatMap]
  induction bytes with
  | nil => rfl
  | cons b bytes ih =>
    rw [List.map_cons, List.sum_cons, ih, List.length_cons]
    exact Nat.add_comm 2 _

/-- An issued secret has 64 characters after its prefix. -/
theorem Issued.toList {secret : String} (h : Issued secret) :
    ∃ digits : List Char, digits.length = 64 ∧ secret.toList = secretPrefix ++ digits := by
  obtain ⟨bytes, hlen, rfl⟩ := h
  refine ⟨(Helper.hexEncode bytes).toList, ?_, ?_⟩
  · rw [length_hexEncode, hlen]
  · exact String.toList_append

/-- A character takes at least one byte. -/
theorem length_le_utf8 (s : String) : s.toList.length ≤ (utf8 s).length := by
  have hsize : (utf8 s).length = s.utf8ByteSize := rfl
  rw [hsize, ← String.utf8Len_toList]
  induction s.toList with
  | nil => exact Nat.le_refl _
  | cons c cs ih =>
    have hc := c.utf8Size_pos
    rw [String.utf8Len_cons, List.length_cons]
    omega

private theorem length_strReplace_le (pattern cs : List Char) (skip : Nat) :
    (strReplace pattern skip cs).length ≤ cs.length - skip := by
  fun_induction strReplace pattern skip cs with
  | case1 => exact Nat.zero_le _
  | case2 skip c cs h ih =>
    rw [List.length_cons]
    omega
  | case3 skip c cs h hp ih =>
    rw [List.length_cons]
    omega
  | case4 skip c cs h hp ih =>
    rw [List.length_cons, List.length_cons]
    omega

private theorem length_pyDecode_le {pos left pads : Nat} {cs : List Char} {bytes : List UInt8}
    (h : pyDecode pos left pads cs = some bytes) : bytes.length ≤ cs.length := by
  induction cs generalizing pos left pads bytes with
  | nil =>
    rw [pyDecode] at h
    split at h
    · cases h
      exact Nat.le_refl _
    · cases h
  | cons c cs ih =>
    have hskip {pos left pads : Nat} (h : pyDecode pos left pads cs = some bytes) :
        bytes.length ≤ (c :: cs).length := Nat.le_succ_of_le (ih h)
    have hbyte {b : UInt8} {pos left pads : Nat}
        (h : (pyDecode pos left pads cs).map (b :: ·) = some bytes) :
        bytes.length ≤ (c :: cs).length := by
      obtain ⟨rest, hrest, rfl⟩ := Option.map_eq_some_iff.mp h
      exact Nat.succ_le_succ (ih hrest)
    unfold pyDecode at h
    split at h
    · split at h
      · cases h
        exact Nat.zero_le _
      · exact hskip h
    · split at h
      · exact hskip h
      · exact hskip h
      · exact hbyte h
      · exact hbyte h
      · exact hbyte h

private theorem length_goDecode_le (cs : List Char) : (goDecode cs).length ≤ cs.length := by
  fun_induction goDecode cs with
  | case1 a b c d rest a' b' c' d' ha hb hc hd ih =>
    rw [List.length_append]
    have hgroup := Helper.length_joinSextets_le [a', b', c', d']
    simp only [List.length_cons, List.length_nil] at hgroup ⊢
    omega
  | _ => simp [Helper.joinSextets]

/-- Without its prefix, an issued secret is too short for a key of as many bytes as it has. -/
theorem length_key_le {secret : String} (h : Issued secret) {tab : Tab} (ht : tab ∈ Tab.all)
    {key : List UInt8} (hk : tab.key secret = some key) : key.length ≤ 64 := by
  obtain ⟨digits, hdigits, hsecret⟩ := h.toList
  have hpre : secretPrefix.isPrefixOf (secretPrefix ++ digits) = true := by
    rw [List.isPrefixOf_iff_prefix]
    exact List.prefix_append _ _
  have htrim : trimPrefix secretPrefix secret.toList = digits := by
    rw [trimPrefix, hsecret, if_pos hpre, List.drop_left]
  simp only [Tab.all, List.mem_cons, List.not_mem_nil, or_false] at ht
  rcases ht with rfl | rfl | rfl | rfl
  · cases hk
    have hreplace : jsReplace secretPrefix secret.toList = digits := by
      rw [hsecret]
      exact (if_pos hpre).trans (List.drop_left)
    rw [hreplace, nodeDecode, ← hdigits]
    refine (Helper.length_joinSextets_le _).trans ((List.length_filterMap_le _ _).trans ?_)
    exact (List.takeWhile_prefix _).length_le
  · simp only [Tab.python, htrim] at hk
    split at hk
    · rw [← hdigits]
      exact length_pyDecode_le hk
    · cases hk
  · cases hk
    rw [htrim, ← hdigits]
    exact (length_goDecode_le _).trans (List.length_filter_le _ _)
  · cases hk
    refine (Helper.length_joinSextets_le _).trans ((List.length_filterMap_le _ _).trans ?_)
    have hreplace : strReplace secretPrefix 0 secret.toList =
        strReplace secretPrefix 5 ("hsec_".toList ++ digits) := by
      have hcons : secretPrefix ++ digits = 'w' :: ("hsec_".toList ++ digits) := rfl
      rw [hcons] at hpre
      rw [hsecret, hcons, strReplace, if_neg (Nat.lt_irrefl 0), if_pos hpre]
      rfl
    have hle := length_strReplace_le secretPrefix ("hsec_".toList ++ digits) 5
    rw [List.length_append, hdigits] at hle
    rw [hreplace]
    exact hle

/-- No tab uses an issued secret as the key that the worker signs with. -/
theorem key_ne {secret : String} (h : Issued secret) {tab : Tab} (ht : tab ∈ Tab.all) :
    tab.key secret ≠ some (utf8 secret) := by
  intro hk
  have hle := length_key_le h ht hk
  have hlen := length_le_utf8 secret
  obtain ⟨digits, hdigits, hsecret⟩ := h.toList
  rw [hsecret, List.length_append, hdigits] at hlen
  have hprefix : secretPrefix.length = 6 := rfl
  omega

/-! ### What the tabs accept -/

private theorem anyEqual_mem {tab : Tab} {expected : String} {signatures : List String}
    (h : tab.anyEqual expected signatures = some true) :
    ∃ s ∈ signatures, tab.equal s expected = some true := by
  induction signatures with
  | nil => cases h
  | cons s rest ih =>
    rw [Tab.anyEqual] at h
    obtain ⟨eq, hs, h⟩ := Option.bind_eq_some_iff.mp h
    cases eq with
    | true => exact ⟨s, List.mem_cons_self, hs⟩
    | false =>
      obtain ⟨s', hs', heq⟩ := ih h
      exact ⟨s', List.mem_cons_of_mem _ hs', heq⟩

private theorem equal_eq {tab : Tab} (ht : tab ∈ Tab.all) {s expected : String}
    (h : tab.equal s expected = some true) : s = expected := by
  simp only [Tab.all, List.mem_cons, List.not_mem_nil, or_false] at ht
  rcases ht with rfl | rfl | rfl | rfl
  · exact of_decide_eq_true (Option.some.inj h)
  · simp only [Tab.python] at h
    split at h
    · cases h
    · exact of_decide_eq_true (Option.some.inj h)
  · exact of_decide_eq_true (Option.some.inj h)
  · exact of_decide_eq_true (Option.some.inj h)

/-- A tab accepts a webhook with one signature only if that is made with the key of the tab. -/
theorem verify_signature {tab : Tab} (ht : tab ∈ Tab.all) {mac : List UInt8 → String → List UInt8}
    {t : Int} {secret : String} {r : Webhook} (hr : ∀ c ∈ r.signature.toList, c ≠ ' ')
    (h : tab.verify mac t secret r = some true) : ∃ key, tab.key secret = some key ∧
      r.signature = "v1," ++ String.ofList (Helper.base64Chars (mac key r.content)) := by
  rw [Tab.verify] at h
  obtain ⟨fresh, -, h⟩ := Option.bind_eq_some_iff.mp h
  cases fresh with
  | false => cases h
  | true =>
    obtain ⟨key, hkey, h⟩ := Option.bind_eq_some_iff.mp h
    obtain ⟨s, hs, heq⟩ := anyEqual_mem h
    have hsplit : r.signature.toList.splitOn ' ' = [r.signature.toList] := by
      apply List.splitOnP_eq_singleton
      intro c hc
      exact beq_eq_false_iff_ne.mpr (hr c hc)
    rw [hsplit, List.map_singleton, List.mem_singleton, String.ofList_toList] at hs
    subst hs
    exact ⟨key, hkey, equal_eq ht heq⟩

/-- With an issued secret, no tab computes the hash with the key that the worker has computed it with;
with a hash that tells keys apart, no tab accepts what the worker sends, at any time. -/
theorem tabs_disagree {secret : String} (h : Issued secret) {tab : Tab} (ht : tab ∈ Tab.all) :
    tab.key secret ≠ some (utf8 secret) ∧
      ∀ (env : Platform) (mac : List UInt8 → String → List UInt8) (msg : Message) (now : Int)
        (req : HttpRequest) (r : Webhook), env.hmac = (fun s content ↦ mac (utf8 s) content) →
        (∀ content, Function.Injective fun key ↦ mac key content) →
        Worker.Signs env msg secret now req → receive req = some r →
          ∀ t, tab.verify mac t secret r ≠ some true := by
  refine ⟨key_ne h ht, ?_⟩
  intro env mac msg now req r hmac hinj hs hr t hv
  rw [hs.receive, Option.some.injEq] at hr
  subst hr
  have hsig := Worker.webhookOf_signature env msg secret now
  obtain ⟨key, hkey, heq⟩ := verify_signature ht (fun c hc ↦ by
    rw [hsig] at hc
    exact (signature_chars _ c hc).2) hv
  rw [hsig, signature, hmac, String.append_right_inj, String.ofList_inj] at heq
  have hkeys := hinj _ (Helper.base64Chars_injective heq)
  rw [← hkeys] at hkey
  exact key_ne h ht hkey

/-! ### The sample -/

/-- The bytes of the digits of the sample's secret read as base64. -/
def sampleDecoded : List UInt8 :=
  [211, 77, 53, 211, 109, 55, 211, 141, 57, 211, 173, 59, 211, 205, 61, 209, 173, 27, 209, 205, 29, 209,
    237, 31, 215, 77, 117, 215, 109, 119, 215, 141, 121, 215, 173, 123, 215, 205, 125, 213, 173, 91, 213,
    205, 93, 213, 237, 95]

/-- HMAC-SHA256 of the sample's content under these bytes. -/
def sampleDecodedHash : List UInt8 :=
  [119, 79, 81, 27, 19, 141, 38, 208, 98, 92, 171, 26, 14, 45, 69, 245, 244, 160, 203, 148, 121, 105, 251,
    17, 32, 59, 59, 168, 252, 228, 101, 6]

/-- HMAC-SHA256 of the sample's content under both keys; everything else has bytes of its own. -/
def sampleMac (key : List UInt8) (content : String) : List UInt8 :=
  if content = sampleContent ∧ key = utf8 sampleSecret then sampleHash
  else if content = sampleContent ∧ key = sampleDecoded then sampleDecodedHash
  else List.replicate 33 0 ++ key

theorem sampleMac_injective (content : String) : Function.Injective fun key ↦ sampleMac key content := by
  have hlength (key : List UInt8) : (List.replicate 33 (0 : UInt8) ++ key).length ≠ 32 := by
    rw [List.length_append, List.length_replicate]
    omega
  apply Function.LeftInverse.injective (g := fun bytes ↦ if bytes = sampleHash then utf8 sampleSecret
    else if bytes = sampleDecodedHash then sampleDecoded else bytes.drop 33)
  intro key
  dsimp only [sampleMac]
  by_cases h : content = sampleContent ∧ key = utf8 sampleSecret
  · rw [if_pos h, if_pos rfl, h.2]
  · by_cases h' : content = sampleContent ∧ key = sampleDecoded
    · rw [if_neg h, if_pos h', if_neg (by decide), if_pos rfl, h'.2]
    · have hne : List.replicate 33 0 ++ key ≠ sampleHash := mt (congrArg List.length) (hlength key)
      have hne' : List.replicate 33 0 ++ key ≠ sampleDecodedHash :=
        mt (congrArg List.length) (hlength key)
      rw [if_neg h, if_neg h', if_neg hne, if_neg hne']
      exact List.drop_left' List.length_replicate

def samplePlatformOfBytes : Platform :=
  { samplePlatform with hmac := fun s content ↦ sampleMac (utf8 s) content }

theorem sampleSecret_issued : Issued sampleSecret :=
  ⟨(List.range 32).map UInt8.ofNat, by decide, by decide⟩

/-- The request of the sample, as the worker signs it. -/
theorem sample_signs_bytes : Worker.Signs samplePlatformOfBytes sampleMessage sampleSecret
    (1600000000 * 1000000) (Worker.signedRequest samplePlatformOfBytes sampleMessage sampleSecret
      (1600000000 * 1000000) (Worker.contentRequest ⟨"POST", "http://a.io", sampleMessage.payload, []⟩)) :=
  Worker.signs_iff.mpr ⟨_, rfl, rfl⟩

theorem tabs_disagree_sample : Tab.php.verify sampleMac (1600000300 * 1000000) sampleSecret
    (Worker.webhookOf samplePlatformOfBytes sampleMessage sampleSecret (1600000000 * 1000000)) ≠
      some true :=
  (@tabs_disagree _ sampleSecret_issued Tab.php (by simp [Tab.all])).2 samplePlatformOfBytes
    sampleMac sampleMessage (1600000000 * 1000000) _ _ rfl sampleMac_injective sample_signs_bytes
    sample_signs_bytes.receive _

/-- At the second it was signed, the request of the sample is accepted by none of the tabs. -/
theorem tabs_reject :
    Issued sampleSecret ∧
      (Tab.all.map fun tab ↦ (tab.key sampleSecret, tab.verify sampleMac (1600000000 * 1000000)
        sampleSecret (Worker.webhookOf samplePlatformOfBytes sampleMessage sampleSecret
          (1600000000 * 1000000)))) = List.replicate 4 (some sampleDecoded, some false) :=
  ⟨sampleSecret_issued, by decide +kernel⟩

end Chis.Receiver
