import Chis.Signature.Base64
import Chis.Signature.Numbers
import Chis.System.Operation

/-!
# The verifiers of the README

`README.md:187-245`, in Node.js and in Python. A receiver calls one of them with the body, the headers
and its secret; `now` is its clock, in microseconds.
-/

namespace Chis

/-- The value of a header, whose name is matched in any case. -/
def HttpRequest.get? (req : HttpRequest) (key : String) : Option String :=
  (req.header.find? fun h ↦ h.1.toList.map Char.toLower = key.toList.map Char.toLower).map Prod.snd

namespace Receiver

/-- What a verifier reads of a request. -/
structure Webhook where
  id : String
  timestamp : String
  signature : String
  body : String
deriving DecidableEq

/-- The headers of a request that has all three. -/
def receive (req : HttpRequest) : Option Webhook := do
  let id ← req.get? "x-webhook-id"
  let timestamp ← req.get? "x-webhook-timestamp"
  let signature ← req.get? "x-webhook-signature"
  return ⟨id, timestamp, signature, req.body⟩

/-- The text that is signed, as the receivers put it together. -/
def Webhook.content (r : Webhook) : String := r.id ++ "." ++ r.timestamp ++ "." ++ r.body

/-- The signature of a content. -/
def signature (hmac : String → String → List UInt8) (secret content : String) : String :=
  "v1," ++ String.ofList (Helper.base64Chars (hmac secret content))

namespace Node

/-- `verifyWebhook`; `README.md:190`. A timestamp that is no number passes the comparison. -/
def verifyWebhook (hmac : String → String → List UInt8) (now : Time) (secret : String)
    (r : Webhook) : Except String Bool :=
  let expected := signature hmac secret r.content
  if (parseInt r.timestamp).any fun ts ↦ 300 < (now / 1000000 - ts).natAbs then
    .error "Timestamp too old"
  else if r.signature.utf8ByteSize ≠ expected.utf8ByteSize then
    .error "Input buffers must have the same byte length"
  else .ok (r.signature = expected)

end Node

namespace Python

/-- `verify_webhook`; `README.md:218`. -/
def verifyWebhook (hmac : String → String → List UInt8) (now : Time) (secret : String)
    (r : Webhook) : Except String Bool :=
  let expected := signature hmac secret r.content
  match pyInt r.timestamp with
  | none => .error "invalid literal for int() with base 10"
  | some ts =>
    if 300 * 1000000 < (now - ts * 1000000).natAbs then .error "Timestamp too old"
    else if (r.signature ++ expected).toList.any fun c ↦ 128 ≤ c.toNat then
      .error "comparing strings with non-ASCII characters is not supported"
    else .ok (r.signature = expected)

end Python

/-! ### What they accept -/

section Accept

variable {hmac : String → String → List UInt8} {now : Time} {secret : String} {r : Webhook}

private theorem base64Chars_all {P : Char → Prop} (hdigit : ∀ n < 64, P (Helper.base64Digit n))
    (hpad : P '=') (bytes : List UInt8) : ∀ c ∈ Helper.base64Chars bytes, P c := by
  have hnil : ∀ c ∈ ([] : List Char), P c := fun c hc ↦ nomatch hc
  fun_induction Helper.base64Chars bytes with
  | case1 => exact hnil
  | case2 a =>
    have ha := a.toNat_lt
    rw [List.forall_mem_cons, List.forall_mem_cons, List.forall_mem_cons, List.forall_mem_cons]
    exact ⟨hdigit _ (by omega), hdigit _ (by omega), hpad, hpad, hnil⟩
  | case3 a b =>
    have ha := a.toNat_lt
    have hb := b.toNat_lt
    rw [List.forall_mem_cons, List.forall_mem_cons, List.forall_mem_cons, List.forall_mem_cons]
    exact ⟨hdigit _ (by omega), hdigit _ (by omega), hdigit _ (by omega), hpad, hnil⟩
  | case4 a b c rest ih =>
    have ha := a.toNat_lt
    have hb := b.toNat_lt
    have hc := c.toNat_lt
    rw [List.forall_mem_cons, List.forall_mem_cons, List.forall_mem_cons, List.forall_mem_cons]
    exact ⟨hdigit _ (by omega), hdigit _ (by omega), hdigit _ (by omega), hdigit _ (by omega), ih⟩

/-- A signature consists of ASCII characters, and has no space. -/
theorem signature_chars (content : String) :
    ∀ c ∈ (signature hmac secret content).toList, c.toNat < 128 ∧ c ≠ ' ' := by
  intro c hc
  rw [signature, String.toList_append, List.mem_append] at hc
  rcases hc with hc | hc
  · have hversion : "v1,".toList = ['v', '1', ','] := rfl
    rw [hversion] at hc
    simp only [List.mem_cons, List.not_mem_nil, or_false] at hc
    rcases hc with rfl | rfl | rfl <;> decide
  · rw [String.toList_ofList] at hc
    revert c
    exact base64Chars_all (by decide) (by decide) _

/-- The Node.js verifier accepts what is signed and not known to be too old. -/
theorem Node.verifyWebhook_iff : Node.verifyWebhook hmac now secret r = .ok true ↔
    (∀ ts, parseInt r.timestamp = some ts → (now / 1000000 - ts).natAbs ≤ 300) ∧
      r.signature = signature hmac secret r.content := by
  have hfresh : (parseInt r.timestamp).any (fun ts ↦ 300 < (now / 1000000 - ts).natAbs) = false ↔
      ∀ ts, parseInt r.timestamp = some ts → (now / 1000000 - ts).natAbs ≤ 300 := by
    cases parseInt r.timestamp with
    | none => simp
    | some ts => simp
  unfold Node.verifyWebhook
  dsimp only
  rw [← hfresh]
  split
  · next h => simp [h]
  · next h =>
    rw [Bool.not_eq_true] at h
    split
    · next hlen =>
      constructor
      · intro h
        cases h
      · rintro ⟨-, heq⟩
        exact absurd (congrArg String.utf8ByteSize heq) hlen
    · simp [h]

/-- The Python verifier accepts what is signed and has a number that is not too old. -/
theorem Python.verifyWebhook_iff : Python.verifyWebhook hmac now secret r = .ok true ↔
    (∃ ts, pyInt r.timestamp = some ts ∧ (now - ts * 1000000).natAbs ≤ 300 * 1000000) ∧
      r.signature = signature hmac secret r.content := by
  unfold Python.verifyWebhook
  dsimp only
  split
  · next h => simp [h]
  · next ts h =>
    rw [h]
    split
    · next hold =>
      constructor
      · intro h
        cases h
      · rintro ⟨⟨ts', hts, hfresh⟩, -⟩
        cases hts
        omega
    · next hold =>
      split
      · next hany =>
        constructor
        · intro h
          cases h
        · rintro ⟨-, heq⟩
          obtain ⟨c, hc, hge⟩ := List.any_eq_true.mp hany
          rw [heq, String.toList_append, List.mem_append, or_self] at hc
          have hlt := (signature_chars r.content c hc).1
          rw [decide_eq_true_eq] at hge
          omega
      · rw [Except.ok.injEq, decide_eq_true_eq]
        constructor
        · intro heq
          exact ⟨⟨ts, rfl, by omega⟩, heq⟩
        · exact And.right

/-- With a hash that tells contents apart, so do the signatures. -/
theorem signature_inj (h : Function.Injective (hmac secret)) {x y : String} :
    signature hmac secret x = signature hmac secret y ↔ x = y := by
  constructor
  · intro hs
    rw [signature, signature, String.append_right_inj, String.ofList_inj] at hs
    exact h (Helper.base64Chars_injective hs)
  · rintro rfl
    rfl

end Accept

end Receiver

end Chis
