import Chis.Base.Uuid

/-!
# Secrets and webhook signatures

`pkg/helper/helper.go:34-65` and `pkg/helper/webhook_signature.go`. The keyed hash is a parameter;
everything around it is the code's.
-/

namespace Chis.Helper

/-- `hex.EncodeToString`. -/
def hexEncode (bytes : List UInt8) : String :=
  String.ofList (bytes.flatMap fun b ↦ [Uuid.hexDigit (b.toNat / 16), Uuid.hexDigit (b.toNat % 16)])

theorem hexDigit_ne_nul : ∀ n < 16, (Uuid.hexDigit n).toNat ≠ 0 := by decide

/-- The digits of bytes are characters that Postgres stores. -/
theorem hexEncode_ne_nul (bytes : List UInt8) : ∀ c ∈ (hexEncode bytes).toList, c.toNat ≠ 0 := by
  intro c hc
  rw [hexEncode, String.toList_ofList, List.mem_flatMap] at hc
  obtain ⟨b, -, hc⟩ := hc
  have hb := b.toNat_lt
  rcases List.mem_pair.mp hc with rfl | rfl
  · exact hexDigit_ne_nul _ (by omega)
  · exact hexDigit_ne_nul _ (by omega)

theorem hexDigit_inj : ∀ m < 16, ∀ n < 16, Uuid.hexDigit m = Uuid.hexDigit n → m = n := by decide

/-- Bytes can be read back from their digits. -/
theorem hexEncode_inj {bytes bytes' : List UInt8} (h : hexEncode bytes = hexEncode bytes') :
    bytes = bytes' := by
  have hchars := String.ofList_injective h
  clear h
  induction bytes generalizing bytes' with
  | nil =>
    cases bytes' with
    | nil => rfl
    | cons => simp at hchars
  | cons b bytes ih =>
    cases bytes' with
    | nil => simp at hchars
    | cons b' bytes' =>
      simp only [List.flatMap_cons, List.cons_append, List.nil_append, List.cons.injEq] at hchars
      obtain ⟨hhigh, hlow, hrest⟩ := hchars
      have hb := b.toNat_lt
      have hb' := b'.toNat_lt
      have hdiv := hexDigit_inj _ (by omega) _ (by omega) hhigh
      have hmod := hexDigit_inj _ (by omega) _ (by omega) hlow
      have hbyte : b = b' := UInt8.toNat_inj.mp (by omega)
      rw [hbyte, ih hrest]

/-- `GenerateRandomApiKey`, `GenerateSigningSecret` and `GenerateSecureToken` put their prefix before
the digits of 32 random bytes; `helper.go:34`, `helper.go:49`, `helper.go:58`. -/
def randomText (pre : String) (randomBytes : List UInt8) : String := pre ++ hexEncode randomBytes

/-- The digit of a value below 64 in the standard alphabet. -/
def base64Digit (n : Nat) : Char :=
  Char.ofNat (if n < 26 then 65 + n else if n < 52 then 71 + n else if n < 62 then n - 4
    else if n = 62 then 43 else 47)

/-- `base64.StdEncoding.EncodeToString`, with padding. -/
def base64Chars : List UInt8 → List Char
  | [] => []
  | [a] =>
    [base64Digit (a.toNat / 4), base64Digit (a.toNat % 4 * 16), '=', '=']
  | [a, b] =>
    [base64Digit (a.toNat / 4), base64Digit (a.toNat % 4 * 16 + b.toNat / 16),
      base64Digit (b.toNat % 16 * 4), '=']
  | a :: b :: c :: rest =>
    base64Digit (a.toNat / 4) :: base64Digit (a.toNat % 4 * 16 + b.toNat / 16) ::
      base64Digit (b.toNat % 16 * 4 + c.toNat / 64) :: base64Digit (c.toNat % 64) ::
      base64Chars rest

/-- `helper.WebhookSignature`. -/
structure WebhookSignature where
  messageID : String
  timestamp : Int
  signature : String
deriving DecidableEq

/-- `SignWebhookPayloadWithTimestamp`; `webhook_signature.go:21`. -/
def signWebhookPayloadWithTimestamp (hmac : String → String → List UInt8)
    (msgID secret body : String) (timestamp : Int) : WebhookSignature :=
  let signedContent := msgID ++ "." ++ toString timestamp ++ "." ++ body
  { messageID := msgID
    timestamp := timestamp
    signature := "v1," ++ String.ofList (base64Chars (hmac secret signedContent)) }

example : String.ofList (base64Chars [77, 97, 110, 77, 97]) = "TWFuTWE=" := by decide

end Chis.Helper
