import Chis.Signature.Delivery

/-!
# Signer and verifiers

What the worker signs, the verifiers of the README accept for five minutes; the one in Node.js counts
whole seconds. The three fields can be told from the text that is signed.
-/

namespace Chis.Receiver

open Worker

/-! ### Fields and dots -/

/-- A dot either ends the first part, if there is none in that, or comes later. -/
theorem split_first {α : Type} {d : α} {a b x y : List α} (ha : d ∉ a)
    (h : x ++ d :: y = a ++ d :: b) : (x = a ∧ y = b) ∨ ∃ z, x = a ++ d :: z ∧ b = z ++ d :: y := by
  rcases List.append_eq_append_iff.mp h with ⟨l, hl, hy⟩ | ⟨l, hl, hb⟩
  · cases l with
    | nil =>
      left
      rw [List.append_nil] at hl
      exact ⟨hl.symm, (List.cons.inj hy).2⟩
    | cons c l =>
      obtain ⟨rfl, -⟩ := List.cons.inj hy
      rw [hl] at ha
      exact absurd (List.mem_append_right _ List.mem_cons_self) ha
  · cases l with
    | nil =>
      left
      rw [List.append_nil] at hl
      exact ⟨hl, (List.cons.inj hb).2.symm⟩
    | cons c l =>
      right
      obtain ⟨rfl, hb'⟩ := List.cons.inj hb
      exact ⟨l, hl, hb'⟩

/-- Parts without a dot can be told from the text they begin. -/
theorem split_inj {α : Type} {d : α} {a b x y : List α} (hx : d ∉ x) (ha : d ∉ a)
    (h : x ++ d :: y = a ++ d :: b) : x = a ∧ y = b := by
  rcases split_first ha h with h | ⟨z, rfl, -⟩
  · exact h
  · exact absurd (List.mem_append_right _ List.mem_cons_self) hx

/-- The characters of the text that is signed. -/
theorem Webhook.toList_content (r : Webhook) :
    r.content.toList = r.id.toList ++ '.' :: (r.timestamp.toList ++ '.' :: r.body.toList) := by
  simp [Webhook.content]

section Fields

variable {env : Platform} {msg msg' : Message} {secret : String} {now now' : Int}

theorem dot_notMem_id : '.' ∉ (webhookOf env msg secret now).id.toList := by
  change '.' ∉ ("msg_" ++ msg.id.toString).toList
  rw [String.toList_append, List.mem_append, not_or]
  exact ⟨by decide, Uuid.dot_notMem_toString _⟩

theorem dot_notMem_timestamp : '.' ∉ (webhookOf env msg secret now).timestamp.toList :=
  dot_notMem_toString _

theorem id_inj : (webhookOf env msg secret now).id = (webhookOf env msg' secret now').id ↔
    msg.id = msg'.id := by
  change "msg_" ++ msg.id.toString = "msg_" ++ msg'.id.toString ↔ _
  rw [String.append_right_inj, Uuid.toString_inj]

theorem timestamp_inj :
    (webhookOf env msg secret now).timestamp = (webhookOf env msg' secret now').timestamp ↔
      now / 1000000 = now' / 1000000 := by
  change toString (now / 1000000) = toString (now' / 1000000) ↔ _
  constructor
  · intro h
    have hp := congrArg pyInt h
    rwa [pyInt_toString, pyInt_toString, Option.some.injEq] at hp
  · intro h
    rw [h]

/-- The signed text of a delivery has the three fields in it. -/
theorem content_inj :
    (webhookOf env msg secret now).content = (webhookOf env msg' secret now').content ↔
      msg.id = msg'.id ∧ now / 1000000 = now' / 1000000 ∧ msg.payload = msg'.payload := by
  constructor
  · intro h
    have hl := congrArg String.toList h
    rw [Webhook.toList_content, Webhook.toList_content] at hl
    obtain ⟨hid, hl⟩ := split_inj dot_notMem_id dot_notMem_id hl
    obtain ⟨hts, hbody⟩ := split_inj dot_notMem_timestamp dot_notMem_timestamp hl
    rw [String.toList_inj] at hid hts hbody
    rw [id_inj] at hid
    rw [timestamp_inj] at hts
    exact ⟨hid, hts, hbody⟩
  · rintro ⟨hid, hts, hbody⟩
    have hb : (webhookOf env msg secret now).body = (webhookOf env msg' secret now').body := hbody
    rw [← @id_inj env msg msg' secret now now'] at hid
    rw [← @timestamp_inj env msg msg' secret now now'] at hts
    rw [Webhook.content, Webhook.content, hid, hts, hb]

/-! ### Accepted for five minutes -/

/-- From 300 seconds before the timestamp until its clock shows the 301st second after it. -/
theorem node_accepts {t : Int} :
    Node.verifyWebhook env.hmac t secret (webhookOf env msg secret now) = .ok true ↔
      (now / 1000000 - 300) * 1000000 ≤ t ∧ t < (now / 1000000 + 301) * 1000000 := by
  have hparse : parseInt (webhookOf env msg secret now).timestamp = some (now / 1000000) := by
    have h := parseInt_toString (now / 1000000) "" (fun c hc ↦ nomatch hc)
    rwa [String.append_empty] at h
  rw [Node.verifyWebhook_iff, hparse, and_iff_left (webhookOf_signature env msg secret now)]
  constructor
  · intro h
    have hts := h _ rfl
    omega
  · rintro h ts hts
    cases hts
    omega

/-- Within 300 seconds of the timestamp, to the microsecond. -/
theorem python_accepts {t : Int} :
    Python.verifyWebhook env.hmac t secret (webhookOf env msg secret now) = .ok true ↔
      (t - now / 1000000 * 1000000).natAbs ≤ 300 * 1000000 := by
  have hparse : pyInt (webhookOf env msg secret now).timestamp = some (now / 1000000) :=
    pyInt_toString _
  rw [Python.verifyWebhook_iff, hparse, and_iff_left (webhookOf_signature env msg secret now)]
  constructor
  · rintro ⟨ts, hts, h⟩
    cases hts
    exact h
  · intro h
    exact ⟨_, rfl, h⟩

end Fields

/-- What the worker sends with a signature is accepted with the same secret within 300 seconds of the
time it was signed at, by Python at no other time, by Node.js in the 301st second too; and with a hash
that tells contents apart, the signature stands for this message, time and payload only. -/
theorem signer_and_verifiers_agree {env : Platform} {msg : Message} {secret : String} {now : Int}
    {req : HttpRequest} (h : Signs env msg secret now req) :
    ∃ r, receive req = some r ∧ r.body = msg.payload ∧
      (∀ t : Int, (t - now / 1000000 * 1000000).natAbs ≤ 300 * 1000000 →
        Node.verifyWebhook env.hmac t secret r = .ok true ∧
          Python.verifyWebhook env.hmac t secret r = .ok true) ∧
      (∀ t : Int, 300 * 1000000 < (t - now / 1000000 * 1000000).natAbs →
        Python.verifyWebhook env.hmac t secret r ≠ .ok true ∧
          (¬ ((now / 1000000 + 300) * 1000000 < t ∧ t < (now / 1000000 + 301) * 1000000) →
            Node.verifyWebhook env.hmac t secret r ≠ .ok true)) ∧
      (Function.Injective (env.hmac secret) → ∀ msg' now' req' r',
        Signs env msg' secret now' req' → receive req' = some r' → r'.signature = r.signature →
          msg'.id = msg.id ∧ now' / 1000000 = now / 1000000 ∧ msg'.payload = msg.payload) := by
  refine ⟨_, h.receive, rfl, ?_, ?_, ?_⟩
  · intro t ht
    rw [node_accepts, python_accepts]
    exact ⟨by omega, ht⟩
  · intro t ht
    rw [ne_eq, ne_eq, node_accepts, python_accepts]
    omega
  · intro hinj msg' now' req' r' h' hr hs
    rw [h'.receive, Option.some.injEq] at hr
    subst hr
    rw [webhookOf_signature, webhookOf_signature, signature_inj hinj] at hs
    exact content_inj.mp hs

/-! ### A sample -/

def sampleSecret : String := "whsec_000102030405060708090a0b0c0d0e0f101112131415161718191a1b1c1d1e1f"

/-- The payload has dots in it, and a number between two of them. -/
def sampleMessage : Message :=
  { Message.zero with
    id := ⟨1⟩
    method := "POST"
    url := "http://a.io"
    payload := "\x7b\"v\": \"a.1700000000.b\"\x7d" }

/-- The text that is signed of the sample at second 1600000000. -/
def sampleContent : String :=
  "msg_00000000-0000-0000-0000-000000000001.1600000000.\x7b\"v\": \"a.1700000000.b\"\x7d"

/-- Its HMAC-SHA256 under the secret. -/
def sampleHash : List UInt8 :=
  [189, 211, 217, 104, 34, 35, 154, 200, 177, 184, 57, 210, 48, 198, 196, 207, 70, 79, 52, 215, 57, 191,
    95, 47, 114, 9, 247, 168, 103, 149, 234, 195]

/-- HMAC-SHA256 of the content of the sample; other contents have bytes of their own. -/
def sampleHmac (secret content : String) : List UInt8 :=
  if secret = sampleSecret ∧ content = sampleContent then sampleHash
  else List.replicate 33 0 ++ content.toByteArray.data.toList

def samplePlatform : Platform :=
  { jsonb := some
    urlParses := fun _ ↦ true
    hmac := sampleHmac
    lower := Char.toLower }

theorem sampleHmac_injective (secret : String) : Function.Injective (sampleHmac secret) := by
  have hlength (x : String) : (List.replicate 33 (0 : UInt8) ++ x.toByteArray.data.toList).length ≠
      32 := by
    rw [List.length_append, List.length_replicate]
    omega
  intro x y h
  unfold sampleHmac at h
  split at h
  · next hx =>
    split at h
    · next hy => rw [hx.2, hy.2]
    · exact absurd (congrArg List.length h).symm (hlength y)
  · split at h
    · exact absurd (congrArg List.length h) (hlength x)
    · rw [List.append_right_inj, Array.toList_inj, ByteArray.ext_iff.symm, String.toByteArray_inj] at h
      exact h

/-- The request of the sample, signed at second 1600000000. -/
def sampleRequest : HttpRequest :=
  signedRequest samplePlatform sampleMessage sampleSecret (1600000000 * 1000000)
    (contentRequest ⟨"POST", "http://a.io", sampleMessage.payload, []⟩)

theorem sample_signs : Signs samplePlatform sampleMessage sampleSecret (1600000000 * 1000000)
    sampleRequest := signs_iff.mpr ⟨_, rfl, rfl⟩

/-- The agreement for the sample, with one second of its window and another delivery. -/
theorem signer_and_verifiers_agree_sample : ∃ r, receive sampleRequest = some r ∧
    Node.verifyWebhook sampleHmac (1600000300 * 1000000) sampleSecret r = .ok true ∧
    Python.verifyWebhook sampleHmac (1600000300 * 1000000) sampleSecret r = .ok true ∧
    Node.verifyWebhook sampleHmac (1600000301 * 1000000) sampleSecret r ≠ .ok true ∧
    ∀ msg' now' req' r', Signs samplePlatform msg' sampleSecret now' req' →
      receive req' = some r' → r'.signature = r.signature →
        msg'.id = ⟨1⟩ ∧ now' / 1000000 = 1600000000 ∧ msg'.payload = sampleMessage.payload := by
  obtain ⟨r, hr, -, hin, hout, hinj⟩ := signer_and_verifiers_agree sample_signs
  exact ⟨r, hr, (hin _ (by decide)).1, (hin _ (by decide)).2, (hout _ (by decide)).2 (by decide),
    hinj (sampleHmac_injective _)⟩

/-- Half a second too late, the verifier in Node.js still accepts. -/
theorem node_accepts_late :
    Signs samplePlatform sampleMessage sampleSecret (1600000000 * 1000000) sampleRequest ∧
      ∃ r, receive sampleRequest = some r ∧
        300 * 1000000 < (1600000300500000 - 1600000000 * 1000000 : Int).natAbs ∧
        Node.verifyWebhook samplePlatform.hmac 1600000300500000 sampleSecret r = .ok true :=
  ⟨sample_signs, _, sample_signs.receive, by decide, node_accepts.mpr (by decide)⟩

end Chis.Receiver
