import Chis.Signature.Agreement

/-!
# Moving the fields of a signed webhook

The signature is over the three fields joined by dots, and the verifiers join what they are given. Whoever
has seen signed webhooks can therefore present one of their texts with its dots in other places. What
keeps it from being accepted is only what a verifier asks of the timestamp.
-/

namespace Chis.Receiver

open Worker

/-- A request that the worker has sent with a signature made with `secret`. -/
structure Capture (env : Platform) (secret : String) where
  msg : Message
  now : Int
  req : HttpRequest
  signs : Signs env msg secret now req

namespace Capture

variable {env : Platform} {secret : String}

/-- The captured request as a receiver reads it. -/
def webhook (d : Capture env secret) : Webhook := webhookOf env d.msg secret d.now

theorem receive (d : Capture env secret) : Receiver.receive d.req = some d.webhook := d.signs.receive

end Capture

/-- Whatever is presented with a captured signature, and whenever: what is accepted has the id, the
timestamp and the body of one captured request. -/
def Unmoved (verify : Int → String → Webhook → Except String Bool) {env : Platform} {secret : String}
    (D : List (Capture env secret)) : Prop :=
  ∀ (t : Int) (r : Webhook), r.signature ∈ D.map (fun d ↦ d.webhook.signature) →
    verify t secret r = .ok true →
      ∃ d ∈ D, r.id = d.webhook.id ∧ r.timestamp = d.webhook.timestamp ∧ r.body = d.webhook.body

/-- `n` stands in `s` before a dot, and after another one or at the start. -/
def BetweenDots (n s : String) : Prop :=
  (∃ y, s = n ++ "." ++ y) ∨ ∃ x y, s = x ++ "." ++ n ++ "." ++ y

section Contents

variable {env : Platform} {secret : String} {D : List (Capture env secret)} {r : Webhook}

/-- What is accepted is the text of a captured request, perhaps with other fields. -/
theorem captured_content (hinj : Function.Injective (env.hmac secret))
    (hs : r.signature ∈ D.map fun d ↦ d.webhook.signature)
    (hv : r.signature = signature env.hmac secret r.content) :
    ∃ d ∈ D, r.content = d.webhook.content := by
  obtain ⟨d, hd, hsig⟩ := List.mem_map.mp hs
  refine ⟨d, hd, ?_⟩
  rw [← hsig, Capture.webhook, webhookOf_signature] at hv
  exact ((signature_inj hinj).mp hv).symm

/-- The fields of a text can be moved only if the payload has a dot. -/
theorem moved_cases {d : Capture env secret} (h : r.content = d.webhook.content) :
    (r.id = d.webhook.id ∧ r.timestamp = d.webhook.timestamp ∧ r.body = d.webhook.body) ∨
      ('.' ∈ d.webhook.body.toList ∧
        ('.' ∈ r.timestamp.toList ∨ BetweenDots r.timestamp d.webhook.body)) := by
  have hl := congrArg String.toList h
  rw [Webhook.toList_content, Webhook.toList_content] at hl
  rcases split_first dot_notMem_id hl with ⟨hid, hl⟩ | ⟨z, -, hl⟩
  · rcases split_first dot_notMem_timestamp hl with ⟨hts, hbody⟩ | ⟨z, hts, hbody⟩
    · exact .inl ⟨String.toList_inj.mp hid, String.toList_inj.mp hts, String.toList_inj.mp hbody⟩
    · right
      rw [hbody, hts]
      exact ⟨List.mem_append_right _ List.mem_cons_self,
        .inl (List.mem_append_right _ List.mem_cons_self)⟩
  · right
    -- the id has taken in the whole timestamp
    rcases split_first dot_notMem_timestamp hl.symm with ⟨-, hbody⟩ | ⟨z', -, hbody⟩
    · rw [← hbody]
      refine ⟨List.mem_append_right _ List.mem_cons_self, .inr (.inl ⟨r.body, ?_⟩)⟩
      rw [← String.toList_inj, ← hbody]
      simp
    · rw [hbody]
      refine ⟨List.mem_append_right _ List.mem_cons_self,
        .inr (.inr ⟨String.ofList z', r.body, ?_⟩)⟩
      rw [← String.toList_inj, hbody]
      simp

/-- The text of a captured request with its fields in other places is still signed. -/
theorem moved_signature {d : Capture env secret} {id timestamp body : String}
    (h : id ++ "." ++ timestamp ++ "." ++ body = d.webhook.content) :
    d.webhook.signature = signature env.hmac secret
      (Webhook.content ⟨id, timestamp, d.webhook.signature, body⟩) := by
  change _ = signature env.hmac secret (id ++ "." ++ timestamp ++ "." ++ body)
  rw [h]
  exact webhookOf_signature env d.msg secret d.now

/-- What moves the fields of a captured request and is accepted breaks the rule. -/
theorem Unmoved.no_dot {verify : Int → String → Webhook → Except String Bool} (h : Unmoved verify D)
    {d : Capture env secret} (hd : d ∈ D) {t : Int} {r : Webhook}
    (hv : verify t secret r = .ok true) (hs : r.signature = d.webhook.signature)
    (hdot : '.' ∈ r.id.toList ∨ '.' ∈ r.timestamp.toList) : False := by
  obtain ⟨d', -, hid, hts, -⟩ := h t r (List.mem_map.mpr ⟨d, hd, hs.symm⟩) hv
  rw [hid, hts] at hdot
  rcases hdot with hdot | hdot
  · exact dot_notMem_id hdot
  · exact dot_notMem_timestamp hdot

/-- In Node.js, the fields stay in place exactly if no payload has a dot: up to a dot in the payload,
the timestamp may go on. -/
theorem node_unmoved_iff (hinj : Function.Injective (env.hmac secret)) :
    Unmoved (Node.verifyWebhook env.hmac) D ↔ ∀ d ∈ D, '.' ∉ d.msg.payload.toList := by
  constructor
  · intro h d hd hdot
    obtain ⟨a, b, hab⟩ := List.append_of_mem hdot
    have hpayload : d.webhook.body = String.ofList a ++ "." ++ String.ofList b := by
      change d.msg.payload = _
      rw [← String.toList_inj, hab]
      simp
    have hcontent : d.webhook.id ++ "." ++ (d.webhook.timestamp ++ ("." ++ String.ofList a)) ++ "." ++
        String.ofList b = d.webhook.content := by
      rw [Webhook.content, hpayload]
      simp only [String.append_assoc]
    have hparse : parseInt (d.webhook.timestamp ++ ("." ++ String.ofList a)) =
        some (d.now / 1000000) := by
      apply parseInt_toString
      simp
    have hv : Node.verifyWebhook env.hmac (d.now / 1000000 * 1000000) secret
        ⟨d.webhook.id, d.webhook.timestamp ++ ("." ++ String.ofList a), d.webhook.signature,
          String.ofList b⟩ = .ok true := by
      apply Node.verifyWebhook_iff.mpr
      refine ⟨?_, moved_signature hcontent⟩
      dsimp only
      rw [hparse]
      intro ts hts
      cases hts
      omega
    have hmoved : '.' ∈ (d.webhook.timestamp ++ ("." ++ String.ofList a)).toList := by simp
    exact h.no_dot hd hv rfl (.inr hmoved)
  · intro h t r hs hv
    obtain ⟨d, hd, hcontent⟩ := captured_content hinj hs (Node.verifyWebhook_iff.mp hv).2
    rcases moved_cases hcontent with hsame | ⟨hdot, -⟩
    · exact ⟨d, hd, hsame⟩
    · exact absurd hdot (h d hd)

/-- In Python, exactly if no payload has a number between dots. -/
theorem python_unmoved_iff (hinj : Function.Injective (env.hmac secret)) :
    Unmoved (Python.verifyWebhook env.hmac) D ↔
      ∀ d ∈ D, ∀ n, BetweenDots n d.msg.payload → pyInt n = none := by
  constructor
  · intro h d hd n hn
    by_contra hnum
    obtain ⟨ts, hts⟩ := Option.ne_none_iff_exists'.mp hnum
    obtain ⟨id, body, hdot, hcontent⟩ : ∃ id body : String, '.' ∈ id.toList ∧
        id ++ "." ++ n ++ "." ++ body = d.webhook.content := by
      rcases hn with ⟨y, hy⟩ | ⟨x, y, hxy⟩
      · refine ⟨d.webhook.id ++ "." ++ d.webhook.timestamp, y, by simp, ?_⟩
        have hbody : d.webhook.body = n ++ "." ++ y := hy
        rw [Webhook.content, hbody]
        simp only [String.append_assoc]
      · refine ⟨d.webhook.id ++ "." ++ d.webhook.timestamp ++ "." ++ x, y, by simp, ?_⟩
        have hbody : d.webhook.body = x ++ "." ++ n ++ "." ++ y := hxy
        rw [Webhook.content, hbody]
        simp only [String.append_assoc]
    have hv : Python.verifyWebhook env.hmac (ts * 1000000) secret
        ⟨id, n, d.webhook.signature, body⟩ = .ok true := by
      apply Python.verifyWebhook_iff.mpr
      refine ⟨⟨ts, hts, ?_⟩, moved_signature hcontent⟩
      omega
    exact h.no_dot hd hv rfl (.inl hdot)
  · intro h t r hs hv
    obtain ⟨⟨ts, hts, -⟩, hsig⟩ := Python.verifyWebhook_iff.mp hv
    obtain ⟨d, hd, hcontent⟩ := captured_content hinj hs hsig
    rcases moved_cases hcontent with hsame | ⟨-, hdot | hn⟩
    · exact ⟨d, hd, hsame⟩
    · rw [pyInt_dot hdot] at hts
      cases hts
    · rw [h d hd _ hn] at hts
      cases hts

end Contents

/-- What the receivers accept of captured webhooks has the fields of one of them, exactly if no payload
has a dot, for Node.js, and exactly if none has a number between dots, for Python. -/
theorem unmoved_iff {env : Platform} {secret : String} (hinj : Function.Injective (env.hmac secret))
    (D : List (Capture env secret)) :
    (Unmoved (Node.verifyWebhook env.hmac) D ↔ ∀ d ∈ D, '.' ∉ d.msg.payload.toList) ∧
      (Unmoved (Python.verifyWebhook env.hmac) D ↔
        ∀ d ∈ D, ∀ n, BetweenDots n d.msg.payload → pyInt n = none) :=
  ⟨node_unmoved_iff hinj, python_unmoved_iff hinj⟩

/-! ### The sample -/

def sampleCapture : Capture samplePlatform sampleSecret :=
  ⟨sampleMessage, 1600000000 * 1000000, sampleRequest, sample_signs⟩

theorem unmoved_iff_sample :
    (Unmoved (Node.verifyWebhook sampleHmac) [sampleCapture] ↔
      ∀ d ∈ [sampleCapture], '.' ∉ d.msg.payload.toList) ∧
      (Unmoved (Python.verifyWebhook sampleHmac) [sampleCapture] ↔
        ∀ d ∈ [sampleCapture], ∀ n, BetweenDots n d.msg.payload → pyInt n = none) :=
  @unmoved_iff samplePlatform sampleSecret (sampleHmac_injective _) [sampleCapture]

theorem sampleCapture_content : sampleCapture.webhook.content = sampleContent := by decide +kernel

private theorem sample_signature {id timestamp body : String}
    (h : id ++ "." ++ timestamp ++ "." ++ body = sampleContent) :
    sampleCapture.webhook.signature = signature sampleHmac sampleSecret
      (Webhook.content ⟨id, timestamp, sampleCapture.webhook.signature, body⟩) :=
  @moved_signature samplePlatform sampleSecret sampleCapture id timestamp body
    (h.trans sampleCapture_content.symm)

/-- The captured text with the number of its payload as the timestamp. -/
def sampleLate : Webhook :=
  { id := "msg_00000000-0000-0000-0000-000000000001.1600000000.\x7b\"v\": \"a"
    timestamp := "1700000000"
    signature := sampleCapture.webhook.signature
    body := "b\"\x7d" }

/-- The captured text with no number as the timestamp. -/
def sampleTimeless : Webhook :=
  { id := "msg_00000000-0000-0000-0000-000000000001.1600000000"
    timestamp := "\x7b\"v\": \"a"
    signature := sampleCapture.webhook.signature
    body := "1700000000.b\"\x7d" }

/-- Years after it was sent, the request of the sample passes with another timestamp, in both
languages; in Node.js, it also passes at any time without one. -/
theorem sample_moved :
    receive sampleRequest = some sampleCapture.webhook ∧
      sampleLate.id ≠ sampleCapture.webhook.id ∧ sampleTimeless.id ≠ sampleCapture.webhook.id ∧
      Node.verifyWebhook sampleHmac (1700000000 * 1000000) sampleSecret sampleLate = .ok true ∧
      Python.verifyWebhook sampleHmac (1700000000 * 1000000) sampleSecret sampleLate = .ok true ∧
      ∀ t, Node.verifyWebhook sampleHmac t sampleSecret sampleTimeless = .ok true := by
  refine ⟨sampleCapture.receive, by decide, by decide, ?_, ?_, fun t ↦ ?_⟩
  · apply Node.verifyWebhook_iff.mpr
    refine ⟨fun ts hts ↦ ?_, sample_signature (by decide)⟩
    have hparse : parseInt sampleLate.timestamp = some 1700000000 := by decide
    rw [hparse, Option.some.injEq] at hts
    omega
  · apply Python.verifyWebhook_iff.mpr
    exact ⟨⟨1700000000, by decide, by decide⟩, sample_signature (by decide)⟩
  · apply Node.verifyWebhook_iff.mpr
    refine ⟨fun ts hts ↦ ?_, sample_signature (by decide)⟩
    have hparse : parseInt sampleTimeless.timestamp = none := by decide
    rw [hparse] at hts
    cases hts

end Chis.Receiver
