import Chis.Access.Accepting
import Chis.Access.Administration

/-!
# Who a key authenticates

A key is stored as a hash. `ValidateApiKey` lets a request through exactly if its key was created
for an organization, neither the key nor the organization has been deleted since, and the key has not
expired.
-/

namespace Chis.Access

open Program Api Relation

/-! ### The middleware -/

/-- `ValidateApiKey`, run alone, passes the request on for the organization: the answer stands for
what comes after it. -/
def Authenticates (env : Env) (exec : (o : Op) → World → o.Res → World → Prop) (r : Request)
    (w : World) (orgID : Uuid) : Prop :=
  ∃ w', (validateApiKey env r fun orgID ↦ .pure (message 200 orgID.toString)).Runs exec w
    (message 200 orgID.toString) w'

private theorem message_inj {code : Nat} {text text' : String}
    (h : message code text = message code text') : text = text' := by
  simpa [message, writeJSON] using h

private theorem message_ne {code code' : Nat} {text text' : String} (h : code ≠ code') :
    message code text ≠ message code' text' :=
  fun he ↦ h (congrArg Response.code he)

/-- A request without a key is not let through. -/
theorem authenticates_header {env : Env} {exec : (o : Op) → World → o.Res → World → Prop}
    {r : Request} {w : World} {orgID : Uuid} (h : Authenticates env exec r w orgID) :
    r.apiKeyHeader ≠ "" := by
  intro hheader
  unfold Authenticates validateApiKey at h
  rw [if_pos hheader] at h
  obtain ⟨w', he, -⟩ := h
  exact message_ne (by decide) he

/-- It looks the key up by its hash, and the clock if the key expires. -/
theorem authenticates_iff {env : Env} {exec : (o : Op) → World → o.Res → World → Prop} {r : Request}
    {w : World} {orgID : Uuid} (hheader : r.apiKeyHeader ≠ "") :
    Authenticates env exec r w orgID ↔ ∃ k : APIKey, ∃ w₁ : World, k.orgID = orgID ∧
      exec (.sql (.apiKeyFindByHashedKey (hashSHA256 env r.apiKeyHeader))) w (.ok k) w₁ ∧
      ∀ e, k.expiresAt = some e → ∃ t : Time, ∃ w₂ : World, exec .now w₁ t w₂ ∧ t ≤ e := by
  unfold Authenticates validateApiKey
  rw [if_neg hheader]
  constructor
  · rintro ⟨w', res, w₁, hx, hrest⟩
    cases res with
    | error e =>
      obtain ⟨he, -⟩ := hrest
      exact absurd he (message_ne (by decide))
    | ok k =>
      cases hk : (k : APIKey).expiresAt with
      | none =>
        simp only [Prog.bind_pure, hk] at hrest
        obtain ⟨he, -⟩ := hrest
        exact ⟨k, w₁, (Uuid.toString_inj.mp (message_inj he)).symm, hx, by simp [hk]⟩
      | some e =>
        simp only [Prog.bind_pure, hk, timeNow, Prog.monad_bind, Prog.bind_call] at hrest
        obtain ⟨t, w₂, hnow, hrest⟩ := hrest
        beta_reduce at hrest
        by_cases ht : e < (t : Time)
        · rw [if_pos ht] at hrest
          obtain ⟨he, -⟩ := hrest
          exact absurd he (message_ne (by decide))
        · rw [if_neg ht] at hrest
          obtain ⟨he, -⟩ := hrest
          refine ⟨k, w₁, (Uuid.toString_inj.mp (message_inj he)).symm, hx, fun e' he' ↦ ?_⟩
          rw [hk] at he'
          cases he'
          exact ⟨t, w₂, hnow, Int.not_lt.mp ht⟩
  · rintro ⟨k, w₁, rfl, hx, hexpiry⟩
    cases hk : k.expiresAt with
    | none =>
      refine ⟨w₁, .ok k, w₁, hx, ?_⟩
      simp only [Prog.bind_pure, hk]
      exact ⟨rfl, rfl⟩
    | some e =>
      obtain ⟨t, w₂, hnow, ht⟩ := hexpiry e hk
      refine ⟨w₂, .ok k, w₁, hx, ?_⟩
      simp only [Prog.bind_pure, hk, timeNow, Prog.monad_bind, Prog.bind_call]
      refine ⟨t, w₂, hnow, ?_⟩
      beta_reduce
      rw [if_neg (Int.not_lt.mpr ht)]
      exact ⟨rfl, rfl⟩

/-! ### What a request that creates a key answers -/

/-- The response gives the full key to the caller. -/
def Shows (res : Response) (fullApiKey : String) : Prop :=
  res.code = 201 ∧ ∃ members, res.body = some (.obj members) ∧ ("key", .str fullApiKey) ∈ members

/-- A response has been sent. -/
abbrev Op.sent (res : Response) : Event Op.Res := ⟨.respond res, ()⟩

/-- Random bytes have been drawn. -/
abbrev Op.drew (bytes : List UInt8) : Event Op.Res :=
  ⟨.rand, (.ok bytes : Except Err (List UInt8))⟩

/-- Random bytes are drawn once; the response ends the request, and shows the key that has been
created. -/
structure Reports (past : List (Event Op.Res)) (o : Op) : Prop where
  unsent : ∀ res, Op.sent res ∉ past
  once : o = .rand → ∀ bytes, Op.drew bytes ∉ past
  shows : ∀ res, o = .respond res → ∀ k₀ k bytes, (Stmt.apiKeyCreate k₀).returned k ∈ past →
    Op.drew bytes ∈ past → Shows res (Helper.randomText "chis_sk_" bytes)

/-- Neither a response nor a key so far. -/
structure Early (past : List (Event Op.Res)) : Prop where
  unsent : ∀ res, Op.sent res ∉ past
  keyless : ∀ k₀ k, (Stmt.apiKeyCreate k₀).returned k ∉ past

/-- What has been answered shows what has been created. -/
theorem shows_of_valid {past : List (Event Op.Res)} (hv : Valid Reports past) {res : Response}
    {k₀ k : APIKey} {bytes : List UInt8} (hres : Op.sent res ∈ past)
    (hk : (Stmt.apiKeyCreate k₀).returned k ∈ past) (hbytes : Op.drew bytes ∈ past) :
    Shows res (Helper.randomText "chis_sk_" bytes) := by
  cases past with
  | nil => cases hres
  | cons e past =>
    rcases List.mem_cons.mp hres with rfl | hres
    · have hk' : (Stmt.apiKeyCreate k₀).returned k ∈ past := by simpa using hk
      have hbytes' : Op.drew bytes ∈ past := by simpa using hbytes
      exact hv.1.shows res rfl k₀ k bytes hk' hbytes'
    · exact absurd hres (hv.1.unsent res)

/-- A request that creates a key draws once. -/
theorem draws_once {past : List (Event Op.Res)} (hv : Valid Reports past) {bytes bytes' : List UInt8}
    (h : Op.drew bytes ∈ past) (h' : Op.drew bytes' ∈ past) : bytes = bytes' := by
  induction past with
  | nil => cases h
  | cons e past ih =>
    rcases List.mem_cons.mp h with rfl | h₁
    · rcases List.mem_cons.mp h' with he | h₂
      · cases he
        rfl
      · exact absurd h₂ (hv.1.once rfl bytes')
    · rcases List.mem_cons.mp h' with rfl | h₂
      · exact absurd h₁ (hv.1.once rfl bytes)
      · exact ih hv.2 h₁ h₂

section Creation

variable {env : Env} {r : Request} {past : List (Event Op.Res)}

theorem Early.reports (h : Early past) {o : Op} (ho : o ≠ .rand) : Reports past o :=
  ⟨h.unsent, fun he ↦ absurd he ho, fun _ _ k₀ k _ hk ↦ absurd hk (h.keyless k₀ k)⟩

/-- What follows a response. -/
private abbrev Ends (past : List (Event Op.Res)) (res : Response) : Prop :=
  Prog.Traces Reports (fun past (_ : Unit) ↦ ∃ res, Op.sent res ∈ past)
    (Prog.call (Op.respond res)) past

private theorem Early.ends (h : Early past) (res : Response) : Ends past res :=
  ⟨h.reports (by simp), fun _ ↦ ⟨res, List.mem_cons_self⟩⟩

private theorem Early.fails (h : Early past) (fault : Fault) :
    (do let now ← timeNow
        return writeJSON fault.toAppError.code (fault.toAppError.body r.path now)
      : Service Response).Traces Reports Ends past := by
  refine ⟨h.reports (by simp), fun now ↦ ?_⟩
  have hnow : Early (⟨.now, now⟩ :: past) := ⟨by simp [h.unsent], by simp [h.keyless]⟩
  exact hnow.ends _

private theorem createApiKey_reports {orgID : Uuid} (h : Early past)
    (hdraw : ∀ bytes, Op.drew bytes ∉ past) :
    (wrap r (createApiKey env orgID r)).Traces Reports Ends past := by
  unfold wrap createApiKey
  rw [Prog.monad_bind, Prog.traces_bind]
  cases decodeAndValidate (CreateApiKeyRequest.fields env)
      (fun req ↦ fieldErrors env "name" [.required, .min 3] req.name) r.body with
  | error fault => exact h.fails fault
  | ok req =>
    rw [run_check_ok, run_random_bind]
    refine ⟨⟨h.unsent, fun _ ↦ hdraw, by simp⟩, fun (x : Except Err (List UInt8)) ↦ ?_⟩
    cases x with
    | error e => exact Early.fails ⟨by simp [h.unsent], by simp [h.keyless]⟩ _
    | ok bytes =>
      have hdrawn : Early (Op.drew bytes :: past) := ⟨by simp [h.unsent], by simp [h.keyless]⟩
      refine ⟨hdrawn.reports (by simp), fun (x : Except Err APIKey) ↦ ?_⟩
      cases x with
      | error e => exact Early.fails ⟨by simp [h.unsent], by simp [h.keyless]⟩ _
      | ok k =>
        refine ⟨⟨by simp [h.unsent], by simp, ?_⟩, fun _ ↦ ⟨_, List.mem_cons_self⟩⟩
        intro res hres k₀ k' bytes' _ hmem
        have hbytes : bytes' = bytes := by simpa [hdraw] using hmem
        cases hres
        rw [hbytes]
        exact ⟨rfl, _, rfl, by simp⟩

/-- Every request to create a key keeps to that. -/
theorem serve_reports : (serve env (.org .createApiKey) r).Traces Reports
    (fun past _ ↦ ∃ res, Op.sent res ∈ past) [] := by
  unfold serve handle
  rw [Prog.monad_bind, Prog.traces_bind]
  have hnil : Early [] := ⟨by simp, by simp⟩
  change (validateToken env r fun userID ↦ validateOrgAccess r userID fun orgID ↦
    wrap r (createApiKey env orgID r)).Traces Reports Ends []
  unfold validateToken
  split
  · exact hnil.ends _
  · next token htoken =>
    rw [Prog.monad_bind, traces_now_bind]
    refine ⟨hnil.reports (by simp), fun t ↦ ?_⟩
    have htime : Early [Op.sawTime t] := ⟨by simp, by simp⟩
    cases tokenUser env t token with
    | none => exact htime.ends _
    | some userID =>
      simp only []
      unfold validateOrgAccess
      split
      · exact htime.ends _
      · cases Uuid.parse r.orgHeader with
        | none => exact htime.ends _
        | some orgID =>
          simp only [Prog.monad_bind, traces_sql_bind]
          refine ⟨htime.reports (by simp), fun (m : Membership) ↦
            createApiKey_reports ⟨by simp, by simp⟩ (by simp), fun e ↦ ?_⟩
          have herror : Early [(Stmt.membershipFindByUserAndOrgID userID orgID).failed e,
              Op.sawTime t] := ⟨by simp, by simp⟩
          exact herror.ends _

end Creation

/-! ### Which keys there are -/

/-- The event deletes the key, or its organization. -/
def Removes (e : Event Op.Res) (k : APIKey) : Prop :=
  e = (Stmt.apiKeyDelete k.id).returned () ∨ e = (Stmt.organizationDelete k.orgID).returned ()

theorem removes_keyDelete {id : Uuid} {k : APIKey} :
    Removes ((Stmt.apiKeyDelete id).returned ()) k ↔ k.id = id := by
  constructor
  · rintro (h | h) <;> cases h
    rfl
  · rintro rfl
    exact .inl rfl

theorem removes_orgDelete {id : Uuid} {k : APIKey} :
    Removes ((Stmt.organizationDelete id).returned ()) k ↔ k.orgID = id := by
  constructor
  · rintro (h | h) <;> cases h
    rfl
  · rintro rfl
    exact .inr rfl

/-- A key is in the table after a statement if the statement has created it, or not removed it. -/
theorem apiKey_rows {env : Platform} {ch : Choice} {db db' : Db} {s : Stmt} {r : Except Err s.Ok}
    (hx : s.exec env ch db = (r, db')) (k : APIKey) : k ∈ db'.apiKeys ↔
      (∃ k₀, (⟨.sql s, r⟩ : Event Op.Res) = (Stmt.apiKeyCreate k₀).returned k) ∨
        k ∈ db.apiKeys ∧ ¬ Removes ⟨.sql s, r⟩ k := by
  by_cases hcreate : ∃ k₀, s = .apiKeyCreate k₀
  · obtain ⟨k₀, rfl⟩ := hcreate
    have hkeeps : ¬ Removes ⟨.sql (.apiKeyCreate k₀), r⟩ k := by
      rintro (h | h) <;> cases h
    rcases Stmt.write_inv hx with ⟨a, rfl, hc⟩ | ⟨e, rfl, -, rfl⟩
    · obtain ⟨-, apiKeys, hins, rfl⟩ := ApiKeyRepository.create_ok hc
      rw [Relational.Table.mem_of_insert? hins k]
      constructor
      · rintro (hk | rfl)
        · exact .inr ⟨hk, hkeeps⟩
        · exact .inl ⟨k₀, rfl⟩
      · rintro (⟨k₁, h⟩ | ⟨hk, -⟩)
        · cases h
          exact .inr rfl
        · exact .inl hk
    · constructor
      · exact fun hk ↦ .inr ⟨hk, hkeeps⟩
      · rintro (⟨k₁, h⟩ | ⟨hk, -⟩)
        · cases h
        · exact hk
  · have hnew : ¬ ∃ k₀, (⟨.sql s, r⟩ : Event Op.Res) = (Stmt.apiKeyCreate k₀).returned k := by
      rintro ⟨k₀, h⟩
      cases h
      exact hcreate ⟨k₀, rfl⟩
    rw [or_iff_right hnew]
    by_cases hdelete : ∃ id, s = .apiKeyDelete id
    · obtain ⟨id, rfl⟩ := hdelete
      rcases Stmt.writeUnit_inv hx with ⟨rfl, hd⟩ | ⟨e, rfl, -, rfl⟩
      · obtain ⟨-, rfl⟩ := ApiKeyRepository.delete_ok hd
        rw [Relational.Table.mem_filter, removes_keyDelete, decide_eq_true_eq]
      · have hkeeps : ¬ Removes ⟨.sql (.apiKeyDelete id), (.error e : Except Err Unit)⟩ k := by
          rintro (h | h) <;> cases h
        exact (and_iff_left hkeeps).symm
    by_cases horg : ∃ id, s = .organizationDelete id
    · obtain ⟨id, rfl⟩ := horg
      obtain ⟨rfl, rfl⟩ := Prod.mk.inj hx
      change k ∈ db.apiKeys.filter _ ↔ _
      rw [Relational.Table.mem_filter, removes_orgDelete, decide_eq_true_eq]
    · have hkeeps : ¬ Removes ⟨.sql s, r⟩ k := by
        rintro (h | h)
        · cases h
          exact hdelete ⟨_, rfl⟩
        · cases h
          exact horg ⟨_, rfl⟩
      rw [and_iff_left hkeeps]
      have hc := Stmt.exec_change env ch db s
      rw [hx] at hc
      cases hc with
      | apiKeyCreate => exact absurd ⟨_, rfl⟩ hcreate
      | apiKeyDelete => exact absurd ⟨_, rfl⟩ hdelete
      | organizationDelete => exact absurd ⟨_, rfl⟩ horg
      | messageUpdateStatus hu =>
        obtain ⟨_, rfl⟩ := MessageRepository.updateStatus_ok hu
        exact Iff.rfl
      | _ => exact Iff.rfl

/-- By the log, newest entry first, the key has been created and not been removed since. -/
def Live : List Entry → APIKey → Prop
  | [], _ => False
  | e :: log, k =>
    (∃ k₀, e.event = (Stmt.apiKeyCreate k₀).returned k) ∨ Live log k ∧ ¬ Removes e.event k

theorem live_iff {log : List Entry} {k : APIKey} : Live log k ↔
    ∃ newer e older k₀, log = newer ++ e :: older ∧
      e.event = (Stmt.apiKeyCreate k₀).returned k ∧ ∀ e' ∈ newer, ¬ Removes e'.event k := by
  induction log with
  | nil =>
    constructor
    · exact fun h ↦ h.elim
    · rintro ⟨newer, e, older, k₀, h, -⟩
      simp at h
  | cons e log ih =>
    rw [Live, ih]
    constructor
    · rintro (⟨k₀, h⟩ | ⟨⟨newer, e', older, k₀, rfl, h, hkeeps⟩, hk⟩)
      · exact ⟨[], e, log, k₀, rfl, h, by simp⟩
      · refine ⟨e :: newer, e', older, k₀, rfl, h, fun e'' he ↦ ?_⟩
        rcases List.mem_cons.mp he with rfl | he
        · exact hk
        · exact hkeeps e'' he
    · rintro ⟨newer, e', older, k₀, hlog, h, hkeeps⟩
      cases newer with
      | nil =>
        cases hlog
        exact .inl ⟨k₀, h⟩
      | cons e'' newer =>
        cases hlog
        exact .inr ⟨⟨newer, e', older, k₀, rfl, h, fun x hx ↦ hkeeps x (List.mem_cons_of_mem _ hx)⟩,
          hkeeps e List.mem_cons_self⟩

section Run

variable {env : Env} {sent : Nat → Route × Request} {G : World → Proc → Op → Prop} {now : Time}
  {c : Config Proc World Op Op.Res}

/-- The table holds the live keys. -/
theorem live_row (h : (system env sent G).Reachable (World.start now) c) :
    ∀ k, k ∈ c.state.db.apiKeys ↔ Live c.state.log k := by
  refine h.induct (I := fun c ↦ ∀ k, k ∈ c.state.db.apiKeys ↔ Live c.state.log k) ?_ ?_
  · exact fun k ↦ iff_of_false (fun hk ↦ nomatch hk) id
  · intro c c' _ ih hstep k
    cases hstep with
    | @act i o _ r w' hp hx =>
      obtain ⟨t, hlog⟩ := hx.2.log_eq
      rw [hlog, Live, ← ih k]
      by_cases hs : ∃ s, o = .sql s
      · obtain ⟨s, rfl⟩ := hs
        rcases World.Exec.sql hx.2 with ⟨hr, hd⟩ | ⟨ch, -, hexec, -⟩
        · subst hr
          rw [hd]
          constructor
          · refine fun hk ↦ .inr ⟨hk, ?_⟩
            rintro (h | h) <;> cases h
          · rintro (⟨k₀, h⟩ | ⟨hk, -⟩)
            · cases h
            · exact hk
        · exact apiKey_rows hexec k
      · rw [World.Exec.db_eq hx.2 fun s he ↦ hs ⟨s, he⟩]
        constructor
        · refine fun hk ↦ .inr ⟨hk, ?_⟩
          rintro (h | h) <;> cases h <;> exact hs ⟨_, rfl⟩
        · rintro (⟨k₀, h⟩ | ⟨hk, -⟩)
          · cases h
            exact absurd ⟨_, rfl⟩ hs
          · exact hk
    | again => exact ih k

/-- Client `n` has created key `k`, with the full key `fullApiKey`, for the organization of its
header, and nothing has removed it since. What the client has been answered is the full key. -/
structure Created (env : Env) (sent : Nat → Route × Request) (c : Config Proc World Op Op.Res)
    (n : Nat) (fullApiKey : String) (k : APIKey) : Prop where
  route : (sent n).1 = .org .createApiKey
  org : Uuid.parse (sent n).2.orgHeader = some k.orgID
  created : ∃ newer e older k₀ bytes, c.state.log = newer ++ e :: older ∧ e.proc = .client n ∧
    e.event = (Stmt.apiKeyCreate k₀).returned k ∧ Op.drew bytes ∈ history older (.client n) ∧
    fullApiKey = Helper.randomText "chis_sk_" bytes ∧ ∀ e' ∈ newer, ¬ Removes e'.event k
  shown : ∀ res, Op.sent res ∈ c.state.past (.client n) → Shows res fullApiKey
  answered : c.procs (.client n) = .pure () → ∃ res, Op.sent res ∈ c.state.past (.client n)

/-- What the process does that creates keys. -/
private theorem reported (h : (system env sent G).Reachable (World.start now) c) {n : Nat}
    (hroute : (sent n).1 = .org .createApiKey) :
    (c.procs (.client n)).Traces Reports (fun past _ ↦ ∃ res, Op.sent res ∈ past)
      (c.state.past (.client n)) ∧ Valid Reports (c.state.past (.client n)) := by
  have ht := (system_records env sent G).traces
    (P := fun i ↦ if i = .client n then Reports else fun _ _ ↦ True)
    (Q := fun i past _ ↦ i = .client n → ∃ res, Op.sent res ∈ past) (fun _ ↦ rfl) ?_ h (.client n)
  · simpa using ht
  · intro i p hp
    by_cases hi : i = .client n
    · subst hi
      rcases hp with hp | rfl
      · exact absurd rfl (hp n)
      · have hbody : (system env sent G).body (.client n) =
            serve env (.org .createApiKey) (sent n).2 := by
          rw [← hroute]
          rfl
        rw [hbody, if_pos rfl]
        exact Prog.Traces.mono (fun _ _ h ↦ h) (fun _ _ h _ ↦ h) serve_reports
    · rw [if_neg hi]
      exact Prog.Traces.of_uses (U := fun _ ↦ True) (fun _ _ _ ↦ trivial)
        (fun _ _ h ↦ absurd h hi) (Prog.uses_anything _) p

/-- What the log says of the creation of a key. -/
private theorem creation (h : (system env sent G).Reachable (World.start now) c)
    {newer older : List Entry} {e : Entry} {k₀ k : APIKey} (hlog : c.state.log = newer ++ e :: older)
    (he : e.event = (Stmt.apiKeyCreate k₀).returned k) :
    ∃ n bytes, e.proc = .client n ∧ (sent n).1 = .org .createApiKey ∧
      Uuid.parse (sent n).2.orgHeader = some k.orgID ∧ Op.drew bytes ∈ history older (.client n) ∧
      k.hashedKey = hashSHA256 env (Helper.randomText "chis_sk_" bytes) ∧
      c.state.past (.client n) = history newer (.client n) ++
        (Stmt.apiKeyCreate k₀).returned k :: history older (.client n) := by
  have hpast : c.state.past e.proc =
      history newer e.proc ++ (Stmt.apiKeyCreate k₀).returned k :: history older e.proc := by
    rw [← history_log, hlog, history_split, he]
  have hvalid := dutiful h e.proc
  rw [hpast] at hvalid
  have hduty := hvalid.split
  have hmem : (Stmt.apiKeyCreate k₀).returned k ∈ c.state.past e.proc := by
    rw [hpast]
    exact List.mem_append_right _ List.mem_cons_self
  obtain ⟨c₀, ch, db', -, -, hexec⟩ := returned_then h hmem
  rcases Stmt.write_inv hexec with ⟨a, ha, hc⟩ | ⟨e', he', -⟩
  · cases ha
    obtain ⟨hrow, -⟩ := ApiKeyRepository.create_ok hc
    generalize e.proc = i at *
    cases i with
    | worker w => cases hduty
    | scheduler => cases hduty
    | client n =>
      obtain ⟨hroute, horg, bytes, hbytes, hhash⟩ := hduty
      exact ⟨n, bytes, rfl, hroute, by rw [hrow]; exact horg, hbytes, by rw [hrow]; exact hhash, hpast⟩
  · cases he'

/-- A live key has been created by a request, which knows the full key. -/
theorem Live.created (h : (system env sent G).Reachable (World.start now) c) {k : APIKey}
    (hk : Live c.state.log k) : ∃ n bytes,
      Created env sent c n (Helper.randomText "chis_sk_" bytes) k ∧
      k.hashedKey = hashSHA256 env (Helper.randomText "chis_sk_" bytes) ∧
      Op.drew bytes ∈ c.state.past (.client n) := by
  obtain ⟨newer, e, older, k₀, hlog, he, hkeeps⟩ := live_iff.mp hk
  obtain ⟨n, bytes, hproc, hroute, horg, hbytes, hhash, hpast⟩ := creation h hlog he
  obtain ⟨htraces, hreports⟩ := reported h hroute
  have hmem : (Stmt.apiKeyCreate k₀).returned k ∈ c.state.past (.client n) := by
    rw [hpast]
    exact List.mem_append_right _ List.mem_cons_self
  have hdrew : Op.drew bytes ∈ c.state.past (.client n) := by
    rw [hpast]
    exact List.mem_append_right _ (List.mem_cons_of_mem _ hbytes)
  refine ⟨n, bytes, ?_, hhash, hdrew⟩
  exact
    { route := hroute
      org := horg
      created := ⟨newer, e, older, k₀, bytes, hlog, hproc, he, hbytes, rfl, hkeeps⟩
      shown := fun res hres ↦ shows_of_valid hreports hres hmem hdrew
      answered := fun hend ↦ by
        rw [hend] at htraces
        exact htraces }

/-- The full key of a creation is the one that the row has the hash of. -/
theorem Created.hash (h : (system env sent G).Reachable (World.start now) c) {n : Nat}
    {fullApiKey : String} {k : APIKey} (hc : Created env sent c n fullApiKey k) :
    k.hashedKey = hashSHA256 env fullApiKey := by
  obtain ⟨newer, e, older, k₀, bytes, hlog, hproc, he, hdrew, rfl, -⟩ := hc.created
  obtain ⟨n', bytes', hproc', -, -, hdrew', hhash, hpast⟩ := creation h hlog he
  cases hproc.symm.trans hproc'
  have hmem {bytes : List UInt8} (hb : Op.drew bytes ∈ history older (.client n)) :
      Op.drew bytes ∈ c.state.past (.client n) := by
    rw [hpast]
    exact List.mem_append_right _ (List.mem_cons_of_mem _ hb)
  rw [draws_once (reported h hc.route).2 (hmem hdrew) (hmem hdrew')]
  exact hhash

private theorem found_at {t : Time} {i : Proc} {w : World} (ht : w.clock ≤ t) {hash : String}
    {k : APIKey} : (∃ w₁, atTime env t i (.sql (.apiKeyFindByHashedKey hash)) w (.ok k) w₁ ∧
      w₁.clock = t) ↔ ApiKeyRepository.findByHashedKey hash w.db = .ok k := by
  constructor
  · rintro ⟨w₁, hx, -⟩
    obtain ⟨ch, -, hexec, -⟩ := atTime_sql hx
    exact (Prod.mk.inj hexec).1
  · intro hfind
    obtain ⟨w₁, hx, -, hc⟩ := World.exec_sql env.toPlatform (fun ch ↦ ch.fail = false ∧ ch.now = t) i
      (.apiKeyFindByHashedKey hash) ⟨false, t, .nil, fun _ ↦ 0, .failed "", []⟩ rfl ⟨rfl, rfl⟩ rfl ht
    refine ⟨w₁, ?_, hc⟩
    have hans : ((Stmt.apiKeyFindByHashedKey hash).exec env.toPlatform
        ⟨false, t, .nil, fun _ ↦ 0, .failed "", []⟩ w.db).1 = .ok k := hfind
    rwa [hans] at hx

/-- At any time from now on, `ValidateApiKey` passes a request on for an organization exactly if the
header holds a key that a client has created for that organization, that nothing has removed and
that has not expired. -/
theorem authentication_exact (h : (system env sent anyStep).Reachable (World.start now) c) {t : Time}
    (ht : c.state.clock ≤ t) (i : Proc) {r : Request} (hheader : r.apiKeyHeader ≠ "")
    (hinj : ∀ n bytes, (sent n).1 = .org .createApiKey → Op.drew bytes ∈ c.state.past (.client n) →
      env.sha256 (Helper.randomText "chis_sk_" bytes) = env.sha256 r.apiKeyHeader →
      Helper.randomText "chis_sk_" bytes = r.apiKeyHeader) (orgID : Uuid) :
    Authenticates env (atTime env t i) r c.state orgID ↔
      ∃ n k, Created env sent c n r.apiKeyHeader k ∧ (∀ e, k.expiresAt = some e → t ≤ e) ∧
        k.orgID = orgID := by
  rw [authenticates_iff hheader]
  constructor
  · rintro ⟨k, w₁, horg, hx, hexpiry⟩
    obtain ⟨ch, -, hexec, -⟩ := atTime_sql hx
    have hfind := elim_ok.mp (Prod.mk.inj hexec).1
    have hhash : k.hashedKey = hashSHA256 env r.apiKeyHeader := by simpa using List.find?_some hfind
    have hlive := (live_row h k).mp (List.mem_of_find?_eq_some hfind)
    obtain ⟨n, bytes, hcreated, hhash', hdrew⟩ := hlive.created h
    have hsha := Helper.hexEncode_inj (hhash'.symm.trans hhash)
    rw [hinj n bytes hcreated.route hdrew hsha] at hcreated
    refine ⟨n, k, hcreated, fun e he ↦ ?_, horg⟩
    obtain ⟨t', w₂, hnow, hle⟩ := hexpiry e he
    rwa [(atTime_now hnow).1] at hle
  · rintro ⟨n, k, hcreated, hexpiry, horg⟩
    obtain ⟨newer, e, older, k₀, bytes, hlog, -, he, -, -, hkeeps⟩ := hcreated.created
    have hrow := (live_row h k).mpr (live_iff.mpr ⟨newer, e, older, k₀, hlog, he, hkeeps⟩)
    have hfind : ApiKeyRepository.findByHashedKey (hashSHA256 env r.apiKeyHeader) c.state.db =
        .ok k := by
      rw [← hcreated.hash h]
      exact ApiKeyRepository.findByHashedKey_eq hrow (Api.sound h).unique.apiKeys
    obtain ⟨w₁, hx, hc₁⟩ := (@found_at env _ i _ ht _ _).mpr hfind
    refine ⟨k, w₁, horg, hx, fun e' he' ↦ ?_⟩
    obtain ⟨w₂, hnow⟩ := World.exec_now env.toPlatform (fun ch ↦ ch.fail = false ∧ ch.now = t) i
      ⟨false, t, .nil, fun _ ↦ 0, .failed "", []⟩ ⟨rfl, rfl⟩ rfl (le_of_eq hc₁)
    exact ⟨t, w₂, hnow, hexpiry e' he'⟩

end Run

/-! ### A sample -/

/-- Ann creates a key. -/
def sampleKeys : Nat → Route × Request
  | 2 => (.org .createApiKey, sampleRequestOf ⟨1⟩ ⟨3⟩ "\x7b\"name\":\"key\"\x7d")
  | n => sampleSent n

/-- A request with the key. -/
def sampleKeyRequest : Request :=
  { sampleRequestOf .nil .nil "" with apiKeyHeader := "chis_sk_0a" }

/-- The bytes that a client has drawn. -/
def sampleDraws (w : World) (i : Proc) : List (List UInt8) :=
  (w.past i).filterMap fun
    | ⟨.rand, .ok bytes⟩ => some bytes
    | _ => none

private theorem mem_sampleDraws {w : World} {i : Proc} {bytes : List UInt8}
    (h : Op.drew bytes ∈ w.past i) : bytes ∈ sampleDraws w i :=
  List.mem_filterMap.mpr ⟨_, h, rfl⟩

private theorem sampleKeys_route {n : Nat} (h : (sampleKeys n).1 = .org .createApiKey) : n = 2 := by
  unfold sampleKeys at h
  split at h
  · rfl
  · unfold sampleSent at h
    split at h <;> cases h

/-- Her key is let through from the step that creates it. -/
theorem authentication_exact_sample : ∃ c,
    (system sampleEnv sampleKeys anyStep).Reachable (World.start 0) c ∧
      (c.state.db.apiKeys.rows.map fun k ↦ (k.orgID, k.expiresAt)) = [(⟨3⟩, none)] ∧
      (Authenticates sampleEnv (atTime sampleEnv 0 (.client 9)) sampleKeyRequest c.state ⟨3⟩ ↔
        ∃ n k, Created sampleEnv sampleKeys c n "chis_sk_0a" k ∧
          (∀ e, k.expiresAt = some e → 0 ≤ e) ∧ k.orgID = ⟨3⟩) := by
  have hrun : (sentRun sampleKeys (sampleTurns 0 [0, 1, 2, 0, 3, 4, 0] ++
      sampleTurns 2 [0, 0, 0, 9])).map (fun c ↦
        (c.state.db.apiKeys.rows.map fun k ↦ (k.orgID, k.expiresAt), c.state.clock,
          sampleDraws c.state (.client 2))) = some ([(⟨3⟩, none)], 0, [[10]]) := by
    decide +kernel
  obtain ⟨c, h, hseen⟩ := sent_seen hrun
  obtain ⟨hkeys, hseen⟩ := Prod.mk.inj hseen
  obtain ⟨hclock, hdraws⟩ := Prod.mk.inj hseen
  refine ⟨c, h, hkeys, ?_⟩
  refine authentication_exact h (le_of_eq hclock) (.client 9) (r := sampleKeyRequest) (by decide) ?_ ⟨3⟩
  intro n bytes hroute hdrew _
  cases sampleKeys_route hroute
  have hbytes := mem_sampleDraws hdrew
  rw [hdraws, List.mem_singleton] at hbytes
  rw [hbytes]
  decide

end Chis.Access
