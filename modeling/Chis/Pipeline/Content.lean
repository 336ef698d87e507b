import Chis.Api.Footprint
import Chis.Base.JsonText
import Chis.Base.Precision
import Chis.Signature.Lookup

/-!
# What arrives is what was submitted

Every request that a worker sends goes back to the submission of a webhook. It carries its method, its
URL and its payload, in which every number has been read as a double and written again.
-/

namespace Chis.Content

open Program Api Relation

/-! ### Numbers -/

/-- The number that arrives for a numeral: that of the shortest numeral of the nearest double. -/
def arriving (d : Decimal) : ℚ :=
  ((Double.ofDecimal d).map fun x ↦ x.shortest.value).getD d.value

/-- Numbers of at most fifteen digits arrive as they are. -/
theorem arriving_of_safe {d : Decimal} (hd : Double.Safe d) : arriving d = d.value := by
  unfold arriving
  cases hx : Double.ofDecimal d with
  | none => rfl
  | some x => exact Double.value_shortest hd hx

/-- What is marshalled denotes what was decoded, but for its numbers. -/
theorem marshal_denotes {payload : Json Decimal} {v : Json Double} (h : decodeAny payload = some v) :
    ∃ j, Json.parse (marshal v) = some j ∧ j.map Decimal.value = payload.map arriving := by
  obtain ⟨j, hj, hval⟩ := Json.parse_print (v.map Double.shortest)
  refine ⟨j, hj, ?_⟩
  rw [hval, Json.map_map]
  apply Json.map_of_traverse _ h
  intro d x hx
  simp [arriving, hx]

/-- The method of a number is the text that had the number. -/
theorem httpMethodString_value {method : String} {number : Int}
    (h : httpMethodValue method = some number) : Delivery.httpMethodString number = method := by
  unfold httpMethodValue at h
  cases hi : Delivery.httpMethods.idxOf? method with
  | none => simp [hi] at h
  | some i =>
    simp only [hi, Option.bind_eq_bind, Option.bind_some, Option.pure_def, Option.map_some,
      Option.some.injEq] at h
    obtain ⟨hlt, he, -⟩ := List.idxOf?_eq_some_iff.mp hi
    rw [Delivery.httpMethodString, ← h, if_neg (by omega), Int.toNat_natCast,
      List.getD_eq_getElem?_getD, List.getElem?_eq_getElem hlt]
    exact he

theorem httpMethodValue_ne {method : String} {number : Int}
    (h : httpMethodValue method = some number) : method ≠ "" := by
  rintro rfl
  cases h

/-! ### Rows -/

/-- The content of a row is what a statement has created it of. -/
structure CreatedOf (env : Platform) (message row : Message) : Prop where
  org : row.orgID = message.orgID
  method : row.method = message.method
  url : row.url = message.url
  payload : env.jsonb message.payload = some row.payload

section Rows

variable {env : Platform} {ch : Choice} {db db' : Db} {s : Stmt} {r : Except Err s.Ok} {row : Message}

/-- A row of a message was there with the same content, or has just been created. -/
theorem message_from (hx : s.exec env ch db = (r, db')) (hrow : row ∈ db'.messages) :
    (∃ row₀ ∈ db.messages, row₀.orgID = row.orgID ∧ row₀.method = row.method ∧ row₀.url = row.url ∧
      row₀.payload = row.payload) ∨
    ∃ message a, (⟨.sql s, r⟩ : Event Op.Res) = (Stmt.messageCreate message).returned a ∧
      CreatedOf env message row := by
  by_cases hs : ∃ message, s = .messageCreate message
  · obtain ⟨message, rfl⟩ := hs
    rcases Stmt.write_inv hx with ⟨a, rfl, hc⟩ | ⟨e, -, -, rfl⟩
    · obtain ⟨-, -, payload, messages, hp, hins, rfl⟩ := MessageRepository.create_ok hc
      rcases (Relational.Table.mem_of_insert? hins row).mp hrow with hold | rfl
      · exact .inl ⟨row, hold, rfl, rfl, rfl, rfl⟩
      · exact .inr ⟨message, a, rfl, rfl, rfl, rfl, hp⟩
    · exact .inl ⟨row, hrow, rfl, rfl, rfl, rfl⟩
  · left
    have hc := Stmt.exec_change env ch db s
    rw [hx] at hc
    cases hc with
    | messageCreate => exact absurd ⟨_, rfl⟩ hs
    | organizationDelete id =>
      exact ⟨row, ((Relational.Table.mem_filter _ _ _).mp hrow).1, rfl, rfl, rfl, rfl⟩
    | messageUpdateStatus hu =>
      obtain ⟨row₀, h₀, he⟩ := (MessageRepository.mem_updateStatus hu row).mp hrow
      refine ⟨row₀, h₀, ?_⟩
      rw [he]
      split <;> exact ⟨rfl, rfl, rfl, rfl⟩
    | messageUpdate msg =>
      obtain ⟨row₀, h₀, he⟩ := (MessageRepository.mem_update ch.now msg db row).mp hrow
      refine ⟨row₀, h₀, ?_⟩
      rw [he]
      split <;> exact ⟨rfl, rfl, rfl, rfl⟩
    | _ => exact ⟨row, hrow, rfl, rfl, rfl, rfl⟩

end Rows

/-! ### Runs -/

/-- What each process promises: only a submission creates messages. -/
def promise (sent : Nat → Route × Request) : Proc → List (Event Op.Res) → Op → Prop
  | .client n => Submits (sent n).1 (sent n).2
  | _ => fun _ o ↦ background o = true

/-- Every stored message goes back to a statement that created it. -/
def Created (env : Platform) (w : World) : Prop :=
  ∀ row ∈ w.db.messages, ∃ i message a, (Stmt.messageCreate message).returned a ∈ w.past i ∧
    CreatedOf env message row

section Run

variable {env : Env} {sent : Nat → Route × Request} {G : World → Proc → Op → Prop} {now : Time}
  {c : Config Proc World Op Op.Res}

theorem promised (h : (system env sent G).Reachable (World.start now) c) (i : Proc) :
    Valid (promise sent i) (c.state.past i) := by
  apply (system_records env sent G).valid (fun _ ↦ rfl) ?_ h i
  rintro (n | _ | n) past hp
  · exact Prog.Traces.of_uses (fun _ _ h ↦ h) (fun _ _ ↦ trivial) (iteration_uses _) past
  · exact Prog.Traces.of_uses (fun _ _ h ↦ h) (fun _ _ ↦ trivial) processRetries_uses past
  · exact serve_submits

/-- A worker sends what it has read. -/
theorem posted (h : (system env sent G).Reachable (World.start now) c) (n : Nat) :
    Valid (Worker.Posts env.toPlatform) (c.state.past (.worker n)) := by
  apply (system_records env sent G).valid (P := Worker.Posting env.toPlatform) (fun _ ↦ rfl) ?_ h
    (.worker n)
  rintro (n | _ | n) past hp
  · exact Worker.iteration_posts _ past
  · exact Prog.Traces.of_uses (fun _ _ _ ↦ trivial) (fun _ _ ↦ trivial) (Prog.uses_anything _) past
  · exact Prog.Traces.of_uses (fun _ _ _ ↦ trivial) (fun _ _ ↦ trivial) (Prog.uses_anything _) past

theorem created (h : (system env sent G).Reachable (World.start now) c) :
    Created env.toPlatform c.state := by
  intro row hrow
  have hback : ∃ i, ∃ e ∈ c.state.past i, ∃ message a,
      e = (Stmt.messageCreate message).returned a ∧ CreatedOf env.toPlatform message row := by
    apply World.goes_back (I := fun db row ↦ row ∈ db.messages)
      (fun _ hrow ↦ (List.not_mem_nil hrow).elim) ?_ h hrow
    intro s ch db r db' hx row hrow
    rcases message_from hx hrow with ⟨row₀, h₀, ho, hm, hu, hp⟩ | hnew
    · refine .inl ⟨row₀, h₀, ?_⟩
      rintro e ⟨message, a, rfl, hof⟩
      exact ⟨message, a, rfl, ho.symm.trans hof.org, hm.symm.trans hof.method, hu.symm.trans hof.url,
        hp ▸ hof.payload⟩
    · exact .inr hnew
  obtain ⟨i, e, he, message, a, rfl, hof⟩ := hback
  exact ⟨i, message, a, he, hof⟩

/-- A worker sends the content of the message that it has read. -/
theorem posts_content {env : Platform} {past : List (Event Op.Res)} {id : Uuid} {req : HttpRequest}
    (h : Worker.Posts env past (.send id req)) : ∃ id' msg, (Stmt.messageFindById id').returned msg ∈ past ∧
      req.method = (if msg.method = "" then "GET" else msg.method) ∧ req.url = msg.url ∧
      req.body = msg.payload := by
  obtain ⟨id', msg, recent, older, -, rfl, hsends⟩ := h
  have hmem : (Stmt.messageFindById id').returned msg ∈
      recent ++ ⟨.sql (.messageFindById id'), .ok msg⟩ :: older :=
    List.mem_append_right _ List.mem_cons_self
  have hnew {req₀ : HttpRequest} (hr : Worker.newRequest env msg.method msg.url msg.payload = some req₀) :
      req₀.method = (if msg.method = "" then "GET" else msg.method) ∧ req₀.url = msg.url ∧
        req₀.body = msg.payload := by
    simp only [Worker.newRequest, Option.ite_none_right_eq_some, Option.some.injEq] at hr
    obtain ⟨-, rfl⟩ := hr
    exact ⟨rfl, rfl, rfl⟩
  cases hsends with
  | signed hr =>
    obtain ⟨hm, hu, hb⟩ := hnew hr
    exact ⟨id', msg, hmem, hm, hu, hb⟩
  | unsigned hr =>
    obtain ⟨hm, hu, hb⟩ := hnew hr
    exact ⟨id', msg, hmem, hm, hu, hb⟩

/-- The column gives back a text that denotes the same. -/
def Preserves (jsonb : String → Option String) : Prop :=
  ∀ s t j, jsonb s = some t → Json.parse s = some j →
    ∃ j', Json.parse t = some j' ∧ j'.map Decimal.value = j.map Decimal.value

/-- A message that was read goes back to a submission. -/
theorem read_submitted (h : (system env sent G).Reachable (World.start now) c) {n : Nat} {m : Uuid}
    {msg : Message} (hread : (Stmt.messageFindById m).returned msg ∈ c.state.past (.worker n)) :
    ∃ k payload v method url number orgID, (sent k).1 = .send ∧
      Submission (sent k).2.body payload v method url number ∧ CreatedOf env.toPlatform
        (Delivery.messageOf ⟨url, number, marshal v, Uuid.toString orgID⟩ orgID) msg := by
  obtain ⟨c₀, c₁, h₀, ⟨-, hx⟩, -, -⟩ := (system_records env sent G).happened (fun _ ↦ rfl) h hread
  have hrow : msg ∈ c₀.state.db.messages := by
    rcases World.Exec.sql hx with ⟨hr, -⟩ | ⟨ch, -, hexec, -⟩
    · cases hr
    · exact (MessageRepository.findById_ok (congrArg Prod.fst hexec)).1
  obtain ⟨i, message, a, hmem, hof⟩ := created h₀ msg hrow
  have hp := (promised h₀ i).justified hmem
  obtain ⟨newer, older, -, hp⟩ := hp
  cases i with
  | worker w => cases hp
  | scheduler => cases hp
  | client k =>
    obtain ⟨hroute, payload, v, method, url, number, orgID, hs, rfl⟩ := hp
    exact ⟨k, payload, v, method, url, number, orgID, hroute, hs, hof⟩

end Run

/-! ### A sample -/

/-- Ann creates a key, with which a webhook is submitted. -/
def sampleSends : Nat → Route × Request
  | 2 => (.org .createApiKey, sampleRequestOf ⟨1⟩ ⟨3⟩ "\x7b\"name\":\"key\"\x7d")
  | 3 => (.send, { sampleRequestOf .nil .nil
      "\x7b\"url\":\"https://a.io\",\"payload\":[1.0]\x7d" with apiKeyHeader := "chis_sk_0a" })
  | n => sampleSent n

/-- The webhook is sent by a worker. -/
def sampleDelivery : List (Proc × Choice) :=
  sampleTurns 0 [0, 1, 2, 0, 3, 4, 0] ++ sampleTurns 2 [0, 0, 0, 9] ++ sampleTurns 3 [0, 11, 0] ++
    List.replicate 6 (.worker 0, ⟨false, 0, .nil, fun _ ↦ 0, .failed "", []⟩)

/-- The requests that a process has sent. -/
def sampleRequests (w : World) (i : Proc) : List (Uuid × HttpRequest) :=
  (w.past i).filterMap fun
    | ⟨.send m req, _⟩ => some (m, req)
    | _ => none

private theorem mem_past_of_sampleRequests {w : World} {i : Proc} {m : Uuid} {req : HttpRequest}
    (h : (m, req) ∈ sampleRequests w i) : ∃ u : Unit, (⟨.send m req, u⟩ : Event Op.Res) ∈ w.past i := by
  obtain ⟨e, he, hreq⟩ := List.mem_filterMap.mp h
  split at hreq
  · next _ m' req' u =>
    cases hreq
    exact ⟨u, he⟩
  · cases hreq

private theorem sampleEnv_preserves : Preserves sampleEnv.jsonb := by
  intro s t j ht hj
  cases ht
  exact ⟨j, hj, rfl⟩

end Chis.Content
