import Chis.Pipeline.Content
import Chis.System.History

/-!
# The queue

`LPUSH` adds at one end of the list and `BRPOP` takes from the other. Whoever pushes and pops, the ids
come out in the order in which they went in, none is lost or made up, and each is the id of a message
that a submission has stored.
-/

namespace Chis

open Program Relation

/-! ### First in, first out -/

/-- The id that an operation has added. -/
def Entry.pushed : Entry → Option String
  | ⟨_, .push messageID, .ok _, _⟩ => some messageID
  | _ => none

/-- The id that an operation has taken out. -/
def Entry.popped : Entry → Option String
  | ⟨_, .pop, .ok messageID, _⟩ => some messageID
  | _ => none

namespace World

/-- What has been pushed so far, oldest first. -/
def pushed (w : World) : List String := w.log.reverse.filterMap Entry.pushed

/-- What has been popped so far, oldest first. -/
def popped (w : World) : List String := w.log.reverse.filterMap Entry.popped

/-- What has come out is what went in, but for what is still in the queue. -/
def InOrder (w : World) : Prop := w.pushed = w.popped ++ w.queue.reverse

section Operation

variable {env : Platform} {allow : Choice → Prop} {i : Proc} {o : Op} {w w' : World} {r : o.Res}

private theorem inOrder_logged {t : Time} (h : w.InOrder) (ht : w'.log = ⟨i, o, r, t⟩ :: w.log)
    (hq : (Entry.pushed ⟨i, o, r, t⟩).toList ++ w.queue =
      w'.queue ++ (Entry.popped ⟨i, o, r, t⟩).toList) : w'.InOrder := by
  have hrev := congrArg List.reverse hq
  simp only [List.reverse_append] at hrev
  unfold InOrder at h ⊢
  have hsingle (f : Entry → Option String) (e : Entry) : [e].filterMap f = (f e).toList := by
    cases he : f e <;> simp [he]
  have hpushed : w'.pushed = w.pushed ++ (Entry.pushed ⟨i, o, r, t⟩).toList := by
    rw [pushed, ht, List.reverse_cons, List.filterMap_append, hsingle, pushed]
  have hpopped : w'.popped = w.popped ++ (Entry.popped ⟨i, o, r, t⟩).toList := by
    rw [popped, ht, List.reverse_cons, List.filterMap_append, hsingle, popped]
  rw [hpushed, hpopped, h, List.append_assoc, List.append_assoc]
  have hone (x : Option String) : x.toList.reverse = x.toList := by cases x <;> rfl
  rw [hone, hone] at hrev
  rw [hrev]

theorem Exec.inOrder (hx : Exec env allow i o w r w') (h : w.InOrder) : w'.InOrder := by
  obtain ⟨ch, -, hs⟩ := hx
  apply inOrder_logged h (step_log hs).1
  rcases step_inv hs with ⟨-, hr, -, hq, -⟩ | ⟨-, w₁, hp, -, hq, -⟩
  · rw [hq]
    cases o <;> cases hr <;> simp [Entry.pushed, Entry.popped]
  · rw [hq]
    cases o with
    | sql s =>
      simp only [perform] at hp
      split at hp
      · cases hp
      · cases hp
        simp [Entry.pushed, Entry.popped]
    | pop =>
      simp only [perform] at hp
      split at hp
      · next hnone =>
        cases hp
        simp [Entry.pushed, Entry.popped]
      · next messageID hlast =>
        cases hp
        simp [Entry.pushed, Entry.popped, List.dropLast_append_getLast? _ hlast]
    | panic => cases hp
    | _ =>
      cases hp
      simp [Entry.pushed, Entry.popped]

end Operation

end World

/-! ### What is pushed -/

/-- Whoever pushes an id has stored the message, or has found it in a list of the messages that are
due. -/
def Pushes (past : List (Event Op.Res)) : Op → Prop
  | .push messageID =>
    (∃ message a, (Stmt.messageCreate message).returned a ∈ past ∧ messageID = a.id.toString) ∨
      ∃ limit msgs, (Stmt.findRetryReady limit).returned msgs ∈ past ∧
        ∃ msg ∈ msgs, messageID = msg.id.toString
  | _ => True

section Programs

variable {past : List (Event Op.Res)}

/-- A worker pushes nothing. -/
theorem Worker.iteration_pushes (env : Platform) :
    (Worker.iteration env).Traces Pushes (fun _ _ ↦ True) past := by
  have hsettle (msg : Message) (ok : Bool) {past : List (Event Op.Res)} :
      (Worker.settle msg ok).Traces Pushes (fun _ _ ↦ True) past := by
    unfold Worker.settle
    split
    · simp [Pushes]
    · split
      · split
        · exact ⟨trivial, fun e ↦ (e : Empty).elim⟩
        · exact ⟨trivial, fun _ ↦ by simp [Pushes]⟩
      · exact ⟨trivial, fun _ ↦ trivial⟩
  have hattempt (msg : Message) (req : HttpRequest) {past : List (Event Op.Res)} :
      (Worker.attempt msg req).Traces Pushes (fun _ _ ↦ True) past :=
    ⟨trivial, fun _ ↦ ⟨trivial, fun _ ↦ ⟨trivial, fun _ ↦ ⟨trivial, fun _ ↦ ⟨trivial, fun _ ↦
      hsettle _ _⟩⟩⟩⟩⟩
  refine ⟨trivial, fun (r : Except Err String) ↦ ?_⟩
  cases r with
  | error e => trivial
  | ok messageID =>
    change (Worker.handle env messageID).Traces Pushes _ _
    unfold Worker.handle
    split
    · trivial
    · refine ⟨trivial, fun (r : Except Err Message) ↦ ?_⟩
      cases r with
      | error e => trivial
      | ok msg =>
        change (Worker.deliver env msg).Traces Pushes _ _
        unfold Worker.deliver
        split
        · exact ⟨trivial, fun _ ↦ trivial⟩
        · refine ⟨trivial, fun (r : Except Err String) ↦ ?_⟩
          cases r with
          | error e => exact hattempt _ _
          | ok secret => exact ⟨trivial, fun _ ↦ hattempt _ _⟩

/-- The scheduler pushes what it has listed. -/
theorem Scheduler.processRetries_pushes :
    Scheduler.processRetries.Traces Pushes (fun _ _ ↦ True) past := by
  have hloop (msgs : List Message) (past : List (Event Op.Res))
      (h : ∀ msg ∈ msgs, ∃ limit all, (Stmt.findRetryReady limit).returned all ∈ past ∧ msg ∈ all) :
      (Prog.forEach Scheduler.requeue msgs).Traces Pushes (fun _ _ ↦ True) past := by
    induction msgs generalizing past with
    | nil => trivial
    | cons msg rest ih =>
      rw [Prog.forEach, Prog.traces_bind]
      obtain ⟨limit, all, hall, hmsg⟩ := h msg List.mem_cons_self
      refine ⟨.inr ⟨limit, all, hall, msg, hmsg, rfl⟩, fun _ ↦ ⟨trivial, fun _ ↦ ?_⟩⟩
      apply ih
      intro m hm
      obtain ⟨limit, all, hall, hm⟩ := h m (List.mem_cons_of_mem _ hm)
      exact ⟨limit, all, List.mem_cons_of_mem _ (List.mem_cons_of_mem _ hall), hm⟩
  refine ⟨trivial, fun (r : Except Err (List Message)) ↦ ?_⟩
  cases r with
  | error e => trivial
  | ok msgs => exact hloop msgs _ fun msg hmsg ↦ ⟨10, msgs, List.mem_cons_self, hmsg⟩

attribute [local irreducible] Uuid.parse Uuid.toString in
private theorem send_pushes {env : Api.Env} {orgID : Uuid} {r : Api.Request} :
    Api.Tells Pushes (fun _ _ ↦ True) (Api.send env orgID r) past := by
  unfold Api.send
  rw [Api.tells_check_bind]
  intro req _
  simp only []
  split
  · simp
  · apply Api.tells_lift_bind
    unfold Delivery.queueMessage
    rw [Uuid.parse_toString]
    simp [Uuid.parse_toString, Pushes]
    exact fun a ↦ .inl ⟨_, a, .inl ⟨rfl, rfl⟩, rfl⟩

/-- A submission pushes what it has stored. -/
theorem Api.serve_pushes {env : Api.Env} {route : Api.Route} {r : Api.Request} :
    (Api.serve env route r).Traces Pushes (fun _ _ ↦ True) past := by
  by_cases hroute : route = .send
  · subst hroute
    unfold Api.serve
    rw [Prog.monad_bind, Prog.traces_bind]
    apply Prog.Traces.mono (fun _ _ h ↦ h) (fun _ _ _ ↦ ⟨trivial, fun _ ↦ trivial⟩)
    rw [Api.handle]
    exact Api.traces_validateApiKey (fun _ ↦ trivial) (fun _ ↦ trivial) (fun _ _ _ ↦ trivial)
      fun _ _ ↦ Api.traces_wrap (fun _ ↦ trivial) (fun _ _ _ ↦ trivial) send_pushes
  · apply Prog.Traces.of_uses (fun past o h ↦ ?_) (fun _ _ ↦ trivial) (Api.serve_uses env r hroute)
    cases o with
    | push messageID => cases h
    | _ => trivial

end Programs

/-! ### Runs -/

/-- The text is the id of a message that is stored, or whose organization a request has deleted. -/
def World.Knows (w : World) (messageID : String) : Prop :=
  ∃ id orgID, Uuid.parse messageID = some id ∧
    ((∃ m ∈ w.db.messages, m.id = id ∧ m.orgID = orgID) ∨ w.Removed orgID)

namespace Api

variable {env : Env} {sent : Nat → Route × Request} {G : World → Proc → Op → Prop} {now : Time}
  {c c₁ : Config Proc World Op Op.Res}

private theorem known_of_stored (h₁ : (system env sent G).Reachable (World.start now) c₁)
    (h : ReflTransGen (system env sent G).Step c₁ c) {m : Message} (hm : m ∈ c₁.state.db.messages) :
    c.state.Knows m.id.toString := by
  refine ⟨m.id, m.orgID, Uuid.parse_toString _, ?_⟩
  rcases (history_kept h₁ h).messages m hm with ⟨m', hm', he⟩ | hg
  · exact .inl ⟨m', hm', Message.content_id he⟩
  · exact .inr hg

private theorem stored_of_created {env : Platform} {ch : Choice} {db db' : Db} {message a : Message}
    (h : (Stmt.messageCreate message).exec env ch db = (.ok a, db')) :
    ∃ m ∈ db'.messages, m.id = a.id := by
  rcases Stmt.write_inv h with ⟨a', ha', hc⟩ | ⟨e, he, -⟩
  · cases ha'
    obtain ⟨hid, -, payload, messages, -, hins, rfl⟩ := MessageRepository.create_ok hc
    exact ⟨_, (Relational.Table.mem_of_insert? hins _).mpr (.inr rfl), hid.symm⟩
  · cases he

private theorem stored_of_listed {env : Platform} {ch : Choice} {db db' : Db} {limit : Nat}
    {msgs : List Message} (h : (Stmt.findRetryReady limit).exec env ch db = (.ok msgs, db'))
    {msg : Message} (hmsg : msg ∈ msgs) : msg ∈ db'.messages := by
  obtain ⟨hmsgs, rfl⟩ := Prod.mk.inj h
  rw [← Except.ok.inj hmsgs] at hmsg
  exact ((MessageRepository.findRetryReady_spec _ _ _ _).2 msg hmsg).1

private theorem pushes (h : (system env sent G).Reachable (World.start now) c) (i : Proc) :
    Valid Pushes (c.state.past i) := by
  apply (system_records env sent G).valid (P := fun _ ↦ Pushes) (fun _ ↦ rfl) ?_ h i
  rintro (n | _ | n) past hp
  · exact Worker.iteration_pushes _
  · exact Scheduler.processRetries_pushes
  · exact serve_pushes

private theorem known_of_pushed (h : (system env sent G).Reachable (World.start now) c)
    {messageID : String} (hpush : messageID ∈ c.state.pushed) : c.state.Knows messageID := by
  obtain ⟨⟨i, o, r, t⟩, hlog, hentry⟩ := List.mem_filterMap.mp hpush
  rw [List.mem_reverse] at hlog
  have he : (⟨o, r⟩ : Event Op.Res) ∈ c.state.past i :=
    List.mem_map.mpr ⟨_, List.mem_filter.mpr ⟨hlog, by simp⟩, rfl⟩
  obtain ⟨newer, older, hpast, hP⟩ := (pushes h i).justified he
  have hold {e : Event Op.Res} (he : e ∈ older) : e ∈ c.state.past i := by
    rw [hpast]
    exact List.mem_append_right _ (List.mem_cons_of_mem _ he)
  have ho : o = .push messageID := by
    cases o with
    | push s =>
      cases r with
      | ok u =>
        cases hentry
        rfl
      | error e => cases hentry
    | _ => cases hentry
  subst ho
  rcases hP with ⟨message, a, ha, rfl⟩ | ⟨limit, msgs, hlist, msg, hmsg, rfl⟩
  · obtain ⟨c₀, c₁, h₀, hx, hstep, h₁⟩ := (system_records env sent G).happened (fun _ ↦ rfl) h (hold ha)
    rcases World.Exec.sql hx.2 with ⟨hr, -⟩ | ⟨ch, -, hexec, -⟩
    · cases hr
    · obtain ⟨m, hm, hid⟩ := stored_of_created hexec
      rw [← hid]
      exact known_of_stored (h₀.tail hstep) h₁ hm
  · obtain ⟨c₀, c₁, h₀, hx, hstep, h₁⟩ :=
      (system_records env sent G).happened (fun _ ↦ rfl) h (hold hlist)
    rcases World.Exec.sql hx.2 with ⟨hr, -⟩ | ⟨ch, -, hexec, -⟩
    · cases hr
    · exact known_of_stored (h₀.tail hstep) h₁ (stored_of_listed hexec hmsg)

/-- Ann's webhook has been queued. -/
def sampleQueued : List (Proc × Choice) :=
  sampleTurns 0 [0, 1, 2, 0, 3, 4, 0] ++ sampleTurns 2 [0, 0, 0, 9] ++ sampleTurns 3 [0, 11, 0]

end Api

end Chis
