import Chis.Api.Rules
import Chis.Service.Worker
import Chis.System.Integrity

/-!
# The services together

Any number of API requests, any number of workers and the scheduler, interleaved operation by
operation, any of which may fail. The log of the world tells what each process has done.
-/

namespace Chis

open Program

/-- A fresh database and an empty queue. -/
def World.start (now : Time) : World := ⟨.empty, [], now, [], []⟩

/-- What process `i` has done, newest first. -/
def World.past (w : World) (i : Proc) : List (Event Op.Res) :=
  (w.log.filter fun e ↦ e.proc = i).map fun e ↦ ⟨e.op, e.res⟩

theorem World.past_start (now : Time) (i : Proc) : (World.start now).past i = [] := rfl

/-- The log records what each process does. -/
theorem World.records {env : Platform} {S : System Proc World Op Op.Res}
    (hexec : ∀ i o w r w', S.exec i o w r w' → World.Exec env (fun _ ↦ True) i o w r w') :
    S.Records World.past := by
  intro i o w r w' hx
  obtain ⟨t, ht⟩ := (hexec i o w r w' hx).log_eq
  constructor
  · simp [World.past, ht]
  · intro j hj
    simp [World.past, ht, Ne.symm hj]

namespace Api

/-! ### Workers and the scheduler -/

/-- What workers and the scheduler do. -/
def background : Op → Bool
  | .sql (.messageFindById _) | .sql (.messageUpdateStatus _ _) | .sql (.messageUpdate _)
  | .sql (.findRetryReady _) | .sql (.attemptCreate _) | .sql (.getSigningSecret _)
  | .push _ | .pop | .send _ _ | .answer _ | .now | .panic => true
  | _ => false

theorem iteration_uses (env : Platform) :
    (Worker.iteration env).Uses fun o ↦ background o = true := by
  have hsettle (msg : Message) (ok : Bool) :
      (Worker.settle msg ok).Uses fun o ↦ background o = true := by
    unfold Worker.settle
    split
    · exact ⟨rfl, fun _ ↦ trivial⟩
    · split
      · split
        · exact ⟨rfl, fun e ↦ nomatch (e : Empty)⟩
        · exact ⟨rfl, fun _ ↦ ⟨rfl, fun _ ↦ trivial⟩⟩
      · exact ⟨rfl, fun _ ↦ trivial⟩
  have hattempt (msg : Message) (req : HttpRequest) :
      (Worker.attempt msg req).Uses fun o ↦ background o = true :=
    ⟨rfl, fun _ ↦ ⟨rfl, fun _ ↦ ⟨rfl, fun _ ↦ ⟨rfl, fun _ ↦ ⟨rfl, fun _ ↦ hsettle _ _⟩⟩⟩⟩⟩
  refine ⟨rfl, fun (r : Except Err String) ↦ ?_⟩
  cases r with
  | error e => trivial
  | ok messageID =>
    change (Worker.handle env messageID).Uses _
    unfold Worker.handle
    split
    · trivial
    · refine ⟨rfl, fun (r : Except Err Message) ↦ ?_⟩
      cases r with
      | error e => trivial
      | ok msg =>
        change (Worker.deliver env msg).Uses _
        unfold Worker.deliver
        split
        · exact ⟨rfl, fun _ ↦ trivial⟩
        · refine Prog.Uses.bind ⟨rfl, fun (r : Except Err String) ↦ ?_⟩ fun _ ↦ hattempt _ _
          cases r with
          | error e => trivial
          | ok secret => exact ⟨rfl, fun _ ↦ trivial⟩

theorem processRetries_uses : Scheduler.processRetries.Uses fun o ↦ background o = true := by
  have hloop (msgs : List Message) :
      (Prog.forEach Scheduler.requeue msgs).Uses fun o ↦ background o = true := by
    induction msgs with
    | nil => trivial
    | cons msg rest ih =>
      exact Prog.Uses.bind ⟨rfl, fun _ ↦ ⟨rfl, fun _ ↦ trivial⟩⟩ fun _ ↦ ih
  refine ⟨rfl, fun (r : Except Err (List Message)) ↦ ?_⟩
  cases r with
  | error e => trivial
  | ok msgs => exact hloop msgs

/-! ### The system -/

/-- The runs in which `G` allows every operation in the state before it. -/
def system (env : Env) (sent : Nat → Route × Request) (G : World → Proc → Op → Prop) :
    System Proc World Op Op.Res where
  exec i o w r w' := G w i o ∧ World.Exec env.toPlatform (fun _ ↦ True) i o w r w'
  body
    | .worker _ => Worker.iteration env.toPlatform
    | .scheduler => Scheduler.processRetries
    | .client n => serve env (sent n).1 (sent n).2
  loops i := ∀ n, i ≠ .client n

/-- Any interleaving. -/
def anyStep (_ : World) (_ : Proc) (_ : Op) : Prop := True

theorem system_records (env : Env) (sent : Nat → Route × Request) (G : World → Proc → Op → Prop) :
    (system env sent G).Records World.past := World.records fun _ _ _ _ _ hx ↦ hx.2

/-- The constraints of the schema hold in every run. -/
theorem sound {env : Env} {sent : Nat → Route × Request} {G : World → Proc → Op → Prop} {now : Time}
    {c : Config Proc World Op Op.Res} (h : (system env sent G).Reachable (World.start now) c) :
    c.state.Sound := by
  have hexec : ∀ i o w r w', (system env sent G).exec i o w r w' →
      World.Exec env.toPlatform (fun _ ↦ True) i o w r w' := fun _ _ _ _ _ hx ↦ hx.2
  exact (sound_empty [] now [] []).reachable hexec h

/-- If a statement leaves only rows that were there before or that it has made, then every row goes
back to a statement of some process. -/
theorem World.goes_back {env : Env} {sent : Nat → Route × Request} {G : World → Proc → Op → Prop}
    {now : Time} {c : Config Proc World Op Op.Res} {α : Type} {I : Db → α → Prop}
    {E : α → Event Op.Res → Prop} (h0 : ∀ x, ¬ I .empty x)
    (hexec : ∀ (s : Stmt) ch db r db', s.exec env.toPlatform ch db = (r, db') → ∀ x, I db' x →
      (∃ x₀, I db x₀ ∧ ∀ e, E x₀ e → E x e) ∨ E x ⟨.sql s, r⟩)
    (h : (system env sent G).Reachable (World.start now) c) {x : α} (hx : I c.state.db x) :
    ∃ i, ∃ e ∈ c.state.past i, E x e := by
  apply (system_records env sent G).goes_back (I := fun w x ↦ I w.db x) h0 ?_ h hx
  intro i o w r w' hrun x hx
  by_cases hs : ∃ s, o = .sql s
  · obtain ⟨s, rfl⟩ := hs
    rcases World.Exec.sql hrun.2 with ⟨-, hd⟩ | ⟨ch, -, hstmt, -⟩
    · rw [hd] at hx
      exact .inl ⟨x, hx, fun _ h ↦ h⟩
    · exact hexec s ch _ r _ hstmt x hx
  · rw [World.Exec.db_eq hrun.2 fun s he ↦ hs ⟨s, he⟩] at hx
    exact .inl ⟨x, hx, fun _ h ↦ h⟩

/-! ### A sample -/

/-- A request with the token of user `user`, to organization `org`. -/
def sampleRequestOf (user org : Uuid) (body : String) : Request :=
  { path := "/"
    authorization := "Bearer " ++ user.toString
    orgHeader := org.toString
    apiKeyHeader := ""
    query := []
    body := body }

/-- Ann and Bob register, Ann invites Bob, Bob accepts and Ann cancels. -/
def sampleSent : Nat → Route × Request
  | 0 => (.register, sampleRequestOf .nil .nil
      "\x7b\"email\":\"ann@a.io\",\"password\":\"password\",\"firstName\":\"Ann\"\x7d")
  | 1 => (.register, sampleRequestOf .nil .nil
      "\x7b\"email\":\"bob@b.io\",\"password\":\"password\",\"firstName\":\"Bob\"\x7d")
  | 2 => (.org (.admin .createInvitation), sampleRequestOf ⟨1⟩ ⟨3⟩
      "\x7b\"email\":\"bob@b.io\",\"role\":\"member\"\x7d")
  | 3 => (.acceptInvitation, sampleRequestOf ⟨5⟩ .nil "\x7b\"token\":\"0a\"\x7d")
  | _ => (.org (.admin (.cancelInvitation (Uuid.toString ⟨9⟩))), sampleRequestOf ⟨1⟩ ⟨3⟩ "")

/-- Client `n` takes a step for each id of a list, which a new row gets. -/
def sampleTurns (n : Nat) (ids : List Nat) : List (Proc × Choice) :=
  ids.map fun id ↦ (.client n, ⟨false, 0, ⟨Fin.ofNat _ id⟩, fun _ ↦ 0, .failed "", [10]⟩)

/-- What a schedule makes of the sample, if `g` allows every step. -/
def sampleRun (g : World → Proc → Op → Bool) (schedule : List (Proc × Choice)) :
    Option (Config Proc World Op Op.Res) :=
  System.play (fun i ch o w ↦ if g w i o then World.step sampleEnv.toPlatform i ch o w else none)
    ((system sampleEnv sampleSent anyStep).init (World.start 0)) schedule

/-- Ann and Bob are registered, and Bob is invited. -/
def sampleInvited : List (Proc × Choice) :=
  sampleTurns 0 [0, 1, 2, 0, 3, 4, 0] ++ sampleTurns 1 [0, 5, 6, 0, 7, 8, 0] ++
    sampleTurns 2 [0, 0, 0, 0, 0, 0, 0, 0, 9, 0, 0, 0]

/-- A schedule that `g` allows is a run. -/
theorem sample_steps {g : World → Proc → Op → Bool} {G : World → Proc → Op → Prop}
    (hg : ∀ w i o, g w i o = true → G w i o)
    {schedule : List (Proc × Choice)} {c c' : Config Proc World Op Op.Res}
    (h : System.play (fun i ch o w ↦ if g w i o then World.step sampleEnv.toPlatform i ch o w
      else none) c schedule = some c') :
    Relation.ReflTransGen (system sampleEnv sampleSent G).Step c c' := by
  refine System.play_steps (fun i ch o w r w' hs ↦ ?_) h
  by_cases ho : g w i o = true
  · rw [if_pos ho] at hs
    exact ⟨hg w i o ho, ch, trivial, hs⟩
  · rw [if_neg ho] at hs
    cases hs

theorem sample_reachable {g : World → Proc → Op → Bool} {G : World → Proc → Op → Prop}
    (hg : ∀ w i o, g w i o = true → G w i o) {schedule : List (Proc × Choice)}
    {c : Config Proc World Op Op.Res} (h : sampleRun g schedule = some c) :
    (system sampleEnv sampleSent G).Reachable (World.start 0) c := sample_steps hg h

/-- What is seen of a configuration that a schedule makes of the sample is seen in a run. -/
theorem sample_seen {α : Type} {g : World → Proc → Op → Bool} {G : World → Proc → Op → Prop}
    (hg : ∀ w i o, g w i o = true → G w i o) {f : Config Proc World Op Op.Res → α} {a : α}
    {schedule : List (Proc × Choice)} (h : (sampleRun g schedule).map f = some a) :
    ∃ c, (system sampleEnv sampleSent G).Reachable (World.start 0) c ∧ f c = a := by
  obtain ⟨c, hc, rfl⟩ := Option.map_eq_some_iff.mp h
  exact ⟨c, sample_steps hg hc, rfl⟩

/-- Two points of a schedule. -/
def sampleRuns (g : World → Proc → Op → Bool) (schedule later : List (Proc × Choice)) :
    Option (Config Proc World Op Op.Res × Config Proc World Op Op.Res) :=
  (sampleRun g schedule).bind fun c ↦ (System.play (fun i ch o w ↦
    if g w i o then World.step sampleEnv.toPlatform i ch o w else none) c later).map fun c' ↦ (c, c')

/-- What is seen at two points of a schedule is seen at two points of a run. -/
theorem sample_seen_twice {α : Type} {g : World → Proc → Op → Bool} {G : World → Proc → Op → Prop}
    (hg : ∀ w i o, g w i o = true → G w i o) {f : Config Proc World Op Op.Res → α} {a b : α}
    {schedule later : List (Proc × Choice)}
    (h : (sampleRuns g schedule later).map (fun p ↦ (f p.1, f p.2)) = some (a, b)) :
    ∃ c c', (system sampleEnv sampleSent G).Reachable (World.start 0) c ∧
      Relation.ReflTransGen (system sampleEnv sampleSent G).Step c c' ∧ f c = a ∧ f c' = b := by
  obtain ⟨p, hp, h⟩ := Option.map_eq_some_iff.mp h
  obtain ⟨c, hc, hp⟩ := Option.bind_eq_some_iff.mp hp
  obtain ⟨c', hc', rfl⟩ := Option.map_eq_some_iff.mp hp
  exact ⟨c, c', sample_steps hg hc, sample_steps hg hc', congrArg Prod.fst h, congrArg Prod.snd h⟩

/-- What a schedule makes of the requests `sent`. -/
def sentRun (sent : Nat → Route × Request) (schedule : List (Proc × Choice)) :
    Option (Config Proc World Op Op.Res) :=
  System.play (World.step sampleEnv.toPlatform)
    ((system sampleEnv sent anyStep).init (World.start 0)) schedule

theorem sample_exec {sent : Nat → Route × Request} (i : Proc) (ch : Choice) (o : Op) (w : World)
    (r : o.Res) (w' : World) (h : World.step sampleEnv.toPlatform i ch o w = some (r, w')) :
    (system sampleEnv sent anyStep).exec i o w r w' := ⟨trivial, ch, trivial, h⟩

/-- What is seen after a schedule is seen in a run. -/
theorem sent_seen {α : Type} {sent : Nat → Route × Request} {f : Config Proc World Op Op.Res → α}
    {a : α} {schedule : List (Proc × Choice)} (h : (sentRun sent schedule).map f = some a) :
    ∃ c, (system sampleEnv sent anyStep).Reachable (World.start 0) c ∧ f c = a := by
  obtain ⟨c, hc, rfl⟩ := Option.map_eq_some_iff.mp h
  exact ⟨c, System.play_steps sample_exec hc, rfl⟩

/-- Two points of a schedule of the requests `sent`. -/
def sentRuns (sent : Nat → Route × Request) (schedule later : List (Proc × Choice)) :
    Option (Config Proc World Op Op.Res × Config Proc World Op Op.Res) :=
  (sentRun sent schedule).bind fun c ↦
    (System.play (World.step sampleEnv.toPlatform) c later).map fun c' ↦ (c, c')

/-- What is seen before and after one more turn is seen before and after a step of a run. -/
theorem sample_seen_step {α : Type} {sent : Nat → Route × Request} {f : World → α} {a b : α}
    {schedule : List (Proc × Choice)} {n id : Nat}
    (h : (sentRuns sent schedule (sampleTurns n [id])).map
      (fun p ↦ (f p.1.state, f p.2.state)) = some (a, b)) :
    ∃ c o k r w', (system sampleEnv sent anyStep).Reachable (World.start 0) c ∧
      c.procs (.client n) = .op o k ∧
      (system sampleEnv sent anyStep).exec (.client n) o c.state r w' ∧ f c.state = a ∧ f w' = b := by
  obtain ⟨p, hp, h⟩ := Option.map_eq_some_iff.mp h
  obtain ⟨c, hc, hp⟩ := Option.bind_eq_some_iff.mp hp
  obtain ⟨c', hc', rfl⟩ := Option.map_eq_some_iff.mp hp
  obtain ⟨c₁, hturn, hc₁⟩ := Option.bind_eq_some_iff.mp hc'
  cases hc₁
  obtain ⟨o, k, r, w', hproc, hs, rfl⟩ := System.turn_inv hturn
  exact ⟨c, o, k, r, w', System.play_steps sample_exec hc, hproc, sample_exec _ _ _ _ _ _ hs,
    congrArg Prod.fst h, congrArg Prod.snd h⟩

/-- What is seen of a program that runs alone after a schedule, without failures, is seen in a
run. -/
theorem sample_seen_alone {α β : Type} {g : World → Proc → Op → Bool}
    {G : World → Proc → Op → Prop} (hg : ∀ w i o, g w i o = true → G w i o)
    {schedule : List (Proc × Choice)} {i : Proc} {p : Service β} {choices : List Choice}
    {f : Config Proc World Op Op.Res → β × World → α} {a : α}
    (h : ((sampleRun g schedule).bind fun c ↦ (p.play (fun ch ↦
      World.step sampleEnv.toPlatform i { ch with fail := false }) choices c.state).map (f c)) =
      some a) :
    ∃ c x w', (system sampleEnv sampleSent G).Reachable (World.start 0) c ∧
      p.Runs (World.Exec sampleEnv.toPlatform World.faultless i) c.state x w' ∧ f c (x, w') = a := by
  obtain ⟨c, hc, h⟩ := Option.bind_eq_some_iff.mp h
  obtain ⟨⟨x, w'⟩, hplay, h⟩ := Option.map_eq_some_iff.mp h
  exact ⟨c, x, w', sample_reachable hg hc, World.runs_of_play hplay, h⟩

end Api

end Chis
