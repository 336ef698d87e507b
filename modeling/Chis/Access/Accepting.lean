import Chis.Access.Atomicity

/-!
# The two ways to accept

`AcceptInvitation` takes the token of an invitation and `RespondToInvitation` its id. For the
addressee both come to the same checks in another order, and then to the same writes.
-/

namespace Chis

open Program Api

namespace MembershipRepository

/-- Which memberships can be inserted. -/
theorem create_succeeds_iff {id : Uuid} {now : Time} {membership : Membership} {db : Db} :
    (∃ x, create id now membership db = .ok x) ↔ (∀ m ∈ db.memberships, m.id ≠ id) ∧
      (∀ m ∈ db.memberships, (m.userID, m.orgID) ≠ (membership.userID, membership.orgID)) ∧
      (∃ u ∈ db.users, u.id = membership.userID) ∧
      ∃ o ∈ db.organizations, o.id = membership.orgID := by
  constructor
  · rintro ⟨⟨a, db'⟩, h⟩
    obtain ⟨ha, memberships, hins, -⟩ := create_ok h
    have hid := ((db.memberships.insert?_eq_some_iff _ _).mp hins).1
    simp only [create, except_bind_ok] at h
    obtain ⟨-, -, _, hu, _, husers, _, horgs, -⟩ := h
    obtain ⟨u, hu'⟩ := references_ok husers
    obtain ⟨o, ho⟩ := references_ok horgs
    rw [ha] at hid
    refine ⟨(db.memberships.find?_eq_none_iff _).mp hid, fun m hm he ↦ ?_,
      ⟨u, (db.users.find?_eq_some_iff _ _).mp hu'⟩,
      o, (db.organizations.find?_eq_some_iff _ _).mp ho⟩
    have hf := unique_ok hu m hm
    simp_all
  · rintro ⟨hid, hnew, ⟨u, hu, hue⟩, o, ho, hoe⟩
    obtain ⟨memberships, hm⟩ := insertRow_eq (t := db.memberships)
      (r := { membership with id := id, createdAt := now, updatedAt := now }) hid
    have hunique : unique db.memberships.rows (fun m ↦
        m.userID = membership.userID && m.orgID = membership.orgID) = .ok () :=
      unique_eq fun m hmem ↦ by simpa using hnew m hmem
    have hfst : references db.users membership.userID = .ok () := hue ▸ references_eq hu
    have hsnd : references db.organizations membership.orgID = .ok () := hoe ▸ references_eq ho
    exact ⟨_, except_bind_ok.mpr ⟨_, hm, except_bind_ok.mpr ⟨_, hunique,
      except_bind_ok.mpr ⟨_, hfst, except_bind_ok.mpr ⟨_, hsnd, rfl⟩⟩⟩⟩⟩

/-- The name and the slug of an organization among those of a user. -/
theorem joinedOrg_eq (tie : Uuid → Nat) {userID orgID : Uuid} {db : Db} {m : Membership}
    (hm : m ∈ db.memberships) (hu : m.userID = userID) (ho : m.orgID = orgID) :
    (joinedOrg orgID (.ok (findAllByUserID tie userID db))).map
        (fun m ↦ (m.orgName, m.orgSlug)) =
      (db.organizations.find? orgID).map fun o ↦ (o.name, o.slug) := by
  have hmem (x : MembershipWithOrg) : x ∈ findAllByUserID tie userID db ↔
      ∃ m ∈ db.memberships, m.userID = userID ∧ ∃ o, db.organizations.find? m.orgID = some o ∧
        x = ⟨m.orgID, o.name, o.slug, m.role⟩ := by
    simp only [findAllByUserID, List.mem_filterMap, mem_orderBy, List.mem_filter,
      decide_eq_true_eq, Option.map_eq_some_iff, and_assoc]
    simp only [eq_comm, Relational.Table.mem_def]
  rw [joinedOrg]
  cases hf : (findAllByUserID tie userID db).find? fun m ↦ m.orgID = orgID with
  | none =>
    -- the membership would be in the list if its organization existed
    cases horg : db.organizations.find? orgID with
    | none => rfl
    | some o =>
      have hx := (hmem ⟨m.orgID, o.name, o.slug, m.role⟩).mpr ⟨m, hm, hu, o, by rw [ho, horg], rfl⟩
      have hne := List.find?_eq_none.mp hf _ hx
      simp [ho] at hne
  | some x =>
    obtain ⟨m', -, -, o, horg, rfl⟩ := (hmem x).mp (List.mem_of_find?_eq_some hf)
    have he : m'.orgID = orgID := by simpa using List.find?_some hf
    rw [← he, horg]
    rfl

end MembershipRepository

namespace Access

/-- Every operation works and takes place at time `t`. -/
abbrev atTime (env : Env) (t : Time) (i : Proc) : (o : Op) → World → o.Res → World → Prop :=
  World.Exec env.toPlatform (fun ch ↦ ch.fail = false ∧ ch.now = t) i

/-- The memberships, with the ids of those blanked that `db` does not have. -/
def blankNew (db db' : Db) : List Membership :=
  db'.memberships.rows.map fun m ↦ if m ∈ db.memberships.rows then m else { m with id := .nil }

/-- Two outcomes from the same tables, equal but for the ids of new memberships. -/
structure Alike (db db₁ db₂ : Db) : Prop where
  memberships : blankNew db db₁ = blankNew db db₂
  others : { db₁ with memberships := .empty } = { db₂ with memberships := .empty }

theorem Alike.refl (db db' : Db) : Alike db db' db' := ⟨rfl, rfl⟩

/-- How joining ends. -/
inductive Joins (t : Time) (u : Uuid) (inv : Invitation) (db : Db) :
    Except Fault Response → Db → Prop
  | member {m : Membership} : MembershipRepository.findByUserAndOrgID u inv.orgID db = .ok m →
    Joins t u inv db (.error (.app (.conflict "you are already a member of this organization")))
      { db with
        invitations := db.invitations.modify inv.id
          (fun i ↦ { i with status := .accepted, updatedAt := t }) fun _ ↦ rfl }
  | refused {e : Err} : MembershipRepository.findByUserAndOrgID u inv.orgID db = .error e →
    (∀ id, (∀ m ∈ db.memberships, m.id ≠ id) →
      ¬ ∃ x, MembershipRepository.create id t (newMembership u inv.orgID inv.role) db = .ok x) →
    Joins t u inv db (.error (.app (.internal "failed to create membership"))) db
  | joined {e : Err} {id : Uuid} {m : Membership} {db₁ : Db} :
    MembershipRepository.findByUserAndOrgID u inv.orgID db = .error e →
    MembershipRepository.create id t (newMembership u inv.orgID inv.role) db = .ok (m, db₁) →
    Joins t u inv db
      (.ok (writeJSON 200 (.obj [("message", .str "invitation accepted"),
        ("orgId", .str inv.orgID.toString),
        ("orgName", .str (((db.organizations.find? inv.orgID).map Organization.name).getD "")),
        ("orgSlug", .str (((db.organizations.find? inv.orgID).map Organization.slug).getD "")),
        ("role", .str inv.role.label)])))
      (InvitationRepository.acceptInvitation t t inv.id db₁)

/-- The store after the membership is inserted, under one id or another. -/
private theorem alike_of_created {t : Time} {m a₁ a₂ : Membership} {inv : Invitation}
    {db db₁ db₂ : Db} {id₁ id₂ : Uuid}
    (h₁ : MembershipRepository.create id₁ t m db = .ok (a₁, db₁))
    (h₂ : MembershipRepository.create id₂ t m db = .ok (a₂, db₂)) :
    Alike db (InvitationRepository.acceptInvitation t t inv.id db₁)
      (InvitationRepository.acceptInvitation t t inv.id db₂) := by
  have hblank {a : Membership} {memberships : Relational.Table Membership.id}
      (hins : db.memberships.insert? a = some memberships) (db' : Db)
      (hd : db'.memberships = memberships) :
      blankNew db db' = db.memberships.rows ++ [{ a with id := .nil }] := by
    obtain ⟨hnew, hrows⟩ := (db.memberships.insert?_eq_some_iff _ _).mp hins
    have hout : a ∉ db.memberships.rows := fun hmem ↦
      (db.memberships.find?_eq_none_iff _).mp hnew a hmem rfl
    rw [blankNew, hd, hrows, List.map_append, List.map_singleton, if_neg hout]
    congr 1
    conv_rhs => rw [← List.map_id db.memberships.rows]
    exact List.map_congr_left fun x hx ↦ if_pos hx
  obtain ⟨rfl, memberships₁, hins₁, rfl⟩ := MembershipRepository.create_ok h₁
  obtain ⟨rfl, memberships₂, hins₂, rfl⟩ := MembershipRepository.create_ok h₂
  constructor
  · rw [hblank hins₁ _ rfl, hblank hins₂ _ rfl]
  · rfl

/-- Joining ends in one way, up to the id of the membership. -/
theorem Joins.unique {t : Time} {u : Uuid} {inv : Invitation} {db db₁ db₂ : Db}
    {x₁ x₂ : Except Fault Response} (h₁ : Joins t u inv db x₁ db₁) (h₂ : Joins t u inv db x₂ db₂) :
    x₁ = x₂ ∧ Alike db db₁ db₂ := by
  have hfresh {id : Uuid} {m : Membership} {db' : Db}
      (hc : MembershipRepository.create id t (newMembership u inv.orgID inv.role) db =
        .ok (m, db')) : ∀ m ∈ db.memberships, m.id ≠ id :=
    (MembershipRepository.create_succeeds_iff.mp ⟨_, hc⟩).1
  cases h₁ with
  | member hm₁ =>
    cases h₂ with
    | member => exact ⟨rfl, .refl _ _⟩
    | refused hm₂ => exact nomatch hm₁.symm.trans hm₂
    | joined hm₂ => exact nomatch hm₁.symm.trans hm₂
  | refused hm₁ hno =>
    cases h₂ with
    | member hm₂ => exact nomatch hm₁.symm.trans hm₂
    | refused => exact ⟨rfl, .refl _ _⟩
    | joined _ hc => exact absurd ⟨_, hc⟩ (hno _ (hfresh hc))
  | joined hm₁ hc₁ =>
    cases h₂ with
    | member hm₂ => exact nomatch hm₁.symm.trans hm₂
    | refused _ hno => exact absurd ⟨_, hc₁⟩ (hno _ (hfresh hc₁))
    | joined _ hc₂ => exact ⟨rfl, alike_of_created hc₁ hc₂⟩

/-! ### Runs -/

section Runs

variable {env : Env} {t : Time} {i : Proc} {w w' : World} {u : Uuid} {inv : Invitation}

/-- A statement at time `t`. -/
theorem atTime_sql {s : Stmt} {y : Except Err s.Ok} (hx : atTime env t i (.sql s) w y w') :
    ∃ ch, ch.now = t ∧ s.exec env.toPlatform ch w.db = (y, w'.db) ∧
      (s.inserts = true → ch.id ∉ w.issued) := by
  obtain ⟨ch, ⟨hf, ht⟩, hs⟩ := hx
  rcases World.step_sql hs with ⟨hfail, -⟩ | ⟨-, hexec, hid⟩
  · rw [hfail] at hf
    cases hf
  · exact ⟨ch, ht, hexec, fun hins ↦ (hid hins).1⟩

theorem available_of_atTime {o : Op} {y : o.Res} (hx : atTime env t i o w y w') :
    available env i o w y w' := by
  obtain ⟨ch, ⟨hf, -⟩, hs⟩ := hx
  exact ⟨ch, hf, hs⟩

/-- A look at the clock at time `t`. -/
theorem atTime_now {t' : Time} (hx : atTime env t i .now w t' w') : t' = t ∧ w'.db = w.db := by
  obtain ⟨ch, ⟨-, ht⟩, hs⟩ := hx
  obtain ⟨hnow, hd, -⟩ := @World.Exec.now_eq _ (fun _ ↦ True) _ _ _ _ ⟨ch, trivial, hs⟩
  exact ⟨hnow.trans ((World.step_log hs).2.1.trans ht), hd⟩

theorem join_ends (hids : ∀ m ∈ w.db.memberships, m.id ∈ w.issued) :
    (join u inv).run.wp (atTime env t i) (fun x w' ↦ Joins t u inv w.db x w'.db) w := by
  unfold join
  rw [wp_attempt_bind]
  constructor
  · intro (m : Membership) w₁ h₁
    obtain ⟨ch₁, -, hexec₁, -⟩ := atTime_sql h₁
    obtain ⟨hfind, hd₁⟩ := Prod.mk.inj hexec₁
    have hupdate {y : Except Err Unit} {w₂ : World}
        (h₂ : atTime env t i (.sql (.invitationUpdateStatus inv.id "accepted")) w₁ y w₂) :
        Joins t u inv w.db
          (.error (.app (.conflict "you are already a member of this organization"))) w₂.db := by
      obtain ⟨ch₂, ht, hexec₂, -⟩ := atTime_sql h₂
      rw [← (Prod.mk.inj hexec₂).2, ← hd₁, ht]
      exact .member hfind
    rw [wp_attempt_bind]
    exact ⟨fun _ _ h₂ ↦ hupdate h₂, fun _ _ h₂ ↦ hupdate h₂⟩
  · intro e w₁ h₁
    obtain ⟨ch₁, -, hexec₁, -⟩ := atTime_sql h₁
    obtain ⟨hfind, hd₁⟩ := Prod.mk.inj hexec₁
    rw [wp_query_bind]
    constructor
    · intro (m : Membership) w₂ h₂
      obtain ⟨ch₂, rfl, hexec₂, -⟩ := atTime_sql h₂
      rcases Stmt.write_inv hexec₂ with ⟨a, ha, hc⟩ | ⟨e, he, -⟩
      · cases ha
        obtain ⟨hm, memberships, hins, hd₂⟩ := MembershipRepository.create_ok hc
        rw [← hd₁] at hc
        have horgs : w₂.db.organizations = w.db.organizations := by rw [hd₂, ← hd₁]
        have huser : m.userID = u := by
          rw [hm]
          rfl
        have horg : m.orgID = inv.orgID := by
          rw [hm]
          rfl
        have hmem : m ∈ w₂.db.memberships := by
          rw [hd₂]
          exact (Relational.Table.mem_of_insert? hins m).mpr (.inr rfl)
        rw [wp_clock_bind]
        intro t' w₃ h₃
        obtain ⟨rfl, hd₃⟩ := atTime_now h₃
        rw [wp_query_bind]
        constructor
        · intro _ w₄ h₄
          obtain ⟨ch₄, ht₄, hexec₄, -⟩ := atTime_sql h₄
          have hd₄ := (Prod.mk.inj hexec₄).2
          rw [ht₄, hd₃] at hd₄
          rw [wp_attempt_bind]
          constructor
          · intro found w₅ h₅
            obtain ⟨ch₅, -, hexec₅, -⟩ := atTime_sql h₅
            obtain ⟨hfound, hd₅⟩ := Prod.mk.inj hexec₅
            have hmem₄ : m ∈ w₄.db.memberships := by
              rw [← hd₄]
              exact hmem
            have hpair := MembershipRepository.joinedOrg_eq ch₅.tie hmem₄ huser horg
            have horgs₄ : w₄.db.organizations = w.db.organizations := by
              rw [← hd₄, ← horgs]
              rfl
            rw [Except.ok.inj hfound, horgs₄] at hpair
            have hname := congrArg (Option.map Prod.fst) hpair
            have hslug := congrArg (Option.map Prod.snd) hpair
            simp only [Option.map_map, Function.comp_def] at hname hslug
            rw [wp_handler_pure]
            show Joins _ _ _ _ (.ok (writeJSON 200 (.obj [("message", .str "invitation accepted"),
              ("orgId", .str inv.orgID.toString),
              ("orgName", .str (((joinedOrg inv.orgID (.ok found)).map fun m ↦ m.orgName).getD "")),
              ("orgSlug", .str (((joinedOrg inv.orgID (.ok found)).map fun m ↦ m.orgSlug).getD "")),
              ("role", .str inv.role.label)]))) w₅.db
            rw [hname, hslug, ← hd₅, ← hd₄]
            exact .joined hfind hc
          · intro e w₅ h₅
            obtain ⟨ch₅, -, hexec₅, -⟩ := atTime_sql h₅
            cases (Prod.mk.inj hexec₅).1
        · intro e w₄ h₄
          obtain ⟨ch₄, -, hexec₄, -⟩ := atTime_sql h₄
          cases (Prod.mk.inj hexec₄).1
      · cases he
    · intro e' w₂ h₂
      obtain ⟨ch₂, ht₂, hexec₂, hnew⟩ := atTime_sql h₂
      rcases Stmt.write_inv hexec₂ with ⟨a, ha, -⟩ | ⟨_, -, hc, hd₂⟩
      · cases ha
      · rw [hd₂, ← hd₁]
        refine .refused hfind fun id hfresh hex ↦ ?_
        have hids₁ : ∀ m ∈ w₁.db.memberships, m.id ≠ ch₂.id := by
          intro m hm he
          rw [← hd₁] at hm
          exact hnew rfl (he ▸ World.Exec.issued_subset h₁ (hids m hm))
        obtain ⟨-, hrest⟩ := MembershipRepository.create_succeeds_iff.mp hex
        rw [hd₁] at hrest
        obtain ⟨x, hx⟩ := MembershipRepository.create_succeeds_iff.mpr ⟨hids₁, hrest⟩
        rw [hc] at hx
        cases hx

/-- How an acceptance ends, by token or by id. -/
inductive Accepts (t : Time) (user : User) (inv : Invitation) (db : Db) :
    Except Fault Response → Db → Prop
  | stranger {x : Except Fault Response} {db' : Db} : user.email ≠ inv.email →
    db'.memberships = db.memberships → Accepts t user inv db x db'
  | settled : user.email = inv.email → inv.status ≠ .pending →
    Accepts t user inv db (.error (.app (.badRequest "invitation is no longer valid"))) db
  | late : user.email = inv.email → inv.status = .pending → inv.expiresAt < t →
    Accepts t user inv db (.error (.app (.badRequest "invitation has expired")))
      { db with
        invitations := db.invitations.modify inv.id
          (fun i ↦ { i with status := .expired, updatedAt := t }) fun _ ↦ rfl }
  | joins {x : Except Fault Response} {db' : Db} : user.email = inv.email → inv.status = .pending →
    t ≤ inv.expiresAt → Joins t user.id inv db x db' → Accepts t user inv db x db'

/-- The expiry check at time `t`. -/
theorem checkExpiry_atTime {α : Type} {k : Unit → Handler α} {Q : Except Fault α → World → Prop}
    (hlate : inv.expiresAt < t → ∀ w', w'.db = { w.db with
        invitations := w.db.invitations.modify inv.id
          (fun i ↦ { i with status := .expired, updatedAt := t }) fun _ ↦ rfl } →
      Q (.error (.app (.badRequest "invitation has expired"))) w')
    (hk : t ≤ inv.expiresAt → ∀ w', w'.db = w.db → w.issued ⊆ w'.issued →
      (k ()).run.wp (atTime env t i) Q w') :
    (checkExpiry inv >>= k).run.wp (atTime env t i) Q w := by
  rw [wp_handler_bind]
  unfold checkExpiry
  rw [wp_clock_bind]
  intro t' w₁ h₁
  have hsub := World.Exec.issued_subset h₁
  obtain ⟨rfl, hd₁⟩ := atTime_now h₁
  by_cases ht : inv.expiresAt < t'
  · rw [if_pos ht]
    have hupdate {y : Except Err Unit} {w₂ : World}
        (h₂ : atTime env t' i (.sql (.invitationUpdateStatus inv.id "expired")) w₁ y w₂) :
        Q (.error (.app (.badRequest "invitation has expired"))) w₂ := by
      obtain ⟨ch₂, ht₂, hexec₂, -⟩ := atTime_sql h₂
      refine hlate ht w₂ ?_
      rw [← (Prod.mk.inj hexec₂).2, hd₁, ht₂]
    rw [wp_attempt_bind]
    refine ⟨fun _ w₂ h₂ ↦ ⟨fun b hb ↦ (nomatch hb), fun e he ↦ ?_⟩,
      fun _ w₂ h₂ ↦ ⟨fun b hb ↦ (nomatch hb), fun e he ↦ ?_⟩⟩
    · exact Except.error.inj he ▸ hupdate h₂
    · exact Except.error.inj he ▸ hupdate h₂
  · rw [if_neg ht, wp_handler_pure]
    exact ⟨fun _ _ ↦ hk (Int.not_lt.mp ht) w₁ hd₁ hsub, fun e he ↦ (nomatch he)⟩

section Endpoints

variable {user : User} {r : Request}

theorem acceptInvitation_ends (hw : w.Sound) (huser : user ∈ w.db.users)
    (hinv : inv ∈ w.db.invitations)
    (hreq : decodeAndValidate AcceptInvitationRequest.fields
      (fun req ↦ fieldErrors env "token" [.required] req.token) r.body = .ok ⟨inv.token⟩) :
    (acceptInvitation env user.id r).run.wp (atTime env t i)
      (fun x w' ↦ Accepts t user inv w.db x w'.db) w := by
  unfold acceptInvitation
  rw [wp_check_bind, hreq]
  refine ⟨fun req h ↦ ?_, fun e he ↦ (nomatch he)⟩
  cases h
  have hfound {y : Except Err Invitation} {w₁ : World}
      (h₁ : atTime env t i (.sql (.invitationFindByToken inv.token)) w y w₁) :
      y = .ok inv ∧ w₁.db = w.db := by
    obtain ⟨ch, -, hexec, -⟩ := atTime_sql h₁
    obtain ⟨hy, hd⟩ := Prod.mk.inj hexec
    refine ⟨?_, hd.symm⟩
    rw [← hy]
    exact InvitationRepository.findByToken_eq (hw.unique.texts inv hinv).1 hinv hw.unique.tokens
  rw [wp_query_bind]
  refine ⟨fun inv' w₁ h₁ ↦ ?_, fun e w₁ h₁ ↦ (nomatch (hfound h₁).1)⟩
  obtain ⟨hi, hd₁⟩ := hfound h₁
  cases hi
  have hsub₁ := World.Exec.issued_subset h₁
  by_cases hpending : inv.status = .pending
  · rw [if_neg (not_not.mpr hpending)]
    refine checkExpiry_atTime (fun hlate w₂ hd₂ ↦ ?_) fun htime w₂ hd₂ hsub₂ ↦ ?_
    · rw [hd₂, hd₁]
      by_cases hemail : user.email = inv.email
      · exact .late hemail hpending hlate
      · exact .stranger hemail rfl
    · rw [hd₁] at hd₂
      have huser₂ : user ∈ w₂.db.users := by rwa [hd₂]
      rw [wp_query_bind]
      refine ⟨fun user' w₃ h₃ ↦ ?_,
        fun e w₃ h₃ ↦ (nomatch (user_found huser₂ (available_of_atTime h₃)).1)⟩
      obtain ⟨hu, hd₃⟩ := user_found huser₂ (available_of_atTime h₃)
      cases hu
      have hsub₃ := World.Exec.issued_subset h₃
      rw [hd₂] at hd₃
      by_cases hemail : user.email = inv.email
      · rw [if_neg (not_not.mpr hemail)]
        have hids : ∀ m ∈ w₃.db.memberships, m.id ∈ w₃.issued := by
          rw [hd₃]
          exact fun m hm ↦ hsub₃ (hsub₂ (hsub₁ (hw.generated.memberships m hm)))
        refine Prog.wp.mono (fun x w' hj ↦ ?_) (join_ends hids)
        rw [hd₃] at hj
        exact .joins hemail hpending htime hj
      · rw [if_pos hemail]
        exact .stranger hemail (congrArg Db.memberships hd₃)
  · rw [if_pos hpending]
    show Accepts t user inv w.db _ w₁.db
    rw [hd₁]
    by_cases hemail : user.email = inv.email
    · exact .settled hemail hpending
    · exact .stranger hemail rfl

theorem respondToInvitation_ends {idParam : String} (hw : w.Sound) (huser : user ∈ w.db.users)
    (hinv : inv ∈ w.db.invitations) (hid : Uuid.parse idParam = some inv.id)
    (hreq : decodeAndValidate RespondToInvitationRequest.fields
      (fun req ↦ fieldErrors env "action" [.required, .oneof ["accept", "decline"]] req.action)
      r.body = .ok ⟨"accept"⟩) :
    (respondToInvitation env user.id idParam r).run.wp (atTime env t i)
      (fun x w' ↦ Accepts t user inv w.db x w'.db) w := by
  unfold respondToInvitation
  rw [hid]
  simp only []
  rw [wp_check_bind, hreq]
  refine ⟨fun req h ↦ ?_, fun e he ↦ (nomatch he)⟩
  cases h
  rw [wp_query_bind]
  refine ⟨fun user' w₁ h₁ ↦ ?_,
    fun e w₁ h₁ ↦ (nomatch (user_found huser (available_of_atTime h₁)).1)⟩
  obtain ⟨hu, hd₁⟩ := user_found huser (available_of_atTime h₁)
  cases hu
  have hsub₁ := World.Exec.issued_subset h₁
  have hinv₁ : inv ∈ w₁.db.invitations := by rwa [hd₁]
  rw [wp_query_bind]
  refine ⟨fun inv' w₂ h₂ ↦ ?_,
    fun e w₂ h₂ ↦ (nomatch (invitation_found hinv₁ (available_of_atTime h₂)).1)⟩
  obtain ⟨hi, hd₂⟩ := invitation_found hinv₁ (available_of_atTime h₂)
  cases hi
  have hsub₂ := World.Exec.issued_subset h₂
  rw [hd₁] at hd₂
  by_cases hemail : user.email = inv.email
  · by_cases hpending : inv.status = .pending
    · rw [if_neg (not_not.mpr hemail), if_neg (not_not.mpr hpending)]
      refine checkExpiry_atTime (fun hlate w₃ hd₃ ↦ ?_) fun htime w₃ hd₃ hsub₃ ↦ ?_
      · rw [hd₃, hd₂]
        exact .late hemail hpending hlate
      · rw [if_neg (by decide)]
        rw [hd₂] at hd₃
        have hids : ∀ m ∈ w₃.db.memberships, m.id ∈ w₃.issued := by
          rw [hd₃]
          exact fun m hm ↦ hsub₃ (hsub₂ (hsub₁ (hw.generated.memberships m hm)))
        refine Prog.wp.mono (fun x w' hj ↦ ?_) (join_ends hids)
        rw [hd₃] at hj
        exact .joins hemail hpending htime hj
    · rw [if_neg (not_not.mpr hemail), if_pos hpending]
      show Accepts t user inv w.db _ w₂.db
      rw [hd₂]
      exact .settled hemail hpending
  · rw [if_pos hemail]
    exact .stranger hemail (congrArg Db.memberships hd₂)

/-- An acceptance ends in one way for the addressee, up to the id of the membership, and gives
nobody else a membership. -/
theorem Accepts.unique {db db₁ db₂ : Db} {x₁ x₂ : Except Fault Response}
    (h₁ : Accepts t user inv db x₁ db₁) (h₂ : Accepts t user inv db x₂ db₂) :
    if user.email = inv.email then x₁ = x₂ ∧ Alike db db₁ db₂
    else db₁.memberships = db.memberships ∧ db₂.memberships = db.memberships := by
  by_cases hemail : user.email = inv.email
  · rw [if_pos hemail]
    cases h₁ with
    | stranger hne => exact absurd hemail hne
    | settled _ hs₁ =>
      cases h₂ with
      | stranger hne => exact absurd hemail hne
      | settled => exact ⟨rfl, .refl _ _⟩
      | late _ hs₂ => exact absurd hs₂ hs₁
      | joins _ hs₂ => exact absurd hs₂ hs₁
    | late _ hs₁ ht₁ =>
      cases h₂ with
      | stranger hne => exact absurd hemail hne
      | settled _ hs₂ => exact absurd hs₁ hs₂
      | late => exact ⟨rfl, .refl _ _⟩
      | joins _ _ ht₂ => exact absurd ht₁ (Int.not_lt.mpr ht₂)
    | joins _ hs₁ ht₁ hj₁ =>
      cases h₂ with
      | stranger hne => exact absurd hemail hne
      | settled _ hs₂ => exact absurd hs₁ hs₂
      | late _ _ ht₂ => exact absurd ht₂ (Int.not_lt.mpr ht₁)
      | joins _ _ _ hj₂ => exact hj₁.unique hj₂
  · rw [if_neg hemail]
    have hsame {x : Except Fault Response} {db' : Db} (h : Accepts t user inv db x db') :
        db'.memberships = db.memberships := by
      cases h with
      | stranger _ hm => exact hm
      | settled he => exact absurd he hemail
      | late he => exact absurd he hemail
      | joins he => exact absurd he hemail
    exact ⟨hsame h₁, hsame h₂⟩

end Endpoints

end Runs

/-! ### A sample -/

/-- Bob accepts by the id of his invitation. -/
def sampleRespond : Request := sampleRequestOf ⟨5⟩ .nil "\x7b\"action\":\"accept\"\x7d"

/-- A run alone at time 0, given by the ids of the new rows. -/
def playAtZero {α : Type} (p : Service α) (ids : List Nat) (w : World) : Option (α × World) :=
  p.play (fun ch ↦ World.step sampleEnv.toPlatform (.client 4) { ch with fail := false, now := 0 })
    ((sampleTurns 4 ids).map Prod.snd) w

private theorem runs_atZero {α : Type} {p : Service α} {ids : List Nat} {w w' : World} {x : α}
    (h : playAtZero p ids w = some (x, w')) : p.Runs (atTime sampleEnv 0 (.client 4)) w x w' :=
  Prog.Runs.of_play (fun ch _ _ _ _ hs ↦ ⟨{ ch with fail := false, now := 0 }, ⟨rfl, rfl⟩, hs⟩) h

end Access

end Chis
