import Chis.Base.Events
import Chis.Web.Served

/-!
# When the list of organizations converges

Once no request is outstanding, the list of a session is what the server has, if the events came in an
order that the pages count on. The accept page fires its request in the same mount as the load: if the
load is handled first and arrives last, the new organization is lost from the list.
-/

namespace Chis.Web

open Events

namespace Client

/-! ### The browser -/

section Browser

variable {s s' : Client} {r : Request}

/-- A request is sent. -/
private theorem Sound.sends (h : s.Sound) (hnone : r.reply = none) (hm : s'.members = s.members)
    (hi : s'.issued = s.issued) (hr : s'.requests = r :: s.requests) : s'.Sound := by
  have hquiet := Request.quiet_of_none hnone
  refine h.requests hm hi (fun p hp ↦ ?_) ?_
  · rw [hr] at hp
    cases List.mem_cons.mp hp with
    | inl he => exact .inl (he ▸ hquiet)
    | inr hp => exact .inr ⟨p, hp, .refl p⟩
  · rw [hr, List.filterMap_cons_none hquiet.joined]
    exact h.joined

/-- The accept page is left. -/
private theorem Sound.leaves (h : s.Sound) (hm : s'.members = s.members)
    (hi : s'.issued = s.issued) (hr : s'.requests = s.requests.map Request.leave) : s'.Sound := by
  refine h.requests hm hi (fun p hp ↦ ?_) ?_
  · rw [hr] at hp
    obtain ⟨q, hq, rfl⟩ := List.mem_map.mp hp
    exact .inr ⟨q, hq, Request.same_leave q⟩
  · have heq : Request.joined ∘ Request.leave = Request.joined :=
      funext fun q ↦ (Request.same_leave q).joined
    rw [hr, List.filterMap_map, heq]
    exact h.joined

private theorem Dated.leaves (h : s.Dated) (hs : s'.session = s.session)
    (hu : s'.user = none ∨ s'.user = s.user) (hr : s'.requests = s.requests.map Request.leave) :
    s'.Dated where
  session p hp := by
    rw [hr] at hp
    obtain ⟨q, hq, rfl⟩ := List.mem_map.mp hp
    rw [(Request.same_leave q).session, hs]
    exact h.session q hq
  user p hp he u hu' := by
    rw [hr] at hp
    obtain ⟨q, hq, rfl⟩ := List.mem_map.mp hp
    rw [(Request.same_leave q).session, hs] at he
    rw [(Request.same_leave q).user]
    cases hu with
    | inl hn => exact nomatch hn.symm.trans hu'
    | inr hsame => exact h.user q hq he u (hsame ▸ hu')

private theorem Inv.login {u : UserId} (hi : s.Inv) : Inv { s with
    session := s.session + 1
    user := some u
    requests := ⟨s.session + 1, u, .load, false, none⟩ :: s.requests } where
  toSound := Sound.sends hi.toSound rfl rfl rfl rfl
  toDated := by
    refine ⟨fun p hp ↦ ?_, fun p hp he v hv ↦ ?_⟩
    · cases List.mem_cons.mp hp with
      | inl he => exact Nat.le_of_eq (congrArg Request.session he)
      | inr hp => exact Nat.le_succ_of_le (hi.toDated.session p hp)
    · cases List.mem_cons.mp hp with
      | inl hnew =>
        cases hv
        rw [hnew]
      | inr hp =>
        have hle := hi.toDated.session p hp
        rw [he] at hle
        exact absurd hle (Nat.not_succ_le_self _)
  list _ _ := .inl ⟨_, List.mem_cons_self, rfl, rfl⟩

private theorem Inv.logout (hi : s.Inv) : Inv { s with
    user := none
    view := { s.view.reset with selectedOrg := none }
    requests := s.requests.map Request.leave } where
  toSound := hi.toSound.leaves rfl rfl rfl
  toDated := hi.toDated.leaves rfl (.inl rfl) rfl
  list _ hu := nomatch hu

/-- Leaving the page takes no organization from the list, unless its response is on its way. -/
private theorem Inv.leavePage (hi : s.Inv) (hok : s.Orderly .leavePage) :
    Inv { s with requests := s.requests.map Request.leave } where
  toSound := hi.toSound.leaves rfl rfl rfl
  toDated := hi.toDated.leaves rfl (.inr rfl) rfl
  list u hu := by
    have hmap {P : Request → Prop} :
        (∃ p ∈ s.requests.map Request.leave, P p) ↔ ∃ p ∈ s.requests, P p.leave := by
      simp only [List.mem_map, exists_exists_and_eq_and]
    have hload (h : s.Loading) : Loading { s with requests := s.requests.map Request.leave } := by
      obtain ⟨p, hp, hl⟩ := h
      exact hmap.mpr ⟨p, hp, ((Request.same_leave p).loads _).mpr hl⟩
    cases hok u hu with
    | inl h => exact .inl (hload h)
    | inr hkeep =>
      refine (hi.list u hu).imp hload fun hset ↦ hset.congr (fun _ ↦ .rfl) (fun x ↦ ?_)
        (fun x ↦ ?_) rfl rfl
      · apply hmap.trans
        constructor
        · rintro ⟨p, hp, hj⟩
          refine ⟨p, hp, ?_, (Request.same_leave p).joined ▸ hj.2⟩
          exact Request.lost_of_leave hj.1
        · rintro ⟨p, hp, hj⟩
          exact ⟨p, hp, hkeep p hp x hj⟩
      · exact hmap.trans (exists_congr fun p ↦ and_congr .rfl ((Request.same_leave p).removes x))

private theorem Inv.ask {u : UserId} {p : Purpose} (hi : s.Inv) (hu : s.user = some u) :
    Inv { s with requests := ⟨s.session, u, p, false, none⟩ :: s.requests } where
  toSound := Sound.sends hi.toSound rfl rfl rfl rfl
  toDated := by
    refine ⟨fun q hq ↦ ?_, fun q hq he v hv ↦ ?_⟩
    · cases List.mem_cons.mp hq with
      | inl he => exact Nat.le_of_eq (congrArg Request.session he)
      | inr hq => exact hi.toDated.session q hq
    · cases List.mem_cons.mp hq with
      | inl hnew =>
        rw [hnew]
        exact Option.some_inj.mp (hu.symm.trans hv)
      | inr hq => exact hi.toDated.user q hq he v hv
  list v hv := by
    have hquiet : Request.Quiet ⟨s.session, u, p, false, none⟩ := Request.quiet_of_none rfl
    have hcons {P : Request → Prop} (hno : ¬ P ⟨s.session, u, p, false, none⟩) :
        (∃ q ∈ (⟨s.session, u, p, false, none⟩ : Request) :: s.requests, P q) ↔
          ∃ q ∈ s.requests, P q := by
      rw [List.exists_mem_cons_iff]
      exact or_iff_right hno
    refine (hi.list v hv).imp ?_ fun hset ↦ hset.congr (fun _ ↦ .rfl) (fun x ↦ ?_)
      (fun x ↦ ?_) rfl rfl
    · rintro ⟨q, hq, hl⟩
      exact ⟨q, List.mem_cons_of_mem _ hq, hl⟩
    · exact hcons (Request.not_joins_of_none hquiet.joined v x)
    · exact hcons (hquiet.removes x)

private theorem Inv.switchOrg {org : Organization Nat} (hi : s.Inv)
    (ho : org ∈ s.view.organizations) : Inv { s with view := s.view.switchOrg org } where
  toSound := hi.toSound.requests rfl rfl (fun p hp ↦ .inr ⟨p, hp, .refl p⟩) hi.joined
  toDated := ⟨hi.toDated.session, hi.toDated.user⟩
  list u hu := (hi.list u hu).imp id fun hset ↦ Settled.switchOrg hset ho

/-! ### Arrivals -/

private abbrev received (s : Client) (r : Request) : Client :=
  { s with view := react s.view r, requests := s.requests.erase r }

/-- A response arrives that changes nothing, and was to change nothing. -/
private theorem list_kept {u : UserId} (h : s.Loading ∨ s.SettledFor u)
    (hload : ¬ r.Loads s.session ∨ s.SettledFor u)
    (hj : ∀ x, ¬ r.Joins u x) (hl : ∀ x, ¬ r.Removes x) (hv : react s.view r = s.view) :
    (s.received r).Loading ∨ (s.received r).SettledFor u := by
  have hset (hset : s.SettledFor u) :
      (s.received r).SettledFor u :=
    hset.congr (fun _ ↦ .rfl) (fun x ↦ exists_erase (hj x)) (fun x ↦ exists_erase (hl x)) rfl hv
  cases hload with
  | inl hno => exact h.imp (fun h ↦ (exists_erase hno).mpr h) hset
  | inr h => exact .inr (hset h)

/-- The load of this session arrives. -/
private theorem list_loaded {u : UserId} {orgs : List (Organization Unit)} (hi : s.Inv)
    (hr : r ∈ s.requests) (hp : r.purpose = .load) (hy : r.reply = some (.organizations orgs))
    (hs : r.session = s.session)
    (hf : Fits (s.Has u) (s.Joining u) s.Leaving (orgs.map Organization.id))
    (hnone : orgs = [] → s.view.currentOrg = none) :
    (s.received r).SettledFor u := by
  have hids : (orgs.map (fetched r.session)).map Organization.id = orgs.map Organization.id := by
    rw [List.map_map]
    rfl
  have hjoined : r.joined = none := by
    unfold Request.joined
    rw [hp]
  have hremoves (x : OrgId) : ¬ r.Removes x := fun h ↦ nomatch hp.symm.trans h.1
  have hview : react s.view r = s.view.loaded (orgs.map (fetched r.session)) := by
    unfold react
    rw [hp, hy]
  have hset : Settled (s.Has u) (s.Joining u) s.Leaving s.session (react s.view r) := by
    rw [hview]
    refine Settled.loaded ?_ ?_ (fun o ho ↦ ?_) fun he ↦ hnone (List.map_eq_nil_iff.mp he)
    · rw [hids]
      exact hi.listed r hr orgs hy
    · rw [hids]
      exact hf
    · obtain ⟨o', -, rfl⟩ := List.mem_map.mp ho
      exact hs
  have h : SettledFor { s with view := react s.view r } u := hset
  exact h.congr (fun _ ↦ .rfl) (fun x ↦ exists_erase (Request.not_joins_of_none hjoined u x))
    (fun x ↦ exists_erase (hremoves x)) rfl rfl

/-- The deletion of an organization arrives. -/
private theorem list_removed {u : UserId} {x : OrgId} (hi : s.Inv) (hu : s.user = some u)
    (hr : r ∈ s.requests) (hp : r.purpose = .delete x) (hy : r.reply = some .deleted) :
    (s.received r).Loading ∨ (s.received r).SettledFor u := by
  have hjoined : r.joined = none := by
    unfold Request.joined
    rw [hp]
  have hview : react s.view r = s.view.removeOrg x := by
    unfold react
    rw [hp, hy]
  cases hi.list u hu with
  | inl h => exact .inl ((exists_erase fun hl ↦ nomatch hl.1.symm.trans hp).mpr h)
  | inr h =>
    refine .inr ?_
    have hno : ¬ s.Has u x := fun hh ↦ (hi.removed x ⟨r, hr, hp, hy⟩).1 hh.alive
    have hset : Settled (s.Has u) (s.Joining u)
        (s.received r).Leaving s.session (react s.view r) := by
      rw [hview]
      refine Settled.removeOrg h hno ?_
      rintro y hne ⟨q, hq, hl⟩
      have hqr : q ≠ r := by
        rintro rfl
        exact hne (Purpose.delete.inj (hl.1.symm.trans hp))
      exact ⟨q, (List.mem_erase_of_ne hqr).mpr hq, hl⟩
    refine hset.refit ?_
    have heq : (s.received r).Joining u = s.Joining u :=
      funext fun y ↦ propext (exists_erase (Request.not_joins_of_none hjoined u y))
    rw [heq]
    exact hset.fits

private theorem react_joined {org : Organization Unit} {k : UserId × OrgId}
    (hy : r.reply = some (.joined org)) (hj : r.joined = some k) (v : View Nat) :
    react v r = if r.lost then v else v.addOrg (fetched r.session org) := by
  unfold Request.joined at hj
  unfold react Request.lost
  rw [hy] at hj ⊢
  cases hp : r.purpose with
  | load | delete _ =>
    rw [hp] at hj
    cases hj
  | acceptPage _ | respond _ | create => rfl

/-- A membership arrives. -/
private theorem list_joined {u : UserId} {org : Organization Unit} (hi : s.Inv)
    (hu : s.user = some u) (hr : r ∈ s.requests) (hp : r.purpose ≠ .load)
    (hj : r.joined = some (r.user, org.id)) (hl : ∀ x, ¬ r.Removes x)
    (hv : react s.view r = if r.lost then s.view else s.view.addOrg (fetched r.session org))
    (hok : r.lost = true ∨ s.Loading ∨
      r.session = s.session ∧ (s.Alive org.id ∨ s.Leaving org.id)) :
    (s.received r).Loading ∨ (s.received r).SettledFor u := by
  have hload : ¬ r.Loads s.session := fun h ↦ hp h.1
  by_cases hlost : r.lost = true
  · rw [if_pos hlost] at hv
    refine list_kept (hi.list u hu) (.inl hload) (fun x h ↦ ?_) hl hv
    rw [h.1] at hlost
    cases hlost
  by_cases hloading : s.Loading
  · exact .inl ((exists_erase hload).mpr hloading)
  obtain ⟨hs, halive⟩ := (hok.resolve_left hlost).resolve_left hloading
  have hset := (hi.list u hu).resolve_left hloading
  rw [if_neg hlost] at hv
  have huser : r.user = u := hi.toDated.user r hr hs u hu
  rw [huser] at hj
  have hjoins : r.Joins u org.id := ⟨Bool.eq_false_iff.mpr hlost, hj⟩
  have hhas : s.Has u org.id ∨ s.Leaving org.id := by
    cases halive with
    | inl ha => exact .inl ((hi.member r hr u org.id hj).1.resolve_right fun hn ↦ hn ha)
    | inr h => exact .inr h
  refine .inr ?_
  have hnew : Settled (s.Has u)
      ((s.received r).Joining u) s.Leaving s.session (react s.view r) := by
    rw [hv]
    refine Settled.addOrg hset (fun y ↦ ⟨?_, ?_⟩) ⟨r, hr, hjoins⟩ hhas hs
    · rintro ⟨q, hq, hqj⟩
      refine ⟨⟨q, List.mem_of_mem_erase hq, hqj⟩, fun he ↦ ?_⟩
      exact joined_once hr hj hi.joined q hq (he ▸ hqj.2)
    · rintro ⟨⟨q, hq, hqj⟩, hne⟩
      have hqr : q ≠ r := by
        rintro rfl
        exact hne (congrArg Prod.snd (Option.some_inj.mp (hqj.2.symm.trans hj)))
      exact ⟨q, (List.mem_erase_of_ne hqr).mpr hq, hqj⟩
  refine hnew.refit ?_
  have heq : (s.received r).Leaving = s.Leaving :=
    funext fun y ↦ propext (exists_erase (hl y))
  rw [heq]
  exact hnew.fits

/-- A response arrives. -/
private theorem Inv.receive (hi : s.Inv) (hok : s.Orderly (.receive r)) (hr : r ∈ s.requests)
    (hsome : r.reply ≠ none) : (s.received r).Inv where
  toSound := hi.toSound.requests rfl rfl
    (fun p hp ↦ .inr ⟨p, List.mem_of_mem_erase hp, .refl p⟩) (joined_erase hi.joined)
  toDated := ⟨fun p hp ↦ hi.toDated.session p (List.mem_of_mem_erase hp),
    fun p hp ↦ hi.toDated.user p (List.mem_of_mem_erase hp)⟩
  list u hu := by
    have hok := hok u hu
    have hlist := hi.list u hu
    cases hp : r.purpose with
    | load =>
      have hjoined (x : OrgId) : ¬ r.Joins u x := by
        refine Request.not_joins_of_none ?_ u x
        unfold Request.joined
        rw [hp]
      have hremoves (x : OrgId) : ¬ r.Removes x := fun h ↦ nomatch hp.symm.trans h.1
      cases hy : r.reply with
      | none => exact absurd hy hsome
      | some reply =>
        rw [hp, hy] at hok
        by_cases hs : r.session = s.session
        · cases reply with
          | organizations orgs =>
            dsimp only at hok
            rw [if_pos hs] at hok
            exact .inr (list_loaded hi hr hp hy hs hok.1 hok.2)
          | joined _ | deleted | failed =>
            exact list_kept hlist (.inr (hok hs)) hjoined hremoves (by unfold react; rw [hp, hy])
        · have hno : ¬ r.Loads s.session := fun h ↦ hs h.2
          cases reply with
          | organizations orgs =>
            dsimp only at hok
            rw [if_neg hs] at hok
            exact .inl ((exists_erase hno).mpr hok)
          | joined _ | deleted | failed =>
            exact list_kept hlist (.inl hno) hjoined hremoves (by unfold react; rw [hp, hy])
    | delete x =>
      have hno : ¬ r.Loads s.session := fun h ↦ nomatch h.1.symm.trans hp
      have hjoined (x : OrgId) : ¬ r.Joins u x := by
        refine Request.not_joins_of_none ?_ u x
        unfold Request.joined
        rw [hp]
      cases hy : r.reply with
      | none => exact absurd hy hsome
      | some reply =>
        cases reply with
        | deleted => exact list_removed hi hu hr hp hy
        | organizations _ | joined _ | failed =>
          refine list_kept hlist (.inl hno) hjoined (fun y h ↦ ?_) (by unfold react; rw [hp, hy])
          exact nomatch hy.symm.trans h.2
    | acceptPage _ | respond _ | create =>
      have hno : ¬ r.Loads s.session := fun h ↦ nomatch h.1.symm.trans hp
      have hremoves (x : OrgId) : ¬ r.Removes x := fun h ↦ nomatch hp.symm.trans h.1
      cases hy : r.reply with
      | none => exact absurd hy hsome
      | some reply =>
        cases reply with
        | joined org =>
          rw [hp, hy] at hok
          have hj : r.joined = some (r.user, org.id) := by
            unfold Request.joined
            rw [hp, hy]
          exact list_joined hi hu hr (fun h ↦ nomatch h.symm.trans hp) hj hremoves
            (react_joined hy hj s.view) hok
        | organizations _ | deleted | failed =>
          refine list_kept hlist (.inl hno) (Request.not_joins_of_none ?_ u) hremoves ?_
          · unfold Request.joined
            rw [hp, hy]
          · unfold react
            rw [hp, hy]

end Browser

/-! ### Runs -/

theorem Inv.step {s s' : Client} {e : SessionEvent} (hi : s.Inv) (hok : s.Orderly e)
    (h : s.step e = some s') : s'.Inv := by
  cases e with
  | login u =>
    dsimp only [Client.step] at h
    split at h
    · cases h
      exact hi.login
    · cases h
  | logout =>
    dsimp only [Client.step] at h
    split at h
    · cases h
    · cases h
      exact hi.logout
  | leavePage =>
    cases h
    exact hi.leavePage hok
  | ask p =>
    dsimp only [Client.step] at h
    split at h
    · cases h
    · next u hu =>
      split at h
      · cases h
      · cases h
        exact hi.ask hu
  | switchOrg org =>
    dsimp only [Client.step] at h
    split at h
    · next ho =>
      cases h
      exact hi.switchOrg ho
    · cases h
  | handle r o =>
    dsimp only [Client.step] at h
    split at h
    · next hc => exact hi.handle hc.1 hc.2 hok h
    · cases h
  | receive r =>
    dsimp only [Client.step] at h
    split at h
    · next hc =>
      cases h
      exact hi.receive hok hc.1 hc.2
    · cases h

theorem start_inv {members : List Member} (h : (members.map fun m ↦ (m.user, m.org.id)).Nodup)
    (selectedOrg : Option OrgId) : (start members selectedOrg).Inv where
  nodup := h
  issued _ hm := List.mem_map_of_mem hm
  joined := List.nodup_nil
  member _ hr := nomatch hr
  removed _ hx := by
    obtain ⟨_, hr, -⟩ := hx
    cases hr
  listed _ hr := nomatch hr
  session _ hr := nomatch hr
  user _ hr := nomatch hr
  list _ hu := nomatch hu

/-- The list is what the server has for the user, and one of its organizations is on screen. -/
structure Converged (s : Client) (u : UserId) : Prop where
  nodup : (s.view.organizations.map Organization.id).Nodup
  exact : ∀ x, x ∈ s.view.organizations.map Organization.id ↔ s.Has u x
  onScreen : ∀ o, s.view.currentOrg = some o → o ∈ s.view.organizations
  empty : s.view.currentOrg = none → s.view.organizations = []
  source : ∀ o ∈ s.view.organizations, o.source = s.session

/-- In every run whose events are orderly, the list of a user who is signed in has converged once no
request is outstanding. -/
theorem organizations_converge {members : List Member} {selectedOrg : Option OrgId} {s : Client}
    {u : UserId} (hrows : (members.map fun m ↦ (m.user, m.org.id)).Nodup)
    (h : Run step Orderly (start members selectedOrg) s) (hu : s.user = some u)
    (hquiet : s.requests = []) : s.Converged u := by
  have hi : s.Inv := h.invariant (start_inv hrows selectedOrg) fun _ _ _ ↦ Inv.step
  have hnothing {P : Request → Prop} : ¬ ∃ r ∈ s.requests, P r := by
    rw [hquiet]
    rintro ⟨_, hr, -⟩
    cases hr
  have hset := (hi.list u hu).resolve_left hnothing
  exact ⟨hset.nodup, hset.fits.exact (fun _ ↦ hnothing) fun _ ↦ hnothing, hset.onScreen,
    hset.empty, hset.source⟩

/-! ### An invitation accepted while the list is loaded -/

private def acme : Organization Unit := ⟨"acme", "Acme", "acme", "member", (), by decide⟩

private def request (p : Purpose) (reply : Option Reply) : Request := ⟨1, "ann", p, false, reply⟩

private def owner : List Member := [⟨"bob", acme⟩]

/-- The load is handled before the acceptance, and arrives after it. -/
private def staleLoad : List SessionEvent :=
  [.login "ann", .ask (.acceptPage "acme"), .handle (request .load none) .serves,
    .handle (request (.acceptPage "acme") none) (.joins acme),
    .receive (request (.acceptPage "acme") (some (.joined acme))),
    .receive (request .load (some (.organizations [])))]

/-- The new member is left with an empty list. -/
theorem membership_dropped : ∃ s : Client,
    Run step (fun _ _ ↦ True) (start owner none) s ∧ s.user = some "ann" ∧ s.requests = [] ∧
      s.Has "ann" "acme" ∧ s.view.organizations = [] ∧ ¬ s.Converged "ann" := by
  have h : play step (start owner none) staleLoad = some _ := rfl
  refine ⟨_, Run.of_play h (meets_true _), rfl, rfl, ?_, rfl, fun hc ↦ ?_⟩
  · decide
  · have hmem := (hc.exact "acme").mpr (by decide)
    cases hmem

/-- The load of a member of one organization. -/
theorem loaded_converges : ∃ s : Client, s.view.organizations = [fetched 1 acme] ∧
    s.Converged "bob" := by
  have h₁ : Run step Orderly (start owner none) _ := .event (.login "bob") .start trivial rfl
  have h₂ : Run step Orderly (start owner none) _ :=
    .event (.handle ⟨1, "bob", .load, false, none⟩ .serves) h₁ trivial rfl
  have h₃ : Run step Orderly (start owner none) _ :=
    .event (.receive ⟨1, "bob", .load, false, some (.organizations [acme])⟩) h₂ ?_ rfl
  · exact ⟨_, rfl, organizations_converge (by decide) h₃ rfl rfl⟩
  · intro u hu
    cases hu
    show Fits _ _ _ ["acme"] ∧ _
    refine ⟨⟨fun x hx ↦ .inl ?_, ?_, ?_⟩, fun h ↦ (nomatch h)⟩
    · rw [List.mem_singleton.mp hx]
      decide
    · rintro x ⟨m, hm, -, rfl⟩
      rw [List.mem_singleton.mp hm]
      exact .inl List.mem_cons_self
    · rintro x ⟨r, hr, hj⟩
      rw [List.mem_singleton.mp hr] at hj
      cases hj.2

end Client

end Chis.Web
