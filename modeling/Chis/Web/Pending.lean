import Chis.Web.Session
import Chis.Web.Settled
import Mathlib.Data.List.Perm.Basic

/-!
# Responses to come

The load of the provider replaces the whole list whenever its response arrives, and is never
cancelled; the other responses add to the list or remove from it. The list is right in the end if the
load, when it arrives, is right apart from the responses still to come.
-/

namespace Chis.Web

/-! ### Requests on their way -/

namespace Request

/-- The membership that the response to a request tells of. -/
def joined (r : Request) : Option (UserId × OrgId) :=
  match r.purpose, r.reply with
  | .load, _ | .delete _, _ => none
  | _, some (.joined org) => some (r.user, org.id)
  | _, _ => none

/-- The response will be ignored. -/
def lost (r : Request) : Bool :=
  match r.purpose with
  | .acceptPage _ => r.cancelled
  | _ => false

/-- The response will add an organization to the list. -/
def Joins (u : UserId) (x : OrgId) (r : Request) : Prop := r.lost = false ∧ r.joined = some (u, x)

/-- The response will remove it. -/
def Removes (x : OrgId) (r : Request) : Prop := r.purpose = .delete x ∧ r.reply = some .deleted

/-- The request is the load of a session. -/
def Loads (session : Nat) (r : Request) : Prop := r.purpose = .load ∧ r.session = session

/-- The answer, if any, tells of no membership, and lists each organization once. -/
structure Quiet (r : Request) : Prop where
  joined : r.joined = none
  removes : ∀ x, ¬ r.Removes x
  listed : ∀ orgs, r.reply = some (.organizations orgs) → (orgs.map Organization.id).Nodup

theorem quiet_of_none {r : Request} (h : r.reply = none) : r.Quiet where
  joined := by unfold joined; rw [h]; split <;> simp_all
  removes x hx := by rw [Removes, h] at hx; exact nomatch hx.2
  listed orgs ho := by rw [h] at ho; cases ho

theorem not_joins_of_none {r : Request} (h : r.joined = none) (u : UserId) (x : OrgId) :
    ¬ r.Joins u x :=
  fun hj ↦ nomatch h.symm.trans hj.2

/-- Two requests that differ in nothing but the variable of the effect. -/
structure Same (r r' : Request) : Prop where
  session : r'.session = r.session
  user : r'.user = r.user
  purpose : r'.purpose = r.purpose
  reply : r'.reply = r.reply

theorem Same.refl (r : Request) : r.Same r := ⟨rfl, rfl, rfl, rfl⟩

theorem same_leave (r : Request) : r.Same r.leave := by
  unfold leave
  split
  · exact ⟨rfl, rfl, rfl, rfl⟩
  · exact .refl r

theorem Same.joined {r r' : Request} (h : r.Same r') : r'.joined = r.joined := by
  unfold Request.joined
  rw [h.purpose, h.reply, h.user]

theorem Same.removes {r r' : Request} (h : r.Same r') (x : OrgId) : r'.Removes x ↔ r.Removes x := by
  unfold Removes
  rw [h.purpose, h.reply]

theorem lost_of_leave {r : Request} (h : r.leave.lost = false) : r.lost = false := by
  unfold leave at h
  split at h
  · next hp =>
    unfold lost at h
    rw [hp] at h
    cases h
  · exact h

theorem Same.loads {r r' : Request} (h : r.Same r') (n : Nat) : r'.Loads n ↔ r.Loads n := by
  unfold Loads
  rw [h.purpose, h.session]

end Request

namespace Client

/-- The user has joined an organization, and the response is on its way. -/
def Joining (s : Client) (u : UserId) (x : OrgId) : Prop := ∃ r ∈ s.requests, r.Joins u x

/-- An organization has been deleted, and the response is on its way. -/
def Leaving (s : Client) (x : OrgId) : Prop := ∃ r ∈ s.requests, r.Removes x

/-- The load of this session is on its way. -/
def Loading (s : Client) : Prop := ∃ r ∈ s.requests, r.Loads s.session

/-- The list of the provider is right for a user, apart from what is on its way. -/
def SettledFor (s : Client) (u : UserId) : Prop :=
  Settled (s.Has u) (s.Joining u) s.Leaving s.session s.view

/-- Events come in an order that the pages count on. While a user is signed in and the load of the
session has arrived:
- the accept page is not left between the acceptance and the arrival of its response;
- the load succeeds, and when it arrives it lists the organizations of the user, except those whose
  responses are still to come; if it lists none, no organization is on screen;
- an organization that was joined is added in the session that asked for it, while it still exists or
  the response to its deletion is still to come. -/
def Orderly (s : Client) : SessionEvent → Prop
  | .leavePage => ∀ u, s.user = some u →
    s.Loading ∨ ∀ r ∈ s.requests, ∀ x, r.Joins u x → r.leave.Joins u x
  | .handle r (.joins _) => s.user = some r.user → s.Loading ∨ r.lost = false
  | .receive r => ∀ u, s.user = some u →
    match r.purpose, r.reply with
    | .load, some (.organizations orgs) =>
      if r.session = s.session then
        Fits (s.Has u) (s.Joining u) s.Leaving (orgs.map Organization.id) ∧
          (orgs = [] → s.view.currentOrg = none)
      else s.Loading
    | .load, _ => r.session = s.session → s.SettledFor u
    | .delete _, _ => True
    | _, some (.joined org) => r.lost = true ∨ s.Loading ∨
      r.session = s.session ∧ (s.Alive org.id ∨ s.Leaving org.id)
    | _, _ => True
  | _ => True

/-! ### The server -/

/-- What the server and its answers keep to: a membership of a user in an organization is one row, and
what has been answered was true, until the organization was deleted. -/
structure Sound (s : Client) : Prop where
  nodup : (s.members.map fun m ↦ (m.user, m.org.id)).Nodup
  issued : ∀ m ∈ s.members, m.org.id ∈ s.issued
  joined : (s.requests.filterMap Request.joined).Nodup
  member : ∀ r ∈ s.requests, ∀ u x, r.joined = some (u, x) →
    (s.Has u x ∨ ¬ s.Alive x) ∧ x ∈ s.issued
  removed : ∀ x, s.Leaving x → ¬ s.Alive x ∧ x ∈ s.issued
  listed : ∀ r ∈ s.requests, ∀ orgs, r.reply = some (.organizations orgs) →
    (orgs.map Organization.id).Nodup

/-- Requests belong to sessions so far, and those of this session to its user. -/
structure Dated (s : Client) : Prop where
  session : ∀ r ∈ s.requests, r.session ≤ s.session
  user : ∀ r ∈ s.requests, r.session = s.session → ∀ u, s.user = some u → r.user = u

theorem Has.alive {s : Client} {u : UserId} {x : OrgId} (h : s.Has u x) : s.Alive x := by
  obtain ⟨m, hm, -, hx⟩ := h
  exact ⟨m, hm, hx⟩

theorem Sound.alive_issued {s : Client} (h : s.Sound) {x : OrgId} (hx : s.Alive x) :
    x ∈ s.issued := by
  obtain ⟨m, hm, rfl⟩ := hx
  exact h.issued m hm

/-- The organizations that a load lists. -/
theorem Sound.listed_once {s : Client} (h : s.Sound) (u : UserId) :
    (((s.members.filter fun m ↦ m.user = u).map Member.org).map Organization.id).Nodup := by
  have hpairs := h.nodup.sublist ((List.filter_sublist (p := fun m ↦ m.user = u)).map _)
  have heq : (s.members.filter fun m ↦ m.user = u).map (fun m ↦ (m.user, m.org.id)) =
      (((s.members.filter fun m ↦ m.user = u).map Member.org).map Organization.id).map (u, ·) := by
    rw [List.map_map, List.map_map]
    refine List.map_congr_left fun m hm ↦ ?_
    rw [← of_decide_eq_true (List.mem_filter.mp hm).2]
    rfl
  exact List.Nodup.of_map _ (heq ▸ hpairs)

/-- Requests that tell of nothing new. -/
theorem Sound.requests {s s' : Client} (h : s.Sound) (hm : s'.members = s.members)
    (hi : s'.issued = s.issued)
    (hr : ∀ r' ∈ s'.requests, r'.Quiet ∨ ∃ r ∈ s.requests, r.Same r')
    (hj : (s'.requests.filterMap Request.joined).Nodup) : s'.Sound := by
  have hhas (u : UserId) (x : OrgId) : s'.Has u x ↔ s.Has u x := by unfold Has; rw [hm]
  have halive (x : OrgId) : s'.Alive x ↔ s.Alive x := by unfold Alive; rw [hm]
  refine ⟨hm ▸ h.nodup, hi ▸ hm ▸ h.issued, hj, ?_, ?_, ?_⟩
  · intro r' hr' u x hx
    rw [hhas, halive, hi]
    cases hr r' hr' with
    | inl hq => exact nomatch hq.joined.symm.trans hx
    | inr hs =>
      obtain ⟨r, hmem, hs⟩ := hs
      exact h.member r hmem u x (hs.joined ▸ hx)
  · rintro x ⟨r', hr', hx⟩
    rw [halive, hi]
    cases hr r' hr' with
    | inl hq => exact absurd hx (hq.removes x)
    | inr hs =>
      obtain ⟨r, hmem, hs⟩ := hs
      exact h.removed x ⟨r, hmem, (hs.removes x).mp hx⟩
  · intro r' hr' orgs ho
    cases hr r' hr' with
    | inl hq => exact hq.listed orgs ho
    | inr hs =>
      obtain ⟨r, hmem, hs⟩ := hs
      exact h.listed r hmem orgs (hs.reply ▸ ho)

/-! ### Changes of the requests -/

section Requests

variable {P : Request → Prop} {l : List Request} {r r' : Request}

theorem exists_erase (hr : ¬ P r) : (∃ p ∈ l.erase r, P p) ↔ ∃ p ∈ l, P p := by
  constructor
  · rintro ⟨p, hp, h⟩
    exact ⟨p, List.mem_of_mem_erase hp, h⟩
  · rintro ⟨p, hp, h⟩
    have hne : p ≠ r := fun he ↦ hr (he ▸ h)
    exact ⟨p, (List.mem_erase_of_ne hne).mpr hp, h⟩

theorem exists_replace (hr : ¬ P r) :
    (∃ p ∈ r' :: l.erase r, P p) ↔ (∃ p ∈ l, P p) ∨ P r' := by
  rw [List.exists_mem_cons_iff, exists_erase hr, or_comm]

theorem joined_erase (h : (l.filterMap Request.joined).Nodup) :
    ((l.erase r).filterMap Request.joined).Nodup :=
  h.sublist (List.Sublist.filterMap _ List.erase_sublist)

/-- Once a response has arrived, no other tells of the same membership. -/
theorem joined_once {k : UserId × OrgId} (hr : r ∈ l) (hk : r.joined = some k)
    (h : (l.filterMap Request.joined).Nodup) : ∀ p ∈ l.erase r, p.joined ≠ some k := by
  have hperm := (List.perm_cons_erase hr).filterMap Request.joined
  rw [List.filterMap_cons_some hk] at hperm
  have hnot := (List.nodup_cons.mp (hperm.nodup_iff.mp h)).1
  exact fun p hp he ↦ hnot (List.mem_filterMap.mpr ⟨p, hp, he⟩)

end Requests

/-- A list stays right while nothing that it depends on changes. -/
theorem SettledFor.congr {s s' : Client} {u : UserId} (h : s.SettledFor u)
    (hh : ∀ x, s'.Has u x ↔ s.Has u x) (hj : ∀ x, s'.Joining u x ↔ s.Joining u x)
    (hl : ∀ x, s'.Leaving x ↔ s.Leaving x) (hs : s'.session = s.session) (hv : s'.view = s.view) :
    s'.SettledFor u := by
  have hhas : s'.Has u = s.Has u := funext fun x ↦ propext (hh x)
  have hjoin : s'.Joining u = s.Joining u := funext fun x ↦ propext (hj x)
  have hleave : s'.Leaving = s.Leaving := funext fun x ↦ propext (hl x)
  unfold SettledFor
  rw [hhas, hjoin, hleave, hs, hv]
  exact h

/-- Until the load of the session arrives, the list may be anything; then it is right. -/
structure Inv (s : Client) : Prop extends Sound s, Dated s where
  list : ∀ u, s.user = some u → s.Loading ∨ s.SettledFor u

end Client

end Chis.Web
