import Chis.Web.Providers
import Mathlib.Data.List.Nodup

/-!
# Lists that keep up with the server

A client keeps a list of what the server holds. While responses are on their way, the list may lack
what they will add and still have what they will remove; `Fits` says that it is right apart from them.
-/

namespace Chis.Web

/-- A list of ids is what the server has, apart from what responses on their way will add or remove. -/
structure Fits (has adding removing : OrgId → Prop) (ids : List OrgId) : Prop where
  known : ∀ x ∈ ids, has x ∨ removing x
  complete : ∀ x, has x → x ∈ ids ∨ adding x
  fresh : ∀ x, adding x → x ∉ ids

/-- The list of the provider fits, each organization once, everything was fetched in this session, and
an organization of the list is on screen if there is one. -/
structure Settled (has adding removing : OrgId → Prop) (session : Nat) (v : View Nat) : Prop where
  nodup : (v.organizations.map Organization.id).Nodup
  fits : Fits has adding removing (v.organizations.map Organization.id)
  source : ∀ o ∈ v.organizations, o.source = session
  onScreen : ∀ o, v.currentOrg = some o → o ∈ v.organizations
  empty : v.currentOrg = none → v.organizations = []

namespace Fits

variable {has adding removing : OrgId → Prop} {ids : List OrgId}

/-- Once nothing is on its way, the list is what the server has. -/
theorem exact (h : Fits has adding removing ids) (ha : ∀ x, ¬ adding x) (hr : ∀ x, ¬ removing x)
    (x : OrgId) : x ∈ ids ↔ has x :=
  ⟨fun hx ↦ (h.known x hx).resolve_right (hr x), fun hx ↦ (h.complete x hx).resolve_right (ha x)⟩

/-- The server has something new, and its response is on its way. -/
theorem gain {has' adding' : OrgId → Prop} {x : OrgId} (h : Fits has adding removing ids)
    (hhas : ∀ y, has' y ↔ has y ∨ y = x) (hadd : ∀ y, adding' y ↔ adding y ∨ y = x)
    (hno : ¬ has x) (hkeep : ¬ removing x) : Fits has' adding' removing ids where
  known y hy := (h.known y hy).imp_left fun hh ↦ (hhas y).mpr (.inl hh)
  complete y hy := by
    cases (hhas y).mp hy with
    | inl hh => exact (h.complete y hh).imp_right fun ha ↦ (hadd y).mpr (.inl ha)
    | inr he => exact .inr ((hadd y).mpr (.inr he))
  fresh y hy hmem := by
    cases (hadd y).mp hy with
    | inl ha => exact h.fresh y ha hmem
    | inr he => exact (he ▸ h.known y hmem).elim hno hkeep

/-- The server has something no more, and its response is on its way. -/
theorem lose {has' removing' : OrgId → Prop} {x : OrgId} (h : Fits has adding removing ids)
    (hhas : ∀ y, has' y ↔ has y ∧ y ≠ x) (hrem : ∀ y, removing' y ↔ removing y ∨ y = x) :
    Fits has' adding removing' ids where
  known y hy := by
    by_cases he : y = x
    · exact .inr ((hrem y).mpr (.inr he))
    · exact (h.known y hy).imp (fun hh ↦ (hhas y).mpr ⟨hh, he⟩) fun hr ↦ (hrem y).mpr (.inl hr)
  complete y hy := h.complete y ((hhas y).mp hy).1
  fresh := h.fresh

/-- A response adds what it says. -/
theorem add {adding' : OrgId → Prop} {x : OrgId} (h : Fits has adding removing ids)
    (hadd : ∀ y, adding' y ↔ adding y ∧ y ≠ x) (hx : has x ∨ removing x) :
    Fits has adding' removing (ids ++ [x]) where
  known y hy := by
    cases List.mem_append.mp hy with
    | inl hy => exact h.known y hy
    | inr hy => rwa [List.mem_singleton.mp hy]
  complete y hy := by
    by_cases he : y = x
    · exact .inl (List.mem_append_right _ (List.mem_singleton.mpr he))
    · exact (h.complete y hy).imp (List.mem_append_left _) fun ha ↦ (hadd y).mpr ⟨ha, he⟩
  fresh y hy hmem := by
    obtain ⟨ha, hne⟩ := (hadd y).mp hy
    cases List.mem_append.mp hmem with
    | inl hmem => exact h.fresh y ha hmem
    | inr hmem => exact hne (List.mem_singleton.mp hmem)

/-- A response removes what it says. -/
theorem remove {removing' : OrgId → Prop} {x : OrgId} (h : Fits has adding removing ids)
    (hx : ¬ has x) (hrem : ∀ y, y ≠ x → removing y → removing' y) :
    Fits has adding removing' (ids.filter fun y ↦ y ≠ x) where
  known y hy := by
    obtain ⟨hy, hne⟩ := List.mem_filter.mp hy
    exact (h.known y hy).imp_right (hrem y (of_decide_eq_true hne))
  complete y hy := by
    have hne : y ≠ x := fun he ↦ hx (he ▸ hy)
    exact (h.complete y hy).imp_left fun hmem ↦ List.mem_filter.mpr ⟨hmem, decide_eq_true hne⟩
  fresh y hy hmem := h.fresh y hy (List.mem_filter.mp hmem).1

end Fits

namespace Settled

variable {has adding removing : OrgId → Prop} {session : Nat} {v : View Nat}

/-- The same list with other responses on their way. -/
theorem refit {has' adding' removing' : OrgId → Prop} (h : Settled has adding removing session v)
    (hf : Fits has' adding' removing' (v.organizations.map Organization.id)) :
    Settled has' adding' removing' session v :=
  { h with fits := hf }

/-- A list that the server has sent, with nothing on screen if it is empty. -/
theorem loaded {orgs : List (Organization Nat)} (hnodup : (orgs.map Organization.id).Nodup)
    (hf : Fits has adding removing (orgs.map Organization.id)) (hs : ∀ o ∈ orgs, o.source = session)
    (hnone : orgs = [] → v.currentOrg = none) : Settled has adding removing session (v.loaded orgs) := by
  unfold View.loaded
  dsimp only
  split
  · next m hm =>
    refine ⟨hnodup, hf, hs, fun o ho ↦ ?_, fun h ↦ (nomatch h)⟩
    cases ho
    exact List.mem_of_find?_eq_some hm
  · split
    · refine ⟨hnodup, hf, hs, fun o ho ↦ ?_, fun _ ↦ rfl⟩
      have hnone : v.currentOrg = none := hnone rfl
      rw [show v.currentOrg = some o from ho] at hnone
      cases hnone
    · refine ⟨hnodup, hf, hs, fun o ho ↦ ?_, fun h ↦ (nomatch h)⟩
      cases ho
      exact List.mem_cons_self

theorem switchOrg (h : Settled has adding removing session v) {org : Organization Nat}
    (ho : org ∈ v.organizations) : Settled has adding removing session (v.switchOrg org) where
  nodup := h.nodup
  fits := h.fits
  source := h.source
  onScreen o he := by
    cases he
    exact ho
  empty he := nomatch he

theorem addOrg {adding' : OrgId → Prop} (h : Settled has adding removing session v)
    {org : Organization Nat} (hadd : ∀ y, adding' y ↔ adding y ∧ y ≠ org.id) (hx : adding org.id)
    (hhas : has org.id ∨ removing org.id) (hs : org.source = session) :
    Settled has adding' removing session (v.addOrg org) where
  nodup := by
    show ((v.organizations ++ [org]).map Organization.id).Nodup
    rw [List.map_append]
    exact List.nodup_append.mpr ⟨h.nodup, List.nodup_singleton _, fun a ha b hb he ↦
      h.fits.fresh _ hx (List.mem_singleton.mp hb ▸ he ▸ ha)⟩
  fits := by
    show Fits has adding' removing ((v.organizations ++ [org]).map Organization.id)
    rw [List.map_append]
    exact h.fits.add hadd hhas
  source o ho := by
    cases List.mem_append.mp ho with
    | inl ho => exact h.source o ho
    | inr ho => exact List.mem_singleton.mp ho ▸ hs
  onScreen o he := by
    cases he
    exact List.mem_append_right _ List.mem_cons_self
  empty he := nomatch he

theorem removeOrg {removing' : OrgId → Prop} {x : OrgId} (h : Settled has adding removing session v)
    (hx : ¬ has x) (hrem : ∀ y, y ≠ x → removing y → removing' y) :
    Settled has adding removing' session (v.removeOrg x) := by
  have hids : (v.organizations.filter fun o ↦ o.id ≠ x).map Organization.id =
      (v.organizations.map Organization.id).filter fun y ↦ y ≠ x := by
    rw [List.filter_map]
    rfl
  have hnodup := h.nodup.filter fun y ↦ decide (y ≠ x)
  have hfits := h.fits.remove hx hrem
  rw [← hids] at hnodup hfits
  have hsource : ∀ o ∈ v.organizations.filter fun o ↦ o.id ≠ x, o.source = session :=
    fun o ho ↦ h.source o (List.mem_filter.mp ho).1
  unfold View.removeOrg
  split
  · next he =>
    rw [he] at hnodup hfits
    exact ⟨hnodup, hfits, fun o ho ↦ (nomatch ho), fun o ho ↦ (nomatch ho), fun _ ↦ rfl⟩
  · next o rest he =>
    rw [he] at hnodup hfits hsource
    refine ⟨hnodup, hfits, hsource, fun o' ho ↦ ?_, fun h ↦ (nomatch h)⟩
    cases ho
    exact List.mem_cons_self

end Settled

end Chis.Web
