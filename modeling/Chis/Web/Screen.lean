import Chis.Web.Hooks

/-!
# Data of the organization on screen

A load is cancelled when the organization changes. The response to an action changes the data
whenever it arrives, and a load that fails leaves the data of the organization before.
-/

namespace Chis.Web

open Events

variable {R : Resource}

/-- The data shown is that of the organization on screen. -/
def Belongs (s : Hook R) : Prop := ∀ o ∈ R.origins s.contents, s.currentOrg = some o

/-- A load is in flight whose response will be used. -/
def Loading (s : Hook R) : Prop := ∃ l ∈ s.loads, l.cancelled = false

/-- An event that finds what the hook counts on: data arrives for the organization on screen, or
before the load of the one on screen; and where no load will replace the data, there is no data of
another organization. -/
def Timely (s : Hook R) : Event R → Prop
  | .deselect => R.origins s.contents = []
  | .loaded l (.error _) => l.cancelled = true ∨ Belongs s
  | .answered org a (.ok _) => R.brings a = true → org = s.currentOrg ∨ Loading s
  | _ => True

/-- The two copies of the selection agree, the load that will be used is the one for the organization
on screen, and without such a load the data belongs to that organization. -/
structure Hook.Inv (s : Hook R) : Prop where
  selected : s.currentOrg ≠ none → s.selectedOrg = s.currentOrg
  loads : ∀ l ∈ s.loads, l.cancelled = false → s.currentOrg ≠ none ∧ l.org = s.currentOrg
  contents : Loading s ∨ Belongs s

theorem Hook.mounted_inv (org : Option OrgId) : (Hook.mounted R org).Inv where
  selected h := absurd rfl h
  loads l hl := nomatch hl
  contents := .inr fun o ho ↦ by
    rw [show R.origins (Hook.mounted R org).contents = [] from R.origins_empty] at ho
    cases ho

/-- A load that is sent for the organization on screen will replace the data. -/
private theorem effect_inv {s : Hook R} (h : s.selectedOrg = s.currentOrg)
    (hnone : s.currentOrg = none → R.origins s.contents = []) : s.effect.Inv := by
  have hold {l : Load} (hl : l ∈ s.loads.map fun l ↦ { l with cancelled := true })
      (hc : l.cancelled = false) : False := by
    obtain ⟨l', -, rfl⟩ := List.mem_map.mp hl
    cases hc
  unfold Hook.effect
  dsimp only
  split
  · next ho =>
    refine ⟨fun hne ↦ absurd ho hne, fun l hl hc ↦ (hold hl hc).elim, .inr fun o hmem ↦ ?_⟩
    have hempty := hnone ho
    rw [show R.origins s.contents = [] from hempty] at hmem
    cases hmem
  · next org ho =>
    have hne : s.currentOrg ≠ none := ho ▸ Option.some_ne_none org
    refine ⟨fun _ ↦ h, fun l hl hc ↦ ?_, .inl ⟨_, List.mem_cons_self, rfl⟩⟩
    cases List.mem_cons.mp hl with
    | inl hl =>
      subst hl
      exact ⟨hne, h⟩
    | inr hl => exact (hold hl hc).elim

private theorem setOrg_inv {s : Hook R} (hi : s.Inv) {org : Option OrgId}
    (hnone : org = none → R.origins s.contents = []) : (s.setOrg org).Inv := by
  unfold Hook.setOrg
  split
  · next h => exact ⟨fun _ ↦ rfl, h ▸ hi.loads, h ▸ hi.contents⟩
  · exact effect_inv rfl hnone

private theorem loading_erase {s : Hook R} {l : Load} (hl : l.cancelled = true) (h : Loading s) :
    ∃ l' ∈ s.loads.erase l, l'.cancelled = false := by
  obtain ⟨l', hmem, hc⟩ := h
  refine ⟨l', (List.mem_erase_of_ne fun he ↦ ?_).mpr hmem, hc⟩
  rw [he, hl] at hc
  cases hc

/-- A response to a load keeps the invariant. -/
private theorem afterLoad_inv {s s' : Hook R} {l : Load} {r : Except Failure R.Data} (hi : s.Inv)
    (hl : l ∈ s.loads) (ht : Timely s (.loaded l r))
    (h : Hook.afterLoad { s with loads := s.loads.erase l } l r = some s') : s'.Inv := by
  have hloads : ∀ l' ∈ s.loads.erase l, l'.cancelled = false →
      s.currentOrg ≠ none ∧ l'.org = s.currentOrg :=
    fun l' hl' ↦ hi.loads l' (List.mem_of_mem_erase hl')
  cases hc : l.cancelled with
  | true =>
    have hs : s' = { s with loads := s.loads.erase l } := by
      cases r with
      | error f => simpa [Hook.afterLoad, hc] using h.symm
      | ok d =>
        obtain ⟨org, -, rfl⟩ := Option.map_eq_some_iff.mp h
        rw [if_pos hc]
    subst hs
    exact ⟨hi.selected, hloads, hi.contents.imp_left (loading_erase hc)⟩
  | false =>
    have hnot : ¬ l.cancelled = true := by simp [hc]
    cases r with
    | ok d =>
      -- The load is the one for the organization on screen.
      obtain ⟨org, ho, rfl⟩ := Option.map_eq_some_iff.mp h
      rw [if_neg hnot]
      refine ⟨hi.selected, hloads, .inr fun o hmem ↦ ?_⟩
      rw [R.origins_loaded org d _ o hmem, ← ho]
      exact (hi.loads l hl hc).2.symm
    | error f =>
      have hs := Option.some.inj h
      rw [if_neg hnot] at hs
      subst hs
      exact ⟨hi.selected, hloads, .inr (ht.resolve_left hnot)⟩

/-- So does a response to an action. -/
private theorem afterAction_inv {s s' : Hook R} {org : Option OrgId} {a : R.Action}
    {r : Except Failure (R.Reply a)} (hi : s.Inv) (ht : Timely s (.answered org a r))
    (h : s.afterAction org a r = some s') : s'.Inv := by
  cases r with
  | error f =>
    cases h
    exact ⟨hi.selected, hi.loads, hi.contents⟩
  | ok reply =>
    obtain ⟨o, rfl, rfl⟩ := Option.map_eq_some_iff.mp h
    refine ⟨hi.selected, hi.loads, ?_⟩
    by_cases hl : Loading s
    · exact .inl hl
    · right
      have hb : Belongs s := hi.contents.resolve_left hl
      intro o' ho'
      cases R.origins_done a o reply s.contents o' ho' with
      | inl hold => exact hb o' hold
      | inr hnew =>
        rw [hnew.2]
        exact ((ht hnew.1).resolve_right hl).symm

/-- Each event that is timely keeps the invariant. -/
theorem Hook.step_inv {s s' : Hook R} {e : Event R} (hi : s.Inv) (ht : Timely s e)
    (h : s.step e = some s') : s'.Inv := by
  cases e with
  | select org =>
    cases h
    exact setOrg_inv hi fun h ↦ nomatch h
  | deselect =>
    cases h
    exact setOrg_inv hi fun _ ↦ ht
  | loaded l r =>
    obtain ⟨hl, h⟩ := Option.ite_none_right_eq_some.mp h
    exact afterLoad_inv hi hl ht h
  | act a =>
    cases h
    exact ⟨hi.selected, hi.loads, hi.contents⟩
  | answered org a r =>
    obtain ⟨-, h⟩ := Option.ite_none_right_eq_some.mp h
    exact afterAction_inv (s := { s with
      calls := s.calls.erase ⟨org, a⟩
      isBusy := s.isBusy && !R.brings a }) ⟨hi.selected, hi.loads, hi.contents⟩ ht h
  | perform l =>
    cases h
    exact ⟨hi.selected, hi.loads, hi.contents.imp_right fun hb o ho ↦
      hb o (R.origins_perform l s.contents o ho)⟩

/-- Whenever no load is in flight, the data is that of the organization on screen. -/
theorem data_belongs {org : Option OrgId} {s : Hook R} (h : Run Hook.step Timely (.mounted R org) s)
    (hloads : s.loads = []) : Belongs s := by
  have hi : s.Inv := h.invariant (Hook.mounted_inv org) fun _ _ _ ↦ Hook.step_inv
  refine hi.contents.resolve_left ?_
  rintro ⟨l, hl, -⟩
  rw [hloads] at hl
  cases hl

/-- The hooks that hold data of an organization. -/
inductive DataHook
  | apiKeys | invitations | signingSecret

/-- What each of them loads. -/
def DataHook.resource : DataHook → Resource
  | .apiKeys => useApiKeys
  | .invitations => useInvitations
  | .signingSecret => useSigningSecret

/-- A secret is loaded. -/
private def loadSecret : List (Event useSigningSecret) :=
  [.select "a", .loaded ⟨some "a", false⟩ (.ok "secret of a")]

/-- A secret is rotated, and its organization left before the response arrives. -/
private def lateRotation : List (Event useSigningSecret) :=
  loadSecret ++ [.act (), .select "b", .loaded ⟨some "b", false⟩ (.ok "secret of b"),
    .answered (some "a") () (.ok "new secret of a")]

end Chis.Web
