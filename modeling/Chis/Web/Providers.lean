import Chis.Web.Hooks

/-!
# The organization provider

`OrgProvider` of `web/src/shared/context/org-context.tsx`. The organization on screen is a state of
the provider; its id is also written to the entry `selected_org` of `localStorage`, from where
`apiRequest` takes the header `X-Org-ID`.
-/

namespace Chis.Web

/-- `Organization`; `organization.types.ts`. The ids of the server are not empty. `source` tells
where it was fetched. -/
structure Organization (κ : Type) where
  id : OrgId
  name : String
  slug : String
  role : String
  source : κ
  id_ne : id ≠ ""
deriving DecidableEq

/-- The state of the provider, with the entry `selected_org`. -/
structure View (κ : Type) where
  organizations : List (Organization κ)
  currentOrg : Option (Organization κ)
  selectedOrg : Option OrgId
deriving DecidableEq

namespace View

variable {κ : Type}

/-- The effect of a session that has ended; `org-context.tsx:31`. -/
def reset (v : View κ) : View κ := { v with organizations := [], currentOrg := none }

/-- The load of the provider; `org-context.tsx:37`. -/
def loaded (v : View κ) (orgs : List (Organization κ)) : View κ :=
  let v := { v with organizations := orgs }
  match orgs.find? fun o ↦ some o.id = v.selectedOrg with
  | some matched => { v with currentOrg := some matched }
  | none =>
    match orgs with
    | [] => v
    | o :: _ => { v with currentOrg := some o, selectedOrg := some o.id }

/-- `switchOrg`; `org-context.tsx:58`. -/
def switchOrg (v : View κ) (org : Organization κ) : View κ :=
  { v with currentOrg := some org, selectedOrg := some org.id }

/-- `addOrg`; `org-context.tsx:63`. -/
def addOrg (v : View κ) (org : Organization κ) : View κ :=
  ⟨v.organizations ++ [org], some org, some org.id⟩

/-- `removeOrg`; `org-context.tsx:69`. -/
def removeOrg (v : View κ) (orgId : OrgId) : View κ :=
  match v.organizations.filter fun o ↦ o.id ≠ orgId with
  | [] => ⟨[], none, none⟩
  | o :: rest => ⟨o :: rest, some o, some o.id⟩

/-- The organization on screen is the one that is selected. -/
def Agrees (v : View κ) : Prop := ∀ o, v.currentOrg = some o → v.selectedOrg = some o.id

theorem Agrees.reset (v : View κ) : v.reset.Agrees := fun _ h ↦ nomatch h

theorem Agrees.loaded {v : View κ} (h : v.Agrees) (orgs : List (Organization κ)) :
    (v.loaded orgs).Agrees := by
  unfold View.loaded
  dsimp only
  split
  · next m hm =>
    intro o ho
    cases ho
    have hid : some m.id = v.selectedOrg := by simpa using List.find?_some hm
    exact hid.symm
  · split
    · exact h
    · intro o ho
      cases ho
      rfl

theorem Agrees.switchOrg (v : View κ) (org : Organization κ) : (v.switchOrg org).Agrees := by
  intro o h
  cases h
  rfl

theorem Agrees.addOrg (v : View κ) (org : Organization κ) : (v.addOrg org).Agrees := by
  intro o h
  cases h
  rfl

theorem Agrees.removeOrg (v : View κ) (orgId : OrgId) : (v.removeOrg orgId).Agrees := by
  unfold View.removeOrg
  split
  · exact fun _ h ↦ nomatch h
  · intro o h
    cases h
    rfl

end View

end Chis.Web
