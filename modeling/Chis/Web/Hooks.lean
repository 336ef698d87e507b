import Chis.Base.Events

/-!
# The data hooks of the dashboard

`useApiKeys`, `useInvitations` and `useSigningSecret` of `web/src/features/dashboard/hooks`. Each
loads its data when the organization on screen changes, and changes it when the response to an
action arrives. The render and the effects that follow a change of state are part of the same step.
-/

namespace Chis.Web

/-- The id of an organization. -/
abbrev OrgId := String

/-! ### One hook -/

/-- A request that failed: with an `ApiRequestError`, or otherwise. -/
inductive Failure
  | api (message : String)
  | other
deriving DecidableEq

/-- The text that the hooks show. -/
def Failure.text : Failure → String
  | .api message => message
  | .other => "An unexpected error occurred"

/-- What differs between the hooks: what they hold, and what the responses do to it. `origins` are the
organizations whose data is shown. -/
structure Resource where
  Contents : Type
  /-- The initial state of the hook. -/
  empty : Contents
  /-- The response to a load. -/
  Data : Type
  loaded : OrgId → Data → Contents → Contents
  /-- The actions that send a request. -/
  Action : Type
  [decEq : DecidableEq Action]
  /-- Those whose response brings data. -/
  brings : Action → Bool
  Reply : Action → Type
  done : (a : Action) → OrgId → Reply a → Contents → Contents
  /-- The actions without a request. -/
  Local : Type
  perform : Local → Contents → Contents
  origins : Contents → List OrgId
  origins_empty : origins empty = []
  origins_loaded : ∀ org d c, ∀ o ∈ origins (loaded org d c), o = org
  origins_done : ∀ a org r c, ∀ o ∈ origins (done a org r c),
    o ∈ origins c ∨ brings a = true ∧ o = org
  origins_perform : ∀ l c, ∀ o ∈ origins (perform l c), o ∈ origins c

attribute [instance] Resource.decEq

/-- A load in flight. `org` is its header `X-Org-ID`, `cancelled` the variable of the effect. -/
structure Load where
  org : Option OrgId
  cancelled : Bool
deriving DecidableEq

/-- An action in flight. -/
structure Call (R : Resource) where
  org : Option OrgId
  action : R.Action
deriving DecidableEq

/-- A mounted hook. -/
structure Hook (R : Resource) where
  /-- `currentOrg?.id` of `useOrg`. -/
  currentOrg : Option OrgId
  /-- The entry `selected_org` of `localStorage`. -/
  selectedOrg : Option OrgId
  contents : R.Contents
  isLoading : Bool
  /-- `isCreating`, `isSending`, `isRotating`. -/
  isBusy : Bool
  error : Option String
  loads : List Load
  calls : List (Call R)

/-- What can happen to a hook. -/
inductive Event (R : Resource)
  /-- `switchOrg`, `addOrg`, `removeOrg` or the load of the provider selects an organization. -/
  | select (org : OrgId)
  /-- `removeOrg` of the last organization, or `logout`. -/
  | deselect
  | loaded (l : Load) (r : Except Failure R.Data)
  | act (a : R.Action)
  | answered (org : Option OrgId) (a : R.Action) (r : Except Failure (R.Reply a))
  | perform (l : R.Local)

namespace Hook

variable {R : Resource}

/-- A hook that is mounted while no organization is on screen. -/
def mounted (R : Resource) (selectedOrg : Option OrgId) : Hook R :=
  ⟨none, selectedOrg, R.empty, true, false, none, [], []⟩

/-- The effect on `currentOrg?.id`: the load before it is cancelled. -/
def effect (s : Hook R) : Hook R :=
  let loads := s.loads.map fun l ↦ { l with cancelled := true }
  match s.currentOrg with
  | none => { s with loads }
  | some _ => { s with loads := ⟨s.selectedOrg, false⟩ :: loads, isLoading := true, error := none }

/-- The provider writes both copies of the selection. -/
def setOrg (s : Hook R) (org : Option OrgId) : Hook R :=
  let s' := { s with currentOrg := org, selectedOrg := org }
  if org = s.currentOrg then s' else s'.effect

/-- What the effect does with the response to its load. A request without the header `X-Org-ID` does
not succeed. -/
def afterLoad (s : Hook R) (l : Load) : Except Failure R.Data → Option (Hook R)
  | .ok d => l.org.map fun org ↦
    if l.cancelled then s
    else { s with contents := R.loaded org d s.contents, isLoading := false }
  | .error f =>
    some (if l.cancelled then s else { s with error := some f.text, isLoading := false })

/-- What an action does with its response. -/
def afterAction (s : Hook R) (org : Option OrgId) (a : R.Action) :
    Except Failure (R.Reply a) → Option (Hook R)
  | .ok reply => org.map fun org ↦ { s with contents := R.done a org reply s.contents }
  | .error f => some { s with error := some f.text }

/-- One event. -/
def step (s : Hook R) : Event R → Option (Hook R)
  | .select org => some (s.setOrg (some org))
  | .deselect => some (s.setOrg none)
  | .loaded l r =>
    if l ∈ s.loads then afterLoad { s with loads := s.loads.erase l } l r else none
  | .act a =>
    some { s with
      calls := ⟨s.selectedOrg, a⟩ :: s.calls
      isBusy := s.isBusy || R.brings a
      error := none }
  | .answered org a r =>
    if ⟨org, a⟩ ∈ s.calls then
      afterAction { s with
        calls := s.calls.erase ⟨org, a⟩
        isBusy := s.isBusy && !R.brings a } org a r
    else none
  | .perform l => some { s with contents := R.perform l s.contents }

end Hook

/-! ### The three hooks -/

/-- An item, with the organization of the request that returned it. -/
structure Sourced (α : Type) where
  org : OrgId
  item : α
deriving DecidableEq

/-- `ApiKey`; `dashboard.types.ts`. -/
structure ApiKey where
  id : String
  name : String
  keyPrefix : String
  createdAt : String
  lastUsedAt : Option String
deriving DecidableEq

/-- `CreateApiKeyResponse`. -/
structure CreateApiKeyResponse where
  id : String
  name : String
  keyPrefix : String
  key : String
  createdAt : String
deriving DecidableEq

/-- `createKey` and `removeKey`. -/
inductive KeyAction
  | createKey (name : String)
  | removeKey (id : String)
deriving DecidableEq

/-- What `useApiKeys` holds. -/
structure ApiKeys where
  apiKeys : List (Sourced ApiKey)
  newlyCreatedKey : Option (Sourced CreateApiKeyResponse)
deriving DecidableEq

/-- The entry of a key that has been created; `use-api-keys.ts:64`. -/
def CreateApiKeyResponse.entry (r : CreateApiKeyResponse) : ApiKey :=
  ⟨r.id, r.name, r.keyPrefix, r.createdAt, none⟩

/-- `useApiKeys`; its local action is `clearNewKey`. -/
def useApiKeys : Resource where
  Contents := ApiKeys
  empty := ⟨[], none⟩
  Data := List ApiKey
  loaded org d c := { c with apiKeys := d.map (Sourced.mk org) }
  Action := KeyAction
  brings
    | .createKey _ => true
    | .removeKey _ => false
  Reply
    | .createKey _ => CreateApiKeyResponse
    | .removeKey _ => Unit
  done
    | .createKey _, org, r, c => ⟨⟨org, r.entry⟩ :: c.apiKeys, some ⟨org, r⟩⟩
    | .removeKey id, _, _, c => { c with apiKeys := c.apiKeys.filter fun k ↦ k.item.id ≠ id }
  Local := Unit
  perform _ c := { c with newlyCreatedKey := none }
  origins c := c.apiKeys.map Sourced.org
  origins_empty := rfl
  origins_loaded org d c o h := by
    simp only [List.map_map, List.mem_map, Function.comp_apply] at h
    obtain ⟨k, -, rfl⟩ := h
    rfl
  origins_done a org r c o h := by
    cases a with
    | createKey name =>
      cases List.mem_cons.mp h with
      | inl h => exact .inr ⟨rfl, h⟩
      | inr h => exact .inl h
    | removeKey id =>
      obtain ⟨k, hk, rfl⟩ := List.mem_map.mp h
      exact .inl (List.mem_map_of_mem (List.mem_filter.mp hk).1)
  origins_perform l c o h := h

/-- `Invitation`; `invitation.types.ts`. -/
structure Invitation where
  id : String
  email : String
  role : String
  status : String
  expiresAt : String
  createdAt : String
deriving DecidableEq

/-- `sendInvitation` and `cancelInv`. -/
inductive InvitationAction
  | sendInvitation (email : String)
  | cancelInv (id : String)
deriving DecidableEq

/-- `useInvitations`. -/
def useInvitations : Resource where
  Contents := List (Sourced Invitation)
  empty := []
  Data := List Invitation
  loaded org d _ := d.map (Sourced.mk org)
  Action := InvitationAction
  brings
    | .sendInvitation _ => true
    | .cancelInv _ => false
  Reply
    | .sendInvitation _ => Invitation
    | .cancelInv _ => Unit
  done
    | .sendInvitation _, org, r, c => ⟨org, r⟩ :: c
    | .cancelInv id, _, _, c => c.filter fun inv ↦ inv.item.id ≠ id
  Local := Empty
  perform l := l.elim
  origins c := c.map Sourced.org
  origins_empty := rfl
  origins_loaded org d c o h := by
    simp only [List.map_map, List.mem_map, Function.comp_apply] at h
    obtain ⟨k, -, rfl⟩ := h
    rfl
  origins_done a org r c o h := by
    cases a with
    | sendInvitation email =>
      cases List.mem_cons.mp h with
      | inl h => exact .inr ⟨rfl, h⟩
      | inr h => exact .inl h
    | cancelInv id =>
      obtain ⟨k, hk, rfl⟩ := List.mem_map.mp h
      exact .inl (List.mem_map_of_mem (List.mem_filter.mp hk).1)
  origins_perform l := l.elim

/-- `useSigningSecret`; its action is `rotate`. -/
def useSigningSecret : Resource where
  Contents := Option (Sourced String)
  empty := none
  Data := String
  loaded org d _ := some ⟨org, d⟩
  Action := Unit
  brings _ := true
  Reply _ := String
  done _ org r _ := some ⟨org, r⟩
  Local := Empty
  perform l := l.elim
  origins c := c.toList.map Sourced.org
  origins_empty := rfl
  origins_loaded _ _ _ _ h := List.mem_singleton.mp h
  origins_done _ _ _ _ _ h := .inr ⟨rfl, List.mem_singleton.mp h⟩
  origins_perform l := l.elim

end Chis.Web
