import Chis.Web.Providers
import Mathlib.Logic.Function.Basic

/-!
# Tabs of one browser

The tabs of a browser share `localStorage`. Each has providers of its own, and none of them listens to
what the others write.
-/

namespace Chis.Web

open Events

/-- A tab: the state of `AuthProvider` and `OrgProvider`. -/
structure Tab where
  token : Option String
  user : Option String
  organizations : List (Organization Unit)
  currentOrg : Option (Organization Unit)
  /-- The loads of `OrgProvider` that have not been answered. -/
  loads : Nat

/-- `isAuthenticated`; `auth-context.tsx:41`. -/
def Tab.isAuthenticated (t : Tab) : Bool := t.token.isSome && t.user.isSome

/-- An org-scoped request, with the organization on the screen of its tab. -/
structure Sent (ι : Type) where
  tab : ι
  /-- The header `X-Org-ID`. -/
  orgHeader : Option OrgId
  onScreen : Option OrgId
deriving DecidableEq

/-- The tabs of a browser, with the entries `auth_token`, `auth_user` and `selected_org`. -/
structure Browser (ι : Type) where
  authToken : Option String
  authUser : Option String
  selectedOrg : Option OrgId
  tabs : ι → Option Tab
  /-- The requests that have been sent through `apiRequest` with `auth`. -/
  sent : List (Sent ι)

/-- What can happen in a tab. -/
inductive TabEvent
  /-- The page is loaded. -/
  | load
  | close
  | setAuth (token user : String)
  | logout
  | orgsLoaded (orgs : List (Organization Unit))
  | loadFailed
  | switchOrg (org : Organization Unit)
  | addOrg (org : Organization Unit)
  | removeOrg (orgId : OrgId)
  /-- A hook or a page sends an org-scoped request. -/
  | send

/-- A tab whose page is loaded. The providers start with what is stored, and the organizations of a
session are loaded. -/
def Tab.start (token user : Option String) : Tab :=
  ⟨token, user, [], none, if token.isSome && user.isSome then 1 else 0⟩

namespace Browser

variable {ι : Type} [DecidableEq ι]

/-- No tab is open. -/
def start (authToken authUser selectedOrg : Option String) : Browser ι :=
  ⟨authToken, authUser, selectedOrg, fun _ ↦ none, []⟩

/-- What the provider of a tab sees. -/
def view (b : Browser ι) (t : Tab) : View Unit := ⟨t.organizations, t.currentOrg, b.selectedOrg⟩

/-- A tab changes. -/
def put (b : Browser ι) (i : ι) (t : Tab) : Browser ι :=
  { b with tabs := Function.update b.tabs i (some t) }

/-- The provider of a tab changes what it sees. -/
def display (b : Browser ι) (i : ι) (t : Tab) (v : View Unit) : Browser ι :=
  { b.put i { t with organizations := v.organizations, currentOrg := v.currentOrg } with
    selectedOrg := v.selectedOrg }

/-- The header `X-Org-ID` of `apiRequest`; `api-client.ts:41`. -/
def orgHeader (b : Browser ι) : Option OrgId := b.selectedOrg.filter (· ≠ "")

/-- `setAuth`; `auth-context.tsx:43`. The organizations are loaded when a session begins. -/
def setAuth (b : Browser ι) (i : ι) (t : Tab) (token user : String) : Browser ι :=
  { b with authToken := some token, authUser := some user }.put i
    { t with
      token := some token
      user := some user
      loads := if t.isAuthenticated then t.loads else t.loads + 1 }

/-- `logout`; `auth-context.tsx:50`. -/
def logout (b : Browser ι) (i : ι) (t : Tab) : Browser ι :=
  let b := { b with authToken := none, authUser := none, selectedOrg := none }
  b.display i { t with token := none, user := none } (b.view t).reset

/-- An event in an open tab. A session ends by a button that only a session shows, and only an
organization of the list can be switched to. -/
def react (b : Browser ι) (i : ι) (t : Tab) : TabEvent → Option (Browser ι)
  | .load => some (b.put i (.start b.authToken b.authUser))
  | .close => some { b with tabs := Function.update b.tabs i none }
  | .setAuth token user => some (b.setAuth i t token user)
  | .logout => if t.isAuthenticated then some (b.logout i t) else none
  | .orgsLoaded orgs =>
    if t.loads = 0 then none
    else some (b.display i { t with loads := t.loads - 1 } ((b.view t).loaded orgs))
  | .loadFailed => if t.loads = 0 then none else some (b.put i { t with loads := t.loads - 1 })
  | .switchOrg org =>
    if org ∈ t.organizations then some (b.display i t ((b.view t).switchOrg org)) else none
  | .addOrg org => some (b.display i t ((b.view t).addOrg org))
  | .removeOrg orgId => some (b.display i t ((b.view t).removeOrg orgId))
  | .send => some { b with sent := ⟨i, b.orgHeader, t.currentOrg.map Organization.id⟩ :: b.sent }

/-- An event in a tab; a closed one can only be opened. -/
def step (b : Browser ι) (e : ι × TabEvent) : Option (Browser ι) :=
  match b.tabs e.1, e.2 with
  | none, .load => some (b.put e.1 (.start b.authToken b.authUser))
  | none, _ => none
  | some t, ev => b.react e.1 t ev

/-- Every tab shows the organization that is selected, if it shows one, and every request that has
been sent carries the one on its screen. -/
structure Inv (b : Browser ι) : Prop where
  agrees : ∀ i t, b.tabs i = some t → (b.view t).Agrees
  sent : ∀ r ∈ b.sent, ∃ o, r.onScreen = some o ∧ r.orgHeader = some o

/-- An event leaves the stored selection as every other tab shows it, and no tab sends an org-scoped
request before it shows an organization. -/
def Undisturbed (b : Browser ι) (e : ι × TabEvent) : Prop :=
  (∀ b', b.step e = some b' → ∀ j, j ≠ e.1 → ∀ t o, b.tabs j = some t → t.currentOrg = some o →
    b'.selectedOrg = some o.id) ∧
  (e.2 = .send → ∀ t, b.tabs e.1 = some t → t.currentOrg ≠ none)

omit [DecidableEq ι] in
theorem start_inv (authToken authUser selectedOrg : Option String) :
    (start authToken authUser selectedOrg : Browser ι).Inv :=
  ⟨fun _ _ h ↦ (nomatch h), fun _ h ↦ (nomatch h)⟩

/-- What one tab changes: itself, and the stored selection. -/
private theorem Inv.update {b b' : Browser ι} (hi : b.Inv) {i : ι} {t' : Option Tab}
    (htabs : b'.tabs = Function.update b.tabs i t') (hsent : b'.sent = b.sent)
    (hself : ∀ t, t' = some t → (b'.view t).Agrees)
    (hothers : ∀ j, j ≠ i → ∀ t o, b.tabs j = some t → t.currentOrg = some o →
      b'.selectedOrg = some o.id) : b'.Inv where
  agrees j t ht := by
    rw [htabs] at ht
    by_cases hj : j = i
    · rw [hj, Function.update_self] at ht
      exact hself t ht
    · rw [Function.update_of_ne hj] at ht
      exact fun o ho ↦ hothers j hj t o ht ho
  sent := hsent ▸ hi.sent

theorem step_inv {b b' : Browser ι} {e : ι × TabEvent} (hi : b.Inv) (hu : b.Undisturbed e)
    (h : b.step e = some b') : b'.Inv := by
  obtain ⟨i, ev⟩ := e
  have hothers := hu.1 b' h
  have hshow {t₀ : Tab} {b₀ : Browser ι} {v : View Unit} (hb : b₀.display i t₀ v = b')
      (h₀ : b₀.tabs = b.tabs) (hs : b₀.sent = b.sent) (hv : v.Agrees) : b'.Inv := by
    subst hb
    refine hi.update (congrArg (Function.update · i _) h₀) hs ?_ hothers
    intro t ht
    cases ht
    exact hv
  have hput {t₀ : Tab} {b₀ : Browser ι} (hb : b₀.put i t₀ = b') (h₀ : b₀.tabs = b.tabs)
      (hs : b₀.sent = b.sent) (hv : (b₀.view t₀).Agrees) : b'.Inv := by
    subst hb
    refine hi.update (congrArg (Function.update · i _) h₀) hs ?_ hothers
    intro t ht
    cases ht
    exact hv
  have hstart : (b.view (.start b.authToken b.authUser)).Agrees := fun _ ho ↦ nomatch ho
  unfold step at h
  cases ht : b.tabs i with
  | none =>
    simp only [ht] at h
    cases ev with
    | load => exact hput (Option.some.inj h) rfl rfl hstart
    | _ => cases h
  | some t =>
    simp only [ht] at h
    have hv : (b.view t).Agrees := hi.agrees i t ht
    cases ev with
    | load => exact hput (Option.some.inj h) rfl rfl hstart
    | close =>
      cases h
      exact hi.update rfl rfl (fun _ ht ↦ nomatch ht) hothers
    | setAuth token user => exact hput (Option.some.inj h) rfl rfl hv
    | logout =>
      obtain ⟨-, h⟩ := Option.ite_none_right_eq_some.mp h
      exact hshow (Option.some.inj h) rfl rfl (View.Agrees.reset _)
    | orgsLoaded orgs =>
      obtain ⟨-, h⟩ := Option.ite_none_left_eq_some.mp h
      exact hshow (Option.some.inj h) rfl rfl (hv.loaded orgs)
    | loadFailed =>
      obtain ⟨-, h⟩ := Option.ite_none_left_eq_some.mp h
      exact hput (Option.some.inj h) rfl rfl hv
    | switchOrg org =>
      obtain ⟨-, h⟩ := Option.ite_none_right_eq_some.mp h
      exact hshow (Option.some.inj h) rfl rfl (View.Agrees.switchOrg _ org)
    | addOrg org => exact hshow (Option.some.inj h) rfl rfl (View.Agrees.addOrg _ org)
    | removeOrg orgId => exact hshow (Option.some.inj h) rfl rfl (View.Agrees.removeOrg _ orgId)
    | send =>
      cases h
      refine ⟨hi.agrees, fun r hr ↦ ?_⟩
      cases List.mem_cons.mp hr with
      | inr hr => exact hi.sent r hr
      | inl hr =>
        subst hr
        obtain ⟨o, ho⟩ := Option.ne_none_iff_exists'.mp (hu.2 rfl t ht)
        have hid : b.selectedOrg = some o.id := hv o ho
        refine ⟨o.id, congrArg (Option.map Organization.id) ho, ?_⟩
        show b.selectedOrg.filter (· ≠ "") = some o.id
        rw [hid]
        exact if_pos (decide_eq_true o.id_ne)

private def orgA : Organization Unit := ⟨"a", "A", "a", "admin", (), by decide⟩

private def orgB : Organization Unit := ⟨"b", "B", "b", "admin", (), by decide⟩

/-- Another tab switches to another organization before the first one sends its request. -/
private def twoTabs : List (Nat × TabEvent) :=
  [(0, .load), (0, .orgsLoaded [orgA, orgB]), (1, .load), (1, .orgsLoaded [orgA, orgB]),
    (1, .switchOrg orgB), (0, .send)]

private theorem undisturbed_alone {b : Browser ι} {i : ι} {e : TabEvent}
    (halone : ∀ j, j ≠ i → b.tabs j = none)
    (hsend : e = .send → ∀ t, b.tabs i = some t → t.currentOrg ≠ none) : b.Undisturbed (i, e) :=
  ⟨fun _ _ j hj _ _ ht ↦ (nomatch (halone j hj).symm.trans ht), hsend⟩

end Browser

end Chis.Web
