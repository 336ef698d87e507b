import Chis.Base.Events
import Chis.Web.Providers

/-!
# Sessions of one browser

Users sign in and out, one after the other. The provider loads the organizations of a session once;
the pages accept invitations and create and delete organizations meanwhile. The server handles a
request at some time after it was sent, and its response arrives at some time after that.
-/

namespace Chis.Web

/-- The user that a token is for. -/
abbrev UserId := String

/-- A membership. The organization comes with the role of this user. -/
structure Member where
  user : UserId
  org : Organization Unit
deriving DecidableEq

/-- What a request is for. -/
inductive Purpose
  /-- `fetchOrganizations`, by the effect of the provider. -/
  | load
  /-- `acceptInvitation`, by `AcceptInvitePage`, to an organization. -/
  | acceptPage (org : OrgId)
  /-- `respondToInvitation`, by `PendingInvitationsDialog`. -/
  | respond (org : OrgId)
  | create
  | delete (org : OrgId)
deriving DecidableEq

/-- The answer of the server. -/
inductive Reply
  | organizations (orgs : List (Organization Unit))
  | joined (org : Organization Unit)
  | deleted
  | failed
deriving DecidableEq

/-- A request whose response has not arrived. -/
structure Request where
  /-- The session in which it was sent. -/
  session : Nat
  /-- The user of its token. -/
  user : UserId
  purpose : Purpose
  /-- The variable of the effect of `AcceptInvitePage`. -/
  cancelled : Bool
  /-- The answer, once the server has handled it. -/
  reply : Option Reply
deriving DecidableEq

/-- The server, the browser and the requests between them. -/
structure Client where
  members : List Member
  /-- The ids that organizations have had. -/
  issued : List OrgId
  /-- The number of sessions so far. -/
  session : Nat
  /-- The user who is signed in. -/
  user : Option UserId
  view : View Nat
  requests : List Request

/-- What the server does with a request. -/
inductive Outcome
  | serves
  /-- A membership of the user, with the organization of the response. -/
  | joins (org : Organization Unit)
  | fails

/-- What can happen. -/
inductive SessionEvent
  | login (user : UserId)
  | logout
  /-- `AcceptInvitePage` is left. -/
  | leavePage
  | ask (p : Purpose)
  | switchOrg (org : Organization Nat)
  | handle (r : Request) (o : Outcome)
  | receive (r : Request)

/-- An organization, with the session in which it was fetched. -/
def fetched (session : Nat) (o : Organization Unit) : Organization Nat :=
  ⟨o.id, o.name, o.slug, o.role, session, o.id_ne⟩

/-- The effect of the accept page is cleaned up. -/
def Request.leave (r : Request) : Request :=
  match r.purpose with
  | .acceptPage _ => { r with cancelled := true }
  | _ => r

namespace Client

/-- The user is a member of the organization. -/
def Has (s : Client) (u : UserId) (x : OrgId) : Prop := ∃ m ∈ s.members, m.user = u ∧ m.org.id = x

instance (s : Client) (u : UserId) (x : OrgId) : Decidable (s.Has u x) :=
  inferInstanceAs (Decidable (∃ m ∈ s.members, m.user = u ∧ m.org.id = x))

/-- Somebody is. -/
def Alive (s : Client) (x : OrgId) : Prop := ∃ m ∈ s.members, m.org.id = x

instance (s : Client) (x : OrgId) : Decidable (s.Alive x) :=
  inferInstanceAs (Decidable (∃ m ∈ s.members, m.org.id = x))

/-- A request gets its answer. -/
def answer (s : Client) (r : Request) (reply : Reply) : Client :=
  { s with requests := { r with reply := some reply } :: s.requests.erase r }

/-- The server handles a request. An organization can be joined while it has members, by somebody who
is not one of them; a new one has a new id; one is deleted by a member, with all its memberships. -/
def handle (s : Client) (r : Request) : Outcome → Option Client
  | .fails => some (s.answer r .failed)
  | .joins org =>
    let s' := { s with members := ⟨r.user, org⟩ :: s.members }.answer r (.joined org)
    match r.purpose with
    | .acceptPage x | .respond x =>
      if org.id = x ∧ s.Alive x ∧ ¬ s.Has r.user x then some s' else none
    | .create => if org.id ∈ s.issued then none else some { s' with issued := org.id :: s.issued }
    | _ => none
  | .serves =>
    match r.purpose with
    | .load =>
      some (s.answer r (.organizations ((s.members.filter fun m ↦ m.user = r.user).map Member.org)))
    | .delete x =>
      if s.Has r.user x then
        some ({ s with members := s.members.filter fun m ↦ m.org.id ≠ x }.answer r .deleted)
      else none
    | _ => none

/-- What the browser does with a response. -/
def react (v : View Nat) (r : Request) : View Nat :=
  match r.purpose, r.reply with
  | .load, some (.organizations orgs) => v.loaded (orgs.map (fetched r.session))
  | .acceptPage _, some (.joined org) =>
    if r.cancelled then v else v.addOrg (fetched r.session org)
  | .respond _, some (.joined org) => v.addOrg (fetched r.session org)
  | .create, some (.joined org) => v.addOrg (fetched r.session org)
  | .delete x, some .deleted => v.removeOrg x
  | _, _ => v

/-- One event. A session is begun when none is, and its pages send the requests. -/
def step (s : Client) : SessionEvent → Option Client
  | .login u =>
    if s.user = none then
      some { s with
        session := s.session + 1
        user := some u
        requests := ⟨s.session + 1, u, .load, false, none⟩ :: s.requests }
    else none
  | .logout =>
    if s.user = none then none
    else
      some { s with
        user := none
        view := { s.view.reset with selectedOrg := none }
        requests := s.requests.map Request.leave }
  | .leavePage => some { s with requests := s.requests.map Request.leave }
  | .ask p =>
    match s.user with
    | none => none
    | some u =>
      if p = .load then none
      else some { s with requests := ⟨s.session, u, p, false, none⟩ :: s.requests }
  | .switchOrg org =>
    if org ∈ s.view.organizations then some { s with view := s.view.switchOrg org } else none
  | .handle r o => if r ∈ s.requests ∧ r.reply = none then s.handle r o else none
  | .receive r =>
    if r ∈ s.requests ∧ r.reply ≠ none then
      some { s with view := react s.view r, requests := s.requests.erase r }
    else none

/-- A browser without a session, before a server with members. -/
def start (members : List Member) (selectedOrg : Option OrgId) : Client :=
  ⟨members, members.map fun m ↦ m.org.id, 0, none, ⟨[], none, selectedOrg⟩, []⟩

end Client

end Chis.Web
