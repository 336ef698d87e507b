import Chis.Base.Events
import Chis.Logs.Pages
import Chis.Web.Hooks

/-!
# The hook of the log page

`useWebhookLogs` of `web/src/features/dashboard/hooks/use-webhook-logs.ts`, with the controls of
`LogsPage`. The page number is a state of its own: an effect sets it back to 1 when a filter changes,
but not when the organization does. The stored messages do not change meanwhile.
-/

namespace Chis.Web

open Events Program Api Logs

/-! ### The hook -/

/-- A load in flight, with what the effect captured. -/
structure LogsLoad where
  org : Uuid
  page : Int
  status : String
  search : String
  cancelled : Bool
deriving DecidableEq

/-- The mounted hook. -/
structure WebhookLogs where
  /-- `currentOrg?.id` of `useOrg`, which the provider also writes to the header. -/
  currentOrg : Option Uuid
  logs : List MessageRepository.WebhookLogRow
  isLoading : Bool
  error : Option String
  page : Int
  totalPages : Int
  statusFilter : String
  search : String
  debouncedSearch : String
  /-- The timer of the debounce, with the text that it will set. -/
  timer : Option String
  loads : List LogsLoad

/-- What can happen to the hook. Rows with equal keys come in the order of `tie`. -/
inductive LogsEvent
  /-- The provider selects an organization, or none. -/
  | setOrg (org : Option Uuid)
  | setStatusFilter (status : String)
  | setSearch (text : String)
  /-- The timer of the debounce fires. -/
  | debounce
  | previous
  | next
  | loaded (l : LogsLoad) (tie : Uuid → Nat)
  | failed (l : LogsLoad) (f : Failure)

instance (status search : String) : Decidable (Legible status search) :=
  inferInstanceAs (Decidable ((_ → _) ∧ _))

/-- The answer of the server, if there is one. -/
def served (env : Env) (db : Db) (tie : Uuid → Nat) (l : LogsLoad) : Option WebhookLogsResult :=
  if Legible l.status l.search ∧ 0 ≤ offsetOf l.page 20 then
    some ⟨listed env tie l.org l.status l.search l.page 20 db,
      (matching env.lower l.org l.status l.search db).length, l.page, 20,
      totalPages (matching env.lower l.org l.status l.search db).length 20⟩
  else none

/-- The number of pages that the server counts. -/
def pagesOf (env : Env) (db : Db) (org : Uuid) (status search : String) : Int :=
  totalPages (matching env.lower org status search db).length 20

theorem served_iff {env : Env} {i : Proc} {db : Db} {l : LogsLoad} {res : WebhookLogsResult}
    (hpage : 1 ≤ l.page) : (∃ tie, served env db tie l = some res) ↔
      Fetched env i db l.org l.status l.search l.page 20 (.ok res) := by
  constructor
  · rintro ⟨tie, h⟩
    obtain ⟨hc, h⟩ := Option.ite_none_right_eq_some.mp h
    cases h
    obtain ⟨x, hf, ha⟩ := @fetched_of_tie env i db l.org l.status l.search l.page 20 tie hpage
      (by decide)
    cases ha with
    | page htie _ _ =>
      rw [htie.2] at hf
      exact hf
    | error hno => exact absurd hc hno
  · intro h
    cases h.answers hpage (by decide) with
    | @page ch _ hl ho =>
      exact ⟨ch.tie, if_pos ⟨hl, ho⟩⟩

theorem served_totalPages {env : Env} {db : Db} {tie : Uuid → Nat} {l : LogsLoad}
    {res : WebhookLogsResult} (h : served env db tie l = some res) :
    res.totalPages = pagesOf env db l.org l.status l.search := by
  obtain ⟨-, h⟩ := Option.ite_none_right_eq_some.mp h
  cases h
  rfl

namespace WebhookLogs

/-- The effect that fetches the logs; `use-webhook-logs.ts:38`. -/
def fetchLogs (s : WebhookLogs) : WebhookLogs :=
  let loads := s.loads.map fun l ↦ { l with cancelled := true }
  match s.currentOrg with
  | none => { s with loads }
  | some org =>
    { s with
      loads := ⟨org, s.page, s.statusFilter, s.debouncedSearch, false⟩ :: loads
      isLoading := true
      error := none }

/-- The page is set, and its effect runs if that changes it. -/
def setPage (s : WebhookLogs) (p : Int) : WebhookLogs :=
  if p = s.page then s else { s with page := p }.fetchLogs

/-- A filter has changed: the effects fetch the page that is set, and then set the first one. -/
def refilter (s : WebhookLogs) : WebhookLogs := s.fetchLogs.setPage 1

/-- The hook when the page is mounted. -/
def mounted (org : Option Uuid) : WebhookLogs :=
  fetchLogs ⟨org, [], true, none, 1, 1, "", "", "", some "", []⟩

/-- The response to a load. -/
def showLogs (s : WebhookLogs) (l : LogsLoad) (res : WebhookLogsResult) : WebhookLogs :=
  if l.cancelled then s
  else { s with logs := res.data, totalPages := res.totalPages, isLoading := false }

/-- The error of a load. -/
def showError (s : WebhookLogs) (l : LogsLoad) (f : Failure) : WebhookLogs :=
  if l.cancelled then s else { s with error := some f.text, isLoading := false }

/-- One event. The buttons are there when there is more than one page; `logs-page.tsx:153`. -/
def step (env : Env) (db : Db) (s : WebhookLogs) : LogsEvent → Option WebhookLogs
  | .setOrg org =>
    some (if org = s.currentOrg then s else { s with currentOrg := org }.fetchLogs)
  | .setStatusFilter status =>
    some (if status = s.statusFilter then s else { s with statusFilter := status }.refilter)
  | .setSearch text =>
    some (if text = s.search then s else { s with search := text, timer := some text })
  | .debounce =>
    s.timer.map fun text ↦
      if text = s.debouncedSearch then { s with timer := none }
      else { s with timer := none, debouncedSearch := text }.refilter
  | .previous => if 1 < s.totalPages ∧ 1 < s.page then some (s.setPage (s.page - 1)) else none
  | .next =>
    if 1 < s.totalPages ∧ s.page < s.totalPages then some (s.setPage (s.page + 1)) else none
  | .loaded l tie =>
    if l ∈ s.loads then
      (served env db tie l).map ({ s with loads := s.loads.erase l }.showLogs l)
    else none
  | .failed l f =>
    if l ∈ s.loads then some ({ s with loads := s.loads.erase l }.showError l f) else none

/-! ### Pages in range -/

/-- Organizations are switched on a page that the other one has, and the next page is asked for when
there is one under the filters that are set. -/
def InRange (env : Env) (db : Db) (s : WebhookLogs) : LogsEvent → Prop
  | .setOrg org =>
    ∀ o, org = some o → s.page ≤ max 1 (pagesOf env db o s.statusFilter s.debouncedSearch)
  | .next =>
    ∀ o, s.currentOrg = some o → s.page < pagesOf env db o s.statusFilter s.debouncedSearch
  | _ => True

/-- The load that the effect would send for an organization. -/
def loadOf (s : WebhookLogs) (org : Uuid) : LogsLoad :=
  ⟨org, s.page, s.statusFilter, s.debouncedSearch, false⟩

/-- Whatever is on its way and still wanted is for what is set; and unless something is, or an error
is shown, the logs are those of what is set. -/
structure Inv (env : Env) (db : Db) (s : WebhookLogs) : Prop where
  pos : 1 ≤ s.page
  shown : s.page ≤ max 1 s.totalPages
  inRange : ∀ o, s.currentOrg = some o →
    s.page ≤ max 1 (pagesOf env db o s.statusFilter s.debouncedSearch)
  wanted : ∀ l ∈ s.loads, l.cancelled = false → ∃ o, s.currentOrg = some o ∧ l = s.loadOf o
  timer : ∀ text, s.timer = some text → text = s.search
  idle : s.timer = none → s.debouncedSearch = s.search
  logs : ∀ o, s.currentOrg = some o → (∃ l ∈ s.loads, l.cancelled = false) ∨ s.error ≠ none ∨
    ∃ tie res, served env db tie (s.loadOf o) = some res ∧ s.logs = res.data ∧
      s.totalPages = res.totalPages

section Steps

variable {env : Env} {db : Db} {s s' : WebhookLogs}

/-- The effect wants what is set, and nothing else. -/
theorem Inv.fetchLogs (hpos : 1 ≤ s.page) (hshown : s.page ≤ max 1 s.totalPages)
    (hrange : ∀ o, s.currentOrg = some o →
      s.page ≤ max 1 (pagesOf env db o s.statusFilter s.debouncedSearch))
    (htimer : ∀ text, s.timer = some text → text = s.search)
    (hidle : s.timer = none → s.debouncedSearch = s.search) : s.fetchLogs.Inv env db := by
  have hold {l : LogsLoad} (hl : l ∈ s.loads.map fun l ↦ { l with cancelled := true }) :
      l.cancelled = true := by
    obtain ⟨_, -, rfl⟩ := List.mem_map.mp hl
    rfl
  unfold WebhookLogs.fetchLogs
  dsimp only
  split
  · next hnone =>
    refine ⟨hpos, hshown, hrange, fun l hl hc ↦ ?_, htimer, hidle, fun o ho ↦ ?_⟩
    · exact nomatch (hold hl).symm.trans hc
    · exact nomatch hnone.symm.trans ho
  · next org horg =>
    refine ⟨hpos, hshown, hrange, fun l hl hc ↦ ?_, htimer, hidle, fun o _ ↦ ?_⟩
    · cases List.mem_cons.mp hl with
      | inl he => exact ⟨org, horg, he⟩
      | inr hl => exact nomatch (hold hl).symm.trans hc
    · exact .inl ⟨_, List.mem_cons_self, rfl⟩

theorem fetchLogs_eq (s : WebhookLogs) :
    ∃ loads isLoading error, s.fetchLogs = { s with loads, isLoading, error } := by
  unfold WebhookLogs.fetchLogs
  dsimp only
  split
  · exact ⟨_, _, _, rfl⟩
  · exact ⟨_, _, _, rfl⟩

theorem Inv.setPage {p : Int} (hi : s.Inv env db) (hpos : 1 ≤ p) (hshown : p ≤ max 1 s.totalPages)
    (hrange : ∀ o, s.currentOrg = some o →
      p ≤ max 1 (pagesOf env db o s.statusFilter s.debouncedSearch)) :
    (s.setPage p).Inv env db := by
  unfold WebhookLogs.setPage
  split
  · exact hi
  · exact Inv.fetchLogs hpos hshown hrange hi.timer hi.idle

/-- After a filter has changed, only the first page is wanted. -/
theorem Inv.refilter (htimer : ∀ text, s.timer = some text → text = s.search)
    (hidle : s.timer = none → s.debouncedSearch = s.search) : s.refilter.Inv env db := by
  have hone (n : Int) : 1 ≤ max 1 n := le_max_left 1 n
  unfold WebhookLogs.refilter WebhookLogs.setPage
  obtain ⟨loads, isLoading, error, he⟩ := s.fetchLogs_eq
  split
  · next hp =>
    have hp : s.page = 1 := by
      rw [hp, he]
    apply Inv.fetchLogs _ _ _ htimer hidle <;> rw [hp]
    · exact hone _
    · exact fun _ _ ↦ hone _
  · rw [he]
    exact Inv.fetchLogs (Int.le_refl 1) (hone _) (fun _ _ ↦ hone _) htimer hidle

/-- A response arrives, and the load is no longer on its way. -/
private theorem mem_erase_wanted {l : LogsLoad} (hc : l.cancelled = true)
    (h : ∃ p ∈ s.loads, p.cancelled = false) : ∃ p ∈ s.loads.erase l, p.cancelled = false := by
  obtain ⟨p, hp, hpc⟩ := h
  have hne : p ≠ l := by
    rintro rfl
    exact nomatch hc.symm.trans hpc
  exact ⟨p, (List.mem_erase_of_ne hne).mpr hp, hpc⟩

/-- The answer to a load that was cancelled is ignored. -/
private theorem Inv.ignore {l : LogsLoad} (hi : s.Inv env db) (hc : l.cancelled = true) :
    Inv env db { s with loads := s.loads.erase l } where
  pos := hi.pos
  shown := hi.shown
  inRange := hi.inRange
  wanted p hp := hi.wanted p (List.mem_of_mem_erase hp)
  timer := hi.timer
  idle := hi.idle
  logs o ho := (hi.logs o ho).imp_left (mem_erase_wanted hc)

private theorem Inv.loaded {l : LogsLoad} {tie : Uuid → Nat} {res : WebhookLogsResult}
    (hi : s.Inv env db) (hl : l ∈ s.loads) (hres : served env db tie l = some res) :
    Inv env db ({ s with loads := s.loads.erase l }.showLogs l res) := by
  unfold WebhookLogs.showLogs
  split
  · next hc => exact hi.ignore hc
  · next hc =>
    obtain ⟨o, ho, rfl⟩ := hi.wanted l hl (Bool.eq_false_iff.mpr hc)
    have hpages := served_totalPages hres
    refine ⟨hi.pos, ?_, hi.inRange, fun p hp ↦ hi.wanted p (List.mem_of_mem_erase hp), hi.timer,
      hi.idle, fun o' ho' ↦ ?_⟩
    · show s.page ≤ max 1 res.totalPages
      rw [hpages]
      exact hi.inRange o ho
    · cases Option.some_inj.mp (ho.symm.trans ho')
      exact .inr (.inr ⟨tie, res, hres, rfl, rfl⟩)

private theorem Inv.failed {l : LogsLoad} {f : Failure} (hi : s.Inv env db) :
    Inv env db ({ s with loads := s.loads.erase l }.showError l f) := by
  unfold WebhookLogs.showError
  split
  · next hc => exact hi.ignore hc
  · exact ⟨hi.pos, hi.shown, hi.inRange, fun p hp ↦ hi.wanted p (List.mem_of_mem_erase hp),
      hi.timer, hi.idle, fun _ _ ↦ .inr (.inl (Option.some_ne_none _))⟩

theorem step_inv {e : LogsEvent} (hi : s.Inv env db) (hok : s.InRange env db e)
    (h : s.step env db e = some s') : s'.Inv env db := by
  cases e with
  | setOrg org =>
    cases h
    split
    · exact hi
    · exact Inv.fetchLogs hi.pos hi.shown hok hi.timer hi.idle
  | setStatusFilter status =>
    cases h
    split
    · exact hi
    · exact Inv.refilter hi.timer hi.idle
  | setSearch text =>
    cases h
    split
    · exact hi
    · refine ⟨hi.pos, hi.shown, hi.inRange, hi.wanted, fun t ht ↦ ?_, fun ht ↦ (nomatch ht), hi.logs⟩
      cases ht
      rfl
  | debounce =>
    obtain ⟨text, ht, h⟩ := Option.map_eq_some_iff.mp h
    have htext : text = s.search := hi.timer text ht
    subst h
    split
    · next he =>
      exact ⟨hi.pos, hi.shown, hi.inRange, hi.wanted, fun t h ↦ (nomatch h),
        fun _ ↦ he.symm.trans htext, hi.logs⟩
    · exact Inv.refilter (fun t h ↦ (nomatch h)) fun _ ↦ htext
  | previous =>
    obtain ⟨⟨-, hp⟩, h⟩ := Option.ite_none_right_eq_some.mp h
    cases h
    have hshown := hi.shown
    apply hi.setPage
    · omega
    · omega
    · intro o ho
      have hrange := hi.inRange o ho
      omega
  | next =>
    obtain ⟨⟨ht, hp⟩, h⟩ := Option.ite_none_right_eq_some.mp h
    cases h
    have hpos := hi.pos
    apply hi.setPage
    · omega
    · omega
    · intro o ho
      have hnext := hok o ho
      omega
  | loaded l tie =>
    obtain ⟨hl, h⟩ := Option.ite_none_right_eq_some.mp h
    obtain ⟨res, hres, rfl⟩ := Option.map_eq_some_iff.mp h
    exact hi.loaded hl hres
  | failed l f =>
    obtain ⟨-, h⟩ := Option.ite_none_right_eq_some.mp h
    cases h
    exact hi.failed

end Steps

theorem mounted_inv (env : Env) (db : Db) (org : Option Uuid) : (mounted org).Inv env db := by
  have hone (n : Int) : 1 ≤ max 1 n := le_max_left 1 n
  exact Inv.fetchLogs (Int.le_refl 1) (hone _) (fun _ _ ↦ hone _) (fun _ ht ↦ by cases ht; rfl)
    fun _ ↦ rfl

/-! ### At rest -/

/-- No timer and no request is outstanding, and the last request succeeded. -/
structure Rests (s : WebhookLogs) : Prop where
  timer : s.timer = none
  loads : s.loads = []
  error : s.error = none

/-- The page is one of those that there are, and the logs are that page, as the server lists it. -/
structure Shows (env : Env) (i : Proc) (db : Db) (s : WebhookLogs) : Prop where
  pos : 1 ≤ s.page
  le : s.page ≤ max 1 s.totalPages
  logs : ∀ o, s.currentOrg = some o → ∃ res : WebhookLogsResult,
    Fetched env i db o s.statusFilter s.search s.page 20 (.ok res) ∧ s.logs = res.data ∧
      s.totalPages = res.totalPages

/-- In every run whose events are in range, the hook at rest shows a page that there is. -/
theorem log_page_in_range {env : Env} {i : Proc} {db : Db} {org : Option Uuid} {s : WebhookLogs}
    (h : Run (step env db) (InRange env db) (mounted org) s) (hrest : s.Rests) :
    s.Shows env i db := by
  have hi : s.Inv env db := h.invariant (mounted_inv env db org) fun _ _ _ ↦ step_inv
  refine ⟨hi.pos, hi.shown, fun o ho ↦ ?_⟩
  cases hi.logs o ho with
  | inl hload =>
    obtain ⟨l, hl, -⟩ := hload
    rw [hrest.loads] at hl
    cases hl
  | inr hlogs =>
    obtain ⟨tie, res, hres, hdata⟩ := hlogs.resolve_left fun hne ↦ hne hrest.error
    refine ⟨res, ?_, hdata⟩
    rw [← hi.idle hrest.timer]
    exact (@served_iff env i db (s.loadOf o) res hi.pos).mp ⟨tie, hres⟩

/-! ### Another organization on the second page -/

section Samples

variable {env : Env} {db : Db} {tie : Uuid → Nat} {a b : Uuid} {r₁ r₂ r₃ : WebhookLogsResult}

/-- The next page is asked for. -/
private def turnPage (a : Uuid) (tie : Uuid → Nat) : List LogsEvent :=
  [.debounce, .loaded ⟨a, 1, "", "", false⟩ tie, .next, .loaded ⟨a, 2, "", "", false⟩ tie]

private theorem play_turnPage (h₁ : served env db tie ⟨a, 1, "", "", false⟩ = some r₁)
    (h₂ : served env db tie ⟨a, 2, "", "", false⟩ = some r₂) (hp : 1 < r₁.totalPages) :
    play (step env db) (mounted (some a)) (turnPage a tie) =
      some ⟨some a, r₂.data, false, none, 2, r₂.totalPages, "", "", "", none, []⟩ := by
  simp [play, turnPage, step, mounted, fetchLogs, setPage, showLogs, h₁, h₂, hp]

private theorem meets_turnPage (h₁ : served env db tie ⟨a, 1, "", "", false⟩ = some r₁)
    (hp : 1 < pagesOf env db a "" "") :
    Meets (step env db) (InRange env db) (mounted (some a)) (turnPage a tie) := by
  simp [Meets, turnPage, step, mounted, fetchLogs, showLogs, InRange, h₁, hp]

/-- The organization is switched on the second page. -/
private def switchLate (a b : Uuid) (tie : Uuid → Nat) : List LogsEvent :=
  turnPage a tie ++ [.setOrg (some b), .loaded ⟨b, 2, "", "", false⟩ tie]

private theorem play_switchLate (h₁ : served env db tie ⟨a, 1, "", "", false⟩ = some r₁)
    (h₂ : served env db tie ⟨a, 2, "", "", false⟩ = some r₂) (hp : 1 < r₁.totalPages)
    (h₃ : served env db tie ⟨b, 2, "", "", false⟩ = some r₃) (hab : b ≠ a) :
    play (step env db) (mounted (some a)) (switchLate a b tie) =
      some ⟨some b, r₃.data, false, none, 2, r₃.totalPages, "", "", "", none, []⟩ := by
  simp [play, switchLate, turnPage, step, mounted, fetchLogs, setPage, showLogs, h₁, h₂, h₃, hp, hab]

/-- The organization of these messages has two pages of them. -/
private def twoPages : Db :=
  { Db.empty with
    messages := ⟨(List.range 21).map fun n ↦ { Message.zero with id := ⟨Fin.ofNat _ n⟩ },
      by decide +kernel⟩ }

private theorem twoPages_pages : pagesOf sampleEnv twoPages .nil "" "" = 2 := by decide +kernel

private theorem served_plain (org : Uuid) {page : Int} (h : 0 ≤ offsetOf page 20) :
    ∃ res, served sampleEnv twoPages (fun _ ↦ 0) ⟨org, page, "", "", false⟩ = some res :=
  ⟨_, if_pos ⟨⟨fun hne ↦ absurd rfl hne, rfl⟩, h⟩⟩

/-- The second page is in range for the organization that has two. -/
theorem second_page_shown : ∃ s : WebhookLogs, s.page = 2 ∧ s.totalPages = 2 ∧
    s.Shows sampleEnv (.client 0) twoPages := by
  obtain ⟨r₁, h₁⟩ := @served_plain .nil 1 (by decide)
  obtain ⟨r₂, h₂⟩ := @served_plain .nil 2 (by decide)
  have hp₁ : r₁.totalPages = 2 := (served_totalPages h₁).trans twoPages_pages
  have hp₂ : r₂.totalPages = 2 := (served_totalPages h₂).trans twoPages_pages
  have hplay := play_turnPage h₁ h₂ (by omega)
  have hmeets := meets_turnPage h₁ (by rw [twoPages_pages]; decide)
  exact ⟨_, rfl, hp₂, log_page_in_range (Run.of_play hplay hmeets) ⟨rfl, rfl, rfl⟩⟩

/-- The other organization has no messages, and its second page is shown, as one of 0. -/
theorem page_kept_by_switch : ∃ s : WebhookLogs,
    Run (step sampleEnv twoPages) (fun _ _ ↦ True) (mounted (some .nil)) s ∧ s.Rests ∧
      s.page = 2 ∧ s.totalPages = 0 ∧ ¬ s.Shows sampleEnv (.client 0) twoPages := by
  obtain ⟨r₁, h₁⟩ := @served_plain .nil 1 (by decide)
  obtain ⟨r₂, h₂⟩ := @served_plain .nil 2 (by decide)
  obtain ⟨r₃, h₃⟩ := @served_plain ⟨1⟩ 2 (by decide)
  have hp₁ : r₁.totalPages = 2 := (served_totalPages h₁).trans twoPages_pages
  have hp₃ : r₃.totalPages = 0 := (served_totalPages h₃).trans (by decide +kernel)
  have hplay := play_switchLate h₁ h₂ (by omega) h₃ (by decide)
  refine ⟨_, Run.of_play hplay (meets_true _), ⟨rfl, rfl, rfl⟩, rfl, hp₃, fun hs ↦ ?_⟩
  have hle : (2 : Int) ≤ max 1 r₃.totalPages := hs.le
  rw [hp₃] at hle
  revert hle
  decide

end Samples

end WebhookLogs

end Chis.Web
