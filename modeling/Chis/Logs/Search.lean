import Chis.Logs.Pages
import Mathlib.Data.List.Infix

/-!
# Searching the log

The text searched for is put between two `%` and used as a pattern of `ILIKE`. It is found literally
exactly if it has no character that a pattern gives a meaning.
-/

namespace Chis

/-! ### Patterns -/

namespace MessageRepository

/-- The characters that mean something in a pattern. -/
def special : List Char := ['%', '_', '\\']

@[simp] theorem like_nil (s : List Char) : like [] s = s.isEmpty := by
  rw [like]

@[simp] theorem like_percent (p s : List Char) : like ('%' :: p) s = s.tails.any (like p) := by
  rw [like]

@[simp] theorem like_underscore (p : List Char) (d : Char) (s : List Char) :
    like ('_' :: p) (d :: s) = like p s := by
  rw [like]

@[simp] theorem like_escape (c : Char) (p : List Char) (d : Char) (s : List Char) :
    like ('\\' :: c :: p) (d :: s) = (c == d && like p s) := by
  rw [like]

theorem like_char {c : Char} (hc : c ∉ special) (p : List Char) (d : Char) (s : List Char) :
    like (c :: p) (d :: s) = (c == d && like p s) := by
  simp only [special, List.mem_cons, List.not_mem_nil, or_false, not_or] at hc
  rw [like]
  all_goals simp_all

theorem like_char_nil {c : Char} (hc : c ∉ special) (p : List Char) : like (c :: p) [] = false := by
  simp only [special, List.mem_cons, List.not_mem_nil, or_false, not_or] at hc
  rw [like]
  all_goals simp_all

/-- A final `%` is matched by whatever is left. -/
theorem like_rest (t : List Char) : like ['%'] t = true := by
  rw [like_percent, List.any_eq_true]
  exact ⟨[], (List.mem_tails _ _).mpr (List.nil_suffix), rfl⟩

/-- A leading `%` need not match anything. -/
theorem like_of_percent {p t : List Char} (h : like p t = true) : like ('%' :: p) t = true := by
  rw [like_percent, List.any_eq_true]
  exact ⟨t, (List.mem_tails _ _).mpr (List.suffix_refl t), h⟩

/-- Ordinary characters before a final `%` are those that a text begins with. -/
theorem like_front {s : List Char} (hs : ∀ c ∈ s, c ∉ special) (t : List Char) :
    like (s ++ ['%']) t = true ↔ s <+: t := by
  induction s generalizing t with
  | nil => exact iff_of_true (like_rest t) List.nil_prefix
  | cons c s ih =>
    obtain ⟨hc, hs⟩ := List.forall_mem_cons.mp hs
    cases t with
    | nil =>
      rw [List.cons_append, like_char_nil hc]
      simp
    | cons d t =>
      rw [List.cons_append, like_char hc, Bool.and_eq_true, beq_iff_eq, ih hs t,
        List.cons_prefix_cons]

/-- Between two `%` they are found wherever they are. -/
theorem like_infix {s : List Char} (hs : ∀ c ∈ s, c ∉ special) (t : List Char) :
    like ('%' :: (s ++ ['%'])) t = true ↔ s <:+: t := by
  rw [like_percent, List.any_eq_true, List.infix_iff_prefix_suffix]
  constructor
  · rintro ⟨t', ht', h⟩
    exact ⟨t', (like_front hs t').mp h, (List.mem_tails _ _).mp ht'⟩
  · rintro ⟨t', h, ht'⟩
    exact ⟨t', (List.mem_tails _ _).mpr ht', (like_front hs t').mpr h⟩

/-- A short text that a pattern with a final `%` matches. -/
def shortest : List Char → List Char
  | [] => []
  | '%' :: p => shortest p
  | '_' :: p => 'a' :: shortest p
  | ['\\'] => ['%']
  | '\\' :: c :: p => c :: shortest p
  | c :: p => c :: shortest p

private theorem ordinary {c : Char} {p : List Char} (h₁ : c = '%' → False) (h₂ : c = '_' → False)
    (h₃ : c = '\\' → p = [] → False) (h₄ : ∀ d q, c = '\\' → p = d :: q → False) :
    c ∉ special := by
  simp only [special, List.mem_cons, List.not_mem_nil, or_false, not_or]
  refine ⟨h₁, h₂, fun hb ↦ ?_⟩
  cases p with
  | nil => exact h₃ hb rfl
  | cons d q => exact h₄ d q hb rfl

theorem like_shortest (s : List Char) : like (s ++ ['%']) (shortest s) = true := by
  fun_induction shortest s with
  | case1 => exact like_rest []
  | case2 p ih => exact like_of_percent ih
  | case3 p ih => exact ih
  | case4 => rfl
  | case5 c p ih =>
    rw [List.cons_append, List.cons_append, like_escape, ih, beq_self_eq_true]
    rfl
  | case6 c p h₁ h₂ h₃ h₄ ih =>
    rw [List.cons_append, like_char (ordinary h₁ h₂ h₃ h₄), ih, beq_self_eq_true]
    rfl

/-- It is shorter than the pattern, or another text, unless the pattern has ordinary characters
only. -/
theorem shortest_eq_iff (s : List Char) :
    (shortest s).length ≤ s.length ∧ (shortest s = s → ∀ c ∈ s, c ∉ special) := by
  fun_induction shortest s with
  | case1 => exact ⟨Nat.le_refl _, fun _ c hc ↦ (nomatch hc)⟩
  | case2 p ih =>
    rw [List.length_cons]
    refine ⟨by omega, fun he ↦ ?_⟩
    have hlen := congrArg List.length he
    rw [List.length_cons] at hlen
    omega
  | case3 p ih =>
    rw [List.length_cons, List.length_cons]
    exact ⟨by omega, fun he ↦ by cases he⟩
  | case4 => exact ⟨Nat.le_refl _, fun he ↦ by cases he⟩
  | case5 c p ih =>
    rw [List.length_cons, List.length_cons, List.length_cons]
    refine ⟨by omega, fun he ↦ ?_⟩
    have hlen := congrArg List.length he
    rw [List.length_cons, List.length_cons, List.length_cons] at hlen
    omega
  | case6 c p h₁ h₂ h₃ h₄ ih =>
    rw [List.length_cons, List.length_cons]
    exact ⟨by omega, fun he ↦
      List.forall_mem_cons.mpr ⟨ordinary h₁ h₂ h₃ h₄, ih.2 (List.cons.inj he).2⟩⟩

/-- A pattern with a special character matches a text that does not contain it. -/
theorem shortest_not_infix {s : List Char} (h : ¬ ∀ c ∈ s, c ∉ special) : ¬ s <:+: shortest s := by
  intro hin
  obtain ⟨hle, heq⟩ := shortest_eq_iff s
  exact h (heq (hin.eq_of_length (Nat.le_antisymm hin.length_le hle)).symm)

/-- Its characters are those of the pattern, and two more. -/
theorem mem_shortest {s : List Char} {c : Char} (h : c ∈ shortest s) :
    c ∈ s ∨ c = 'a' ∨ c = '%' := by
  fun_induction shortest s with
  | case1 => cases h
  | case2 p ih => exact (ih h).imp_left (List.mem_cons_of_mem _)
  | case3 p ih =>
    rcases List.mem_cons.mp h with rfl | h
    · exact .inr (.inl rfl)
    · exact (ih h).imp_left (List.mem_cons_of_mem _)
  | case4 => exact .inr (.inr (List.mem_singleton.mp h))
  | case5 d p ih =>
    rcases List.mem_cons.mp h with rfl | h
    · exact .inl (by simp)
    · exact (ih h).imp_left fun hc ↦ List.mem_cons_of_mem _ (List.mem_cons_of_mem _ hc)
  | case6 d p _ _ _ _ ih =>
    rcases List.mem_cons.mp h with rfl | h
    · exact .inl List.mem_cons_self
    · exact (ih h).imp_left (List.mem_cons_of_mem _)

end MessageRepository

/-! ### Searches -/

namespace Logs

open Program Api MessageRepository

/-- `lower` of Postgres: it gives the lower case of letters and leaves every other character as it
is. -/
structure LowerCase (lower : Char → Char) : Prop where
  idem : ∀ c, lower (lower c) = lower c
  ascii : ∀ c, c.toNat < 128 → lower c = c.toLower
  letters : ∀ c, lower c ∈ special → lower c = c

/-- The URL contains the text, ignoring letter case. -/
def Contains (lower : Char → Char) (search url : String) : Prop :=
  search.toList.map lower <:+: url.toList.map lower

instance (lower : Char → Char) (search url : String) : Decidable (Contains lower search url) :=
  inferInstanceAs (Decidable (_ <:+: _))

/-- The messages of the organization whose URL contains the text. -/
def containing (lower : Char → Char) (orgID : Uuid) (search : String) (db : Db) : List Message :=
  db.messages.rows.filter fun m ↦ m.orgID = orgID ∧ Contains lower search m.url

/-- Calls for a search count these messages, and list them over all pages, as long as all calls order
messages of one time alike. -/
structure Literal (env : Env) (i : Proc) (orgID : Uuid) (search : String) (db : Db) : Prop where
  counted : ∀ page limit x, 1 ≤ page → 1 ≤ limit ∧ limit ≤ 100 → (page - 1) * limit < 2 ^ 63 →
    Fetched env i db orgID "" search page limit x →
    ∃ res, x = .ok res ∧ res.total = (containing env.lower orgID search db).length
  listed : ∀ (tie : Uuid → Nat) (limit pages : Nat), 1 ≤ limit ∧ limit ≤ 100 →
    (pages : Int) = pageCount (containing env.lower orgID search db).length limit →
    ∀ res : Nat → WebhookLogsResult,
      (∀ n : Nat, n < pages → ∃ w w', w.db = db ∧
        (findWebhookLogs orgID "" search (n + 1) limit).Runs
          (World.Exec env.toPlatform (fun ch ↦ ch.fail = false ∧ ch.tie = tie) i) w (.ok (res n)) w') →
      ((List.range pages).flatMap fun n ↦ (res n).data.map fun row ↦ row.id).Perm
        ((containing env.lower orgID search db).map Message.id)

section Search

variable {env : Env} {i : Proc} {orgID : Uuid} {search : String} {db : Db}

private theorem lower_special {lower : Char → Char} (h : LowerCase lower) {c : Char}
    (hc : c ∈ special) : lower c = c := by
  have hs : c.toNat < 128 ∧ c.toLower = c := by
    simp only [special, List.mem_cons, List.not_mem_nil, or_false] at hc
    rcases hc with rfl | rfl | rfl <;> decide
  rw [h.ascii c hs.1, hs.2]

private theorem lowered_special {lower : Char → Char} (h : LowerCase lower) {s : List Char} :
    (∀ c ∈ s.map lower, c ∉ special) ↔ ∀ c ∈ s, c ∉ special := by
  rw [List.forall_mem_map]
  refine forall₂_congr fun c _ ↦ not_congr ⟨fun hc ↦ ?_, fun hc ↦ ?_⟩
  · rwa [← h.letters c hc]
  · rwa [lower_special h hc]

private theorem pattern_lowered {lower : Char → Char} (h : LowerCase lower) :
    ("%" ++ search ++ "%").toList.map lower = '%' :: (search.toList.map lower ++ ['%']) := by
  have hp : lower '%' = '%' := lower_special h (by decide)
  simp [hp]

/-- An ordinary text is searched for literally. -/
theorem matching_containing (h : LowerCase env.lower) (hsearch : search ≠ "")
    (hs : ∀ c ∈ search.toList, c ∉ special) :
    matching env.lower orgID "" search db = containing env.lower orgID search db := by
  refine List.filter_congr fun m _ ↦ decide_eq_decide.mpr ?_
  unfold Matches Contains
  rw [pattern_lowered h, like_infix ((lowered_special h).mpr hs)]
  simp [hsearch]

/-- A text with a special character is found where it is not. -/
theorem exists_found (h : LowerCase env.lower)
    (hs : ¬ ∀ c ∈ search.toList, c ∉ special) :
    ∃ m : Message, m.orgID = orgID ∧ Matches env.lower orgID "" search m ∧
      ¬ Contains env.lower search m.url := by
  have hp := lower_special h (show '%' ∈ special by decide)
  have ha : env.lower 'a' = 'a' := h.ascii 'a' (by decide)
  let url := shortest (search.toList.map env.lower)
  have hurl : (String.ofList url).toList.map env.lower = url := by
    rw [String.toList_ofList]
    conv_rhs => rw [← List.map_id url]
    refine List.map_congr_left fun c hc ↦ ?_
    rcases mem_shortest hc with hc | rfl | rfl
    · obtain ⟨d, -, rfl⟩ := List.mem_map.mp hc
      exact h.idem d
    · exact ha
    · exact hp
  refine ⟨{ Message.zero with orgID := orgID, url := String.ofList url }, rfl,
    ⟨rfl, .inl rfl, .inr ?_⟩, ?_⟩
  · rw [pattern_lowered h, hurl]
    exact like_of_percent (like_shortest _)
  · unfold Contains
    rw [hurl]
    exact shortest_not_infix fun hall ↦ hs ((lowered_special h).mp hall)

theorem literal_of_plain (h : LowerCase env.lower) (hsearch : search ≠ "")
    (htext : textOk search = true) (hs : ∀ c ∈ search.toList, c ∉ special) (hfits : Fits db) :
    Literal env i orgID search db := by
  have hsame : matching env.lower orgID "" search db = containing env.lower orgID search db :=
    matching_containing h hsearch hs
  have hlegible : Legible "" search := ⟨fun hne ↦ absurd rfl hne, htext⟩
  constructor
  · intro page limit x hpage hlimit hrange hx
    have hnonneg : 0 ≤ (page - 1) * limit := Int.mul_nonneg (by omega) (by omega)
    cases hx.answers hpage hlimit.1 with
    | page => exact ⟨_, rfl, by rw [hsame]⟩
    | error hno =>
      refine absurd ⟨hlegible, ?_⟩ hno
      rw [(offsetOf_eq_iff hnonneg).mpr hrange]
      exact hnonneg
  · intro tie limit pages hlimit hpages res hres
    rw [← hsame] at hpages ⊢
    have hlength : (matching env.lower orgID "" search db).length < 2 ^ 63 := by
      have hle := List.length_filter_le
        (fun m ↦ decide (Matches env.lower orgID "" search m)) db.messages.rows
      unfold Fits at hfits
      unfold matching
      omega
    have hdata (n : Nat) (hn : n ∈ List.range pages) : ((res n).data.map fun row ↦ row.id) =
        (Paging.page limit n (orderBy logKey (fun m ↦ tie m.id)
          (matching env.lower orgID "" search db))).map Message.id := by
      have hn := List.mem_range.mp hn
      obtain ⟨w, w', hw, hrun⟩ := hres n hn
      have hanswer := (hrun.post
        (findWebhookLogs_answers (fun _ ha ↦ ha.1) (by omega) (by omega))).2
      rw [hw] at hanswer
      generalize hx : Except.ok (res n) = x at hanswer
      cases hanswer with
      | @page ch hch =>
        rw [Except.ok.inj hx, ← hch.2]
        exact listed_ids ((lt_of_pageCount (by omega) hpages hn).trans hlength)
      | error => cases hx
    rw [List.flatMap_congr hdata, flatMap_ids, Paging.flatMap_page]
    refine List.Perm.map _ ?_
    rw [List.take_of_length_le]
    · exact orderBy_perm _ _ _
    · rw [(orderBy_perm _ _ _).length_eq]
      exact le_pageCount (by omega) hpages

end Search

/-! ### Samples -/

private theorem toLower_range (c : Char) :
    c.toLower = c ∨ 97 ≤ c.toLower.toNat ∧ c.toLower.toNat ≤ 122 := by
  delta Char.toLower
  split
  · next h =>
    right
    obtain ⟨h₁, h₂⟩ := h
    rw [ge_iff_le, UInt32.le_iff_toNat_le] at h₁
    rw [UInt32.le_iff_toNat_le] at h₂
    change 65 ≤ c.val.toNat at h₁
    change c.val.toNat ≤ 90 at h₂
    have hn : (c.val + 32).toNat = c.val.toNat + 32 := by
      rw [UInt32.toNat_add]
      exact Nat.mod_eq_of_lt (by change c.val.toNat + 32 < _; omega)
    change 97 ≤ (c.val + 32).toNat ∧ (c.val + 32).toNat ≤ 122
    omega
  · exact .inl rfl

private theorem toLower_above {c : Char} (h : 90 < c.toNat) : c.toLower = c := by
  delta Char.toLower
  rw [dif_neg]
  rintro ⟨-, h₂⟩
  rw [UInt32.le_iff_toNat_le] at h₂
  change c.toNat ≤ 90 at h₂
  omega

/-- Lower case of ASCII letters alone will do. -/
theorem lowerCase_ascii : LowerCase sampleEnv.lower := by
  refine ⟨fun c ↦ ?_, fun c _ ↦ rfl, fun c hc ↦ ?_⟩
  · change c.toLower.toLower = c.toLower
    rcases toLower_range c with h | h
    · rw [h, h]
    · exact toLower_above (by omega)
  · change c.toLower ∈ special at hc
    rcases toLower_range c with h | h
    · exact h
    · simp only [special, List.mem_cons, List.not_mem_nil, or_false] at hc
      rcases hc with hc | hc | hc
      · exact absurd h (by rw [hc]; decide)
      · exact absurd h (by rw [hc]; decide)
      · exact absurd h (by rw [hc]; decide)

/-- A log with one message. -/
def oneMessage : Db :=
  { Db.empty with
    messages := ⟨[{ Message.zero with id := ⟨1⟩, url := "https://h.io/axb" }], by decide⟩ }

end Logs

end Chis
