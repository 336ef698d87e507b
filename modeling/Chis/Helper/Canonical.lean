import Chis.Base.Separators
import Chis.Helper.Slug

/-!
# Slugs are canonical

`Slugify` puts every text that differs only in case, in what it leaves out and in its separators
into one form, and leaves that form alone; `pkg/helper/helper.go:12`.
-/

namespace Chis.Helper

/-- `unicode.ToLower`: the letters of ASCII by themselves, every other character by the case table
of Unicode, which takes some letters to ASCII. -/
def toLower (table : Char → Char) (c : Char) : Char := if c.toNat ≤ 127 then c.toLower else table c

/-- Spaces, underscores and hyphens, at least one of them. -/
structure IsRun (u : String) : Prop where
  ne_empty : u ≠ ""
  separators : ∀ c ∈ u.toList, c = ' ' ∨ c = '_' ∨ c = '-'

/-- Lower-case letters, digits and single hyphens between them. -/
structure Canonical (slug : String) : Prop where
  chars : ∀ c ∈ slug.toList, ('a' ≤ c ∧ c ≤ 'z') ∨ ('0' ≤ c ∧ c ≤ '9') ∨ c = '-'
  head : slug.toList.head? ≠ some '-'
  last : slug.toList.getLast? ≠ some '-'
  single : ¬ ['-', '-'] <:+: slug.toList

/-! ### The passes -/

theorem squeeze_eq_collapse (cs : List Char) : squeeze cs = Separators.collapse '-' cs := by
  unfold Separators.collapse
  induction cs using squeeze.induct with
  | case1 => rfl
  | case2 c => rfl
  | case3 c d r h ih =>
    have hcd : c = '-' ∧ d = '-' := by simpa using h
    rw [squeeze, if_pos h, ih, List.destutter_cons', List.destutter_cons',
      List.destutter'_cons_neg _ (fun ha ↦ ha hcd), hcd.1, hcd.2]
  | case4 c d r h ih =>
    have hcd : Separators.Apart '-' c d := fun ha ↦ h (by simpa using ha)
    rw [squeeze, if_neg h, ih, List.destutter_cons', List.destutter_cons',
      List.destutter'_cons_pos _ hcd]

section Passes

variable (table : Char → Char)

/-- What is left of a text before its hyphens are counted. -/
private def kept (cs : List Char) : List Char :=
  ((cs.map (toLower table)).map hyphenated).filter slugChar

private theorem slugify_eq (s : String) :
    slugify (toLower table) s = String.ofList (Separators.squash '-' (kept table s.toList)) := by
  rw [slugify, squeeze_eq_collapse]
  rfl

private theorem kept_append (cs ds : List Char) :
    kept table (cs ++ ds) = kept table cs ++ kept table ds := by
  simp only [kept, List.map_append, List.filter_append]

private theorem kept_run {cs : List Char} (h : ∀ c ∈ cs, c = ' ' ∨ c = '_' ∨ c = '-') :
    kept table cs = List.replicate cs.length '-' := by
  induction cs with
  | nil => rfl
  | cons c cs ih =>
    have htail := ih fun d hd ↦ h d (List.mem_cons_of_mem _ hd)
    rw [← List.singleton_append, kept_append, htail, List.length_append, List.length_singleton,
      Nat.add_comm, List.replicate_succ, ← List.singleton_append]
    rcases h c List.mem_cons_self with rfl | rfl | rfl <;> rfl

private theorem slugChar_iff {c : Char} :
    slugChar c = true ↔ ('a' ≤ c ∧ c ≤ 'z') ∨ ('0' ≤ c ∧ c ≤ '9') ∨ c = '-' := by
  simp [slugChar, Char.isDigit, Char.le_def, or_assoc]

/-- A character of a slug is lower case already: neither the letters of ASCII nor the table move it. -/
private theorem toLower_slugChar {c : Char} (h : slugChar c = true) : toLower table c = c := by
  have hc : c.toNat ≤ 127 ∧ ¬ (65 ≤ c.toNat ∧ c.toNat ≤ 90) := by
    rcases slugChar_iff.mp h with ⟨hlo, hhi⟩ | ⟨hlo, hhi⟩ | rfl
    · have hlo' : 97 ≤ c.toNat := hlo
      have hhi' : c.toNat ≤ 122 := hhi
      omega
    · have hlo' : 48 ≤ c.toNat := hlo
      have hhi' : c.toNat ≤ 57 := hhi
      omega
    · decide
  rw [toLower, if_pos hc.1]
  exact dif_neg hc.2

private theorem kept_slugChar {c : Char} (h : slugChar c = true) : kept table [c] = [c] := by
  have hhyphen : hyphenated c = c := by
    apply if_neg
    intro hc
    rw [Bool.or_eq_true, decide_eq_true_eq, decide_eq_true_eq] at hc
    rcases hc with rfl | rfl <;> exact absurd h (by decide)
  rw [kept, List.map_singleton, List.map_singleton, toLower_slugChar table h, hhyphen,
    List.filter_singleton, h, cond_true]

private theorem kept_slug {cs : List Char} (h : ∀ c ∈ cs, slugChar c = true) :
    kept table cs = cs := by
  induction cs with
  | nil => rfl
  | cons c cs ih =>
    rw [← List.singleton_append, kept_append, kept_slugChar table (h c List.mem_cons_self),
      ih fun d hd ↦ h d (List.mem_cons_of_mem _ hd)]

end Passes

/-! ### The slug of a text -/

section Slug

variable (table : Char → Char) (s : String)

theorem slugify_shape : Canonical (slugify (toLower table) s) := by
  have hclean := Separators.squash_clean '-' (kept table s.toList)
  have hchars := slugify_chars (toLower table) s
  constructor
  · intro c hc
    exact slugChar_iff.mp (hchars c hc)
  all_goals rw [slugify_eq, String.toList_ofList]
  · exact hclean.head
  · exact hclean.last
  · exact hclean.not_pair

theorem slugify_slugify :
    slugify (toLower table) (slugify (toLower table) s) = slugify (toLower table) s := by
  rw [slugify_eq table (slugify _ s), kept_slug table (slugify_chars _ s), slugify_eq,
    String.toList_ofList, Separators.squash_squash]

variable {u : String}

theorem slugify_run (h : IsRun u) (a b : String) :
    slugify (toLower table) (a ++ u ++ b) = slugify (toLower table) (a ++ "-" ++ b) := by
  have hne : u.toList.length ≠ 0 := fun hz ↦
    h.ne_empty (String.toList_eq_nil_iff.mp (List.eq_nil_of_length_eq_zero hz))
  obtain ⟨n, hn⟩ := Nat.exists_eq_succ_of_ne_zero hne
  have hhyphen : kept table "-".toList = ['-'] := rfl
  rw [slugify_eq, slugify_eq]
  simp only [String.toList_append, kept_append, List.append_assoc]
  rw [kept_run table h.separators, hn, Separators.squash_run, hhyphen, List.singleton_append]

theorem slugify_run_append (h : IsRun u) :
    slugify (toLower table) (u ++ s) = slugify (toLower table) s := by
  rw [slugify_eq, slugify_eq, String.toList_append, kept_append, kept_run table h.separators,
    Separators.squash_replicate_append]

theorem slugify_append_run (h : IsRun u) :
    slugify (toLower table) (s ++ u) = slugify (toLower table) s := by
  rw [slugify_eq, slugify_eq, String.toList_append, kept_append, kept_run table h.separators,
    Separators.squash_append_replicate]

/-- Slugs are canonical, whatever the text, and runs of separators in it count as one hyphen
between words and not at all at its ends. -/
theorem slugify_canonical :
    Canonical (slugify (toLower table) s) ∧
    slugify (toLower table) (slugify (toLower table) s) = slugify (toLower table) s ∧
    (∀ a u b, IsRun u → s = a ++ u ++ b →
      slugify (toLower table) (a ++ "-" ++ b) = slugify (toLower table) s) ∧
    ∀ u, IsRun u → slugify (toLower table) (u ++ s) = slugify (toLower table) s ∧
      slugify (toLower table) (s ++ u) = slugify (toLower table) s := by
  apply And.intro (slugify_shape table s)
  apply And.intro (slugify_slugify table s)
  constructor
  · intro a u b hu hs
    rw [hs, slugify_run table hu]
  · intro u hu
    exact ⟨slugify_run_append table s hu, slugify_append_run table s hu⟩

end Slug

/-- The sign for kelvin is a letter whose lower case is the `k` of ASCII. -/
private def kelvinTable (c : Char) : Char := if c = Char.ofNat 0x212A then 'k' else c

theorem kelvin_slug : IsRun " _-" ∧
    slugify (toLower kelvinTable) "4-\u212A" = slugify (toLower kelvinTable) "4 _-\u212A" ∧
    slugify (toLower kelvinTable) "4 _-\u212A" = "4-k" := by
  have hlist : " _-".toList = [' ', '_', '-'] := rfl
  have hrun : IsRun " _-" := by
    apply IsRun.mk (by decide)
    intro c hc
    simpa [hlist] using hc
  have hcanonical := slugify_canonical kelvinTable "4 _-\u212A"
  exact ⟨hrun, hcanonical.2.2.1 "4" " _-" "\u212A" hrun rfl, rfl⟩

end Chis.Helper
