import Mathlib.Data.List.Basic

/-!
# Slugs

`Slugify`; `pkg/helper/helper.go:12`.
-/

namespace Chis.Helper

/-- The characters that the expression `[^a-z0-9-]` keeps. -/
def slugChar (c : Char) : Bool := ('a' ≤ c && c ≤ 'z') || c.isDigit || c = '-'

/-- `strings.ReplaceAll` of spaces and of underscores by hyphens. -/
def hyphenated (c : Char) : Char := if c = ' ' || c = '_' then '-' else c

/-- Every run of hyphens becomes one. -/
def squeeze : List Char → List Char
  | [] => []
  | [c] => [c]
  | c :: d :: r => if c = '-' && d = '-' then squeeze (d :: r) else c :: squeeze (d :: r)

/-- `strings.Trim(s, "-")`. -/
def trimHyphens (cs : List Char) : List Char :=
  ((cs.dropWhile (· = '-')).reverse.dropWhile (· = '-')).reverse

/-- `Slugify`. `toLower` is the lower case of one character, by `unicode.ToLower`. -/
def slugify (toLower : Char → Char) (s : String) : String :=
  String.ofList (trimHyphens (squeeze (((s.toList.map toLower).map hyphenated).filter slugChar)))

example : slugify Char.toLower "  Anna_Lee's  Workspace " = "anna-lees-workspace" := rfl

/-! ### What a slug consists of -/

theorem squeeze_subset (cs : List Char) : squeeze cs ⊆ cs := by
  induction cs using squeeze.induct with
  | case1 => exact List.Subset.refl _
  | case2 c => exact List.Subset.refl _
  | case3 c d r h ih =>
    rw [squeeze, if_pos h]
    exact List.Subset.trans ih (List.subset_cons_self _ _)
  | case4 c d r h ih =>
    rw [squeeze, if_neg h]
    exact List.cons_subset_cons _ ih

theorem trimHyphens_subset (cs : List Char) : trimHyphens cs ⊆ cs := by
  intro c hc
  have hc' := (List.dropWhile_sublist _).subset (List.mem_reverse.mp hc)
  exact (List.dropWhile_sublist _).subset (List.mem_reverse.mp hc')

/-- Every character of a slug is one that is kept. -/
theorem slugify_chars (toLower : Char → Char) (s : String) :
    ∀ c ∈ (slugify toLower s).toList, slugChar c = true := by
  intro c hc
  rw [slugify, String.toList_ofList] at hc
  exact (List.mem_filter.mp (squeeze_subset _ (trimHyphens_subset _ hc))).2

end Chis.Helper
