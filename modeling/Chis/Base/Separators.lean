import Mathlib.Data.List.Destutter
import Mathlib.Data.List.DropRight

/-!
# Lists of words between single separators

`squash` leaves one separator between the words of a list, and none at its ends: its results are
the lists it leaves alone, and every run of separators counts as one.
-/

namespace Separators

variable {α : Type}

/-- Of two neighbours, at most one is a separator. -/
def Apart (x a b : α) : Prop := ¬ (a = x ∧ b = x)

private theorem not_apart_self {x : α} : ¬ Apart x x x := fun h ↦ h ⟨rfl, rfl⟩

/-- Single separators, and none at the ends. -/
structure Clean (x : α) (l : List α) : Prop where
  head : l.head? ≠ some x
  last : l.getLast? ≠ some x
  chain : l.IsChain (Apart x)

/-- In a clean list no separator follows another. -/
theorem Clean.not_pair {x : α} {l : List α} (h : Clean x l) : ¬ [x, x] <:+: l := by
  intro hp
  have hpair : [x, x].IsChain (Apart x) := List.IsChain.infix h.chain hp
  exact not_apart_self (List.isChain_pair.mp hpair)

variable [DecidableEq α]

instance (x : α) : DecidableRel (Apart x) := fun _ _ ↦ inferInstanceAs (Decidable (¬ _))

/-- Every run of separators becomes one. -/
def collapse (x : α) (l : List α) : List α := l.destutter (Apart x)

/-- No separator at the ends. -/
def trim (x : α) (l : List α) : List α :=
  ((l.dropWhile (· = x)).reverse.dropWhile (· = x)).reverse

/-- One separator between words. -/
def squash (x : α) (l : List α) : List α := trim x (collapse x l)

/-! ### Runs -/

section Runs

variable {x : α}

private theorem destutter'_double (a b : List α) (c : α) :
    (a ++ x :: x :: b).destutter' (Apart x) c = (a ++ x :: b).destutter' (Apart x) c := by
  induction a generalizing c with
  | nil =>
    rw [List.nil_append, List.nil_append]
    by_cases h : Apart x c x
    · rw [List.destutter'_cons_pos _ h, List.destutter'_cons_pos _ h,
        List.destutter'_cons_neg _ not_apart_self]
    · rw [List.destutter'_cons_neg _ h]
  | cons d a ih =>
    rw [List.cons_append, List.cons_append, List.destutter'_cons, List.destutter'_cons, ih, ih]

theorem collapse_double (a b : List α) :
    collapse x (a ++ x :: x :: b) = collapse x (a ++ x :: b) := by
  unfold collapse
  cases a with
  | nil =>
    rw [List.nil_append, List.nil_append, List.destutter_cons', List.destutter_cons',
      List.destutter'_cons_neg _ not_apart_self]
  | cons c a =>
    rw [List.cons_append, List.cons_append, List.destutter_cons', List.destutter_cons',
      destutter'_double]

/-- A run of separators counts as one. -/
theorem collapse_run (a b : List α) (n : Nat) :
    collapse x (a ++ (List.replicate (n + 1) x ++ b)) = collapse x (a ++ x :: b) := by
  induction n with
  | zero => rfl
  | succ n ih =>
    rw [List.replicate_succ, List.replicate_succ, List.cons_append, List.cons_append,
      collapse_double, ← List.cons_append, ← List.replicate_succ, ih]

theorem squash_run (a b : List α) (n : Nat) :
    squash x (a ++ (List.replicate (n + 1) x ++ b)) = squash x (a ++ x :: b) := by
  rw [squash, collapse_run, squash]

end Runs

/-! ### Ends -/

section Ends

variable {x : α}

theorem trim_eq_rdropWhile (l : List α) :
    trim x l = (l.dropWhile (· = x)).rdropWhile (· = x) := rfl

private theorem trim_cons (l : List α) : trim x (x :: l) = trim x l := by
  rw [trim, List.dropWhile_cons_of_pos (by simp), trim]

private theorem trim_concat (l : List α) : trim x (l ++ [x]) = trim x l := by
  rw [trim_eq_rdropWhile, trim_eq_rdropWhile, List.dropWhile_append]
  split
  · next h =>
    rw [List.isEmpty_iff.mp h, List.dropWhile_cons_of_pos (by simp), List.dropWhile_nil]
  · rw [List.rdropWhile_concat_pos _ _ _ (by simp)]

private theorem collapse_cons (l : List α) :
    collapse x (x :: l) = collapse x l ∨ collapse x (x :: l) = x :: collapse x l := by
  unfold collapse
  cases l with
  | nil => exact .inr rfl
  | cons c l =>
    rw [List.destutter_cons', List.destutter_cons']
    by_cases h : Apart x x c
    · exact .inr (List.destutter'_cons_pos _ h)
    · have hc : c = x := by
        by_contra hc
        exact h fun hx ↦ hc hx.2
      rw [hc]
      exact .inl (List.destutter'_cons_neg _ not_apart_self)

private theorem destutter'_concat (l : List α) (c : α) :
    (l ++ [x]).destutter' (Apart x) c = l.destutter' (Apart x) c ∨
      (l ++ [x]).destutter' (Apart x) c = l.destutter' (Apart x) c ++ [x] := by
  induction l generalizing c with
  | nil =>
    rw [List.nil_append, List.destutter'_singleton, List.destutter'_nil]
    split
    · exact .inr rfl
    · exact .inl rfl
  | cons d l ih =>
    rw [List.cons_append, List.destutter'_cons, List.destutter'_cons]
    split
    · apply (ih d).imp
      · exact congrArg (c :: ·)
      · exact congrArg (c :: ·)
    · exact ih c

private theorem collapse_concat (l : List α) :
    collapse x (l ++ [x]) = collapse x l ∨ collapse x (l ++ [x]) = collapse x l ++ [x] := by
  unfold collapse
  cases l with
  | nil => exact .inr rfl
  | cons c l => exact destutter'_concat l c

/-- A run of separators before a list does not count. -/
theorem squash_replicate_append (n : Nat) (l : List α) :
    squash x (List.replicate n x ++ l) = squash x l := by
  induction n with
  | zero => rfl
  | succ n ih =>
    rw [List.replicate_succ, List.cons_append, ← ih]
    unfold squash
    cases collapse_cons (x := x) (List.replicate n x ++ l) with
    | inl h => rw [h]
    | inr h => rw [h, trim_cons]

/-- Nor does one after it. -/
theorem squash_append_replicate (n : Nat) (l : List α) :
    squash x (l ++ List.replicate n x) = squash x l := by
  induction n with
  | zero => rw [List.replicate_zero, List.append_nil]
  | succ n ih =>
    rw [List.replicate_succ', ← List.append_assoc, ← ih]
    unfold squash
    cases collapse_concat (x := x) (l ++ List.replicate n x) with
    | inl h => rw [h]
    | inr h => rw [h, trim_concat]

end Ends

/-! ### Results -/

section Results

variable (x : α) (l : List α)

/-- What `squash` gives is clean. -/
theorem squash_clean : Clean x (squash x l) := by
  obtain ⟨t, ht⟩ := List.rdropWhile_prefix (· = x) ((collapse x l).dropWhile (· = x))
  constructor
  · intro h
    -- the first element is that of the list trimmed at its front only
    have hfront : ((collapse x l).dropWhile (· = x)).head? = some x := by
      rw [← ht, ← trim_eq_rdropWhile, ← squash, List.head?_append, h, Option.some_or]
    have hnot := List.head?_dropWhile_not (· = x) (collapse x l)
    rw [hfront] at hnot
    exact of_decide_eq_false hnot rfl
  · intro h
    have hne : squash x l ≠ [] := by
      intro he
      rw [he] at h
      exact nomatch h
    have hlast := (List.getLast_eq_iff_getLast?_eq_some hne).mpr h
    exact List.rdropWhile_last_not _ _ hne (decide_eq_true hlast)
  · have hback : squash x l <+: (collapse x l).dropWhile (· = x) := ⟨t, ht⟩
    apply List.IsChain.infix (List.isChain_destutter (Apart x) l)
    exact hback.isInfix.trans (List.dropWhile_suffix _).isInfix

end Results

variable {x : α} {l : List α}

/-- A clean list is left alone. -/
theorem Clean.squash_eq (h : Clean x l) : squash x l = l := by
  have hfront : l.dropWhile (· = x) = l := by
    cases l with
    | nil => rfl
    | cons c l =>
      apply List.dropWhile_cons_of_neg
      intro hc
      exact h.head (congrArg some (of_decide_eq_true hc))
  have hback : l.rdropWhile (· = x) = l := by
    rw [List.rdropWhile_eq_self_iff]
    intro hne hc
    apply h.last
    rw [List.getLast?_eq_some_getLast hne, of_decide_eq_true hc]
  rw [squash, collapse, List.destutter_of_isChain _ _ h.chain, trim_eq_rdropWhile, hfront, hback]

theorem squash_squash (x : α) (l : List α) : squash x (squash x l) = squash x l :=
  (squash_clean x l).squash_eq

end Separators
