import Mathlib.Data.List.Perm.Basic
import Mathlib.Data.List.Nodup
import Mathlib.Tactic.Ring

/-!
# Pages of a list that is sorted anew for each page

Rows are sorted by a key, and rows with equal keys come in any order, another one for each page. The
pages partition the rows, however they are sorted, exactly if no page ends between two rows of one
key: `pages_iff`.
-/

namespace Paging

variable {ρ : Type}

/-- The rows in an order that the key allows. -/
structure Ordered (key : ρ → Int) (rows l : List ρ) : Prop where
  perm : l.Perm rows
  sorted : l.Pairwise fun a b ↦ key a ≤ key b

/-- Page `n`, counted from 0. -/
def page (limit n : Nat) (l : List ρ) : List ρ := (l.drop (n * limit)).take limit

/-- How many rows have a smaller key. -/
def below (key : ρ → Int) (rows : List ρ) (k : Int) : Nat := rows.countP fun r ↦ key r < k

/-- How many rows have a key that is no larger. -/
def upTo (key : ρ → Int) (rows : List ρ) (k : Int) : Nat := rows.countP fun r ↦ key r ≤ k

/-- The rows of one key are on one page: no page ends between them. -/
def Whole (key : ρ → Int) (rows : List ρ) (limit : Nat) : Prop :=
  ∀ r ∈ rows, ∀ n, n * limit ≤ below key rows (key r) ∨ upTo key rows (key r) ≤ n * limit

section Positions

variable {key : ρ → Int} {rows l : List ρ}

theorem mem_page {limit n : Nat} {r : ρ} :
    r ∈ page limit n l ↔ ∃ i, ∃ h : i < l.length, l[i] = r ∧ n * limit ≤ i ∧ i < n * limit + limit := by
  unfold page
  constructor
  · intro h
    obtain ⟨j, hj, rfl⟩ := List.mem_iff_getElem.mp h
    rw [List.length_take, List.length_drop] at hj
    refine ⟨n * limit + j, by omega, ?_, by omega, by omega⟩
    rw [List.getElem_take, List.getElem_drop]
  · rintro ⟨i, hi, rfl, hle, hlt⟩
    refine List.mem_iff_getElem.mpr ⟨i - n * limit, ?_, ?_⟩
    · rw [List.length_take, List.length_drop]
      omega
    · rw [List.getElem_take, List.getElem_drop]
      congr 1
      omega

theorem nodup_page {limit n : Nat} (h : l.Nodup) : (page limit n l).Nodup :=
  (h.sublist (List.drop_sublist _ _)).sublist (List.take_sublist _ _)

/-- A row comes after those with smaller keys. -/
theorem below_le (hl : Ordered key rows l) {i : Nat} (hi : i < l.length) :
    below key rows (key l[i]) ≤ i := by
  have hdrop : (l.drop i).countP (fun r ↦ key r < key l[i]) = 0 := by
    refine List.countP_eq_zero.mpr fun r hr ↦ ?_
    obtain ⟨j, hj, rfl⟩ := List.mem_iff_getElem.mp hr
    rw [List.length_drop] at hj
    rw [List.getElem_drop, decide_eq_true_eq, Int.not_lt]
    rcases Nat.eq_zero_or_pos j with rfl | hpos
    · exact Int.le_refl _
    · exact List.pairwise_iff_getElem.mp hl.sorted i (i + j) hi (by omega) (by omega)
  have hsplit : below key rows (key l[i]) = l.countP fun r ↦ key r < key l[i] :=
    (hl.perm.countP_eq _).symm
  rw [hsplit]
  generalize key l[i] = k at hdrop ⊢
  calc l.countP (fun r ↦ key r < k)
      = (l.take i).countP (fun r ↦ key r < k) + (l.drop i).countP fun r ↦ key r < k := by
        rw [← List.countP_append, List.take_append_drop]
    _ ≤ (l.take i).length := by
        rw [hdrop]
        exact List.countP_le_length
    _ ≤ i := List.length_take_le _ _

/-- A row comes before those with larger keys. -/
theorem lt_upTo (hl : Ordered key rows l) {i : Nat} (hi : i < l.length) :
    i < upTo key rows (key l[i]) := by
  have htake : (l.take (i + 1)).countP (fun r ↦ key r ≤ key l[i]) = (l.take (i + 1)).length := by
    refine List.countP_eq_length.mpr fun r hr ↦ ?_
    obtain ⟨j, hj, rfl⟩ := List.mem_iff_getElem.mp hr
    rw [List.length_take] at hj
    rw [List.getElem_take, decide_eq_true_eq]
    rcases Nat.lt_or_ge j i with hlt | hge
    · exact List.pairwise_iff_getElem.mp hl.sorted j i (by omega) hi hlt
    · have he : j = i := by omega
      subst he
      exact Int.le_refl _
  have hsplit : upTo key rows (key l[i]) = l.countP fun r ↦ key r ≤ key l[i] :=
    (hl.perm.countP_eq _).symm
  have hsub := (List.take_sublist (i + 1) l).countP_le (p := fun r ↦ decide (key r ≤ key l[i]))
  rw [htake, List.length_take] at hsub
  rw [hsplit]
  omega

/-- With the rows of each key on one page, the page of a row depends on its key alone. -/
theorem mem_page_iff (hl : Ordered key rows l) {limit : Nat} (hlimit : 0 < limit)
    (hwhole : Whole key rows limit) {n : Nat} {r : ρ} :
    r ∈ page limit n l ↔ r ∈ rows ∧ below key rows (key r) / limit = n := by
  have hplace {i : Nat} (hi : i < l.length) (m : Nat) :
      m * limit ≤ i ↔ m * limit ≤ below key rows (key l[i]) := by
    constructor
    · intro hle
      rcases hwhole l[i] (hl.perm.mem_iff.mp (List.getElem_mem hi)) m with h | h
      · exact h
      · exact absurd (lt_upTo hl hi) (by omega)
    · exact fun hle ↦ hle.trans (below_le hl hi)
  have hpage {i : Nat} (hi : i < l.length) :
      n * limit ≤ i ∧ i < n * limit + limit ↔ below key rows (key l[i]) / limit = n := by
    rw [← Nat.not_le, ← Nat.succ_mul, hplace hi n, hplace hi (n + 1), Nat.not_le,
      Nat.div_eq_iff hlimit]
    rw [Nat.succ_mul]
    omega
  rw [mem_page]
  constructor
  · rintro ⟨i, hi, rfl, hrange⟩
    exact ⟨hl.perm.mem_iff.mp (List.getElem_mem hi), (hpage hi).mp hrange⟩
  · rintro ⟨hr, hn⟩
    obtain ⟨i, hi, rfl⟩ := List.mem_iff_getElem.mp (hl.perm.mem_iff.mpr hr)
    exact ⟨i, hi, rfl, (hpage hi).mpr hn⟩

end Positions

/-! ### All pages -/

variable {key : ρ → Int} {rows : List ρ} {limit : Nat}

/-- Pages of lists sorted each in its own way, if the rows of each key are on one page. -/
theorem pages_perm (hrows : rows.Nodup) (hlimit : 0 < limit) (hwhole : Whole key rows limit)
    {l : Nat → List ρ} (hl : ∀ n, Ordered key rows (l n)) {pages : Nat}
    (hpages : rows.length ≤ pages * limit) :
    ((List.range pages).flatMap fun n ↦ page limit n (l n)).Perm rows := by
  have hnodup (n : Nat) : (l n).Nodup := (hl n).perm.nodup_iff.mpr hrows
  have hiff (n : Nat) (r : ρ) := mem_page_iff (hl n) hlimit hwhole (n := n) (r := r)
  refine (List.perm_ext_iff_of_nodup ?_ hrows).mpr fun r ↦ ?_
  · refine List.nodup_flatMap.mpr ⟨fun n _ ↦ nodup_page (hnodup n), ?_⟩
    refine (List.nodup_range (n := pages)).imp fun {n m} hne ↦ ?_
    refine List.disjoint_left.mpr fun r hr hr' ↦ hne ?_
    exact ((hiff n r).mp hr).2.symm.trans ((hiff m r).mp hr').2
  · rw [List.mem_flatMap]
    constructor
    · rintro ⟨n, -, hr⟩
      exact ((hiff n r).mp hr).1
    · intro hr
      refine ⟨below key rows (key r) / limit, List.mem_range.mpr ?_, (hiff _ r).mpr ⟨hr, rfl⟩⟩
      have hlt : below key rows (key r) < rows.length := by
        refine Nat.lt_of_le_of_ne List.countP_le_length fun heq ↦ ?_
        simpa using List.countP_eq_length.mp heq r hr
      exact (Nat.div_lt_iff_lt_mul hlimit).mpr (hlt.trans_le hpages)

/-- The pages of one list, one after another. -/
theorem flatMap_page (pages : Nat) (l : List ρ) :
    ((List.range pages).flatMap fun n ↦ page limit n l) = l.take (pages * limit) := by
  induction pages with
  | zero => simp
  | succ n ih =>
    rw [List.range_succ, List.flatMap_append, ih, List.flatMap_singleton, Nat.succ_mul,
      List.take_add]
    rfl

/-- The order in which two neighbours of one key have changed places. -/
private theorem Ordered.swap {p q : List ρ} {x y : ρ} (h : Ordered key rows (p ++ x :: y :: q))
    (he : key x = key y) : Ordered key rows (p ++ y :: x :: q) := by
  constructor
  · exact ((List.Perm.swap x y q).append_left p).trans h.perm
  · have hs := h.sorted
    simp only [List.pairwise_append, List.pairwise_cons, List.mem_cons, forall_eq_or_imp] at hs ⊢
    rw [← he] at hs ⊢
    tauto

/-- Where a page ends between two rows of one key, there are orders in which a row is on two
pages. -/
theorem whole_of_pages (hrows : rows.Nodup) (hlimit : 0 < limit) {l : List ρ}
    (hl : Ordered key rows l) {pages : Nat} (hpages : rows.length ≤ pages * limit)
    (h : ∀ l : Nat → List ρ, (∀ n, Ordered key rows (l n)) →
      ((List.range pages).flatMap fun n ↦ page limit n (l n)).Perm rows) :
    Whole key rows limit := by
  intro r hr n
  by_contra! hsplit
  obtain ⟨hbelow, hupTo⟩ := hsplit
  have hlen : l.length = rows.length := hl.perm.length_eq
  have hle : upTo key rows (key r) ≤ rows.length := List.countP_le_length
  -- the rows on both sides of the end of the page have the key of `r`
  have hkey {i : Nat} (hi : i < l.length) (h₁ : below key rows (key r) ≤ i)
      (h₂ : i < upTo key rows (key r)) : key l[i] = key r := by
    have hb := below_le hl hi
    have hu := lt_upTo hl hi
    rcases lt_trichotomy (key l[i]) (key r) with hlt | heq | hgt
    · have hmono : upTo key rows (key l[i]) ≤ below key rows (key r) :=
        List.countP_mono_left fun s _ hs ↦ by
          rw [decide_eq_true_eq] at hs ⊢
          omega
      omega
    · exact heq
    · have hmono : upTo key rows (key r) ≤ below key rows (key l[i]) :=
        List.countP_mono_left fun s _ hs ↦ by
          rw [decide_eq_true_eq] at hs ⊢
          omega
      omega
  have hpos : 0 < n * limit := by omega
  have hx : n * limit - 1 < l.length := by omega
  have hy : n * limit < l.length := by omega
  have hl₀ : l = l.take (n * limit - 1) ++ l[n * limit - 1] :: l[n * limit] ::
      l.drop (n * limit + 1) := by
    rw [← List.drop_eq_getElem_cons hy]
    have hdrop := List.drop_eq_getElem_cons hx
    rw [show n * limit - 1 + 1 = n * limit by omega] at hdrop
    rw [← hdrop, List.take_append_drop]
  have he : key l[n * limit - 1] = key l[n * limit] :=
    (hkey hx (by omega) (by omega)).trans (hkey hy (by omega) (by omega)).symm
  obtain ⟨m, rfl⟩ : ∃ m, n = m + 1 := ⟨n - 1, by
    rcases n with _ | n
    · omega
    · rfl⟩
  have hswap := Ordered.swap (hl₀ ▸ hl) he
  generalize hp : l.take ((m + 1) * limit - 1) = p at hl₀ hswap
  have hplen : p.length = (m + 1) * limit - 1 := by
    rw [← hp, List.length_take]
    omega
  have hmul : (m + 1) * limit = m * limit + limit := Nat.succ_mul m limit
  -- one query uses the one order and the next query the other
  have hall := h (fun k ↦ if k = m + 1 then _ else l) fun k ↦ by
    by_cases hk : k = m + 1
    · rw [if_pos hk]
      exact hswap
    · rw [if_neg hk]
      exact hl
  have hdisjoint := (List.nodup_flatMap.mp (hall.nodup_iff.mpr hrows)).2
  have hlast : m + 1 < pages := by
    by_contra hge
    have := Nat.mul_le_mul_right limit (Nat.not_lt.mp hge)
    omega
  have hpair := List.pairwise_iff_getElem.mp hdisjoint m (m + 1) (by
    rw [List.length_range]
    omega) (by
    rw [List.length_range]
    omega) (by omega)
  simp only [List.getElem_range, Function.onFun] at hpair
  rw [if_neg (by omega), if_true] at hpair
  have hfst : l[(m + 1) * limit - 1] ∈ page limit m l :=
    mem_page.mpr ⟨_, hx, rfl, by omega, by omega⟩
  refine hpair hfst (mem_page.mpr ⟨(m + 1) * limit, ?_, ?_, Nat.le_refl _, by omega⟩)
  · rw [List.length_append, hplen, List.length_cons, List.length_cons]
    omega
  · rw [List.getElem_append_right (by omega)]
    simp only [hplen, show (m + 1) * limit - ((m + 1) * limit - 1) = 1 by omega,
      List.getElem_cons_succ, List.getElem_cons_zero]

/-- However each page is sorted, the pages partition the rows: exactly if no page ends between two
rows of one key. -/
theorem pages_iff (hrows : rows.Nodup) (hlimit : 0 < limit) {l : List ρ}
    (hl : Ordered key rows l) {pages : Nat} (hpages : rows.length ≤ pages * limit) :
    (∀ l : Nat → List ρ, (∀ n, Ordered key rows (l n)) →
      ((List.range pages).flatMap fun n ↦ page limit n (l n)).Perm rows) ↔
      Whole key rows limit :=
  ⟨whole_of_pages hrows hlimit hl hpages, fun hwhole _ hl ↦
    pages_perm hrows hlimit hwhole hl hpages⟩

end Paging
