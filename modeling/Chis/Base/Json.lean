import Mathlib.Data.List.Basic
import Mathlib.Data.List.Pairwise
import Mathlib.Order.Basic
import Mathlib.Data.String.Basic

/-!
# JSON values

Trees over any type of numbers: numerals as a text has them, doubles as a decoder makes them, or
rationals as a value means them. Reading a tree keeps of each object the last member of every key,
in the order of the keys; `map` does so while it changes the numbers.
-/

/-- A JSON tree. An object lists its members as they were written. -/
inductive Json (ν : Type) : Type
  | null
  | bool (b : Bool)
  | num (x : ν)
  | str (s : String)
  | arr (elems : List (Json ν))
  | obj (members : List (String × Json ν))

namespace Json

variable {ν μ ξ α β : Type}

/-! ### Members of an object -/

/-- Put a member in its place among sorted ones, over the member of the same key. -/
def put (k : String) (v : α) : List (String × α) → List (String × α)
  | [] => [(k, v)]
  | m :: ms =>
    if k < m.1 then (k, v) :: m :: ms
    else if k = m.1 then (k, v) :: ms
    else m :: put k v ms

/-- The members an object has: of each key the last one written, in the order of the keys. -/
def collect (ms : List (String × α)) : List (String × α) :=
  ms.foldl (fun acc m ↦ put m.1 m.2 acc) []

/-- Sorted by key, no key twice. -/
def Sorted (ms : List (String × α)) : Prop := ms.Pairwise fun m m' ↦ m.1 < m'.1

theorem mem_put {k : String} {v : α} {ms : List (String × α)} {m : String × α}
    (h : m ∈ put k v ms) : m = (k, v) ∨ m ∈ ms := by
  induction ms with
  | nil => exact .inl (List.mem_singleton.mp h)
  | cons m' ms ih =>
    unfold put at h
    split at h
    · exact List.mem_cons.mp h
    · split at h
      · rcases List.mem_cons.mp h with rfl | h
        · exact .inl rfl
        · exact .inr (List.mem_cons_of_mem _ h)
      · rcases List.mem_cons.mp h with rfl | h
        · exact .inr List.mem_cons_self
        · exact (ih h).imp_right (List.mem_cons_of_mem _)

theorem sorted_put {k : String} {v : α} {ms : List (String × α)} (h : Sorted ms) :
    Sorted (put k v ms) := by
  induction ms with
  | nil => exact List.pairwise_singleton _ _
  | cons m' ms ih =>
    obtain ⟨hm, hs⟩ := List.pairwise_cons.mp h
    unfold put
    split
    · next hlt =>
      refine List.pairwise_cons.mpr ⟨fun m hmem ↦ ?_, h⟩
      rcases List.mem_cons.mp hmem with rfl | hmem
      · exact hlt
      · exact hlt.trans (hm m hmem)
    · next hge =>
      split
      · next heq =>
        subst heq
        exact List.pairwise_cons.mpr ⟨hm, hs⟩
      · next hne =>
        refine List.pairwise_cons.mpr ⟨fun m hmem ↦ ?_, ih hs⟩
        rcases mem_put hmem with rfl | hmem
        · exact lt_of_le_of_ne (not_lt.mp hge) (Ne.symm hne)
        · exact hm m hmem

private theorem foldl_put_sorted (ms : List (String × α)) {acc : List (String × α)}
    (h : Sorted acc) : Sorted (ms.foldl (fun acc m ↦ put m.1 m.2 acc) acc) := by
  induction ms generalizing acc with
  | nil => exact h
  | cons m ms ih => exact ih (sorted_put h)

theorem sorted_collect (ms : List (String × α)) : Sorted (collect ms) :=
  foldl_put_sorted ms List.Pairwise.nil

private theorem mem_foldl_put {m : String × α} (ms : List (String × α)) {acc : List (String × α)}
    (h : m ∈ ms.foldl (fun acc m ↦ put m.1 m.2 acc) acc) : m ∈ acc ∨ m ∈ ms := by
  induction ms generalizing acc with
  | nil => exact .inl h
  | cons m' ms ih =>
    rcases ih h with h | h
    · rcases mem_put h with rfl | h
      · exact .inr List.mem_cons_self
      · exact .inl h
    · exact .inr (List.mem_cons_of_mem _ h)

/-- What an object has was written. -/
theorem mem_of_mem_collect {ms : List (String × α)} {m : String × α} (h : m ∈ collect ms) :
    m ∈ ms :=
  (mem_foldl_put ms h).resolve_left List.not_mem_nil

/-- A member whose key comes after all others goes to the end. -/
private theorem put_of_lt {k : String} {v : α} {ms : List (String × α)} (h : ∀ m ∈ ms, m.1 < k) :
    put k v ms = ms ++ [(k, v)] := by
  induction ms with
  | nil => rfl
  | cons m ms ih =>
    have hm := h m List.mem_cons_self
    rw [put, if_neg (not_lt.mpr hm.le), if_neg hm.ne', ih fun m' hm' ↦
      h m' (List.mem_cons_of_mem _ hm'), List.cons_append]

private theorem foldl_put_of_sorted (ms acc : List (String × α)) (h : Sorted (acc ++ ms)) :
    ms.foldl (fun acc m ↦ put m.1 m.2 acc) acc = acc ++ ms := by
  induction ms generalizing acc with
  | nil => simp
  | cons m ms ih =>
    have hlt : ∀ m' ∈ acc, m'.1 < m.1 := fun m' hm' ↦
      (List.pairwise_append.mp h).2.2 m' hm' m List.mem_cons_self
    rw [List.foldl_cons, put_of_lt hlt, ih _ (by simpa using h), List.append_assoc]
    rfl

/-- Sorted members stay as they are. -/
theorem collect_of_sorted {ms : List (String × α)} (h : Sorted ms) : collect ms = ms :=
  foldl_put_of_sorted ms [] h

@[simp] theorem collect_collect (ms : List (String × α)) : collect (collect ms) = collect ms :=
  collect_of_sorted (sorted_collect ms)

private theorem put_map (f : α → β) (k : String) (v : α) (ms : List (String × α)) :
    put k (f v) (ms.map fun m ↦ (m.1, f m.2)) = (put k v ms).map fun m ↦ (m.1, f m.2) := by
  induction ms with
  | nil => rfl
  | cons m ms ih =>
    simp only [List.map_cons, put]
    split
    · rfl
    · split
      · rfl
      · rw [ih, List.map_cons]

/-- Which members an object has depends on the keys alone. -/
theorem collect_map (f : α → β) (ms : List (String × α)) :
    collect (ms.map fun m ↦ (m.1, f m.2)) = (collect ms).map fun m ↦ (m.1, f m.2) := by
  have h : ∀ acc : List (String × α),
      (ms.map fun m ↦ (m.1, f m.2)).foldl (fun acc m ↦ put m.1 m.2 acc)
        (acc.map fun m ↦ (m.1, f m.2)) =
      (ms.foldl (fun acc m ↦ put m.1 m.2 acc) acc).map fun m ↦ (m.1, f m.2) := by
    induction ms with
    | nil => exact fun _ ↦ rfl
    | cons m ms ih =>
      intro acc
      simp only [List.map_cons, List.foldl_cons, put_map, ih]
  exact h []

/-! ### Reading a tree -/

mutual

/-- Read a tree with `f` for its numbers. -/
def map (f : ν → μ) : Json ν → Json μ
  | .null => .null
  | .bool b => .bool b
  | .num x => .num (f x)
  | .str s => .str s
  | .arr xs => .arr (mapElems f xs)
  | .obj ms => .obj (collect (mapMembers f ms))

/-- Read the elements of an array. -/
def mapElems (f : ν → μ) : List (Json ν) → List (Json μ)
  | [] => []
  | x :: xs => map f x :: mapElems f xs

/-- Read the members of an object. -/
def mapMembers (f : ν → μ) : List (String × Json ν) → List (String × Json μ)
  | [] => []
  | (k, x) :: ms => (k, map f x) :: mapMembers f ms

end

mutual

/-- Read a tree with a partial `f` for its numbers; one number that fails fails the whole. -/
def traverse (f : ν → Option μ) : Json ν → Option (Json μ)
  | .null => some .null
  | .bool b => some (.bool b)
  | .num x => (f x).map .num
  | .str s => some (.str s)
  | .arr xs => (traverseElems f xs).map .arr
  | .obj ms => (traverseMembers f ms).map fun ms ↦ .obj (collect ms)

/-- Read the elements of an array, if all can be read. -/
def traverseElems (f : ν → Option μ) : List (Json ν) → Option (List (Json μ))
  | [] => some []
  | x :: xs => (traverse f x).bind fun y ↦ (traverseElems f xs).map (y :: ·)

/-- Read the members of an object, if all can be read. -/
def traverseMembers (f : ν → Option μ) : List (String × Json ν) → Option (List (String × Json μ))
  | [] => some []
  | (k, x) :: ms => (traverse f x).bind fun y ↦ (traverseMembers f ms).map ((k, y) :: ·)

end

mutual

/-- The numbers of a tree. -/
def numbers : Json ν → List ν
  | .num x => [x]
  | .arr xs => numbersElems xs
  | .obj ms => numbersMembers ms
  | _ => []

/-- The numbers of the elements of an array. -/
def numbersElems : List (Json ν) → List ν
  | [] => []
  | x :: xs => numbers x ++ numbersElems xs

/-- The numbers of the members of an object. -/
def numbersMembers : List (String × Json ν) → List ν
  | [] => []
  | (_, x) :: ms => numbers x ++ numbersMembers ms

end

mutual

/-- How deep arrays and objects are nested. -/
def depth : Json ν → Nat
  | .arr xs => depthElems xs + 1
  | .obj ms => depthMembers ms + 1
  | _ => 0

/-- The depth of the deepest element. -/
def depthElems : List (Json ν) → Nat
  | [] => 0
  | x :: xs => max (depth x) (depthElems xs)

/-- The depth of the deepest member. -/
def depthMembers : List (String × Json ν) → Nat
  | [] => 0
  | (_, x) :: ms => max (depth x) (depthMembers ms)

end

theorem mapElems_eq (f : ν → μ) (xs : List (Json ν)) : mapElems f xs = xs.map (map f) := by
  induction xs with
  | nil => rfl
  | cons x xs ih => rw [mapElems, ih, List.map_cons]

theorem mapMembers_eq (f : ν → μ) (ms : List (String × Json ν)) :
    mapMembers f ms = ms.map fun m ↦ (m.1, map f m.2) := by
  induction ms with
  | nil => rfl
  | cons m ms ih => rw [mapMembers, ih, List.map_cons]

theorem numbersElems_eq (xs : List (Json ν)) : numbersElems xs = xs.flatMap numbers := by
  induction xs with
  | nil => rfl
  | cons x xs ih => rw [numbersElems, ih, List.flatMap_cons]

theorem numbersMembers_eq (ms : List (String × Json ν)) :
    numbersMembers ms = ms.flatMap fun m ↦ m.2.numbers := by
  induction ms with
  | nil => rfl
  | cons m ms ih => rw [numbersMembers, ih, List.flatMap_cons]

/-- Induction over a tree: what all parts have, the whole has. -/
@[elab_as_elim, induction_eliminator]
theorem induct {P : Json ν → Prop} (null : P .null) (bool : ∀ b, P (.bool b))
    (num : ∀ x, P (.num x)) (str : ∀ s, P (.str s)) (arr : ∀ xs, (∀ x ∈ xs, P x) → P (.arr xs))
    (obj : ∀ ms, (∀ m ∈ ms, P m.2) → P (.obj ms)) (j : Json ν) : P j :=
  @Json.rec ν P (fun xs ↦ ∀ x ∈ xs, P x) (fun ms ↦ ∀ m ∈ ms, P m.2) (fun m ↦ P m.2)
    null bool num str arr obj
    (fun _ h ↦ absurd h List.not_mem_nil)
    (fun _ _ hx hxs ↦ List.forall_mem_cons.mpr ⟨hx, hxs⟩)
    (fun _ h ↦ absurd h List.not_mem_nil)
    (fun _ _ hm hms ↦ List.forall_mem_cons.mpr ⟨hm, hms⟩)
    (fun _ _ hx ↦ hx) j

/-- Reading twice is reading once. -/
theorem map_map (f : ν → μ) (g : μ → ξ) (j : Json ν) : (j.map f).map g = j.map (g ∘ f) := by
  induction j with
  | arr xs ih =>
    simp only [map, mapElems_eq, List.map_map]
    exact congrArg arr (List.map_congr_left ih)
  | obj ms ih =>
    simp only [map, mapMembers_eq]
    rw [collect_map (map g), collect_collect, collect_map, collect_map, List.map_map]
    refine congrArg obj (List.map_congr_left fun m hm ↦ ?_)
    exact congrArg (Prod.mk m.1) (ih m (mem_of_mem_collect hm))
  | _ => rfl

/-- A partial reading that succeeds is a reading. -/
theorem map_of_traverse {f : ν → Option μ} {h : μ → ξ} {r : ν → ξ}
    (hf : ∀ d x, f d = some x → h x = r d) {j : Json ν} {v : Json μ} (hj : traverse f j = some v) :
    v.map h = j.map r := by
  induction j generalizing v with
  | num x =>
    obtain ⟨y, hy, rfl⟩ := Option.map_eq_some_iff.mp hj
    exact congrArg num (hf x y hy)
  | arr xs ih =>
    obtain ⟨ys, hys, rfl⟩ := Option.map_eq_some_iff.mp hj
    refine congrArg arr ?_
    clear hj
    induction xs generalizing ys with
    | nil =>
      cases hys
      rfl
    | cons x xs ihx =>
      obtain ⟨y, hy, hrest⟩ := Option.bind_eq_some_iff.mp hys
      obtain ⟨zs, hzs, rfl⟩ := Option.map_eq_some_iff.mp hrest
      rw [mapElems, mapElems, ih x List.mem_cons_self hy,
        ihx (fun x hx _ ↦ ih x (List.mem_cons_of_mem _ hx)) zs hzs]
  | obj ms ih =>
    obtain ⟨ns, hns, rfl⟩ := Option.map_eq_some_iff.mp hj
    have he : mapMembers h ns = mapMembers r ms := by
      clear hj
      induction ms generalizing ns with
      | nil =>
        cases hns
        rfl
      | cons m ms ihm =>
        obtain ⟨y, hy, hrest⟩ := Option.bind_eq_some_iff.mp hns
        obtain ⟨ls, hls, rfl⟩ := Option.map_eq_some_iff.mp hrest
        rw [mapMembers, mapMembers, ih m List.mem_cons_self hy,
          ihm (fun m hm _ ↦ ih m (List.mem_cons_of_mem _ hm)) ls hls]
    rw [mapMembers_eq] at he
    rw [map, map, mapMembers_eq, collect_map, collect_collect, ← collect_map, he]
  | _ =>
    cases hj
    rfl

/-- Two readings agree exactly when they agree on every number that is read. -/
theorem map_eq_map_iff (f g : ν → μ) (j : Json ν) :
    j.map f = j.map g ↔ ∀ x ∈ (j.map id).numbers, f x = g x := by
  induction j with
  | num x => simp [map, numbers]
  | arr xs ih =>
    simp only [map, numbers, mapElems_eq, numbersElems_eq, arr.injEq, List.map_inj_left,
      List.mem_flatMap, List.mem_map]
    constructor
    · rintro h x ⟨-, ⟨y, hy, rfl⟩, hx⟩
      exact (ih y hy).mp (h y hy) x hx
    · intro h y hy
      exact (ih y hy).mpr fun x hx ↦ h x ⟨_, ⟨y, hy, rfl⟩, hx⟩
  | obj ms ih =>
    simp only [map, numbers, mapMembers_eq, numbersMembers_eq, collect_map, obj.injEq,
      List.map_inj_left, List.mem_flatMap, List.mem_map, Prod.mk.injEq, true_and]
    constructor
    · rintro h x ⟨-, ⟨m, hm, rfl⟩, hx⟩
      exact (ih m (mem_of_mem_collect hm)).mp (h m hm) x hx
    · intro h m hm
      exact (ih m (mem_of_mem_collect hm)).mpr fun x hx ↦ h x ⟨_, ⟨m, hm, rfl⟩, hx⟩
  | _ => simp [map, numbers]

end Json
