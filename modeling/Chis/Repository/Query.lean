import Chis.Model.Rows
import Mathlib.Data.List.Sort

/-!
# What the repositories have in common

The errors a statement can return, the text Postgres stores, and `ORDER BY`.
-/

namespace Chis

/-- The errors the services tell apart. -/
inductive Err
  /-- `repository.ErrNotFound`. -/
  | notFound
  /-- `pgx.ErrNoRows`, where a repository passes it on. -/
  | noRows
  /-- A `pgconn.PgError` with its SQLSTATE. -/
  | pg (code : String)
  /-- Any other failure of an operation; it has had no effect. -/
  | unavailable
  /-- `redis.Nil`: a blocking pop timed out. -/
  | redisNil
deriving DecidableEq, Repr

namespace Sqlstate

def uniqueViolation : String := "23505"
def foreignKeyViolation : String := "23503"
def invalidTextFormat : String := "22P02"
/-- `character_not_in_repertoire`, which `apperror` has no case for. -/
def characterNotInRepertoire : String := "22021"
/-- `invalid_row_count_in_result_offset_clause`, which `apperror` has no case for. -/
def invalidRowCountInOffset : String := "2201X"

end Sqlstate

/-- A text Postgres stores: no NUL character. -/
def textOk (s : String) : Bool := s.toList.all fun c ↦ c.toNat ≠ 0

/-- Bytes Postgres stores as text: valid UTF-8 without NUL. -/
def bytesOk (b : List UInt8) : Bool := (ByteArray.mk b.toArray).validateUTF8 && b.all (· ≠ 0)

/-- Check the text parameters of a statement before it runs. -/
def checkText (ss : List String) : Except Err Unit :=
  if ss.all textOk then .ok () else .error (.pg Sqlstate.characterNotInRepertoire)

/-- `INSERT` of a row whose columns have passed their checks; the key is unique. -/
def insertRow {ρ : Type} {key : ρ → Uuid} (t : Relational.Table key) (r : ρ) :
    Except Err (Relational.Table key) :=
  match t.insert? r with
  | some t' => .ok t'
  | none => .error (.pg Sqlstate.uniqueViolation)

/-- A foreign key whose target is missing. -/
def references {ρ : Type} {key : ρ → Uuid} (t : Relational.Table key) (id : Uuid) :
    Except Err Unit :=
  if (t.find? id).isSome then .ok () else .error (.pg Sqlstate.foreignKeyViolation)

/-- `ORDER BY key ASC`. Rows with equal keys come in the order of `tie`, which may differ from one
query to the next. -/
def orderBy {ρ : Type} (key : ρ → Int) (tie : ρ → Nat) (rows : List ρ) : List ρ :=
  rows.insertionSort fun a b ↦ key a < key b ∨ key a = key b ∧ tie a ≤ tie b

@[simp] theorem mem_orderBy {ρ : Type} (key : ρ → Int) (tie : ρ → Nat) (rows : List ρ) (r : ρ) :
    r ∈ orderBy key tie rows ↔ r ∈ rows :=
  (List.perm_insertionSort _ rows).mem_iff

theorem orderBy_perm {ρ : Type} (key : ρ → Int) (tie : ρ → Nat) (rows : List ρ) :
    (orderBy key tie rows).Perm rows := List.perm_insertionSort _ rows

/-- A composition succeeds when its parts do, one after the other. -/
theorem except_bind_ok {ε α β : Type} {x : Except ε α} {f : α → Except ε β} {b : β} :
    x >>= f = .ok b ↔ ∃ a, x = .ok a ∧ f a = .ok b := by
  cases x <;> simp [bind, Except.bind]

/-- A composition fails with its first part or with its second. -/
theorem except_bind_error {ε α β : Type} {x : Except ε α} {f : α → Except ε β} {e : ε} :
    x >>= f = .error e ↔ x = .error e ∨ ∃ a, x = .ok a ∧ f a = .error e := by
  cases x <;> simp [bind, Except.bind]

/-- A lookup that must find something. -/
theorem elim_ok {ρ : Type} {x : Option ρ} {e : Err} {r : ρ} :
    x.elim (.error e) .ok = (.ok r : Except Err ρ) ↔ x = some r := by
  cases x <;> simp

theorem textOk_append {s t : String} : textOk (s ++ t) = true ↔ textOk s = true ∧ textOk t = true := by
  simp [textOk, List.all_append]

theorem checkText_eq {ss : List String} (h : ∀ s ∈ ss, textOk s = true) : checkText ss = .ok () :=
  if_pos (List.all_eq_true.mpr h)

theorem checkText_ok {ss : List String} {u : Unit} (h : checkText ss = .ok u) :
    ∀ s ∈ ss, textOk s = true := by
  unfold checkText at h
  split at h
  · next ha => exact List.all_eq_true.mp ha
  · cases h

/-- How Postgres refuses an `INSERT`: for one of its texts, or for a constraint. -/
inductive Refused (texts : List String) : Err → Prop
  | text {s : String} : s ∈ texts → textOk s = false →
    Refused texts (.pg Sqlstate.characterNotInRepertoire)
  | unique : (∀ s ∈ texts, textOk s = true) → Refused texts (.pg Sqlstate.uniqueViolation)
  | foreignKey : (∀ s ∈ texts, textOk s = true) → Refused texts (.pg Sqlstate.foreignKeyViolation)

theorem checkText_error {ss : List String} {e : Err} (h : checkText ss = .error e) :
    Refused ss e := by
  unfold checkText at h
  split at h
  · cases h
  · next ha =>
    cases h
    obtain ⟨s, hs, ht⟩ := List.all_eq_false.mp (Bool.eq_false_iff.mpr ha)
    exact .text hs (Bool.eq_false_iff.mpr ht)

theorem insertRow_error {ρ : Type} {key : ρ → Uuid} {t : Relational.Table key} {r : ρ} {e : Err}
    (h : insertRow t r = .error e) : e = .pg Sqlstate.uniqueViolation := by
  unfold insertRow at h
  split at h
  · cases h
  · exact (Except.error.inj h).symm

theorem references_error {ρ : Type} {key : ρ → Uuid} {t : Relational.Table key} {id : Uuid}
    {e : Err} (h : references t id = .error e) : e = .pg Sqlstate.foreignKeyViolation := by
  unfold references at h
  split at h
  · cases h
  · exact (Except.error.inj h).symm

/-- A row with a new key can be inserted. -/
theorem insertRow_eq {ρ : Type} {key : ρ → Uuid} {t : Relational.Table key} {r : ρ}
    (h : ∀ r' ∈ t, key r' ≠ key r) : ∃ t', insertRow t r = .ok t' := by
  have hi : t.insert? r = some _ := dif_pos h
  exact ⟨_, by rw [insertRow, hi]⟩

theorem insertRow_ok {ρ : Type} {key : ρ → Uuid} {t t' : Relational.Table key} {r : ρ}
    (h : insertRow t r = .ok t') : t.insert? r = some t' := by
  unfold insertRow at h
  split at h
  · next he => rw [he, Except.ok.inj h]
  · cases h

theorem references_eq {ρ : Type} {key : ρ → Uuid} {t : Relational.Table key} {r : ρ} (h : r ∈ t) :
    references t (key r) = .ok () := by
  rw [references, (t.find?_eq_some_iff (key r) r).mpr ⟨h, rfl⟩]
  rfl

theorem references_ok {ρ : Type} {key : ρ → Uuid} {t : Relational.Table key} {id : Uuid}
    (h : references t id = .ok ()) : ∃ r, t.find? id = some r := by
  unfold references at h
  split at h
  · next hs => exact Option.isSome_iff_exists.mp hs
  · cases h

end Chis
