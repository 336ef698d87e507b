import Chis.Api.Rules
import Chis.Base.Paging

/-!
# What the log query answers

`FindWebhookLogs` counts the messages that match its filters and then reads one page of them. The
conjuncts of its `WHERE` clause and their numbered arguments select what `matching` describes.
-/

namespace Chis

open Program

/-! ### Sorted rows -/

private abbrev sortedBy {ρ : Type} (key : ρ → Int) (tie : ρ → Nat) (a b : ρ) : Prop :=
  key a < key b ∨ key a = key b ∧ tie a ≤ tie b

private theorem sortedBy_total {ρ : Type} (key : ρ → Int) (tie : ρ → Nat) (a b : ρ) :
    sortedBy key tie a b ∨ sortedBy key tie b a := by
  unfold sortedBy
  omega

private theorem sortedBy_trans {ρ : Type} (key : ρ → Int) (tie : ρ → Nat) (a b c : ρ)
    (h : sortedBy key tie a b) (h' : sortedBy key tie b c) : sortedBy key tie a c := by
  unfold sortedBy at *
  omega

private theorem orderBy_pairwise {ρ : Type} (key : ρ → Int) (tie : ρ → Nat) (rows : List ρ) :
    (orderBy key tie rows).Pairwise (sortedBy key tie) :=
  haveI : Std.Total (sortedBy key tie) := ⟨sortedBy_total key tie⟩
  haveI : IsTrans ρ (sortedBy key tie) := ⟨sortedBy_trans key tie⟩
  List.pairwise_insertionSort (sortedBy key tie) rows

/-- `ORDER BY` gives an order that the key allows. -/
theorem orderBy_ordered {ρ : Type} (key : ρ → Int) (tie : ρ → Nat) (rows : List ρ) :
    Paging.Ordered key rows (orderBy key tie rows) where
  perm := orderBy_perm key tie rows
  sorted := (orderBy_pairwise key tie rows).imp fun h ↦ by
    unfold sortedBy at h
    omega

/-- Where no two rows tie, the physical order does not matter. -/
theorem orderBy_of_perm {ρ : Type} {key : ρ → Int} {tie : ρ → Nat} {rows rows' : List ρ}
    (h : rows.Perm rows') (htie : ∀ r ∈ rows, ∀ r' ∈ rows, tie r = tie r' → r = r') :
    orderBy key tie rows = orderBy key tie rows' := by
  refine List.Perm.eq_of_pairwise ?_ (orderBy_pairwise key tie rows) (orderBy_pairwise key tie rows')
    ((orderBy_perm _ _ _).trans (h.trans (orderBy_perm _ _ _).symm))
  intro a b ha hb hab hba
  rw [mem_orderBy] at ha hb
  apply htie a ha b (h.mem_iff.mpr hb)
  unfold sortedBy at hab hba
  omega

/-- It may give any order that the key allows. -/
theorem orderBy_eq {ρ κ : Type} [DecidableEq κ] {key : ρ → Int} {id : ρ → κ} {rows l : List ρ}
    (h : Paging.Ordered key rows l) (hid : (rows.map id).Nodup) :
    orderBy key (fun r ↦ (l.map id).idxOf (id r)) rows = l := by
  have hnodup : (l.map id).Nodup := (h.perm.map id).nodup_iff.mpr hid
  refine List.Perm.eq_of_pairwise ?_ (orderBy_pairwise key _ rows) ?_
    ((orderBy_perm _ _ _).trans h.perm.symm)
  · intro a b ha hb hab hba
    have hidx : (l.map id).idxOf (id a) = (l.map id).idxOf (id b) := by
      unfold sortedBy at hab hba
      beta_reduce at hab hba
      omega
    have hmem {r : ρ} (hr : r ∈ rows) : id r ∈ l.map id :=
      List.mem_map_of_mem (h.perm.mem_iff.mpr hr)
    have hra := (mem_orderBy _ _ _ _).mp ha
    have hrb := (h.perm.mem_iff).mp hb
    exact List.inj_on_of_nodup_map hid hra hrb ((List.idxOf_inj (hmem hra)).mp hidx)
  · refine List.pairwise_iff_getElem.mpr fun i j hi hj hlt ↦ ?_
    have hkey := List.pairwise_iff_getElem.mp h.sorted i j hi hj hlt
    have hplace {i : Nat} (hi : i < l.length) : (l.map id).idxOf (id l[i]) = i := by
      have hi' : i < (l.map id).length := by rwa [List.length_map]
      have hidx := hnodup.idxOf_getElem i hi'
      rwa [List.getElem_map] at hidx
    unfold sortedBy
    beta_reduce
    rw [hplace hi, hplace hj]
    omega

namespace Logs

open Api

/-! ### The messages that match -/

/-- Filters that Postgres can read: a label of `message_status`, and a text it stores. -/
def Legible (status search : String) : Prop :=
  (status ≠ "" → MessageStatus.ofLabel status ≠ none) ∧ textOk search = true

/-- A message matches the filters. An empty one lets every message through. -/
def Matches (lower : Char → Char) (orgID : Uuid) (status search : String) (m : Message) : Prop :=
  m.orgID = orgID ∧ (status = "" ∨ MessageStatus.ofLabel status = some m.status) ∧
    (search = "" ∨ MessageRepository.like (("%" ++ search ++ "%").toList.map lower)
      (m.url.toList.map lower) = true)

instance (lower : Char → Char) (orgID : Uuid) (status search : String) :
    DecidablePred (Matches lower orgID status search) := fun _ ↦
  inferInstanceAs (Decidable (_ ∧ (_ ∨ _) ∧ (_ ∨ _)))

/-- The messages that match. -/
def matching (lower : Char → Char) (orgID : Uuid) (status search : String) (db : Db) :
    List Message :=
  db.messages.rows.filter fun m ↦ Matches lower orgID status search m

theorem matching_ids {lower : Char → Char} {orgID : Uuid} {status search : String} {db : Db} :
    ((matching lower orgID status search db).map Message.id).Nodup :=
  db.messages.nodup.sublist (List.filter_sublist.map _)

section Select

variable {lower : Char → Char} {orgID : Uuid} {status search : String}
  {extra : List MessageRepository.Arg} {db : Db}

private theorem ofLabel_text {s : String} {st : MessageStatus}
    (h : MessageStatus.ofLabel s = some st) : textOk s = true := by
  have hlabel : st.label = s := by simpa using List.find?_some h
  rw [← hlabel]
  cases st <;> decide

private theorem checkText_one {s : String} : checkText [s] = .ok () ↔ textOk s = true :=
  ⟨fun h ↦ checkText_ok h s List.mem_cons_self, fun h ↦ checkText_eq (by simp [h])⟩

private theorem textOk_pattern : textOk ("%" ++ search ++ "%") = true ↔ textOk search = true := by
  rw [textOk_append, textOk_append]
  exact ⟨fun h ↦ h.1.2, fun h ↦ ⟨⟨by decide, h⟩, by decide⟩⟩

/-- What the conjunct on the status selects. -/
private theorem compile_status {args : List MessageRepository.Arg} {n : Nat} {s : String}
    {st : MessageStatus} (h : args[n - 1]? = some (.text s)) (hs : MessageStatus.ofLabel s = some st) :
    MessageRepository.Cond.compile lower args (.status n) = .ok fun m ↦ m.status = st := by
  rw [MessageRepository.Cond.compile, h]
  refine except_bind_ok.mpr ⟨(), checkText_one.mpr (ofLabel_text hs), ?_⟩
  rw [hs]
  rfl

private theorem compile_status_error {args : List MessageRepository.Arg} {n : Nat} {s : String}
    (h : args[n - 1]? = some (.text s)) (hs : MessageStatus.ofLabel s = none) :
    ∃ e, MessageRepository.Cond.compile lower args (.status n) = .error e := by
  rw [MessageRepository.Cond.compile, h]
  simp only [except_bind_error, hs]
  cases ht : checkText [s] with
  | error e => exact ⟨e, .inl rfl⟩
  | ok u => exact ⟨_, .inr ⟨u, rfl, rfl⟩⟩

/-- What the conjunct on the URL selects. -/
private theorem compile_search {args : List MessageRepository.Arg} {n : Nat} {s : String}
    (h : args[n - 1]? = some (.text s)) (ht : textOk s = true) :
    MessageRepository.Cond.compile lower args (.urlILike n) =
      .ok fun m ↦ MessageRepository.like (s.toList.map lower) (m.url.toList.map lower) := by
  rw [MessageRepository.Cond.compile, h]
  exact except_bind_ok.mpr ⟨(), checkText_one.mpr ht, rfl⟩

private theorem compile_search_error {args : List MessageRepository.Arg} {n : Nat} {s : String}
    (h : args[n - 1]? = some (.text s)) (ht : textOk s ≠ true) :
    ∃ e, MessageRepository.Cond.compile lower args (.urlILike n) = .error e := by
  rw [MessageRepository.Cond.compile, h]
  cases hc : checkText [s] with
  | error e => exact ⟨e, except_bind_error.mpr (.inl hc)⟩
  | ok u => exact absurd (checkText_one.mp hc) ht

private theorem compile_orgID {rest : List MessageRepository.Arg} :
    MessageRepository.Cond.compile lower (.uuid orgID :: rest) (.orgID 1) =
      .ok fun m ↦ m.orgID = orgID := rfl

/-- With filters it can read, the `WHERE` clause selects the messages that match. -/
theorem selectWhere_matching (h : Legible status search) :
    MessageRepository.selectWhere lower (whereClause orgID status search).1
      ((whereClause orgID status search).2 ++ extra) db =
      .ok (matching lower orgID status search db) := by
  obtain ⟨hstatus, htext⟩ := h
  have hpattern := textOk_pattern.mpr htext
  have hselect (ps : List (Message → Bool)) {conds : List MessageRepository.Cond}
      {args : List MessageRepository.Arg}
      (hps : conds.mapM (MessageRepository.Cond.compile lower args) = .ok ps)
      (hmatch : ∀ m, (ps.all fun p ↦ p m) = decide (Matches lower orgID status search m)) :
      MessageRepository.selectWhere lower conds args db =
        .ok (matching lower orgID status search db) := by
    refine except_bind_ok.mpr ⟨ps, hps, ?_⟩
    simp only [hmatch]
    rfl
  by_cases h₁ : status = ""
  · by_cases h₂ : search = ""
    · refine hselect [fun m ↦ m.orgID = orgID] ?_ fun m ↦ ?_
      · simp only [whereClause, h₁, h₂, ne_eq, not_true_eq_false, if_false]
        rfl
      · simp [Matches, h₁, h₂]
    · refine hselect [fun m ↦ m.orgID = orgID, fun m ↦ MessageRepository.like
        (("%" ++ search ++ "%").toList.map lower) (m.url.toList.map lower)] ?_ fun m ↦ ?_
      · simp only [whereClause, h₁, h₂, ne_eq, not_true_eq_false, not_false_eq_true, if_true,
          if_false, List.cons_append, List.nil_append, List.mapM_cons, List.mapM_nil]
        rw [compile_orgID, compile_search rfl hpattern]
        rfl
      · simp [Matches, h₁, h₂]
  · obtain ⟨st, hst⟩ := Option.ne_none_iff_exists'.mp (hstatus h₁)
    by_cases h₂ : search = ""
    · refine hselect [fun m ↦ m.orgID = orgID, fun m ↦ m.status = st] ?_ fun m ↦ ?_
      · simp only [whereClause, h₁, h₂, ne_eq, not_true_eq_false, not_false_eq_true, if_true,
          if_false, List.cons_append, List.nil_append, List.mapM_cons, List.mapM_nil]
        rw [compile_orgID, compile_status rfl hst]
        rfl
      · simp [Matches, h₁, h₂, hst, eq_comm (a := st)]
    · refine hselect [fun m ↦ m.orgID = orgID, fun m ↦ m.status = st,
        fun m ↦ MessageRepository.like (("%" ++ search ++ "%").toList.map lower)
          (m.url.toList.map lower)] ?_ fun m ↦ ?_
      · simp only [whereClause, h₁, h₂, ne_eq, not_false_eq_true, if_true,
          List.cons_append, List.nil_append, List.mapM_cons, List.mapM_nil]
        rw [compile_orgID, compile_status rfl hst, compile_search rfl hpattern]
        rfl
      · simp [Matches, h₁, h₂, hst, eq_comm (a := st)]

/-- With filters it cannot read, the query fails. -/
theorem selectWhere_illegible (h : ¬ Legible status search) :
    ∃ e, MessageRepository.selectWhere lower (whereClause orgID status search).1
      ((whereClause orgID status search).2 ++ extra) db = .error e := by
  have hselect {conds : List MessageRepository.Cond} {args : List MessageRepository.Arg}
      (hps : ∃ e, conds.mapM (MessageRepository.Cond.compile lower args) = .error e) :
      ∃ e, MessageRepository.selectWhere lower conds args db = .error e := by
    obtain ⟨e, he⟩ := hps
    exact ⟨e, except_bind_error.mpr (.inl he)⟩
  refine hselect ?_
  by_cases h₁ : status = ""
  · have ht : textOk ("%" ++ search ++ "%") ≠ true := fun ht ↦
      h ⟨fun hne ↦ absurd h₁ hne, textOk_pattern.mp ht⟩
    have h₂ : search ≠ "" := by
      rintro rfl
      exact ht (by decide)
    simp only [whereClause, h₁, h₂, ne_eq, not_true_eq_false, not_false_eq_true, if_true,
      if_false, List.cons_append, List.nil_append, List.mapM_cons, List.mapM_nil, List.length_cons,
        List.length_nil, Nat.zero_add, Nat.reduceAdd]
    obtain ⟨e, he⟩ := @compile_search_error lower
      (.uuid orgID :: .text ("%" ++ search ++ "%") :: extra) 2 _ rfl ht
    rw [compile_orgID, he]
    exact ⟨e, rfl⟩
  · by_cases h₂ : search = ""
    · have hs : MessageStatus.ofLabel status = none := by
        by_contra hne
        exact h ⟨fun _ ↦ hne, by rw [h₂]; decide⟩
      simp only [whereClause, h₁, h₂, ne_eq, not_true_eq_false, not_false_eq_true, if_true,
        if_false, List.cons_append, List.nil_append, List.mapM_cons, List.mapM_nil, List.length_cons,
        List.length_nil, Nat.zero_add, Nat.reduceAdd]
      obtain ⟨e, he⟩ := @compile_status_error lower (.uuid orgID :: .text status :: extra) 2 _ rfl hs
      rw [compile_orgID, he]
      exact ⟨e, rfl⟩
    · simp only [whereClause, h₁, h₂, ne_eq, not_false_eq_true, if_true,
        List.cons_append, List.nil_append, List.mapM_cons, List.mapM_nil, List.length_cons,
        List.length_nil, Nat.zero_add, Nat.reduceAdd]
      rw [compile_orgID]
      cases hs : MessageStatus.ofLabel status with
      | none =>
        obtain ⟨e, he⟩ := @compile_status_error lower
          (.uuid orgID :: .text status :: .text ("%" ++ search ++ "%") :: extra) 2 _ rfl hs
        rw [he]
        exact ⟨e, rfl⟩
      | some st =>
        have ht : textOk ("%" ++ search ++ "%") ≠ true := fun ht ↦
          h ⟨fun _ ↦ by rw [hs]; exact Option.some_ne_none st, textOk_pattern.mp ht⟩
        obtain ⟨e, he⟩ := @compile_search_error lower
          (.uuid orgID :: .text status :: .text ("%" ++ search ++ "%") :: extra) 3 _ rfl ht
        rw [compile_status rfl hs, he]
        exact ⟨e, rfl⟩

end Select

/-! ### The whole query -/

/-- The offset of a page, in 64-bit arithmetic; `message.go:225`. -/
def offsetOf (page limit : Int) : Int := Int.bmod ((page - 1) * limit) (2 ^ 64)

/-- A page of the messages that match, each beside its last attempt. -/
def listed (env : Env) (tie : Uuid → Nat) (orgID : Uuid) (status search : String)
    (page limit : Int) (db : Db) : List MessageRepository.WebhookLogRow :=
  (((orderBy (fun m ↦ -m.createdAt) (fun m ↦ tie m.id)
    (matching env.lower orgID status search db)).drop (offsetOf page limit).toNat).take
      limit.toNat).map (MessageRepository.logRow tie db)

/-- How the log query ends: with a page, or with an error of the database. -/
inductive Answers (env : Env) (allow : Choice → Prop) (orgID : Uuid) (status search : String)
    (page limit : Int) (db : Db) : Except Err WebhookLogsResult → Prop
  | page {ch : Choice} : allow ch → Legible status search → 0 ≤ offsetOf page limit →
    Answers env allow orgID status search page limit db
      (.ok ⟨listed env ch.tie orgID status search page limit db,
        (matching env.lower orgID status search db).length, page, limit,
        totalPages (matching env.lower orgID status search db).length limit⟩)
  | error {e : Err} : ¬ (Legible status search ∧ 0 ≤ offsetOf page limit) →
    Answers env allow orgID status search page limit db (.error e)

section Run

variable {env : Env} {allow : Choice → Prop} {i : Proc} {w : World} {orgID : Uuid}
  {status search : String} {page limit : Int} (hallow : ∀ ch, allow ch → ch.fail = false)

include hallow in
/-- In a run in which nothing fails, the log query ends so and leaves the tables alone. -/
theorem findWebhookLogs_answers (hpage : 1 ≤ page) (hlimit : 1 ≤ limit) :
    (findWebhookLogs orgID status search page limit).wp (World.Exec env.toPlatform allow i)
      (fun x w' ↦ w'.db = w.db ∧ Answers env allow orgID status search page limit w.db x) w := by
  unfold findWebhookLogs
  dsimp only
  rw [if_neg (by omega), if_neg (by omega)]
  simp only [Prog.monad_bind, Service.sql, Prog.bind_call, Prog.wp_op]
  rw [show Int.bmod ((page - 1) * limit) (2 ^ 64) = offsetOf page limit from rfl]
  -- both statements read the same tables, and fail for the same filters
  have hcount {r : Except Err Nat} {w₁ : World}
      (h₁ : World.Exec env.toPlatform allow i (.sql (.countWebhookLogs
        (whereClause orgID status search).1 (whereClause orgID status search).2)) w r w₁) :
      w₁.db = w.db ∧ (Legible status search →
          r = .ok (matching env.lower orgID status search w.db).length) ∧
        (¬ Legible status search → ∃ e, r = .error e) := by
    obtain ⟨ch, hr, hd, -⟩ := h₁.read_works hallow (fun _ _ ↦ rfl)
    change MessageRepository.countWebhookLogs env.lower _ _ w.db = r at hr
    rw [MessageRepository.countWebhookLogs, ← List.append_nil (whereClause orgID status search).2]
      at hr
    refine ⟨hd, fun hl ↦ ?_, fun hl ↦ ?_⟩
    · rw [selectWhere_matching hl] at hr
      exact hr.symm
    · obtain ⟨e, he⟩ := @selectWhere_illegible env.lower orgID status search [] w.db hl
      rw [he] at hr
      exact ⟨e, hr.symm⟩
  rintro (e | total) w₁ h₁
  · obtain ⟨hd₁, hok, -⟩ := hcount h₁
    refine ⟨hd₁, .error fun hl ↦ ?_⟩
    cases hok hl.1
  · obtain ⟨hd₁, hok, herror⟩ := hcount h₁
    have hlegible : Legible status search := by
      by_contra hl
      obtain ⟨e, he⟩ := herror hl
      cases he
    cases hok hlegible
    have hpage {r : Except Err (List MessageRepository.WebhookLogRow)} {w₂ : World}
        (h₂ : World.Exec env.toPlatform allow i (.sql (.pageWebhookLogs
          (whereClause orgID status search).1 ((whereClause orgID status search).2.length + 1)
          ((whereClause orgID status search).2.length + 2)
          ((whereClause orgID status search).2 ++ [.int limit, .int (offsetOf page limit)])))
          w₁ r w₂) :
        w₂.db = w.db ∧ ∃ ch, allow ch ∧ r = if 0 ≤ offsetOf page limit then
          .ok (listed env ch.tie orgID status search page limit w.db)
          else .error (.pg Sqlstate.invalidRowCountInOffset) := by
      obtain ⟨ch, ha, hexec, -⟩ := h₂.sql_works hallow
      obtain ⟨hr, hd⟩ := Prod.mk.inj hexec
      refine ⟨hd.symm.trans hd₁, ch, ha, ?_⟩
      change MessageRepository.pageWebhookLogs env.lower ch.tie _ _ _ _ w₁.db = r at hr
      rw [← hr, hd₁, MessageRepository.pageWebhookLogs, selectWhere_matching hlegible]
      generalize hoff : offsetOf page limit = offset
      generalize (whereClause orgID status search).2 = args
      have hfst : (args ++ [.int limit, .int offset])[args.length + 1 - 1]? = some (.int limit) := by
        simp
      have hsnd : (args ++ [.int limit, .int offset])[args.length + 2 - 1]? =
        some (.int offset) := by simp
      rw [hfst, hsnd, listed, hoff]
      by_cases hoffset : 0 ≤ offset
      · rw [if_pos hoffset]
        exact if_neg (by omega)
      · rw [if_neg hoffset]
        exact if_pos (by omega)
    rintro (e | rows) w₂ h₂
    · obtain ⟨hd₂, ch, -, hr⟩ := hpage h₂
      refine ⟨hd₂, .error fun hl ↦ ?_⟩
      rw [if_pos hl.2] at hr
      cases hr
    · obtain ⟨hd₂, ch, ha, hr⟩ := hpage h₂
      refine ⟨hd₂, ?_⟩
      by_cases hoffset : 0 ≤ offsetOf page limit
      · rw [if_pos hoffset] at hr
        cases hr
        exact .page ha hlegible hoffset
      · rw [if_neg hoffset] at hr
        cases hr

end Run

end Logs

end Chis
