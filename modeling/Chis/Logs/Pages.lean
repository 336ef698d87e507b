import Chis.Accounts.SignUp
import Chis.Logs.Query

/-!
# Page after page of the log

Each page of the log is read by a query of its own, which sorts the messages by the time of their
creation alone. The page number is checked for its sign only, and the offset is computed in 64 bits.
-/

namespace Chis.Logs

open Program Api

/-! ### The number of pages -/

/-- A table of Postgres has fewer than 2^32 pages of 8 kB, which hold at most 291 rows each. -/
def Fits (db : Db) : Prop := db.messages.rows.length < 2 ^ 32 * 291

/-- Below the limits of a table, doubles give the number of pages exactly. -/
theorem totalPages_eq {total : Nat} {limit : Nat} (htotal : total ≤ 2 ^ 52) (hlimit : 0 < limit)
    (hlimit' : limit ≤ 2 ^ 52) : totalPages total limit = ⌈(total : ℚ) / limit⌉ := by
  unfold totalPages
  by_cases hzero : total = 0
  · rw [if_pos hzero, hzero]
    simp
  · rw [if_neg hzero]
    have hpos : 0 < total := Nat.pos_of_ne_zero hzero
    obtain ⟨x, hx, hxm⟩ := @Double.round_natCast false _ hpos (by omega)
    obtain ⟨y, hy, hym⟩ := @Double.round_natCast false _ hlimit (by omega)
    obtain ⟨z, hz, hzm⟩ := @Double.ceil_round_div false _ _ hpos hlimit htotal hlimit'
    have htotal' : toDouble total = total := by
      rw [toDouble, hx]
      exact hxm
    have hlimit' : toDouble ((limit : ℤ) : ℚ) = limit := by
      rw [toDouble, Int.cast_natCast, hy]
      exact hym
    rw [htotal', hlimit', toDouble, hz]
    exact hzm

/-! ### Calls -/

/-- Some call of the log query, made while the tables are `db`. -/
def Fetched (env : Env) (i : Proc) (db : Db) (orgID : Uuid) (status search : String)
    (page limit : Int) (x : Except Err WebhookLogsResult) : Prop :=
  ∃ w w', w.db = db ∧ (findWebhookLogs orgID status search page limit).Runs
    (World.Exec env.toPlatform World.faultless i) w x w'

section Calls

variable {env : Env} {i : Proc} {db : Db} {orgID : Uuid} {status search : String} {page limit : Int}

theorem Fetched.answers {x : Except Err WebhookLogsResult} (hpage : 1 ≤ page) (hlimit : 1 ≤ limit)
    (h : Fetched env i db orgID status search page limit x) :
    Answers env World.faultless orgID status search page limit db x := by
  obtain ⟨w, w', rfl, hrun⟩ := h
  exact (hrun.post (findWebhookLogs_answers (fun _ hf ↦ hf) hpage hlimit)).2

/-- The query only reads. -/
theorem findWebhookLogs_reads : (findWebhookLogs orgID status search page limit).Uses
    fun o ↦ ∃ s : Stmt, o = .sql s ∧ s.inserts = false := by
  unfold findWebhookLogs
  simp only [Prog.monad_bind, Service.sql, Prog.bind_call, Prog.uses_op]
  refine ⟨⟨_, rfl, rfl⟩, fun (r : Except Err Nat) ↦ ?_⟩
  cases r with
  | error e => trivial
  | ok total =>
    refine ⟨⟨_, rfl, rfl⟩, fun (r : Except Err (List MessageRepository.WebhookLogRow)) ↦ ?_⟩
    cases r with
    | error e => trivial
    | ok rows => trivial

/-- A program that only reads can be run at any time, whatever the order of equal keys. -/
private theorem runs_of_reads {α : Type} {p : Service α}
    (hp : p.Uses fun o ↦ ∃ s : Stmt, o = .sql s ∧ s.inserts = false) (tie : Uuid → Nat) (w : World) :
    ∃ x w', p.Runs (World.Exec env.toPlatform (fun ch ↦ ch.fail = false ∧ ch.tie = tie) i) w x w' := by
  induction p generalizing w with
  | pure a => exact ⟨a, w, rfl, rfl⟩
  | op o k ih =>
    obtain ⟨⟨s, rfl, hs⟩, hk⟩ := hp
    obtain ⟨w₁, hx, -⟩ := World.exec_sql env.toPlatform (fun ch ↦ ch.fail = false ∧ ch.tie = tie) i s
      ⟨false, w.clock, .nil, tie, .failed "", []⟩ hs ⟨rfl, rfl⟩ rfl (Int.le_refl w.clock)
    obtain ⟨x, w', hrun⟩ := ih _ (hk _) w₁
    exact ⟨x, w', _, w₁, hx, hrun⟩

/-- Rows with equal keys come in any order. -/
theorem fetched_of_tie (tie : Uuid → Nat) (hpage : 1 ≤ page) (hlimit : 1 ≤ limit) :
    ∃ x, Fetched env i db orgID status search page limit x ∧
      Answers env (fun ch ↦ ch.fail = false ∧ ch.tie = tie) orgID status search page limit db x := by
  obtain ⟨x, w', hrun⟩ := @runs_of_reads env i _ _
    (@findWebhookLogs_reads orgID status search page limit) tie ⟨db, [], 0, [], []⟩
  refine ⟨x, ⟨_, w', rfl, hrun.mono fun o w₁ r w₂ hx ↦ ?_⟩,
    (hrun.post (findWebhookLogs_answers (fun _ ha ↦ ha.1) hpage hlimit)).2⟩
  obtain ⟨ch, ha, hs⟩ := hx
  exact ⟨ch, ha.1, hs⟩

end Calls

/-! ### Page numbers -/

theorem offsetOf_eq_iff {page limit : Int} (h : 0 ≤ (page - 1) * limit) :
    offsetOf page limit = (page - 1) * limit ↔ (page - 1) * limit < 2 ^ 63 := by
  unfold offsetOf
  generalize (page - 1) * limit = offset at h ⊢
  constructor
  · intro he
    have hlt := Int.bmod_lt (x := offset) (m := 2 ^ 64) (by decide)
    omega
  · intro hlt
    apply Int.bmod_eq_of_le <;> omega

/-- Past the range of the offsets, the first ones are negative. -/
theorem offsetOf_neg {page limit : Int} (h : 2 ^ 63 ≤ (page - 1) * limit)
    (h' : (page - 1) * limit < 2 ^ 64) : offsetOf page limit < 0 := by
  unfold offsetOf
  generalize (page - 1) * limit = offset at h h' ⊢
  rw [Int.bmod_def]
  split <;> omega

/-- Whatever page the program reads, it starts at the offset. -/
def ReadsFrom {α : Type} (offset : Int) (p : Service α) : Prop :=
  p.Uses fun o ↦ ∀ conds l n args, o = .sql (.pageWebhookLogs conds l n args) →
    args.getLast? = some (.int offset)

/-- The log query computes the offset of a page, and answers with a list, which is empty past the
end. -/
structure Computed (env : Env) (i : Proc) (page limit : Int) : Prop where
  product : ∀ orgID status search,
    ReadsFrom ((page - 1) * limit) (findWebhookLogs orgID status search page limit)
  nonneg : 0 ≤ (page - 1) * limit
  answered : ∀ db orgID status search x, Legible status search →
    Fetched env i db orgID status search page limit x → ∃ res, x = .ok res ∧
      ((matching env.lower orgID status search db).length ≤ (page - 1) * limit → res.data = [])

theorem readsFrom_iff {orgID : Uuid} {status search : String} {page limit : Int} {offset : Int}
    (hpage : 1 ≤ page) (hlimit : 1 ≤ limit) :
    ReadsFrom offset (findWebhookLogs orgID status search page limit) ↔
      offsetOf page limit = offset := by
  unfold ReadsFrom findWebhookLogs
  dsimp only
  rw [if_neg (by omega), if_neg (by omega), ← offsetOf]
  simp only [Prog.monad_bind, Service.sql, Prog.bind_call, Prog.uses_op]
  constructor
  · rintro ⟨-, h⟩
    have hlast := (h (.ok (0 : Nat))).1 _ _ _ _ rfl
    rw [List.getLast?_append_cons] at hlast
    simpa using hlast
  · intro he
    refine ⟨fun _ _ _ _ hs ↦ (nomatch hs), fun (r : Except Err Nat) ↦ ?_⟩
    cases r with
    | error e => trivial
    | ok total =>
      refine ⟨fun conds l n args hs ↦ ?_, fun (r : Except Err (List _)) ↦ ?_⟩
      · cases hs
        rw [he]
        simp
      · cases r with
        | error e => trivial
        | ok rows => trivial

theorem computed_iff {env : Env} {i : Proc} {page limit : Int} (hpage : 1 ≤ page)
    (hlimit : 1 ≤ limit) : Computed env i page limit ↔ (page - 1) * limit < 2 ^ 63 := by
  have hnonneg : 0 ≤ (page - 1) * limit := Int.mul_nonneg (by omega) (by omega)
  rw [← offsetOf_eq_iff hnonneg]
  constructor
  · exact fun h ↦ (readsFrom_iff hpage hlimit).mp (h.product .nil "" "")
  · intro he
    refine ⟨fun _ _ _ ↦ (readsFrom_iff hpage hlimit).mpr he, hnonneg, ?_⟩
    intro db orgID status search x hlegible hfetched
    cases hfetched.answers hpage hlimit with
    | @page ch =>
      refine ⟨_, rfl, fun hend ↦ ?_⟩
      simp only [listed, List.map_eq_nil_iff, List.take_eq_nil_iff, List.drop_eq_nil_iff]
      right
      rw [(orderBy_perm _ _ _).length_eq, he]
      omega
    | error hno => exact absurd ⟨hlegible, he ▸ hnonneg⟩ hno

theorem pageOf_pos (v : String) : 1 ≤ pageOf v := by
  unfold pageOf
  split
  · split <;> omega
  · omega

theorem limitOf_range (v : String) : 1 ≤ limitOf v ∧ limitOf v ≤ 100 := by
  unfold limitOf
  split
  · split <;> omega
  · omega

/-- For the texts of a page number and of a limit, the offset is computed exactly if the product is a
64-bit integer. -/
theorem page_arithmetic_iff (env : Env) (i : Proc) (page limit : String) :
    Computed env i (pageOf page) (limitOf limit) ↔
      (pageOf page - 1) * limitOf limit < 2 ^ 63 :=
  computed_iff (pageOf_pos page) (limitOf_range limit).1

/-- The last page number that is accepted. -/
theorem last_page_overflows :
    ¬ Computed sampleEnv (.client 0) (pageOf "9223372036854775807") (limitOf "20") := by
  rw [computed_iff (pageOf_pos _) (limitOf_range _).1]
  decide +kernel

/-! ### All pages -/

section Pages

variable {env : Env} {i : Proc} {db : Db} {orgID : Uuid} {status search : String}

/-- The sort key of the log: the newest message comes first. -/
def logKey (m : Message) : Int := -m.createdAt

/-- How many pages there are. -/
def pageCount (total : Nat) (limit : Int) : Int := ⌈(total : ℚ) / limit⌉

/-- Calls for the pages from 1 to `last`, one after another, while the tables are `db`: each answers
with the number of pages, and with nothing past the end; and the pages up to the end have every
message that matches, once. -/
structure Paginates (env : Env) (i : Proc) (db : Db) (orgID : Uuid) (status search : String)
    (limit last : Int) : Prop where
  answered : ∀ page x, 1 ≤ page → page ≤ last →
    Fetched env i db orgID status search page limit x → ∃ res, x = .ok res ∧
      res.totalPages = pageCount (matching env.lower orgID status search db).length limit ∧
      (res.totalPages < page → res.data = [])
  once : ∀ pages : Nat,
    (pages : Int) = pageCount (matching env.lower orgID status search db).length limit →
    ∀ res : Nat → WebhookLogsResult,
      (∀ n : Nat, n < pages →
        Fetched env i db orgID status search (n + 1) limit (.ok (res n))) →
      ((List.range pages).flatMap fun n ↦ (res n).data.map fun row ↦ row.id).Perm
        ((matching env.lower orgID status search db).map Message.id)

/-- Page `n` from 0 of the messages in some order. -/
theorem listed_ids {tie : Uuid → Nat} {limit n : Nat} (hn : n * limit < 2 ^ 63) :
    (listed env tie orgID status search (n + 1) limit db).map (fun row ↦ row.id) =
      (Paging.page limit n (orderBy logKey (fun m ↦ tie m.id)
        (matching env.lower orgID status search db))).map Message.id := by
  have hproduct : ((n : Int) + 1 - 1) * limit = ((n * limit : Nat) : Int) := by
    rw [Int.add_sub_cancel]
    push_cast
    rfl
  have hoffset : offsetOf (n + 1) limit = ((n * limit : Nat) : Int) := by
    rw [(offsetOf_eq_iff (by omega)).mpr (by omega), hproduct]
  rw [listed, hoffset, List.map_map]
  rfl

private theorem perm_of_ids {ρ κ : Type} {id : ρ → κ} {l rows : List ρ} (hid : (rows.map id).Nodup)
    (hsub : ∀ r ∈ l, r ∈ rows) (h : (l.map id).Perm (rows.map id)) : l.Perm rows := by
  have hl : l.Nodup := (h.nodup_iff.mpr hid).of_map
  refine (List.perm_ext_iff_of_nodup hl hid.of_map).mpr fun r ↦ ⟨hsub r, fun hr ↦ ?_⟩
  obtain ⟨r', hr', he⟩ := List.mem_map.mp (h.mem_iff.mpr (List.mem_map_of_mem (f := id) hr))
  rwa [← List.inj_on_of_nodup_map hid (hsub r' hr') hr he]

theorem le_pageCount {total limit : Nat} (hlimit : 0 < limit) {pages : Nat}
    (hpages : (pages : Int) = pageCount total limit) : total ≤ pages * limit := by
  have hceil := Int.le_ceil ((total : ℚ) / ((limit : ℤ) : ℚ))
  rw [pageCount] at hpages
  rw [← hpages, Int.cast_natCast, div_le_iff₀ (by exact_mod_cast hlimit)] at hceil
  exact_mod_cast hceil

theorem lt_of_pageCount {total limit : Nat} (hlimit : 0 < limit) {n pages : Nat}
    (hpages : (pages : Int) = pageCount total limit) (hn : n < pages) : n * limit < total := by
  have hceil : (n : Int) < pageCount total limit := by omega
  rw [pageCount, Int.lt_ceil, Int.cast_natCast, Int.cast_natCast,
    lt_div_iff₀ (by exact_mod_cast hlimit)] at hceil
  exact_mod_cast hceil

theorem pageCount_nonneg {total limit : Nat} : 0 ≤ pageCount total limit :=
  Int.ceil_nonneg (by positivity)

theorem flatMap_ids {pages limit : Nat} (l : Nat → List Message) :
    ((List.range pages).flatMap fun n ↦ (Paging.page limit n (l n)).map Message.id) =
      ((List.range pages).flatMap fun n ↦ Paging.page limit n (l n)).map Message.id := by
  rw [List.map_flatMap]

/-- The pages have every message once, whatever the order of messages of one time, only if no page
ends between two of one time. -/
private theorem whole_of_once {limit : Nat} (hlimit : 0 < limit) (hlegible : Legible status search)
    {pages : Nat} (hpages : (pages : Int) =
      pageCount (matching env.lower orgID status search db).length limit)
    (hrange : ∀ n, n < pages → n * limit < 2 ^ 63)
    (h : ∀ res : Nat → WebhookLogsResult,
      (∀ n : Nat, n < pages → Fetched env i db orgID status search (n + 1) limit (.ok (res n))) →
      ((List.range pages).flatMap fun n ↦ (res n).data.map fun row ↦ row.id).Perm
        ((matching env.lower orgID status search db).map Message.id)) :
    Paging.Whole logKey (matching env.lower orgID status search db) limit := by
  have hids := @matching_ids env.lower orgID status search db
  refine Paging.whole_of_pages hids.of_map hlimit
    (orderBy_ordered logKey (fun _ ↦ 0) _) (le_pageCount hlimit hpages) fun l hl ↦ ?_
  -- each page is sorted as `l` has it
  let tie (n : Nat) (id : Uuid) : Nat := ((l n).map Message.id).idxOf id
  let res (n : Nat) : WebhookLogsResult :=
    ⟨listed env (tie n) orgID status search (n + 1) limit db,
      (matching env.lower orgID status search db).length, n + 1, limit,
      totalPages (matching env.lower orgID status search db).length limit⟩
  have hres (n : Nat) (hn : n < pages) :
      Fetched env i db orgID status search (n + 1) limit (.ok (res n)) := by
    have hlt := hrange n hn
    obtain ⟨x, hx, hanswer⟩ := @fetched_of_tie env i db orgID status search (n + 1) limit
      (tie n) (by omega) (by omega)
    cases hanswer with
    | @page ch hch =>
      rw [hch.2] at hx
      exact hx
    | error hno =>
      refine absurd ⟨hlegible, ?_⟩ hno
      have hproduct : ((n : Int) + 1 - 1) * limit = ((n * limit : Nat) : Int) := by
        rw [Int.add_sub_cancel]
        push_cast
        rfl
      rw [(offsetOf_eq_iff (by omega)).mpr (by omega), hproduct]
      exact Int.natCast_nonneg _
  have hperm := h res hres
  have hpage (n : Nat) (hn : n ∈ List.range pages) : ((res n).data.map fun row ↦ row.id) =
      (Paging.page limit n (l n)).map Message.id := by
    rw [listed_ids (hrange n (List.mem_range.mp hn)), orderBy_eq (hl n) hids]
  rw [List.flatMap_congr hpage, flatMap_ids] at hperm
  refine perm_of_ids hids (fun m hm ↦ ?_) hperm
  obtain ⟨n, -, hm⟩ := List.mem_flatMap.mp hm
  exact (hl n).perm.mem_iff.mp (List.mem_of_mem_drop (List.mem_of_mem_take hm))

/-- The first page number that is too large is answered with an error. -/
private theorem range_of_answered {limit : Nat} (hlimit : 1 ≤ limit ∧ limit ≤ 100) {last : Int}
    (h : ∀ page x, 1 ≤ page → page ≤ last →
      Fetched env i db orgID status search page limit x → ∃ res, x = .ok res) :
    (last - 1) * limit < 2 ^ 63 := by
  by_contra! hlarge
  have hdiv := Int.ediv_mul_add_emod (2 ^ 63 - 1) (limit : Int)
  have hmod := Int.emod_nonneg (2 ^ 63 - 1) (show (limit : Int) ≠ 0 by omega)
  have hmod' := Int.emod_lt_of_pos (2 ^ 63 - 1) (show (0 : Int) < limit by omega)
  have hquot : 0 ≤ (2 ^ 63 - 1) / (limit : Int) := Int.ediv_nonneg (by decide) (by omega)
  generalize (2 ^ 63 - 1) / (limit : Int) = k at hdiv hquot
  generalize (2 ^ 63 - 1) % (limit : Int) = m at hdiv hmod hmod'
  have hnext : (k + 2 - 1) * limit = k * limit + limit := by ring
  have hk : k + 2 ≤ last := by
    by_contra hlt
    have := Int.mul_le_mul_of_nonneg_right (show last - 1 ≤ k by omega)
      (show (0 : Int) ≤ limit by omega)
    omega
  obtain ⟨x, hx, hanswer⟩ := @fetched_of_tie env i db orgID status search (k + 2) limit
    (fun _ ↦ 0) (by omega) (by omega)
  obtain ⟨res, rfl⟩ := h _ x (by omega) hk hx
  cases hanswer with
  | page _ _ hoffset => exact absurd (offsetOf_neg (by omega) (by omega)) (Int.not_lt.mpr hoffset)

/-- What a call answers for a page in range. -/
private theorem Fetched.page {limit : Nat} (hlimit : 1 ≤ limit) {page : Int} (hpage : 1 ≤ page)
    (hlegible : Legible status search) (hrange : (page - 1) * limit < 2 ^ 63)
    {x : Except Err WebhookLogsResult} (h : Fetched env i db orgID status search page limit x) :
    ∃ tie, x = .ok ⟨listed env tie orgID status search page limit db,
      (matching env.lower orgID status search db).length, page, limit,
      totalPages (matching env.lower orgID status search db).length limit⟩ := by
  have hnonneg : 0 ≤ (page - 1) * limit := Int.mul_nonneg (by omega) (by omega)
  cases h.answers hpage (by omega) with
  | @page ch => exact ⟨ch.tie, rfl⟩
  | error hno =>
    refine absurd ⟨hlegible, ?_⟩ hno
    rw [(offsetOf_eq_iff hnonneg).mpr hrange]
    exact hnonneg

/-- Two messages that were created at one time. -/
def simultaneous : Db :=
  { Db.empty with
    messages := ⟨[{ Message.zero with id := ⟨1⟩ }, { Message.zero with id := ⟨2⟩ }], by decide⟩ }

end Pages

end Chis.Logs
