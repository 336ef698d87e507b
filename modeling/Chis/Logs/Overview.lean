import Chis.Base.Precision
import Chis.Logs.Pages

/-!
# The numbers of the overview

`DashboardHandler.Stats` counts the messages of an organization by their status, and gives the share
of those that were delivered in percent, computed in doubles and rounded to two decimals. The counts
are those of the log, and the percentage is as near to the exact one as two decimals allow.
-/

namespace Chis.Logs

open Program Api

/-! ### The success rate -/

/-- A number below `2 ^ n` is off by at most `2 ^ (n - 54)` as a double. -/
theorem toDouble_error {q : ℚ} {n : ℕ} (hq : 0 ≤ q) (hlt : q < 2 ^ n) (hn : n ≤ 53) :
    |toDouble q - q| ≤ 2 ^ ((n : ℤ) - 54) := by
  have hbound : (0 : ℚ) < 2 ^ ((n : ℤ) - 54) := zpow_pos (by norm_num) _
  rcases hq.eq_or_lt with rfl | hpos
  · have hzero : toDouble 0 = 0 := by
      rw [toDouble, Double.round, dif_neg (lt_irrefl _)]
      simp [Double.magnitude]
    rw [hzero, sub_zero, abs_zero]
    exact hbound.le
  · have hlt' : q < 2 ^ 53 := hlt.trans_le (pow_le_pow_right₀ (by norm_num) hn)
    obtain ⟨-, x, hx, -⟩ := @Double.round_small false q hpos hlt'
    have hval : toDouble q = x.magnitude := by
      rw [toDouble, hx]
      rfl
    have hlog : Int.log 2 q < n := by
      rw [← Int.lt_zpow_iff_log_lt (by decide) hpos]
      exact_mod_cast hlt
    have hulp : Double.ulpExp q ≤ n - 53 := by
      unfold Double.ulpExp
      omega
    rw [hval]
    calc |x.magnitude - q| ≤ 2 ^ Double.ulpExp q / 2 := Double.round_error hpos hx
      _ ≤ 2 ^ ((n : ℤ) - 53) / 2 := by gcongr; norm_num
      _ = 2 ^ ((n : ℤ) - 54) := by
        rw [show (n : ℤ) - 53 = (n - 54) + 1 by ring, zpow_add_one₀ (by norm_num)]
        ring

/-- The numeral of two decimals is printed as it is. -/
theorem hundredths_value {k : ℕ} (hk : k ≤ 10000) :
    (((Double.round false ((k : ℤ) / 100)).map Double.shortest).getD ⟨false, 0, 0⟩).value =
      k / 100 := by
  let d : Decimal := ⟨false, k, -2⟩
  have hd : d.magnitude = ((k : ℤ) : ℚ) / 100 := by
    simp only [d, Decimal.magnitude, Int.cast_natCast]
    norm_num
    ring
  have hvalue : d.value = k / 100 := by
    rw [Decimal.value, hd]
    simp [d, signed]
  have hsafe : Double.Safe d := by
    rcases Nat.eq_zero_or_pos k with hzero | hpos
    · exact .inl hzero
    · refine .inr ⟨by show k < 10 ^ 15; omega, ?_⟩
      rw [hd]
      have hone : (1 : ℚ) ≤ ((k : ℤ) : ℚ) := by exact_mod_cast hpos
      have hsmall : Double.minNormal ≤ 1 / 100 := by
        calc Double.minNormal ≤ 2 ^ (-7 : ℤ) := zpow_le_zpow_right₀ (by norm_num) (by norm_num)
          _ ≤ 1 / 100 := by norm_num
      linarith
  have hsome : ∃ x, Double.round false (((k : ℤ) : ℚ) / 100) = some x := by
    rcases Nat.eq_zero_or_pos k with rfl | hpos
    · simp [Double.round]
    · have hle : ((k : ℤ) : ℚ) ≤ 10000 := by exact_mod_cast hk
      have hpos' : (0 : ℚ) < ((k : ℤ) : ℚ) := by exact_mod_cast hpos
      have hlt : ((k : ℤ) : ℚ) / 100 < 2 ^ 53 := by
        calc ((k : ℤ) : ℚ) / 100 ≤ 10000 / 100 := by gcongr
          _ < 2 ^ 53 := by norm_num
      obtain ⟨-, x, hx, -⟩ := @Double.round_small false _ (by positivity) hlt
      exact ⟨x, hx⟩
  obtain ⟨x, hx⟩ := hsome
  have hof : Double.ofDecimal d = some x := by
    rw [Double.ofDecimal, hd]
    exact hx
  rw [hx, Option.map_some, Option.getD_some, Double.value_shortest hsafe hof, hvalue]

theorem toDouble_nonneg (q : ℚ) : 0 ≤ toDouble q := by
  unfold toDouble
  cases Double.round false q with
  | none => exact le_rfl
  | some x =>
    show 0 ≤ (x.mant : ℚ) * 2 ^ x.exp
    exact mul_nonneg (Nat.cast_nonneg _) (zpow_nonneg (by norm_num) _)

/-- The rate has two decimals, the last of which is the nearest but for the errors of two roundings
to doubles. -/
theorem successRate_near {total sent : ℕ} (hpos : 0 < total) (hle : sent ≤ total) :
    ∃ k : ℕ, k ≤ 10000 ∧ (successRate total sent).value = k / 100 ∧
      |(k : ℚ) - 10000 * (sent / total)| ≤ 1 / 2 + 1 / 10 ^ 11 := by
  have ht : (0 : ℚ) < total := by exact_mod_cast hpos
  have hs : (sent : ℚ) ≤ total := by exact_mod_cast hle
  have hq : (0 : ℚ) ≤ sent / total := by positivity
  have hq' : (sent : ℚ) / total ≤ 1 := (div_le_one ht).mpr hs
  have h₁ := toDouble_error (n := 1) hq (by linarith) (by decide)
  have hshare := toDouble_nonneg (sent / total)
  rw [abs_le] at h₁
  norm_num at h₁
  have h₂ := toDouble_error (n := 14) (q := toDouble (sent / total) * 10000) (by positivity)
    (by linarith) (by decide)
  have hscaled := toDouble_nonneg (toDouble (sent / total) * 10000)
  rw [abs_le] at h₂
  norm_num at h₂
  generalize hb : toDouble (toDouble (sent / total) * 10000) = b at h₂ hscaled
  -- The last rounding, to an integer.
  have hfloor := Int.floor_le (b + 1 / 2)
  have hfloor' := Int.lt_floor_add_one (b + 1 / 2)
  have hk : 0 ≤ roundHalfUp b := Int.floor_nonneg.mpr (by linarith)
  obtain ⟨k, hk⟩ := Int.eq_ofNat_of_zero_le hk
  have hcast : ((⌊b + 1 / 2⌋ : ℤ) : ℚ) = k := by
    rw [show ⌊b + 1 / 2⌋ = roundHalfUp b from rfl, hk]
    rfl
  rw [hcast] at hfloor hfloor'
  have hk' : k ≤ 10000 := by
    have hlt : (k : ℚ) < (10001 : ℕ) := by
      push_cast
      linarith
    have hlt' : k < 10001 := by exact_mod_cast hlt
    omega
  refine ⟨k, hk', ?_, ?_⟩
  · rw [successRate, if_neg hpos.ne', hb]
    simp only [hk]
    exact hundredths_value hk'
  · rw [abs_le]
    constructor <;> linarith

/-! ### The counts -/

/-- The log can be read for a status, and whichever page is read reports this total. -/
structure Reports (env : Env) (i : Proc) (db : Db) (orgID : Uuid) (status : String) (total : ℕ) :
    Prop where
  read : ∃ result, Fetched env i db orgID status "" 1 20 (.ok result)
  total : ∀ page limit result, 1 ≤ page → 1 ≤ limit →
    Fetched env i db orgID status "" page limit (.ok result) → result.total = total

/-- The numbers of the overview are the totals of the log by status, and the rate is the share of the
messages sent, in percent with two decimals. -/
structure Tallies (env : Env) (i : Proc) (db : Db) (orgID : Uuid) (sent failed queued : ℕ)
    (rate : ℚ) : Prop where
  success : Reports env i db orgID "success" sent
  failure : Reports env i db orgID "failed" failed
  waiting : ∃ pending retry, Reports env i db orgID "pending" pending ∧
    Reports env i db orgID "retry" retry ∧ pending + retry = queued
  all : Reports env i db orgID "" (sent + failed + queued)
  decimals : ∃ k : ℕ, k ≤ 10000 ∧ rate = k / 100
  near : 0 < sent + failed + queued →
    |rate - 100 * (sent / (sent + failed + queued : ℕ))| ≤ 1 / 200 + 1 / 10 ^ 13
  nothing : sent = 0 → rate = 0
  everything : 0 < sent → failed + queued = 0 → rate = 100

section Counts

variable {env : Env} {i : Proc} {db : Db} {orgID : Uuid} {status : String}

theorem reports_matching (h : Legible status "") :
    Reports env i db orgID status (matching env.lower orgID status "" db).length where
  read := by
    obtain ⟨x, hx, hanswers⟩ := @fetched_of_tie env i db orgID status "" 1 20 (fun _ ↦ 0) (by decide)
      (by decide)
    cases hanswers with
    | page => exact ⟨_, hx⟩
    | error hno => exact absurd ⟨h, by decide⟩ hno
  total page limit result hpage hlimit hfetched := by
    have hanswers := hfetched.answers hpage hlimit
    cases hanswers
    rfl

/-- The messages with a label are those with its status. -/
theorem matching_status (st : MessageStatus) :
    (matching env.lower orgID st.label "" db).length =
      (db.messages.rows.filter fun m ↦ m.orgID = orgID).countP fun m ↦ m.status = st := by
  have hlabel : MessageStatus.ofLabel st.label = some st := by cases st <;> decide
  have hne : st.label ≠ "" := by cases st <;> decide
  rw [List.countP_filter, List.countP_eq_length_filter]
  unfold matching
  congr 1
  apply List.filter_congr
  intro m _
  simp only [Matches, hlabel, hne, Option.some.injEq, false_or, true_or, and_true]
  rw [← Bool.decide_and, decide_eq_decide, eq_comm (a := st), and_comm]

theorem matching_all : (matching env.lower orgID "" "" db).length =
    (db.messages.rows.filter fun m ↦ m.orgID = orgID).length := by
  unfold matching
  simp only [Matches, true_or, and_true]

/-- Every message has one of the four statuses. -/
theorem count_status (rows : List Message) : rows.length =
    rows.countP (fun m ↦ m.status = .success) + rows.countP (fun m ↦ m.status = .failed) +
      (rows.countP (fun m ↦ m.status = .pending) + rows.countP fun m ↦ m.status = .retry) := by
  induction rows with
  | nil => rfl
  | cons m rows ih =>
    simp only [List.countP_cons, List.length_cons, decide_eq_true_eq]
    cases m.status <;> simp <;> omega

theorem count_queued (rows : List Message) :
    rows.countP (fun m ↦ m.status = .pending || m.status = .retry) =
      rows.countP (fun m ↦ m.status = .pending) + rows.countP fun m ↦ m.status = .retry := by
  induction rows with
  | nil => rfl
  | cons m rows ih =>
    simp only [List.countP_cons, Bool.or_eq_true, decide_eq_true_eq] at ih ⊢
    cases m.status <;> simp <;> omega

end Counts

/-! ### The endpoint -/

section Endpoint

variable {env : Env} {i : Proc} {w w' : World} {orgID : Uuid} {x : Except Fault Response}

theorem tallies_counts (db : Db) : Tallies env i db orgID
    (MessageRepository.countByStatus orgID db).sent (MessageRepository.countByStatus orgID db).failed
    (MessageRepository.countByStatus orgID db).queued
    (successRate (MessageRepository.countByStatus orgID db).total
      (MessageRepository.countByStatus orgID db).sent).value := by
  have hreports (st : MessageStatus) : Reports env i db orgID st.label
      ((db.messages.rows.filter fun m ↦ m.orgID = orgID).countP fun m ↦ m.status = st) := by
    rw [← @matching_status env]
    exact reports_matching ⟨fun _ ↦ by cases st <;> decide, by decide⟩
  have hall : Reports env i db orgID "" (db.messages.rows.filter fun m ↦ m.orgID = orgID).length := by
    rw [← @matching_all env]
    exact reports_matching ⟨fun h ↦ absurd rfl h, by decide⟩
  have hsuccess := hreports .success
  have hfailed := hreports .failed
  have hpending := hreports .pending
  have hretry := hreports .retry
  clear hreports
  simp only [MessageRepository.countByStatus, count_queued]
  generalize db.messages.rows.filter (fun m ↦ m.orgID = orgID) = rows at *
  have hcount := count_status rows
  have hle : rows.countP (fun m ↦ m.status = .success) ≤ rows.length := List.countP_le_length
  have hrate : ∃ k : ℕ, k ≤ 10000 ∧
      (successRate rows.length (rows.countP fun m ↦ m.status = .success)).value = k / 100 ∧
      (0 < rows.length → |(k : ℚ) - 10000 * (rows.countP (fun m ↦ m.status = .success) /
        rows.length)| ≤ 1 / 2 + 1 / 10 ^ 11) ∧ (rows.length = 0 → k = 0) := by
    rcases Nat.eq_zero_or_pos rows.length with hzero | hpos
    · refine ⟨0, by decide, ?_, by omega, fun _ ↦ rfl⟩
      rw [successRate, if_pos hzero]
      simp [Decimal.value, Decimal.magnitude, signed]
    · obtain ⟨k, hk, hvalue, hnear⟩ := successRate_near hpos hle
      exact ⟨k, hk, hvalue, fun _ ↦ hnear, by omega⟩
  obtain ⟨k, hk, hvalue, hnear, hnone⟩ := hrate
  generalize rows.countP (fun m ↦ m.status = .success) = sent at *
  generalize rows.countP (fun m ↦ m.status = .failed) = failed at *
  generalize hqueued : rows.countP (fun m ↦ m.status = .pending) +
    rows.countP (fun m ↦ m.status = .retry) = queued at *
  rw [hcount] at hall hnear hnone hvalue
  rw [hcount, hvalue]
  refine ⟨hsuccess, hfailed, ⟨_, _, hpending, hretry, hqueued⟩,
    hall, ⟨k, hk, rfl⟩, fun hpos ↦ ?_, fun hsent ↦ ?_, fun hsent hrest ↦ ?_⟩
  · have := hnear hpos
    rw [abs_le] at this ⊢
    constructor <;> linarith
  · rcases Nat.eq_zero_or_pos (sent + failed + queued) with hzero | hpos
    · rw [hnone hzero, Nat.cast_zero, zero_div]
    · have := (abs_le.mp (hnear hpos)).2
      rw [hsent, Nat.cast_zero, zero_div, mul_zero, sub_zero] at this
      have hlt : (k : ℚ) < (1 : ℕ) := by
        push_cast
        linarith
      have : k = 0 := by
        have := Nat.cast_lt.mp hlt
        omega
      rw [this, Nat.cast_zero, zero_div]
  · have hpos : 0 < sent + failed + queued := by omega
    have := (abs_le.mp (hnear hpos)).1
    have hsum : sent + failed + queued = sent := by omega
    have hne : (sent : ℚ) ≠ 0 := by exact_mod_cast hsent.ne'
    rw [hsum, div_self hne] at this
    have hlt : ((9999 : ℕ) : ℚ) < k := by
      push_cast
      linarith
    have : k = 10000 := by
      have := Nat.cast_lt.mp hlt
      omega
    rw [this]
    norm_num

/-- The overview of an organization that can be read tells the totals of its log and, to two decimals,
the percentage of the messages sent. -/
theorem overview_tallies
    (hrun : (stats orgID).run.Runs (World.Exec env.toPlatform World.faultless i) w x w') :
    ∃ (sent failed queued : ℕ) (rate : Decimal),
      x = .ok (writeJSON 200 (.obj [("totalWebhooksSent", int sent),
        ("totalWebhooksFailed", int failed), ("totalWebhooksQueued", int queued),
        ("successRate", .num rate)])) ∧
      Tallies env i w.db orgID sent failed queued rate.value := by
  have hwp : (stats orgID).run.wp (World.Exec env.toPlatform World.faultless i) (fun x _ ↦
      ∃ (sent failed queued : ℕ) (rate : Decimal),
        x = .ok (writeJSON 200 (.obj [("totalWebhooksSent", int sent),
          ("totalWebhooksFailed", int failed), ("totalWebhooksQueued", int queued),
          ("successRate", .num rate)])) ∧
        Tallies env i w.db orgID sent failed queued rate.value) w := by
    unfold stats
    rw [wp_query_bind]
    constructor
    · intro (counts : MessageRepository.StatusCounts) w₁ hx
      obtain ⟨ch, hexec, -⟩ := World.Exec.sql_faultless hx
      obtain rfl : MessageRepository.countByStatus orgID w.db = counts :=
        Except.ok.inj (congrArg Prod.fst hexec)
      exact ⟨_, _, _, _, rfl, tallies_counts w.db⟩
    · intro e w₁ hx
      obtain ⟨ch, hexec, -⟩ := World.Exec.sql_faultless hx
      cases congrArg Prod.fst hexec
  exact hrun.post hwp

theorem overview_tallies_sample : ∃ (sent failed queued : ℕ) (rate : Decimal) (w' : World),
    (stats .nil).run.Runs (World.Exec sampleEnv.toPlatform World.faultless (.client 0))
      ⟨simultaneous, [], 0, [], []⟩
      (.ok (writeJSON 200 (.obj [("totalWebhooksSent", int sent), ("totalWebhooksFailed", int failed),
        ("totalWebhooksQueued", int queued), ("successRate", .num rate)]))) w' ∧
      Tallies sampleEnv (.client 0) simultaneous .nil sent failed queued rate.value := by
  obtain ⟨w', hx, -⟩ := World.exec_sql sampleEnv.toPlatform World.faultless (.client 0)
    (.countByStatus .nil) ⟨false, 0, .nil, fun _ ↦ 0, .failed "", []⟩
    (w := ⟨simultaneous, [], 0, [], []⟩) rfl rfl rfl (Int.le_refl 0)
  have hrun : (stats .nil).run.Runs (World.Exec sampleEnv.toPlatform World.faultless (.client 0))
      ⟨simultaneous, [], 0, [], []⟩ _ w' :=
    ⟨.ok (MessageRepository.countByStatus .nil simultaneous), w', hx, rfl, rfl⟩
  obtain ⟨sent, failed, queued, rate, heq, htallies⟩ := overview_tallies hrun
  rw [heq] at hrun
  exact ⟨sent, failed, queued, rate, w', hrun, htallies⟩

end Endpoint

end Chis.Logs
