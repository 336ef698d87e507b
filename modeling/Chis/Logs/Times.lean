import Chis.Api.Rules
import Chis.Base.Rfc3339

/-!
# The times that the log shows

The list formats its times with `time.RFC3339`, the view of one message with a layout that ends in
the letter `Z`. Both format the clock of the server's zone.
-/

namespace Chis.Logs

open Program Api Calendar

/-- A member of a document. -/
def member (key : String) : Json Decimal → Option (Json Decimal)
  | .obj ms => ms.lookup key
  | _ => none

/-- What a member of a document says, read as a timestamp. -/
def reading (key : String) (doc : Json Decimal) : Option Int :=
  match member key doc with
  | some (.str text) => readRfc3339 text
  | _ => none

/-- The text of an attempt denotes its instant to the second, as does every entry of the list that is
made from that instant. -/
structure AttemptTold (env : Env) (a : DeliveryAttempt) (doc : Json Decimal) : Prop where
  attemptedAt : reading "attemptedAt" doc = some (a.attemptedAt / 1000000)
  agrees : ∀ row : MessageRepository.WebhookLogRow, row.attemptedAt = a.attemptedAt →
    reading "attemptedAt" (webhookLogJSON env row) = reading "attemptedAt" doc

/-- The texts of the view of one message denote the instants that are stored, to the second. -/
structure TimesTold (env : Env) (msg : Message) (attempts : List DeliveryAttempt)
    (doc : Json Decimal) : Prop where
  createdAt : reading "createdAt" doc = some (msg.createdAt / 1000000)
  updatedAt : reading "updatedAt" doc = some (msg.updatedAt / 1000000)
  nextRetryAt : ∀ t, msg.nextRetryAt = some t → reading "nextRetryAt" doc = some (t / 1000000)
  attempts : ∃ docs, member "deliveryAttempts" doc = some (.arr docs) ∧
    attempts.Forall₂ (AttemptTold env) docs

/-- The instants of a message and its attempts. -/
def instants (msg : Message) (attempts : List DeliveryAttempt) : List Time :=
  msg.createdAt :: msg.updatedAt :: (msg.nextRetryAt.toList ++ attempts.map fun a ↦ a.attemptedAt)

/-- At an instant the server's clock shows UTC, and a year of four digits. -/
def ShowsUtc (env : Env) (t : Time) : Prop :=
  env.zone t = 0 ∧ 0 ≤ clockYear (env.zone t) t ∧ clockYear (env.zone t) t ≤ 9999

section Views

variable {env : Env} {msg : Message} {attempts : List DeliveryAttempt}

/-- The list tells the time in every zone whose offset is a number of minutes. -/
theorem list_tells_time {row : MessageRepository.WebhookLogRow}
    (hy : 0 ≤ clockYear (env.zone row.attemptedAt) row.attemptedAt ∧
      clockYear (env.zone row.attemptedAt) row.attemptedAt ≤ 9999)
    (hmin : env.zone row.attemptedAt % 60 = 0) (hzone : (env.zone row.attemptedAt).natAbs < 86400) :
    reading "attemptedAt" (webhookLogJSON env row) = some (row.attemptedAt / 1000000) :=
  read_rfc3339 hy hmin hzone

private theorem attemptTold_iff {a : DeliveryAttempt} :
    AttemptTold env a (attemptJSON env a) ↔ ShowsUtc env a.attemptedAt := by
  constructor
  · intro h
    exact read_clockZ_iff.mp h.attemptedAt
  · intro h
    have hread : reading "attemptedAt" (attemptJSON env a) = some (a.attemptedAt / 1000000) :=
      read_clockZ_iff.mpr h
    refine ⟨hread, fun row hrow ↦ ?_⟩
    rw [hread, ← hrow]
    rw [← hrow] at h
    exact list_tells_time h.2 (by rw [h.1]; rfl) (by rw [h.1]; decide)

private theorem nextRetryAt_told {doc : Json Decimal} (hdoc : detailJSON env msg attempts = some doc)
    {t : Time} (ht : msg.nextRetryAt = some t) :
    reading "nextRetryAt" doc = some (t / 1000000) ↔ ShowsUtc env t := by
  obtain ⟨payload, -, rfl⟩ := Option.map_eq_some_iff.mp hdoc
  rw [ht]
  exact read_clockZ_iff

/-- The document tells the times exactly if the clock shows UTC at each of them. -/
theorem timesTold_iff {doc : Json Decimal} (hdoc : detailJSON env msg attempts = some doc) :
    TimesTold env msg attempts doc ↔ ∀ t ∈ instants msg attempts, ShowsUtc env t := by
  have hnextTold (t : Time) (ht : msg.nextRetryAt = some t) := nextRetryAt_told hdoc ht
  obtain ⟨payload, -, rfl⟩ := Option.map_eq_some_iff.mp hdoc
  have hattempts : attempts.Forall₂ (AttemptTold env) (attempts.map (attemptJSON env)) ↔
      ∀ a ∈ attempts, ShowsUtc env a.attemptedAt := by
    rw [List.forall₂_map_right_iff, List.forall₂_same]
    exact forall₂_congr fun a _ ↦ attemptTold_iff
  constructor
  · rintro ⟨hcreated, hupdated, hnext, docs, hdocs, htold⟩ t ht
    cases hdocs
    simp only [instants, List.mem_cons, List.mem_append, Option.mem_toList, List.mem_map] at ht
    rcases ht with rfl | rfl | ht | ⟨a, ha, rfl⟩
    · exact read_clockZ_iff.mp hcreated
    · exact read_clockZ_iff.mp hupdated
    · exact (hnextTold t ht).mp (hnext t ht)
    · exact hattempts.mp htold a ha
  · intro h
    simp only [instants, List.forall_mem_cons, List.forall_mem_append, List.forall_mem_map] at h
    obtain ⟨hcreated, hupdated, hnext, htold⟩ := h
    refine ⟨read_clockZ_iff.mpr hcreated, read_clockZ_iff.mpr hupdated, fun t ht ↦ ?_, _, rfl,
      hattempts.mpr htold⟩
    exact (hnextTold t ht).mpr (hnext t (Option.mem_toList.mpr ht))

end Views

/-! ### A server ahead of UTC -/

/-- A server whose zone is one hour ahead of UTC. -/
def aheadEnv : Env := { sampleEnv with zone := fun _ ↦ 3600 }

/-- A message of the epoch. -/
def epochMessage : Message := { Message.zero with id := ⟨1⟩, payload := "\x7b\x7d" }

/-- A store that holds it. -/
def epochDb : Db := { Db.empty with messages := ⟨[epochMessage], by decide⟩ }

private theorem epoch_runs (env : Env) : ∃ w',
    (webhookLogDetail env .nil "00000000-0000-0000-0000-000000000001").run.Runs
      (World.Exec env.toPlatform World.faultless (.client 0)) ⟨epochDb, [], 0, [], []⟩
      (.ok ⟨200, detailJSON env epochMessage []⟩) w' := by
  have hparse : Uuid.parse "00000000-0000-0000-0000-000000000001" = some ⟨1⟩ := rfl
  let ch : Choice := ⟨false, 0, .nil, fun _ ↦ 0, .failed "", []⟩
  obtain ⟨w₁, hx₁, hdb, hclock⟩ := World.exec_sql env.toPlatform World.faultless (.client 0)
    (.messageFindById ⟨1⟩) ch (w := ⟨epochDb, [], 0, [], []⟩) rfl rfl rfl (Int.le_refl 0)
  obtain ⟨w₂, hx₂, -⟩ := World.exec_sql env.toPlatform World.faultless (.client 0)
    (.attemptFindByMessageID ⟨1⟩) ch (w := w₁) rfl rfl rfl (by rw [hclock])
  rw [hdb] at hx₂
  unfold webhookLogDetail
  simp only [hparse]
  exact ⟨w₂, .ok epochMessage, w₁, hx₁, .ok ([] : List DeliveryAttempt), w₂, hx₂, rfl, rfl⟩

private theorem epochJSON (env : Env) : ∃ doc, detailJSON env epochMessage [] = some doc := by
  have hpayload : (Json.parse epochMessage.payload).isSome = true := rfl
  unfold detailJSON
  obtain ⟨payload, hsome⟩ := Option.isSome_iff_exists.mp hpayload
  rw [hsome]
  exact ⟨_, rfl⟩

end Chis.Logs
