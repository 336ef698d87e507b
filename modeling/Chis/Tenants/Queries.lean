import Chis.Logs.Query
import Chis.System.Integrity
import Chis.Tenants.Rows

/-!
# What two stores with the same rows of an organization answer

A query for the rows of an organization has one answer in all stores that agree on these rows,
whatever else they hold.
-/

namespace Chis

open Relational

namespace Tenants

/-! ### Tables -/

section Tables

variable {ρ : Type} {key : ρ → Uuid} {t t' : Table key} {p : ρ → Bool}

private theorem rows_nodup (t : Table key) : t.rows.Nodup := List.Nodup.of_map key t.nodup

/-- Tables with the same rows of a kind have them in some order. -/
theorem filter_perm (h : ∀ r, p r = true → (r ∈ t' ↔ r ∈ t)) :
    (t.rows.filter p).Perm (t'.rows.filter p) := by
  rw [List.perm_ext_iff_of_nodup ((rows_nodup t).filter p) ((rows_nodup t').filter p)]
  intro r
  rw [List.mem_filter, List.mem_filter]
  exact and_congr_left fun hp ↦ (h r hp).symm

/-- Sorted by a key and then by an order of the ids, they are the same list. -/
theorem orderBy_same {sort : ρ → Int} {tie : Uuid → Nat} (htie : Function.Injective tie)
    (h : ∀ r, p r = true → (r ∈ t' ↔ r ∈ t)) :
    orderBy sort (fun r ↦ tie (key r)) (t.rows.filter p) =
      orderBy sort (fun r ↦ tie (key r)) (t'.rows.filter p) := by
  apply orderBy_of_perm (filter_perm h)
  intro r hr r' hr' he
  exact t.eq_of_key (List.mem_of_mem_filter hr) (List.mem_of_mem_filter hr') (htie he)

/-- A row found, where there is at most one. -/
theorem find_same (h : ∀ r, p r = true → (r ∈ t' ↔ r ∈ t))
    (hone : ∀ r ∈ t, ∀ r' ∈ t, p r = true → p r' = true → r = r') :
    t.rows.find? p = t'.rows.find? p := by
  cases hf : t.rows.find? p with
  | none =>
    symm
    rw [List.find?_eq_none] at hf ⊢
    intro r hr hp
    exact hf r ((h r hp).mp hr) hp
  | some r =>
    have hr := List.mem_of_find?_eq_some hf
    have hp := List.find?_some hf
    cases hf' : t'.rows.find? p with
    | none => exact absurd hp (List.find?_eq_none.mp hf' r ((h r hp).mpr hr))
    | some r' =>
      have hp' := List.find?_some hf'
      have hr' := (h r' hp').mp (List.mem_of_find?_eq_some hf')
      rw [hone r hr r' hr' hp hp']

end Tables

/-! ### Queries -/

section Queries

variable {env : Platform} {ch : Choice} {A : Uuid} {db db' : Db} (h : SameRows (· = A) db db')

include h

theorem membership_same (hu : Unique db) (u : Uuid) :
    ((Stmt.membershipFindByUserAndOrgID u A).exec env ch db).1 =
      ((Stmt.membershipFindByUserAndOrgID u A).exec env ch db').1 := by
  change MembershipRepository.findByUserAndOrgID u A db = MembershipRepository.findByUserAndOrgID u A db'
  unfold MembershipRepository.findByUserAndOrgID
  congr 1
  apply find_same
  · intro m hm
    rw [Bool.and_eq_true] at hm
    exact h.memberships m (of_decide_eq_true hm.2)
  · intro m hm m' hm' hp hp'
    simp only [Bool.and_eq_true, decide_eq_true_eq] at hp hp'
    exact hu.memberships m hm m' hm' (Prod.ext (hp.1.trans hp'.1.symm) (hp.2.trans hp'.2.symm))

theorem secret_same : ((Stmt.getSigningSecret A).exec env ch db).1 =
    ((Stmt.getSigningSecret A).exec env ch db').1 := by
  change OrganizationRepository.getSigningSecret A db = OrganizationRepository.getSigningSecret A db'
  unfold OrganizationRepository.getSigningSecret
  congr 1
  apply find_same
  · intro o ho
    exact h.organizations o (of_decide_eq_true ho)
  · intro o ho o' ho' hp hp'
    exact db.organizations.eq_of_key ho ho'
      ((of_decide_eq_true hp).trans (of_decide_eq_true hp').symm)

theorem counts_same : ((Stmt.countByStatus A).exec env ch db).1 =
    ((Stmt.countByStatus A).exec env ch db').1 := by
  have hperm : (db.messages.rows.filter fun m ↦ m.orgID = A).Perm
      (db'.messages.rows.filter fun m ↦ m.orgID = A) :=
    filter_perm fun m hm ↦ h.messages m (of_decide_eq_true hm)
  change Except.ok (MessageRepository.countByStatus A db) =
    Except.ok (MessageRepository.countByStatus A db')
  unfold MessageRepository.countByStatus
  simp only [hperm.length_eq, hperm.countP_eq]

variable (htie : Function.Injective ch.tie)

include htie

theorem apiKeys_same : ((Stmt.apiKeyFindByOrgID A).exec env ch db).1 =
    ((Stmt.apiKeyFindByOrgID A).exec env ch db').1 := by
  change Except.ok (ApiKeyRepository.findByOrgID ch.tie A db) =
    Except.ok (ApiKeyRepository.findByOrgID ch.tie A db')
  unfold ApiKeyRepository.findByOrgID
  rw [orderBy_same htie fun k hk ↦ h.apiKeys k (of_decide_eq_true hk)]

theorem invitations_same : ((Stmt.invitationFindByOrgID A).exec env ch db).1 =
    ((Stmt.invitationFindByOrgID A).exec env ch db').1 := by
  change Except.ok (InvitationRepository.findByOrgID ch.tie A db) =
    Except.ok (InvitationRepository.findByOrgID ch.tie A db')
  unfold InvitationRepository.findByOrgID
  rw [orderBy_same htie fun i hi ↦ h.invitations i (of_decide_eq_true hi)]

omit htie in
/-- The attempts of a message are its organization's. -/
private theorem attempts_iff {m : Message} (hm : m ∈ db.messages) (hA : m.orgID = A)
    (a : DeliveryAttempt) (ha : decide (a.messageID = m.id) = true) :
    a ∈ db'.deliveryAttempts ↔ a ∈ db.deliveryAttempts := by
  have hid := (of_decide_eq_true ha).symm
  constructor
  · intro hmem
    exact ((h.attempts a).mp ⟨hmem, m, (h.messages m hA).mpr hm, hid, hA⟩).1
  · intro hmem
    exact ((h.attempts a).mpr ⟨hmem, m, hm, hid, hA⟩).1

theorem attempts_same {m : Message} (hm : m ∈ db.messages) (hA : m.orgID = A) :
    ((Stmt.attemptFindByMessageID m.id).exec env ch db).1 =
      ((Stmt.attemptFindByMessageID m.id).exec env ch db').1 := by
  change Except.ok (DeliveryAttemptRepository.findByMessageID ch.tie m.id db) =
    Except.ok (DeliveryAttemptRepository.findByMessageID ch.tie m.id db')
  unfold DeliveryAttemptRepository.findByMessageID
  rw [orderBy_same htie (attempts_iff h hm hA)]

private theorem logRow_same {m : Message} (hm : m ∈ db.messages) (hA : m.orgID = A) :
    MessageRepository.logRow ch.tie db m = MessageRepository.logRow ch.tie db' m := by
  unfold MessageRepository.logRow
  rw [orderBy_same htie (attempts_iff h hm hA)]

omit htie in
private theorem selected_same (lower : Char → Char) (status search : String)
    (args : List MessageRepository.Arg) :
    (∃ e, MessageRepository.selectWhere lower (Api.whereClause A status search).1
        ((Api.whereClause A status search).2 ++ args) db = .error e ∧
      MessageRepository.selectWhere lower (Api.whereClause A status search).1
        ((Api.whereClause A status search).2 ++ args) db' = .error e) ∨
    ∃ rows rows', MessageRepository.selectWhere lower (Api.whereClause A status search).1
        ((Api.whereClause A status search).2 ++ args) db = .ok rows ∧
      MessageRepository.selectWhere lower (Api.whereClause A status search).1
        ((Api.whereClause A status search).2 ++ args) db' = .ok rows' ∧ rows.Perm rows' ∧
        ∀ m ∈ rows, m ∈ db.messages ∧ m.orgID = A := by
  by_cases hl : Logs.Legible status search
  · refine .inr ⟨_, _, Logs.selectWhere_matching hl, Logs.selectWhere_matching hl, ?_, ?_⟩
    · apply filter_perm
      intro m hm
      exact h.messages m (of_decide_eq_true hm).1
    · intro m hm
      obtain ⟨hmem, hmatch⟩ := List.mem_filter.mp hm
      exact ⟨hmem, (of_decide_eq_true hmatch).1⟩
  · left
    obtain ⟨e, he⟩ := @Logs.selectWhere_illegible lower A status search args db hl
    refine ⟨e, he, ?_⟩
    -- the filters are refused before any row is looked at
    rcases except_bind_error.mp he with hps | ⟨ps, -, hrows⟩
    · exact except_bind_error.mpr (.inl hps)
    · cases hrows

omit htie in
theorem countLogs_same {status search : String} :
    ((Stmt.countWebhookLogs (Api.whereClause A status search).1
      (Api.whereClause A status search).2).exec env ch db).1 =
      ((Stmt.countWebhookLogs (Api.whereClause A status search).1
        (Api.whereClause A status search).2).exec env ch db').1 := by
  change MessageRepository.countWebhookLogs env.lower _ _ db =
    MessageRepository.countWebhookLogs env.lower _ _ db'
  unfold MessageRepository.countWebhookLogs
  rw [← List.append_nil (Api.whereClause A status search).2]
  rcases selected_same h env.lower status search [] with
    ⟨e, he, he'⟩ | ⟨rows, rows', hr, hr', hperm, -⟩
  · rw [he, he']
  · rw [hr, hr']
    exact congrArg Except.ok hperm.length_eq

theorem pageLogs_same {status search : String} {limit offset : Nat}
    {args : List MessageRepository.Arg} :
    ((Stmt.pageWebhookLogs (Api.whereClause A status search).1 limit offset
      ((Api.whereClause A status search).2 ++ args)).exec env ch db).1 =
      ((Stmt.pageWebhookLogs (Api.whereClause A status search).1 limit offset
        ((Api.whereClause A status search).2 ++ args)).exec env ch db').1 := by
  change MessageRepository.pageWebhookLogs env.lower ch.tie _ _ _ _ db =
    MessageRepository.pageWebhookLogs env.lower ch.tie _ _ _ _ db'
  unfold MessageRepository.pageWebhookLogs
  rcases selected_same h env.lower status search args with
    ⟨e, he, he'⟩ | ⟨rows, rows', hr, hr', hperm, hrows⟩
  · rw [he, he']
    rfl
  · have horder : orderBy (fun m ↦ -m.createdAt) (fun m ↦ ch.tie m.id) rows =
        orderBy (fun m ↦ -m.createdAt) (fun m ↦ ch.tie m.id) rows' := by
      apply orderBy_of_perm hperm
      intro m hm m' hm' he
      exact db.messages.eq_of_key (hrows m hm).1 (hrows m' hm').1 (htie he)
    have hlog (n k : Nat) :
        (((orderBy (fun m ↦ -m.createdAt) (fun m ↦ ch.tie m.id) rows).drop n).take k).map
            (MessageRepository.logRow ch.tie db) =
          (((orderBy (fun m ↦ -m.createdAt) (fun m ↦ ch.tie m.id) rows').drop n).take k).map
            (MessageRepository.logRow ch.tie db') := by
      rw [← horder]
      apply List.map_congr_left
      intro m hm
      have hmem := (mem_orderBy _ _ _ _).mp (List.mem_of_mem_drop (List.mem_of_mem_take hm))
      exact logRow_same h htie (hrows m hmem).1 (hrows m hmem).2
    rw [hr, hr']
    simp only [bind, Except.bind, hlog]

end Queries

end Tenants

end Chis
