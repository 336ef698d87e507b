import Chis.Web.Pending

/-!
# What the server does with a request

Every answer leaves the list of the user right, apart from what that answer will change: a membership
is announced once, and nothing is announced of an organization that is gone.
-/

namespace Chis.Web

namespace Client

section Answers

variable {s s' : Client} {r : Request} {reply : Reply}

private theorem loading_answer (h : s.Loading) : (s.answer r reply).Loading := by
  obtain ⟨p, hp, hl⟩ := h
  by_cases he : p = r
  · subst he
    exact ⟨_, List.mem_cons_self, hl⟩
  · exact ⟨p, List.mem_cons_of_mem _ ((List.mem_erase_of_ne he).mpr hp), hl⟩

private theorem Dated.answer (h : s.Dated) (hr : r ∈ s.requests) : (s.answer r reply).Dated where
  session p hp := by
    cases List.mem_cons.mp hp with
    | inl he => exact he ▸ h.session r hr
    | inr hp => exact h.session p (List.mem_of_mem_erase hp)
  user p hp := by
    cases List.mem_cons.mp hp with
    | inl he => exact he ▸ h.user r hr
    | inr hp => exact h.user p (List.mem_of_mem_erase hp)

variable (hr : r ∈ s.requests) (hnone : r.reply = none)

include hr hnone

/-- An answer that tells of nothing. -/
private theorem Inv.answer (hi : s.Inv) (hq : Request.Quiet { r with reply := some reply }) :
    (s.answer r reply).Inv where
  toSound := by
    refine hi.toSound.requests rfl rfl (fun p hp ↦ ?_) ?_
    · cases List.mem_cons.mp hp with
      | inl he => exact .inl (he ▸ hq)
      | inr hp => exact .inr ⟨p, List.mem_of_mem_erase hp, .refl p⟩
    · show (List.filterMap Request.joined (_ :: s.requests.erase r)).Nodup
      rw [List.filterMap_cons_none hq.joined]
      exact joined_erase hi.joined
  toDated := hi.toDated.answer hr
  list u hu := by
    have hquiet := Request.quiet_of_none hnone
    refine (hi.list u hu).imp loading_answer fun h ↦ h.congr (fun _ ↦ .rfl) (fun x ↦ ?_)
      (fun x ↦ ?_) rfl rfl
    · exact (exists_replace (Request.not_joins_of_none hquiet.joined u x)).trans
        (or_iff_left (Request.not_joins_of_none hq.joined u x))
    · exact (exists_replace (hquiet.removes x)).trans (or_iff_left (hq.removes x))

/-- An organization that a user can join: nobody's answer about it is open but those of its members. -/
private structure Joinable (s : Client) (u : UserId) (x : OrgId) : Prop where
  has : ¬ s.Has u x
  leaving : ¬ s.Leaving x
  pending : ∀ p ∈ s.requests, ∀ v, p.joined = some (v, x) → s.Has v x

omit hr hnone in
private theorem Sound.joinable_alive {u : UserId} {x : OrgId} (h : s.Sound) (ha : s.Alive x)
    (hno : ¬ s.Has u x) : s.Joinable u x where
  has := hno
  leaving hl := (h.removed x hl).1 ha
  pending p hp v hv := (h.member p hp v x hv).1.resolve_right fun hn ↦ hn ha

omit hr hnone in
private theorem Sound.joinable_new {u : UserId} {x : OrgId} (h : s.Sound) (hx : x ∉ s.issued) :
    s.Joinable u x where
  has hh := hx (h.alive_issued hh.alive)
  leaving hl := hx (h.removed x hl).2
  pending p hp v hv := absurd (h.member p hp v x hv).2 hx

/-- A user joins an organization. -/
private theorem Inv.joins {org : Organization Unit} {issued : List OrgId} (hi : s.Inv)
    (hnew : s.Joinable r.user org.id) (hsub : ∀ y ∈ s.issued, y ∈ issued) (hmem : org.id ∈ issued)
    (hj : Request.joined { r with reply := some (.joined org) } = some (r.user, org.id))
    (hok : s.user = some r.user → s.Loading ∨ r.lost = false) :
    Inv ({ s with members := ⟨r.user, org⟩ :: s.members, issued := issued }.answer r
      (.joined org)) := by
  have hquiet := Request.quiet_of_none hnone
  have hremoves (x : OrgId) : ¬ Request.Removes x { r with reply := some (.joined org) } :=
    fun h ↦ nomatch h.2
  set s₁ : Client := { s with members := ⟨r.user, org⟩ :: s.members, issued := issued } with hs₁
  have hhas (u : UserId) (y : OrgId) :
      (s₁.answer r (.joined org)).Has u y ↔ s.Has u y ∨ u = r.user ∧ y = org.id := by
    show (∃ m ∈ (⟨r.user, org⟩ : Member) :: s.members, m.user = u ∧ m.org.id = y) ↔ _
    rw [List.exists_mem_cons_iff, or_comm]
    exact or_congr .rfl (and_congr eq_comm eq_comm)
  have halive (y : OrgId) :
      (s₁.answer r (.joined org)).Alive y ↔ s.Alive y ∨ y = org.id := by
    show (∃ m ∈ (⟨r.user, org⟩ : Member) :: s.members, m.org.id = y) ↔ _
    rw [List.exists_mem_cons_iff, or_comm]
    exact or_congr .rfl eq_comm
  have hjoining (u : UserId) (y : OrgId) : (s₁.answer r (.joined org)).Joining u y ↔
      s.Joining u y ∨ r.lost = false ∧ (r.user, org.id) = (u, y) := by
    refine (exists_replace (Request.not_joins_of_none hquiet.joined u y)).trans (or_congr .rfl ?_)
    unfold Request.Joins
    rw [hj, Option.some_inj]
    rfl
  have hleaving (y : OrgId) : (s₁.answer r (.joined org)).Leaving y ↔ s.Leaving y :=
    (exists_replace (hquiet.removes y)).trans (or_iff_left (hremoves y))
  have hdated : s₁.Dated := ⟨hi.session, hi.user⟩
  refine ⟨⟨?_, ?_, ?_, ?_, ?_, ?_⟩, hdated.answer hr, ?_⟩
  · refine List.nodup_cons.mpr ⟨fun h ↦ hnew.has ?_, hi.nodup⟩
    obtain ⟨m, hm, he⟩ := List.mem_map.mp h
    exact ⟨m, hm, congrArg Prod.fst he, congrArg Prod.snd he⟩
  · intro m hm
    cases List.mem_cons.mp hm with
    | inl he => exact he ▸ hmem
    | inr hm => exact hsub _ (hi.issued m hm)
  · show (List.filterMap Request.joined (_ :: s.requests.erase r)).Nodup
    rw [List.filterMap_cons_some hj]
    refine List.nodup_cons.mpr ⟨fun h ↦ hnew.has ?_, joined_erase hi.joined⟩
    obtain ⟨p, hp, he⟩ := List.mem_filterMap.mp h
    exact hnew.pending p (List.mem_of_mem_erase hp) _ he
  · intro p hp u y hy
    rw [hhas, halive]
    cases List.mem_cons.mp hp with
    | inl he =>
      rw [he, hj] at hy
      cases hy
      exact ⟨.inl (.inr ⟨rfl, rfl⟩), hmem⟩
    | inr hp =>
      have hp := List.mem_of_mem_erase hp
      obtain ⟨hh, hiss⟩ := hi.member p hp u y hy
      refine ⟨?_, hsub y hiss⟩
      by_cases he : y = org.id
      · exact .inl (.inl (he ▸ hnew.pending p hp u (he ▸ hy)))
      · exact hh.imp .inl fun hn ↦ not_or.mpr ⟨hn, he⟩
  · intro y hy
    rw [halive]
    have hl := (hleaving y).mp hy
    have hne : y ≠ org.id := fun he ↦ hnew.leaving (he ▸ hl)
    exact ⟨not_or.mpr ⟨(hi.removed y hl).1, hne⟩, hsub y (hi.removed y hl).2⟩
  · intro p hp orgs ho
    cases List.mem_cons.mp hp with
    | inl he =>
      rw [he] at ho
      cases ho
    | inr hp => exact hi.listed p (List.mem_of_mem_erase hp) orgs ho
  · intro u hu
    by_cases hload : s.Loading
    · exact .inl (loading_answer hload)
    have hset := (hi.list u hu).resolve_left hload
    refine .inr ?_
    by_cases he : u = r.user
    · subst he
      have hlost := (hok hu).resolve_left hload
      refine hset.refit ?_
      have hleaving : (s₁.answer r (.joined org)).Leaving = s.Leaving :=
        funext fun x ↦ propext (hleaving x)
      rw [hleaving]
      refine hset.fits.gain (fun y ↦ ?_) (fun y ↦ ?_) hnew.has hnew.leaving
      · exact (hhas _ y).trans (or_congr .rfl (and_iff_right rfl))
      · refine (hjoining _ y).trans (or_congr .rfl ⟨fun h ↦ ?_, fun h ↦ ⟨hlost, ?_⟩⟩)
        · exact (congrArg Prod.snd h.2).symm
        · rw [h]
    · refine hset.congr (fun y ↦ ?_) (fun y ↦ ?_) hleaving rfl rfl
      · exact (hhas u y).trans (or_iff_left fun h ↦ he h.1)
      · exact (hjoining u y).trans (or_iff_left fun h ↦ he (congrArg Prod.fst h.2).symm)

/-- A member deletes an organization. -/
private theorem Inv.deletes {x : OrgId} (hi : s.Inv) (hp : r.purpose = .delete x)
    (hhas : s.Has r.user x) :
    Inv ({ s with members := s.members.filter fun m ↦ m.org.id ≠ x }.answer r .deleted) := by
  have hquiet := Request.quiet_of_none hnone
  set s₁ : Client := { s with members := s.members.filter fun m ↦ m.org.id ≠ x }
  have hj : Request.joined { r with reply := some .deleted } = none := by
    unfold Request.joined
    rw [hp]
  have hhas' (u : UserId) (y : OrgId) :
      (s₁.answer r .deleted).Has u y ↔ s.Has u y ∧ y ≠ x := by
    constructor
    · rintro ⟨m, hm, hu, rfl⟩
      obtain ⟨hm, hne⟩ := List.mem_filter.mp hm
      exact ⟨⟨m, hm, hu, rfl⟩, of_decide_eq_true hne⟩
    · rintro ⟨⟨m, hm, hu, rfl⟩, hne⟩
      exact ⟨m, List.mem_filter.mpr ⟨hm, decide_eq_true hne⟩, hu, rfl⟩
  have halive (y : OrgId) : (s₁.answer r .deleted).Alive y ↔ s.Alive y ∧ y ≠ x := by
    constructor
    · rintro ⟨m, hm, rfl⟩
      obtain ⟨hm, hne⟩ := List.mem_filter.mp hm
      exact ⟨⟨m, hm, rfl⟩, of_decide_eq_true hne⟩
    · rintro ⟨⟨m, hm, rfl⟩, hne⟩
      exact ⟨m, List.mem_filter.mpr ⟨hm, decide_eq_true hne⟩, rfl⟩
  have hjoining (u : UserId) (y : OrgId) :
      (s₁.answer r .deleted).Joining u y ↔ s.Joining u y :=
    (exists_replace (Request.not_joins_of_none hquiet.joined u y)).trans
      (or_iff_left (Request.not_joins_of_none hj u y))
  have hleaving (y : OrgId) : (s₁.answer r .deleted).Leaving y ↔ s.Leaving y ∨ y = x := by
    refine (exists_replace (hquiet.removes y)).trans (or_congr .rfl ⟨fun h ↦ ?_, fun h ↦ ⟨?_, rfl⟩⟩)
    · exact (Purpose.delete.inj (hp.symm.trans h.1)).symm
    · exact hp.trans (congrArg _ h.symm)
  have hdated : s₁.Dated := ⟨hi.session, hi.user⟩
  refine ⟨⟨?_, ?_, ?_, ?_, ?_, ?_⟩, hdated.answer hr, ?_⟩
  · exact hi.nodup.sublist (List.filter_sublist.map _)
  · exact fun m hm ↦ hi.issued m (List.mem_filter.mp hm).1
  · show (List.filterMap Request.joined (_ :: s.requests.erase r)).Nodup
    rw [List.filterMap_cons_none hj]
    exact joined_erase hi.joined
  · intro p hp u y hy
    rw [hhas', halive]
    cases List.mem_cons.mp hp with
    | inl he =>
      rw [he, hj] at hy
      cases hy
    | inr hp =>
      obtain ⟨hh, hiss⟩ := hi.member p (List.mem_of_mem_erase hp) u y hy
      refine ⟨?_, hiss⟩
      by_cases he : y = x
      · exact .inr fun h ↦ h.2 he
      · exact hh.imp (fun hh ↦ ⟨hh, he⟩) fun hn h ↦ hn h.1
  · intro y hy
    rw [halive]
    cases (hleaving y).mp hy with
    | inl hl => exact ⟨fun h ↦ (hi.removed y hl).1 h.1, (hi.removed y hl).2⟩
    | inr he => exact ⟨fun h ↦ h.2 he, he ▸ hi.alive_issued hhas.alive⟩
  · intro p hp orgs ho
    cases List.mem_cons.mp hp with
    | inl he =>
      rw [he] at ho
      cases ho
    | inr hp => exact hi.listed p (List.mem_of_mem_erase hp) orgs ho
  · intro u hu
    refine (hi.list u hu).imp loading_answer fun hset ↦ hset.refit ?_
    have hjoining : (s₁.answer r .deleted).Joining u = s.Joining u :=
      funext fun y ↦ propext (hjoining u y)
    rw [hjoining]
    exact hset.fits.lose (hhas' u) hleaving

/-- The server handles a request. -/
theorem Inv.handle {o : Outcome} (hi : s.Inv) (hok : s.Orderly (.handle r o))
    (h : s.handle r o = some s') : s'.Inv := by
  cases o with
  | fails =>
    cases h
    refine hi.answer hr hnone ⟨?_, fun x hx ↦ (nomatch hx.2), fun orgs ho ↦ (nomatch ho)⟩
    unfold Request.joined
    split <;> simp_all
  | joins org =>
    have hjoined {x : OrgId} (hp : r.purpose = .acceptPage x ∨ r.purpose = .respond x ∨
        r.purpose = .create) : Request.joined { r with reply := some (.joined org) } =
          some (r.user, org.id) := by
      unfold Request.joined
      rcases hp with hp | hp | hp <;> rw [hp]
    have hall {x : OrgId} (hp : r.purpose = .acceptPage x ∨ r.purpose = .respond x)
        (hc : org.id = x ∧ s.Alive x ∧ ¬ s.Has r.user x) :
        Inv ({ s with members := ⟨r.user, org⟩ :: s.members }.answer r (.joined org)) := by
      obtain ⟨rfl, ha, hno⟩ := hc
      exact hi.joins hr hnone (hi.joinable_alive ha hno) (fun y hy ↦ hy) (hi.alive_issued ha)
        (hjoined (hp.imp_right .inl)) hok
    unfold Client.handle at h
    dsimp only at h
    split at h
    · next x hp =>
      split at h
      · next hc =>
        cases h
        exact hall (.inl hp) hc
      · cases h
    · next x hp =>
      split at h
      · next hc =>
        cases h
        exact hall (.inr hp) hc
      · cases h
    · next hp =>
      split at h
      · cases h
      · next hfresh =>
        cases h
        exact hi.joins hr hnone (hi.joinable_new hfresh) (fun y ↦ List.mem_cons_of_mem _)
          List.mem_cons_self (@hjoined "" (.inr (.inr hp))) hok
    · cases h
  | serves =>
    unfold Client.handle at h
    dsimp only at h
    split at h
    · next hp =>
      cases h
      refine hi.answer hr hnone ⟨?_, fun x hx ↦ (nomatch hx.2), fun orgs ho ↦ ?_⟩
      · unfold Request.joined
        rw [hp]
      · cases ho
        exact hi.listed_once r.user
    · next x hp =>
      split at h
      · next hhas =>
        cases h
        exact hi.deletes hr hnone hp hhas
      · cases h
    · cases h

end Answers

end Client

end Chis.Web
