import Chis.Api.RateLimit
import Chis.Base.Tickets
import Chis.Model.Rows

/-!
# Rate limiting

Any number of requests are handled at once, by instances of the API that share one Redis. Each
instance reads its own clock. Redis increments a counter in one step, and drops one that has expired.
-/

namespace Chis.Limiter

open Program Api

/-! ### Requests over one Redis -/

/-- A counter of Redis. -/
structure Counter where
  count : Nat
  expiresAt : Option Time

/-- A counter that has not expired at a time. -/
def Counter.Live (c : Counter) (t : Time) : Prop := ∀ e, c.expiresAt = some e → t ≤ e

/-- Redis, and what has become of the requests. -/
structure Limits (ι : Type) where
  /-- The clock of Redis. -/
  clock : Time
  counters : String → Option Counter
  /-- What `INCR` has answered. -/
  log : List (Tickets.Ticket ι String)
  /-- The requests that the next handler has been given. -/
  passed : List ι

/-- Redis without a counter. -/
def Limits.empty (ι : Type) : Limits ι := ⟨0, fun _ ↦ none, [], []⟩

/-- What an operation of request `i` may be answered, where `INCR` succeeds. -/
inductive Exec {ι : Type} (i : ι) : (o : LimitOp) → Limits ι → o.Res → Limits ι → Prop
  | now {s : Limits ι} (t : Int) : Exec i .now s t s
  | fresh {s : Limits ι} {key : String} {t : Time} : s.clock ≤ t →
      (∀ c, s.counters key = some c → ¬ c.Live t) →
      Exec i (.incr key) s (.ok 1) { s with
        clock := t
        counters := Function.update s.counters key (some ⟨1, none⟩)
        log := ⟨i, key, 1⟩ :: s.log }
  | incr {s : Limits ι} {key : String} {t : Time} {c : Counter} : s.clock ≤ t →
      s.counters key = some c → c.Live t →
      Exec i (.incr key) s (.ok (c.count + 1)) { s with
        clock := t
        counters := Function.update s.counters key (some { c with count := c.count + 1 })
        log := ⟨i, key, c.count + 1⟩ :: s.log }
  | expire {s : Limits ι} {key : String} {seconds : Nat} {t : Time} {c : Counter} : s.clock ≤ t →
      s.counters key = some c → c.Live t →
      Exec i (.expire key seconds) s () { s with
        clock := t
        counters := Function.update s.counters key
          (some { c with expiresAt := some (t + seconds * 1000000) }) }
  /-- The counter is gone, or the command has failed. -/
  | expireFails {s : Limits ι} {key : String} {seconds : Nat} : Exec i (.expire key seconds) s () s
  | next {s : Limits ι} : Exec i .next s () { s with passed := i :: s.passed }
  | tooManyRequests {s : Limits ι} : Exec i .tooManyRequests s () s

/-- The requests `reqs`, handled in any interleaving whose steps are allowed. -/
def limiter {ι : Type} (reqs : ι → Connection)
    (allow : ι → (o : LimitOp) → Limits ι → o.Res → Limits ι → Prop) :
    System ι (Limits ι) LimitOp LimitOp.Res where
  exec i o s r s' := Exec i o s r s' ∧ allow i o s r s'
  body i := rateLimit (reqs i)
  loops _ := False

/-- The network address of a client. -/
def clientAddress (r : Connection) : String := (splitHost r.remoteAddr).getD r.remoteAddr

/-- The minute of a time. -/
def minute (t : Time) : Int := t / 60000000

/-- The address that a client names in its headers. -/
def namedAddress (r : Connection) : Option String :=
  let first := trimSpace (r.forwardedFor.toList.takeWhile (· ≠ ','))
  if first ≠ [] then some (String.ofList first)
  else if r.realIp ≠ "" then some (String.ofList (trimSpace r.realIp.toList))
  else none

/-- The headers decide, where they name an address. -/
theorem extractIP_eq (r : Connection) : extractIP r = (namedAddress r).getD (clientAddress r) := by
  unfold extractIP namedAddress clientAddress
  dsimp only
  split
  · rfl
  · split
    · rfl
    · split <;> next h => rw [h]; rfl

/-- A step that does what the limiter counts on: the instance's clock shows the minute in which the
request was sent, and `INCR` does not meet a counter that has expired. -/
def Punctual {ι : Type} (sent : ι → Time) (i : ι) :
    (o : LimitOp) → Limits ι → o.Res → Limits ι → Prop
  | .now, _, t, _ => Int.tdiv t 60 = minute (sent i)
  | .incr key, s, _, s' => ∀ c, s.counters key = some c → c.Live s'.clock
  | _, _, _, _ => True

/-! ### What the counters have counted -/

section Runs

variable {ι : Type} {reqs : ι → Connection} {sent : ι → Time}

/-- The counter of a request. -/
def keyOf (reqs : ι → Connection) (sent : ι → Time) (i : ι) : String :=
  limitKey (extractIP (reqs i)) (minute (sent i))

/-- The counters stand at the numbers drawn, and who has passed has drawn one up to 100. -/
structure Inv (reqs : ι → Connection) (sent : ι → Time) (s : Limits ι) : Prop where
  counted : Tickets.Counted s.log
  counters : ∀ key, (s.counters key).elim 0 Counter.count = (Tickets.drawn key s.log).length
  nodup : s.passed.Nodup
  passed : ∀ i ∈ s.passed, ∃ n ≤ 100, (⟨i, keyOf reqs sent i, n⟩ : Tickets.Ticket ι String) ∈ s.log

/-- No request passes another, and what is drawn stays so. -/
def contract (reqs : ι → Connection) (sent : ι → Time) : Contract ι (Limits ι) where
  inv := Inv reqs sent
  rely i s s' := (i ∈ s'.passed → i ∈ s.passed) ∧ s.log ⊆ s'.log

private theorem Inv.draw {s : Limits ι} (h : Inv reqs sent s) {i : ι} {key : String} {t : Time}
    {c : Counter} (hc : c.count = (s.counters key).elim 0 Counter.count + 1) :
    Inv reqs sent { s with
      clock := t
      counters := Function.update s.counters key (some c)
      log := ⟨i, key, c.count⟩ :: s.log } where
  counted := h.counted.cons (by rw [hc, h.counters])
  counters key' := by
    show (Function.update s.counters key (some c) key').elim 0 Counter.count = _
    rw [Tickets.drawn_cons]
    by_cases hk : key = key'
    · subst hk
      rw [if_pos rfl, Function.update_self, List.length_cons, ← h.counters]
      exact hc
    · rw [if_neg hk, Function.update_of_ne (Ne.symm hk)]
      exact h.counters key'
  nodup := h.nodup
  passed j hj := by
    obtain ⟨n, hn, hmem⟩ := h.passed j hj
    exact ⟨n, hn, List.mem_cons_of_mem _ hmem⟩

private theorem Inv.keep {s : Limits ι} (h : Inv reqs sent s) {key : String} {t e : Time}
    {c : Counter} (hc : s.counters key = some c) :
    Inv reqs sent { s with
      clock := t
      counters := Function.update s.counters key (some { c with expiresAt := some e }) } where
  counted := h.counted
  counters key' := by
    show (Function.update s.counters key _ key').elim 0 Counter.count = _
    rw [← h.counters]
    by_cases hk : key' = key
    · rw [hk, Function.update_self, hc]
      rfl
    · rw [Function.update_of_ne hk]
  nodup := h.nodup
  passed := h.passed

/-- What a request has done so far: it has not passed, and holds a number if it has drawn one. -/
private def Waits (reqs : ι → Connection) (sent : ι → Time) (i : ι) (n : Option Nat)
    (s : Limits ι) : Prop :=
  i ∉ s.passed ∧
    ∀ k, n = some k → (⟨i, keyOf reqs sent i, k⟩ : Tickets.Ticket ι String) ∈ s.log

private theorem Waits.stable {i : ι} {n : Option Nat} (s s' : Limits ι)
    (h : Waits reqs sent i n s) (hr : (contract reqs sent).rely i s s')
    (_ : (contract reqs sent).inv s') : Waits reqs sent i n s' :=
  ⟨fun hp ↦ h.1 (hr.1 hp), fun k hk ↦ hr.2 (h.2 k hk)⟩

/-- A request passes with a number up to 100. -/
private theorem next_safe {i : ι} {s : Limits ι} {n : Nat} (hn : n ≤ 100)
    (hw : Waits reqs sent i (some n) s) :
    Safe (limiter reqs (Punctual sent)) (contract reqs sent) i (fun _ _ ↦ True)
      LimitOp.next.call s := by
  refine Safe.op (Waits reqs sent i (some n)) hw Waits.stable ?_
  intro s r s' hw hi hx
  cases hx.1 with
  | next =>
    refine ⟨⟨hi.counted, hi.counters, List.nodup_cons.mpr ⟨hw.1, hi.nodup⟩, ?_⟩, ?_,
      Safe.done trivial fun _ _ h _ _ ↦ h⟩
    · intro j hj
      cases List.mem_cons.mp hj with
      | inl h =>
        subst h
        exact ⟨n, hn, hw.2 n rfl⟩
      | inr h => exact hi.passed j h
    · intro j hj
      exact ⟨fun hp ↦ (List.mem_cons.mp hp).resolve_left hj, List.Subset.refl _⟩

/-- The answer to a request that holds a number. -/
private theorem answer_safe {i : ι} {s : Limits ι} {n : Nat} (hw : Waits reqs sent i (some n) s) :
    Safe (limiter reqs (Punctual sent)) (contract reqs sent) i (fun _ _ ↦ True)
      (if 100 < n then LimitOp.tooManyRequests.call else LimitOp.next.call) s := by
  split
  · refine Safe.op (fun _ ↦ True) trivial (fun _ _ h _ _ ↦ h) fun s r s' _ hi hx ↦ ?_
    cases hx.1 with
    | tooManyRequests =>
      exact ⟨hi, fun j _ ↦ ⟨id, List.Subset.refl _⟩, Safe.done trivial fun _ _ h _ _ ↦ h⟩
  · next hn => exact next_safe (Nat.le_of_not_lt hn) hw

/-- Setting the time of its expiry leaves a counter as it is. -/
private theorem expire_safe {i : ι} {s : Limits ι} {key : String} {n : Nat} {seconds : Nat}
    (hw : Waits reqs sent i (some n) s) :
    Safe (limiter reqs (Punctual sent)) (contract reqs sent) i
      (fun _ ↦ Waits reqs sent i (some n)) (LimitOp.expire key seconds).call s := by
  refine Safe.op (Waits reqs sent i (some n)) hw Waits.stable fun s r s' hw hi hx ↦ ?_
  cases hx.1 with
  | expire ht hc hl =>
    exact ⟨hi.keep hc, fun j _ ↦ ⟨id, List.Subset.refl _⟩, Safe.done hw Waits.stable⟩
  | expireFails => exact ⟨hi, fun j _ ↦ ⟨id, List.Subset.refl _⟩, Safe.done hw Waits.stable⟩

/-- What follows a number that has been drawn. -/
private theorem drawn_safe {i : ι} {s : Limits ι} {key : String} {n : Nat}
    (hw : Waits reqs sent i (some n) s) :
    Safe (limiter reqs (Punctual sent)) (contract reqs sent) i (fun _ _ ↦ True)
      (do
        if n = 1 then (LimitOp.expire key 120).call
        if 100 < n then LimitOp.tooManyRequests.call else LimitOp.next.call : Limiting Unit) s := by
  dsimp only
  by_cases h : n = 1
  · rw [if_pos h]
    exact Safe.bind (expire_safe hw) fun _ s' hw' ↦ answer_safe hw'
  · rw [if_neg h]
    exact answer_safe hw

theorem rateLimit_safe {i : ι} {s : Limits ι} (hi : i ∉ s.passed) :
    Safe (limiter reqs (Punctual sent)) (contract reqs sent) i (fun _ _ ↦ True)
      (rateLimit (reqs i)) s := by
  refine Safe.op (Waits reqs sent i none) ⟨hi, fun k hk ↦ (nomatch hk)⟩ Waits.stable ?_
  intro s t s' hw hi hx
  cases hx.1 with
  | now t =>
    have hkey : limitKey (extractIP (reqs i)) (Int.tdiv t 60) = keyOf reqs sent i :=
      congrArg (limitKey _) hx.2
    refine ⟨hi, fun j _ ↦ ⟨id, List.Subset.refl _⟩, ?_⟩
    refine Safe.op (Waits reqs sent i none) hw Waits.stable ?_
    intro s r s' hw hi hx
    obtain ⟨hx, hlive⟩ := hx
    rw [hkey] at hx hlive
    have hdrawn (n : Nat) (log : List (Tickets.Ticket ι String)) (k : Nat) (hk : some n = some k) :
        (⟨i, keyOf reqs sent i, k⟩ : Tickets.Ticket ι String) ∈ ⟨i, keyOf reqs sent i, n⟩ :: log := by
      cases hk
      exact List.mem_cons_self
    have hothers (t : Tickets.Ticket ι String) : s.log ⊆ t :: s.log := List.subset_cons_self _ _
    cases hx with
    | fresh ht hgone =>
      have hnone : s.counters (keyOf reqs sent i) = none :=
        Option.eq_none_iff_forall_not_mem.mpr fun c hc ↦ hgone c hc (hlive c hc)
      refine ⟨hi.draw (by rw [hnone]; rfl), fun j _ ↦ ⟨id, hothers _⟩, ?_⟩
      exact drawn_safe (n := 1) ⟨hw.1, hdrawn 1 _⟩
    | incr ht hc hl =>
      refine ⟨hi.draw (by rw [hc]; rfl), fun j _ ↦ ⟨id, hothers _⟩, ?_⟩
      exact drawn_safe ⟨hw.1, hdrawn _ _⟩

/-- A request whose counter is fresh can be handled at once, in the first minute. -/
private theorem passes [DecidableEq ι] (hsent : ∀ i, minute (sent i) = 0) {i : ι}
    {c : Config ι (Limits ι) LimitOp LimitOp.Res} (hi : c.procs i = rateLimit (reqs i))
    (hfresh : c.state.counters (keyOf reqs sent i) = none) :
    ∃ c', Relation.ReflTransGen (limiter reqs (Punctual sent)).Step c c' ∧
      c'.state.passed = i :: c.state.passed ∧ (∀ j, j ≠ i → c'.procs j = c.procs j) ∧
      ∀ key, key ≠ keyOf reqs sent i → c'.state.counters key = c.state.counters key := by
  have hkey : keyOf reqs sent i = limitKey (extractIP (reqs i)) (Int.tdiv 0 60) :=
    congrArg (limitKey _) (hsent i)
  rw [hkey] at hfresh ⊢
  let key := limitKey (extractIP (reqs i)) (Int.tdiv 0 60)
  let s₁ : Limits ι := { c.state with
    counters := Function.update c.state.counters key (some ⟨1, none⟩)
    log := ⟨i, key, 1⟩ :: c.state.log }
  have hnone (d : Counter) (hd : c.state.counters key = some d) (P : Prop) : P :=
    nomatch hfresh.symm.trans hd
  have hruns : (rateLimit (reqs i)).Runs ((limiter reqs (Punctual sent)).exec i) c.state ()
      { s₁ with passed := i :: c.state.passed } := by
    refine ⟨(0 : Int), c.state, ⟨.now 0, (hsent i).symm⟩, ?_⟩
    refine ⟨.ok 1, s₁, ⟨.fresh (Int.le_refl _) fun d hd ↦ hnone d hd _, fun d hd ↦ hnone d hd _⟩, ?_⟩
    refine ⟨(), s₁, ⟨.expireFails, trivial⟩, ?_⟩
    exact ⟨(), _, ⟨.next, trivial⟩, rfl, rfl⟩
  refine ⟨_, System.steps_of_runs hi hruns, rfl, ?_, ?_⟩
  · exact fun j hj ↦ Function.update_of_ne hj _ _
  · exact fun key' hk' ↦ Function.update_of_ne hk' _ _

end Runs

/-! ### One client with many addresses -/

/-- A client that never names the same address twice. -/
def spoofing (n : Nat) : Connection :=
  ⟨String.ofList (List.replicate (n + 1) '1'), "", "192.0.2.1:1234"⟩

private theorem extractIP_spoofing (n : Nat) :
    extractIP (spoofing n) = String.ofList (List.replicate (n + 1) '1') := by
  have hfirst : (spoofing n).forwardedFor.toList.takeWhile (· ≠ ',') = List.replicate (n + 1) '1' := by
    show (String.ofList _).toList.takeWhile _ = _
    rw [String.toList_ofList, List.takeWhile_replicate]
    rfl
  have htrim : trimSpace (List.replicate (n + 1) '1') = List.replicate (n + 1) '1' := by
    have hspace : isSpace '1' = false := by decide
    simp [trimSpace, hspace]
  unfold extractIP
  rw [hfirst, htrim]
  rfl

private theorem keyOf_spoofing_inj {i j : Nat}
    (h : keyOf spoofing (fun _ ↦ 0) i = keyOf spoofing (fun _ ↦ 0) j) : i = j := by
  have hlen := congrArg (fun key ↦ key.toList.length) h
  simp only [keyOf, limitKey, extractIP_spoofing, String.toList_append, List.length_append,
    String.toList_ofList, List.length_replicate] at hlen
  omega

private theorem spoofing_passes (n : Nat) :
    ∃ c, (limiter spoofing (Punctual fun _ ↦ 0)).Reachable (.empty Nat) c ∧
      c.state.passed = (List.range n).reverse ∧ ∀ i, n ≤ i → c.procs i = rateLimit (spoofing i) ∧
        c.state.counters (keyOf spoofing (fun _ ↦ 0) i) = none := by
  induction n with
  | zero => exact ⟨_, .refl, rfl, fun i _ ↦ ⟨rfl, rfl⟩⟩
  | succ n ih =>
    obtain ⟨c, hreach, hpassed, hrest⟩ := ih
    obtain ⟨hproc, hfresh⟩ := hrest n (Nat.le_refl n)
    obtain ⟨c', hsteps, hpassed', hprocs, hcounters⟩ := passes (fun _ ↦ rfl) hproc hfresh
    refine ⟨c', hreach.trans hsteps, ?_, fun i hi ↦ ?_⟩
    · rw [hpassed', hpassed, List.range_succ, List.reverse_append]
      rfl
    · have hne : i ≠ n := by omega
      obtain ⟨hproc', hfresh'⟩ := hrest i (by omega)
      rw [hprocs i hne, hcounters _ fun he ↦ hne (keyOf_spoofing_inj he)]
      exact ⟨hproc', hfresh'⟩

/-- A client that names no address. -/
def plain (_ : Unit) : Connection := ⟨"", "", "192.0.2.1:1234"⟩

end Chis.Limiter
