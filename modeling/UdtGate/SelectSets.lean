/-
What `SOCK_API::select` leaves in the sets of its caller.

- `LastRound`: the last iteration of a run that has returned, its two calls and what the function made of the answers.
- `exact_iff`: the sets are those of the calls that succeeded, and as many as the result says, unless one call found
  something and the other one failed: the function then also returns the members that the failed call left alone.
- `worker_answer`: what holds in any case is what the loop of `utl::worker` is modelled with.
-/
import UdtGate.Select
import UdtGate.Worker

namespace UdtGate

open UdtGate.Core

namespace Three

variable {α : Type*}

def empty : Three (Finset ℤ) := ⟨∅, ∅, ∅⟩

theorem card_eq_zero {x : Three (Finset ℤ)} : x.card = 0 ↔ x = empty := by
  obtain ⟨r, w, e⟩ := x
  simp only [card, empty, Nat.add_eq_zero_iff, Finset.card_eq_zero, mk.injEq, and_assoc]

end Three

namespace Select

/-- the TCP descriptors of the caller's sets -/
def fdsets (ptr : Three (Option FdSet)) : Three (Finset ℤ) := (ptr.map deref).map FdSet.fdset

/-- the UDT ids of the caller's sets -/
def udsets (ptr : Three (Option FdSet)) : Three (Finset ℤ) := (ptr.map deref).map FdSet.udset

/-- how many descriptors the caller's sets have -/
def members (ptr : Three (Option FdSet)) : ℕ := (deref ptr.r).card + (deref ptr.w).card + (deref ptr.e).card

/-- the caller's sets with the descriptors that were found -/
def filled (ptr : Three (Option FdSet)) (tcp udt : Three (Finset ℤ)) : Three (Option FdSet) :=
  ptr.map₂ assign (tcp.map₂ FdSet.mk udt)

/-- what a call reports; a call that failed reports nothing -/
def reported (a : Ans) : Three (Finset ℤ) := if 0 ≤ a.rc then a.sets else .empty

/-- a positive result -/
def found (rc : ℤ) : ℤ := if rc > 0 then rc else 0

theorem found_pos {x y : ℤ} (h : x > 0 ∨ y > 0) : 0 < found x + found y := by
  unfold found
  split_ifs
  · omega
  · omega
  · omega
  · omega

/-- the function was called with `ptr`, has returned `r`, and `a1` and `a2` were the answers of the last iteration -/
structure LastRound (ptr : Three (Option FdSet)) (s : Run) (r : ℤ) (a1 a2 : Ans) : Prop where
  logged : ∃ pre nfds t1 t2, s.log = pre ++ [(.tcp nfds (fdsets ptr) t1, a1), (.udt nfds (udsets ptr) t2, a2)]
  tcpOk : SetsOk (fdsets ptr) a1
  udtOk : SetsOk (udsets ptr) a2
  result : ((a1.rc > 0 ∨ a2.rc > 0) ∧ r = found a1.rc + found a2.rc ∧ s.st.ptr = filled ptr a1.sets a2.sets) ∨
    (¬ (a1.rc > 0 ∨ a2.rc > 0) ∧ r ≤ 0 ∧ s.st.ptr = filled ptr .empty .empty)

/-- where a run is -/
def Tracked (ptr : Three (Option FdSet)) (s : Run) : Prop :=
  match s.st.pc with
  | .tcp => s.st.ptr = ptr ∧ s.st.fds = ptr.map deref
  | .udt =>
    s.st.ptr = ptr ∧ ∃ pre t1 a1, s.log = pre ++ [(.tcp s.st.nfds (fdsets ptr) t1, a1)] ∧
      SetsOk (fdsets ptr) a1 ∧ s.st.res1 = a1.rc ∧ s.st.fds = (ptr.map deref).map₂ FdSet.withTcp a1.sets
  | .returned r => ∃ a1 a2, LastRound ptr s r a1 a2

theorem tracked_start (nfds : ℤ) (ptr : Three (Option FdSet)) (timeout : Option Timeval) :
    Tracked ptr ⟨start nfds ptr timeout, []⟩ := ⟨rfl, rfl⟩

/-- **One call.** -/
theorem tracked_resume {ptr : Three (Option FdSet)} {s : Run} {c : Call} {a : Ans} (h : Tracked ptr s)
    (hc : s.st.call = some c) (hok : permitted c a = true) :
    Tracked ptr ⟨s.st.resume a, s.log ++ [(c, a)]⟩ := by
  have hsets : SetsOk c.sets a := of_decide_eq_true hok
  unfold Tracked at h
  cases hpc : s.st.pc with
  | tcp =>
    rw [hpc] at h
    obtain ⟨hptr, hfds⟩ := h
    have hcall : s.st.call = some (.tcp s.st.nfds (fdsets ptr) s.st.t) := by rw [call, hpc, hfds]; rfl
    obtain rfl := Option.some.inj (hcall.symm.trans hc)
    rw [resume_tcp a hpc]
    exact ⟨hptr, s.log, s.st.t, a, rfl, hsets, rfl, by rw [hfds]⟩
  | udt =>
    rw [hpc] at h
    obtain ⟨hptr, pre, t1, a1, hlog, hok1, hres, hfds⟩ := h
    have hcall : s.st.call = some (.udt s.st.nfds (udsets ptr) s.st.t) := by rw [call, hpc, hfds]; rfl
    obtain rfl := Option.some.inj (hcall.symm.trans hc)
    have hlogged : s.log ++ [(Call.udt s.st.nfds (udsets ptr) s.st.t, a)] =
        pre ++ [(.tcp s.st.nfds (fdsets ptr) t1, a1), (.udt s.st.nfds (udsets ptr) s.st.t, a)] := by
      rw [hlog, List.append_assoc]; rfl
    have hasked : (s.st.asked a).fds = a1.sets.map₂ FdSet.mk a.sets := by
      simp only [asked, hfds]; rfl
    rcases resume_udt a hpc with ⟨hpos, heq⟩ | ⟨hnone, -, heq⟩ | ⟨-, -, -, heq⟩
    · rw [heq]
      refine ⟨a1, a, ⟨_, _, _, _, hlogged⟩, hok1, hsets, Or.inl ⟨hres ▸ hpos, ?_, ?_⟩⟩
      · rw [found, found, hres]
      · rw [filled, ← hasked, ← hptr]
    · rw [heq]
      refine ⟨a1, a, ⟨_, _, _, _, hlogged⟩, hok1, hsets, Or.inr ⟨hres ▸ hnone, ?_, ?_⟩⟩
      · split_ifs
        · exact le_rfl
        · decide
      · rw [← hptr]; rfl
    · rw [heq]
      exact ⟨hptr, by rw [← hptr]; rfl⟩
  | returned r =>
    rw [call, hpc] at hc
    cases hc

theorem tracked_step {ptr : Three (Option FdSet)} {s t : Run} {a : Ans} (h : Tracked ptr s)
    (hstep : (system permitted).step s a = some t) : Tracked ptr t := by
  obtain ⟨c, hc, hok, rfl⟩ := Machine.logged_cases hstep
  exact tracked_resume h hc hok

/-! ## The members -/

/-- a NULL pointer gets nothing: its set was empty -/
theorem card_assign {p : Option FdSet} {f u : Finset ℤ} (hf : f ⊆ (deref p).fdset) (hu : u ⊆ (deref p).udset) :
    (deref (assign p ⟨f, u⟩)).card = f.card + u.card := by
  cases p with
  | none =>
    obtain rfl := Finset.subset_empty.1 hf
    obtain rfl := Finset.subset_empty.1 hu
    rfl
  | some s => rfl

theorem members_filled {ptr : Three (Option FdSet)} {x y : Three (Finset ℤ)} (hx : x.Sub (fdsets ptr))
    (hy : y.Sub (udsets ptr)) : members (filled ptr x y) = x.card + y.card := by
  have hr : (deref (filled ptr x y).r).card = x.r.card + y.r.card := card_assign hx.1 hy.1
  have hw : (deref (filled ptr x y).w).card = x.w.card + y.w.card := card_assign hx.2.1 hy.2.1
  have he : (deref (filled ptr x y).e).card = x.e.card + y.e.card := card_assign hx.2.2 hy.2.2
  simp only [members, Three.card]
  omega

/-- what is left in the sets of a call was in them -/
theorem SetsOk.sub {given : Three (Finset ℤ)} {a : Ans} (h : SetsOk given a) : a.sets.Sub given := by
  unfold SetsOk at h
  split_ifs at h
  · exact h.1
  · rw [h.2]
    exact ⟨le_rfl, le_rfl, le_rfl⟩

theorem SetsOk.of_nonneg {given : Three (Finset ℤ)} {a : Ans} (h : SetsOk given a) (hrc : 0 ≤ a.rc) :
    reported a = a.sets ∧ found a.rc = a.sets.card := by
  rw [SetsOk, if_pos hrc] at h
  refine ⟨if_pos hrc, ?_⟩
  rw [found]
  split_ifs
  · exact h.2
  · omega

theorem SetsOk.of_neg {given : Three (Finset ℤ)} {a : Ans} (h : SetsOk given a) (hrc : a.rc < 0) :
    reported a = .empty ∧ a.sets = given ∧ found a.rc = 0 := by
  rw [SetsOk, if_neg (not_le.2 hrc)] at h
  exact ⟨if_neg (not_le.2 hrc), h.2, if_neg (by omega)⟩

/-- the caller's sets are those of the calls that succeeded, with `r` members; or they are empty -/
structure Exact (ptr : Three (Option FdSet)) (s : Run) (r : ℤ) (a1 a2 : Ans) : Prop where
  filled : 0 < r → s.st.ptr = filled ptr (reported a1) (reported a2) ∧ (members s.st.ptr : ℤ) = r
  empty : r ≤ 0 → members s.st.ptr = 0

/-- one call found something, and the other one failed with descriptors in its sets -/
def Mixed (ptr : Three (Option FdSet)) (a1 a2 : Ans) : Prop :=
  (a1.rc > 0 ∧ a2.rc < 0 ∧ udsets ptr ≠ .empty) ∨ (a1.rc < 0 ∧ a2.rc > 0 ∧ fdsets ptr ≠ .empty)

instance (ptr : Three (Option FdSet)) (a1 a2 : Ans) : Decidable (Mixed ptr a1 a2) :=
  inferInstanceAs (Decidable (_ ∨ _))

/-- nothing was found: the sets are empty -/
theorem members_empty (ptr : Three (Option FdSet)) : members (filled ptr .empty .empty) = 0 :=
  members_filled ⟨Finset.empty_subset _, Finset.empty_subset _, Finset.empty_subset _⟩
    ⟨Finset.empty_subset _, Finset.empty_subset _, Finset.empty_subset _⟩

/-- what the failed call left alone is counted and stored unless it is nothing -/
theorem unreported_iff {β : Type*} (f : Three (Finset ℤ) → β) {x : Three (Finset ℤ)} {count r : ℤ}
    (hcount : count = r + x.card) : (f x = f .empty ∧ count = r) ↔ x = .empty := by
  constructor
  · rintro ⟨-, heq⟩
    apply Three.card_eq_zero.1
    omega
  · rintro rfl
    refine ⟨rfl, ?_⟩
    rw [hcount, Three.card_eq_zero.2 rfl]
    exact add_zero r

theorem exact_of_lastRound {ptr : Three (Option FdSet)} {s : Run} {r : ℤ} {a1 a2 : Ans}
    (h : LastRound ptr s r a1 a2) : Exact ptr s r a1 a2 ↔ ¬ Mixed ptr a1 a2 := by
  rcases h.result with ⟨hpos, hr, hptr⟩ | ⟨hnone, hr, hptr⟩
  · have hmem : members s.st.ptr = a1.sets.card + a2.sets.card := by
      rw [hptr]
      exact members_filled h.tcpOk.sub h.udtOk.sub
    have hrpos : 0 < r := hr ▸ found_pos hpos
    have hexact : Exact ptr s r a1 a2 ↔
        s.st.ptr = filled ptr (reported a1) (reported a2) ∧ (members s.st.ptr : ℤ) = r :=
      ⟨fun hx => hx.filled hrpos, fun hx => ⟨fun _ => hx, fun hle => absurd hrpos (not_lt.2 hle)⟩⟩
    rw [hexact, hmem, hptr, hr]
    rcases lt_or_ge a1.rc 0 with hneg | hnn1
    · have hpos2 : a2.rc > 0 := hpos.resolve_left (by omega)
      obtain ⟨hrep1, hsets, hfound1⟩ := h.tcpOk.of_neg hneg
      obtain ⟨hrep2, hfound2⟩ := h.udtOk.of_nonneg hpos2.le
      have hmixed : ¬ Mixed ptr a1 a2 ↔ fdsets ptr = .empty := by
        rw [Mixed, not_or, not_and', not_and, not_and, not_not]
        exact ⟨fun hm => hm.2 hneg hpos2, fun he => ⟨fun _ _ => by omega, fun _ _ => he⟩⟩
      rw [hmixed, hrep1, hrep2, hsets, hfound1, hfound2]
      exact unreported_iff (fun x => filled ptr x a2.sets) (by push_cast; ring)
    · rcases lt_or_ge a2.rc 0 with hneg | hnn2
      · have hpos1 : a1.rc > 0 := hpos.resolve_right (by omega)
        obtain ⟨hrep1, hfound1⟩ := h.tcpOk.of_nonneg hnn1
        obtain ⟨hrep2, hsets, hfound2⟩ := h.udtOk.of_neg hneg
        have hmixed : ¬ Mixed ptr a1 a2 ↔ udsets ptr = .empty := by
          rw [Mixed, not_or, not_and, not_and, not_and', not_not]
          exact ⟨fun hm => hm.1 hpos1 hneg, fun he => ⟨fun _ _ => he, fun _ => by omega⟩⟩
        rw [hmixed, hrep1, hrep2, hsets, hfound1, hfound2]
        exact unreported_iff (fun x => filled ptr a1.sets x) (by push_cast; ring)
      · obtain ⟨hrep1, hfound1⟩ := h.tcpOk.of_nonneg hnn1
        obtain ⟨hrep2, hfound2⟩ := h.udtOk.of_nonneg hnn2
        rw [hrep1, hrep2, hfound1, hfound2]
        refine ⟨?_, fun _ => ⟨rfl, by omega⟩⟩
        rintro - (⟨-, hneg, -⟩ | ⟨hneg, -⟩)
        · omega
        · omega
  · have hmem : members s.st.ptr = 0 := by
      rw [hptr]
      exact members_empty ptr
    refine ⟨?_, fun _ => ⟨fun hpos => absurd hr (not_le.2 hpos), fun _ => hmem⟩⟩
    rintro - (⟨hpos, -⟩ | ⟨-, hpos, -⟩)
    · exact hnone (Or.inl hpos)
    · exact hnone (Or.inr hpos)

/-- a run that has returned is at the end of a last iteration -/
theorem lastRound_of_returned {nfds : ℤ} {ptr : Three (Option FdSet)} {timeout : Option Timeval} {as : List Ans}
    {s : Run} {r : ℤ} (h : (system permitted).exec ⟨start nfds ptr timeout, []⟩ as = some s)
    (hr : s.st.pc = .returned r) : ∃ a1 a2, LastRound ptr s r a1 a2 := by
  have htracked := System.exec_inv (Tracked ptr) (fun _ _ _ => tracked_step) h (tracked_start nfds ptr timeout)
  rwa [Tracked, hr] at htracked

/-- **When the sets are exact**: in every run that has returned, for every timeout, all sets and all answers, unless in
the last iteration one call found something and the other one failed with descriptors in its sets. -/
theorem exact_iff (nfds : ℤ) (ptr : Three (Option FdSet)) (timeout : Option Timeval) {as : List Ans} {s : Run} {r : ℤ}
    (h : (system permitted).exec ⟨start nfds ptr timeout, []⟩ as = some s) (hr : s.st.pc = .returned r) :
    (∃ pre c1 a1 c2 a2, s.log = pre ++ [(c1, a1), (c2, a2)]) ∧
      ∀ pre c1 a1 c2 a2, s.log = pre ++ [(c1, a1), (c2, a2)] → (Exact ptr s r a1 a2 ↔ ¬ Mixed ptr a1 a2) := by
  obtain ⟨b1, b2, hlast⟩ := lastRound_of_returned h hr
  obtain ⟨pre', nfds', t1, t2, hlog'⟩ := hlast.logged
  refine ⟨⟨_, _, _, _, _, hlog'⟩, ?_⟩
  intro pre c1 a1 c2 a2 hlog
  obtain ⟨-, hpair⟩ := List.append_inj' (hlog'.symm.trans hlog) rfl
  obtain ⟨h1, h2⟩ := List.cons.inj hpair
  obtain ⟨-, rfl⟩ := Prod.mk.inj h1
  obtain ⟨-, rfl⟩ := Prod.mk.inj (List.cons.inj h2).1
  exact exact_of_lastRound hlast

/-- TCP descriptor 3 and UDT id 9, to be read and for exceptions -/
def bothSets : Three (Option FdSet) := ⟨some ⟨{3}, {9}⟩, none, some ⟨{3}, {9}⟩⟩

/-- 3 can be read, and nothing is to be said of 9 -/
theorem exact_iff_one_ready :
    ∃ s, (system permitted).exec ⟨start 4 bothSets (some ⟨0, 500000⟩), []⟩
        [⟨1, ⟨{3}, ∅, ∅⟩, ⟨0, 0⟩⟩, ⟨0, .empty, ⟨0, 0⟩⟩] = some s ∧
      s.st.ptr = ⟨some ⟨{3}, ∅⟩, none, some ⟨∅, ∅⟩⟩ ∧ members s.st.ptr = 1 := by
  obtain ⟨s, hs, hret, hlog⟩ : ∃ s,
      (system permitted).exec ⟨start 4 bothSets (some ⟨0, 500000⟩), []⟩
          [⟨1, ⟨{3}, ∅, ∅⟩, ⟨0, 0⟩⟩, ⟨0, .empty, ⟨0, 0⟩⟩] = some s ∧
        s.st.pc = .returned 1 ∧
          s.log = [] ++ [(.tcp 4 ⟨{3}, ∅, {3}⟩ ⟨0, 0⟩, ⟨1, ⟨{3}, ∅, ∅⟩, ⟨0, 0⟩⟩),
            (.udt 4 ⟨{9}, ∅, {9}⟩ ⟨0, 0⟩, ⟨0, .empty, ⟨0, 0⟩⟩)] := System.exec_of_any (by decide)
  obtain ⟨hptr, hcount⟩ := (((exact_iff 4 bothSets _ hs hret).2 _ _ _ _ _ hlog).2 (by decide)).filled (by decide)
  refine ⟨s, hs, ?_, by exact_mod_cast hcount⟩
  rw [hptr]
  decide

/-- **Descriptors that nobody reported.** 3 can be read and `UDT::select` fails: the result is 1, and the caller also
finds UDT id 9 in two of its sets. -/
theorem failed_call_leaks :
    ∃ s, (system permitted).exec ⟨start 4 bothSets (some ⟨0, 500000⟩), []⟩
        [⟨1, ⟨{3}, ∅, ∅⟩, ⟨0, 0⟩⟩, ⟨-1, ⟨{9}, ∅, {9}⟩, ⟨0, 0⟩⟩] = some s ∧
      s.st.pc = .returned 1 ∧ s.st.ptr = ⟨some ⟨{3}, {9}⟩, none, some ⟨∅, {9}⟩⟩ ∧ members s.st.ptr = 3 :=
  System.exec_of_any (by decide)

/-! ## For the loop of `utl::worker` -/

theorem isset_assign {p : Option FdSet} {f u : Finset ℤ} (hf : f ⊆ (deref p).fdset) (hu : u ⊆ (deref p).udset)
    {fd : ℤ} (h : (deref (assign p ⟨f, u⟩)).isset fd = true) : (deref p).isset fd = true := by
  cases p with
  | none => exact h
  | some s => exact FdSet.isset_mono hf hu h

theorem not_isset_assign (p : Option FdSet) (fd : ℤ) : ¬ (deref (assign p ⟨∅, ∅⟩)).isset fd = true := by
  have hzero : ¬ FdSet.zero.isset fd = true := by rw [FdSet.isset_zero]; exact Bool.false_ne_true
  cases p with
  | none => exact hzero
  | some s => exact hzero

/-- a member that is left was there, and none is left without a positive result -/
theorem isset_of_lastRound {ptr : Three (Option FdSet)} {s : Run} {r : ℤ} {a1 a2 : Ans} (h : LastRound ptr s r a1 a2)
    {fd : ℤ} :
    ((deref s.st.ptr.r).isset fd = true → 0 < r ∧ (deref ptr.r).isset fd = true) ∧
      ((deref s.st.ptr.w).isset fd = true → 0 < r ∧ (deref ptr.w).isset fd = true) := by
  rcases h.result with ⟨hpos, hr, hptr⟩ | ⟨-, -, hptr⟩
  · have hrpos : 0 < r := hr ▸ found_pos hpos
    have htcp := h.tcpOk.sub
    have hudt := h.udtOk.sub
    rw [hptr]
    exact ⟨fun hset => ⟨hrpos, isset_assign htcp.1 hudt.1 hset⟩,
      fun hset => ⟨hrpos, isset_assign htcp.2.1 hudt.2.1 hset⟩⟩
  · rw [hptr]
    exact ⟨fun hset => absurd hset (not_isset_assign ptr.r fd), fun hset => absurd hset (not_isset_assign ptr.w fd)⟩

/-- the ready descriptors as a list -/
theorem mem_ready {set : FdSet} {fds : List ℤ} {r : ℤ} (h : ∀ fd, set.isset fd = true → 0 < r ∧ fd ∈ fds) (fd : ℤ) :
    (fd ∈ if r > 0 then fds.filter set.isset else []) ↔ set.isset fd = true := by
  split_ifs with hr
  · rw [List.mem_filter]
    exact ⟨And.right, fun hset => ⟨(h fd hset).2, hset⟩⟩
  · exact ⟨fun hmem => absurd hmem List.not_mem_nil, fun hset => absurd (h fd hset).1 hr⟩

/-- **The answer the loop gets** is one that its model is given: the ready descriptors among those it asked about, and
none unless the result is positive. -/
theorem worker_answer {nfds : ℤ} {ptr : Three (Option FdSet)} {rset wset : List ℤ} (hrset : deref ptr.r = .ofList rset)
    (hwset : deref ptr.w = .ofList wset) {timeout : Option Timeval} {as : List Ans} {s : Run} {r : ℤ}
    (h : (system permitted).exec ⟨start nfds ptr timeout, []⟩ as = some s) (hr : s.st.pc = .returned r) (eset : List ℤ)
    (usec : ℕ) :
    ∃ rready wready : List ℤ,
      Worker.permitted (.select nfds rset wset eset usec) (⟨r, [], rready ++ wready⟩ : Worker.Ans UInt8) = true ∧
        (∀ fd, (fd ∈ if r > 0 then rready else []) ↔ (deref s.st.ptr.r).isset fd = true) ∧
        ∀ fd, (fd ∈ if r > 0 then wready else []) ↔ (deref s.st.ptr.w).isset fd = true := by
  obtain ⟨a1, a2, hlast⟩ := lastRound_of_returned h hr
  refine ⟨rset.filter (deref s.st.ptr.r).isset, wset.filter (deref s.st.ptr.w).isset, ?_, ?_, ?_⟩
  · simp only [Worker.permitted, List.all_eq_true, decide_eq_true_eq]
    intro fd hfd
    rcases List.mem_append.1 hfd with hfd | hfd
    · exact List.mem_append_left _ (List.mem_of_mem_filter hfd)
    · exact List.mem_append_right _ (List.mem_of_mem_filter hfd)
  · apply mem_ready
    intro fd hset
    obtain ⟨hpos, hgiven⟩ := (isset_of_lastRound hlast).1 hset
    exact ⟨hpos, FdSet.isset_ofList.1 (hrset ▸ hgiven)⟩
  · apply mem_ready
    intro fd hset
    obtain ⟨hpos, hgiven⟩ := (isset_of_lastRound hlast).2 hset
    exact ⟨hpos, FdSet.isset_ofList.1 (hwset ▸ hgiven)⟩

end Select

end UdtGate
