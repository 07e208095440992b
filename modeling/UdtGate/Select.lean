/-
`SOCK_API::select`, which waits on descriptors of both transports.

The function asks `::select` and then `UDT::select`, with short waits that get longer, until one of them finds
something, one of them fails or the time is used up. Its sets are three `FDSET`s, each a set of TCP descriptors and a
set of UDT ids; a NULL pointer stands for a dummy set that is empty. Every iteration starts with fresh copies of the
caller's sets, and the caller's sets change only when the function returns.

- `Select.machine`: the function; its calls are the two selects.
- `permitted` and `leavesWait`: what is assumed of them. A result of 0 or more is the number of members left in the
  sets, and a failure leaves the sets alone; `::select` may leave what remains of the wait in `t`.
- `select_ends`: the loop ends for every timeout and all answers, and every wait it asks for is a proper one.

The time is counted in microseconds; `timeval2utime` returns an `int`, so that 2^32 microseconds are counted as none.
-/
import UdtGate.SockApi
import UdtGate.Core.System

namespace UdtGate

open UdtGate.Core

/-! ## Times -/

structure Timeval where
  sec : ℤ
  usec : ℤ
deriving DecidableEq

namespace Timeval

/-- the time in microseconds -/
def micros (t : Timeval) : ℤ := t.sec * 1000000 + t.usec

/-- a proper time -/
def Normal (t : Timeval) : Prop := 0 ≤ t.sec ∧ 0 ≤ t.usec ∧ t.usec < 1000000

instance (t : Timeval) : Decidable t.Normal := inferInstanceAs (Decidable (_ ∧ _))

end Timeval

/-- the result is an `int`: the low 32 bits, with a sign -/
def timeval2utime (t : Timeval) : ℤ := Int.bmod (t.sec * 1000000 + t.usec) (2 ^ 32)

def utime2timeval (t2 : ℤ) : Timeval := ⟨t2.tdiv 1000000, t2.tmod 1000000⟩

theorem normal_utime2timeval {t2 : ℤ} (h : 0 ≤ t2) : (utime2timeval t2).Normal :=
  ⟨Int.tdiv_nonneg h (by decide), Int.tmod_nonneg _ h, Int.tmod_lt_of_pos _ (by decide)⟩

theorem micros_utime2timeval (t2 : ℤ) : (utime2timeval t2).micros = t2 := Int.tdiv_mul_add_tmod t2 1000000

/-! ## Sets -/

/-- SOCK_API::FDSET -/
structure FdSet where
  fdset : Finset ℤ
  udset : Finset ℤ
deriving DecidableEq

namespace FdSet

/-- as constructed, and after `ZERO` -/
def zero : FdSet := ⟨∅, ∅⟩

def set (s : FdSet) (sd : ℤ) : FdSet :=
  if sd < UDT_FD_BASE then { s with fdset := insert sd s.fdset }
  else { s with udset := insert (sd - UDT_FD_BASE) s.udset }

def isset (s : FdSet) (sd : ℤ) : Bool :=
  if sd < UDT_FD_BASE then sd ∈ s.fdset else sd - UDT_FD_BASE ∈ s.udset

theorem isset_set (s : FdSet) (sd fd : ℤ) : (s.set sd).isset fd = true ↔ fd = sd ∨ s.isset fd = true := by
  unfold set isset
  split_ifs with h1 h2 h2
  · rw [decide_eq_true_eq, decide_eq_true_eq, Finset.mem_insert]
  · rw [decide_eq_true_eq, or_iff_right (by rintro rfl; exact h2 h1)]
  · rw [decide_eq_true_eq, or_iff_right (by rintro rfl; exact h1 h2)]
  · rw [decide_eq_true_eq, decide_eq_true_eq, Finset.mem_insert, sub_left_inj]

theorem isset_zero (fd : ℤ) : zero.isset fd = false := by
  unfold isset
  split_ifs
  · rfl
  · rfl

theorem isset_mono {s : FdSet} {f u : Finset ℤ} (hf : f ⊆ s.fdset) (hu : u ⊆ s.udset) {fd : ℤ}
    (h : isset ⟨f, u⟩ fd = true) : s.isset fd = true := by
  unfold isset at h ⊢
  split_ifs at h ⊢
  · exact decide_eq_true (hf (of_decide_eq_true h))
  · exact decide_eq_true (hu (of_decide_eq_true h))

/-- the set with the descriptors `fds` -/
def ofList (fds : List ℤ) : FdSet := fds.foldr (fun sd s => s.set sd) zero

theorem isset_ofList {fds : List ℤ} {fd : ℤ} : (ofList fds).isset fd = true ↔ fd ∈ fds := by
  induction fds with
  | nil => simp [ofList, isset_zero]
  | cons sd fds ih => rw [ofList, List.foldr_cons, isset_set, ← ofList, ih, List.mem_cons]

/-- after `&fdset` was passed to a call -/
def withTcp (s : FdSet) (fdset : Finset ℤ) : FdSet := { s with fdset := fdset }

/-- after `&udset` was passed to a call -/
def withUdt (s : FdSet) (udset : Finset ℤ) : FdSet := { s with udset := udset }

def card (s : FdSet) : ℕ := s.fdset.card + s.udset.card

end FdSet

/-- the read, the write and the exception set -/
structure Three (α : Type*) where
  r : α
  w : α
  e : α
deriving DecidableEq

namespace Three

variable {α β γ : Type*}

def map (f : α → β) (x : Three α) : Three β := ⟨f x.r, f x.w, f x.e⟩

def map₂ (f : α → β → γ) (x : Three α) (y : Three β) : Three γ := ⟨f x.r y.r, f x.w y.w, f x.e y.e⟩

/-- members of all three -/
def card (x : Three (Finset ℤ)) : ℕ := x.r.card + x.w.card + x.e.card

/-- each within the other -/
def Sub (x y : Three (Finset ℤ)) : Prop := x.r ⊆ y.r ∧ x.w ⊆ y.w ∧ x.e ⊆ y.e

instance (x y : Three (Finset ℤ)) : Decidable (x.Sub y) := inferInstanceAs (Decidable (_ ∧ _))

end Three

/-! ## The function -/

namespace Select

inductive Call where
  /-- `::select` -/
  | tcp (nfds : ℤ) (sets : Three (Finset ℤ)) (t : Timeval)
  /-- `UDT::select` -/
  | udt (nfds : ℤ) (sets : Three (Finset ℤ)) (t : Timeval)
deriving DecidableEq

/-- the result, what is left in the sets, and what is left in `t` -/
structure Ans where
  rc : ℤ
  sets : Three (Finset ℤ)
  left : Timeval
deriving DecidableEq

def Call.sets : Call → Three (Finset ℤ)
  | .tcp _ sets _ => sets
  | .udt _ sets _ => sets

/-- the wait it asks for -/
def Call.wait : Call → Timeval
  | .tcp _ _ t => t
  | .udt _ _ t => t

/-- the sets after a call: the ready descriptors and their number, or the sets as they were -/
def SetsOk (given : Three (Finset ℤ)) (a : Ans) : Prop :=
  if 0 ≤ a.rc then a.sets.Sub given ∧ a.rc = a.sets.card else a.rc = -1 ∧ a.sets = given

instance (given : Three (Finset ℤ)) (a : Ans) : Decidable (SetsOk given a) := by
  unfold SetsOk
  infer_instance

/-- what is assumed of the sets -/
def permitted (c : Call) (a : Ans) : Bool := SetsOk c.sets a

/-- what is assumed of `t`: `::select` leaves the wait as it was, or what remains of it; `UDT::select` has it const -/
def leavesWait : Call → Ans → Bool
  | .tcp _ _ t, a => a.left = t ∨ (a.left.Normal ∧ a.left.micros ≤ t.micros)
  | .udt _ _ _, _ => true

inductive Pc where
  | tcp
  | udt
  | returned (r : ℤ)
deriving DecidableEq

end Select

structure Select where
  nfds : ℤ
  /-- what `rfdsp`, `wfdsp` and `efdsp` point to -/
  ptr : Three (Option FdSet)
  tMin : ℤ
  timeRest : ℤ
  tCur : ℤ
  scale : ℕ
  /-- `rfds`, `wfds` and `efds` -/
  fds : Three FdSet
  t : Timeval
  res1 : ℤ
  pc : Select.Pc
deriving DecidableEq

namespace Select

/-- a NULL pointer is replaced by one to `zset` -/
def deref : Option FdSet → FdSet
  | none => .zero
  | some s => s

/-- `*p = s`; what is stored in `zset` is not read again -/
def assign (p : Option FdSet) (s : FdSet) : Option FdSet := p.map fun _ => s

/-- the top of the loop -/
def iterate (s : Select) : Select :=
  { s with fds := s.ptr.map deref, t := utime2timeval (s.tCur * s.scale), pc := .tcp }

def scaleMask : ℕ := 3

/-- `u_timeout` -/
def uTimeout : Option Timeval → ℤ
  | none => 0
  | some t => timeval2utime t

/-- `t_min` -/
def tMinOf (timeout : Option Timeval) : ℤ :=
  match timeout with
  | none => 100
  | some _ =>
    if uTimeout timeout < 100 * 2 * scaleMask then ((uTimeout timeout).tdiv 2).tdiv scaleMask + 1 else 100

def start (nfds : ℤ) (ptr : Three (Option FdSet)) (timeout : Option Timeval) : Select :=
  iterate
    { nfds := nfds, ptr := ptr, tMin := tMinOf timeout, timeRest := uTimeout timeout, tCur := tMinOf timeout,
      scale := 0, fds := ⟨.zero, .zero, .zero⟩, t := ⟨0, 0⟩, res1 := 0, pc := .tcp }

def call (s : Select) : Option Call :=
  match s.pc with
  | .tcp => some (.tcp s.nfds (s.fds.map FdSet.fdset) s.t)
  | .udt => some (.udt s.nfds (s.fds.map FdSet.udset) s.t)
  | .returned _ => none

def resume (s : Select) (a : Ans) : Select :=
  match s.pc with
  | .tcp =>
    { s with fds := s.fds.map₂ FdSet.withTcp a.sets, t := a.left, res1 := a.rc, pc := .udt }
  | .udt =>
    let res2 := a.rc
    let s : Select := { s with fds := s.fds.map₂ FdSet.withUdt a.sets }
    let s : Select := { s with timeRest := s.timeRest - (s.tCur * 2 + 1) }
    if s.res1 > 0 ∨ res2 > 0 then
      { s with
        ptr := s.ptr.map₂ assign s.fds
        pc := .returned ((if s.res1 > 0 then s.res1 else 0) + if res2 > 0 then res2 else 0) }
    else if s.res1 < 0 ∨ res2 < 0 ∨ s.timeRest < 0 then
      { s with ptr := s.ptr.map (assign · .zero), pc := .returned (if s.res1 = 0 ∧ res2 = 0 then 0 else -1) }
    else
      let s : Select := { s with scale := scaleMask &&& ((s.scale <<< 1) + 1) }
      iterate { s with tCur := s.tMin * s.scale }
  | .returned _ => s

def machine : Machine Select Call Ans := ⟨call, resume⟩

abbrev Run := Machine.Logged Select Call Ans

/-- the function with calls that give every answer `ok` permits -/
def system (ok : Call → Ans → Bool) : System Run Ans :=
  machine.logged.system (fun s => ∃ nfds ptr timeout, s = ⟨start nfds ptr timeout, []⟩) ok

/-! ## One step -/

theorem resume_tcp {s : Select} (a : Ans) (hpc : s.pc = .tcp) :
    s.resume a =
      { s with fds := s.fds.map₂ FdSet.withTcp a.sets, t := a.left, res1 := a.rc, pc := .udt } := by
  rw [resume, hpc]

/-- after the second select, with what has been found and the time that is left -/
def asked (s : Select) (a : Ans) : Select :=
  { s with
    fds := s.fds.map₂ FdSet.withUdt a.sets
    timeRest := s.timeRest - (s.tCur * 2 + 1) }

/-- the next iteration, with a longer wait -/
def again (s : Select) : Select :=
  let s := { s with scale := scaleMask &&& ((s.scale <<< 1) + 1) }
  iterate { s with tCur := s.tMin * s.scale }

/-- **What the second select leads to**: something was found, or there is an error or no time left, or another
iteration. -/
theorem resume_udt {s : Select} (a : Ans) (hpc : s.pc = .udt) :
    ((s.res1 > 0 ∨ a.rc > 0) ∧ s.resume a =
      { s.asked a with
        ptr := s.ptr.map₂ assign (s.asked a).fds
        pc := .returned ((if s.res1 > 0 then s.res1 else 0) + if a.rc > 0 then a.rc else 0) }) ∨
    (¬ (s.res1 > 0 ∨ a.rc > 0) ∧ (s.res1 < 0 ∨ a.rc < 0 ∨ (s.asked a).timeRest < 0) ∧ s.resume a =
      { s.asked a with
        ptr := s.ptr.map (assign · .zero)
        pc := .returned (if s.res1 = 0 ∧ a.rc = 0 then 0 else -1) }) ∨
    (s.res1 = 0 ∧ a.rc = 0 ∧ 0 ≤ (s.asked a).timeRest ∧ s.resume a = (s.asked a).again) := by
  by_cases h1 : s.res1 > 0 ∨ a.rc > 0
  · refine Or.inl ⟨h1, ?_⟩
    simp only [resume, hpc]
    rw [if_pos h1]
    rfl
  · by_cases h2 : s.res1 < 0 ∨ a.rc < 0 ∨ (s.asked a).timeRest < 0
    · refine Or.inr (Or.inl ⟨h1, h2, ?_⟩)
      simp only [resume, hpc]
      rw [if_neg h1]
      exact if_pos h2
    · have hrest := fun h => h2 (Or.inr (Or.inr h))
      refine Or.inr (Or.inr ⟨by omega, by omega, not_lt.1 hrest, ?_⟩)
      simp only [resume, hpc]
      rw [if_neg h1]
      exact if_neg h2

/-! ## The loop ends -/

theorem sixth_of_nonneg {u : ℤ} (h : 0 ≤ u) : (u.tdiv 2).tdiv 3 = u / 6 := by
  rw [Int.tdiv_eq_ediv_of_nonneg h, Int.tdiv_eq_ediv_of_nonneg (by omega)]
  omega

/-- the division cuts towards zero -/
theorem sixth_of_neg {u : ℤ} (h : u < 0) : (u.tdiv 2).tdiv 3 = -(-u / 6) := by
  have hneg : ((-u).tdiv 2).tdiv 3 = -u / 6 := sixth_of_nonneg (by omega)
  rw [← hneg, Int.neg_tdiv, Int.neg_tdiv, neg_neg]

/-- the time goes down, or is over with this iteration -/
structure Spends (s : Select) : Prop where
  cur : s.timeRest - (s.tCur * 2 + 1) < 0 ∨ 0 ≤ s.tCur
  min : s.timeRest - (s.tCur * 2 + 1) < 0 ∨ 0 ≤ s.tMin

theorem tMinOf_some (t : Timeval) :
    tMinOf (some t) =
      if uTimeout (some t) < 600 then ((uTimeout (some t)).tdiv 2).tdiv 3 + 1 else 100 := rfl

/-- the slice is positive, or the time is used up by the first charge -/
theorem tMinOf_cases (timeout : Option Timeval) :
    uTimeout timeout - (tMinOf timeout * 2 + 1) < 0 ∨ 0 ≤ tMinOf timeout := by
  cases timeout with
  | none => exact Or.inr (by decide)
  | some t =>
    have hmin := tMinOf_some t
    split_ifs at hmin
    · rcases lt_or_ge (uTimeout (some t)) 0 with hneg | hpos
      · rw [sixth_of_neg hneg] at hmin
        omega
      · rw [sixth_of_nonneg hpos] at hmin
        omega
    · omega

theorem spends_start (nfds : ℤ) (ptr : Three (Option FdSet)) (timeout : Option Timeval) :
    Spends (start nfds ptr timeout) := ⟨tMinOf_cases timeout, tMinOf_cases timeout⟩

/-- an iteration that is followed by another one had a slice that is not negative -/
theorem Spends.nonneg {s : Select} (h : Spends s) (a : Ans) (hrest : 0 ≤ (s.asked a).timeRest) :
    0 ≤ s.tCur ∧ 0 ≤ (s.asked a).again.tCur :=
  ⟨h.cur.resolve_left (not_lt.2 hrest), mul_nonneg (h.min.resolve_left (not_lt.2 hrest)) (Int.natCast_nonneg _)⟩

theorem spends_resume {s : Select} {c : Call} {a : Ans} (h : Spends s) (hc : s.call = some c)
    (hret : ∀ r, (s.resume a).pc ≠ .returned r) : Spends (s.resume a) := by
  cases hpc : s.pc with
  | tcp =>
    rw [resume_tcp a hpc]
    exact ⟨h.cur, h.min⟩
  | udt =>
    rcases resume_udt a hpc with ⟨-, heq⟩ | ⟨-, -, heq⟩ | ⟨-, -, hrest, heq⟩
    · exact absurd (congrArg Select.pc heq) (hret _)
    · exact absurd (congrArg Select.pc heq) (hret _)
    · rw [heq]
      exact ⟨Or.inr (h.nonneg a hrest).2, Or.inr (h.min.resolve_left (not_lt.2 hrest))⟩
  | returned r =>
    rw [call, hpc] at hc
    cases hc

/-- the time that is left, with the two calls of an iteration -/
def rank (s : Select) : ℕ := 2 * s.timeRest.toNat + if s.pc = .tcp then 1 else 0

theorem rank_resume {s : Select} {c : Call} {a : Ans} (h : Spends s) (hc : s.call = some c)
    (hret : ∀ r, (s.resume a).pc ≠ .returned r) : (s.resume a).rank < s.rank := by
  cases hpc : s.pc with
  | tcp =>
    have hrest : (s.resume a).rank = 2 * s.timeRest.toNat := by
      rw [resume_tcp a hpc]
      rfl
    rw [hrest, rank, if_pos hpc]
    omega
  | udt =>
    rcases resume_udt a hpc with ⟨-, heq⟩ | ⟨-, -, heq⟩ | ⟨-, -, hrest, heq⟩
    · exact absurd (congrArg Select.pc heq) (hret _)
    · exact absurd (congrArg Select.pc heq) (hret _)
    · have hcur := (h.nonneg a hrest).1
      have hless : (s.asked a).timeRest = s.timeRest - (s.tCur * 2 + 1) := rfl
      have hagain : (s.asked a).again.rank = 2 * (s.asked a).timeRest.toNat + 1 := rfl
      rw [heq, hagain, rank]
      omega
  | returned r =>
    rw [call, hpc] at hc
    cases hc

/-- the function has returned -/
def Returned (s : Run) : Prop := ∃ r, s.st.pc = .returned r

theorem call_of_returned {s : Run} (h : Returned s) : s.st.call = none := by
  obtain ⟨r, hr⟩ := h
  rw [call, hr]

theorem call_of_not_returned {s : Run} (h : ¬ Returned s) : ∃ c, s.st.call = some c := by
  unfold call
  cases hpc : s.st.pc with
  | tcp => exact ⟨_, rfl⟩
  | udt => exact ⟨_, rfl⟩
  | returned r => exact absurd ⟨r, hpc⟩ h

/-- nothing is called after the return -/
theorem not_step_of_returned {ok : Call → Ans → Bool} {s t : Run} {a : Ans} (h : Returned s) :
    (system ok).step s a ≠ some t := by
  intro hstep
  obtain ⟨c, hc, -, -⟩ := Machine.logged_cases hstep
  cases (call_of_returned h).symm.trans hc

/-- **One step** goes on with less to do. -/
theorem rank_step {ok : Call → Ans → Bool} {s t : Run} {a : Ans} (h : Spends s.st)
    (hstep : (system ok).step s a = some t) (ht : ¬ Returned t) : Spends t.st ∧ t.st.rank < s.st.rank := by
  obtain ⟨c, hc, -, rfl⟩ := Machine.logged_cases hstep
  have hret (r : ℤ) : (s.st.resume a).pc ≠ .returned r := fun hr => ht ⟨r, hr⟩
  exact ⟨spends_resume h hc hret, rank_resume h hc hret⟩

/-- a run that has not returned has proper waits -/
def Waits (s : Run) : Prop := Returned s ∨ (Spends s.st ∧ s.st.t.Normal)

/-- the first wait is 0 -/
theorem waits_start (nfds : ℤ) (ptr : Three (Option FdSet)) (timeout : Option Timeval) :
    Waits ⟨start nfds ptr timeout, []⟩ := by
  refine Or.inr ⟨spends_start nfds ptr timeout, ?_⟩
  simp only [start, iterate, Nat.cast_zero, mul_zero]
  decide

theorem waits_step {s t : Run} {a : Ans} (h : Waits s) (hstep : (system leavesWait).step s a = some t) : Waits t := by
  by_cases ht : Returned t
  · exact Or.inl ht
  · obtain ⟨hspends, hnormal⟩ := h.resolve_left fun hs => not_step_of_returned hs hstep
    refine Or.inr ⟨(rank_step hspends hstep ht).1, ?_⟩
    obtain ⟨c, hc, hok, rfl⟩ := Machine.logged_cases hstep
    have hret (r : ℤ) : (s.st.resume a).pc ≠ .returned r := fun hr => ht ⟨r, hr⟩
    show (s.st.resume a).t.Normal
    cases hpc : s.st.pc with
    | tcp =>
      have hcall : s.st.call = some (.tcp s.st.nfds (s.st.fds.map FdSet.fdset) s.st.t) := by rw [call, hpc]
      obtain rfl := Option.some.inj (hcall.symm.trans hc)
      rw [resume_tcp a hpc]
      rcases of_decide_eq_true hok with hleft | ⟨hleft, -⟩
      · exact hleft ▸ hnormal
      · exact hleft
    | udt =>
      rcases resume_udt a hpc with ⟨-, heq⟩ | ⟨-, -, heq⟩ | ⟨-, -, hrest, heq⟩
      · exact absurd (congrArg Select.pc heq) (hret _)
      · exact absurd (congrArg Select.pc heq) (hret _)
      · rw [heq]
        exact normal_utime2timeval (mul_nonneg (hspends.nonneg a hrest).2 (Int.natCast_nonneg _))
    | returned r => exact absurd ⟨r, hpc⟩ fun hs => not_step_of_returned hs hstep

theorem wait_of_call {s : Select} {c : Call} (hc : s.call = some c) : c.wait = s.t := by
  unfold call at hc
  cases hpc : s.pc with
  | tcp =>
    rw [hpc] at hc
    obtain rfl := Option.some.inj hc
    rfl
  | udt =>
    rw [hpc] at hc
    obtain rfl := Option.some.inj hc
    rfl
  | returned r =>
    rw [hpc] at hc
    cases hc

/-- **The function returns**, for every timeout and all answers, and every wait that it hands down is a proper one. -/
theorem select_ends (nfds : ℤ) (ptr : Three (Option FdSet)) (timeout : Option Timeval) :
    (system fun _ _ => true).Ends Returned ⟨start nfds ptr timeout, []⟩ ∧
      ∀ as s c, (system leavesWait).exec ⟨start nfds ptr timeout, []⟩ as = some s → s.st.call = some c →
        c.wait.Normal := by
  constructor
  · apply System.ends_of_rank (fun s => Spends s.st) (fun s => s.st.rank)
    · intro s a t hs hstep
      exact absurd hstep (not_step_of_returned hs)
    · intro s a t hs _ hstep ht
      exact rank_step hs hstep ht
    · intro s _ hs
      obtain ⟨c, hc⟩ := call_of_not_returned hs
      have hstep : machine.logged.step (fun _ _ => true) s ⟨0, s.st.fds.map FdSet.fdset, c.wait⟩ = some _ :=
        Machine.logged_step hc rfl
      exact ⟨_, _, hstep⟩
    · exact spends_start nfds ptr timeout
  · intro as s c h hc
    have hwaits := System.exec_inv Waits (fun _ _ _ => waits_step) h (waits_start nfds ptr timeout)
    rw [wait_of_call hc]
    rcases hwaits with hret | ⟨-, hnormal⟩
    · cases (call_of_returned hret).symm.trans hc
    · exact hnormal

end Select

end UdtGate
