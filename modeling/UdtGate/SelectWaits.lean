/-
How long `SOCK_API::select` waits when nothing happens.

A quiet run, in which every select finds nothing and none fails, is determined by its length. The wait of an iteration
is `t_cur*scale_factor` for each of the two calls, and the time is charged `t_cur*2 + 1`; `t_cur` already contains the
factor, which goes 0, 1, 3, 3, and so on.

- `waits` and `charged`: what the first iterations have waited for and have been charged.
- `quiet_run`: a quiet run is where these two say. It returns at the first charge that is more than the timeout.
- `overstay_iff`: a slice of three times the smallest one waits nine times and is charged three times. The timeout is
  kept, but for one slice, only when no more than one such slice is waited for; or when its low 32 bits say less.
- `early_iff`: the timeout is waited for when there is one that fits an `int`.
-/
import UdtGate.Select

namespace UdtGate

open UdtGate.Core

namespace Select

/-! ## The slices -/

/-- `scale_factor` in the iteration `k` -/
def factor : ℕ → ℕ
  | 0 => 0
  | k + 1 => scaleMask &&& ((factor k <<< 1) + 1)

/-- `t_cur` in the iteration `k`, when the smallest slice is `tm` -/
def curAt (tm : ℤ) : ℕ → ℤ
  | 0 => tm
  | k + 1 => tm * factor (k + 1)

/-- what `k` iterations are charged -/
def charged (tm : ℤ) : ℕ → ℤ
  | 0 => 0
  | k + 1 => charged tm k + (curAt tm k * 2 + 1)

/-- what `k` iterations wait for, in both calls -/
def waits (tm : ℤ) : ℕ → ℤ
  | 0 => 0
  | k + 1 => waits tm k + 2 * (curAt tm k * factor k)

theorem factor_add_two (k : ℕ) : factor (k + 2) = 3 := by
  induction k with
  | zero => rfl
  | succ k ih =>
    rw [factor, ih]
    rfl

theorem charged_add_two (tm : ℤ) (m : ℕ) : charged tm (m + 2) = 2 * (2 * tm + 1) + m * (6 * tm + 1) := by
  induction m with
  | zero =>
    simp only [charged, curAt, factor, scaleMask]
    norm_num
    ring
  | succ m ih =>
    calc charged tm (m + 1 + 2)
        = charged tm (m + 2) + (tm * factor (m + 2) * 2 + 1) := rfl
      _ = 2 * (2 * tm + 1) + m * (6 * tm + 1) + (tm * 3 * 2 + 1) := by rw [ih, factor_add_two]; rfl
      _ = 2 * (2 * tm + 1) + ((m + 1 : ℕ) : ℤ) * (6 * tm + 1) := by push_cast; ring

theorem waits_add_two (tm : ℤ) (m : ℕ) : waits tm (m + 2) = 2 * tm + m * (18 * tm) := by
  induction m with
  | zero =>
    simp only [waits, curAt, factor, scaleMask]
    norm_num
  | succ m ih =>
    calc waits tm (m + 1 + 2)
        = waits tm (m + 2) + 2 * (tm * factor (m + 2) * factor (m + 2)) := rfl
      _ = 2 * tm + m * (18 * tm) + 2 * (tm * 3 * 3) := by rw [ih, factor_add_two]; rfl
      _ = 2 * tm + ((m + 1 : ℕ) : ℤ) * (18 * tm) := by push_cast; ring

/-! ## Quiet runs -/

variable {ok : Call → Ans → Bool}

/-- what the calls of a run have waited for: the wait that was stored in `t`, once for each of the two calls -/
def waited (log : List (Call × Ans)) : ℤ :=
  (log.map fun e =>
    match e.1 with
    | .tcp _ _ t => 2 * t.micros
    | .udt _ _ _ => 0).sum

theorem waited_snoc (log : List (Call × Ans)) (e : Call × Ans) : waited (log ++ [e]) = waited log + waited [e] := by
  rw [waited, waited, waited, List.map_append, List.sum_append]

/-- the iteration `k` of a quiet run with the time `u` -/
structure Round (tm u : ℤ) (k : ℕ) (s : Select) : Prop where
  min : s.tMin = tm
  scale : s.scale = factor k
  cur : s.tCur = curAt tm k
  rest : s.timeRest = u - charged tm k
  /-- no charge so far was too much -/
  left : ∀ j < k, charged tm (j + 1) ≤ u

/-- where a quiet run is -/
def Quiet (tm u : ℤ) (s : Run) : Prop :=
  match s.st.pc with
  | .tcp => ∃ k, Round tm u k s.st ∧ s.st.t.micros = curAt tm k * factor k ∧ waited s.log = waits tm k
  | .udt => ∃ k, Round tm u k s.st ∧ s.st.res1 = 0 ∧ waited s.log = waits tm (k + 1)
  | .returned _ =>
    ∃ k, (∀ j < k, charged tm (j + 1) ≤ u) ∧ u < charged tm (k + 1) ∧ waited s.log = waits tm (k + 1)

theorem quiet_start (nfds : ℤ) (ptr : Three (Option FdSet)) (timeout : Option Timeval) :
    Quiet (tMinOf timeout) (uTimeout timeout) ⟨start nfds ptr timeout, []⟩ := by
  refine ⟨0, ⟨rfl, rfl, rfl, (sub_zero _).symm, fun j hj => absurd hj (Nat.not_lt_zero j)⟩, ?_, rfl⟩
  exact micros_utime2timeval _

/-- **One quiet call.** -/
theorem quiet_resume {tm u : ℤ} {s : Run} {c : Call} {a : Ans} (h : Quiet tm u s) (hc : s.st.call = some c)
    (hq : a.rc = 0) : Quiet tm u ⟨s.st.resume a, s.log ++ [(c, a)]⟩ := by
  unfold Quiet at h
  cases hpc : s.st.pc with
  | tcp =>
    rw [hpc] at h
    obtain ⟨k, hround, ht, hwaited⟩ := h
    have hcall : s.st.call = some (.tcp s.st.nfds (s.st.fds.map FdSet.fdset) s.st.t) := by rw [call, hpc]
    obtain rfl := Option.some.inj (hcall.symm.trans hc)
    rw [resume_tcp a hpc]
    refine ⟨k, ⟨hround.min, hround.scale, hround.cur, hround.rest, hround.left⟩, hq, ?_⟩
    simp only [waited_snoc, hwaited]
    simp only [waited, waits, List.map_cons, List.map_nil, List.sum_cons, List.sum_nil, add_zero, ht]
  | udt =>
    rw [hpc] at h
    obtain ⟨k, hround, hres, hwaited⟩ := h
    have hcall : s.st.call = some (.udt s.st.nfds (s.st.fds.map FdSet.udset) s.st.t) := by rw [call, hpc]
    obtain rfl := Option.some.inj (hcall.symm.trans hc)
    have hlog : waited (s.log ++ [(Call.udt s.st.nfds (s.st.fds.map FdSet.udset) s.st.t, a)]) = waits tm (k + 1) := by
      rw [waited_snoc, hwaited]
      exact add_zero _
    have hrest : (s.st.asked a).timeRest = u - charged tm (k + 1) := by
      calc (s.st.asked a).timeRest
          = s.st.timeRest - (s.st.tCur * 2 + 1) := rfl
        _ = u - charged tm k - (curAt tm k * 2 + 1) := by rw [hround.rest, hround.cur]
        _ = u - charged tm (k + 1) := by rw [charged]; ring
    rcases resume_udt a hpc with ⟨hpos, -⟩ | ⟨-, hout, heq⟩ | ⟨-, -, hnext, heq⟩
    · omega
    · rw [heq]
      have hover : (s.st.asked a).timeRest < 0 := by omega
      exact ⟨k, hround.left, by omega, hlog⟩
    · rw [heq]
      refine ⟨k + 1, ⟨hround.min, ?_, ?_, hrest, ?_⟩, ?_, hlog⟩
      · show scaleMask &&& ((s.st.scale <<< 1) + 1) = factor (k + 1)
        rw [hround.scale, factor]
      · show s.st.tMin * ((scaleMask &&& ((s.st.scale <<< 1) + 1) : ℕ) : ℤ) = curAt tm (k + 1)
        rw [hround.min, hround.scale, curAt, factor]
      · intro j hj
        rcases Nat.lt_succ_iff_lt_or_eq.1 hj with hj | rfl
        · exact hround.left j hj
        · omega
      · show (utime2timeval (s.st.tMin * ((scaleMask &&& ((s.st.scale <<< 1) + 1) : ℕ) : ℤ) *
          ((scaleMask &&& ((s.st.scale <<< 1) + 1) : ℕ) : ℤ))).micros = curAt tm (k + 1) * factor (k + 1)
        rw [micros_utime2timeval, hround.min, hround.scale, curAt, factor]
  | returned r =>
    rw [call, hpc] at hc
    cases hc

theorem quiet_step {tm u : ℤ} {s t : Run} {a : Ans} (h : Quiet tm u s) (hq : a.rc = 0)
    (hstep : (system ok).step s a = some t) : Quiet tm u t := by
  obtain ⟨c, hc, -, rfl⟩ := Machine.logged_cases hstep
  exact quiet_resume h hc hq

/-- **A quiet run that has returned** went on until the first charge that was too much. -/
theorem quiet_run {nfds : ℤ} {ptr : Three (Option FdSet)} {timeout : Option Timeval} {as : List Ans} {s : Run} {r : ℤ}
    (h : (system ok).exec ⟨start nfds ptr timeout, []⟩ as = some s) (hq : ∀ a ∈ as, a.rc = 0)
    (hr : s.st.pc = .returned r) :
    ∃ k, (∀ j < k, charged (tMinOf timeout) (j + 1) ≤ uTimeout timeout) ∧
      uTimeout timeout < charged (tMinOf timeout) (k + 1) ∧ waited s.log = waits (tMinOf timeout) (k + 1) := by
  have hquiet := System.exec_inv_meets (Quiet (tMinOf timeout) (uTimeout timeout)) (fun _ a => a.rc = 0)
    (fun _ _ _ => quiet_step) h (System.meets_of_forall hq) (quiet_start nfds ptr timeout)
  rwa [Quiet, hr] at hquiet

/-! ## The timeout -/

/-- the timeout as it is counted: itself, or what is left of it after full turns of the `int` -/
theorem uTimeout_cases {tv : Timeval} (h : tv.Normal) :
    (tv.micros < 2 ^ 31 ∧ uTimeout (some tv) = tv.micros) ∨
      (2 ^ 31 ≤ tv.micros ∧ -2 ^ 31 ≤ uTimeout (some tv) ∧ uTimeout (some tv) < 2 ^ 31 ∧
        ∃ q : ℕ, tv.micros = uTimeout (some tv) + 2 ^ 32 * (q + 1)) := by
  have hpos : 0 ≤ tv.micros := by
    obtain ⟨hsec, husec, -⟩ := h
    unfold Timeval.micros
    omega
  have hbmod : uTimeout (some tv) = Int.bmod tv.micros (2 ^ 32) := rfl
  rw [hbmod, Int.bmod_def]
  norm_num
  split_ifs with hlow
  · rcases lt_or_ge tv.micros 2147483648 with hlt | hge
    · exact Or.inl ⟨hlt, by omega⟩
    · refine Or.inr ⟨hge, by omega, by omega, (tv.micros / 4294967296 - 1).toNat, ?_⟩
      omega
  · refine Or.inr ⟨by omega, by omega, by omega, (tv.micros / 4294967296).toNat, ?_⟩
    omega

/-- the three kinds of last iterations -/
theorem last_cases {tm u w : ℤ} {k : ℕ} (hleft : ∀ j < k, charged tm (j + 1) ≤ u) (hover : u < charged tm (k + 1))
    (hw : w = waits tm (k + 1)) :
    (u < 2 * tm + 1 ∧ w = 0) ∨ (2 * tm + 1 ≤ u ∧ u < 2 * (2 * tm + 1) ∧ w = 2 * tm) ∨
      ∃ m : ℕ, 2 * tm + 1 ≤ u ∧ 2 * (2 * tm + 1) + m * (6 * tm + 1) ≤ u ∧
        u < 2 * (2 * tm + 1) + (m + 1 : ℕ) * (6 * tm + 1) ∧ w = 2 * tm + (m + 1 : ℕ) * (18 * tm) := by
  have h1 : charged tm 1 = 2 * tm + 1 := by
    simp only [charged, curAt]
    ring
  match k with
  | 0 =>
    refine Or.inl ⟨by rw [← h1]; exact hover, ?_⟩
    rw [hw]
    simp [waits, factor]
  | 1 =>
    have hfirst := hleft 0 Nat.zero_lt_one
    rw [h1] at hfirst
    rw [charged_add_two tm 0, Nat.cast_zero, zero_mul, add_zero] at hover
    rw [waits_add_two tm 0, Nat.cast_zero, zero_mul, add_zero] at hw
    exact Or.inr (Or.inl ⟨hfirst, hover, hw⟩)
  | m + 2 =>
    have hfirst := hleft 0 (Nat.succ_pos _)
    have hlast := hleft (m + 1) (Nat.lt_succ_self _)
    rw [h1] at hfirst
    rw [charged_add_two] at hlast
    rw [charged_add_two tm (m + 1)] at hover
    rw [waits_add_two tm (m + 1)] at hw
    exact Or.inr (Or.inr ⟨m, hfirst, hlast, hover, hw⟩)

/-- **How a quiet run ends**, by the time that is counted: with a negative one at once, with a small one after at most
three iterations, and else after slices of 900 microseconds for each call that are charged 601. -/
theorem waited_cases {nfds : ℤ} {ptr : Three (Option FdSet)} {tv : Timeval} {as : List Ans} {s : Run} {r : ℤ}
    (h : (system ok).exec ⟨start nfds ptr (some tv), []⟩ as = some s) (hq : ∀ a ∈ as, a.rc = 0)
    (hr : s.st.pc = .returned r) :
    (uTimeout (some tv) < 0 ∧ tMinOf (some tv) = -(-uTimeout (some tv) / 6) + 1 ∧ waited s.log = 0) ∨
      (0 ≤ uTimeout (some tv) ∧ uTimeout (some tv) < 600 ∧ tMinOf (some tv) = uTimeout (some tv) / 6 + 1 ∧
        ((uTimeout (some tv) < 2 * tMinOf (some tv) + 1 ∧ waited s.log = 0) ∨
          (uTimeout (some tv) < 2 * (2 * tMinOf (some tv) + 1) ∧ waited s.log = 2 * tMinOf (some tv)) ∨
          (2 * (2 * tMinOf (some tv) + 1) ≤ uTimeout (some tv) ∧ waited s.log = 20 * tMinOf (some tv)))) ∨
      (600 ≤ uTimeout (some tv) ∧ tMinOf (some tv) = 100 ∧
        ∃ m : ℕ, 402 + 601 * (m : ℤ) ≤ uTimeout (some tv) ∧ uTimeout (some tv) < 1003 + 601 * (m : ℤ) ∧
          waited s.log = 2000 + 1800 * (m : ℤ)) := by
  obtain ⟨k, hleft, hover, hw⟩ := quiet_run h hq hr
  have hcases := last_cases hleft hover hw
  have hmin := tMinOf_some tv
  split_ifs at hmin with hsmall
  · rcases lt_or_ge (uTimeout (some tv)) 0 with hneg | hnn
    · rw [sixth_of_neg hneg] at hmin
      refine Or.inl ⟨hneg, hmin, ?_⟩
      rcases hcases with ⟨-, hw⟩ | ⟨hfirst, -⟩ | ⟨m, hfirst, -⟩
      · exact hw
      · omega
      · omega
    · rw [sixth_of_nonneg hnn] at hmin
      refine Or.inr (Or.inl ⟨hnn, hsmall, hmin, ?_⟩)
      rcases hcases with h0 | ⟨-, h1⟩ | ⟨m, -, hm, -, hw⟩
      · exact Or.inl h0
      · exact Or.inr (Or.inl h1)
      · have hm0 : m = 0 := by
          by_contra hne
          have hone : (1 : ℤ) ≤ m := by exact_mod_cast Nat.one_le_iff_ne_zero.2 hne
          have hslice : 1 * (6 * tMinOf (some tv) + 1) ≤ (m : ℤ) * (6 * tMinOf (some tv) + 1) :=
            mul_le_mul_of_nonneg_right hone (by omega)
          omega
        subst hm0
        rw [Nat.cast_zero, zero_mul, add_zero] at hm
        rw [Nat.zero_add, Nat.cast_one] at hw
        exact Or.inr (Or.inr ⟨hm, by omega⟩)
  · refine Or.inr (Or.inr ⟨not_lt.1 hsmall, hmin, ?_⟩)
    rw [hmin] at hcases
    rcases hcases with ⟨hlt, -⟩ | ⟨-, hlt, -⟩ | ⟨m, -, hle, hlt, hw⟩
    · omega
    · omega
    · push_cast at hlt hw
      exact ⟨m, by omega, by omega, by omega⟩

/-- **When the timeout is kept, but for one slice**: when a single slice of the full size follows the first two
iterations, or the low 32 bits of the timeout make up for what is waited too much. -/
theorem overstay_iff {nfds : ℤ} {ptr : Three (Option FdSet)} {tv : Timeval} (htv : tv.Normal) {as : List Ans} {s : Run}
    (h : (system ok).exec ⟨start nfds ptr (some tv), []⟩ as = some s) (hq : ∀ a ∈ as, a.rc = 0)
    (hr : s.st.pc = .returned 0) :
    waited s.log ≤ tv.micros + 18 * tMinOf (some tv) ↔ tv.micros ≤ 1002 ∨ 3221225465 ≤ tv.micros := by
  rcases waited_cases h hq hr with ⟨hneg, hmin, hw⟩ | ⟨hnn, hsmall, hmin, hw⟩ | ⟨hbig, hmin, m, hle, hlt, hw⟩
  · rcases uTimeout_cases htv with ⟨hfit, hu⟩ | ⟨hfit, hlow, -, q, hu⟩
    · obtain ⟨hsec, husec, -⟩ := htv
      unfold Timeval.micros at *
      omega
    -- the wrapped time makes the slice negative, and with it the bound
    · rcases Nat.eq_zero_or_pos q with rfl | hq
      · omega
      · omega
  · rcases uTimeout_cases htv with ⟨hfit, hu⟩ | ⟨hfit, -, -, q, hu⟩
    · omega
    · omega
  · rcases uTimeout_cases htv with ⟨hfit, hu⟩ | ⟨hfit, -, hhigh, q, hu⟩
    · omega
    · omega

/-- TCP descriptor 3 and UDT id 9 to be read -/
def toRead : Three (Option FdSet) := ⟨some ⟨{3}, {9}⟩, none, none⟩

/-- nothing found -/
def nothing : Ans := ⟨0, ⟨∅, ∅, ∅⟩, ⟨0, 0⟩⟩

/-- three iterations -/
theorem overstay_iff_short :
    ∃ s, (system permitted).exec ⟨start 4 toRead (some ⟨0, 600⟩), []⟩ (List.replicate 6 nothing) = some s ∧
      s.st.pc = .returned 0 ∧ waited s.log = 2000 ∧ waited s.log ≤ 600 + 18 * 100 := by
  obtain ⟨s, hs, hret, hw⟩ : ∃ s,
      (system permitted).exec ⟨start 4 toRead (some ⟨0, 600⟩), []⟩ (List.replicate 6 nothing) = some s ∧
        s.st.pc = .returned 0 ∧ waited s.log = 2000 := System.exec_of_any (by decide)
  have hle := (overstay_iff (show Timeval.Normal ⟨0, 600⟩ by decide) hs (by decide) hret).2 (by decide)
  exact ⟨s, hs, hret, hw, hle⟩

/-- **A wait that is too long.** 1003 microseconds are given, and 3800 are waited for; a full slice is 1800. -/
theorem second_slice_overstays :
    tMinOf (some ⟨0, 1003⟩) = 100 ∧
      ∃ s, (system permitted).exec ⟨start 4 toRead (some ⟨0, 1003⟩), []⟩ (List.replicate 8 nothing) = some s ∧
        s.st.pc = .returned 0 ∧ waited s.log = 3800 ∧
          ¬ waited s.log ≤ Timeval.micros ⟨0, 1003⟩ + 18 * tMinOf (some ⟨0, 1003⟩) :=
  ⟨by decide, System.exec_of_any (by decide)⟩

/-- **When the timeout is waited for**, but for the charge of the first iteration: when there is one that fits an `int`.
NULL is no time at all. -/
theorem early_iff {nfds : ℤ} {ptr : Three (Option FdSet)} {timeout : Option Timeval}
    (htv : ∀ tv, timeout = some tv → tv.Normal) {as : List Ans} {s : Run}
    (h : (system ok).exec ⟨start nfds ptr timeout, []⟩ as = some s) (hq : ∀ a ∈ as, a.rc = 0)
    (hr : s.st.pc = .returned 0) :
    (∃ tv, timeout = some tv ∧ tv.micros - (2 * tMinOf timeout + 1) ≤ waited s.log) ↔
      ∃ tv, timeout = some tv ∧ tv.micros < 2 ^ 31 := by
  cases timeout with
  | none => simp
  | some tv =>
    have hnormal := htv tv rfl
    simp only [Option.some.injEq, exists_eq_left']
    rcases waited_cases h hq hr with ⟨hneg, hmin, hw⟩ | ⟨hnn, hsmall, hmin, hw⟩ | ⟨hbig, hmin, m, hle, hlt, hw⟩
    · rcases uTimeout_cases hnormal with ⟨hfit, hu⟩ | ⟨hfit, hlow, -, q, hu⟩
      · obtain ⟨hsec, husec, -⟩ := hnormal
        unfold Timeval.micros at *
        omega
      · omega
    · rcases uTimeout_cases hnormal with ⟨hfit, hu⟩ | ⟨hfit, -, -, q, hu⟩
      · omega
      · omega
    · rcases uTimeout_cases hnormal with ⟨hfit, hu⟩ | ⟨hfit, -, hhigh, q, hu⟩
      · omega
      · omega

/-- 600 microseconds, of which 201 are charged for the first iteration -/
theorem early_iff_short :
    ∃ s, (system permitted).exec ⟨start 4 toRead (some ⟨0, 600⟩), []⟩ (List.replicate 6 nothing) = some s ∧
      s.st.pc = .returned 0 ∧
        ∃ tv, some (⟨0, 600⟩ : Timeval) = some tv ∧ tv.micros - (2 * tMinOf (some ⟨0, 600⟩) + 1) ≤ waited s.log := by
  obtain ⟨s, hs, hret⟩ : ∃ s,
      (system permitted).exec ⟨start 4 toRead (some ⟨0, 600⟩), []⟩ (List.replicate 6 nothing) = some s ∧
        s.st.pc = .returned 0 := System.exec_of_any (by decide)
  have hnormal : ∀ tv, some (⟨0, 600⟩ : Timeval) = some tv → tv.Normal := by
    intro tv htv
    obtain rfl := Option.some.inj htv
    decide
  exact ⟨s, hs, hret, (early_iff hnormal hs (by decide) hret).2 ⟨_, rfl, by decide⟩⟩

/-- **A wait without limit that is over at once**, and one of 4295 seconds: nothing is waited for. -/
theorem gives_up_at_once :
    (∃ s, (system permitted).exec ⟨start 4 toRead none, []⟩ [nothing, nothing] = some s ∧
      s.st.pc = .returned 0 ∧ waited s.log = 0) ∧
    ∃ s, (system permitted).exec ⟨start 4 toRead (some ⟨4294, 967296⟩), []⟩ [nothing, nothing] = some s ∧
      s.st.pc = .returned 0 ∧ waited s.log = 0 :=
  ⟨System.exec_of_any (by decide), System.exec_of_any (by decide)⟩

end Select

end UdtGate
