/-
What `utl::worker` passes to its two calls of `SOCK_API::select`.

- `offered_iff_reported`: the write set of an iteration is made from its read set. A half that holds bytes gets its
  sink asked about only in an iteration whose first select found a source to read.
- `covered_iff`: `nfds` is made from `fd_out` and `sd`, with a helper for two descriptors that compares the numbers of
  both transports. `Covered` says for which descriptors it is large enough.
-/
import UdtGate.WorkerExits

namespace UdtGate

open UdtGate.Core

namespace Worker

variable {α : Type*}

/-! ## The write set -/

/-- bytes to write, and an end to write them to -/
def Unsent (h : Half α) : Prop := h.buf.items ≠ [] ∧ h.wshut = false

/-- the second select of an iteration asks about the sink of each half that has bytes to write -/
def Offered (s : Worker α) : Prop :=
  s.pc = .wselect → ∀ nfds rset wset eset usec, s.call = some (.select nfds rset wset eset usec) →
    (Unsent s.fwd → s.args.sd ∈ wset) ∧ (Unsent s.rev → s.args.fdOut ∈ wset)

/-- a select found `fd` ready -/
def Ready (a : Ans α) (fd : ℤ) : Prop := 0 < a.rc ∧ fd ∈ a.ready

/-- the first select of an iteration found a source of each half that has bytes to write; a source of the other half
will do when the two have one sink -/
def Reported (s : Run α) (a : Ans α) : Prop :=
  s.st.pc = .rselect →
    (Unsent s.st.fwd → Ready a s.st.args.fdIn ∨ (Ready a s.st.args.sd ∧ s.st.args.fdOut = s.st.args.sd)) ∧
      (Unsent s.st.rev → Ready a s.st.args.sd ∨ (Ready a s.st.args.fdIn ∧ s.st.args.fdOut = s.st.args.sd))

instance (h : Half α) : Decidable (Unsent h) := inferInstanceAs (Decidable (_ ∧ _))

instance (a : Ans α) (fd : ℤ) : Decidable (Ready a fd) := inferInstanceAs (Decidable (_ ∧ _))

instance (s : Run α) (a : Ans α) : Decidable (Reported s a) := inferInstanceAs (Decidable (_ → _ ∧ _))

theorem mem_sinks {s : Worker α} {fd : ℤ} :
    fd ∈ s.sinks ↔ (s.args.fdIn ∈ s.rset ∧ fd = s.args.sd) ∨ (s.args.sd ∈ s.rset ∧ fd = s.args.fdOut) := by
  rw [sinks, List.mem_append]
  apply or_congr
  · split_ifs with h
    · simp [h]
    · simp [h]
  · split_ifs with h
    · simp [h]
    · simp [h]

theorem ahead_ne_wselect {s t : Worker α} (h : Ahead s t) : t.pc ≠ .wselect := by
  obtain ⟨u, -, rfl | ⟨d, rfl | rfl⟩⟩ := h
  · unfold guard
    split_ifs
    · exact Pc.noConfusion
    · split
      · exact Pc.noConfusion
      · exact Pc.noConfusion
  · exact Pc.noConfusion
  · exact Pc.noConfusion

/-- the second select comes after the first -/
theorem rselect_of_wselect {s : Worker α} {c : Call α} {a : Ans α} (hc : s.call = some c)
    (h : (s.resume a).pc = .wselect) : s.pc = .rselect := by
  obtain ⟨args, timeout, pc, stamp, ractive, wactive, rset, wset, fwd, rev⟩ := s
  cases pc with
  | rselect => rfl
  | opt sd rest =>
    simp only [resume] at h
    split_ifs at h
    · cases rest with
      | nil => cases h
      | cons sd rest => cases h
  | stamping => exact absurd h (ahead_ne_wselect (ahead_guard _))
  | clock =>
    cases timeout with
    | none => cases h
    | some tv =>
      simp only [resume] at h
      split_ifs at h
      · cases h
  | sleeping => cases h
  | wselect => exact absurd h (ahead_ne_wselect (ahead_fwdRead _))
  | space d => cases h
  | reading d n => exact absurd h (ahead_ne_wselect (ahead_afterRead _ d))
  | held d => cases h
  | writing d n => exact absurd h (ahead_ne_wselect (ahead_afterWrite _ d))
  | closing sd rest =>
    cases rest with
    | nil => cases h
    | cons sd rest => cases h
  | returned => cases hc
  | died => cases hc

/-- the sinks that the first select leads to -/
theorem mem_sinks_resume {s : Worker α} {a : Ans α} (hpc : s.pc = .rselect) {fd : ℤ} :
    fd ∈ (s.resume a).sinks ↔
      (Ready a s.args.fdIn ∧ fd = s.args.sd) ∨ (Ready a s.args.sd ∧ fd = s.args.fdOut) := by
  rw [mem_sinks]
  simp only [resume, hpc, Ready]
  split_ifs with hrc
  · simp [hrc]
  · simp [hrc]

/-- the step of the first select, as far as the halves go -/
theorem resume_rselect {s : Worker α} (a : Ans α) (hpc : s.pc = .rselect) :
    (s.resume a).pc = .wselect ∧ (s.resume a).args = s.args ∧ (s.resume a).fwd = s.fwd ∧ (s.resume a).rev = s.rev := by
  simp only [resume, hpc]
  split_ifs
  · exact ⟨rfl, rfl, rfl, rfl⟩
  · exact ⟨rfl, rfl, rfl, rfl⟩

theorem offered_of_wselect {s : Worker α} (hpc : s.pc = .wselect) :
    Offered s ↔ (Unsent s.fwd → s.args.sd ∈ s.sinks) ∧ (Unsent s.rev → s.args.fdOut ∈ s.sinks) := by
  have hc : s.call = some (.select (maxfdn s.args.fdOut s.args.sd) [] s.sinks s.eset (wait s.wactive)) := by
    rw [call, hpc]
  constructor
  · intro h
    exact h hpc _ _ _ _ _ hc
  · intro h _ nfds rset wset eset usec hsel
    obtain ⟨-, -, rfl, -, -⟩ := Call.select.inj (Option.some.inj (hc.symm.trans hsel))
    exact h

/-- **One iteration**: the second select asks about what the first one reported. -/
theorem offered_resume {s : Run α} {a : Ans α} {c : Call α} (hc : s.st.call = some c) :
    Offered (s.st.resume a) ↔ Reported s a := by
  by_cases hpc : s.st.pc = .rselect
  · obtain ⟨hw, hargs, hfwd, hrev⟩ := resume_rselect a hpc
    rw [offered_of_wselect hw, Reported, imp_iff_right hpc, hargs, hfwd, hrev, mem_sinks_resume hpc,
      mem_sinks_resume hpc]
    apply and_congr
    · apply imp_congr_right
      intro _
      rw [and_iff_left rfl, eq_comm (a := s.st.args.sd)]
    · apply imp_congr_right
      intro _
      rw [and_iff_left rfl, or_comm]
  · refine ⟨fun _ h => absurd h hpc, ?_⟩
    intro _ hw
    exact absurd (rselect_of_wselect hc hw) hpc

/-- **When buffered data is offered for writing**: in a run of either overload, the second select of every iteration
asks about the sink of each half that has bytes to write, exactly when in every such iteration the first select found
a source of that half. -/
theorem offered_iff_reported (e : Entry) {as : List (Ans α)} {s : Run α}
    (h : (system α).exec ⟨e.start, []⟩ as = some s) :
    (∀ pre post u, as = pre ++ post → (system α).exec ⟨e.start, []⟩ pre = some u → Offered u.st) ↔
      (system α).Meets Reported ⟨e.start, []⟩ as := by
  apply System.prefixes_iff_meets (fun u => Offered u.st) Reported _ h
  · intro hpc
    cases e with
    | three fdIn fdOut sd timeout => cases hpc
    | two sd1 sd2 timeout => cases hpc
  · intro u a t _ hstep
    obtain ⟨c, hc, -, rfl⟩ := Machine.logged_cases hstep
    exact offered_resume hc

/-- three options set, the clock and the sleep: what comes before the first select -/
def toSelect : List (Ans UInt8) := [⟨0, [], []⟩, ⟨0, [], []⟩, ⟨0, [], []⟩, ⟨0, [], []⟩, ⟨0, [], []⟩]

/-- one iteration in which two bytes are read from 3 and the first of them is written, and the sleep of the next -/
def partialWrite : List (Ans UInt8) :=
  toSelect ++ [⟨1, [], [3]⟩, ⟨1, [], [UDT_FD_BASE + 9]⟩, ⟨8, [], []⟩, ⟨2, [7, 8], []⟩, ⟨2, [], []⟩, ⟨1, [], []⟩,
    ⟨0, [], []⟩]

/-- the source has more to read in the next iteration -/
theorem offered_iff_reported_more :
    ∃ s, (system UInt8).exec ⟨(Entry.three 3 3 (UDT_FD_BASE + 9) none).start, []⟩ (partialWrite ++ [⟨1, [], [3]⟩]) =
        some s ∧ s.st.pc = .wselect ∧ s.st.fwd.buf.items = [8] ∧ Offered s.st := by
  obtain ⟨s, hs, hpc, hitems⟩ : ∃ s, (system UInt8).exec ⟨(Entry.three 3 3 (UDT_FD_BASE + 9) none).start, []⟩
      (partialWrite ++ [⟨1, [], [3]⟩]) = some s ∧ s.st.pc = .wselect ∧ s.st.fwd.buf.items = [8] :=
    System.exec_of_any (by decide)
  have hall := (offered_iff_reported (.three 3 3 (UDT_FD_BASE + 9) none) hs).2 (by decide)
  exact ⟨s, hs, hpc, hitems, hall _ [] s (List.append_nil _).symm hs⟩

/-- **A byte that nobody offers.** The source pauses after a partial write: the next iteration's write set is empty
with a byte in the buffer, and its write end open. -/
theorem leftover_not_offered :
    ∃ s, (system UInt8).exec ⟨(Entry.three 3 3 (UDT_FD_BASE + 9) none).start, []⟩ (partialWrite ++ [⟨0, [], []⟩]) =
        some s ∧
      s.st.call = some (.select 4 [] [] [3, 3, UDT_FD_BASE + 9] 10) ∧ s.st.pc = .wselect ∧
        s.st.fwd.buf.items = [8] ∧ s.st.fwd.wshut = false ∧ ¬ Offered s.st := by
  obtain ⟨s, hs, hcall, hpc, hitems, hw⟩ : ∃ s,
      (system UInt8).exec ⟨(Entry.three 3 3 (UDT_FD_BASE + 9) none).start, []⟩ (partialWrite ++ [⟨0, [], []⟩]) =
        some s ∧ s.st.call = some (.select 4 [] [] [3, 3, UDT_FD_BASE + 9] 10) ∧ s.st.pc = .wselect ∧
          s.st.fwd.buf.items = [8] ∧ s.st.fwd.wshut = false := System.exec_of_any (by decide)
  refine ⟨s, hs, hcall, hpc, hitems, hw, ?_⟩
  intro h
  have hmem := (h hpc _ _ _ _ _ hcall).1 ⟨by rw [hitems]; exact List.cons_ne_nil _ _, hw⟩
  cases hmem

/-! ## The highest descriptor -/

def Entry.args : Entry → Args
  | .three fdIn fdOut sd _ => ⟨fdIn, fdOut, sd⟩
  | .two sd1 sd2 _ => ⟨sd1, sd1, sd2⟩

/-- `nfds` is greater than each TCP descriptor -/
def AllBelow (nfds : ℤ) (fds : List ℤ) : Prop := ∀ fd ∈ fds, fd < UDT_FD_BASE → fd < nfds

/-- the descriptors for which `maxfdn(fd_out, sd)` is large enough. A UDT id for `fd_out` stands above every TCP
descriptor, so that `sd` is not looked at. -/
def Covered (a : Args) : Prop :=
  if a.fdOut < UDT_FD_BASE then a.fdIn < UDT_FD_BASE → a.fdIn ≤ a.fdOut ∨ (a.sd < UDT_FD_BASE ∧ a.fdIn ≤ a.sd)
  else (a.sd < UDT_FD_BASE → a.sd ≤ 0) ∧ (a.fdIn < UDT_FD_BASE → a.fdIn ≤ 0)

instance (a : Args) : Decidable (Covered a) := by
  unfold Covered
  infer_instance

theorem args_start (e : Entry) : (e.start : Worker α).args = e.args := by
  cases e with
  | three fdIn fdOut sd timeout => rfl
  | two sd1 sd2 timeout => rfl

theorem args_step {r : Args} {s t : Run α} {a : Ans α} (h : s.st.args = r) (hst : (system α).step s a = some t) :
    t.st.args = r := by
  obtain ⟨c, hc, -, rfl⟩ := Machine.logged_cases hst
  exact (resume_kept hc).1.trans h

/-- both selects get the same `nfds`, and an exception set of all three descriptors -/
theorem select_call {s : Worker α} {nfds : ℤ} {rset wset eset : List ℤ} {usec : ℕ}
    (hc : s.call = some (.select nfds rset wset eset usec)) :
    nfds = maxfdn s.args.fdOut s.args.sd ∧ eset = s.eset ∧ ∀ fd ∈ rset ++ wset, fd ∈ s.eset := by
  cases hpc : s.pc with
  | rselect =>
    rw [call, hpc] at hc
    obtain ⟨rfl, rfl, rfl, rfl, -⟩ := Call.select.inj (Option.some.inj hc)
    refine ⟨rfl, rfl, ?_⟩
    intro fd hfd
    simp only [List.append_nil, List.mem_cons, List.not_mem_nil, or_false] at hfd
    rcases hfd with rfl | rfl
    · simp [Worker.eset]
    · simp [Worker.eset]
  | wselect =>
    rw [call, hpc] at hc
    obtain ⟨rfl, rfl, rfl, rfl, -⟩ := Call.select.inj (Option.some.inj hc)
    refine ⟨rfl, rfl, ?_⟩
    intro fd hfd
    rw [List.nil_append] at hfd
    rcases mem_sinks.1 hfd with ⟨-, rfl⟩ | ⟨-, rfl⟩
    · simp [Worker.eset]
    · simp [Worker.eset]
  | _ =>
    rw [call, hpc] at hc
    cases hc

/-- the helper for two descriptors, used for three -/
theorem allBelow_iff (a : Args) : AllBelow (maxfdn a.fdOut a.sd) [a.fdIn, a.fdOut, a.sd] ↔ Covered a := by
  have hbase : (0 : ℤ) < UDT_FD_BASE := by decide
  unfold AllBelow Covered maxfdn
  simp only [List.forall_mem_cons, List.not_mem_nil, false_imp_iff, implies_true, and_true]
  by_cases hout : a.fdOut < UDT_FD_BASE
  · simp only [if_pos hout]
    split_ifs
    · omega
    · omega
  · simp only [if_neg hout]
    rw [if_neg (by omega)]
    omega

/-- **When `nfds` covers the sets**: in every select that a run of either overload makes, exactly for the descriptors
of `Covered`. -/
theorem covered_iff (e : Entry) {as : List (Ans α)} {s : Run α} (h : (system α).exec ⟨e.start, []⟩ as = some s)
    {nfds : ℤ} {rset wset eset : List ℤ} {usec : ℕ} (hc : s.st.call = some (.select nfds rset wset eset usec)) :
    AllBelow nfds (rset ++ wset ++ eset) ↔ Covered e.args := by
  have hargs := System.exec_inv (fun t : Run α => t.st.args = e.args) (fun _ _ _ => args_step) h (args_start e)
  obtain ⟨rfl, rfl, hsub⟩ := select_call hc
  rw [← hargs, ← allBelow_iff]
  constructor
  · intro hall fd hfd
    exact hall fd (List.mem_append_right _ hfd)
  · intro hall fd hfd
    rcases List.mem_append.1 hfd with hfd | hfd
    · exact hall fd (hsub fd hfd)
    · exact hall fd hfd

/-- a UDT id for `sd`, and `fd_in` no higher than `fd_out` -/
theorem covered_iff_standard :
    ∃ s, (system UInt8).exec ⟨(Entry.three 0 1 (UDT_FD_BASE + 9) none).start, []⟩ toSelect = some s ∧
      s.st.call = some (.select 2 [0, UDT_FD_BASE + 9] [] [0, 1, UDT_FD_BASE + 9] 0) ∧
        AllBelow 2 ([0, UDT_FD_BASE + 9] ++ [] ++ [0, 1, UDT_FD_BASE + 9]) := by
  obtain ⟨s, hs, hcall⟩ : ∃ s,
      (system UInt8).exec ⟨(Entry.three 0 1 (UDT_FD_BASE + 9) none).start, []⟩ toSelect = some s ∧
        s.st.call = some (.select 2 [0, UDT_FD_BASE + 9] [] [0, 1, UDT_FD_BASE + 9] 0) :=
    System.exec_of_any (by decide)
  exact ⟨s, hs, hcall, (covered_iff (.three 0 1 (UDT_FD_BASE + 9) none) hs hcall).2 (by decide)⟩

/-- **A descriptor that is never polled.** With a UDT id first and TCP descriptor 5 second, the first select asks about
5 with an `nfds` of 1. -/
theorem second_not_covered :
    ∃ s, (system UInt8).exec ⟨(Entry.two (UDT_FD_BASE + 9) 5 none).start, []⟩ toSelect = some s ∧
      s.st.call = some (.select 1 [UDT_FD_BASE + 9, 5] [] [UDT_FD_BASE + 9, UDT_FD_BASE + 9, 5] 0) ∧
        ¬ AllBelow 1 ([UDT_FD_BASE + 9, 5] ++ [] ++ [UDT_FD_BASE + 9, UDT_FD_BASE + 9, 5]) := by
  obtain ⟨s, hs, hcall⟩ : ∃ s,
      (system UInt8).exec ⟨(Entry.two (UDT_FD_BASE + 9) 5 none).start, []⟩ toSelect = some s ∧
        s.st.call = some (.select 1 [UDT_FD_BASE + 9, 5] [] [UDT_FD_BASE + 9, UDT_FD_BASE + 9, 5] 0) :=
    System.exec_of_any (by decide)
  refine ⟨s, hs, hcall, ?_⟩
  intro h
  have hlt := h 5 (by simp) (by decide)
  exact absurd hlt (by decide)

end Worker

end UdtGate
