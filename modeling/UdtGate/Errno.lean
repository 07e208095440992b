/-
The retry test of `SOCK_API::writen` and `SOCK_API::readn` on a UDT descriptor.

Both loops take a failed call for an interrupted one when `errno` is EINTR. UDT reports its failures elsewhere and
leaves `errno` as it found it, so on a UDT descriptor the test reads what an earlier call of the thread left behind.

- `error_ends_iff`: after any partial transfers, the first ERROR makes the function return -1 if and only if `errno` was
  not EINTR when it was called.
- `error_repeats`: with EINTR left over it makes the same call again after every further ERROR.
-/
import UdtGate.Transfer

namespace UdtGate

open UdtGate.Core

/-- `errno` is `e` after each of the answers -/
def KeepsErrno (e : ℤ) (as : List Ans) : Prop := ∀ a ∈ as, a.errno = e

instance (e : ℤ) (as : List Ans) : Decidable (KeepsErrno e as) := inferInstanceAs (Decidable (∀ a ∈ as, a.errno = e))

/-- a UDT descriptor makes UDT calls -/
theorem sockWrite_udt {k : ℤ} (hk : 0 ≤ k) (buf : List UInt8) :
    sockWrite (embedsockfd k .udt) buf = .udtSend k buf := by
  have hbase : ¬ k + UDT_FD_BASE < UDT_FD_BASE := by omega
  simp [sockWrite, embedsockfd, hbase]

theorem sockRead_udt {k : ℤ} (hk : 0 ≤ k) (n : ℤ) : sockRead (embedsockfd k .udt) n = .udtRecv k n := by
  have hbase : ¬ k + UDT_FD_BASE < UDT_FD_BASE := by omega
  simp [sockRead, embedsockfd, hbase]

/-! ## One ERROR -/

theorem Writen.error_cases {w : Writen} {a : Ans} (ha : a.rc = -1) :
    (a.errno = EINTR ∧ w.resume a = w) ∨ (a.errno ≠ EINTR ∧ w.resume a = { w with ret := some (-1) }) := by
  have hneg : a.rc ≤ 0 := by omega
  unfold Writen.resume
  rw [if_pos hneg]
  split_ifs with he
  · exact Or.inl ⟨he, rfl⟩
  · exact Or.inr ⟨he, rfl⟩

theorem Readn.error_cases {r : Readn} {a : Ans} (ha : a.rc = -1) :
    (a.errno = EINTR ∧ r.resume a = r) ∨ (a.errno ≠ EINTR ∧ r.resume a = { r with ret := some (-1) }) := by
  have hneg : a.rc < 0 := by omega
  unfold Readn.resume
  rw [if_pos hneg]
  split_ifs with he
  · exact Or.inl ⟨he, rfl⟩
  · exact Or.inr ⟨he, rfl⟩

/-! ## Main result -/

/-- `writen` has returned -1 and makes no call any more -/
def Writen.Failed (w : Writen) : Prop := w.ret = some (-1) ∧ machine.call w = none

/-- `readn` has returned -1 and makes no call any more -/
def Readn.Failed (r : Readn) : Prop := r.ret = some (-1) ∧ machine.call r = none

instance (w : Writen) : Decidable w.Failed := inferInstanceAs (Decidable (_ ∧ _))

instance (r : Readn) : Decidable r.Failed := inferInstanceAs (Decidable (_ ∧ _))

/-- the calls of `writen` are those of its descriptor -/
theorem Writen.step_calls {sd : ℤ} {s t : Machine.Logged Writen Call Ans} {a : Ans}
    (h : s.st.sd = sd ∧ ∀ x ∈ s.log, ∃ buf, x.1 = sockWrite sd buf)
    (hs : machine.logged.step permitted s a = some t) : t.st.sd = sd ∧ ∀ x ∈ t.log, ∃ buf, x.1 = sockWrite sd buf := by
  obtain ⟨hsd, hlog⟩ := h
  obtain ⟨c, hc, -, rfl⟩ := Machine.logged_cases hs
  constructor
  · simp only [machine, resume, next]
    split_ifs <;> exact hsd
  · intro x hx
    rcases List.mem_append.1 hx with hx | hx
    · exact hlog x hx
    · simp only [machine] at hc
      split_ifs at hc
      rw [List.mem_singleton.1 hx, ← hsd]
      exact ⟨s.st.rest, (Option.some.inj hc).symm⟩

/-- the calls of `readn` are those of its descriptor -/
theorem Readn.step_calls {sd : ℤ} {s t : Machine.Logged Readn Call Ans} {a : Ans}
    (h : s.st.sd = sd ∧ ∀ x ∈ s.log, ∃ n, x.1 = sockRead sd n)
    (hs : machine.logged.step permitted s a = some t) : t.st.sd = sd ∧ ∀ x ∈ t.log, ∃ n, x.1 = sockRead sd n := by
  obtain ⟨hsd, hlog⟩ := h
  obtain ⟨c, hc, -, rfl⟩ := Machine.logged_cases hs
  constructor
  · simp only [machine, resume, next]
    split_ifs <;> exact hsd
  · intro x hx
    rcases List.mem_append.1 hx with hx | hx
    · exact hlog x hx
    · simp only [machine] at hc
      split_ifs at hc
      rw [List.mem_singleton.1 hx, ← hsd]
      exact ⟨s.st.nleft, (Option.some.inj hc).symm⟩

/-- **The first ERROR ends the loop** exactly when `errno` was not EINTR before. For every UDT id, buffer and sequence
of results of the UDT calls that is followed by an ERROR, none of which changes `errno`: all calls were made on that id,
and after the ERROR the function has returned -1 without another call if and only if the value of `errno` is not
EINTR. -/
theorem error_ends_iff {k e : ℤ} (hk : 0 ≤ k) {pre : List Ans} {a : Ans} (he : KeepsErrno e (pre ++ [a]))
    (ha : a.rc = -1) :
    (∀ buff w, (Writen.system (embedsockfd k .udt) buff).exec ⟨Writen.start (embedsockfd k .udt) buff, []⟩
        (pre ++ [a]) = some w →
      (∀ x ∈ w.log, ∃ buf, x.1 = .udtSend k buf) ∧ (w.st.Failed ↔ e ≠ EINTR)) ∧
    (∀ n mem r, (Readn.system (embedsockfd k .udt) n mem).exec ⟨Readn.start (embedsockfd k .udt) n mem, []⟩
        (pre ++ [a]) = some r →
      (∀ x ∈ r.log, ∃ m, x.1 = .udtRecv k m) ∧ (r.st.Failed ↔ e ≠ EINTR)) := by
  have hea : a.errno = e := he a (List.mem_append_right _ List.mem_cons_self)
  constructor
  · intro buff w hw
    constructor
    · have hstart : (Writen.start (embedsockfd k .udt) buff).sd = embedsockfd k .udt := by
        unfold Writen.start Writen.next; split_ifs <;> rfl
      obtain ⟨-, hlog⟩ := System.exec_inv
        (fun s => s.st.sd = embedsockfd k .udt ∧ ∀ x ∈ s.log, ∃ buf, x.1 = sockWrite (embedsockfd k .udt) buf)
        (fun s b t => Writen.step_calls) hw ⟨hstart, nofun⟩
      intro x hx
      obtain ⟨buf, hbuf⟩ := hlog x hx
      exact ⟨buf, by rw [hbuf, sockWrite_udt hk]⟩
    · obtain ⟨u, -, hstep⟩ := System.exec_snoc.1 hw
      obtain ⟨c, hc, -, rfl⟩ := Machine.logged_cases hstep
      rcases Writen.error_cases (w := u.st) ha with ⟨hint, hsame⟩ | ⟨hne, hret⟩
      · have hrun : Writen.machine.resume u.st a = u.st := hsame
        rw [← hea, hrun]
        refine ⟨fun hf => ?_, fun hne => absurd hint hne⟩
        rw [hf.2] at hc
        cases hc
      · have hrun : Writen.machine.resume u.st a = { u.st with ret := some (-1) } := hret
        rw [← hea, hrun]
        exact ⟨fun _ => hne, fun _ => ⟨rfl, rfl⟩⟩
  · intro n mem r hr
    constructor
    · have hstart : (Readn.start (embedsockfd k .udt) n mem).sd = embedsockfd k .udt := by
        unfold Readn.start Readn.next; split_ifs <;> rfl
      obtain ⟨-, hlog⟩ := System.exec_inv
        (fun s => s.st.sd = embedsockfd k .udt ∧ ∀ x ∈ s.log, ∃ m, x.1 = sockRead (embedsockfd k .udt) m)
        (fun s b t => Readn.step_calls) hr ⟨hstart, nofun⟩
      intro x hx
      obtain ⟨m, hm⟩ := hlog x hx
      exact ⟨m, by rw [hm, sockRead_udt hk]⟩
    · obtain ⟨u, -, hstep⟩ := System.exec_snoc.1 hr
      obtain ⟨c, hc, -, rfl⟩ := Machine.logged_cases hstep
      rcases Readn.error_cases (r := u.st) ha with ⟨hint, hsame⟩ | ⟨hne, hret⟩
      · have hrun : Readn.machine.resume u.st a = u.st := hsame
        rw [← hea, hrun]
        refine ⟨fun hf => ?_, fun hne => absurd hint hne⟩
        rw [hf.2] at hc
        cases hc
      · have hrun : Readn.machine.resume u.st a = { u.st with ret := some (-1) } := hret
        rw [← hea, hrun]
        exact ⟨fun _ => hne, fun _ => ⟨rfl, rfl⟩⟩

/-- a dead tunnel: two bytes went through, then ERROR, with EAGAIN in `errno` all the time -/
theorem error_ends_iff_eagain :
    ∃ w, (Writen.system (embedsockfd 9 .udt) [1, 2, 3]).exec ⟨Writen.start (embedsockfd 9 .udt) [1, 2, 3], []⟩
      ([{ rc := 2, errno := 11 }] ++ [{ rc := -1, errno := 11 }]) = some w ∧ w.st.Failed := by
  obtain ⟨w, hw, -⟩ : ∃ w, (Writen.system (embedsockfd 9 .udt) [1, 2, 3]).exec
      ⟨Writen.start (embedsockfd 9 .udt) [1, 2, 3], []⟩
      ([{ rc := 2, errno := 11 }] ++ [{ rc := -1, errno := 11 }]) = some w ∧ w.log.length = 2 :=
    System.exec_of_any (by decide)
  have he : KeepsErrno 11 ([{ rc := 2, errno := 11 }] ++ [{ rc := -1, errno := 11 }]) := by decide
  obtain ⟨hwriten, -⟩ := error_ends_iff (k := 9) (by decide) he rfl
  exact ⟨w, hw, (hwriten _ w hw).2.2 (by decide)⟩

/-! ## A dead tunnel with EINTR in `errno` -/

/-- an ERROR with EINTR left over -/
def staleError : Ans := { rc := -1, errno := EINTR }

/-- however many ERRORs there are, `writen` goes on with the same call -/
theorem error_repeats (k : ℤ) {buff : List UInt8} (hne : buff ≠ []) (m : ℕ) :
    ∃ w, (Writen.system (embedsockfd k .udt) buff).exec ⟨Writen.start (embedsockfd k .udt) buff, []⟩
      (List.replicate m staleError) = some w ∧ w.st = Writen.start (embedsockfd k .udt) buff := by
  have hstart : Writen.start (embedsockfd k .udt) buff = ⟨embedsockfd k .udt, buff.length, buff, none⟩ := by
    rcases Writen.start_cases (embedsockfd k .udt) buff with ⟨-, he⟩ | ⟨hnil, -⟩
    · exact he
    · exact absurd hnil hne
  induction m with
  | zero => exact ⟨_, rfl, rfl⟩
  | succ m ih =>
    obtain ⟨w, hw, hst⟩ := ih
    have hcall : Writen.machine.call w.st = some (sockWrite (embedsockfd k .udt) buff) := by
      rw [hst, hstart]; rfl
    have hok : permitted (sockWrite (embedsockfd k .udt) buff) staleError = true := by
      unfold sockWrite; split_ifs <;> simp [permitted, staleError]
    refine ⟨⟨w.st, w.log ++ [(sockWrite (embedsockfd k .udt) buff, staleError)]⟩, ?_, hst⟩
    rw [List.replicate_succ', System.exec_snoc]
    exact ⟨w, hw, Machine.logged_step hcall hok⟩

/-- **The loop does not end.** With EINTR left in `errno` a first ERROR is not the end. -/
theorem stale_errno_repeats :
    ¬ ∀ (k e : ℤ) (pre : List Ans) (a : Ans), 0 ≤ k → KeepsErrno e (pre ++ [a]) → a.rc = -1 → ∀ buff w,
      (Writen.system (embedsockfd k .udt) buff).exec ⟨Writen.start (embedsockfd k .udt) buff, []⟩ (pre ++ [a]) =
        some w → w.st.Failed := by
  intro h
  obtain ⟨w, hw, hst⟩ := error_repeats 9 (List.cons_ne_nil 7 []) 1
  have hfailed := h 9 EINTR [] staleError (by decide) (by decide) rfl [7] w hw
  rw [hst] at hfailed
  exact absurd hfailed (by decide)

end UdtGate
