/-
When `sock2peer_worker` receives.

The loop polls the TCP socket for at most 10 ms, so that it comes back to the shutdown flag while the line is idle. The
retry loop compares the result of `poll` with EINTR, which is an error number and not a result, and the test for a
failure compares the address of the function `poll` with zero. A failed poll therefore goes on to `recv`.

- `Polite`: a receive comes right after a poll that found data, and a failed poll is followed by another one, or by the
  end of the loop.
- `polite_iff`: a run is polite throughout exactly when no poll failed.
-/
import UdtGate.Workers

namespace UdtGate

open UdtGate.Core

namespace S2p

/-- the thread with the calls it has made -/
abbrev Run := Machine.Logged S2p Call Ans

/-- as the thread is started -/
def start (c : Cargs) : S2p := ⟨c, .guard⟩

def system : System Run Ans := machine.logged.system (fun t => ∃ c, t = ⟨start c, []⟩) permitted

/-- `s` waits on a receive only right after a poll with a positive count, and right after a poll that returned -1 it
waits on another poll, or has left the loop -/
structure Polite (s : Run) : Prop where
  asked : ∀ sd n waitall, s.st.call = some (.recv sd n waitall) →
    ∃ pre fd ms a, s.log = pre ++ [(.poll fd ms, a)] ∧ 0 < a.rc
  heeded : ∀ pre fd ms a, s.log = pre ++ [(.poll fd ms, a)] → a.rc = -1 →
    (∃ fd ms, s.st.call = some (.poll fd ms)) ∨ s.st.call = some (.storeShutdown 1)

/-- a poll does not fail -/
def PollOk (s : Run) (a : Ans) : Prop := s.st.pc = .polling → 0 ≤ a.rc

instance (s : Run) (a : Ans) : Decidable (PollOk s a) := inferInstanceAs (Decidable (_ → _))

/-- the loop of `writen` makes writes -/
theorem writes_of_call {w : Writen} {c : Call} (hc : Writen.machine.call w = some c) :
    (∃ sd buf, c = .write sd buf) ∨ ∃ sd buf, c = .udtSend sd buf := by
  simp only [Writen.machine] at hc
  split_ifs at hc
  obtain rfl := Option.some.inj hc
  unfold sockWrite
  split_ifs
  · exact Or.inl ⟨_, _, rfl⟩
  · exact Or.inr ⟨_, _, rfl⟩

theorem polling_of_call {s : S2p} {fd ms : ℤ} (hc : s.call = some (.poll fd ms)) : s.pc = .polling := by
  obtain ⟨cargs, pc⟩ := s
  cases pc with
  | polling => rfl
  | writing w =>
    rcases writes_of_call hc with ⟨sd, buf, h⟩ | ⟨sd, buf, h⟩
    · cases h
    · cases h
  | _ => cases hc

theorem receiving_of_call {s : S2p} {sd n : ℤ} {waitall : Bool} (hc : s.call = some (.recv sd n waitall)) :
    s.pc = .receiving := by
  obtain ⟨cargs, pc⟩ := s
  cases pc with
  | receiving => rfl
  | writing w =>
    rcases writes_of_call hc with ⟨sd, buf, h⟩ | ⟨sd, buf, h⟩
    · cases h
    · cases h
  | _ => cases hc

theorem written_ne_receiving (s : S2p) (w : Writen) : (s.written w).pc ≠ .receiving := by
  unfold written
  split
  · exact Pc.noConfusion
  · split_ifs
    · exact Pc.noConfusion
    · exact Pc.noConfusion

/-- a receive comes after a poll -/
theorem polling_of_receiving {s : S2p} {c : Call} {a : Ans} (hc : s.call = some c)
    (h : (s.resume a).pc = .receiving) : s.pc = .polling := by
  obtain ⟨cargs, pc⟩ := s
  cases pc with
  | polling => rfl
  | guard =>
    simp only [resume] at h
    split_ifs at h
  | receiving =>
    simp only [resume] at h
    split_ifs at h
    exact absurd h (written_ne_receiving _ _)
  | writing w => exact absurd h (written_ne_receiving _ _)
  | stopping => cases h
  | stopped => cases hc

/-- what a poll leads to -/
theorem resume_polling {s : S2p} (a : Ans) (hpc : s.pc = .polling) :
    (a.rc = EINTR ∧ s.resume a = s) ∨ (a.rc = 0 ∧ s.resume a = { s with pc := .guard }) ∨
      (a.rc ≠ 0 ∧ s.resume a = { s with pc := .receiving }) := by
  simp only [resume, hpc]
  split_ifs with h1 h2
  · exact Or.inl ⟨h1, rfl⟩
  · exact Or.inr (Or.inl ⟨h2, rfl⟩)
  · exact Or.inr (Or.inr ⟨h2, rfl⟩)

/-- the last entry of a log -/
theorem poll_of_snoc {log pre : Log} {c : Call} {a b : Ans} {fd ms : ℤ}
    (h : log ++ [(c, a)] = pre ++ [(.poll fd ms, b)]) : c = .poll fd ms ∧ a = b := by
  obtain ⟨-, hlast⟩ := List.append_inj' h rfl
  exact Prod.mk.inj (List.cons.inj hlast).1

/-- a step that is not a poll leads to a polite state -/
theorem polite_of_not_polling {s : Run} {c : Call} {a : Ans} (hc : s.st.call = some c) (hpc : s.st.pc ≠ .polling) :
    Polite ⟨s.st.resume a, s.log ++ [(c, a)]⟩ where
  asked sd n waitall hrecv := absurd (polling_of_receiving hc (receiving_of_call hrecv)) hpc
  heeded pre fd ms b hlog _ := by
    obtain ⟨rfl, rfl⟩ := poll_of_snoc hlog
    exact absurd (polling_of_call hc) hpc

/-- **One step**: the next state is polite exactly when this was not a poll that failed. -/
theorem polite_resume {s : Run} {c : Call} {a : Ans} (hc : s.st.call = some c) :
    Polite ⟨s.st.resume a, s.log ++ [(c, a)]⟩ ↔ PollOk s a := by
  by_cases hpc : s.st.pc = .polling
  · have hpoll : c = .poll s.st.cargs.tcpsock 10 := by
      rw [call, hpc] at hc
      exact (Option.some.inj hc).symm
    rw [PollOk, imp_iff_right hpc]
    constructor
    · intro h
      rcases resume_polling a hpc with ⟨hrc, -⟩ | ⟨hrc, -⟩ | ⟨-, hres⟩
      · exact hrc ▸ by decide
      · exact hrc.ge
      · obtain ⟨pre, fd, ms, b, hlog, hpos⟩ := h.asked s.st.cargs.tcpsock rcvbuffer false (by rw [hres]; rfl)
        obtain ⟨-, rfl⟩ := poll_of_snoc hlog
        exact hpos.le
    · intro hok
      constructor
      · intro sd n waitall hrecv
        have hrecv' := receiving_of_call hrecv
        refine ⟨s.log, _, _, a, by rw [hpoll], ?_⟩
        rcases resume_polling a hpc with ⟨hrc, hres⟩ | ⟨hrc, hres⟩ | ⟨hne, hres⟩
        · exact hrc ▸ by decide
        · rw [hres] at hrecv'
          cases hrecv'
        · exact lt_of_le_of_ne hok (Ne.symm hne)
      · intro pre fd ms b hlog hneg
        obtain ⟨-, rfl⟩ := poll_of_snoc hlog
        omega
  · exact ⟨fun _ h => absurd h hpc, fun _ => polite_of_not_polling hc hpc⟩

/-- **When the thread is polite**: in every state of a run, exactly when no poll of the run failed. -/
theorem polite_iff (c : Cargs) {as : List Ans} {s : Run} (h : system.exec ⟨start c, []⟩ as = some s) :
    (∀ pre post u, as = pre ++ post → system.exec ⟨start c, []⟩ pre = some u → Polite u) ↔
      system.Meets PollOk ⟨start c, []⟩ as := by
  apply System.prefixes_iff_meets Polite PollOk _ h
  · constructor
    · intro sd n waitall hc
      cases hc
    · intro pre fd ms a hlog
      exact absurd hlog.symm (List.append_ne_nil_of_right_ne_nil _ (List.cons_ne_nil _ _))
  · intro u a t _ hstep
    obtain ⟨c, hc, -, rfl⟩ := Machine.logged_cases hstep
    exact polite_resume hc

/-- one byte passed on, and the next one about to be received -/
theorem polite_iff_second :
    ∃ s, system.exec ⟨start ⟨3, 9⟩, []⟩
        [{ rc := 0 }, { rc := 1 }, { rc := 1, data := [7] }, { rc := 1 }, { rc := 0 }, { rc := 1 }] = some s ∧
      s.st.call = some (.recv 3 rcvbuffer false) ∧ Polite s := by
  obtain ⟨s, hs, hcall⟩ : ∃ s, system.exec ⟨start ⟨3, 9⟩, []⟩
        [{ rc := 0 }, { rc := 1 }, { rc := 1, data := [7] }, { rc := 1 }, { rc := 0 }, { rc := 1 }] = some s ∧
      s.st.call = some (.recv 3 rcvbuffer false) := System.exec_of_any (by decide)
  have hall := (polite_iff ⟨3, 9⟩ hs).2 (by decide)
  exact ⟨s, hs, hcall, hall _ [] s (List.append_nil _).symm hs⟩

/-- **A receive with nothing to receive.** The poll is interrupted by a signal, and the thread goes on to a receive that
blocks; the shutdown flag is not looked at. -/
theorem receives_after_interrupt :
    ∃ s, system.exec ⟨start ⟨3, 9⟩, []⟩ [{ rc := 0 }, { rc := -1, errno := EINTR }] = some s ∧
      s.log = [(.loadShutdown, { rc := 0 }), (.poll 3 10, { rc := -1, errno := EINTR })] ∧
      s.st.call = some (.recv 3 rcvbuffer false) ∧ ¬ Polite s := by
  obtain ⟨s, hs, hlog, hcall⟩ : ∃ s, system.exec ⟨start ⟨3, 9⟩, []⟩ [{ rc := 0 }, { rc := -1, errno := EINTR }] =
      some s ∧ s.log = [(.loadShutdown, { rc := 0 }), (.poll 3 10, { rc := -1, errno := EINTR })] ∧
        s.st.call = some (.recv 3 rcvbuffer false) := System.exec_of_any (by decide)
  refine ⟨s, hs, hlog, hcall, ?_⟩
  intro h
  rcases h.heeded [(.loadShutdown, { rc := 0 })] 3 10 _ hlog rfl with ⟨fd, ms, hpoll⟩ | hstop
  · cases hcall.symm.trans hpoll
  · cases hcall.symm.trans hstop

end S2p

end UdtGate
