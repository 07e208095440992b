/-
The end of a connection: one flag, `cargs.shutdown`, that either data thread sets when it leaves its loop and that both
read at the condition of their loops.

Here the threads of `Workers` share a real flag, the UDT peer has bytes `sent` to send before it closes, and no call
fails except the receive that reports the end of the connection, which comes after all of `sent`. When bytes arrive is
open: any receive from the UDT socket may time out.

- `half_close_loses`: the application half-closes, `sock2peer_worker` sets the flag, `peer2sock_worker` finds it set and
  leaves with a byte of the peer still to come. `utl::worker`, the single-thread version of the two loops, keeps the end
  of each direction apart and goes on until both have ended.
- `delivered_iff`: this is the only way to lose bytes. When both threads have stopped, all of `sent` was accepted by
  the TCP socket if and only if `peer2sock_worker` never found the flag set while bytes were still to come.
-/
import UdtGate.Workers

namespace UdtGate

open UdtGate.Core

/-! ## Model -/

/-- the threads and the flag they share -/
structure HalfClose where
  work : Workers
  shutdown : ℤ
deriving DecidableEq

namespace HalfClose

/-- the answers when nothing fails but the receive that reports the end of the connection; the loads see the flag -/
def quiet (sent : List UInt8) (s : HalfClose) (c : Call) (a : Ans) : Bool :=
  match c with
  | .loadShutdown => a.rc = s.shutdown
  | .poll .. | .recv .. => 0 ≤ a.rc
  | .udtRecv .. => if a.rc = -1 then udtIn s.work.log = sent else (udtIn s.work.log ++ a.data).isPrefixOf sent
  | .udtSend .. | .write .. => 0 < a.rc || (a.rc = -1 && a.errno = EINTR)
  | _ => true

/-- the flag after a call -/
def shutdownAfter (v : ℤ) : Call → ℤ
  | .storeShutdown v' => v'
  | _ => v

/-- the call that the label answers -/
def callOf (s : HalfClose) : Ans ⊕ Ans → Option Call
  | .inl _ => S2p.call s.work.fst
  | .inr _ => P2s.call s.work.snd

def step (sent : List UInt8) (s : HalfClose) (l : Ans ⊕ Ans) : Option HalfClose :=
  match Machine.Shared.step S2p.machine P2s.machine (fun c a => permitted c a && quiet sent s c a) s.work l with
  | none => none
  | some w => some ⟨w, (callOf s l).elim s.shutdown (shutdownAfter s.shutdown)⟩

/-- `start_child` clears the flag and creates the threads -/
def start (c : Cargs) : HalfClose := ⟨Workers.start c, 0⟩

/-- all runs of the connection `c` whose peer sends `sent` and then closes -/
def system (c : Cargs) (sent : List UInt8) : System HalfClose (Ans ⊕ Ans) := ⟨fun s => s = start c, step sent⟩

/-- both threads were joined: `start_child` goes on to close the sockets -/
def Joined (s : HalfClose) : Prop := s.work.fst.pc = .stopped ∧ s.work.snd.pc = .stopped

instance (s : HalfClose) : Decidable s.Joined := inferInstanceAs (Decidable (_ ∧ _))

/-- the step is not one in which `peer2sock_worker` finds the flag set while bytes of the peer are still to come -/
def InTime (sent : List UInt8) (s : HalfClose) : Ans ⊕ Ans → Prop
  | .inl _ => True
  | .inr a => P2s.call s.work.snd = some .loadShutdown → a.rc ≠ 0 → udtIn s.work.log = sent

instance (sent : List UInt8) (s : HalfClose) (l : Ans ⊕ Ans) : Decidable (InTime sent s l) := by
  cases l <;> unfold InTime <;> infer_instance

/-- what a step can do -/
theorem step_cases {sent : List UInt8} {s t : HalfClose} {l : Ans ⊕ Ans} (h : step sent s l = some t) :
    (∃ c a, l = .inl a ∧ S2p.call s.work.fst = some c ∧ permitted c a = true ∧ quiet sent s c a = true ∧
      t = ⟨⟨s.work.fst.resume a, s.work.snd, s.work.log ++ [(c, a)]⟩, shutdownAfter s.shutdown c⟩) ∨
    (∃ c a, l = .inr a ∧ P2s.call s.work.snd = some c ∧ permitted c a = true ∧ quiet sent s c a = true ∧
      t = ⟨⟨s.work.fst, s.work.snd.resume a, s.work.log ++ [(c, a)]⟩, shutdownAfter s.shutdown c⟩) := by
  unfold step at h
  split at h
  · cases h
  · rename_i w hw
    simp only [Option.some.injEq] at h
    subst h
    rcases Machine.Shared.step_cases hw with ⟨c, a, rfl, hc, hok, rfl⟩ | ⟨c, a, rfl, hc, hok, rfl⟩
    · rw [Bool.and_eq_true] at hok
      refine Or.inl ⟨c, a, rfl, hc, hok.1, hok.2, ?_⟩
      have hcall : callOf s (.inl a) = some c := hc
      rw [hcall]; rfl
    · rw [Bool.and_eq_true] at hok
      refine Or.inr ⟨c, a, rfl, hc, hok.1, hok.2, ?_⟩
      have hcall : callOf s (.inr a) = some c := hc
      rw [hcall]; rfl

/-- the threads alone take the same step -/
theorem work_step {sent : List UInt8} {s t : HalfClose} {l : Ans ⊕ Ans} (h : step sent s l = some t) :
    Workers.step s.work l = some t.work := by
  rcases step_cases h with ⟨c, a, rfl, hc, hok, -, rfl⟩ | ⟨c, a, rfl, hc, hok, -, rfl⟩
  · have hcall : S2p.machine.call s.work.fst = some c := hc
    simp only [Workers.step, Machine.Shared.step, hcall, hok, if_true]
    rfl
  · have hcall : P2s.machine.call s.work.snd = some c := hc
    simp only [Workers.step, Machine.Shared.step, hcall, hok, if_true]
    rfl

/-! ## Everything is delivered when peer2sock_worker stays in time -/

/-- the bytes received are the peer's, and a thread past its loop has delivered all of them -/
structure Inv (c : Cargs) (sent : List UInt8) (s : HalfClose) : Prop where
  work : Workers.Inv c s.work
  front : udtIn s.work.log <+: sent
  left : ¬ s.work.snd.Running → udtIn s.work.log = sent ∧ tcpOut s.work.log = sent

theorem inv_start (c : Cargs) (sent : List UInt8) : Inv c sent (start c) := by
  refine ⟨Workers.inv_start c, List.nil_prefix, ?_⟩
  intro h
  exact absurd ⟨nofun, nofun, nofun⟩ h

/-- what `peer2sock_worker` received, after one more of its calls -/
theorem front_of_quiet {sent : List UInt8} {s : HalfClose} {c : Call} {a : Ans} (h : udtIn s.work.log <+: sent)
    (hok : permitted c a = true) (hq : quiet sent s c a = true) : udtIn (s.work.log ++ [(c, a)]) <+: sent := by
  rw [udtIn_append]
  cases c with
  | udtRecv sd n =>
    simp only [udtIn, List.flatMap_cons, List.flatMap_nil, List.append_nil]
    simp only [quiet] at hq
    split_ifs at hq with hrc
    · have hnil : a.data = [] := by
        simp only [permitted, Bool.or_eq_true, Bool.and_eq_true, decide_eq_true_eq] at hok
        rcases hok with ⟨hlen, -⟩ | ⟨-, hnil⟩
        · exact absurd (hlen.symm.trans hrc) (by omega)
        · exact hnil
      rw [hnil, List.append_nil]
      exact h
    · exact List.isPrefixOf_iff_prefix.1 hq
  | _ => simpa [udtIn] using h

theorem step_inv {c : Cargs} {sent : List UInt8} (htcp : c.tcpsock < UDT_FD_BASE) (hudt : 0 ≤ c.udtsock)
    (s : HalfClose) (l : Ans ⊕ Ans) (t : HalfClose) (h : Inv c sent s) (hG : InTime sent s l)
    (hs : step sent s l = some t) : Inv c sent t := by
  obtain ⟨hw, hfront, hleft⟩ := h
  have hw' := Workers.step_inv htcp hudt s.work l t.work hw (work_step hs)
  obtain ⟨h1, h2, hfst, hsnd⟩ := hw
  rcases step_cases hs with ⟨k, a, rfl, hk, hok, hq, rfl⟩ | ⟨k, a, rfl, hk, hok, hq, rfl⟩
  · -- sock2peer_worker moves nothing from the peer
    obtain ⟨hf1, hf2⟩ := S2p.call_frame a (by rw [h1]; exact hudt) hfst hk
    have hin : udtIn [(k, a)] = [] := by rw [← flatten_udtBlocks, hf1]; rfl
    refine ⟨hw', ?_, ?_⟩
    · simpa [hin] using hfront
    · intro hr
      simpa [hin, hf2] using hleft hr
  · refine ⟨hw', front_of_quiet hfront hok hq, ?_⟩
    intro hl
    have ht : s.work.snd.cargs.tcpsock < UDT_FD_BASE := by rw [h2]; exact htcp
    by_cases hr : s.work.snd.Running
    · have hflat : (udtBlocks s.work.log).flatten = udtIn s.work.log := flatten_udtBlocks s.work.log
      rcases P2s.leave_cases ht hsnd hk hok hr hl with ⟨hall, ⟨rfl, hrc⟩ | ⟨rfl, hrc⟩⟩ | ⟨buf, rfl, hrc, herr⟩
      · -- the flag was set, in time
        have hsent := hG hk hrc
        simp only [udtIn_append, tcpOut_append, hsent, hall, hflat]
        simp [udtIn, tcpOut]
      · -- the end of the connection
        have hsent : udtIn s.work.log = sent := by simpa [quiet, hrc] using hq
        have hnil : a.data = [] := by
          simp only [permitted, hrc, Bool.or_eq_true, Bool.and_eq_true, decide_eq_true_eq] at hok
          rcases hok with ⟨hlen, -⟩ | ⟨-, hnil⟩
          · exact absurd hlen (by omega)
          · exact hnil
        simp only [udtIn_append, tcpOut_append, hsent, hall, hflat]
        simp [udtIn, tcpOut, hnil]
      · -- no write fails
        simp only [quiet, Bool.or_eq_true, Bool.and_eq_true, decide_eq_true_eq] at hq
        rcases hq with hpos | ⟨-, hint⟩
        · exact absurd hrc (not_le.2 hpos)
        · exact absurd hint herr
    · -- on its way out the thread only sets the flag
      have hdone := hleft hr
      have hstore : ∃ v, k = .storeShutdown v := by
        unfold P2s.call at hk
        simp only [P2s.Running, ne_eq, not_and_or, not_not] at hr
        rcases hr with hpc | hpc | hpc <;> rw [hpc] at hk
        · exact ⟨0, (Option.some.inj hk).symm⟩
        · exact ⟨1, (Option.some.inj hk).symm⟩
        · cases hk
      obtain ⟨v, rfl⟩ := hstore
      simpa [udtIn, tcpOut] using hdone

/-! ## Nothing is delivered any more once it was late -/

/-- `peer2sock_worker` will find the flag set, or has found it set, with bytes still to come -/
structure Late (sent : List UInt8) (s : HalfClose) : Prop where
  short : udtIn s.work.log ≠ sent
  set : s.shutdown ≠ 0
  pc : s.work.snd.pc = .guard ∨ s.work.snd.pc = .stopping ∨ s.work.snd.pc = .stopped

/-- `sock2peer_worker` only ever sets the flag -/
theorem shutdownAfter_fst {s : S2p} {blocks : List (List UInt8)} {acc : List UInt8} {c : Call} {v : ℤ}
    (h : s.Inv blocks acc) (hc : s.call = some c) (hv : v ≠ 0) : shutdownAfter v c ≠ 0 := by
  obtain ⟨cargs, pc⟩ := s
  cases pc with
  | writing w =>
    simp only [S2p.call, h.1.call_eq, Option.some.injEq] at hc
    subst hc
    unfold sockWrite
    split_ifs <;> exact hv
  | stopping =>
    simp only [S2p.call, Option.some.injEq] at hc
    subst hc
    exact one_ne_zero
  | stopped => simp [S2p.call] at hc
  | _ =>
    simp only [S2p.call, Option.some.injEq] at hc
    subst hc
    exact hv

theorem late_step {c : Cargs} {sent : List UInt8} (hudt : 0 ≤ c.udtsock) {s t : HalfClose} {l : Ans ⊕ Ans}
    (hw : Workers.Inv c s.work) (h : Late sent s) (hs : step sent s l = some t) : Late sent t := by
  obtain ⟨hshort, hset, hpc⟩ := h
  obtain ⟨h1, h2, hfst, hsnd⟩ := hw
  rcases step_cases hs with ⟨k, a, rfl, hk, hok, hq, rfl⟩ | ⟨k, a, rfl, hk, hok, hq, rfl⟩
  · obtain ⟨hf1, -⟩ := S2p.call_frame a (by rw [h1]; exact hudt) hfst hk
    have hin : udtIn [(k, a)] = [] := by rw [← flatten_udtBlocks, hf1]; rfl
    refine ⟨?_, shutdownAfter_fst hfst hk hset, hpc⟩
    simpa [hin] using hshort
  · rcases hpc with hpc | hpc | hpc
    · -- at the condition of the loop: the flag is read, and it is set
      simp only [P2s.call, hpc, Option.some.injEq] at hk
      subst hk
      have hrc : a.rc ≠ 0 := by
        have hsee : a.rc = s.shutdown := by simpa [quiet] using hq
        rw [hsee]; exact hset
      refine ⟨?_, hset, Or.inr (Or.inl ?_)⟩
      · simpa [udtIn] using hshort
      · simp [P2s.resume, hpc, hrc]
    · simp only [P2s.call, hpc, Option.some.injEq] at hk
      subst hk
      refine ⟨?_, one_ne_zero, Or.inr (Or.inr ?_)⟩
      · simpa [udtIn] using hshort
      · simp [P2s.resume, hpc]
    · simp [P2s.call, hpc] at hk

/-- finding the flag set while bytes are still to come makes the connection late -/
theorem late_of_not_inTime {c : Cargs} {sent : List UInt8} {s t : HalfClose} {l : Ans ⊕ Ans}
    (hw : Workers.Inv c s.work) (hG : ¬ InTime sent s l) (hs : step sent s l = some t) : Late sent t := by
  rcases step_cases hs with ⟨k, a, rfl, -⟩ | ⟨k, a, rfl, hk, hok, hq, rfl⟩
  · exact absurd trivial hG
  · simp only [InTime, Classical.not_imp] at hG
    obtain ⟨hcall, hrc, hshort⟩ := hG
    rw [hcall, Option.some.injEq] at hk
    subst hk
    have hsee : a.rc = s.shutdown := by simpa [quiet] using hq
    refine ⟨by simpa [udtIn] using hshort, by rw [hsee] at hrc; exact hrc, ?_⟩
    -- only the two conditions read the flag
    have hinv := hw.snd_inv
    generalize s.work.snd = p at hcall hinv
    obtain ⟨cargs, pc⟩ := p
    cases pc with
    | guard => simp [P2s.resume, hrc]
    | recheck =>
      -- `writen` of no bytes returns 0
      have hret : ¬ toInt 0 = -1 := by decide
      simp [P2s.resume, hrc, P2s.received, P2s.written, Writen.start, Writen.next, hret]
    | writing w =>
      simp only [P2s.call, hinv.1.call_eq, Option.some.injEq] at hcall
      unfold sockWrite at hcall
      split_ifs at hcall
    | _ => simp [P2s.call] at hcall

/-! ## Main result -/

/-- **Delivered exactly when in time.** In every run of the two threads in which no call fails but the receive that
reports the end of the connection, and for every stream `sent` of the peer: once both threads have stopped, all of
`sent` was accepted by the TCP socket if and only if in no step did `peer2sock_worker` find the shutdown flag set while
bytes of `sent` were still to come. -/
theorem delivered_iff {c : Cargs} {sent : List UInt8} (htcp : c.tcpsock < UDT_FD_BASE) (hudt : 0 ≤ c.udtsock)
    {ls : List (Ans ⊕ Ans)} {s : HalfClose} (h : (system c sent).exec (start c) ls = some s) (hj : s.Joined) :
    tcpOut s.work.log = sent ↔ (system c sent).Meets (InTime sent) (start c) ls := by
  constructor
  · intro hall
    by_contra hG
    obtain ⟨pre, l, post, u, v, -, hu, hpre, hl, hv, hpost⟩ := System.exists_of_not_meets h hG
    have hiu := System.exec_inv_meets (Inv c sent) (InTime sent) (step_inv htcp hudt) hu hpre (inv_start c sent)
    have hstep : ∀ x m y, Workers.Inv c x.work ∧ Late sent x → (system c sent).step x m = some y →
        Workers.Inv c y.work ∧ Late sent y := by
      intro x m y hx hy
      exact ⟨Workers.step_inv htcp hudt _ _ _ hx.1 (work_step hy), late_step hudt hx.1 hx.2 hy⟩
    have hlate : Workers.Inv c v.work ∧ Late sent v :=
      ⟨Workers.step_inv htcp hudt _ _ _ hiu.work (work_step hv), late_of_not_inTime hiu.work hl hv⟩
    obtain ⟨hw, hls⟩ := System.exec_inv _ hstep hpost hlate
    -- what was accepted was received before, and not all was received
    have hpre' : tcpOut s.work.log <+: udtIn s.work.log := by
      rw [← flatten_udtBlocks]; exact P2s.inv_front hw.snd_inv
    have hfront : udtIn s.work.log <+: sent := by
      have hf : ∀ x m y, udtIn x.work.log <+: sent ∧ Workers.Inv c x.work → (system c sent).step x m = some y →
          udtIn y.work.log <+: sent ∧ Workers.Inv c y.work := by
        intro x m y hx hy
        refine ⟨?_, Workers.step_inv htcp hudt _ _ _ hx.2 (work_step hy)⟩
        rcases step_cases hy with ⟨k, a, rfl, hk, hok, hq, rfl⟩ | ⟨k, a, rfl, hk, hok, hq, rfl⟩
        · exact front_of_quiet hx.1 hok hq
        · exact front_of_quiet hx.1 hok hq
      exact (System.exec_inv _ hf h ⟨List.nil_prefix, Workers.inv_start c⟩).1
    rw [hall] at hpre'
    exact hls.short (hfront.eq_of_length (le_antisymm hfront.length_le hpre'.length_le))
  · intro hG
    have hinv := System.exec_inv_meets (Inv c sent) (InTime sent) (step_inv htcp hudt) h hG (inv_start c sent)
    exact (hinv.left fun hr => hr.2.2 hj.2).2

/-- the peer sends 7 and closes, then the application half-closes -/
def closedInTime : List (Ans ⊕ Ans) :=
  [.inr { rc := 0 }, .inl { rc := 0 }, .inr { rc := 0 }, .inr { rc := 1, data := [7] }, .inr { rc := 1 },
    .inr { rc := 0 }, .inr { rc := -1 }, .inl { rc := 1 }, .inl { rc := 0 }, .inr { rc := 0 }, .inr { rc := 0 },
    .inl { rc := 0 }]

theorem delivered_iff_in_time :
    ∃ s, (system ⟨5, 9⟩ [7]).exec (start ⟨5, 9⟩) closedInTime = some s ∧ s.Joined ∧ tcpOut s.work.log = [7] := by
  obtain ⟨s, hs, hj⟩ : ∃ s, (system ⟨5, 9⟩ [7]).exec (start ⟨5, 9⟩) closedInTime = some s ∧ s.Joined :=
    System.exec_of_any (by decide)
  exact ⟨s, hs, hj, (delivered_iff (by decide) (by decide) hs hj).2 (by decide)⟩

/-- the application half-closes while the peer has still a byte to send -/
def closedEarly : List (Ans ⊕ Ans) :=
  [.inr { rc := 0 }, .inl { rc := 0 }, .inl { rc := 1 }, .inl { rc := 0 }, .inl { rc := 0 }, .inr { rc := 1 },
    .inr { rc := 0 }]

/-- **A half-close loses bytes.** -/
theorem half_close_loses :
    ¬ ∀ (c : Cargs) (sent : List UInt8) (ls : List (Ans ⊕ Ans)) (s : HalfClose),
      c.tcpsock < UDT_FD_BASE → 0 ≤ c.udtsock → (system c sent).exec (start c) ls = some s → s.Joined →
        tcpOut s.work.log = sent := by
  intro h
  obtain ⟨s, hs, hj, hout⟩ : ∃ s, (system ⟨5, 9⟩ [7]).exec (start ⟨5, 9⟩) closedEarly = some s ∧ s.Joined ∧
      tcpOut s.work.log = [] := System.exec_of_any (by decide)
  have hall := h ⟨5, 9⟩ [7] closedEarly s (by decide) (by decide) hs hj
  rw [hout] at hall
  cases hall

end HalfClose

end UdtGate
