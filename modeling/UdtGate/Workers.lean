/-
The two data threads of a connection, `sock2peer_worker` and `peer2sock_worker`.

Each is a loop: look at the shared shutdown flag, receive a block of at most `rcvbuffer` bytes from one socket, and hand
it to the other with `SOCK_API::writen`, the machine of `Transfer`. The threads run side by side in any order; every
answer they get is arbitrary, the value of the shutdown flag included.

- `S2p.Inv`, `P2s.Inv`: the bytes of the blocks received so far are the accepted bytes followed by what `writen` still
  has to write, until the thread is on its way out.
- `relay_integrity`: in every interleaving the bytes accepted by either socket are a prefix of the bytes received from
  the other one, and a running thread holds at most one block.
-/
import UdtGate.Transfer
import UdtGate.Core.Carry

namespace UdtGate

open UdtGate.Core

/-- the size of a block -/
def BLOCK_SIZE : ℕ := 1024 * 1024

def rcvbuffer : ℕ := BLOCK_SIZE

/-- `cargs_t`, without the flag, which both threads share -/
structure Cargs where
  tcpsock : ℤ
  udtsock : ℤ
deriving DecidableEq

/-! ## sock2peer_worker -/

inductive S2p.Pc where
  /-- at the condition of the loop -/
  | guard
  | polling
  | receiving
  | writing (w : Writen)
  /-- after the loop, before the flag is set -/
  | stopping
  | stopped
deriving DecidableEq

structure S2p where
  cargs : Cargs
  pc : S2p.Pc
deriving DecidableEq

namespace S2p

def call (s : S2p) : Option Call :=
  match s.pc with
  | .guard => some .loadShutdown
  | .polling => some (.poll s.cargs.tcpsock 10)
  | .receiving => some (.recv s.cargs.tcpsock rcvbuffer false)
  | .writing w => Writen.machine.call w
  | .stopping => some (.storeShutdown 1)
  | .stopped => none

/-- after a step of `writen` -/
def written (s : S2p) (w : Writen) : S2p :=
  match w.ret with
  | none => { s with pc := .writing w }
  | some r => if r < 0 then { s with pc := .stopping } else { s with pc := .guard }

def resume (s : S2p) (a : Ans) : S2p :=
  match s.pc with
  | .guard => if a.rc ≠ 0 then { s with pc := .stopping } else { s with pc := .polling }
  | .polling =>
    if a.rc = EINTR then s
    else if a.rc = 0 then { s with pc := .guard }
    -- the next test compares the address of the function `poll` with zero
    else { s with pc := .receiving }
  | .receiving =>
    if a.rc = -1 then { s with pc := .stopping }
    else if a.rc = 0 then { s with pc := .stopping }
    else s.written (Writen.start (embedsockfd s.cargs.udtsock .udt) a.data)
  | .writing w => s.written (w.resume a)
  | .stopping => { s with pc := .stopped }
  | .stopped => s

def machine : Machine S2p Call Ans := ⟨call, resume⟩

/-- neither failed nor stopped -/
def Running (s : S2p) : Prop := s.pc ≠ .stopping ∧ s.pc ≠ .stopped

instance (s : S2p) : Decidable s.Running := inferInstanceAs (Decidable (_ ∧ _))

/-- `blocks` were received from the TCP socket and `acc` was accepted by the UDT socket -/
def Inv (s : S2p) (blocks : List (List UInt8)) (acc : List UInt8) : Prop :=
  match s.pc with
  | .guard | .polling | .receiving => Carry rcvbuffer blocks acc []
  | .writing w => Writen.Active (embedsockfd s.cargs.udtsock .udt) w ∧ Carry rcvbuffer blocks acc w.rest
  | .stopping | .stopped => acc <+: blocks.flatten

theorem inv_front {s : S2p} {blocks : List (List UInt8)} {acc : List UInt8} (h : s.Inv blocks acc) :
    acc <+: blocks.flatten := by
  unfold Inv at h
  split at h
  · exact h.front
  · exact h.front
  · exact h.front
  · exact h.2.front
  · exact h
  · exact h

theorem inv_running {s : S2p} {blocks : List (List UInt8)} {acc : List UInt8} (h : s.Inv blocks acc)
    (hr : s.Running) : OneBlock rcvbuffer blocks acc := by
  unfold Inv at h
  split at h
  · exact h.oneBlock
  · exact h.oneBlock
  · exact h.oneBlock
  · exact h.2.oneBlock
  · rename_i hpc; exact absurd hpc hr.1
  · rename_i hpc; exact absurd hpc hr.2

/-- `writen` was called, or went on -/
theorem inv_written (s : S2p) {w : Writen} {blocks : List (List UInt8)} {acc : List UInt8}
    (h : Carry rcvbuffer blocks acc w.rest)
    (hw : Writen.Active (embedsockfd s.cargs.udtsock .udt) w ∨ ((∃ n : ℕ, w.ret = some (n : ℤ)) ∧ w.rest = []) ∨
      w.ret = some (-1)) : (s.written w).Inv blocks acc := by
  rcases hw with hw | ⟨⟨n, hn⟩, hnil⟩ | hn
  · simp only [written, hw.ret_eq]
    exact ⟨hw, h⟩
  · rw [hnil] at h
    simp only [written, hn, Int.not_ofNat_neg, if_false]
    exact h
  · simp only [written, hn]
    exact h.front

/-- **What one step of `sock2peer_worker` keeps.** -/
theorem step_inv {s : S2p} {blocks : List (List UInt8)} {acc : List UInt8} {c : Call} {a : Ans}
    (hudt : 0 ≤ s.cargs.udtsock) (h : s.Inv blocks acc) (hc : s.call = some c) (hok : permitted c a = true) :
    (s.resume a).Inv (blocks ++ tcpBlocks [(c, a)]) (acc ++ udtOut [(c, a)]) := by
  obtain ⟨cargs, pc⟩ := s
  cases pc with
  | guard =>
    simp only [call, Option.some.injEq] at hc
    subst hc
    simp only [resume, tcpBlocks, udtOut, List.flatMap_cons, List.flatMap_nil, List.append_nil]
    split_ifs
    · exact h.front
    · exact h
  | polling =>
    simp only [call, Option.some.injEq] at hc
    subst hc
    simp only [resume, tcpBlocks, udtOut, List.flatMap_cons, List.flatMap_nil, List.append_nil]
    split_ifs
    · exact h
    · exact h
    · exact h
  | receiving =>
    simp only [call, Option.some.injEq] at hc
    subst hc
    have hlen : a.data.length ≤ rcvbuffer := by
      simp only [permitted, Bool.or_eq_true, Bool.and_eq_true, decide_eq_true_eq] at hok
      rcases hok with ⟨hrc, hle⟩ | ⟨-, hnil⟩
      · omega
      · rw [hnil]; exact Nat.zero_le _
    have htake : Carry rcvbuffer (blocks ++ [a.data]) acc a.data := h.take_in hlen
    simp only [resume, tcpBlocks, udtOut, List.flatMap_cons, List.flatMap_nil, List.append_nil]
    split_ifs
    · exact htake.front
    · exact htake.front
    · have hlt : a.data.length < 2 ^ 31 := lt_of_le_of_lt hlen (by decide)
      rcases Writen.active_start (embedsockfd cargs.udtsock .udt) hlt with ⟨hw, hrest⟩ | ⟨hnil, hret⟩
      · exact inv_written _ (by rw [hrest]; exact htake) (Or.inl hw)
      · have hrest : (Writen.start (embedsockfd cargs.udtsock .udt) a.data).rest = [] := by rw [hnil]; rfl
        exact inv_written _ (by rw [hrest, ← hnil]; exact htake) (Or.inr (Or.inl ⟨⟨0, hret⟩, hrest⟩))
  | writing w =>
    obtain ⟨hw, hcarry⟩ := h
    simp only [call, hw.call_eq, Option.some.injEq] at hc
    subst hc
    have hcall : sockWrite (embedsockfd cargs.udtsock .udt) w.rest = .udtSend cargs.udtsock w.rest := by
      simp [sockWrite, embedsockfd, not_lt.2 hudt]
    obtain ⟨hsplit, hcases⟩ := hw.resume_cases a
    rw [hcall]
    simp only [resume, tcpBlocks, udtOut, List.flatMap_cons, List.flatMap_nil, List.append_nil]
    exact inv_written _ (Carry.hand_on (by rw [hsplit]; exact hcarry)) (hcases.imp_right (Or.imp_right And.left))
  | stopping =>
    simp only [call, Option.some.injEq] at hc
    subst hc
    simp only [resume, tcpBlocks, udtOut, List.flatMap_cons, List.flatMap_nil, List.append_nil]
    exact h
  | stopped => simp [call] at hc

/-- the thread takes nothing from the UDT socket and gives nothing to the TCP socket -/
theorem call_frame {s : S2p} {blocks : List (List UInt8)} {acc : List UInt8} {c : Call} (a : Ans)
    (hudt : 0 ≤ s.cargs.udtsock) (h : s.Inv blocks acc) (hc : s.call = some c) :
    udtBlocks [(c, a)] = [] ∧ tcpOut [(c, a)] = [] := by
  obtain ⟨cargs, pc⟩ := s
  cases pc with
  | writing w =>
    simp only [call, h.1.call_eq, Option.some.injEq] at hc
    subst hc
    simp [sockWrite, embedsockfd, not_lt.2 hudt, udtBlocks, tcpOut]
  | stopped => simp [call] at hc
  | _ =>
    simp only [call, Option.some.injEq] at hc
    subst hc
    exact ⟨rfl, rfl⟩

@[simp] theorem resume_cargs (s : S2p) (a : Ans) : (s.resume a).cargs = s.cargs := by
  unfold resume written
  repeat' split <;> try rfl

end S2p

/-! ## peer2sock_worker -/

inductive P2s.Pc where
  | start
  /-- at the condition of the loop -/
  | guard
  | receiving
  /-- `sz` is 0: at the condition of the inner loop -/
  | recheck
  | writing (w : Writen)
  /-- after a failed receive -/
  | clearing
  /-- after the loop, before the flag is set -/
  | stopping
  | stopped
deriving DecidableEq

structure P2s where
  cargs : Cargs
  pc : P2s.Pc
deriving DecidableEq

namespace P2s

def call (p : P2s) : Option Call :=
  match p.pc with
  | .start => some (.setRcvTimeo p.cargs.udtsock 100)
  | .guard => some .loadShutdown
  | .receiving => some (.udtRecv p.cargs.udtsock rcvbuffer)
  | .recheck => some .loadShutdown
  | .writing w => Writen.machine.call w
  | .clearing => some (.storeShutdown 0)
  | .stopping => some (.storeShutdown 1)
  | .stopped => none

/-- after a step of `writen` -/
def written (p : P2s) (w : Writen) : P2s :=
  match w.ret with
  | none => { p with pc := .writing w }
  | some r => if r = -1 then { p with pc := .stopping } else { p with pc := .guard }

/-- after the inner loop -/
def received (p : P2s) (sz : ℤ) (data : List UInt8) : P2s :=
  if sz = -1 then { p with pc := .clearing }
  else p.written (Writen.start (embedsockfd p.cargs.tcpsock .tcp) data)

def resume (p : P2s) (a : Ans) : P2s :=
  match p.pc with
  | .start => { p with pc := .guard }
  | .guard => if a.rc ≠ 0 then { p with pc := .stopping } else { p with pc := .receiving }
  | .receiving => if a.rc = 0 then { p with pc := .recheck } else p.received a.rc a.data
  | .recheck => if a.rc = 0 then { p with pc := .receiving } else p.received 0 []
  | .writing w => p.written (w.resume a)
  | .clearing => { p with pc := .stopping }
  | .stopping => { p with pc := .stopped }
  | .stopped => p

def machine : Machine P2s Call Ans := ⟨call, resume⟩

/-- neither failed nor stopped -/
def Running (p : P2s) : Prop := p.pc ≠ .clearing ∧ p.pc ≠ .stopping ∧ p.pc ≠ .stopped

instance (p : P2s) : Decidable p.Running := inferInstanceAs (Decidable (_ ∧ _))

/-- `blocks` were received from the UDT socket and `acc` was accepted by the TCP socket -/
def Inv (p : P2s) (blocks : List (List UInt8)) (acc : List UInt8) : Prop :=
  match p.pc with
  | .start | .guard | .receiving | .recheck => Carry rcvbuffer blocks acc []
  | .writing w => Writen.Active p.cargs.tcpsock w ∧ Carry rcvbuffer blocks acc w.rest
  | .clearing | .stopping | .stopped => acc <+: blocks.flatten

theorem inv_front {p : P2s} {blocks : List (List UInt8)} {acc : List UInt8} (h : p.Inv blocks acc) :
    acc <+: blocks.flatten := by
  unfold Inv at h
  split at h
  · exact h.front
  · exact h.front
  · exact h.front
  · exact h.front
  · exact h.2.front
  · exact h
  · exact h
  · exact h

theorem inv_running {p : P2s} {blocks : List (List UInt8)} {acc : List UInt8} (h : p.Inv blocks acc)
    (hr : p.Running) : OneBlock rcvbuffer blocks acc := by
  unfold Inv at h
  split at h
  · exact h.oneBlock
  · exact h.oneBlock
  · exact h.oneBlock
  · exact h.oneBlock
  · exact h.2.oneBlock
  · rename_i hpc; exact absurd hpc hr.1
  · rename_i hpc; exact absurd hpc hr.2.1
  · rename_i hpc; exact absurd hpc hr.2.2

/-- `writen` was called, or went on -/
theorem inv_written (p : P2s) {w : Writen} {blocks : List (List UInt8)} {acc : List UInt8}
    (h : Carry rcvbuffer blocks acc w.rest)
    (hw : Writen.Active p.cargs.tcpsock w ∨ ((∃ n : ℕ, w.ret = some (n : ℤ)) ∧ w.rest = []) ∨ w.ret = some (-1)) :
    (p.written w).Inv blocks acc := by
  rcases hw with hw | ⟨⟨n, hn⟩, hnil⟩ | hn
  · simp only [written, hw.ret_eq]
    exact ⟨hw, h⟩
  · rw [hnil] at h
    have hne : (n : ℤ) ≠ -1 := by omega
    simp only [written, hn, hne, if_false]
    exact h
  · simp only [written, hn]
    exact h.front

/-- a block was received: `writen` is called with it -/
theorem inv_start_write (p : P2s) {blocks : List (List UInt8)} {acc data : List UInt8}
    (h : Carry rcvbuffer blocks acc data) (hlen : data.length ≤ rcvbuffer) :
    (p.written (Writen.start (embedsockfd p.cargs.tcpsock .tcp) data)).Inv blocks acc := by
  have hlt : data.length < 2 ^ 31 := lt_of_le_of_lt hlen (by decide)
  have hsd : embedsockfd p.cargs.tcpsock .tcp = p.cargs.tcpsock := by simp [embedsockfd]
  rw [hsd]
  rcases Writen.active_start (p.cargs.tcpsock) hlt with ⟨hw, hrest⟩ | ⟨hnil, hret⟩
  · exact inv_written _ (by rw [hrest]; exact h) (Or.inl hw)
  · have hrest : (Writen.start p.cargs.tcpsock data).rest = [] := by rw [hnil]; rfl
    exact inv_written _ (by rw [hrest, ← hnil]; exact h) (Or.inr (Or.inl ⟨⟨0, hret⟩, hrest⟩))

/-- **What one step of `peer2sock_worker` keeps.** -/
theorem step_inv {p : P2s} {blocks : List (List UInt8)} {acc : List UInt8} {c : Call} {a : Ans}
    (htcp : p.cargs.tcpsock < UDT_FD_BASE) (h : p.Inv blocks acc) (hc : p.call = some c)
    (hok : permitted c a = true) :
    (p.resume a).Inv (blocks ++ udtBlocks [(c, a)]) (acc ++ tcpOut [(c, a)]) := by
  obtain ⟨cargs, pc⟩ := p
  cases pc with
  | start =>
    simp only [call, Option.some.injEq] at hc
    subst hc
    simp only [resume, udtBlocks, tcpOut, List.flatMap_cons, List.flatMap_nil, List.append_nil]
    exact h
  | guard =>
    simp only [call, Option.some.injEq] at hc
    subst hc
    simp only [resume, udtBlocks, tcpOut, List.flatMap_cons, List.flatMap_nil, List.append_nil]
    split_ifs
    · exact h.front
    · exact h
  | receiving =>
    simp only [call, Option.some.injEq] at hc
    subst hc
    have hlen : a.data.length ≤ rcvbuffer := by
      simp only [permitted, Bool.or_eq_true, Bool.and_eq_true, decide_eq_true_eq] at hok
      rcases hok with ⟨hrc, hle⟩ | ⟨-, hnil⟩
      · omega
      · rw [hnil]; exact Nat.zero_le _
    have htake : Carry rcvbuffer (blocks ++ [a.data]) acc a.data := h.take_in hlen
    simp only [resume, received, udtBlocks, tcpOut, List.flatMap_cons, List.flatMap_nil, List.append_nil]
    split_ifs with h0 h1
    · -- nothing came before the timeout
      have hnil : a.data = [] := by
        simp only [permitted, Bool.or_eq_true, Bool.and_eq_true, decide_eq_true_eq] at hok
        rcases hok with ⟨hrc, -⟩ | ⟨-, hnil⟩
        · exact List.length_eq_zero_iff.1 (by omega)
        · exact hnil
      have hcarry := htake
      rw [hnil] at hcarry ⊢
      exact hcarry
    · exact htake.front
    · exact inv_start_write _ htake hlen
  | recheck =>
    simp only [call, Option.some.injEq] at hc
    subst hc
    simp only [resume, received, udtBlocks, tcpOut, List.flatMap_cons, List.flatMap_nil, List.append_nil]
    split_ifs with h0 h1
    · exact h
    · exact absurd h1 (by decide)
    · exact inv_start_write _ h (Nat.zero_le _)
  | writing w =>
    obtain ⟨hw, hcarry⟩ := h
    simp only [call, hw.call_eq, Option.some.injEq] at hc
    subst hc
    have hcall : sockWrite cargs.tcpsock w.rest = .write cargs.tcpsock w.rest := if_pos htcp
    obtain ⟨hsplit, hcases⟩ := hw.resume_cases a
    rw [hcall]
    simp only [resume, udtBlocks, tcpOut, List.flatMap_cons, List.flatMap_nil, List.append_nil]
    exact inv_written _ (Carry.hand_on (by rw [hsplit]; exact hcarry)) (hcases.imp_right (Or.imp_right And.left))
  | clearing =>
    simp only [call, Option.some.injEq] at hc
    subst hc
    simp only [resume, udtBlocks, tcpOut, List.flatMap_cons, List.flatMap_nil, List.append_nil]
    exact h
  | stopping =>
    simp only [call, Option.some.injEq] at hc
    subst hc
    simp only [resume, udtBlocks, tcpOut, List.flatMap_cons, List.flatMap_nil, List.append_nil]
    exact h
  | stopped => simp [call] at hc

/-- the thread takes nothing from the TCP socket and gives nothing to the UDT socket -/
theorem call_frame {p : P2s} {blocks : List (List UInt8)} {acc : List UInt8} {c : Call} (a : Ans)
    (htcp : p.cargs.tcpsock < UDT_FD_BASE) (h : p.Inv blocks acc) (hc : p.call = some c) :
    tcpBlocks [(c, a)] = [] ∧ udtOut [(c, a)] = [] := by
  obtain ⟨cargs, pc⟩ := p
  cases pc with
  | writing w =>
    simp only [call, h.1.call_eq, Option.some.injEq] at hc
    subst hc
    simp only at htcp
    simp [sockWrite, htcp, tcpBlocks, udtOut]
  | stopped => simp [call] at hc
  | _ =>
    simp only [call, Option.some.injEq] at hc
    subst hc
    exact ⟨rfl, rfl⟩

@[simp] theorem resume_cargs (p : P2s) (a : Ans) : (p.resume a).cargs = p.cargs := by
  unfold resume received written
  repeat' split <;> try rfl

/-- after `writen` ended, or was not even entered, the thread is in its loop unless the write failed -/
theorem running_written (p : P2s) {w : Writen}
    (hw : (∃ sd, Writen.Active sd w) ∨ ((∃ n : ℕ, w.ret = some (n : ℤ)) ∧ w.rest = [])) : (p.written w).Running := by
  rcases hw with ⟨sd, hw⟩ | ⟨⟨n, hn⟩, -⟩
  · simp [written, hw.ret_eq, Running]
  · have hne : (n : ℤ) ≠ -1 := by omega
    simp [written, hn, hne, Running]

theorem running_start_write (p : P2s) {data : List UInt8} (hlen : data.length ≤ rcvbuffer) :
    (p.written (Writen.start (embedsockfd p.cargs.tcpsock .tcp) data)).Running := by
  have hlt : data.length < 2 ^ 31 := lt_of_le_of_lt hlen (by decide)
  rcases Writen.active_start (embedsockfd p.cargs.tcpsock .tcp) hlt with ⟨hw, -⟩ | ⟨rfl, hret⟩
  · exact running_written p (Or.inl ⟨_, hw⟩)
  · exact running_written p (Or.inr ⟨⟨0, hret⟩, rfl⟩)

/-- **How the thread leaves its loop**: it finds the flag set or the receive fails, with every byte received handed on,
or the write fails. -/
theorem leave_cases {p : P2s} {blocks : List (List UInt8)} {acc : List UInt8} {c : Call} {a : Ans}
    (htcp : p.cargs.tcpsock < UDT_FD_BASE) (h : p.Inv blocks acc) (hc : p.call = some c)
    (hok : permitted c a = true) (hr : p.Running) (hl : ¬ (p.resume a).Running) :
    (acc = blocks.flatten ∧ ((c = .loadShutdown ∧ a.rc ≠ 0) ∨ (c = .udtRecv p.cargs.udtsock rcvbuffer ∧ a.rc = -1))) ∨
      (∃ buf, c = .write p.cargs.tcpsock buf ∧ a.rc ≤ 0 ∧ a.errno ≠ EINTR) := by
  obtain ⟨cargs, pc⟩ := p
  cases pc with
  | start => exact absurd (by simp [resume, Running]) hl
  | guard =>
    simp only [call, Option.some.injEq] at hc
    subst hc
    have hall := h.split
    rw [List.append_nil] at hall
    refine Or.inl ⟨hall, Or.inl ⟨rfl, ?_⟩⟩
    intro h0
    exact hl (by simp [resume, h0, Running])
  | receiving =>
    simp only [call, Option.some.injEq] at hc
    subst hc
    have hall := h.split
    rw [List.append_nil] at hall
    refine Or.inl ⟨hall, Or.inr ⟨rfl, ?_⟩⟩
    by_contra hne
    apply hl
    simp only [permitted, Bool.or_eq_true, Bool.and_eq_true, decide_eq_true_eq, hne, false_and, or_false] at hok
    simp only [resume, received, hne, if_false]
    split_ifs
    · simp [Running]
    · exact running_start_write _ (by omega)
  | recheck =>
    refine absurd ?_ hl
    simp only [resume, received]
    split_ifs with h0 h1
    · simp [Running]
    · exact absurd h1 (by decide)
    · exact running_start_write _ (Nat.zero_le _)
  | writing w =>
    obtain ⟨hw, -⟩ := h
    simp only [call, hw.call_eq, Option.some.injEq] at hc
    refine Or.inr ⟨w.rest, hc.symm.trans (if_pos htcp), ?_⟩
    rcases (hw.resume_cases a).2 with hgo | hend | ⟨-, hwhy⟩
    · exact absurd (running_written _ (Or.inl ⟨_, hgo⟩)) hl
    · exact absurd (running_written _ (Or.inr hend)) hl
    · exact hwhy
  | clearing => exact absurd rfl hr.1
  | stopping => exact absurd rfl hr.2.1
  | stopped => exact absurd rfl hr.2.2

end P2s

/-! ## Both threads -/

/-- the two threads and the log of their calls -/
abbrev Workers := Machine.Shared S2p P2s Call Ans

namespace Workers

/-- as `start_child` creates the threads -/
def start (c : Cargs) : Workers := ⟨⟨c, .guard⟩, ⟨c, .start⟩, []⟩

def step (s : Workers) (l : Ans ⊕ Ans) : Option Workers :=
  Machine.Shared.step S2p.machine P2s.machine permitted s l

/-- all runs of the threads of the connection `c` -/
def system (c : Cargs) : System Workers (Ans ⊕ Ans) := ⟨fun s => s = start c, step⟩

/-- both threads serve the connection `c` and keep their invariants on the common log -/
structure Inv (c : Cargs) (s : Workers) : Prop where
  fst_cargs : s.fst.cargs = c
  snd_cargs : s.snd.cargs = c
  fst_inv : s.fst.Inv (tcpBlocks s.log) (udtOut s.log)
  snd_inv : s.snd.Inv (udtBlocks s.log) (tcpOut s.log)

theorem inv_start (c : Cargs) : Inv c (start c) := ⟨rfl, rfl, Carry.nil, Carry.nil⟩

theorem step_inv {c : Cargs} (htcp : c.tcpsock < UDT_FD_BASE) (hudt : 0 ≤ c.udtsock) (s : Workers) (l : Ans ⊕ Ans)
    (t : Workers) (h : Inv c s) (hs : step s l = some t) : Inv c t := by
  obtain ⟨h1, h2, hfst, hsnd⟩ := h
  rcases Machine.Shared.step_cases hs with ⟨k, a, -, hk, hok, rfl⟩ | ⟨k, a, -, hk, hok, rfl⟩
  · have hu : 0 ≤ s.fst.cargs.udtsock := by rw [h1]; exact hudt
    obtain ⟨hf1, hf2⟩ := S2p.call_frame a hu hfst hk
    refine ⟨(S2p.resume_cargs _ _).trans h1, h2, ?_, ?_⟩
    · rw [tcpBlocks_append, udtOut_append]
      exact S2p.step_inv hu hfst hk hok
    · rw [udtBlocks_append, tcpOut_append, hf1, hf2, List.append_nil, List.append_nil]
      exact hsnd
  · have ht : s.snd.cargs.tcpsock < UDT_FD_BASE := by rw [h2]; exact htcp
    obtain ⟨hf1, hf2⟩ := P2s.call_frame a ht hsnd hk
    refine ⟨h1, (P2s.resume_cargs _ _).trans h2, ?_, ?_⟩
    · rw [tcpBlocks_append, udtOut_append, hf1, hf2, List.append_nil, List.append_nil]
      exact hfst
    · rw [udtBlocks_append, tcpOut_append]
      exact P2s.step_inv ht hsnd hk hok

theorem run_inv {c : Cargs} (htcp : c.tcpsock < UDT_FD_BASE) (hudt : 0 ≤ c.udtsock) {ls : List (Ans ⊕ Ans)}
    {s : Workers} (h : (system c).exec (start c) ls = some s) : Inv c s :=
  System.exec_inv (Inv c) (step_inv htcp hudt) h (inv_start c)

/-- **Relay integrity.** At each point of every interleaving of the two threads, whatever their receives, partial and
failing writes and loads of the flag return: the bytes accepted by the UDT socket are a prefix of the bytes received
from the TCP socket, the bytes accepted by the TCP socket are a prefix of the bytes received from the UDT socket, and
of the blocks received by a thread that has not failed or stopped all but at most the last were accepted. -/
theorem relay_integrity {c : Cargs} (htcp : c.tcpsock < UDT_FD_BASE) (hudt : 0 ≤ c.udtsock) {ls : List (Ans ⊕ Ans)}
    {s : Workers} (h : (system c).exec (start c) ls = some s) :
    udtOut s.log <+: tcpIn s.log ∧ tcpOut s.log <+: udtIn s.log ∧
      (s.fst.Running → OneBlock rcvbuffer (tcpBlocks s.log) (udtOut s.log)) ∧
      (s.snd.Running → OneBlock rcvbuffer (udtBlocks s.log) (tcpOut s.log)) := by
  obtain ⟨-, -, hfst, hsnd⟩ := run_inv htcp hudt h
  refine ⟨?_, ?_, ?_, ?_⟩
  · rw [← flatten_tcpBlocks]; exact S2p.inv_front hfst
  · rw [← flatten_udtBlocks]; exact P2s.inv_front hsnd
  · exact S2p.inv_running hfst
  · exact P2s.inv_running hsnd

/-- a connection on descriptors 5 and 9 in which `send` takes a block in two parts and the write the other way fails -/
def twoParts : List (Ans ⊕ Ans) :=
  [.inl { rc := 0 }, .inl { rc := 1 }, .inr { rc := 0 }, .inl { rc := 3, data := [1, 2, 3] }, .inr { rc := 0 },
    .inr { rc := 2, data := [8, 9] }, .inl { rc := 2 }, .inr { rc := -1, errno := 32 }, .inl { rc := 1 },
    .inl { rc := 7 }]

theorem relay_integrity_two_parts :
    ∃ s, (system ⟨5, 9⟩).exec (start ⟨5, 9⟩) twoParts = some s ∧ udtOut s.log = [1, 2, 3] ∧
      udtOut s.log <+: tcpIn s.log ∧ tcpOut s.log <+: udtIn s.log := by
  obtain ⟨s, hs⟩ : ∃ s, (system ⟨5, 9⟩).exec (start ⟨5, 9⟩) twoParts = some s := by
    rw [← Option.isSome_iff_exists]; decide
  have hout : ((system ⟨5, 9⟩).exec (start ⟨5, 9⟩) twoParts).map (fun s => udtOut s.log) = some [1, 2, 3] := by decide
  rw [hs] at hout
  obtain ⟨h1, h2, -⟩ := relay_integrity (by decide : (⟨5, 9⟩ : Cargs).tcpsock < UDT_FD_BASE) (by decide) hs
  exact ⟨s, hs, Option.some.inj hout, h1, h2⟩

end Workers

end UdtGate
