/-
What is on its way through the tunnel, and that it can arrive.

A data thread holds the part of a block that `writen` has still to write. Besides that, bytes are on their way between two
sockets: sent at one end and not yet received at the other. `upstream` and `downstream` are all of these, in order.

- `conserved`: as long as the data threads of a direction run, what one end has sent is what the other was handed and
  then what is on its way; nothing is lost, doubled or swapped;
- `deliverable`: from every such state the tunnel can go on, without a further byte from either end, until nothing is
  on its way.
-/
import UdtGate.EndToEnd
import UdtGate.Core.Stream

namespace UdtGate

open UdtGate.Core

/-! ## What a data thread holds -/

/-- the answer of a write that takes everything -/
def Writen.whole (w : Writen) : Ans := { rc := w.rest.length }

/-- it ends the call of `writen` -/
theorem Writen.Active.ret_whole {sd : ℤ} {w : Writen} (h : Writen.Active sd w) :
    ∃ n : ℕ, (w.resume w.whole).ret = some (n : ℤ) := by
  obtain ⟨hsplit, hcases⟩ := h.resume_cases w.whole
  have hpos := List.length_pos_iff.2 h.rest_ne
  rw [show w.whole.rc = w.rest.length from rfl, Int.toNat_natCast, List.take_length] at hsplit
  rcases hcases with hgo | ⟨hn, -⟩ | ⟨-, hneg, -⟩
  · exact absurd (List.append_right_eq_self.1 hsplit) hgo.rest_ne
  · exact hn
  · exact absurd hneg (by simp only [Writen.whole]; omega)

namespace S2p

/-- bytes received and not yet written -/
def held (s : S2p) : List UInt8 :=
  match s.pc with
  | .writing w => w.rest
  | _ => []

theorem books {s : S2p} {blocks : List (List UInt8)} {acc : List UInt8} (h : s.Inv blocks acc) (hr : s.Running) :
    acc ++ s.held = blocks.flatten := by
  obtain ⟨c, pc⟩ := s
  cases pc with
  | guard | polling | receiving => exact Carry.split h
  | writing w => exact Carry.split h.2
  | stopping => exact absurd rfl hr.1
  | stopped => exact absurd rfl hr.2

theorem written_whole (s : S2p) {sd : ℤ} {w : Writen} (h : Writen.Active sd w) :
    s.written (w.resume w.whole) = { s with pc := .guard } := by
  obtain ⟨n, hn⟩ := h.ret_whole
  simp only [written, hn, Int.not_ofNat_neg, if_false]

end S2p

namespace P2s

/-- bytes received and not yet written -/
def held (p : P2s) : List UInt8 :=
  match p.pc with
  | .writing w => w.rest
  | _ => []

theorem books {p : P2s} {blocks : List (List UInt8)} {acc : List UInt8} (h : p.Inv blocks acc) (hr : p.Running) :
    acc ++ p.held = blocks.flatten := by
  obtain ⟨c, pc⟩ := p
  cases pc with
  | start | guard | receiving | recheck => exact Carry.split h
  | writing w => exact Carry.split h.2
  | clearing => exact absurd rfl hr.1
  | stopping => exact absurd rfl hr.2.1
  | stopped => exact absurd rfl hr.2.2

theorem written_whole (p : P2s) {sd : ℤ} {w : Writen} (h : Writen.Active sd w) :
    p.written (w.resume w.whole) = { p with pc := .guard } := by
  obtain ⟨n, hn⟩ := h.ret_whole
  have hne : (n : ℤ) ≠ -1 := by omega
  simp only [written, hn, hne, if_false]

end P2s

namespace Relay

theorem books_up {r : Relay} (h : r.Inv) (hr : r.work.fst.Running) :
    udtOut r.work.log ++ r.work.fst.held = tcpIn r.work.log := by
  obtain ⟨c, -, -, hw⟩ := h.work
  rw [← flatten_tcpBlocks]
  exact S2p.books hw.fst_inv hr

theorem books_down {r : Relay} (h : r.Inv) (hr : r.work.snd.Running) :
    tcpOut r.work.log ++ r.work.snd.held = udtIn r.work.log := by
  obtain ⟨c, -, -, hw⟩ := h.work
  rw [← flatten_udtBlocks]
  exact P2s.books hw.snd_inv hr

/-- data threads that run have been created -/
theorem started {r : Relay} (h : r.Inv) (hr : r.work.fst.Running ∨ r.work.snd.Running) : ¬ NotStarted r.child.log := by
  intro hns
  rw [h.idle hns] at hr
  rcases hr with hr | hr
  · exact hr.2 rfl
  · exact hr.2.2 rfl

end Relay

/-! ## What is on its way -/

namespace Tunnel

/-- from the application to the destination, the bytes nearest to the destination first -/
def upstream (s : Tunnel) : List UInt8 :=
  s.srv.work.snd.held ++ between s.cli.toUdt s.srv.fromUdt ++ s.cli.work.fst.held ++
    between s.appSent s.cli.fromTcp

/-- from the destination to the application -/
def downstream (s : Tunnel) : List UInt8 :=
  s.cli.work.snd.held ++ between s.srv.toUdt s.cli.fromUdt ++ s.srv.work.fst.held

section books

variable {gs : Globals} {s : Tunnel}

theorem Outer.serves {ok : Prop} (h : Outer gs ok s) (hw : Whole s) (hst : ¬ NotStarted s.srv.child.log) :
    ∃ r, Serves s r := by
  obtain ⟨req, hg⟩ := h.granted hst
  exact h.dialled hw.clientRecv hw.serverRecv hg.dialled

theorem conserved_up {ok : Prop} (h : Outer gs ok s) (hw : Whole s) {r : SockPkt × List UInt8} (hr : Serves s r)
    (hcli : s.cli.work.fst.Running) (hsrv : s.srv.work.snd.Running) :
    s.appSent = Proxy.head r ++ s.srv.toTcp ++ s.upstream := by
  obtain ⟨-, hsin, hcout⟩ := parsed_by_client h.inv hr.parsed hw.serverRecv
  -- from the application inwards: each stretch of the way in the terms of the next one
  have happ : tcpIn s.cli.child.log ++ tcpIn s.cli.work.log ++ between s.appSent s.cli.fromTcp = s.appSent :=
    append_between h.inv.tcp
  have hudt : udtIn s.srv.work.log ++ between s.cli.toUdt s.srv.fromUdt = udtOut s.cli.work.log := by
    have hto := append_between h.inv.toSrv
    rw [show s.srv.fromUdt = r.1.bytes ++ [0] ++ udtIn s.srv.work.log by rw [Relay.fromUdt, hsin],
      show s.cli.toUdt = r.1.bytes ++ [0] ++ udtOut s.cli.work.log by rw [Relay.toUdt, hcout], List.append_assoc] at hto
    rw [Relay.fromUdt, Relay.toUdt, hsin, hcout]
    exact List.append_cancel_left hto
  calc s.appSent
      = Proxy.head r ++ (tcpIn s.cli.work.log ++ between s.appSent s.cli.fromTcp) := by
        rw [← hr.head, ← List.append_assoc, happ]
    _ = Proxy.head r ++ (udtOut s.cli.work.log ++ s.cli.work.fst.held ++ between s.appSent s.cli.fromTcp) := by
        rw [Relay.books_up h.inv.cliRelay hcli]
    _ = Proxy.head r ++ (udtIn s.srv.work.log ++ between s.cli.toUdt s.srv.fromUdt ++ s.cli.work.fst.held ++
          between s.appSent s.cli.fromTcp) := by rw [hudt]
    _ = Proxy.head r ++ (tcpOut s.srv.work.log ++ s.srv.work.snd.held ++ between s.cli.toUdt s.srv.fromUdt ++
          s.cli.work.fst.held ++ between s.appSent s.cli.fromTcp) := by
        rw [Relay.books_down h.inv.srvRelay hsrv]
    _ = Proxy.head r ++ s.srv.toTcp ++ s.upstream := by
        rw [h.toTcp, upstream]
        simp only [List.append_assoc]

theorem conserved_down {ok : Prop} (h : Outer gs ok s) (hw : Whole s) {r : SockPkt × List UInt8} (hr : Serves s r)
    (hcli : s.cli.work.snd.Running) (hsrv : s.srv.work.fst.Running) :
    Proxy.grant r ++ s.srv.fromTcp = s.cli.toTcp ++ s.downstream := by
  obtain ⟨q, hg, hout, heq⟩ := h.told hw (Relay.started h.inv.cliRelay (Or.inr hcli))
  obtain rfl := parsed_unique h hw.serverRecv hr.parsed hg.parsed
  have hudt : udtIn s.cli.work.log ++ between s.srv.toUdt s.cli.fromUdt = udtOut s.srv.work.log := by
    have hto := append_between h.inv.toCli
    rw [show s.cli.fromUdt = udtOut s.srv.child.log ++ udtIn s.cli.work.log by rw [Relay.fromUdt, heq],
      show s.srv.toUdt = udtOut s.srv.child.log ++ udtOut s.srv.work.log from rfl, List.append_assoc] at hto
    rw [Relay.fromUdt, Relay.toUdt, heq]
    exact List.append_cancel_left hto
  calc Proxy.grant r ++ s.srv.fromTcp
      = Proxy.grant r ++ (udtOut s.srv.work.log ++ s.srv.work.fst.held) := by
        rw [h.fromTcp, Relay.books_up h.inv.srvRelay hsrv]
    _ = Proxy.grant r ++ (udtIn s.cli.work.log ++ between s.srv.toUdt s.cli.fromUdt ++ s.srv.work.fst.held) := by
        rw [hudt]
    _ = Proxy.grant r ++ (tcpOut s.cli.work.log ++ s.cli.work.snd.held ++ between s.srv.toUdt s.cli.fromUdt ++
          s.srv.work.fst.held) := by rw [Relay.books_down h.inv.cliRelay hcli]
    _ = s.cli.toTcp ++ s.downstream := by
        rw [Relay.toTcp, hout, downstream]
        simp only [Proxy.grant, List.append_assoc]

end books

end Tunnel

/-! ## Draining a data thread -/

namespace S2p

theorem running_guard (k : Cargs) : Running ⟨k, .guard⟩ := ⟨by simp, by simp⟩

theorem running_polling (k : Cargs) : Running ⟨k, .polling⟩ := ⟨by simp, by simp⟩

theorem running_receiving (k : Cargs) : Running ⟨k, .receiving⟩ := ⟨by simp, by simp⟩

theorem running_writing (k : Cargs) (v : Writen) : Running ⟨k, .writing v⟩ := ⟨by simp, by simp⟩

end S2p

namespace P2s

theorem running_guard (k : Cargs) : Running ⟨k, .guard⟩ := ⟨by simp, by simp, by simp⟩

theorem running_receiving (k : Cargs) : Running ⟨k, .receiving⟩ := ⟨by simp, by simp, by simp⟩

end P2s

namespace Workers

variable {c : Cargs} {w : Workers}

theorem step_inl {a : Ans} {k : Call} (hk : w.fst.call = some k) (hok : permitted k a = true) :
    (system c).step w (.inl a) = some ⟨w.fst.resume a, w.snd, w.log ++ [(k, a)]⟩ := by
  have hk' : S2p.machine.call w.fst = some k := hk
  simp only [system, step, Machine.Shared.step, hk', hok, if_true]
  rfl

theorem step_inr {a : Ans} {k : Call} (hk : w.snd.call = some k) (hok : permitted k a = true) :
    (system c).step w (.inr a) = some ⟨w.fst, w.snd.resume a, w.log ++ [(k, a)]⟩ := by
  have hk' : P2s.machine.call w.snd = some k := hk
  simp only [system, step, Machine.Shared.step, hk', hok, if_true]
  rfl

/-- `sock2peer_worker` runs, and has come from `w₀` by itself -/
structure FstFrom (c : Cargs) (w₀ w : Workers) : Prop where
  inv : Inv c w
  running : w.fst.Running
  other : w.snd = w₀.snd
  udtIn : udtIn w.log = udtIn w₀.log
  tcpOut : tcpOut w.log = tcpOut w₀.log

/-- one call of `sock2peer_worker` after which it still runs -/
theorem FstFrom.step (htcp : c.tcpsock < UDT_FD_BASE) (hudt : 0 ≤ c.udtsock) {w₀ : Workers} (h : FstFrom c w₀ w) {a : Ans}
    {k : Call} (hk : w.fst.call = some k) (hok : permitted k a = true) (hr : (w.fst.resume a).Running) :
    FstFrom c w₀ ⟨w.fst.resume a, w.snd, w.log ++ [(k, a)]⟩ := by
  have hinv := step_inv htcp hudt w (.inl a) _ h.inv (step_inl (c := c) hk hok)
  have hu : 0 ≤ w.fst.cargs.udtsock := by rw [h.inv.fst_cargs]; exact hudt
  obtain ⟨hin, hout⟩ := S2p.call_frame a hu h.inv.fst_inv hk
  have hin' : UdtGate.udtIn [(k, a)] = [] := by rw [← flatten_udtBlocks, hin]; rfl
  exact ⟨hinv, hr, h.other, by rw [udtIn_append, hin', List.append_nil, h.udtIn],
    by rw [tcpOut_append, hout, List.append_nil, h.tcpOut]⟩

/-- `sock2peer_worker` hands on what it holds -/
theorem flush_fst (htcp : c.tcpsock < UDT_FD_BASE) (hudt : 0 ≤ c.udtsock) (w₀ w : Workers) (h : FstFrom c w₀ w) :
    ∃ ls t, (system c).exec w ls = some t ∧ FstFrom c w₀ t ∧ t.fst.held = [] ∧ tcpIn t.log = tcpIn w.log := by
  obtain ⟨⟨k, pc⟩, snd, log⟩ := w
  cases pc with
  | guard | polling | receiving => exact ⟨[], _, rfl, h, rfl, rfl⟩
  | writing v =>
    obtain ⟨hv, -⟩ := h.inv.fst_inv
    have hk : S2p.call ⟨k, .writing v⟩ = some (sockWrite (embedsockfd k.udtsock .udt) v.rest) := hv.call_eq
    have hok : permitted (sockWrite (embedsockfd k.udtsock .udt) v.rest) v.whole = true := by
      unfold sockWrite
      split_ifs <;> simp [permitted, Writen.whole]
    have hnext : S2p.resume ⟨k, .writing v⟩ v.whole = ⟨k, .guard⟩ := S2p.written_whole _ hv
    refine ⟨[.inl v.whole], _, System.exec_cons.2 ⟨_, step_inl hk hok, rfl⟩, ?_, ?_, ?_⟩
    · exact h.step htcp hudt hk hok (by rw [hnext]; exact S2p.running_guard k)
    · simp only [hnext, S2p.held]
    · have hnone : tcpIn [(sockWrite (embedsockfd k.udtsock .udt) v.rest, v.whole)] = [] := by
        unfold sockWrite
        split_ifs <;> rfl
      simp only [tcpIn_append, hnone, List.append_nil]
  | stopping => exact absurd rfl h.running.1
  | stopped => exact absurd rfl h.running.2

/-- `sock2peer_worker` with empty hands gets to its receive -/
theorem reach_recv (htcp : c.tcpsock < UDT_FD_BASE) (hudt : 0 ≤ c.udtsock) (w₀ w : Workers) (h : FstFrom c w₀ w)
    (hheld : w.fst.held = []) :
    ∃ ls t, (system c).exec w ls = some t ∧ FstFrom c w₀ t ∧ t.fst.pc = .receiving ∧ tcpIn t.log = tcpIn w.log := by
  obtain ⟨⟨k, pc⟩, snd, log⟩ := w
  -- the flag is 0, and the socket is ready
  have hpoll : ∀ log', FstFrom c w₀ ⟨⟨k, .polling⟩, snd, log'⟩ →
      ∃ ls t, (system c).exec ⟨⟨k, .polling⟩, snd, log'⟩ ls = some t ∧ FstFrom c w₀ t ∧ t.fst.pc = .receiving ∧
        tcpIn t.log = tcpIn log' := by
    intro log' h'
    refine ⟨[.inl { rc := 1 }], _, System.exec_cons.2 ⟨_, step_inl rfl rfl, rfl⟩, ?_, rfl, ?_⟩
    · exact h'.step htcp hudt rfl rfl (S2p.running_receiving k)
    · rw [tcpIn_append]
      exact List.append_nil _
  cases pc with
  | guard =>
    have hstep : (system c).step ⟨⟨k, .guard⟩, snd, log⟩ (.inl { rc := 0 }) = some ⟨⟨k, .polling⟩, snd, _⟩ :=
      step_inl rfl rfl
    obtain ⟨ls, t, ht, hfrom, hpc, hin⟩ :=
      hpoll _ (h.step (a := { rc := 0 }) htcp hudt rfl rfl (S2p.running_polling k))
    refine ⟨_, t, System.exec_cons.2 ⟨_, hstep, ht⟩, hfrom, hpc, ?_⟩
    rw [hin, tcpIn_append]
    exact List.append_nil _
  | polling => exact hpoll log h
  | receiving => exact ⟨[], _, rfl, h, rfl, rfl⟩
  | writing v => exact absurd hheld h.inv.fst_inv.1.rest_ne
  | stopping => exact absurd rfl h.running.1
  | stopped => exact absurd rfl h.running.2

/-- and takes in the next block -/
theorem take_fst (htcp : c.tcpsock < UDT_FD_BASE) (hudt : 0 ≤ c.udtsock) (w₀ w : Workers) (b : List UInt8)
    (h : FstFrom c w₀ w) (hheld : w.fst.held = []) (hb : b ≠ []) (hlen : b.length ≤ rcvbuffer) :
    ∃ ls t, (system c).exec w ls = some t ∧ FstFrom c w₀ t ∧ tcpIn t.log = tcpIn w.log ++ b := by
  obtain ⟨ls, ⟨⟨k, pc⟩, snd, log⟩, ht, hfrom, rfl, hin⟩ := reach_recv htcp hudt w₀ w h hheld
  have hpos := List.length_pos_iff.2 hb
  have hlt : b.length < 2 ^ 31 := lt_of_le_of_lt hlen (by decide)
  have hk : S2p.call ⟨k, .receiving⟩ = some (.recv k.tcpsock rcvbuffer false) := rfl
  have hok : permitted (.recv k.tcpsock rcvbuffer false) { rc := b.length, data := b } = true := by
    simp [permitted, hlen]
  have hnext : (S2p.resume ⟨k, .receiving⟩ { rc := b.length, data := b }).Running := by
    have hne : (b.length : ℤ) ≠ -1 := by omega
    have hne' : (b.length : ℤ) ≠ 0 := by omega
    simp only [S2p.resume, hne, hne', if_false]
    rcases Writen.active_start (embedsockfd k.udtsock .udt) hlt with ⟨hw, -⟩ | ⟨hnil, -⟩
    · simp only [S2p.written, hw.ret_eq]
      exact S2p.running_writing k _
    · exact absurd hnil hb
  refine ⟨ls ++ [.inl { rc := b.length, data := b }], _, System.exec_snoc.2 ⟨_, ht, step_inl hk hok⟩,
    hfrom.step htcp hudt hk hok hnext, ?_⟩
  rw [tcpIn_append, hin]
  simp [tcpIn]

/-- `peer2sock_worker` runs, and has come from `w₀` by itself -/
structure SndFrom (c : Cargs) (w₀ w : Workers) : Prop where
  inv : Inv c w
  running : w.snd.Running
  other : w.fst = w₀.fst
  tcpIn : tcpIn w.log = tcpIn w₀.log
  udtOut : udtOut w.log = udtOut w₀.log

/-- one call of `peer2sock_worker` after which it still runs -/
theorem SndFrom.step (htcp : c.tcpsock < UDT_FD_BASE) (hudt : 0 ≤ c.udtsock) {w₀ : Workers} (h : SndFrom c w₀ w) {a : Ans}
    {k : Call} (hk : w.snd.call = some k) (hok : permitted k a = true) (hr : (w.snd.resume a).Running) :
    SndFrom c w₀ ⟨w.fst, w.snd.resume a, w.log ++ [(k, a)]⟩ := by
  have hinv := step_inv htcp hudt w (.inr a) _ h.inv (step_inr (c := c) hk hok)
  have ht : w.snd.cargs.tcpsock < UDT_FD_BASE := by rw [h.inv.snd_cargs]; exact htcp
  obtain ⟨hin, hout⟩ := P2s.call_frame a ht h.inv.snd_inv hk
  have hin' : UdtGate.tcpIn [(k, a)] = [] := by rw [← flatten_tcpBlocks, hin]; rfl
  exact ⟨hinv, hr, h.other, by rw [tcpIn_append, hin', List.append_nil, h.tcpIn],
    by rw [udtOut_append, hout, List.append_nil, h.udtOut]⟩

/-- `peer2sock_worker` hands on what it holds -/
theorem flush_snd (htcp : c.tcpsock < UDT_FD_BASE) (hudt : 0 ≤ c.udtsock) (w₀ w : Workers) (h : SndFrom c w₀ w) :
    ∃ ls t, (system c).exec w ls = some t ∧ SndFrom c w₀ t ∧ t.snd.held = [] ∧ udtIn t.log = udtIn w.log := by
  obtain ⟨fst, ⟨k, pc⟩, log⟩ := w
  cases pc with
  | start | guard | receiving | recheck => exact ⟨[], _, rfl, h, rfl, rfl⟩
  | writing v =>
    obtain ⟨hv, -⟩ := h.inv.snd_inv
    have hk : P2s.call ⟨k, .writing v⟩ = some (.write k.tcpsock v.rest) := by
      have hkc : k = c := h.inv.snd_cargs
      have ht : k.tcpsock < UDT_FD_BASE := by rw [hkc]; exact htcp
      exact hv.call_eq.trans (congrArg some (if_pos ht))
    have hok : permitted (.write k.tcpsock v.rest) v.whole = true := by simp [permitted, Writen.whole]
    have hnext : P2s.resume ⟨k, .writing v⟩ v.whole = ⟨k, .guard⟩ := P2s.written_whole _ hv
    refine ⟨[.inr v.whole], _, System.exec_cons.2 ⟨_, step_inr hk hok, rfl⟩, ?_, ?_, ?_⟩
    · exact h.step htcp hudt hk hok (by rw [hnext]; exact P2s.running_guard k)
    · simp only [hnext, P2s.held]
    · rw [udtIn_append]
      exact List.append_nil _
  | clearing => exact absurd rfl h.running.1
  | stopping => exact absurd rfl h.running.2.1
  | stopped => exact absurd rfl h.running.2.2

/-- `peer2sock_worker` with empty hands gets to its receive -/
theorem reach_udtRecv (htcp : c.tcpsock < UDT_FD_BASE) (hudt : 0 ≤ c.udtsock) (w₀ w : Workers) (h : SndFrom c w₀ w)
    (hheld : w.snd.held = []) :
    ∃ ls t, (system c).exec w ls = some t ∧ SndFrom c w₀ t ∧ t.snd.pc = .receiving ∧ udtIn t.log = udtIn w.log := by
  obtain ⟨fst, ⟨k, pc⟩, log⟩ := w
  -- the flag is 0
  have hguard : ∀ log', SndFrom c w₀ ⟨fst, ⟨k, .guard⟩, log'⟩ →
      ∃ ls t, (system c).exec ⟨fst, ⟨k, .guard⟩, log'⟩ ls = some t ∧ SndFrom c w₀ t ∧ t.snd.pc = .receiving ∧
        udtIn t.log = udtIn log' := by
    intro log' h'
    refine ⟨[.inr { rc := 0 }], _, System.exec_cons.2 ⟨_, step_inr rfl rfl, rfl⟩, ?_, rfl, ?_⟩
    · exact h'.step htcp hudt rfl rfl (P2s.running_receiving k)
    · rw [udtIn_append]
      exact List.append_nil _
  cases pc with
  | start =>
    have hstep : (system c).step ⟨fst, ⟨k, .start⟩, log⟩ (.inr { rc := 0 }) = some ⟨fst, ⟨k, .guard⟩, _⟩ :=
      step_inr rfl rfl
    obtain ⟨ls, t, ht, hfrom, hpc, hin⟩ :=
      hguard _ (h.step (a := { rc := 0 }) htcp hudt rfl rfl (P2s.running_guard k))
    refine ⟨_, t, System.exec_cons.2 ⟨_, hstep, ht⟩, hfrom, hpc, ?_⟩
    rw [hin, udtIn_append]
    exact List.append_nil _
  | guard => exact hguard log h
  | receiving => exact ⟨[], _, rfl, h, rfl, rfl⟩
  | recheck =>
    refine ⟨[.inr { rc := 0 }], _, System.exec_cons.2 ⟨_, step_inr rfl rfl, rfl⟩, ?_, rfl, ?_⟩
    · exact h.step htcp hudt rfl rfl (P2s.running_receiving k)
    · rw [udtIn_append]
      exact List.append_nil _
  | writing v => exact absurd hheld h.inv.snd_inv.1.rest_ne
  | clearing => exact absurd rfl h.running.1
  | stopping => exact absurd rfl h.running.2.1
  | stopped => exact absurd rfl h.running.2.2

/-- and takes in the next block -/
theorem take_snd (htcp : c.tcpsock < UDT_FD_BASE) (hudt : 0 ≤ c.udtsock) (w₀ w : Workers) (b : List UInt8)
    (h : SndFrom c w₀ w) (hheld : w.snd.held = []) (hb : b ≠ []) (hlen : b.length ≤ rcvbuffer) :
    ∃ ls t, (system c).exec w ls = some t ∧ SndFrom c w₀ t ∧ udtIn t.log = udtIn w.log ++ b := by
  obtain ⟨ls, ⟨fst, ⟨k, pc⟩, log⟩, ht, hfrom, rfl, hin⟩ := reach_udtRecv htcp hudt w₀ w h hheld
  have hpos := List.length_pos_iff.2 hb
  have hk : P2s.call ⟨k, .receiving⟩ = some (.udtRecv k.udtsock rcvbuffer) := rfl
  have hok : permitted (.udtRecv k.udtsock rcvbuffer) { rc := b.length, data := b } = true := by
    simp [permitted, hlen]
  have hnext : (P2s.resume ⟨k, .receiving⟩ { rc := b.length, data := b }).Running := by
    have hne : (b.length : ℤ) ≠ -1 := by omega
    have hne' : (b.length : ℤ) ≠ 0 := by omega
    simp only [P2s.resume, P2s.received, hne, hne', if_false]
    exact P2s.running_start_write _ hlen
  refine ⟨ls ++ [.inr { rc := b.length, data := b }], _, System.exec_snoc.2 ⟨_, ht, step_inr hk hok⟩,
    hfrom.step htcp hudt hk hok hnext, ?_⟩
  rw [udtIn_append, hin]
  simp [udtIn]

theorem rcvbuffer_pos : 0 < rcvbuffer := by decide

/-- **`sock2peer_worker` takes in and hands on any stream.** -/
theorem drain_fst (htcp : c.tcpsock < UDT_FD_BASE) (hudt : 0 ≤ c.udtsock) (h : Inv c w) (hr : w.fst.Running)
    (bs : List UInt8) :
    ∃ ls t, (system c).exec w ls = some t ∧ FstFrom c w t ∧ t.fst.held = [] ∧ tcpIn t.log = tcpIn w.log ++ bs :=
  System.drain (FstFrom c w) (fun t => t.fst.held) (fun t => tcpIn t.log) rcvbuffer rcvbuffer_pos
    (flush_fst htcp hudt w) (take_fst htcp hudt w) bs w ⟨h, hr, rfl, rfl, rfl⟩

/-- **`peer2sock_worker` takes in and hands on any stream.** -/
theorem drain_snd (htcp : c.tcpsock < UDT_FD_BASE) (hudt : 0 ≤ c.udtsock) (h : Inv c w) (hr : w.snd.Running)
    (bs : List UInt8) :
    ∃ ls t, (system c).exec w ls = some t ∧ SndFrom c w t ∧ t.snd.held = [] ∧ udtIn t.log = udtIn w.log ++ bs :=
  System.drain (SndFrom c w) (fun t => t.snd.held) (fun t => udtIn t.log) rcvbuffer rcvbuffer_pos
    (flush_snd htcp hudt w) (take_snd htcp hudt w) bs w ⟨h, hr, rfl, rfl, rfl⟩

end Workers

/-! ## Nothing has to stay on its way -/

namespace Relay

/-- the thread that an answer to the data threads is for -/
def thread : Ans ⊕ Ans → Thread × Ans
  | .inl a => (.sock2peer, a)
  | .inr a => (.peer2sock, a)

theorem step_thread {g : Globals} {r : Relay} {l : Ans ⊕ Ans} {w : Workers} (h : Workers.step r.work l = some w) :
    r.step g (thread l).1 (thread l).2 = some { r with work := w } := by
  cases l with
  | inl a => simp only [thread, step, h, Option.map_some]
  | inr a => simp only [thread, step, h, Option.map_some]

/-- the logs of the data threads only grow -/
theorem work_grows {c : Cargs} {w v : Workers} {ls : List (Ans ⊕ Ans)} (h : (Workers.system c).exec w ls = some v) :
    ∃ m, v.log = w.log ++ m := by
  refine System.exec_inv (fun v => ∃ m, v.log = w.log ++ m) ?_ h ⟨[], (List.append_nil _).symm⟩
  rintro v l u ⟨m, hm⟩ hs
  rcases Machine.Shared.step_cases hs with ⟨k, a, -, -, -, rfl⟩ | ⟨k, a, -, -, -, rfl⟩
  · exact ⟨m ++ [(k, a)], by rw [hm, List.append_assoc]⟩
  · exact ⟨m ++ [(k, a)], by rw [hm, List.append_assoc]⟩

theorem streams_grow {c : Cargs} {r : Relay} {v : Workers} {ls : List (Ans ⊕ Ans)}
    (h : (Workers.system c).exec r.work ls = some v) :
    r.fromTcp <+: fromTcp { r with work := v } ∧ r.fromUdt <+: fromUdt { r with work := v } := by
  obtain ⟨m, hm⟩ := work_grows h
  simp only [fromTcp, fromUdt, hm, tcpIn_append, udtIn_append, ← List.append_assoc]
  exact ⟨List.prefix_append _ _, List.prefix_append _ _⟩

end Relay

namespace Tunnel

/-- a run of the client's data threads is one of the tunnel when what they receive was sent -/
theorem exec_cli (gc gs : Globals) {c : Cargs} {s : Tunnel} {v : Workers} {ls : List (Ans ⊕ Ans)}
    (h : (Workers.system c).exec s.cli.work ls = some v) (htcp : Relay.fromTcp { s.cli with work := v } <+: s.appSent)
    (hudt : Relay.fromUdt { s.cli with work := v } <+: s.srv.toUdt) :
    (system gc gs).exec s (ls.map fun l => .cli (Relay.thread l).1 (Relay.thread l).2) =
      some { s with cli := { s.cli with work := v } } := by
  induction ls generalizing s with
  | nil =>
    simp only [System.exec_nil, Option.some.injEq] at h
    subst h
    rfl
  | cons l ls ih =>
    obtain ⟨u, hu, hv⟩ := System.exec_cons.1 h
    obtain ⟨h1, h2⟩ := Relay.streams_grow (r := { s.cli with work := u }) hv
    have hstep : (system gc gs).step s (.cli (Relay.thread l).1 (Relay.thread l).2) =
        some { s with cli := { s.cli with work := u } } := by
      simp only [system, step, Relay.step_thread hu]
      rw [if_pos ⟨h1.trans htcp, h2.trans hudt⟩]
    exact System.exec_cons.2 ⟨_, hstep, ih hv htcp hudt⟩

/-- and likewise for the server -/
theorem exec_srv (gc gs : Globals) {c : Cargs} {s : Tunnel} {v : Workers} {ls : List (Ans ⊕ Ans)}
    (h : (Workers.system c).exec s.srv.work ls = some v) (hudt : Relay.fromUdt { s.srv with work := v } <+: s.cli.toUdt) :
    (system gc gs).exec s (ls.map fun l => .srv (Relay.thread l).1 (Relay.thread l).2) =
      some { s with srv := { s.srv with work := v } } := by
  induction ls generalizing s with
  | nil =>
    simp only [System.exec_nil, Option.some.injEq] at h
    subst h
    rfl
  | cons l ls ih =>
    obtain ⟨u, hu, hv⟩ := System.exec_cons.1 h
    obtain ⟨-, h2⟩ := Relay.streams_grow (r := { s.srv with work := u }) hv
    have hstep : (system gc gs).step s (.srv (Relay.thread l).1 (Relay.thread l).2) =
        some { s with srv := { s.srv with work := u } } := by
      simp only [system, step, Relay.step_thread hu]
      rw [if_pos (h2.trans hudt)]
    exact System.exec_cons.2 ⟨_, hstep, ih hv hudt⟩

/-- all data threads run -/
structure Flowing (s : Tunnel) : Prop where
  cliUp : s.cli.work.fst.Running
  cliDown : s.cli.work.snd.Running
  srvUp : s.srv.work.snd.Running
  srvDown : s.srv.work.fst.Running

theorem flowing_iff (s : Tunnel) : Flowing s ↔ s.cli.work.fst.Running ∧ s.cli.work.snd.Running ∧
    s.srv.work.snd.Running ∧ s.srv.work.fst.Running :=
  ⟨fun h => ⟨h.1, h.2, h.3, h.4⟩, fun h => ⟨h.1, h.2.1, h.2.2.1, h.2.2.2⟩⟩

instance (s : Tunnel) : Decidable (Flowing s) := decidable_of_iff _ (flowing_iff s).symm

/-- everything that the application has sent can go to the server, and everything the server has can go on -/
theorem drain_up (gc gs : Globals) {ok : Prop} {s : Tunnel} (h : Inv gs ok s) (hf : s.Flowing) :
    ∃ ls t, (system gc gs).exec s ls = some t ∧ t.Flowing ∧ t.upstream = [] ∧ t.appSent = s.appSent ∧
      t.srv.fromTcp = s.srv.fromTcp ∧ t.cli.child = s.cli.child ∧ t.srv.child = s.srv.child := by
  obtain ⟨c, htcp, hudt, hw⟩ := h.cliRelay.work
  obtain ⟨ls, v, hv, hfrom, hheld, hin⟩ :=
    Workers.drain_fst htcp hudt hw hf.cliUp (between s.appSent s.cli.fromTcp)
  have hall : Relay.fromTcp { s.cli with work := v } = s.appSent := by
    rw [Relay.fromTcp, hin, ← List.append_assoc]
    exact append_between h.tcp
  have hsame : Relay.fromUdt { s.cli with work := v } = s.cli.fromUdt := by
    rw [Relay.fromUdt, Relay.fromUdt, hfrom.udtIn]
  have hrun := exec_cli gc gs hv (hall ▸ List.prefix_refl _) (hsame ▸ h.toCli)
  -- then the server's side, with what the client has sent by now
  have hsent : s.srv.fromUdt <+: Relay.toUdt { s.cli with work := v } := by
    obtain ⟨m, hm⟩ := Relay.work_grows hv
    refine h.toSrv.trans ?_
    simp only [Relay.toUdt, hm, udtOut_append, ← List.append_assoc]
    exact List.prefix_append _ _
  obtain ⟨c', htcp', hudt', hw'⟩ := h.srvRelay.work
  obtain ⟨ms, u, hu, hfrom', hheld', hin'⟩ := Workers.drain_snd htcp' hudt' hw' hf.srvUp
    (between (Relay.toUdt { s.cli with work := v }) s.srv.fromUdt)
  have hall' : Relay.fromUdt { s.srv with work := u } = Relay.toUdt { s.cli with work := v } := by
    rw [Relay.fromUdt, hin', ← List.append_assoc]
    exact append_between hsent
  have hrun' := exec_srv gc gs (s := { s with cli := { s.cli with work := v } }) hu
    (hall' ▸ List.prefix_refl _)
  refine ⟨_, _, System.exec_append.2 ⟨_, hrun, hrun'⟩, ⟨hfrom.running, ?_, hfrom'.running, ?_⟩, ?_, rfl, ?_, rfl, rfl⟩
  · rw [hfrom.other]
    exact hf.cliDown
  · rw [hfrom'.other]
    exact hf.srvDown
  · simp only [upstream, hheld, hheld', hall, hall', between_self, List.append_nil]
  · rw [Relay.fromTcp, Relay.fromTcp, hfrom'.tcpIn]

/-- everything that the server has from the destination can go to the client, and on to the application -/
theorem drain_down (gc gs : Globals) {ok : Prop} {s : Tunnel} (h : Inv gs ok s) (hf : s.Flowing) :
    ∃ ls t, (system gc gs).exec s ls = some t ∧ t.Flowing ∧ t.downstream = [] ∧ t.appSent = s.appSent ∧
      t.srv.fromTcp = s.srv.fromTcp ∧ t.srv.toTcp = s.srv.toTcp ∧ t.cli.child = s.cli.child ∧
      t.srv.child = s.srv.child := by
  obtain ⟨c, htcp, hudt, hw⟩ := h.srvRelay.work
  obtain ⟨ls, v, hv, hfrom, hheld, hin⟩ := Workers.drain_fst htcp hudt hw hf.srvDown []
  have hsame : Relay.fromUdt { s.srv with work := v } = s.srv.fromUdt := by
    rw [Relay.fromUdt, Relay.fromUdt, hfrom.udtIn]
  have hrun := exec_srv gc gs hv (hsame ▸ h.toSrv)
  have hsent : s.cli.fromUdt <+: Relay.toUdt { s.srv with work := v } := by
    obtain ⟨m, hm⟩ := Relay.work_grows hv
    refine h.toCli.trans ?_
    simp only [Relay.toUdt, hm, udtOut_append, ← List.append_assoc]
    exact List.prefix_append _ _
  obtain ⟨c', htcp', hudt', hw'⟩ := h.cliRelay.work
  obtain ⟨ms, u, hu, hfrom', hheld', hin'⟩ := Workers.drain_snd htcp' hudt' hw' hf.cliDown
    (between (Relay.toUdt { s.srv with work := v }) s.cli.fromUdt)
  have hall' : Relay.fromUdt { s.cli with work := u } = Relay.toUdt { s.srv with work := v } := by
    rw [Relay.fromUdt, hin', ← List.append_assoc]
    exact append_between hsent
  have htcp'' : Relay.fromTcp { s.cli with work := u } <+: s.appSent := by
    rw [Relay.fromTcp, hfrom'.tcpIn]
    exact h.tcp
  have hrun' := exec_cli gc gs (s := { s with srv := { s.srv with work := v } }) hu htcp''
    (hall' ▸ List.prefix_refl _)
  refine ⟨_, _, System.exec_append.2 ⟨_, hrun, hrun'⟩, ⟨?_, hfrom'.running, ?_, hfrom.running⟩, ?_, rfl, ?_, ?_, rfl, rfl⟩
  · rw [hfrom'.other]
    exact hf.cliUp
  · rw [hfrom.other]
    exact hf.srvUp
  · simp only [downstream, hheld, hheld', hall', between_self, List.append_nil]
  · rw [Relay.fromTcp, Relay.fromTcp, hin, List.append_nil]
  · rw [Relay.toTcp, Relay.toTcp, hfrom.tcpOut]

theorem Whole.of_children {s t : Tunnel} (h : s.Whole) (hc : t.cli.child = s.cli.child)
    (hs : t.srv.child = s.srv.child) : t.Whole := by
  obtain ⟨h1, h2, h3, h4, h5⟩ := h
  exact ⟨hc ▸ h1, hs ▸ h2, hc ▸ h3, hc ▸ h4, hs ▸ h5⟩

theorem Serves.of_children {s t : Tunnel} {r : SockPkt × List UInt8} (h : Serves s r) (hc : t.cli.child = s.cli.child)
    (hs : t.srv.child = s.srv.child) : Serves t r := ⟨h.asks, hs ▸ h.parsed, hc ▸ h.head⟩

/-! ## Main results -/

/-- **Nothing is lost.** In every state of every run with whole handshakes, once the server has created its data threads
there is one request, the front of what the application has sent, such that: as long as the two data threads on the way
to the destination run, the rest is what the destination was handed and then what is on its way; and as long as the two
on the way back run, the grant and what the destination has sent are what the application was handed and then what is
on its way. -/
theorem conserved {gc gs : Globals} {s0 s : Tunnel} {ls : List Label} (h0 : Init s0)
    (h : (system gc gs).exec s0 ls = some s) (hw : s.Whole) (hst : ¬ NotStarted s.srv.child.log) :
    ∃ r, Proxy.Asks r ∧
      (s.cli.work.fst.Running → s.srv.work.snd.Running → s.appSent = Proxy.head r ++ s.srv.toTcp ++ s.upstream) ∧
      (s.cli.work.snd.Running → s.srv.work.fst.Running →
        Proxy.grant r ++ s.srv.fromTcp = s.cli.toTcp ++ s.downstream) := by
  have hout := run_outer h0 h
  obtain ⟨r, hr⟩ := hout.serves hw hst
  exact ⟨r, hr.asks, conserved_up hout hw hr, conserved_down hout hw hr⟩

theorem conserved_carrying :
    ∃ s r, (system openGate openGate).exec fresh carrying = some s ∧ s.upstream = [2, 3] ∧
      s.appSent = Proxy.head r ++ [1] ++ [2, 3] := by
  obtain ⟨s, hs, hto, hup, hw, hcli, hsrv⟩ : ∃ s, (system openGate openGate).exec fresh carrying = some s ∧
      s.srv.toTcp = [1] ∧ s.upstream = [2, 3] ∧ s.Whole ∧
      s.cli.work.fst.Running ∧ s.srv.work.snd.Running := System.exec_of_any (by decide)
  have hinv := run_inv init_fresh hs
  obtain ⟨r, -, hbooks, -⟩ := conserved init_fresh hs hw (Relay.started hinv.srvRelay (Or.inr hsrv))
  exact ⟨s, r, hs, hup, by rw [← hto, ← hup]; exact hbooks hcli hsrv⟩

/-- **Everything can still arrive.** From every state of every run with whole handshakes in which the data threads run,
the tunnel can go on by itself, with no further byte from either end and no thread stopped, to a state in which the
destination was handed all of the payload and the application all that the server had from the destination. -/
theorem deliverable {gc gs : Globals} {s0 s : Tunnel} {ls : List Label} (h0 : Init s0)
    (h : (system gc gs).exec s0 ls = some s) (hw : s.Whole) (hf : s.Flowing) :
    ∃ ms t r, (system gc gs).exec s ms = some t ∧ t.Flowing ∧ Proxy.Asks r ∧ t.appSent = s.appSent ∧
      t.srv.fromTcp = s.srv.fromTcp ∧ s.appSent = Proxy.head r ++ t.srv.toTcp ∧
      t.cli.toTcp = Proxy.grant r ++ s.srv.fromTcp := by
  have hout := run_outer h0 h
  obtain ⟨r, hr⟩ := hout.serves hw (Relay.started hout.inv.srvRelay (Or.inl hf.srvDown))
  obtain ⟨ms, t, hst, hft, hup, happ, hfrom, hc, hs⟩ := drain_up gc gs hout.inv hf
  have hout' := run_outer h0 (System.exec_append.2 ⟨s, h, hst⟩)
  obtain ⟨ns, u, htu, hfu, hdown, happ', hfrom', hto, hc', hs'⟩ := drain_down gc gs hout'.inv hft
  have hout'' := run_outer h0 (System.exec_append.2 ⟨s, h, System.exec_append.2 ⟨t, hst, htu⟩⟩)
  have heq := conserved_up hout' (hw.of_children hc hs) (hr.of_children hc hs) hft.cliUp hft.srvUp
  have heq' := conserved_down hout'' ((hw.of_children hc hs).of_children hc' hs')
    ((hr.of_children hc hs).of_children hc' hs') hfu.cliDown hfu.srvDown
  rw [hup, List.append_nil, happ, ← hto] at heq
  rw [hdown, List.append_nil, hfrom', hfrom] at heq'
  exact ⟨ms ++ ns, u, r, System.exec_append.2 ⟨t, hst, htu⟩, hfu, hr.asks, happ'.trans happ, hfrom'.trans hfrom, heq,
    heq'.symm⟩

theorem deliverable_carrying :
    ∃ s ms t r, (system openGate openGate).exec fresh carrying = some s ∧
      (system openGate openGate).exec s ms = some t ∧ t.cli.toTcp = Proxy.grant r ++ [7] := by
  obtain ⟨s, hs, hin, hw, hf⟩ : ∃ s, (system openGate openGate).exec fresh carrying = some s ∧ s.srv.fromTcp = [7] ∧
      s.Whole ∧ s.Flowing := System.exec_of_any (by decide)
  obtain ⟨ms, t, r, hst, -, -, -, -, -, hto⟩ := deliverable init_fresh hs hw hf
  exact ⟨s, ms, t, r, hs, hst, by rw [← hin]; exact hto⟩

end Tunnel

end UdtGate
