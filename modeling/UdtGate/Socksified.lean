/-
A connection made through `minisocks`: the preloaded `connect`, the client relay, the server relay.

The application is the `connect` of `minisocks`; everything else is the tunnel. Between the three programs lie two
links, the TCP connection to the client relay and the UDT connection to the server relay. They deliver in order, in any
pieces, and may fail at any time: once a receive of a handshake, on either end, has got less than it waits for, the
link carries nothing more in either direction. What the data threads receive is only bounded by what was sent.

- `Socksified.Inv`: as long as the TCP link is up, a byte 90 in the place of the code, received by the client from the
  server, is behind a connect to the destination that the application asked for.
- `connect_sound`: if `connect` returns 0, the server has connected to this destination.
-/
import UdtGate.Request
import UdtGate.Minisocks

namespace UdtGate

open UdtGate.Core

/-! ## Links -/

/-- on which links no receive of a handshake has ended or failed -/
structure Links where
  tcp : Bool
  udt : Bool
deriving DecidableEq

/-- the links after the calls `l`; a link that is down delivers nothing -/
def Links.pass (k : Links) (l : Log) : Option Links :=
  if (k.tcp = false → tcpIn l = []) ∧ (k.udt = false → udtIn l = []) then
    some ⟨k.tcp && decide (Received .tcp l), k.udt && decide (Received .udt l)⟩
  else none

/-- what a link that is still up says about the past -/
theorem Links.pass_cases {k k' : Links} {l : Log} (h : k.pass l = some k') :
    (tcpIn l ≠ [] → k.tcp = true) ∧ (udtIn l ≠ [] → k.udt = true) ∧
    (k'.tcp = true → k.tcp = true ∧ Received .tcp l) ∧ (k'.udt = true → k.udt = true ∧ Received .udt l) := by
  unfold pass at h
  split_ifs at h with hl
  obtain rfl := Option.some.inj h
  refine ⟨?_, ?_, ?_, ?_⟩
  · intro hne
    by_contra hd
    exact hne (hl.1 (Bool.eq_false_iff.2 hd))
  · intro hne
    by_contra hd
    exact hne (hl.2 (Bool.eq_false_iff.2 hd))
  · intro hup
    simpa using hup
  · intro hup
    simpa using hup

/-! ## Model -/

structure Socksified where
  app : Machine.Logged Minisocks Call Ans
  tun : Tunnel
  links : Links
deriving DecidableEq

namespace Socksified

inductive Label where
  | app (a : Ans)
  | cli (w : Thread) (a : Ans)
  | srv (w : Thread) (a : Ans)
deriving DecidableEq

/-- one step. The application receives only what the client sent, and what it sends goes to the client -/
def step (gc gs : Globals) (s : Socksified) : Label → Option Socksified
  | .app a =>
    match Minisocks.call s.app.st with
    | none => none
    | some c =>
      match s.links.pass [(c, a)] with
      | none => none
      | some k =>
        if permitted c a = true ∧ tcpIn (s.app.log ++ [(c, a)]) <+: s.tun.cli.toTcp then
          some {
            app := ⟨Minisocks.resume s.app.st a, s.app.log ++ [(c, a)]⟩
            tun := { s.tun with appSent := s.tun.appSent ++ tcpOut [(c, a)] }
            links := k }
        else none
  | .cli w a =>
    match s.links.pass (s.tun.cli.entry gc w a), s.tun.step gc gs (.cli w a) with
    | some k, some t => some { s with tun := t, links := k }
    | _, _ => none
  | .srv w a =>
    match s.links.pass (s.tun.srv.entry gs w a), s.tun.step gc gs (.srv w a) with
    | some k, some t => some { s with tun := t, links := k }
    | _, _ => none

/-- `connect` is called for `dst`, with whatever the uninitialised variables contain, and both links are up -/
def Init (dst : SockAddrIn) (s : Socksified) : Prop :=
  ∃ sd getserver junk tun, Tunnel.Init tun ∧
    s = ⟨⟨Minisocks.start sd (.in4 dst) getserver junk, []⟩, tun, ⟨true, true⟩⟩

/-- all runs of a `connect` for `dst` under the settings `gc` of the client and `gs` of the server -/
def system (gc gs : Globals) (dst : SockAddrIn) : System Socksified Label := ⟨Init dst, step gc gs⟩

/-- what a step can do -/
theorem step_cases {gc gs : Globals} {s t : Socksified} {l : Label} (h : step gc gs s l = some t) :
    (∃ c a k, l = .app a ∧ Minisocks.call s.app.st = some c ∧ s.links.pass [(c, a)] = some k ∧
      permitted c a = true ∧ tcpIn (s.app.log ++ [(c, a)]) <+: s.tun.cli.toTcp ∧
      t = ⟨⟨Minisocks.resume s.app.st a, s.app.log ++ [(c, a)]⟩,
        { s.tun with appSent := s.tun.appSent ++ tcpOut [(c, a)] }, k⟩) ∨
    (∃ w a k u, l = .cli w a ∧ s.links.pass (s.tun.cli.entry gc w a) = some k ∧
      s.tun.step gc gs (.cli w a) = some u ∧ t = ⟨s.app, u, k⟩) ∨
    (∃ w a k u, l = .srv w a ∧ s.links.pass (s.tun.srv.entry gs w a) = some k ∧
      s.tun.step gc gs (.srv w a) = some u ∧ t = ⟨s.app, u, k⟩) := by
  cases l with
  | app a =>
    simp only [step] at h
    split at h
    · cases h
    · rename_i c hc
      split at h
      · cases h
      · rename_i k hk
        by_cases hp : permitted c a = true ∧ tcpIn (s.app.log ++ [(c, a)]) <+: s.tun.cli.toTcp
        · rw [if_pos hp] at h
          exact Or.inl ⟨c, a, k, rfl, hc, hk, hp.1, hp.2, (Option.some.inj h).symm⟩
        · rw [if_neg hp] at h
          cases h
  | cli w a =>
    simp only [step] at h
    split at h
    · rename_i k u hk hu
      exact Or.inr (Or.inl ⟨w, a, k, u, rfl, hk, hu, (Option.some.inj h).symm⟩)
    · cases h
  | srv w a =>
    simp only [step] at h
    split at h
    · rename_i k u hk hu
      exact Or.inr (Or.inr ⟨w, a, k, u, rfl, hk, hu, (Option.some.inj h).symm⟩)
    · cases h

/-! ## The invariant -/

/-- the invariant for a `connect` to `dst` -/
structure Inv (gs : Globals) (dst : SockAddrIn) (s : Socksified) : Prop where
  app : Minisocks.Inv (connectRequest dst.port dst.addr) s.app.st s.app.log
  sent : s.tun.appSent = tcpOut s.app.log
  tunnel : Tunnel.Inv gs (s.links.tcp = true) s.tun
  tcp : s.links.tcp = true → Received .tcp s.tun.cli.child.log
  udt : s.links.udt = true → Received .udt s.tun.srv.child.log
  /-- a grant that the client received, behind a request that it received whole -/
  reply : s.links.tcp = true → (udtIn s.tun.cli.child.log)[1]? = some 90 → UdtGate.Connected gs dst s.tun.srv.child.log
  /-- a grant that the application received -/
  heard : (tcpIn s.app.log)[1]? = some 90 → UdtGate.Connected gs dst s.tun.srv.child.log

theorem inv_init {gs : Globals} {dst : SockAddrIn} {s : Socksified} (h : Init dst s) : Inv gs dst s := by
  obtain ⟨sd, getserver, junk, tun, ⟨sdc, sds, pc, ps, cc, cs, kc, ks, hc, hs, rfl⟩, rfl⟩ := h
  exact ⟨Minisocks.inv_start _ _ _ _, rfl, Tunnel.inv_init ⟨sdc, sds, pc, ps, cc, cs, kc, ks, hc, hs, rfl⟩,
    fun _ => nofun, fun _ => nofun, fun _ => nofun, nofun⟩

/-- **The grant is for the application's request.** Behind links on which no receive of a handshake failed, a grant that
the client received comes from a server that is connected to the application's destination. -/
theorem connected_of_got {gs : Globals} {ok : Prop} {tun : Tunnel} (h : Tunnel.Inv gs ok tun) {dst : SockAddrIn}
    (happ : tun.appSent <+: (connectRequest dst.port dst.addr).bytes ++ [0]) (hc : Received .tcp tun.cli.child.log)
    (hs : Received .udt tun.srv.child.log) (h90 : (udtIn tun.cli.child.log)[1]? = some 90) :
    UdtGate.Connected gs dst tun.srv.child.log := by
  obtain ⟨req, hg⟩ := Tunnel.granted_of_got h h90
  obtain ⟨hparsed, -, -⟩ := Tunnel.parsed_by_client h hg.parsed hs
  obtain ⟨uid, huid, -, hpre⟩ := Tunnel.parsed_by_app h hparsed hc
  have hwhole : tun.appSent <+: (connectRequest dst.port dst.addr).bytes ++ [] ++ 0 :: [] := by
    rw [List.append_nil]
    exact happ
  obtain ⟨rfl, -, -⟩ := request_prefix_inj huid nulFree_nil (hpre.trans hwhole)
  exact hg.connected

/-- a request that was received whole is the application's, and its command is 1 -/
theorem goodCommand_of_received {gc gs : Globals} {ok : Prop} {tun u : Tunnel} {w : Thread} {a : Ans}
    (h : Tunnel.Inv gs ok tun) {dst : SockAddrIn}
    (happ : tun.appSent <+: (connectRequest dst.port dst.addr).bytes ++ [0])
    (hs : tun.step gc gs (.cli w a) = some u) (hr : Received .tcp (tun.cli.entry gc w a)) :
    tun.GoodCommand (.cli w a) := by
  cases w with
  | child =>
    rintro ⟨hpc, -, hcd⟩
    rcases Tunnel.step_cases hs with ⟨bs, hl, -⟩ | ⟨w, b, r, hl, hstep, htcp, -, -⟩ | ⟨w, b, r, hl, -⟩
    · cases hl
    · cases hl
      have hcall : StartChild.call gc tun.cli.child.st = some (.recv tun.cli.child.st.cargs.tcpsock 8 true) := by
        simp [StartChild.call, hpc, StartChild.cliCall]
      have hin : tcpIn r.child.log = a.data := by
        have hnil : tcpIn tun.cli.child.log = [] := by
          have hcli := h.cli
          simp only [Client.Inv, hpc] at hcli
          exact hcli.2.2
        rw [Relay.log_step hstep, tcpIn_append, hnil]
        simp [Relay.entry, hcall, tcpIn]
      have h8 : a.data.length = 8 := by
        rcases Relay.step_cases hstep with ⟨c, -, hc, hok, -⟩ | ⟨l, x, hw, -⟩
        · obtain rfl := Option.some.inj (hcall.symm.trans hc)
          simp only [Relay.entry, hcall, Option.toList_some, List.map_cons, List.map_nil] at hr
          exact length_of_waitall hok (received_singleton.1 hr)
        · exact absurd rfl hw
      -- the eight bytes are the first that the application sent
      have hpre : a.data <+: (connectRequest dst.port dst.addr).bytes ++ [0] := by
        rw [← hin]
        exact (List.prefix_append _ _).trans (htcp.trans happ)
      have hdata : a.data = (connectRequest dst.port dst.addr).bytes := by
        have hp := List.prefix_of_prefix_length_le hpre (List.prefix_append _ _) (by rw [h8, SockPkt.length_bytes])
        exact hp.eq_of_length (by rw [h8, SockPkt.length_bytes])
      apply hcd
      rw [SockPkt.bytes_injective ((Client.bytes_of_whole h8).trans hdata)]
      rfl
    · cases hl
  | sock2peer => exact trivial
  | peer2sock => exact trivial

theorem step_inv {gc gs : Globals} {dst : SockAddrIn} (s : Socksified) (l : Label) (t : Socksified)
    (h : Inv gs dst s) (hs : step gc gs s l = some t) : Inv gs dst t := by
  have hsent : s.tun.appSent <+: (connectRequest dst.port dst.addr).bytes ++ [0] := by
    rw [h.sent]
    exact Minisocks.sent h.app
  rcases step_cases hs with ⟨c, a, k, rfl, hc, hk, hok, hpre, rfl⟩ | ⟨w, a, k, u, rfl, hk, hu, rfl⟩ |
    ⟨w, a, k, u, rfl, hk, hu, rfl⟩
  · -- a step of the application
    obtain ⟨htcp, -, htcp', hudt'⟩ := Links.pass_cases hk
    have hstep : s.tun.step gc gs (.appSend (tcpOut [(c, a)])) =
        some { s.tun with appSent := s.tun.appSent ++ tcpOut [(c, a)] } := rfl
    have htun : Tunnel.Inv gs (k.tcp = true) { s.tun with appSent := s.tun.appSent ++ tcpOut [(c, a)] } :=
      (Tunnel.step_inv _ (.appSend _) _ h.tunnel (fun _ => trivial) hstep).mono fun hup => (htcp' hup).1
    refine ⟨Minisocks.step_inv h.app hc hok, ?_, htun, ?_, ?_, ?_, ?_⟩
    · rw [tcpOut_append, h.sent]
    · intro hup
      exact h.tcp (htcp' hup).1
    · intro hup
      exact h.udt (hudt' hup).1
    · intro hup
      exact h.reply (htcp' hup).1
    · intro h90
      by_cases hin : tcpIn [(c, a)] = []
      · rw [tcpIn_append, hin, List.append_nil] at h90
        exact h.heard h90
      · -- the link was up, and so the client had not answered by itself
        exact h.reply (htcp hin) (Tunnel.got_of_told h.tunnel (htcp hin) (Tunnel.getElem?_of_front hpre h90))
  · -- a step of the client
    obtain ⟨-, hudt, htcp', hudt'⟩ := Links.pass_cases hk
    have htun : Tunnel.Inv gs (k.tcp = true) u :=
      Tunnel.step_inv s.tun _ u (h.tunnel.mono fun hup => (htcp' hup).1)
        (fun hup => goodCommand_of_received h.tunnel hsent hu (htcp' hup).2) hu
    rcases Tunnel.step_cases hu with ⟨bs, hl, -⟩ | ⟨w', a', r, hl, hr, -, -, rfl⟩ | ⟨w', a', r, hl, -⟩
    · cases hl
    · cases hl
      have hlog := Relay.log_step hr
      have hrec : k.tcp = true → Received .tcp r.child.log := by
        intro hup
        rw [hlog]
        exact received_append.2 ⟨h.tcp (htcp' hup).1, (htcp' hup).2⟩
      refine ⟨h.app, h.sent, htun, hrec, ?_, ?_, h.heard⟩
      · intro hup
        exact h.udt (hudt' hup).1
      · intro hup h90
        by_cases hin : udtIn (s.tun.cli.entry gc w a) = []
        · apply h.reply (htcp' hup).1
          rwa [hlog, udtIn_append, hin, List.append_nil] at h90
        · -- the reply comes over a link that was up
          exact connected_of_got htun hsent (hrec hup) (h.udt (hudt hin)) h90
    · cases hl
  · -- a step of the server
    obtain ⟨-, -, htcp', hudt'⟩ := Links.pass_cases hk
    have htun : Tunnel.Inv gs (k.tcp = true) u :=
      Tunnel.step_inv s.tun (.srv w a) u (h.tunnel.mono fun hup => (htcp' hup).1) (fun _ => trivial) hu
    rcases Tunnel.step_cases hu with ⟨bs, hl, -⟩ | ⟨w', a', r, hl, -⟩ | ⟨w', a', r, hl, hr, -, rfl⟩
    · cases hl
    · cases hl
    · cases hl
      have hlog := Relay.log_step hr
      have hmore : UdtGate.Connected gs dst s.tun.srv.child.log → UdtGate.Connected gs dst r.child.log := by
        intro hconn
        rw [hlog]
        exact hconn.append _
      refine ⟨h.app, h.sent, htun, ?_, ?_, ?_, ?_⟩
      · intro hup
        exact h.tcp (htcp' hup).1
      · intro hup
        rw [hlog]
        exact received_append.2 ⟨h.udt (hudt' hup).1, (hudt' hup).2⟩
      · intro hup h90
        exact hmore (h.reply (htcp' hup).1 h90)
      · intro h90
        exact hmore (h.heard h90)

/-! ## Main result -/

/-- **A socksified connect is sound.** Whenever the `connect` of `minisocks` for `dst` has returned 0, the server has
tried a connect to exactly `dst`, it succeeded, and the access check of the settings `gs` let it pass before, unless
there is none. -/
theorem connect_sound {gc gs : Globals} {dst : SockAddrIn} {s : Socksified} (h : (system gc gs dst).Reachable s)
    (hret : s.app.st.pc = .returned 0) : UdtGate.Connected gs dst s.tun.srv.child.log := by
  have hinv := System.reachable_inv (Inv gs dst) (fun _ => inv_init) step_inv h
  apply hinv.heard
  have happ := hinv.app
  simp only [Minisocks.Inv, hret] at happ
  exact happ.2 trivial

/-- 10.0.0.5, port 80 -/
def someDst : SockAddrIn := ⟨⟨[0, 80], rfl⟩, ⟨[10, 0, 0, 5], rfl⟩⟩

def freshConnect : Socksified where
  app := ⟨Minisocks.start 3 (.in4 someDst) (some Tunnel.openGate.peeraddr)
    ⟨.connecting, 0, someDst, connectRequest someDst.port someDst.addr, 0⟩, []⟩
  tun := Tunnel.fresh
  links := ⟨true, true⟩

/-- the request goes through, in pieces, and so does the reply -/
def connecting : List Label :=
  [.app { rc := 0 }, .app { rc := 9 }, .cli .child { rc := 0 }, .cli .child { rc := 7 },
    .cli .child { rc := 8, data := [4, 1, 0, 80, 10, 0, 0, 5] }, .cli .child { rc := 1, data := [0] },
    .cli .child { rc := 0 }, .cli .child { rc := 0 }, .cli .child { rc := 0 }, .cli .child { rc := 8 },
    .cli .child { rc := 1 }, .srv .child { rc := 0 }, .srv .child { rc := 4 },
    .srv .child { rc := 3, data := [4, 1, 0] }, .srv .child { rc := 5, data := [80, 10, 0, 0, 5] },
    .srv .child { rc := 1, data := [0] }, .srv .child { rc := 0 }, .srv .child { rc := 8 },
    .cli .child { rc := 8, data := [4, 90, 0, 80, 10, 0, 0, 5] }, .cli .child { rc := 8 },
    .app { rc := 8, data := [4, 90, 0, 80, 10, 0, 0, 5] }]

theorem connect_sound_granted :
    ∃ s, (system Tunnel.openGate Tunnel.openGate someDst).exec freshConnect connecting = some s ∧
      s.app.st.pc = .returned 0 ∧ UdtGate.Connected Tunnel.openGate someDst s.tun.srv.child.log := by
  obtain ⟨s, hs, hret⟩ : ∃ s,
      (system Tunnel.openGate Tunnel.openGate someDst).exec freshConnect connecting = some s ∧
      s.app.st.pc = .returned 0 := System.exec_of_any (by decide)
  exact ⟨s, hs, hret, connect_sound ⟨_, _, ⟨_, _, _, _, Tunnel.init_fresh, rfl⟩, hs⟩ hret⟩

end Socksified

end UdtGate
