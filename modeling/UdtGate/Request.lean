/-
The request on its way through the tunnel.

The application sends a connect request, a user id, a zero byte, and then the payload. The client's parser reads the
first three and sends the request with a zero byte of its own; the server's parser reads these nine bytes. Both read in
pieces of any size.

- `request_prefix_inj`: a stream of this form has one division into request, user id and payload;
- `Client.decided_step`, `Server.decided_step`: a parser that is through has parsed a request, or refused a packet with
  a wrong version or command;
- `request_tunnelled`: the server connects to the destination in the request and nowhere else, each parser is through as
  soon as it has received the bytes up to its boundary, and the data threads take the payload from its first byte on.
-/
import UdtGate.Tunnel

namespace UdtGate

open UdtGate.Core

/-- the request 04 01 port ip -/
def connectRequest (port : Bytes 2) (ip : Bytes 4) : SockPkt := ⟨4, 1, port, ip⟩

@[simp] theorem bytes_connectRequest (port : Bytes 2) (ip : Bytes 4) :
    (connectRequest port ip).bytes = 4 :: 1 :: (port.1 ++ ip.1) := rfl

/-- **One division.** A request, a user id and more bytes in front of such a stream are its own. -/
theorem request_prefix_inj {q req : SockPkt} {v uid rest payload : List UInt8} (hv : NulFree v) (huid : NulFree uid)
    (h : q.bytes ++ v ++ [0] ++ rest <+: req.bytes ++ uid ++ 0 :: payload) :
    q = req ∧ v = uid ∧ rest <+: payload := by
  obtain ⟨more, hmore⟩ := h
  simp only [List.append_assoc, List.singleton_append] at hmore
  have hlen : q.bytes.length = req.bytes.length := by rw [SockPkt.length_bytes, SockPkt.length_bytes]
  obtain ⟨hq, htail⟩ := List.append_inj hmore hlen
  obtain ⟨hvu, hrest⟩ := nulFree_append_inj hv huid (show v ++ 0 :: (rest ++ more) = uid ++ 0 :: payload from htail)
  exact ⟨SockPkt.bytes_injective hq, hvu, more, hrest⟩

/-! ## The parsers end -/

/-- the client has still to receive bytes of the request or its user id -/
def Client.Parsing (s : StartChild) : Prop :=
  match s.pc with
  | .client .peername | .client .socket | .client .request | .client .userId => True
  | _ => False

/-- the server has still to receive bytes of the request or its user id -/
def Server.Parsing (s : StartChild) : Prop :=
  match s.pc with
  | .server .peername | .server .socket | .server (.header _) | .server .userId => True
  | _ => False

theorem Client.parsing_cases {ok : Prop} {s : StartChild} {l : Log} (h : Inv ok s l) (hp : Parsing s) :
    tcpIn l = [] ∨ Scanning .tcp s.spkt l := by
  obtain ⟨pc, sd, spkt, ch, k⟩ := s
  cases pc with
  | client pc =>
    cases pc with
    | peername => exact Or.inl h.2.2
    | socket => exact Or.inl h.2.2
    | request => exact Or.inl h.2.2
    | userId => exact Or.inr h.2.2
    | _ => exact hp.elim
  | _ => exact hp.elim

theorem Server.parsing_cases {g : Globals} {s : StartChild} {l : Log} (h : Inv g s l) (hp : Parsing s)
    (hr : Received .udt l) : (udtIn l).length < 8 ∨ Scanning .udt s.spkt l := by
  obtain ⟨pc, sd, spkt, ch, k⟩ := s
  cases pc with
  | server pc =>
    obtain ⟨-, -, h⟩ := h
    cases pc with
    | peername => exact Or.inl (by rw [h.2]; decide)
    | socket => exact Or.inl (by rw [h.2]; decide)
    | header p =>
      obtain ⟨-, hlt, hrecv⟩ := h
      obtain ⟨-, hlen, -⟩ := hrecv hr
      exact Or.inl (by omega)
    | userId => exact Or.inr h.2
    | _ => exact hp.elim
  | _ => exact hp.elim

open StartChild in
theorem Client.decided_step {g : Globals} {ok : Prop} {s : StartChild} {l : Log} {c : Call} {a : Ans}
    (h : Inv ok s l) (hd : ¬ Parsing s → Decided .tcp l) (hc : call g s = some c) (hok : permitted c a = true)
    (hn : ¬ Parsing (resume g s a)) : Decided .tcp (l ++ [(c, a)]) := by
  have hnext := step_inv (h.mono False.elim) False.elim hc hok
  obtain ⟨pc, sd, spkt, ch, k⟩ := s
  cases pc with
  | server pc => exact h.elim
  | client pc =>
    simp only [call, Option.some.injEq] at hc
    subst hc
    cases pc with
    | peername => exact absurd trivial hn
    | socket => exact absurd trivial hn
    | request =>
      intro hr
      have h8 := length_of_waitall hok (received_singleton.1 (received_append.1 hr).2)
      have hin : bytesIn .tcp (l ++ [(cliCall g ⟨.client .request, sd, spkt, ch, k⟩ .request, a)]) =
          (spkt.recvAt 0 a.data).bytes := by
        obtain ⟨-, -, htcp⟩ := h
        rw [bytes_of_whole h8, bytesIn_append, bytesIn, htcp]
        simp [bytesIn, tcpIn, cliCall]
      simp only [resume, cliResume, request] at hn
      split_ifs at hn with hv hcd
      · exact Or.inr ⟨_, Or.inl hv, hin⟩
      · exact Or.inr ⟨_, Or.inr hcd, hin⟩
      · exact absurd trivial hn
    | userId =>
      simp only [resume, cliResume, userId] at hn hnext
      split_ifs at hn hnext
      · exact absurd trivial hn
      · intro _
        exact Or.inl ⟨_, hnext.2.2⟩
    | _ => exact (hd id).snoc rfl
  | createWorkers | joinWorkers | closeUdt | closeTcp => cases hc; exact (hd id).snoc rfl
  | _ => cases hc

open StartChild in
theorem Server.decided_step {g : Globals} {s : StartChild} {l : Log} {c : Call} {a : Ans} (h : Inv g s l)
    (hd : ¬ Parsing s → Decided .udt l) (hc : call g s = some c) (hok : permitted c a = true)
    (hn : ¬ Parsing (resume g s a)) : Decided .udt (l ++ [(c, a)]) := by
  have hnext := step_inv h hc hok
  obtain ⟨pc, sd, spkt, ch, k⟩ := s
  cases pc with
  | client pc => exact h.elim
  | server pc =>
    simp only [call, Option.some.injEq] at hc
    subst hc
    cases pc with
    | peername => exact absurd trivial hn
    | socket => exact absurd trivial hn
    | header p =>
      obtain ⟨-, -, -, hp, hrecv⟩ := h
      intro hr
      obtain ⟨-, h8, hlen, htake⟩ := header_recv hp hok hrecv hr
      obtain ⟨h0, -⟩ := hrecv (received_append.1 hr).1
      simp only [resume, srvResume, header] at hn
      split_ifs at hn with hneg hlt hv hcd
      · omega
      · exact absurd trivial hn
      all_goals
        have hin : bytesIn .udt (l ++ [(srvCall ⟨.server (.header p), sd, spkt, ch, k⟩ (.header p), a)]) =
            (spkt.recvAt p.toNat a.data).bytes := by
          rw [List.take_of_length_le (by rw [SockPkt.length_bytes]; omega)] at htake
          exact htake.symm
      · exact Or.inr ⟨_, Or.inl hv, hin⟩
      · exact Or.inr ⟨_, Or.inr hcd, hin⟩
      · exact absurd trivial hn
    | userId =>
      simp only [resume, srvResume, userId] at hn hnext
      split_ifs at hn hnext
      · exact absurd trivial hn
      · intro _
        exact Or.inl ⟨_, hnext.2.2.2⟩
      · intro _
        exact Or.inl ⟨_, hnext.2.2.2.1⟩
    | _ => exact (hd id).snoc rfl
  | createWorkers | joinWorkers | closeUdt | closeTcp => cases hc; exact (hd id).snoc rfl
  | _ => cases hc

/-! ## Fronts of the two streams -/

/-- a packet and a part of a user id that come from the application are its own -/
theorem scanning_prefix {q req : SockPkt} {v uid payload : List UInt8} (hv : NulFree v)
    (h : q.bytes ++ v <+: req.bytes ++ uid ++ 0 :: payload) : q = req ∧ v.length ≤ uid.length := by
  obtain ⟨more, hmore⟩ := h
  simp only [List.append_assoc] at hmore
  obtain ⟨hq, htail⟩ := List.append_inj hmore (by rw [SockPkt.length_bytes, SockPkt.length_bytes])
  refine ⟨SockPkt.bytes_injective hq, ?_⟩
  -- a longer part would reach the zero byte
  by_contra hlt
  have hz : v[uid.length]? = some 0 := by
    have hget := congrArg (fun l => l[uid.length]?) htail
    simp only [List.getElem?_append_left (not_le.1 hlt)] at hget
    rw [hget]
    simp
  exact hv 0 (List.mem_of_getElem? hz) rfl

/-- a packet that comes from the client, which may have sent only a part of the request and of the zero byte -/
theorem packet_of_forwarded {q req : SockPkt} {k j : ℕ} (h : q.bytes <+: req.bytes.take k ++ [0].take j) :
    q.vn = req.vn ∧ q.cd = req.cd := by
  have hlen := h.length_le
  simp only [List.length_append, List.length_take, SockPkt.length_bytes, List.length_singleton] at hlen
  obtain ⟨more, hmore⟩ := h
  have htwo := congrArg (List.take 2) hmore
  rw [List.take_append_of_le_length (by rw [SockPkt.length_bytes]; omega),
    List.take_append_of_le_length (by rw [List.length_take, SockPkt.length_bytes]; omega), List.take_take,
    min_eq_left (by omega)] at htwo
  simpa [SockPkt.bytes] using htwo

/-- the ninth byte from the client is zero -/
theorem scanning_of_forwarded {q req : SockPkt} {v : List UInt8} {k j : ℕ} (hv : NulFree v)
    (h : q.bytes ++ v <+: req.bytes.take k ++ [0].take j) : v = [] := by
  have hlen := h.length_le
  simp only [List.length_append, List.length_take, SockPkt.length_bytes, List.length_singleton] at hlen
  by_contra hne
  have hpos := List.length_pos_iff.2 hne
  have heq := h.eq_of_length (by
    simp only [List.length_append, List.length_take, SockPkt.length_bytes, List.length_singleton]
    omega)
  obtain ⟨-, htail⟩ := List.append_inj heq (by
    simp only [List.length_take, SockPkt.length_bytes]
    omega)
  have hj : [(0 : UInt8)].take j = [0] := List.take_of_length_le (by rw [List.length_singleton]; omega)
  rw [hj] at htail
  exact hv 0 (by rw [htail]; exact List.mem_cons_self) rfl

/-! ## Main result -/

namespace Tunnel

/-- each parser that is through has parsed a request or refused a packet -/
structure Parsers (s : Tunnel) : Prop where
  cli : ¬ Client.Parsing s.cli.child.st → Decided .tcp s.cli.child.log
  srv : ¬ Server.Parsing s.srv.child.st → Decided .udt s.srv.child.log

theorem parsers_step {gc gs : Globals} {ok : Prop} {s t : Tunnel} {l : Label} (h : Inv gs ok s) (hp : Parsers s)
    (hs : step gc gs s l = some t) : Parsers t := by
  rcases step_cases hs with ⟨bs, rfl, rfl⟩ | ⟨w, a, r, rfl, hr, -, -, rfl⟩ | ⟨w, a, r, rfl, hr, -, rfl⟩
  · exact ⟨hp.cli, hp.srv⟩
  · refine ⟨?_, hp.srv⟩
    rcases Relay.step_cases hr with ⟨c, rfl, hc, hok, rfl⟩ | ⟨m, x, -, -, rfl⟩
    · exact Client.decided_step h.cli hp.cli hc hok
    · exact hp.cli
  · refine ⟨hp.cli, ?_⟩
    rcases Relay.step_cases hr with ⟨c, rfl, hc, hok, rfl⟩ | ⟨m, x, -, -, rfl⟩
    · exact Server.decided_step h.srv hp.srv hc hok
    · exact hp.srv

theorem run_parsers {gc gs : Globals} {s t : Tunnel} {ls : List Label} (h0 : Init s)
    (h : (system gc gs).exec s ls = some t) : Parsers t := by
  have hstep : ∀ s l t, Inv gs False s ∧ Parsers s → step gc gs s l = some t → Inv gs False t ∧ Parsers t := by
    intro s l t hi hs
    exact ⟨step_inv s l t hi.1 False.elim hs, parsers_step hi.1 hi.2 hs⟩
  have hstart : Parsers s := by
    obtain ⟨sdc, sds, pc, ps, cc, cs, kc, ks, -, -, rfl⟩ := h0
    exact ⟨fun hn => absurd trivial hn, fun hn => absurd trivial hn⟩
  exact (System.exec_inv (fun s => Inv gs False s ∧ Parsers s) hstep h ⟨inv_init h0, hstart⟩).2

/-- what the client's data threads took from the application comes after the request -/
theorem data_of_app {gs : Globals} {ok : Prop} {s : Tunnel} (h : Inv gs ok s) {req : SockPkt}
    {uid payload : List UInt8} (huid : NulFree uid) (happ : s.appSent <+: req.bytes ++ uid ++ 0 :: payload)
    (hc : Received .tcp s.cli.child.log) : tcpIn s.cli.work.log <+: payload := by
  have hidle : NotStarted s.cli.child.log → tcpIn s.cli.work.log <+: payload := by
    intro hns
    rw [h.cliRelay.idle hns]
    exact List.nil_prefix
  rcases Client.outcome h.cli with ⟨-, hns⟩ | ⟨-, hns⟩ | ⟨q, p, hr, -, -⟩
  · exact hidle hns
  · exact hidle hns
  · obtain ⟨v, hv, -, hpre⟩ := parsed_by_app h hr.parsed hc
    exact (request_prefix_inj hv huid (hpre.trans happ)).2.2

/-- the client's parser has received less than the request, the user id and the zero byte, or exactly these -/
theorem client_boundary {gs : Globals} {ok : Prop} {s : Tunnel} (h : Inv gs ok s) (hp : Parsers s) {req : SockPkt}
    (hvn : req.vn = 4) (hcd : req.cd = 1) {uid payload : List UInt8} (huid : NulFree uid)
    (happ : s.appSent <+: req.bytes ++ uid ++ 0 :: payload) (hc : Received .tcp s.cli.child.log) :
    (Client.Parsing s.cli.child.st ∧ (tcpIn s.cli.child.log).length < 9 + uid.length) ∨
      (¬ Client.Parsing s.cli.child.st ∧ tcpIn s.cli.child.log = req.bytes ++ uid ++ [0]) := by
  have hfront : tcpIn s.cli.child.log <+: req.bytes ++ uid ++ 0 :: payload :=
    (List.prefix_append _ _).trans (h.tcp.trans happ)
  by_cases hpar : Client.Parsing s.cli.child.st
  · refine Or.inl ⟨hpar, ?_⟩
    rcases Client.parsing_cases h.cli hpar with hnil | hscan
    · rw [hnil]
      simp
    · obtain ⟨v, hv, hin⟩ := hscan.bytes hc
      have hin' : tcpIn s.cli.child.log = s.cli.child.st.spkt.bytes ++ v := hin
      rw [hin'] at hfront
      obtain ⟨-, hle⟩ := scanning_prefix hv hfront
      rw [hin', List.length_append, SockPkt.length_bytes]
      omega
  · refine Or.inr ⟨hpar, ?_⟩
    rcases hp.cli hpar hc with ⟨q, hq⟩ | ⟨q, hbad, hin⟩
    · obtain ⟨v, hv, hin, hpre⟩ := parsed_by_app h hq hc
      obtain ⟨rfl, rfl, -⟩ := request_prefix_inj hv huid (hpre.trans happ)
      exact hin
    · have hin' : tcpIn s.cli.child.log = q.bytes ++ [] := by rw [List.append_nil]; exact hin
      rw [hin'] at hfront
      obtain ⟨rfl, -⟩ := scanning_prefix nulFree_nil hfront
      exact absurd hbad (by simp [hvn, hcd])

/-- the server's parser has received less than the request and the zero byte, or exactly these -/
theorem server_boundary {gs : Globals} {ok : Prop} {s : Tunnel} (h : Inv gs ok s) (hp : Parsers s) {req : SockPkt}
    (hvn : req.vn = 4) (hcd : req.cd = 1) (hcli : ∀ q, Parsed .tcp q s.cli.child.log → q = req)
    (hs : Received .udt s.srv.child.log) :
    (Server.Parsing s.srv.child.st ∧ (udtIn s.srv.child.log).length < 9) ∨
      (¬ Server.Parsing s.srv.child.st ∧ udtIn s.srv.child.log = req.bytes ++ [0]) := by
  have hfront : ∃ k j, udtIn s.srv.child.log <+: req.bytes.take k ++ [0].take j := by
    rcases Client.forwarded h.cli with hnil | ⟨q, hq, k, j, hout⟩
    · have hreq := h.request
      rw [hnil] at hreq
      exact ⟨0, 0, hreq⟩
    · obtain rfl := hcli q hq
      exact ⟨k, j, hout ▸ h.request⟩
  obtain ⟨k, j, hfront⟩ := hfront
  by_cases hpar : Server.Parsing s.srv.child.st
  · refine Or.inl ⟨hpar, ?_⟩
    rcases Server.parsing_cases h.srv hpar hs with hlt | hscan
    · exact hlt.trans (by decide)
    · obtain ⟨v, hv, hin⟩ := hscan.bytes hs
      have hin' : udtIn s.srv.child.log = s.srv.child.st.spkt.bytes ++ v := hin
      rw [hin'] at hfront
      rw [hin', scanning_of_forwarded hv hfront, List.append_nil, SockPkt.length_bytes]
      decide
  · refine Or.inr ⟨hpar, ?_⟩
    rcases hp.srv hpar hs with ⟨q, hq⟩ | ⟨q, hbad, hin⟩
    · obtain ⟨hq', hin, -⟩ := parsed_by_client h hq hs
      obtain rfl := hcli q hq'
      exact hin
    · have hin' : udtIn s.srv.child.log = q.bytes := hin
      rw [hin'] at hfront
      obtain ⟨h4, h1⟩ := packet_of_forwarded hfront
      exact absurd hbad (by simp [h4, h1, hvn, hcd])

/-- **The request is tunnelled.** The application sends 04 01 port ip, a user id without zero bytes, a zero byte and the
payload, or a front of that so far. In every run in which no receive of a handshake failed: every connect of the server
is to that port and address, and so is its access check; the client's parser is at work as long as it has not received
the request, the user id and the zero byte, then it is through and has received exactly these; likewise the server's
parser with the request and one zero byte; and what the data threads of either relay take is a front of the payload. -/
theorem request_tunnelled {gc gs : Globals} {s0 s : Tunnel} {ls : List Label} (h0 : Init s0)
    (h : (system gc gs).exec s0 ls = some s) {port : Bytes 2} {ip : Bytes 4} {uid payload : List UInt8}
    (huid : NulFree uid) (happ : s.appSent <+: 4 :: 1 :: (port.1 ++ ip.1) ++ uid ++ 0 :: payload)
    (hc : Received .tcp s.cli.child.log) (hs : Received .udt s.srv.child.log) :
    (∀ e ∈ s.srv.child.log, ∀ sd dst, e.1 = .connect sd dst → dst = ⟨port, ip⟩) ∧
    (s.srv.child.st.pc = .server .check ∨ s.srv.child.st.pc = .server .connect →
      s.srv.child.st.spkt.dst = ⟨port, ip⟩) ∧
    ((Client.Parsing s.cli.child.st ∧ (tcpIn s.cli.child.log).length < 9 + uid.length) ∨
      (¬ Client.Parsing s.cli.child.st ∧ tcpIn s.cli.child.log = 4 :: 1 :: (port.1 ++ ip.1) ++ uid ++ [0])) ∧
    ((Server.Parsing s.srv.child.st ∧ (udtIn s.srv.child.log).length < 9) ∨
      (¬ Server.Parsing s.srv.child.st ∧ udtIn s.srv.child.log = 4 :: 1 :: (port.1 ++ ip.1) ++ [0])) ∧
    tcpIn s.cli.work.log <+: payload ∧ udtIn s.srv.work.log <+: payload := by
  have hinv := run_inv h0 h
  have hpars := run_parsers h0 h
  rw [← bytes_connectRequest] at happ ⊢
  -- a request parsed on either side is the application's
  have hcli : ∀ q, Parsed .tcp q s.cli.child.log → q = connectRequest port ip := by
    intro q hq
    obtain ⟨v, hv, -, hpre⟩ := parsed_by_app hinv hq hc
    exact (request_prefix_inj hv huid (hpre.trans happ)).1
  have hsrv : ∀ q, Parsed .udt q s.srv.child.log → q = connectRequest port ip := by
    intro q hq
    obtain ⟨hq', -, -⟩ := parsed_by_client hinv hq hs
    exact hcli q hq'
  obtain ⟨hdials, hcases⟩ := Server.outcome hinv.srv
  have hdata := data_of_app hinv huid happ hc
  refine ⟨?_, ?_, client_boundary hinv hpars rfl rfl huid happ hc, server_boundary hinv hpars rfl rfl hcli hs, hdata,
    ?_⟩
  · intro e he sd dst hd
    obtain ⟨q, hq, rfl⟩ := hdials e he sd dst hd
    rw [hsrv q hq]
    rfl
  · intro hpc
    have hparsed : Parsed .udt s.srv.child.st.spkt s.srv.child.log := by
      have hsi := hinv.srv
      unfold Server.Inv at hsi
      rcases hpc with hpc | hpc
      · simp only [hpc] at hsi
        exact hsi.2.2.2
      · simp only [hpc] at hsi
        exact hsi.2.2.2.1
    rw [hsrv _ hparsed]
    rfl
  · have hidle : NotStarted s.srv.child.log → udtIn s.srv.work.log <+: payload := by
      intro hns
      rw [hinv.srvRelay.idle hns]
      exact List.nil_prefix
    rcases hcases with ⟨-, hns⟩ | ⟨-, hns⟩ | ⟨q, hg⟩
    · exact hidle hns
    · exact hidle hns
    · -- the nine bytes of the handshake are the same on both ends, so the rest is data on both ends
      obtain ⟨-, hin, hout⟩ := parsed_by_client hinv hg.parsed hs
      have hto := hinv.toSrv
      rw [Relay.fromUdt, Relay.toUdt, hin, hout, List.prefix_append_right_inj] at hto
      exact hto.trans (hinv.cliRelay.data.1.trans hdata)

/-- the request comes with the user id 98 and a payload of two bytes; it is granted, and the first byte of the payload
goes up to the data thread of the server -/
def tunnelling : List Label :=
  [.cli .child { rc := 0 }, .cli .child { rc := 7 }, .appSend [4, 1, 0, 80, 10, 0, 0, 5, 98, 0, 1, 2],
    .cli .child { rc := 8, data := [4, 1, 0, 80, 10, 0, 0, 5] }, .cli .child { rc := 1, data := [98] },
    .cli .child { rc := 1, data := [0] }, .cli .child { rc := 0 }, .cli .child { rc := 0 }, .cli .child { rc := 0 },
    .cli .child { rc := 8 }, .cli .child { rc := 1 }] ++ granting ++
    [.cli .child { rc := 8, data := [4, 90, 0, 80, 10, 0, 0, 5] }, .cli .child { rc := 8 }, .cli .child { rc := 0 },
      .srv .child { rc := 0 }, .cli .sock2peer { rc := 0 }, .cli .sock2peer { rc := 1 },
      .cli .sock2peer { rc := 1, data := [1] }, .cli .sock2peer { rc := 1 }, .srv .peer2sock { rc := 0 },
      .srv .peer2sock { rc := 0 }, .srv .peer2sock { rc := 1, data := [1] }]

theorem request_tunnelled_granted :
    ∃ s, (system openGate openGate).exec fresh tunnelling = some s ∧
      tcpIn s.cli.child.log = [4, 1, 0, 80, 10, 0, 0, 5, 98, 0] ∧
      udtIn s.srv.child.log = [4, 1, 0, 80, 10, 0, 0, 5, 0] ∧ udtIn s.srv.work.log = [1] ∧
      udtIn s.srv.work.log <+: [1, 2] := by
  obtain ⟨s, hs, happ, hc, hr, hpc, hpc', hone⟩ : ∃ s, (system openGate openGate).exec fresh tunnelling = some s ∧
      s.appSent = [4, 1, 0, 80, 10, 0, 0, 5, 98, 0, 1, 2] ∧ Received .tcp s.cli.child.log ∧
        Received .udt s.srv.child.log ∧ s.cli.child.st.pc = .joinWorkers ∧ s.srv.child.st.pc = .joinWorkers ∧
          udtIn s.srv.work.log = [1] := System.exec_of_any (by decide)
  have huid : NulFree [98] := nulFree_nil.snoc (by decide)
  obtain ⟨-, -, hcli, hsrv, -, hdata⟩ := @request_tunnelled openGate openGate fresh s _ init_fresh hs ⟨[0, 80], rfl⟩
    ⟨[10, 0, 0, 5], rfl⟩ [98] [1, 2] huid (by rw [happ]; exact List.prefix_refl _) hc hr
  refine ⟨s, hs, ?_, ?_, hone, hdata⟩
  · rcases hcli with ⟨hpar, -⟩ | ⟨-, hin⟩
    · simp [Client.Parsing, hpc] at hpar
    · exact hin
  · rcases hsrv with ⟨hpar, -⟩ | ⟨-, hin⟩
    · simp [Server.Parsing, hpc'] at hpar
    · exact hin

end Tunnel

end UdtGate
