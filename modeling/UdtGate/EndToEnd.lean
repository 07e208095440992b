/-
The tunnel from end to end: the application on one side, the destination on the other, and an ideal proxy in between.

What the two ends see of a `Tunnel` are four streams: what the application and the destination have sent, and what has
been handed to each of them. `Shows s x` says that the `Proxy` `x` has the same streams.

The handshake of a relay calls each receive and each send of a packet once and takes what it gets, so the tunnel is a
proxy only where these calls are `Whole`; and the client grants a wrong command by itself.

- `Serves`: the request the server has parsed is what the client has received in front of its data;
- `refines`: a step of the tunnel that keeps to this is a run of the proxy;
- `tunnel_refines_proxy`: so is every such run of the tunnel, and the proxy is connected for the request the server has
  parsed exactly when the server's connect to its destination succeeded.
-/
import UdtGate.Request
import UdtGate.Reply
import UdtGate.Proxy
import UdtGate.Core.Refinement

namespace UdtGate

open UdtGate.Core

/-! ## Whole handshakes -/

/-- if it is a send, it took all of its bytes -/
def tookAll (e : Call × Ans) : Bool :=
  match e.1 with
  | .send _ buf | .udtSend _ buf => e.2.rc = buf.length
  | _ => true

def SentWhole (l : Log) : Prop := ∀ e ∈ l, tookAll e = true

instance (l : Log) : Decidable (SentWhole l) := inferInstanceAs (Decidable (∀ e ∈ l, _))

theorem sentWhole_of_append {l m : Log} (h : SentWhole (l ++ m)) : SentWhole l :=
  fun e he => h e (List.mem_append_left _ he)

theorem unsplit_of_append {l m : Log} (h : Unsplit (l ++ m)) : Unsplit l := fun e he => h e (List.mem_append_left _ he)

/-- a packet that was sent went out whole -/
theorem bytes_of_sent {l : Log} (h : SentWhole l) {sd : ℤ} {p : SockPkt} {a : Ans}
    (hm : (Call.send sd p.bytes, a) ∈ l ∨ (Call.udtSend sd p.bytes, a) ∈ l) : p.bytes.take a.rc.toNat = p.bytes := by
  have hrc : a.rc = p.bytes.length := by
    rcases hm with hm | hm
    · exact of_decide_eq_true (h _ hm)
    · exact of_decide_eq_true (h _ hm)
  rw [hrc, Int.toNat_natCast, List.take_length]

/-! ## What the server does on its TCP socket -/

/-- the server's handshake moves no bytes on its TCP socket -/
theorem Server.call_frame {gs g : Globals} {s : StartChild} {l : Log} {c : Call} (a : Ans) (h : Server.Inv gs s l)
    (hc : StartChild.call g s = some c) : tcpIn [(c, a)] = [] ∧ tcpOut [(c, a)] = [] := by
  obtain ⟨pc, sd, spkt, ch, k⟩ := s
  cases pc with
  | client pc => exact h.elim
  | server pc =>
    simp only [StartChild.call, Option.some.injEq] at hc
    subst hc
    cases pc <;> exact ⟨rfl, rfl⟩
  | createWorkers | joinWorkers | closeUdt | closeTcp =>
    cases hc
    exact ⟨rfl, rfl⟩
  | _ => cases hc

/-- a connect of the server succeeded -/
def Dialled (l : Log) : Prop := ∃ e ∈ l, ∃ sd dst, e.1 = .connect sd dst ∧ e.2.rc = 0

theorem Dialled.append {l : Log} (h : Dialled l) (m : Log) : Dialled (l ++ m) := by
  obtain ⟨e, he, hd⟩ := h
  exact ⟨e, List.mem_append_left _ he, hd⟩

/-- a connect of the server to `dst` succeeded -/
def DialledTo (dst : SockAddrIn) (l : Log) : Prop := ∃ sd a, (Call.connect sd dst, a) ∈ l ∧ a.rc = 0

theorem DialledTo.dialled {dst : SockAddrIn} {l : Log} (h : DialledTo dst l) : Dialled l := by
  obtain ⟨sd, a, hm, h0⟩ := h
  exact ⟨_, hm, sd, dst, rfl, h0⟩

theorem Granted.dialled {g : Globals} {req : SockPkt} {l : Log} (h : Granted g req l) : Dialled l := by
  obtain ⟨pre, sd, a, post, rfl, h0, -⟩ := h.connected
  exact ⟨_, List.mem_append_right _ List.mem_cons_self, sd, _, rfl, h0⟩

namespace Tunnel

/-- `r` is what the server has parsed, and what the client has received before its data threads -/
structure Serves (s : Tunnel) (r : SockPkt × List UInt8) : Prop where
  asks : Proxy.Asks r
  parsed : Parsed .udt r.1 s.srv.child.log
  head : tcpIn s.cli.child.log = Proxy.head r

/-- what comes before the payload has one division -/
theorem head_inj {q r : SockPkt × List UInt8} (hq : Proxy.Asks q) (hr : Proxy.Asks r) {more : List UInt8}
    (h : Proxy.head q ++ more = Proxy.head r) : q = r := by
  have hpre : q.1.bytes ++ q.2 ++ [0] ++ more <+: r.1.bytes ++ r.2 ++ 0 :: [] := h ▸ List.prefix_refl _
  obtain ⟨h1, h2, -⟩ := request_prefix_inj hq.2.2 hr.2.2 hpre
  exact Prod.ext h1 h2

theorem Serves.unique {s : Tunnel} {q r : SockPkt × List UInt8} (hq : Serves s q) (hr : Serves s r) : q = r :=
  head_inj hq.asks hr.asks ((List.append_nil _).trans (hq.head.symm.trans hr.head))

/-- no receive of a handshake failed, no reply was split, and no packet was cut -/
structure Whole (s : Tunnel) : Prop where
  clientRecv : Received .tcp s.cli.child.log
  serverRecv : Received .udt s.srv.child.log
  unsplit : Unsplit s.cli.child.log
  clientSent : SentWhole s.cli.child.log
  serverSent : SentWhole s.srv.child.log

theorem whole_iff (s : Tunnel) :
    Whole s ↔ Received .tcp s.cli.child.log ∧ Received .udt s.srv.child.log ∧ Unsplit s.cli.child.log ∧
      SentWhole s.cli.child.log ∧ SentWhole s.srv.child.log :=
  ⟨fun h => ⟨h.1, h.2, h.3, h.4, h.5⟩, fun h => ⟨h.1, h.2.1, h.2.2.1, h.2.2.2.1, h.2.2.2.2⟩⟩

instance (s : Tunnel) : Decidable (Whole s) := decidable_of_iff _ (whole_iff s).symm

/-- the logs of the handshakes only grow -/
theorem logs_grow {gc gs : Globals} {s t : Tunnel} {l : Label} (hs : step gc gs s l = some t) :
    ∃ m n, t.cli.child.log = s.cli.child.log ++ m ∧ t.srv.child.log = s.srv.child.log ++ n := by
  rcases step_cases hs with ⟨bs, rfl, rfl⟩ | ⟨w, a, r, rfl, hr, -, -, rfl⟩ | ⟨w, a, r, rfl, hr, -, rfl⟩
  · exact ⟨[], [], (List.append_nil _).symm, (List.append_nil _).symm⟩
  · exact ⟨_, [], Relay.log_step hr, (List.append_nil _).symm⟩
  · exact ⟨[], _, (List.append_nil _).symm, Relay.log_step hr⟩

theorem whole_back {gc gs : Globals} (s : Tunnel) (l : Label) (t : Tunnel) (hs : step gc gs s l = some t)
    (h : t.Whole) : s.Whole := by
  obtain ⟨m, n, hm, hn⟩ := logs_grow hs
  obtain ⟨h1, h2, h3, h4, h5⟩ := h
  rw [hm] at h1 h3 h4
  rw [hn] at h2 h5
  exact ⟨(received_append.1 h1).1, (received_append.1 h2).1, unsplit_of_append h3, sentWhole_of_append h4,
    sentWhole_of_append h5⟩

/-! ## The invariant -/

/-- the invariant of the tunnel, and no bytes of the server's handshake on its TCP socket -/
structure Outer (gs : Globals) (ok : Prop) (s : Tunnel) : Prop where
  inv : Inv gs ok s
  silentIn : tcpIn s.srv.child.log = []
  silentOut : tcpOut s.srv.child.log = []

theorem outer_init {gs : Globals} {ok : Prop} {s : Tunnel} (h : Init s) : Outer gs ok s := by
  obtain ⟨sdc, sds, pc, ps, cc, cs, kc, ks, hc, hs, rfl⟩ := h
  exact ⟨inv_init ⟨_, _, _, _, _, _, _, _, hc, hs, rfl⟩, rfl, rfl⟩

theorem outer_step {gc gs : Globals} {ok : Prop} {s t : Tunnel} {l : Label} (h : Outer gs ok s)
    (hG : ok → s.GoodCommand l) (hs : step gc gs s l = some t) : Outer gs ok t := by
  have hinv := step_inv s l t h.inv hG hs
  rcases step_cases hs with ⟨bs, rfl, rfl⟩ | ⟨w, a, r, rfl, hr, -, -, rfl⟩ | ⟨w, a, r, rfl, hr, -, rfl⟩
  · exact ⟨hinv, h.silentIn, h.silentOut⟩
  · exact ⟨hinv, h.silentIn, h.silentOut⟩
  · rcases Relay.step_cases hr with ⟨c, rfl, hc, -, rfl⟩ | ⟨m, x, -, -, rfl⟩
    · obtain ⟨hin, hout⟩ := Server.call_frame a h.inv.srv hc
      exact ⟨hinv, by rw [tcpIn_append, h.silentIn, hin]; rfl, by rw [tcpOut_append, h.silentOut, hout]; rfl⟩
    · exact ⟨hinv, h.silentIn, h.silentOut⟩

theorem run_outer {gc gs : Globals} {s t : Tunnel} {ls : List Label} (h0 : Init s)
    (h : (system gc gs).exec s ls = some t) : Outer gs False t :=
  System.exec_inv (Outer gs False) (fun _ _ _ hi hs => outer_step hi False.elim hs) h (outer_init h0)

section streams

variable {gs : Globals} {ok : Prop} {s : Tunnel}

theorem Outer.fromTcp (h : Outer gs ok s) : s.srv.fromTcp = tcpIn s.srv.work.log := by
  rw [Relay.fromTcp, h.silentIn, List.nil_append]

theorem Outer.toTcp (h : Outer gs ok s) : s.srv.toTcp = tcpOut s.srv.work.log := by
  rw [Relay.toTcp, h.silentOut, List.nil_append]

/-- a server that has created its data threads has granted the request it parsed -/
theorem Outer.granted (h : Outer gs ok s) (hst : ¬ NotStarted s.srv.child.log) :
    ∃ req, Granted gs req s.srv.child.log := by
  obtain ⟨-, hcases⟩ := Server.outcome h.inv.srv
  rcases hcases with ⟨-, hns⟩ | ⟨-, hns⟩ | hg
  · exact absurd hns hst
  · exact absurd hns hst
  · exact hg

/-- the connect was for the one request that the application sent -/
theorem Outer.dialled (h : Outer gs ok s) (hc : Received .tcp s.cli.child.log) (hs : Received .udt s.srv.child.log)
    (hd : Dialled s.srv.child.log) : ∃ r, Serves s r := by
  obtain ⟨e, he, sd, dst, hconn, -⟩ := hd
  obtain ⟨req, hp, -⟩ := (Server.outcome h.inv.srv).1 e he sd dst hconn
  obtain ⟨hcli, -, -⟩ := parsed_by_client h.inv hp hs
  obtain ⟨uid, hu, hin, -⟩ := parsed_by_app h.inv hcli hc
  exact ⟨(req, uid), ⟨hp.vn, hp.cd, hu⟩, hp, hin⟩

theorem parsed_unique (h : Outer gs ok s) (hs : Received .udt s.srv.child.log) {q r : SockPkt}
    (hq : Parsed .udt q s.srv.child.log) (hr : Parsed .udt r s.srv.child.log) : q = r := by
  obtain ⟨-, hin, -⟩ := parsed_by_client h.inv hq hs
  obtain ⟨-, hin', -⟩ := parsed_by_client h.inv hr hs
  exact SockPkt.bytes_injective (List.append_cancel_right (hin.symm.trans hin'))

/-- the data of the server comes from the data threads of the client -/
theorem Outer.udt_data (h : Outer gs ok s) (hs : Received .udt s.srv.child.log) {req : SockPkt}
    (hp : Parsed .udt req s.srv.child.log) : udtIn s.srv.work.log <+: udtOut s.cli.work.log := by
  obtain ⟨-, hin, hout⟩ := parsed_by_client h.inv hp hs
  have hto := h.inv.toSrv
  rw [Relay.fromUdt, Relay.toUdt, hin, hout, List.prefix_append_right_inj] at hto
  exact hto

/-- the destination gets the payload from the front -/
theorem Outer.payload (h : Outer gs ok s) (hs : Received .udt s.srv.child.log) {req : SockPkt}
    (hp : Parsed .udt req s.srv.child.log) : tcpIn s.cli.child.log ++ s.srv.toTcp <+: s.appSent := by
  have hdata : s.srv.toTcp <+: tcpIn s.cli.work.log := by
    rw [h.toTcp]
    exact h.inv.srvRelay.data.2.trans ((h.udt_data hs hp).trans h.inv.cliRelay.data.1)
  have htcp := h.inv.tcp
  rw [Relay.fromTcp] at htcp
  exact ((List.prefix_append_right_inj _).2 hdata).trans htcp

/-- the client hands on what the server granted, unless it is a refusal -/
theorem reply_whole (h : Outer gs ok s) (hw : Whole s) {req p : SockPkt} (hr : Replied req p s.cli.child.log)
    (h90 : p.cd = 90) :
    ∃ q, Granted gs q s.srv.child.log ∧ p = q.reply 90 ∧ udtIn s.cli.child.log = udtOut s.srv.child.log := by
  obtain ⟨a, hg, rfl⟩ := hr.got
  have hlen : a.data.length = 8 := by
    rcases hg.permitted with ⟨hrc, hle⟩ | ⟨-, hnil⟩
    · obtain ⟨sd, hm⟩ := hg.mem
      have hpos : 0 < a.rc := lt_of_le_of_ne (by omega) (Ne.symm hg.rc)
      have h8 : a.rc = 8 := hw.unsplit _ hm hpos
      omega
    · rw [hnil, SockPkt.recvAt_nil, hr.parsed.cd] at h90
      exact absurd h90 (by decide)
  have hbytes : (req.recvAt 0 a.data).bytes = udtIn s.cli.child.log := by
    rw [Client.bytes_of_whole hlen, hg.bytes]
  have h8 : (udtIn s.cli.child.log).length = 8 := by rw [hg.bytes, hlen]
  have hto : udtIn s.cli.child.log <+: s.srv.toUdt := (List.prefix_append _ _).trans h.inv.toCli
  obtain ⟨-, hcases⟩ := Server.outcome h.inv.srv
  rcases hcases with ⟨hout, hns⟩ | ⟨⟨q, m, hcd, hout⟩, hns⟩ | ⟨q, hgr⟩
  · rw [Relay.toUdt, hout, h.inv.srvRelay.idle hns] at hto
    have hle := hto.length_le
    rw [h8] at hle
    exact absurd hle (by decide)
  · -- the server refused, so the eight bytes are a refusal
    rw [Relay.toUdt, hout, h.inv.srvRelay.idle hns, ← hbytes] at hto
    simp only [Relay.idle, udtOut_nil, List.append_nil] at hto
    have heq : (req.recvAt 0 a.data).bytes = q.bytes :=
      (hto.trans (List.take_prefix _ _)).eq_of_length (by rw [SockPkt.length_bytes, SockPkt.length_bytes])
    rw [SockPkt.bytes_injective heq] at h90
    exact absurd h90 hcd
  · obtain ⟨sd, b, hm, hout⟩ := hgr.sent
    rw [bytes_of_sent hw.serverSent (Or.inr hm)] at hout
    have heq : udtIn s.cli.child.log = udtOut s.srv.child.log :=
      (List.prefix_of_prefix_length_le hto (List.prefix_append _ _)
        (by rw [h8, hout, SockPkt.length_bytes])).eq_of_length (by rw [h8, hout, SockPkt.length_bytes])
    exact ⟨q, hgr, SockPkt.bytes_injective (by rw [hbytes, heq, hout]), heq⟩

/-- a client that has created its data threads has handed on the grant of the server, and nothing before it -/
theorem Outer.told (h : Outer gs ok s) (hw : Whole s) (hst : ¬ NotStarted s.cli.child.log) :
    ∃ q, Granted gs q s.srv.child.log ∧ tcpOut s.cli.child.log = (q.reply 90).bytes ∧
      udtIn s.cli.child.log = udtOut s.srv.child.log := by
  rcases Client.outcome h.inv.cli with ⟨-, hns⟩ | ⟨-, hns⟩ | ⟨req, p, hr, ⟨sd, b, hm, hout⟩, hns⟩
  · exact absurd hns hst
  · exact absurd hns hst
  · have h90 : p.cd = 90 := by
      by_contra hne
      exact hst (hns hne)
    obtain ⟨q, hg, rfl, heq⟩ := reply_whole h hw hr h90
    exact ⟨q, hg, by rw [hout, bytes_of_sent hw.clientSent (Or.inl hm)], heq⟩

end streams

/-! ## The proxy that the tunnel shows -/

/-- the streams at the two ends, and the request the server is connected for -/
structure Shows (s : Tunnel) (x : Proxy) : Prop where
  appSent : x.appSent = s.appSent
  destSent : x.destSent = s.srv.fromTcp
  toDest : x.toDest = s.srv.toTcp
  toApp : x.toApp = s.cli.toTcp
  dialled : x.request ≠ none ↔ Dialled s.srv.child.log
  request : ∀ r, x.request = some r → Serves s r

theorem exists_shows {gs : Globals} {ok : Prop} {s : Tunnel} (h : Outer gs ok s) (hw : Whole s) : ∃ x, Shows s x := by
  by_cases hd : Dialled s.srv.child.log
  · obtain ⟨r, hr⟩ := h.dialled hw.clientRecv hw.serverRecv hd
    refine ⟨⟨s.appSent, s.srv.fromTcp, some r, s.srv.toTcp, s.cli.toTcp⟩, rfl, rfl, rfl, rfl, by simp [hd], ?_⟩
    intro q hq
    obtain rfl := Option.some.inj hq
    exact hr
  · exact ⟨⟨s.appSent, s.srv.fromTcp, none, s.srv.toTcp, s.cli.toTcp⟩, rfl, rfl, rfl, rfl, by simp [hd], nofun⟩

/-- the proxy is connected for the request that the server is connected for -/
theorem Shows.request_iff {gs : Globals} {ok : Prop} {s : Tunnel} {x : Proxy} (hx : Shows s x) (h : Outer gs ok s)
    (hw : Whole s) (r : SockPkt × List UInt8) :
    x.request = some r ↔ Serves s r ∧ DialledTo r.1.dst s.srv.child.log := by
  constructor
  · intro hr
    have hserves := hx.request r hr
    obtain ⟨⟨c, a⟩, he, sd, dst, rfl, h0⟩ := hx.dialled.1 (by rw [hr]; exact Option.some_ne_none r)
    obtain ⟨req, hp, rfl⟩ := (Server.outcome h.inv.srv).1 _ he sd dst rfl
    obtain rfl := parsed_unique h hw.serverRecv hp hserves.parsed
    exact ⟨hserves, sd, a, he, h0⟩
  · rintro ⟨hserves, hd⟩
    obtain ⟨q, hq⟩ := Option.ne_none_iff_exists'.1 (hx.dialled.2 hd.dialled)
    rw [hq, (hx.request q hq).unique hserves]

/-- the request of the proxy is the one the server granted -/
theorem Shows.granted {gs : Globals} {ok : Prop} {s : Tunnel} {x : Proxy} (hx : Shows s x) (h : Outer gs ok s)
    (hw : Whole s) {q : SockPkt} (hg : Granted gs q s.srv.child.log) : ∃ r, x.request = some r ∧ r.1 = q := by
  obtain ⟨r, hr⟩ := Option.ne_none_iff_exists'.1 (hx.dialled.2 hg.dialled)
  exact ⟨r, hr, parsed_unique h hw.serverRecv (hx.request r hr).parsed hg.parsed⟩

theorem Shows.sound {gs : Globals} {s : Tunnel} {x : Proxy} (hx : Shows s x) (h : Outer gs True s) (hw : Whole s) :
    x.Sound := by
  have hstarted : ¬ NotStarted s.cli.child.log → ∃ r, x.request = some r ∧ Proxy.grant r <+: x.toApp ∧
      x.toApp <+: Proxy.grant r ++ x.destSent := by
    intro hst
    obtain ⟨q, hg, hout, heq⟩ := h.told hw hst
    obtain ⟨r, hr, rfl⟩ := hx.granted h hw hg
    have happ : x.toApp = Proxy.grant r ++ tcpOut s.cli.work.log := by rw [hx.toApp, Relay.toTcp, hout]; rfl
    refine ⟨r, hr, happ ▸ List.prefix_append _ _, ?_⟩
    rw [happ, hx.destSent, h.fromTcp, List.prefix_append_right_inj]
    exact data_of_taken h.inv heq
  refine ⟨?_, ?_, ?_, ?_⟩
  · intro r hr
    obtain ⟨hasks, hp, hin⟩ := hx.request r hr
    refine ⟨hasks, ?_⟩
    rw [hx.appSent, hx.toDest, ← hin]
    exact h.payload hw.serverRecv hp
  · intro hnone
    have hns : NotStarted s.srv.child.log := by
      by_contra hst
      obtain ⟨q, hg⟩ := h.granted hst
      exact hx.dialled.2 hg.dialled hnone
    rw [hx.destSent, h.fromTcp, h.inv.srvRelay.idle hns]
    rfl
  · by_cases hns : NotStarted s.cli.child.log
    · -- the answer is all there is
      have happ : x.toApp = tcpOut s.cli.child.log := by
        rw [hx.toApp, Relay.toTcp, h.inv.cliRelay.idle hns]
        exact List.append_nil _
      rcases Client.outcome h.inv.cli with ⟨hout, -⟩ | ⟨⟨-, -, p, hcd, sd, b, hm, hout⟩, -⟩ |
        ⟨req, p, hr, ⟨sd, b, hm, hout⟩, -⟩
      · exact Or.inl (happ.trans hout)
      · rw [bytes_of_sent hw.clientSent (Or.inl hm)] at hout
        exact Or.inr (Or.inl ⟨p, hcd trivial, happ.trans hout⟩)
      · rw [bytes_of_sent hw.clientSent (Or.inl hm)] at hout
        by_cases hcd : p.cd = 90
        · obtain ⟨q, hg, rfl, -⟩ := reply_whole h hw hr hcd
          obtain ⟨r, hq, rfl⟩ := hx.granted h hw hg
          rw [happ, hout]
          exact Or.inr (Or.inr ⟨r, hq, List.prefix_refl _, List.prefix_append _ _⟩)
        · exact Or.inr (Or.inl ⟨p, hcd, happ.trans hout⟩)
    · exact Or.inr (Or.inr (hstarted hns))
  · intro hne
    -- a byte of the payload came through the data threads of the client
    have hst : ¬ NotStarted s.cli.child.log := by
      intro hns
      have hstsrv : ¬ NotStarted s.srv.child.log := by
        intro hns'
        rw [hx.toDest, h.toTcp, h.inv.srvRelay.idle hns'] at hne
        exact hne rfl
      obtain ⟨q, hg⟩ := h.granted hstsrv
      have hdata := h.inv.srvRelay.data.2.trans (h.udt_data hw.serverRecv hg.parsed)
      rw [h.inv.cliRelay.idle hns, ← h.toTcp, ← hx.toDest] at hdata
      exact hne (List.prefix_nil.1 hdata)
    obtain ⟨r, hr, hg, -⟩ := hstarted hst
    exact ⟨r, hr, hg⟩

/-- the streams of the tunnel only grow -/
theorem streams_grow {gc gs : Globals} {ok : Prop} {s t : Tunnel} {l : Label} (h : Inv gs ok s)
    (hs : step gc gs s l = some t) :
    s.appSent <+: t.appSent ∧ s.srv.fromTcp <+: t.srv.fromTcp ∧ s.srv.toTcp <+: t.srv.toTcp ∧
      s.cli.toTcp <+: t.cli.toTcp := by
  rcases step_cases hs with ⟨bs, rfl, rfl⟩ | ⟨w, a, r, rfl, hr, -, -, rfl⟩ | ⟨w, a, r, rfl, hr, -, rfl⟩
  · exact ⟨List.prefix_append _ _, List.prefix_refl _, List.prefix_refl _, List.prefix_refl _⟩
  · obtain ⟨e, -, hto, -, -⟩ := Relay.step_streams h.cliRelay hr
    exact ⟨List.prefix_refl _, List.prefix_refl _, List.prefix_refl _, hto ▸ List.prefix_append _ _⟩
  · obtain ⟨e, hfrom, hto, -, -⟩ := Relay.step_streams h.srvRelay hr
    exact ⟨List.prefix_refl _, hfrom ▸ List.prefix_append _ _, hto ▸ List.prefix_append _ _, List.prefix_refl _⟩

theorem Shows.le {gc gs : Globals} {ok : Prop} {s t : Tunnel} {l : Label} {x y : Proxy} (hx : Shows s x)
    (hy : Shows t y) (h : Inv gs ok s) (hs : step gc gs s l = some t) : x.Le y := by
  obtain ⟨happ, hfrom, hto, hcli⟩ := streams_grow h hs
  refine ⟨?_, ?_, ?_, ?_, ?_⟩
  · rw [hx.appSent, hy.appSent]
    exact happ
  · rw [hx.destSent, hy.destSent]
    exact hfrom
  · -- the request of the application has one division
    intro hne
    obtain ⟨m, n, hm, hn⟩ := logs_grow hs
    have hd : Dialled t.srv.child.log := by
      rw [hn]
      exact (hx.dialled.1 hne).append n
    obtain ⟨q, hq⟩ := Option.ne_none_iff_exists'.1 hne
    obtain ⟨r, hr⟩ := Option.ne_none_iff_exists'.1 (hy.dialled.2 hd)
    have hq' := hx.request q hq
    have hr' := hy.request r hr
    have heq : Proxy.head q ++ tcpIn m = Proxy.head r := by rw [← hq'.head, ← tcpIn_append, ← hm, hr'.head]
    rw [hr, hq, head_inj hq'.asks hr'.asks heq]
  · rw [hx.toDest, hy.toDest]
    exact hto
  · rw [hx.toApp, hy.toApp]
    exact hcli

/-! ## Main results -/

/-- the client is not handed a wrong command, and the handshakes stay whole -/
def Proper (gc gs : Globals) (s : Tunnel) (l : Label) : Prop :=
  s.GoodCommand l ∧ ∀ u, step gc gs s l = some u → u.Whole

/-- **One step.** A proper step of the tunnel is a run of the proxy. -/
theorem refines (gc gs : Globals) :
    System.Refines (system gc gs) Proxy.system (fun s x => Outer gs True s ∧ Shows s x ∧ x.Sound)
      (Proper gc gs) where
  init s h := by
    refine ⟨Proxy.fresh, rfl, outer_init h, ?_, Proxy.sound_fresh⟩
    obtain ⟨sdc, sds, pc, ps, cc, cs, kc, ks, -, -, rfl⟩ := h
    exact ⟨rfl, rfl, rfl, rfl, ⟨fun hne => absurd rfl hne, fun hd => absurd hd (by rintro ⟨e, he, -⟩; cases he)⟩, nofun⟩
  step s x l t h hG hs := by
    obtain ⟨hout, hx, hsound⟩ := h
    obtain ⟨hgood, hwhole⟩ := hG
    have hout' := outer_step hout (fun _ => hgood) hs
    have hw := hwhole t hs
    obtain ⟨y, hy⟩ := exists_shows hout' hw
    have hsound' := hy.sound hout' hw
    obtain ⟨ms, hms⟩ := Proxy.exists_run hsound hsound' (hx.le hy hout.inv hs)
    exact ⟨ms, y, hms, hout', hy, hsound'⟩

/-- **The tunnel is a proxy.** In every run of the tunnel in which the client is not handed a wrong command, no receive
of a handshake fails, no reply is split and no packet is cut, whatever else happens: what the application and the
destination have sent and been sent is what they would have in a run of the ideal proxy, whose steps are those of the
tunnel's run, one after the other; and that proxy is connected for a request exactly when the server has parsed this
request from the front of what the application sent, and its connect to the destination of it succeeded. -/
theorem tunnel_refines_proxy {gc gs : Globals} {s0 s : Tunnel} {ls : List Label} (h0 : Init s0)
    (h : (system gc gs).exec s0 ls = some s) (hG : (system gc gs).Meets GoodCommand s0 ls) (hw : s.Whole) :
    ∃ ms x, Proxy.system.exec Proxy.fresh ms = some x ∧ x.appSent = s.appSent ∧ x.destSent = s.srv.fromTcp ∧
      x.toDest = s.srv.toTcp ∧ x.toApp = s.cli.toTcp ∧
      ∀ r, x.request = some r ↔ Serves s r ∧ DialledTo r.1.dst s.srv.child.log := by
  obtain ⟨-, hwhole⟩ := System.meets_of_last Whole whole_back h hw
  obtain ⟨x, hx, hr⟩ := (refines gc gs).init s0 h0
  obtain ⟨ms, y, hms, hout, hy, -⟩ := (refines gc gs).exec hr h (System.meets_and hG hwhole)
  obtain rfl : x = Proxy.fresh := hx
  exact ⟨ms, y, hms, hy.appSent, hy.destSent, hy.toDest, hy.toApp, hy.request_iff hout hw⟩

/-- the reply comes back in one piece, both relays create their data threads, and three bytes of payload go up; the
destination was handed one of them and has sent one byte -/
def carrying : List Label :=
  forwarding ++ granting ++
    [.cli .child { rc := 8, data := [4, 90, 0, 80, 10, 0, 0, 5] }, .cli .child { rc := 8 }, .cli .child { rc := 0 },
      .srv .child { rc := 0 }, .appSend [1, 2, 3], .cli .sock2peer { rc := 0 }, .cli .sock2peer { rc := 1 },
      .cli .sock2peer { rc := 3, data := [1, 2, 3] }, .cli .sock2peer { rc := 3 }, .srv .peer2sock { rc := 0 },
      .srv .peer2sock { rc := 0 }, .srv .peer2sock { rc := 3, data := [1, 2, 3] }, .srv .peer2sock { rc := 1 },
      .srv .sock2peer { rc := 0 }, .srv .sock2peer { rc := 1 }, .srv .sock2peer { rc := 1, data := [7] },
      .srv .sock2peer { rc := 1 }]

theorem tunnel_refines_proxy_carrying :
    ∃ s ms x, (system openGate openGate).exec fresh carrying = some s ∧ s.srv.toTcp = [1] ∧
      Proxy.system.exec Proxy.fresh ms = some x ∧ x.toDest = [1] ∧
      ∀ r, x.request = some r → Proxy.head r = [4, 1, 0, 80, 10, 0, 0, 5, 0] := by
  obtain ⟨s, hs, hto, hw, hin⟩ : ∃ s, (system openGate openGate).exec fresh carrying = some s ∧ s.srv.toTcp = [1] ∧
      s.Whole ∧ tcpIn s.cli.child.log = [4, 1, 0, 80, 10, 0, 0, 5, 0] := System.exec_of_any (by decide)
  obtain ⟨ms, x, hms, -, -, hdest, -, hreq⟩ := tunnel_refines_proxy init_fresh hs (by decide) hw
  exact ⟨s, ms, x, hs, hto, hms, hdest.trans hto, fun r hr => ((hreq r).1 hr).1.head.symm.trans hin⟩

end Tunnel

end UdtGate
