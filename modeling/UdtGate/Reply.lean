/-
The reply on its way back through the tunnel.

The server sends its reply, eight bytes, and then the data of the destination. The client receives the reply into the
packet that still holds the request, sends that packet to the application, and its data thread hands on what comes next.
The request is received in a loop until all eight bytes are there; the loop over the reply only repeats a receive that
returned nothing.

- `reply_splits`: a receive that returns four bytes ends the loop; the other four bytes of the reply reach the
  application as data.
- `framed_iff`: the application reads the reply and then the data, exactly when the receive that got something got all
  eight bytes.
-/
import UdtGate.Tunnel

namespace UdtGate

open UdtGate.Core

/-- no receive from UDT got a part of the reply only -/
def Unsplit (l : Log) : Prop :=
  ∀ e ∈ l,
    match e.1 with
    | .udtRecv .. => 0 < e.2.rc → e.2.rc = 8
    | _ => True

instance (l : Log) : Decidable (Unsplit l) := by
  unfold Unsplit
  refine @List.decidableBAll _ _ (fun e => ?_) l
  split <;> infer_instance

namespace Tunnel

/-- the client's handshake took the bytes the server answered, all of them and none of its own, it answered the
application with these, and what the application was sent is the reply and then data of the destination -/
structure Framed (s : Tunnel) : Prop where
  taken : udtIn s.cli.child.log = udtOut s.srv.child.log
  told : tcpOut s.cli.child.log = udtOut s.srv.child.log
  data : s.cli.toTcp <+: udtOut s.srv.child.log ++ tcpIn s.srv.work.log

/-- when the handshake of the client took the whole reply, its data thread hands on data of the destination only -/
theorem data_of_taken {gs : Globals} {ok : Prop} {s : Tunnel} (h : Inv gs ok s)
    (ht : udtIn s.cli.child.log = udtOut s.srv.child.log) : tcpOut s.cli.work.log <+: tcpIn s.srv.work.log := by
  have hto := h.toCli
  rw [Relay.fromUdt, Relay.toUdt, ht, List.prefix_append_right_inj] at hto
  exact h.cliRelay.data.2.trans (hto.trans h.srvRelay.data.1)

/-- **Framed exactly when unsplit.** In every state of every run in which the server has sent its eight bytes, the
client has got something of them and the application was sent the eight bytes of its answer: the reply is framed if and
only if the receive that got something of it got all of it. -/
theorem framed_iff {gc gs : Globals} {s0 s : Tunnel} {ls : List Label} (h0 : Init s0)
    (h : (system gc gs).exec s0 ls = some s) (h8 : (udtOut s.srv.child.log).length = 8)
    (hgot : udtIn s.cli.child.log ≠ []) (htold : (tcpOut s.cli.child.log).length = 8) :
    s.Framed ↔ Unsplit s.cli.child.log := by
  have hinv := run_inv h0 h
  rcases Client.outcome hinv.cli with ⟨hnil, -⟩ | ⟨⟨hnil, -⟩, -⟩ | ⟨req, p, hr, ⟨sd, b, -, hout⟩, -⟩
  · rw [hnil] at htold
    cases htold
  · exact absurd hnil hgot
  obtain ⟨a, hg, hp⟩ := hr.got
  have hne : a.data ≠ [] := by rw [← hg.bytes]; exact hgot
  have hrc : a.rc = a.data.length := by
    rcases hg.permitted with ⟨hl, -⟩ | ⟨-, hnil⟩
    · exact hl
    · exact absurd hnil hne
  -- the answer was accepted whole
  have hanswer : tcpOut s.cli.child.log = p.bytes := by
    rw [hout, List.take_of_length_le]
    rw [hout, List.length_take, SockPkt.length_bytes] at htold
    rw [SockPkt.length_bytes]
    omega
  constructor
  · rintro ⟨htaken, -, -⟩
    have hlen : a.data.length = 8 := by rw [← hg.bytes, htaken, h8]
    intro e he
    split
    · rename_i sd' n hd
      intro hpos
      rcases hg.only e he sd' n hd with heq | h00
      · rw [heq, hrc, hlen]; rfl
      · exact absurd h00 hpos.ne'
    · trivial
  · intro hun
    obtain ⟨sd', hmem⟩ := hg.mem
    have hpos : 0 < a.rc := by
      rw [hrc]
      exact_mod_cast List.length_pos_iff.2 hne
    have hrc8 : a.rc = 8 := hun _ hmem hpos
    have hlen : a.data.length = 8 := by omega
    have htaken : udtIn s.cli.child.log = udtOut s.srv.child.log := by
      have hpre : udtIn s.cli.child.log <+: s.srv.toUdt := (List.prefix_append _ _).trans hinv.toCli
      have hpre' : udtIn s.cli.child.log <+: udtOut s.srv.child.log :=
        List.prefix_of_prefix_length_le hpre (List.prefix_append _ _) (by rw [hg.bytes, hlen, h8])
      exact hpre'.eq_of_length (by rw [hg.bytes, hlen, h8])
    have hbytes : tcpOut s.cli.child.log = udtOut s.srv.child.log := by
      rw [hanswer, hp, Client.bytes_of_whole hlen, ← hg.bytes, htaken]
    refine ⟨htaken, hbytes, ?_⟩
    rw [Relay.toTcp, hbytes, List.prefix_append_right_inj]
    exact data_of_taken hinv htaken

theorem framed_iff_whole :
    ∃ s, (system openGate openGate).exec fresh
        (forwarding ++ granting ++
          [.cli .child { rc := 8, data := [4, 90, 0, 80, 10, 0, 0, 5] }, .cli .child { rc := 8 }]) = some s ∧
      s.Framed := by
  obtain ⟨s, hs, h8, hgot, htold, hun⟩ : ∃ s, (system openGate openGate).exec fresh
      (forwarding ++ granting ++
        [.cli .child { rc := 8, data := [4, 90, 0, 80, 10, 0, 0, 5] }, .cli .child { rc := 8 }]) = some s ∧
      (udtOut s.srv.child.log).length = 8 ∧ udtIn s.cli.child.log ≠ [] ∧ (tcpOut s.cli.child.log).length = 8 ∧
      Unsplit s.cli.child.log := System.exec_of_any (by decide)
  exact ⟨s, hs, (framed_iff init_fresh hs h8 hgot htold).2 hun⟩

/-- the client's receive of the reply returns four bytes; the other four are the first block of its data thread -/
def splitting : List Label :=
  [.cli .child { rc := 4, data := [4, 90, 0, 80] }, .cli .child { rc := 8 }, .cli .child { rc := 0 },
    .cli .peer2sock { rc := 0 }, .cli .peer2sock { rc := 0 }, .cli .peer2sock { rc := 4, data := [10, 0, 0, 5] },
    .cli .peer2sock { rc := 4 }]

/-- **A split reply comes back as data.** -/
theorem reply_splits :
    ¬ ∀ (gc gs : Globals) (s0 s : Tunnel) (ls : List Label), Init s0 → (system gc gs).exec s0 ls = some s →
      (udtOut s.srv.child.log).length = 8 → s.cli.toTcp <+: udtOut s.srv.child.log ++ tcpIn s.srv.work.log := by
  intro h
  obtain ⟨s, hs, h8, hto, hin⟩ : ∃ s,
      (system openGate openGate).exec fresh (forwarding ++ granting ++ splitting) = some s ∧
      (udtOut s.srv.child.log).length = 8 ∧ s.cli.toTcp = [4, 90, 0, 80, 10, 0, 0, 5, 10, 0, 0, 5] ∧
      tcpIn s.srv.work.log = [] := System.exec_of_any (by decide)
  have hpre := h _ _ _ s _ init_fresh hs h8
  have hlen := hpre.length_le
  rw [hto, hin, List.append_nil, h8] at hlen
  exact absurd hlen (by decide)

end Tunnel

end UdtGate
