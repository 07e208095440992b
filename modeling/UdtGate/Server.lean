/-
The server branch of `start_child`: what it has received, where it connects, and what it answers.

Everything is said about the log of the thread. `Parsed .udt req l`: the receives of `l` delivered the request `req`
and its user id, as long as none of them failed. `Connected g dst l`: a connect to `dst` succeeded, after the access
check of the settings `g` had let it pass.

- `Server.Inv`: the branch, point by point. What was received is the front of `spkt`, then a user id without zero bytes;
  before the answer nothing is sent; the code of the answer is 90 only after the connect.
- `Server.step_inv`: every step keeps it.
-/
import UdtGate.Handshake

namespace UdtGate

open UdtGate.Core

/-! ## Connects -/

/-- the access check let `dst` pass, unless there is none -/
def Checked (g : Globals) (dst : SockAddrIn) (l : Log) : Prop :=
  g.netAccess < 2 →
    ∃ a log, (Call.getifaddrs, a) ∈ l ∧ checkSource g.debugLevel dst (g.netAccess > 0) a.ifap = some (true, log)

/-- a connect to `dst` succeeded, and the access check before it -/
def Connected (g : Globals) (dst : SockAddrIn) (l : Log) : Prop :=
  ∃ pre sd a post, l = pre ++ (Call.connect sd dst, a) :: post ∧ a.rc = 0 ∧ Checked g dst pre

theorem Connected.append {g : Globals} {dst : SockAddrIn} {l : Log} (h : Connected g dst l) (m : Log) :
    Connected g dst (l ++ m) := by
  obtain ⟨pre, sd, a, post, rfl, h0, hc⟩ := h
  exact ⟨pre, sd, a, post ++ m, by rw [List.append_assoc, List.cons_append], h0, hc⟩

/-- no connect was tried -/
def NoDial (l : Log) : Prop := ∀ e ∈ l, ∀ sd dst, e.1 ≠ .connect sd dst

/-- every connect was to the destination of a parsed request -/
def Dials (l : Log) : Prop := ∀ e ∈ l, ∀ sd dst, e.1 = .connect sd dst → ∃ req, Parsed .udt req l ∧ dst = req.dst

theorem NoDial.dials {l : Log} (h : NoDial l) : Dials l := fun e he sd dst hd => absurd hd (h e he sd dst)

def Call.isConnect : Call → Bool
  | .connect .. => true
  | _ => false

theorem NoDial.snoc {l : Log} (h : NoDial l) {e : Call × Ans} (he : e.1.isConnect = false) : NoDial (l ++ [e]) := by
  intro x hx
  rcases List.mem_append.1 hx with hx | hx
  · exact h x hx
  · intro sd dst hd
    rw [← List.mem_singleton.1 hx, hd] at he
    cases he

theorem Dials.snoc {l : Log} (h : Dials l) {e : Call × Ans} (hin : udtIn [e] = []) (he : e.1.isConnect = false) :
    Dials (l ++ [e]) := by
  intro x hx sd dst hd
  rcases List.mem_append.1 hx with hx | hx
  · obtain ⟨req, hp, hq⟩ := h x hx sd dst hd
    exact ⟨req, hp.snoc hin, hq⟩
  · rw [← List.mem_singleton.1 hx, hd] at he
    cases he

/-- the first connect is to the destination of the parsed request -/
theorem NoDial.dial {l : Log} (h : NoDial l) {req : SockPkt} (hp : Parsed .udt req l) (sd : ℤ) (a : Ans) :
    Dials (l ++ [(.connect sd req.dst, a)]) := by
  intro x hx sd' dst hd
  rcases List.mem_append.1 hx with hx | hx
  · exact absurd hd (h x hx sd' dst)
  · rw [List.mem_singleton.1 hx] at hd
    cases hd
    exact ⟨req, hp.snoc rfl, rfl⟩

/-! ## Answers -/

/-- the request `req` was granted: the relay is connected to its destination, and the reply 90 was sent -/
structure Granted (g : Globals) (req : SockPkt) (l : Log) : Prop where
  parsed : Parsed .udt req l
  connected : Connected g req.dst l
  sent : ∃ sd a, (Call.udtSend sd (req.reply 90).bytes, a) ∈ l ∧ udtOut l = (req.reply 90).bytes.take a.rc.toNat

/-- a request was answered with a code other than 90 -/
def Refused (l : Log) : Prop := ∃ (p : SockPkt) (m : ℕ), p.cd ≠ 90 ∧ udtOut l = p.bytes.take m

theorem Granted.snoc {g : Globals} {req : SockPkt} {l : Log} (h : Granted g req l) {e : Call × Ans}
    (hin : udtIn [e] = []) (hout : udtOut [e] = []) : Granted g req (l ++ [e]) := by
  obtain ⟨hp, hc, sd, a, hmem, hu⟩ := h
  exact ⟨hp.snoc hin, hc.append _, sd, a, List.mem_append_left _ hmem, by rw [udtOut_append, hout, hu, List.append_nil]⟩

theorem Refused.snoc {l : Log} (h : Refused l) {e : Call × Ans} (hout : udtOut [e] = []) : Refused (l ++ [e]) := by
  obtain ⟨p, m, hcd, hu⟩ := h
  exact ⟨p, m, hcd, by rw [udtOut_append, hout, hu, List.append_nil]⟩

/-! ## The invariant -/

namespace Server

open StartChild

/-- where the server branch is, and what its log `l` says then -/
def Inv (g : Globals) (s : StartChild) (l : Log) : Prop :=
  match s.pc with
  | .server pc =>
    udtOut l = [] ∧ NotStarted l ∧
      match pc with
      | .peername | .socket => NoDial l ∧ udtIn l = []
      | .header p =>
        NoDial l ∧ p < 8 ∧ (Received .udt l → 0 ≤ p ∧ ((udtIn l).length : ℤ) = p ∧ s.spkt.bytes.take p.toNat = udtIn l)
      | .reject | .refuse => Dials l ∧ s.spkt.cd ≠ 90
      | .userId => NoDial l ∧ Scanning .udt s.spkt l
      | .check => NoDial l ∧ Parsed .udt s.spkt l
      | .connect => NoDial l ∧ Parsed .udt s.spkt l ∧ Checked g s.spkt.dst l
      | .granted => Dials l ∧ ∃ req, s.spkt = req.reply 90 ∧ Parsed .udt req l ∧ Connected g req.dst l
  | .createWorkers => Dials l ∧ NotStarted l ∧ ∃ req, Granted g req l
  | .joinWorkers => Dials l ∧ ∃ req, Granted g req l
  | .closeUdt | .closeTcp | .returned => Dials l ∧ ((Refused l ∧ NotStarted l) ∨ ∃ req, Granted g req l)
  | .exited | .aborted | .undefined => Dials l ∧ udtOut l = [] ∧ NotStarted l
  | .client _ => False

theorem inv_start (g : Globals) (sd : ℤ) (p : SockPkt) (c : UInt8) (k : Cargs) : Inv g (start .server sd p c k) [] :=
  ⟨rfl, nofun, nofun, rfl⟩

/-- a call before the answer -/
theorem unanswered_snoc {l : Log} (hout : udtOut l = []) (hns : NotStarted l) {e : Call × Ans} (hout' : udtOut [e] = [])
    (he : e.1.isCreateWorkers = false) : udtOut (l ++ [e]) = [] ∧ NotStarted (l ++ [e]) := by
  refine ⟨?_, hns.snoc he⟩
  rw [udtOut_append, hout, hout']
  rfl

/-- a receive behind the first `p` bytes of the packet extends what was received -/
theorem take_recvAt {q : SockPkt} {p : ℕ} {bs : List UInt8} (h : p + bs.length ≤ 8) :
    (q.recvAt p bs).bytes.take (p + bs.length) = q.bytes.take p ++ bs := by
  have hlen : (q.bytes.take p ++ bs).length = p + bs.length := by
    rw [List.length_append, List.length_take, SockPkt.length_bytes]; omega
  rw [SockPkt.bytes_recvAt q h, store, ← hlen, List.take_left]

/-- a receive of the header loop, in the packet and in the log -/
theorem header_recv {q : SockPkt} {p sd : ℤ} {l : Log} {a : Ans} (hp : p < 8)
    (hok : permitted (.udtRecv sd (8 - p)) a = true)
    (h : Received .udt l → 0 ≤ p ∧ ((udtIn l).length : ℤ) = p ∧ q.bytes.take p.toNat = udtIn l)
    (hr : Received .udt (l ++ [(.udtRecv sd (8 - p), a)])) :
    0 ≤ p + a.rc ∧ p + a.rc ≤ 8 ∧ ((udtIn (l ++ [(.udtRecv sd (8 - p), a)])).length : ℤ) = p + a.rc ∧
      (q.recvAt p.toNat a.data).bytes.take (p + a.rc).toNat = udtIn (l ++ [(.udtRecv sd (8 - p), a)]) := by
  obtain ⟨hr1, hr2⟩ := received_append.1 hr
  obtain ⟨h0, hlen, htake⟩ := h hr1
  have hrc : 1 ≤ a.rc := by simpa [received_singleton, received] using hr2
  have hin : udtIn (l ++ [(.udtRecv sd (8 - p), a)]) = udtIn l ++ a.data := by
    rw [udtIn_append]; simp [udtIn]
  rcases permitted_udtRecv hok with ⟨hl, hle⟩ | ⟨hl, -⟩
  · refine ⟨by omega, by omega, ?_, ?_⟩
    · rw [hin, List.length_append]; omega
    · have hnat : (p + a.rc).toNat = p.toNat + a.data.length := by omega
      rw [hin, hnat, take_recvAt (by omega), htake]
  · omega

/-- what the header loop does with the pointer `p` -/
theorem inv_header {g : Globals} {s : StartChild} {p : ℤ} {l : Log} (hout : udtOut l = []) (hns : NotStarted l)
    (hnd : NoDial l)
    (h : Received .udt l → 0 ≤ p ∧ p ≤ 8 ∧ ((udtIn l).length : ℤ) = p ∧ s.spkt.bytes.take p.toNat = udtIn l) :
    Inv g (header s p) l := by
  unfold header
  split_ifs with hp hv hc
  · refine ⟨hout, hns, hnd, hp, ?_⟩
    intro hr
    obtain ⟨h0, -, hlen, htake⟩ := h hr
    exact ⟨h0, hlen, htake⟩
  · exact ⟨hout, hns, hnd.dials, (by decide : (91 : UInt8) ≠ 90)⟩
  · exact ⟨hout, hns, hnd.dials, (by decide : (91 : UInt8) ≠ 90)⟩
  · refine ⟨hout, hns, hnd, not_not.1 hv, not_not.1 hc, ?_⟩
    intro hr
    obtain ⟨-, h8, -, htake⟩ := h hr
    have hp8 : p.toNat = 8 := by omega
    refine ⟨[], nulFree_nil, ?_⟩
    rw [bytesIn, ← htake, hp8, List.append_nil, List.take_of_length_le (by rw [SockPkt.length_bytes])]

theorem step_inv {g : Globals} {s : StartChild} {l : Log} {c : Call} {a : Ans} (h : Inv g s l)
    (hc : call g s = some c) (hok : permitted c a = true) : Inv g (resume g s a) (l ++ [(c, a)]) := by
  obtain ⟨pc, sd, spkt, ch, k⟩ := s
  cases pc with
  | client pc => exact h.elim
  | server pc =>
    obtain ⟨hout, hns, h⟩ := h
    cases pc with
    | peername =>
      obtain rfl : Call.udtGetpeername sd = c := Option.some.inj hc
      obtain ⟨hnd, hin⟩ := h
      obtain ⟨hout', hns'⟩ := unanswered_snoc hout hns (e := (Call.udtGetpeername sd, a)) rfl rfl
      refine ⟨hout', hns', hnd.snoc rfl, ?_⟩
      rw [udtIn_append, hin]; rfl
    | socket =>
      obtain rfl : Call.socket = c := Option.some.inj hc
      obtain ⟨hnd, hin⟩ := h
      obtain ⟨hout', hns'⟩ := unanswered_snoc hout hns (e := (Call.socket, a)) rfl rfl
      have hin' : udtIn (l ++ [(Call.socket, a)]) = [] := by
        rw [udtIn_append, hin]; rfl
      simp only [resume, srvResume]
      refine inv_header hout' hns' (hnd.snoc rfl) ?_
      intro _
      rw [hin']
      exact ⟨le_refl _, by decide, rfl, rfl⟩
    | header p =>
      obtain rfl : Call.udtRecv k.udtsock (8 - p) = c := Option.some.inj hc
      obtain ⟨hnd, hp, hrecv⟩ := h
      obtain ⟨hout', hns'⟩ := unanswered_snoc hout hns (e := (Call.udtRecv k.udtsock (8 - p), a)) rfl rfl
      have hnd' : NoDial (l ++ [(Call.udtRecv k.udtsock (8 - p), a)]) := hnd.snoc rfl
      simp only [resume, srvResume]
      split_ifs with hneg
      · exact ⟨hnd'.dials, hout', hns'⟩
      · exact inv_header hout' hns' hnd' (header_recv hp hok hrecv)
    | userId =>
      obtain rfl : Call.udtRecv k.udtsock 1 = c := Option.some.inj hc
      obtain ⟨hnd, hscan⟩ := h
      obtain ⟨hout', hns'⟩ := unanswered_snoc hout hns (e := (Call.udtRecv k.udtsock 1, a)) rfl rfl
      have hnd' : NoDial (l ++ [(Call.udtRecv k.udtsock 1, a)]) := hnd.snoc rfl
      obtain ⟨hgo, hend⟩ := hscan.snoc ch (e := (Call.udtRecv k.udtsock 1, a)) (by simp [bytesIn, udtIn])
        (fun hr => length_one_of_permitted (permitted_udtRecv hok) (by simpa [received] using hr))
      simp only [resume, srvResume, userId]
      split_ifs with hz hna
      · exact ⟨hout', hns', hnd', hgo hz⟩
      · exact ⟨hout', hns', hnd', hend (not_not.1 hz)⟩
      · exact ⟨hout', hns', hnd', hend (not_not.1 hz), fun h2 => absurd h2 hna⟩
    | check =>
      obtain rfl : Call.getifaddrs = c := Option.some.inj hc
      obtain ⟨hnd, hparsed⟩ := h
      obtain ⟨hout', hns'⟩ := unanswered_snoc hout hns (e := (Call.getifaddrs, a)) rfl rfl
      have hnd' : NoDial (l ++ [(Call.getifaddrs, a)]) := hnd.snoc rfl
      simp only [resume, srvResume]
      split_ifs with hrc
      · exact ⟨hnd'.dials, hout', hns'⟩
      · cases hcs : checkSource g.debugLevel spkt.dst (g.netAccess > 0) a.ifap with
        | none => exact ⟨hnd'.dials, hout', hns'⟩
        | some r =>
          obtain ⟨b, log⟩ := r
          cases b with
          | false => exact ⟨hout', hns', hnd'.dials, (by decide : (92 : UInt8) ≠ 90)⟩
          | true =>
            refine ⟨hout', hns', hnd', hparsed.snoc rfl, ?_⟩
            intro _
            exact ⟨a, log, List.mem_append_right _ List.mem_cons_self, hcs⟩
    | connect =>
      obtain rfl : Call.connect k.tcpsock spkt.dst = c := Option.some.inj hc
      obtain ⟨hnd, hparsed, hchecked⟩ := h
      obtain ⟨hout', hns'⟩ := unanswered_snoc hout hns (e := (Call.connect k.tcpsock spkt.dst, a)) rfl rfl
      have hdials : Dials (l ++ [(Call.connect k.tcpsock spkt.dst, a)]) := hnd.dial hparsed _ _
      simp only [resume, srvResume]
      split_ifs with hrc
      · exact ⟨hout', hns', hdials, (by decide : (92 : UInt8) ≠ 90)⟩
      · have h0 : a.rc = 0 := by
          simp only [permitted, Bool.or_eq_true, decide_eq_true_eq] at hok
          exact hok.resolve_right hrc
        exact ⟨hout', hns', hdials, spkt, rfl, hparsed.snoc rfl, l, _, a, [], rfl, h0, hchecked⟩
    | reject | refuse =>
      obtain rfl : Call.udtSend k.udtsock spkt.bytes = c := Option.some.inj hc
      obtain ⟨hd, hcd⟩ := h
      refine ⟨hd.snoc rfl rfl, Or.inl ⟨⟨spkt, a.rc.toNat, hcd, ?_⟩, hns.snoc rfl⟩⟩
      rw [udtOut_append, hout]
      simp [udtOut]
    | granted =>
      obtain ⟨hd, req, rfl, hparsed, hconn⟩ := h
      obtain rfl : Call.udtSend k.udtsock (req.reply 90).bytes = c := Option.some.inj hc
      refine ⟨hd.snoc rfl rfl, hns.snoc rfl, req, hparsed.snoc rfl, hconn.append _, _, a,
        List.mem_append_right _ List.mem_cons_self, ?_⟩
      rw [udtOut_append, hout]
      simp [udtOut]
  | createWorkers =>
    obtain ⟨hd, -, req, hg⟩ := h
    cases hc
    exact ⟨hd.snoc rfl rfl, req, hg.snoc rfl rfl⟩
  | joinWorkers =>
    obtain ⟨hd, req, hg⟩ := h
    cases hc
    exact ⟨hd.snoc rfl rfl, Or.inr ⟨req, hg.snoc rfl rfl⟩⟩
  | closeUdt | closeTcp =>
    obtain ⟨hd, h⟩ := h
    cases hc
    refine ⟨hd.snoc rfl rfl, ?_⟩
    rcases h with ⟨hr, hns⟩ | ⟨req, hg⟩
    · exact Or.inl ⟨hr.snoc rfl, hns.snoc rfl⟩
    · exact Or.inr ⟨req, hg.snoc rfl rfl⟩
  | returned => cases hc
  | exited => cases hc
  | aborted => cases hc
  | undefined => cases hc

/-- what the log says, wherever the branch is -/
theorem outcome {g : Globals} {s : StartChild} {l : Log} (h : Inv g s l) :
    Dials l ∧ ((udtOut l = [] ∧ NotStarted l) ∨ (Refused l ∧ NotStarted l) ∨ ∃ req, Granted g req l) := by
  obtain ⟨pc, sd, spkt, ch, k⟩ := s
  cases pc with
  | server pc =>
    obtain ⟨hout, hns, h⟩ := h
    refine ⟨?_, Or.inl ⟨hout, hns⟩⟩
    cases pc with
    | peername => exact h.1.dials
    | socket => exact h.1.dials
    | header p => exact h.1.dials
    | userId => exact h.1.dials
    | check => exact h.1.dials
    | connect => exact h.1.dials
    | reject => exact h.1
    | refuse => exact h.1
    | granted => exact h.1
  | client pc => exact h.elim
  | createWorkers => exact ⟨h.1, Or.inr (Or.inr h.2.2)⟩
  | joinWorkers => exact ⟨h.1, Or.inr (Or.inr h.2)⟩
  | closeUdt => exact ⟨h.1, Or.inr h.2⟩
  | closeTcp => exact ⟨h.1, Or.inr h.2⟩
  | returned => exact ⟨h.1, Or.inr h.2⟩
  | exited => exact ⟨h.1, Or.inl h.2⟩
  | aborted => exact ⟨h.1, Or.inl h.2⟩
  | undefined => exact ⟨h.1, Or.inl h.2⟩

/-- only before its answer does the branch receive from UDT -/
theorem early_of_udtRecv {g : Globals} {s : StartChild} {l : Log} {c : Call} {a : Ans} (h : Inv g s l)
    (hc : call g s = some c) (hin : udtIn [(c, a)] ≠ []) : udtOut l = [] ∧ NotStarted l := by
  obtain ⟨pc, sd, spkt, ch, k⟩ := s
  cases pc with
  | server pc => exact ⟨h.1, h.2.1⟩
  | client pc => exact h.elim
  | createWorkers => cases hc; exact absurd rfl hin
  | joinWorkers => cases hc; exact absurd rfl hin
  | closeUdt => cases hc; exact absurd rfl hin
  | closeTcp => cases hc; exact absurd rfl hin
  | returned => cases hc
  | exited => cases hc
  | aborted => cases hc
  | undefined => cases hc

end Server

end UdtGate
