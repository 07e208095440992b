/-
`connect` of `minisocks/minisocks.c`, the library that is preloaded into an application to send its connections through
the client relay.

The function takes the place of `connect`: it connects the socket to the relay instead, sends a SOCKS4 request for the
real destination with an empty user id, and reads the reply. The relay's address is what `getserver` found in the
environment, if anything.

- `Minisocks.Inv`: what was sent is a front of the request and its zero byte; the function returns 0 only when the reply
  was received in one piece and its code is 90.
-/
import UdtGate.Wire
import UdtGate.Core.System

namespace UdtGate

open UdtGate.Core

def EFAULT : ℤ := 14
def EAFNOSUPPORT : ℤ := 97
def ECONNREFUSED : ℤ := 111

inductive Minisocks.Pc where
  | connecting
  | sending
  | receiving
  | shutting
  | returned (rc : ℤ)
deriving DecidableEq

/-- `pkt0` is the packet `pkt` and a zero byte, which is never changed -/
structure Minisocks where
  pc : Minisocks.Pc
  sd : ℤ
  srv : SockAddrIn
  pkt : SockPkt
  errno : ℤ
deriving DecidableEq

namespace Minisocks

/-- up to the first call. `junk` is what the uninitialised variables contain -/
def start (sd : ℤ) (name : SockAddr) (getserver : Option SockAddrIn) (junk : Minisocks) : Minisocks :=
  match name with
  | .in4 a =>
    let pkt : SockPkt := ⟨4, 1, a.port, a.addr⟩
    match getserver with
    | none => { junk with pkt := pkt, errno := EFAULT, pc := .returned (-1) }
    | some srv => { pc := .connecting, sd := sd, srv := srv, pkt := pkt, errno := junk.errno }
  | _ => { junk with errno := EAFNOSUPPORT, pc := .returned (-1) }

def call (m : Minisocks) : Option Call :=
  match m.pc with
  | .connecting => some (.connect m.sd m.srv)
  | .sending => some (.send m.sd (m.pkt.bytes ++ [0]))
  | .receiving => some (.recv m.sd 8 false)
  | .shutting => some (.shutdown m.sd)
  | .returned _ => none

def resume (m : Minisocks) (a : Ans) : Minisocks :=
  match m.pc with
  | .connecting => if a.rc ≠ 0 then { m with pc := .returned a.rc, errno := a.errno } else { m with pc := .sending }
  | .sending =>
    if a.rc ≠ 9 then { m with pc := .returned (-1), errno := if a.rc ≥ 0 then 0 else a.errno }
    else { m with pc := .receiving }
  | .receiving =>
    if a.rc ≠ 8 then
      { m with pkt := m.pkt.recvAt 0 a.data, pc := .returned (-1), errno := if a.rc ≥ 0 then 0 else a.errno }
    else if (m.pkt.recvAt 0 a.data).cd ≠ 90 then { m with pkt := m.pkt.recvAt 0 a.data, pc := .shutting }
    else { m with pkt := m.pkt.recvAt 0 a.data, pc := .returned 0 }
  | .shutting => { m with pc := .returned (-1), errno := ECONNREFUSED }
  | .returned _ => m

def machine : Machine Minisocks Call Ans := ⟨call, resume⟩

/-! ## The invariant -/

/-- where the function is, and what its log `l` says then, for the request `req` -/
def Inv (req : SockPkt) (m : Minisocks) (l : Log) : Prop :=
  match m.pc with
  | .connecting | .sending => m.pkt = req ∧ tcpOut l = [] ∧ tcpIn l = []
  | .receiving => tcpOut l <+: req.bytes ++ [0] ∧ tcpIn l = []
  | .shutting => tcpOut l <+: req.bytes ++ [0]
  | .returned rc => tcpOut l <+: req.bytes ++ [0] ∧ (rc = 0 → (tcpIn l)[1]? = some 90)

theorem inv_start (sd : ℤ) (dst : SockAddrIn) (getserver : Option SockAddrIn) (junk : Minisocks) :
    Inv ⟨4, 1, dst.port, dst.addr⟩ (start sd (.in4 dst) getserver junk) [] := by
  cases getserver with
  | none => exact ⟨List.nil_prefix, nofun⟩
  | some srv => exact ⟨rfl, rfl, rfl⟩

theorem step_inv {req : SockPkt} {m : Minisocks} {l : Log} {c : Call} {a : Ans} (h : Inv req m l)
    (hc : call m = some c) (hok : permitted c a = true) : Inv req (resume m a) (l ++ [(c, a)]) := by
  obtain ⟨pc, sd, srv, pkt, errno⟩ := m
  cases pc with
  | connecting =>
    obtain ⟨hpkt, hout, hin⟩ := h
    cases hc
    have hout' : tcpOut (l ++ [(Call.connect sd srv, a)]) = [] := by
      rw [tcpOut_append, hout]; rfl
    simp only [resume]
    split_ifs with hrc
    · refine ⟨by rw [hout']; exact List.nil_prefix, ?_⟩
      intro h0
      exact absurd h0 hrc
    · refine ⟨hpkt, hout', ?_⟩
      rw [tcpIn_append, hin]; rfl
  | sending =>
    obtain ⟨hpkt, hout, hin⟩ := h
    cases hc
    have hout' : tcpOut (l ++ [(Call.send sd (pkt.bytes ++ [0]), a)]) <+: req.bytes ++ [0] := by
      rw [tcpOut_append, hout, ← hpkt]
      simpa [tcpOut] using List.take_prefix _ _
    simp only [resume]
    by_cases hrc : a.rc ≠ 9
    · rw [if_pos hrc]
      exact ⟨hout', nofun⟩
    · rw [if_neg hrc]
      refine ⟨hout', ?_⟩
      rw [tcpIn_append, hin]; rfl
  | receiving =>
    obtain ⟨hout, hin⟩ := h
    cases hc
    have hout' : tcpOut (l ++ [(Call.recv sd 8 false, a)]) <+: req.bytes ++ [0] := by
      rw [tcpOut_append]
      simpa [tcpOut] using hout
    have hin' : tcpIn (l ++ [(Call.recv sd 8 false, a)]) = a.data := by
      rw [tcpIn_append, hin]; simp [tcpIn]
    simp only [resume]
    by_cases hrc : a.rc ≠ 8
    · rw [if_pos hrc]
      exact ⟨hout', nofun⟩
    rw [if_neg hrc]
    split_ifs with hcd
    · exact hout'
    · -- all eight bytes came, so the second of them is the code that was tested
      refine ⟨hout', ?_⟩
      intro _
      have h8 : a.data.length = 8 := by
        simp only [permitted, Bool.or_eq_true, Bool.and_eq_true, decide_eq_true_eq] at hok
        omega
      have hone := SockPkt.cd_recvAt_zero pkt h8.le
      rw [not_not.1 hcd, List.getElem?_eq_getElem (by omega)] at hone
      rw [hin', List.getElem?_eq_getElem (by omega), hone]
      rfl
  | shutting =>
    cases hc
    refine ⟨?_, nofun⟩
    rw [tcpOut_append]
    exact (List.append_nil _).symm ▸ h
  | returned rc => cases hc

/-- what was sent, wherever the function is -/
theorem sent {req : SockPkt} {m : Minisocks} {l : Log} (h : Inv req m l) : tcpOut l <+: req.bytes ++ [0] := by
  obtain ⟨pc, sd, srv, pkt, errno⟩ := m
  cases pc with
  | connecting => rw [h.2.1]; exact List.nil_prefix
  | sending => rw [h.2.1]; exact List.nil_prefix
  | receiving => exact h.1
  | shutting => exact h
  | returned rc => exact h.1

end Minisocks

end UdtGate
