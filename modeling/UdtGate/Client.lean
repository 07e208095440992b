/-
The client branch of `start_child`: what it has read from the application, what it sent to the server, and what it
answers.

- `Client.Inv`: the branch, point by point. Before its one answer the application is sent nothing; what the server was
  sent comes from the request and the zero byte after it; the answer is the packet that holds what the one receive of
  the reply stored over the request.
- `Client.step_inv`: every step keeps it. The branch also answers by itself, and its code for a wrong command is 90;
  `BadCommand` is the step that leads there.
-/
import UdtGate.Handshake

namespace UdtGate

open UdtGate.Core

/-! ## The reply -/

/-- every receive of the reply so far returned nothing -/
def NoReply (l : Log) : Prop := ∀ e ∈ l, ∀ sd n, e.1 = .udtRecv sd n → e.2.rc = 0

def Call.isUdtRecv : Call → Bool
  | .udtRecv .. => true
  | _ => false

theorem NoReply.snoc {l : Log} (h : NoReply l) {e : Call × Ans} (he : ∀ sd n, e.1 = .udtRecv sd n → e.2.rc = 0) :
    NoReply (l ++ [e]) := by
  intro x hx
  rcases List.mem_append.1 hx with hx | hx
  · exact h x hx
  · rw [List.mem_singleton.1 hx]; exact he

/-- what was sent for the request `req`: a part of its front and a part of the zero byte, both from one send -/
def Forwarded (req : SockPkt) (l : Log) : Prop := ∃ k j : ℕ, udtOut l = req.bytes.take k ++ [0].take j

/-- the receive that ended the loop over the reply answered `a` -/
structure GotReply (a : Ans) (l : Log) : Prop where
  mem : ∃ sd, (Call.udtRecv sd 8, a) ∈ l
  rc : a.rc ≠ 0
  permitted : (a.rc = a.data.length ∧ a.rc ≤ 8) ∨ (a.rc = -1 ∧ a.data = [])
  only : ∀ e ∈ l, ∀ sd n, e.1 = .udtRecv sd n → e.2 = a ∨ e.2.rc = 0
  bytes : udtIn l = a.data

theorem GotReply.snoc {a : Ans} {l : Log} (h : GotReply a l) {e : Call × Ans} (he : e.1.isUdtRecv = false)
    (hin : udtIn [e] = []) : GotReply a (l ++ [e]) := by
  obtain ⟨⟨sd, hm⟩, hrc, hp, ho, hb⟩ := h
  refine ⟨⟨sd, List.mem_append_left _ hm⟩, hrc, hp, ?_, by rw [udtIn_append, hin, hb, List.append_nil]⟩
  intro x hx sd' n hd
  rcases List.mem_append.1 hx with hx | hx
  · exact ho x hx sd' n hd
  · rw [← List.mem_singleton.1 hx, hd] at he
    cases he

theorem GotReply.length_le {a : Ans} {l : Log} (h : GotReply a l) : a.data.length ≤ 8 := by
  obtain ⟨h1, -, -⟩ := length_of_permitted h.permitted
  omega

/-- the request `req` was forwarded, and the reply `p` is what came back over it -/
structure Replied (req p : SockPkt) (l : Log) : Prop where
  parsed : Parsed .tcp req l
  forwarded : Forwarded req l
  got : ∃ a, GotReply a l ∧ p = req.recvAt 0 a.data

theorem Replied.snoc {req p : SockPkt} {l : Log} (h : Replied req p l) {e : Call × Ans}
    (he : e.1.isUdtRecv = false) (htcp : tcpIn [e] = []) (hin : udtIn [e] = []) (hout : udtOut [e] = []) :
    Replied req p (l ++ [e]) := by
  obtain ⟨hp, ⟨k, j, hf⟩, a, hg, hpk⟩ := h
  exact ⟨hp.snoc htcp, ⟨k, j, by rw [udtOut_append, hout, hf, List.append_nil]⟩, a, hg.snoc he hin, hpk⟩

/-- the code of the answer is the second byte of the reply; without one it is still the command of the request -/
theorem Replied.cd {req p : SockPkt} {l : Log} (h : Replied req p l) : p.cd = ((udtIn l)[1]?).getD 1 := by
  obtain ⟨a, hg, rfl⟩ := h.got
  rw [SockPkt.cd_recvAt_zero req hg.length_le, hg.bytes, h.parsed.cd]

/-- the application was sent the answer `p`, and nothing else -/
def Told (p : SockPkt) (l : Log) : Prop :=
  ∃ sd a, (Call.send sd p.bytes, a) ∈ l ∧ tcpOut l = p.bytes.take a.rc.toNat

theorem Told.snoc {p : SockPkt} {l : Log} (h : Told p l) {e : Call × Ans} (hout : tcpOut [e] = []) :
    Told p (l ++ [e]) := by
  obtain ⟨sd, a, hm, ht⟩ := h
  exact ⟨sd, a, List.mem_append_left _ hm, by rw [tcpOut_append, hout, ht, List.append_nil]⟩

/-- the branch answered by itself, with `p`, and the server was sent nothing; `ok` excludes the code 90 -/
def Declined (ok : Prop) (l : Log) : Prop :=
  udtIn l = [] ∧ udtOut l = [] ∧ ∃ p : SockPkt, (ok → p.cd ≠ 90) ∧ Told p l

theorem Declined.mono {ok ok' : Prop} {l : Log} (h : Declined ok l) (hk : ok' → ok) : Declined ok' l := by
  obtain ⟨h1, h2, p, hcd, ht⟩ := h
  exact ⟨h1, h2, p, fun hk' => hcd (hk hk'), ht⟩

theorem Declined.snoc {ok : Prop} {l : Log} (h : Declined ok l) {e : Call × Ans} (hin : udtIn [e] = [])
    (hout : udtOut [e] = []) (htcp : tcpOut [e] = []) : Declined ok (l ++ [e]) := by
  obtain ⟨h1, h2, p, hcd, ht⟩ := h
  exact ⟨by rw [udtIn_append, hin, h1]; rfl, by rw [udtOut_append, hout, h2]; rfl, p, hcd, ht.snoc htcp⟩

/-! ## The invariant -/

namespace Client

open StartChild

/-- the answer `a` hands the tests of the request a packet of version 4 with a command other than 1 -/
def BadCommand (s : StartChild) (a : Ans) : Prop :=
  s.pc = .client .request ∧ (s.spkt.recvAt 0 a.data).vn = 4 ∧ (s.spkt.recvAt 0 a.data).cd ≠ 1

instance (s : StartChild) (a : Ans) : Decidable (BadCommand s a) := inferInstanceAs (Decidable (_ ∧ _))

/-- before the answer: the application was sent nothing and no byte of the reply came -/
structure Before (l : Log) : Prop where
  told : tcpOut l = []
  noBytes : udtIn l = []
  noReply : NoReply l
  notStarted : NotStarted l

theorem Before.snoc {l : Log} (h : Before l) {e : Call × Ans} (htold : tcpOut [e] = []) (hin : udtIn [e] = [])
    (hrecv : e.1.isUdtRecv = false) (hns : e.1.isCreateWorkers = false) : Before (l ++ [e]) := by
  refine ⟨?_, ?_, h.noReply.snoc ?_, h.notStarted.snoc hns⟩
  · rw [tcpOut_append, htold, h.told]; rfl
  · rw [udtIn_append, hin, h.noBytes]; rfl
  · intro sd n hc
    rw [hc] at hrecv
    cases hrecv

/-- a call that is none of those, and sends the server nothing -/
theorem Before.quiet {l : Log} (h : Before l) (hout : udtOut l = []) {e : Call × Ans} (htold : tcpOut [e] = [])
    (hin : udtIn [e] = []) (hrecv : e.1.isUdtRecv = false) (hns : e.1.isCreateWorkers = false)
    (hout' : udtOut [e] = []) : Before (l ++ [e]) ∧ udtOut (l ++ [e]) = [] := by
  refine ⟨h.snoc htold hin hrecv hns, ?_⟩
  rw [udtOut_append, hout, hout']
  rfl

/-- where the client branch is, and what its log `l` says then; `ok`: no step was a `BadCommand` -/
def Inv (ok : Prop) (s : StartChild) (l : Log) : Prop :=
  match s.pc with
  | .client pc =>
    match pc with
    | .peername | .socket | .request => Before l ∧ udtOut l = [] ∧ tcpIn l = []
    | .refuse => Before l ∧ udtOut l = [] ∧ (ok → s.spkt.cd ≠ 90)
    | .userId => Before l ∧ udtOut l = [] ∧ Scanning .tcp s.spkt l
    | .options | .bind | .connect | .forward => Before l ∧ udtOut l = [] ∧ Parsed .tcp s.spkt l
    | .forwardNul => Before l ∧ Parsed .tcp s.spkt l ∧ ∃ k, udtOut l = s.spkt.bytes.take k
    | .reply => Before l ∧ Parsed .tcp s.spkt l ∧ Forwarded s.spkt l
    | .answer => tcpOut l = [] ∧ NotStarted l ∧ ∃ req, Replied req s.spkt l
  | .createWorkers => NotStarted l ∧ ∃ req p, Replied req p l ∧ Told p l ∧ p.cd = 90
  | .joinWorkers => ∃ req p, Replied req p l ∧ Told p l ∧ p.cd = 90
  | .closeUdt | .closeTcp | .returned =>
    (Declined ok l ∧ NotStarted l) ∨ ∃ req p, Replied req p l ∧ Told p l ∧ (p.cd ≠ 90 → NotStarted l)
  | .exited => tcpOut l = [] ∧ udtIn l = [] ∧ udtOut l = [] ∧ NotStarted l
  | .server _ | .aborted | .undefined => False

theorem inv_start (ok : Prop) (sd : ℤ) (p : SockPkt) (c : UInt8) (k : Cargs) :
    Inv ok (start .client sd p c k) [] := ⟨⟨rfl, rfl, nofun, nofun⟩, rfl, rfl⟩

theorem Inv.mono {ok ok' : Prop} {s : StartChild} {l : Log} (h : Inv ok s l) (hk : ok' → ok) : Inv ok' s l := by
  obtain ⟨pc, sd, spkt, ch, k⟩ := s
  cases pc with
  | client pc =>
    cases pc with
    | refuse => exact ⟨h.1, h.2.1, fun hk' => h.2.2 (hk hk')⟩
    | _ => exact h
  | closeUdt | closeTcp | returned => exact h.imp (fun hd => ⟨hd.1.mono hk, hd.2⟩) id
  | _ => exact h

/-- the packet after a receive of all eight bytes is what came -/
theorem bytes_of_whole {q : SockPkt} {data : List UInt8} (h : data.length = 8) : (q.recvAt 0 data).bytes = data := by
  rw [SockPkt.bytes_recvAt_zero q h.le, h, List.drop_of_length_le (by rw [SockPkt.length_bytes]), List.append_nil]

theorem step_inv {g : Globals} {ok : Prop} {s : StartChild} {l : Log} {c : Call} {a : Ans} (h : Inv ok s l)
    (hG : ok → ¬ BadCommand s a) (hc : call g s = some c) (hok : permitted c a = true) :
    Inv ok (resume g s a) (l ++ [(c, a)]) := by
  obtain ⟨pc, sd, spkt, ch, k⟩ := s
  cases pc with
  | server pc => exact h.elim
  | client pc =>
    cases pc with
    | peername =>
      obtain rfl : Call.getpeername sd = c := Option.some.inj hc
      obtain ⟨hb, hout, htcp⟩ := h
      obtain ⟨hb', hout'⟩ := hb.quiet hout (e := (Call.getpeername sd, a)) rfl rfl rfl rfl rfl
      refine ⟨hb', hout', ?_⟩
      rw [tcpIn_append, htcp]; rfl
    | socket =>
      obtain rfl : Call.udtSocket = c := Option.some.inj hc
      obtain ⟨hb, hout, htcp⟩ := h
      obtain ⟨hb', hout'⟩ := hb.quiet hout (e := (Call.udtSocket, a)) rfl rfl rfl rfl rfl
      refine ⟨hb', hout', ?_⟩
      rw [tcpIn_append, htcp]; rfl
    | request =>
      obtain rfl : Call.recv k.tcpsock 8 true = c := Option.some.inj hc
      obtain ⟨hb, hout, htcp⟩ := h
      obtain ⟨hb', hout'⟩ := hb.quiet hout (e := (Call.recv k.tcpsock 8 true, a)) rfl rfl rfl rfl rfl
      simp only [resume, cliResume, request]
      split_ifs with hv hcd
      · exact ⟨hb', hout', fun _ => (by decide : (91 : UInt8) ≠ 90)⟩
      · refine ⟨hb', hout', ?_⟩
        intro hk
        exact absurd ⟨rfl, not_not.1 hv, hcd⟩ (hG hk)
      · refine ⟨hb', hout', not_not.1 hv, not_not.1 hcd, ?_⟩
        intro hr
        have h8 := length_of_waitall hok (received_singleton.1 (received_append.1 hr).2)
        refine ⟨[], nulFree_nil, ?_⟩
        rw [bytesIn_append, List.append_nil]
        simp only [bytesIn, htcp, List.nil_append, bytes_of_whole h8]
        simp [tcpIn]
    | refuse =>
      obtain rfl : Call.send k.tcpsock spkt.bytes = c := Option.some.inj hc
      obtain ⟨hb, hout, hcd⟩ := h
      refine Or.inl ⟨⟨?_, ?_, spkt, hcd, _, a, List.mem_append_right _ List.mem_cons_self, ?_⟩,
        hb.notStarted.snoc rfl⟩
      · rw [udtIn_append, hb.noBytes]; rfl
      · rw [udtOut_append, hout]; rfl
      · rw [tcpOut_append, hb.told]; simp [tcpOut]
    | userId =>
      obtain rfl : Call.recv k.tcpsock 1 false = c := Option.some.inj hc
      obtain ⟨hb, hout, hscan⟩ := h
      obtain ⟨hb', hout'⟩ := hb.quiet hout (e := (Call.recv k.tcpsock 1 false, a)) rfl rfl rfl rfl rfl
      obtain ⟨hgo, hend⟩ := hscan.snoc ch (e := (Call.recv k.tcpsock 1 false, a)) (by simp [bytesIn, tcpIn])
        (fun hr => length_one_of_permitted (permitted_recv hok) (by simpa [received] using hr))
      simp only [resume, cliResume, userId]
      split_ifs with hz
      · exact ⟨hb', hout', hgo hz⟩
      · exact ⟨hb', hout', hend (not_not.1 hz)⟩
    | options =>
      obtain rfl : Call.setUdtOptions k.udtsock = c := Option.some.inj hc
      obtain ⟨hb, hout, hp⟩ := h
      obtain ⟨hb', hout'⟩ := hb.quiet hout (e := (Call.setUdtOptions k.udtsock, a)) rfl rfl rfl rfl rfl
      simp only [resume, cliResume]
      split_ifs
      · exact ⟨hb'.told, hb'.noBytes, hout', hb'.notStarted⟩
      · exact ⟨hb', hout', hp.snoc rfl⟩
    | bind =>
      obtain rfl : Call.udtBind k.udtsock (bindAddr g) = c := Option.some.inj hc
      obtain ⟨hb, hout, hp⟩ := h
      obtain ⟨hb', hout'⟩ := hb.quiet hout (e := (Call.udtBind k.udtsock (bindAddr g), a)) rfl rfl rfl rfl rfl
      simp only [resume, cliResume]
      split_ifs
      · exact ⟨hb'.told, hb'.noBytes, hout', hb'.notStarted⟩
      · exact ⟨hb', hout', hp.snoc rfl⟩
    | connect =>
      obtain rfl : Call.udtConnect k.udtsock g.peeraddr = c := Option.some.inj hc
      obtain ⟨hb, hout, hp⟩ := h
      obtain ⟨hb', hout'⟩ := hb.quiet hout (e := (Call.udtConnect k.udtsock g.peeraddr, a)) rfl rfl rfl rfl rfl
      simp only [resume, cliResume]
      split_ifs
      · exact ⟨hb', hout', fun _ => (by decide : (92 : UInt8) ≠ 90)⟩
      · exact ⟨hb', hout', hp.snoc rfl⟩
    | forward =>
      obtain rfl : Call.udtSend k.udtsock spkt.bytes = c := Option.some.inj hc
      obtain ⟨hb, hout, hp⟩ := h
      refine ⟨hb.snoc rfl rfl rfl rfl, hp.snoc rfl, a.rc.toNat, ?_⟩
      rw [udtOut_append, hout]
      simp [udtOut, resume, cliResume]
    | forwardNul =>
      obtain rfl : Call.udtSend k.udtsock [0] = c := Option.some.inj hc
      obtain ⟨hb, hp, m, hout⟩ := h
      refine ⟨hb.snoc rfl rfl rfl rfl, hp.snoc rfl, m, a.rc.toNat, ?_⟩
      rw [udtOut_append, hout]
      simp [udtOut, resume, cliResume]
    | reply =>
      obtain rfl : Call.udtRecv k.udtsock 8 = c := Option.some.inj hc
      obtain ⟨hb, hp, m, j, hout⟩ := h
      have hperm := permitted_udtRecv hok
      have htold' : tcpOut (l ++ [(Call.udtRecv k.udtsock 8, a)]) = [] := by
        rw [tcpOut_append, hb.told]; rfl
      have hout' : udtOut (l ++ [(Call.udtRecv k.udtsock 8, a)]) = spkt.bytes.take m ++ [0].take j := by
        rw [udtOut_append, hout]; simp [udtOut]
      have hin' : udtIn (l ++ [(Call.udtRecv k.udtsock 8, a)]) = a.data := by
        rw [udtIn_append, hb.noBytes]; simp [udtIn]
      simp only [resume, cliResume]
      split_ifs with h0
      · -- nothing came: once more
        have hnil : a.data = [] := (length_of_permitted hperm).2.2 h0.le
        rw [hnil, SockPkt.recvAt_nil]
        rw [hnil] at hin'
        exact ⟨⟨htold', hin', hb.noReply.snoc fun _ _ _ => h0, hb.notStarted.snoc rfl⟩, hp.snoc rfl, m, j, hout'⟩
      · refine ⟨htold', hb.notStarted.snoc rfl, spkt, hp.snoc rfl, ⟨m, j, hout'⟩, a, ⟨?_, h0, hperm, ?_, hin'⟩, rfl⟩
        · exact ⟨_, List.mem_append_right _ List.mem_cons_self⟩
        · intro e he sd' n hd
          rcases List.mem_append.1 he with he | he
          · exact Or.inr (hb.noReply e he sd' n hd)
          · rw [List.mem_singleton.1 he]; exact Or.inl rfl
    | answer =>
      obtain rfl : Call.send k.tcpsock spkt.bytes = c := Option.some.inj hc
      obtain ⟨htold, hns, req, hr⟩ := h
      have hr' : Replied req spkt (l ++ [(Call.send k.tcpsock spkt.bytes, a)]) := hr.snoc rfl rfl rfl rfl
      have ht' : Told spkt (l ++ [(Call.send k.tcpsock spkt.bytes, a)]) := by
        refine ⟨_, a, List.mem_append_right _ List.mem_cons_self, ?_⟩
        rw [tcpOut_append, htold]
        simp [tcpOut]
      have hns' : NotStarted (l ++ [(Call.send k.tcpsock spkt.bytes, a)]) := hns.snoc rfl
      simp only [resume, cliResume]
      split_ifs with hcd
      · exact Or.inr ⟨req, spkt, hr', ht', fun _ => hns'⟩
      · exact ⟨hns', req, spkt, hr', ht', not_not.1 hcd⟩
  | createWorkers =>
    obtain ⟨-, req, p, hr, ht, hcd⟩ := h
    cases hc
    exact ⟨req, p, hr.snoc rfl rfl rfl rfl, ht.snoc rfl, hcd⟩
  | joinWorkers =>
    obtain ⟨req, p, hr, ht, hcd⟩ := h
    cases hc
    exact Or.inr ⟨req, p, hr.snoc rfl rfl rfl rfl, ht.snoc rfl, fun hne => absurd hcd hne⟩
  | closeUdt | closeTcp =>
    cases hc
    rcases h with ⟨hd, hns⟩ | ⟨req, p, hr, ht, hns⟩
    · exact Or.inl ⟨hd.snoc rfl rfl rfl, hns.snoc rfl⟩
    · exact Or.inr ⟨req, p, hr.snoc rfl rfl rfl rfl, ht.snoc rfl, fun hne => (hns hne).snoc rfl⟩
  | returned => cases hc
  | exited => cases hc
  | aborted => exact h.elim
  | undefined => exact h.elim

/-- what the application was answered, wherever the branch is -/
theorem outcome {ok : Prop} {s : StartChild} {l : Log} (h : Inv ok s l) :
    (tcpOut l = [] ∧ NotStarted l) ∨ (Declined ok l ∧ NotStarted l) ∨
      ∃ req p, Replied req p l ∧ Told p l ∧ (p.cd ≠ 90 → NotStarted l) := by
  obtain ⟨pc, sd, spkt, ch, k⟩ := s
  cases pc with
  | server pc => exact h.elim
  | client pc =>
    cases pc with
    | answer => exact Or.inl ⟨h.1, h.2.1⟩
    | _ => exact Or.inl ⟨h.1.told, h.1.notStarted⟩
  | createWorkers =>
    obtain ⟨hns, req, p, hr, ht, -⟩ := h
    exact Or.inr (Or.inr ⟨req, p, hr, ht, fun _ => hns⟩)
  | joinWorkers =>
    obtain ⟨req, p, hr, ht, hcd⟩ := h
    exact Or.inr (Or.inr ⟨req, p, hr, ht, fun hne => absurd hcd hne⟩)
  | closeUdt => exact Or.inr h
  | closeTcp => exact Or.inr h
  | returned => exact Or.inr h
  | exited => exact Or.inl ⟨h.1, h.2.2.2⟩
  | aborted => exact h.elim
  | undefined => exact h.elim

/-- what the server was sent, wherever the branch is -/
theorem forwarded {ok : Prop} {s : StartChild} {l : Log} (h : Inv ok s l) :
    udtOut l = [] ∨ ∃ req, Parsed .tcp req l ∧ Forwarded req l := by
  have hreplied : (∃ req p, Replied req p l) → udtOut l = [] ∨ ∃ req, Parsed .tcp req l ∧ Forwarded req l := by
    rintro ⟨req, p, hr⟩
    exact Or.inr ⟨req, hr.parsed, hr.forwarded⟩
  obtain ⟨pc, sd, spkt, ch, k⟩ := s
  cases pc with
  | server pc => exact h.elim
  | client pc =>
    cases pc with
    | forwardNul =>
      obtain ⟨-, hp, m, hout⟩ := h
      exact Or.inr ⟨spkt, hp, m, 0, by rw [hout]; simp⟩
    | reply => exact Or.inr ⟨spkt, h.2⟩
    | answer =>
      obtain ⟨-, -, req, hr⟩ := h
      exact hreplied ⟨req, spkt, hr⟩
    | _ => exact Or.inl h.2.1
  | createWorkers =>
    obtain ⟨-, req, p, hr, -⟩ := h
    exact hreplied ⟨req, p, hr⟩
  | joinWorkers =>
    obtain ⟨req, p, hr, -⟩ := h
    exact hreplied ⟨req, p, hr⟩
  | closeUdt | closeTcp | returned =>
    rcases h with ⟨⟨-, hout, -⟩, -⟩ | ⟨req, p, hr, -⟩
    · exact Or.inl hout
    · exact hreplied ⟨req, p, hr⟩
  | exited => exact Or.inl h.2.2.1
  | aborted => exact h.elim
  | undefined => exact h.elim

end Client

end UdtGate
