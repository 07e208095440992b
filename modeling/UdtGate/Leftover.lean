/-
What the uninitialised locals of `start_child` decide: two threads with different contents of `spkt` and `c` and the
same answers to their calls.

`Known` counts what has been received into the two variables: the first `pkt` bytes of the packet, and `c` or not. The
server loops until its packet is whole; the client goes on with whatever its MSG_WAITALL receive delivered; and both
test `c` after a receive that may have delivered nothing.

- `same_decisions_iff`: all contents of `spkt` and `c` lead to the same calls, arguments and branches in every state of
  a run if and only if no step of it uses a byte that was not received.
- `leftover_decides`: the application closes at once, and what was left in `spkt` is taken for its request or not.
-/
import UdtGate.HeaderLoop

namespace UdtGate

open UdtGate.Core

/-! ## What was received -/

/-- the first `pkt` bytes of `spkt` were received, and so was `c` when `chr` is set -/
structure Known where
  pkt : ℕ
  chr : Bool
deriving DecidableEq

namespace Known

open StartChild

/-- after the answer `a` at the point `pc` -/
def next (k : Known) (pc : Pc) (a : Ans) : Known :=
  match pc with
  | .server (.header p) => { k with pkt := max k.pkt (p.toNat + a.data.length) }
  | .client .request | .client .reply => { k with pkt := max k.pkt a.data.length }
  | .server .userId | .client .userId => { k with chr := k.chr || a.data ≠ [] }
  | _ => k

end Known

/-- a thread, its log, and what it has received -/
structure Tracked where
  run : Machine.Logged StartChild Call Ans
  known : Known
deriving DecidableEq

namespace Tracked

open StartChild

def start (s : StartChild) : Tracked := ⟨⟨s, []⟩, ⟨0, false⟩⟩

def step (g : Globals) (s : Tracked) (a : Ans) : Option Tracked :=
  ((machine g).logged.step permitted s.run a).map fun r => ⟨r, s.known.next s.run.st.pc a⟩

/-- all runs of the thread `s` -/
def system (g : Globals) (s : StartChild) : System Tracked Ans := ⟨fun t => t = start s, step g⟩

/-- the step uses no byte of `spkt` or `c` that was not received -/
def Uses (s : Tracked) (a : Ans) : Prop :=
  match s.run.st.pc with
  -- bytes stored in front of the packet are nobody's
  | .server (.header p) => ¬ (p < 0 ∧ a.data ≠ [])
  -- the condition of the loop tests `c`
  | .server .userId | .client .userId => a.data ≠ [] ∨ s.known.chr = true
  -- version and command are tested, and a refusal sends the packet back
  | .client .request => a.data.length = 8 ∨ (a.data[0]? = some 4 ∧ a.data[1]? = some 1)
  -- the packet is sent, to the application or into the tunnel
  | .client .connect => s.known.pkt = 8
  | _ => True

instance (s : Tracked) (a : Ans) : Decidable (s.Uses a) := by unfold Uses; split <;> infer_instance

/-- the two threads are at the same point, they have made the same calls with the same arguments and received the same
answers, and they wait on the same call -/
structure Same (g : Globals) (s t : Machine.Logged StartChild Call Ans) : Prop where
  log : s.log = t.log
  pc : s.st.pc = t.st.pc
  call : call g s.st = call g t.st
  stored : s.st.pc ≠ .undefined

theorem step_cases {g : Globals} {s t : Tracked} {a : Ans} (h : step g s a = some t) :
    ∃ c, call g s.run.st = some c ∧ permitted c a = true ∧
      t = ⟨⟨resume g s.run.st a, s.run.log ++ [(c, a)]⟩, s.known.next s.run.st.pc a⟩ := by
  obtain ⟨r, hr, rfl⟩ := Option.map_eq_some_iff.1 h
  obtain ⟨c, hc, hok, rfl⟩ := Machine.logged_cases hr
  exact ⟨c, hc, hok, rfl⟩

/-- what is received is beside the run -/
theorem run_exec {g : Globals} {st : StartChild} {s t : Tracked} {as : List Ans}
    (h : (system g st).exec s as = some t) : (StartChild.system g st).exec s.run as = some t.run := by
  induction as generalizing s with
  | nil =>
    simp only [System.exec_nil, Option.some.injEq] at h ⊢
    rw [h]
  | cons a as ih =>
    obtain ⟨u, hu, ht⟩ := System.exec_cons.1 h
    obtain ⟨r, hr, rfl⟩ := Option.map_eq_some_iff.1 hu
    exact System.exec_cons.2 ⟨r, hr, ih ht⟩

/-! ## Two packets with a common front -/

/-- the packets agree on their first `n` bytes -/
def Front (n : ℕ) (p q : SockPkt) : Prop := ∀ i < n, p.bytes[i]? = q.bytes[i]?

theorem Front.eq {p q : SockPkt} (h : Front 8 p q) : p = q := by
  apply SockPkt.bytes_injective
  apply List.ext_getElem?
  intro i
  by_cases hi : i < 8
  · exact h i hi
  · rw [List.getElem?_eq_none (by rw [SockPkt.length_bytes]; omega),
      List.getElem?_eq_none (by rw [SockPkt.length_bytes]; omega)]

theorem Front.refl (n : ℕ) (p : SockPkt) : Front n p p := fun _ _ => rfl

theorem Front.vn {n : ℕ} {p q : SockPkt} (h : Front n p q) (hn : 0 < n) : p.vn = q.vn := Option.some.inj (h 0 hn)

theorem Front.cd {n : ℕ} {p q : SockPkt} (h : Front n p q) (hn : 1 < n) : p.cd = q.cd := Option.some.inj (h 1 hn)

/-- a byte after a receive -/
theorem getElem?_recvAt (p : SockPkt) {off : ℕ} {bs : List UInt8} (h : off + bs.length ≤ 8) (i : ℕ) :
    (p.recvAt off bs).bytes[i]? = if off ≤ i ∧ i < off + bs.length then bs[i - off]? else p.bytes[i]? := by
  rw [SockPkt.bytes_recvAt p h, getElem?_store (by rw [SockPkt.length_bytes]; exact h)]

/-- a receive behind, or over, the common front -/
theorem Front.recvAt {n off : ℕ} {p q : SockPkt} {bs : List UInt8} (h : Front n p q) (hoff : off ≤ n)
    (hfit : off + bs.length ≤ 8) : Front (max n (off + bs.length)) (p.recvAt off bs) (q.recvAt off bs) := by
  intro i hi
  rw [getElem?_recvAt p hfit, getElem?_recvAt q hfit]
  split_ifs with hin
  · rfl
  · apply h i
    rcases lt_max_iff.1 hi with hn | hb
    · exact hn
    · exact lt_of_not_ge fun hge => hin ⟨le_trans hoff hge, hb⟩

/-- `c` after a receive into it, when that or an earlier one delivered a byte -/
theorem recvChar_eq {k : Known} {c c' : UInt8} {bs : List UInt8} (h : bs ≠ [] ∨ k.chr = true)
    (hc : k.chr = true → c = c') : recvChar c bs = recvChar c' bs := by
  cases bs with
  | nil => exact hc (h.resolve_left fun hne => hne rfl)
  | cons b bs => rfl

/-! ## Two threads in step -/

/-- before the sockets of a thread are set -/
def unopened : Pc → Bool
  | .server .peername | .server .socket | .client .peername | .client .socket => true
  | _ => false

/-- the threads are at the same point and agree on what was received -/
structure Agree (k : Known) (s t : StartChild) : Prop where
  pc : s.pc = t.pc
  servsock : s.servsock = t.servsock
  cargs : unopened s.pc = false → s.cargs = t.cargs
  spkt : Front k.pkt s.spkt t.spkt
  c : k.chr = true → s.c = t.c

/-- how much of the packet was received at a point -/
def Enough (k : Known) : Pc → Prop
  | .server .peername | .server .socket | .client .peername | .client .socket | .client .request => True
  | .server (.header p) => p < 8 ∧ p.toNat ≤ k.pkt
  | .client .userId | .client .options | .client .bind | .client .connect => True
  | .server _ | .client _ => k.pkt = 8
  | .undefined => False
  | _ => True

/-- threads that agree wait on the same call -/
theorem call_eq {g : Globals} {k : Known} {s t : StartChild} (h : Agree k s t) (he : Enough k s.pc) :
    call g s = call g t := by
  obtain ⟨pc, sd, spkt, ch, ca⟩ := s
  obtain ⟨pc', sd', spkt', ch', ca'⟩ := t
  obtain ⟨rfl, rfl, hcargs, hfront, -⟩ := h
  have hwhole : k.pkt = 8 → spkt = spkt' := fun h8 => Front.eq (h8 ▸ hfront)
  cases pc with
  | server pc =>
    cases pc with
    | peername | socket => rfl
    | header p | userId | check =>
      obtain rfl := hcargs rfl
      rfl
    | reject | connect | refuse | granted =>
      obtain rfl := hcargs rfl
      obtain rfl := hwhole he
      rfl
  | client pc =>
    cases pc with
    | peername | socket => rfl
    | request | userId | options | bind | connect =>
      obtain rfl := hcargs rfl
      rfl
    | refuse | forward | forwardNul | reply | answer =>
      obtain rfl := hcargs rfl
      obtain rfl := hwhole he
      rfl
  | _ =>
    obtain rfl := hcargs rfl
    rfl

/-- the tests after the header loop -/
theorem agree_header {k : Known} {s t : StartChild} (hsd : s.servsock = t.servsock) (hk : s.cargs = t.cargs)
    (hf : Front k.pkt s.spkt t.spkt) (hc : k.chr = true → s.c = t.c) {p : ℤ} (hp : p.toNat ≤ k.pkt)
    (h8 : k.pkt ≤ 8) : Agree k (header s p) (header t p) ∧ Enough k (header s p).pc := by
  by_cases hlt : p < 8
  · simp only [header, if_pos hlt]
    exact ⟨⟨rfl, hsd, fun _ => hk, hf, hc⟩, hlt, hp⟩
  · have hpkt : k.pkt = 8 := by omega
    have hspkt : s.spkt = t.spkt := Front.eq (hpkt ▸ hf)
    simp only [header, if_neg hlt, ← hspkt]
    split_ifs
    · exact ⟨⟨rfl, hsd, fun _ => hk, Front.refl _ _, hc⟩, hpkt⟩
    · exact ⟨⟨rfl, hsd, fun _ => hk, Front.refl _ _, hc⟩, hpkt⟩
    · exact ⟨⟨rfl, hsd, fun _ => hk, Front.refl _ _, hc⟩, hpkt⟩

/-- the tests of a request of which enough was received -/
theorem agree_request {k : Known} {s t : StartChild} (hsd : s.servsock = t.servsock) (hk : s.cargs = t.cargs)
    (hf : Front k.pkt s.spkt t.spkt) (hc : k.chr = true → s.c = t.c)
    (hp : k.pkt = 8 ∨ (s.spkt.vn = 4 ∧ s.spkt.cd = 1 ∧ t.spkt.vn = 4 ∧ t.spkt.cd = 1)) :
    Agree k (request s) (request t) ∧ Enough k (request s).pc := by
  rcases hp with hp | ⟨hv, hcd, hv', hcd'⟩
  · have hspkt : s.spkt = t.spkt := Front.eq (hp ▸ hf)
    simp only [request, ← hspkt]
    split_ifs
    · exact ⟨⟨rfl, hsd, fun _ => hk, Front.refl _ _, hc⟩, hp⟩
    · exact ⟨⟨rfl, hsd, fun _ => hk, Front.refl _ _, hc⟩, hp⟩
    · exact ⟨⟨rfl, hsd, fun _ => hk, Front.refl _ _, hc⟩, trivial⟩
  · simp only [request, hv, hcd, hv', hcd', ne_eq, not_true_eq_false, if_false]
    exact ⟨⟨rfl, hsd, fun _ => hk, hf, hc⟩, trivial⟩

theorem length_of_recv8 {a : Ans} (h : (a.rc = a.data.length ∧ a.rc ≤ 8) ∨ (a.rc = -1 ∧ a.data = [])) :
    a.data.length ≤ 8 := by
  obtain ⟨hlen, -, -⟩ := length_of_permitted h
  omega

/-- version and command of a packet whose first two bytes were received -/
theorem vn_cd_recvAt {p : SockPkt} {bs : List UInt8} (hfit : bs.length ≤ 8) (h0 : bs[0]? = some 4)
    (h1 : bs[1]? = some 1) : (p.recvAt 0 bs).vn = 4 ∧ (p.recvAt 0 bs).cd = 1 := by
  have hb := SockPkt.bytes_recvAt_zero p hfit
  obtain ⟨hl0, hb0⟩ := List.getElem?_eq_some_iff.1 h0
  obtain ⟨hl1, hb1⟩ := List.getElem?_eq_some_iff.1 h1
  have hv : (p.recvAt 0 bs).bytes[0]? = some (p.recvAt 0 bs).vn := rfl
  have hc : (p.recvAt 0 bs).bytes[1]? = some (p.recvAt 0 bs).cd := rfl
  rw [hb, List.getElem?_append_left hl0, h0] at hv
  rw [hb, List.getElem?_append_left hl1, h1] at hc
  exact ⟨(Option.some.inj hv).symm, (Option.some.inj hc).symm⟩

/-- a receive of the header loop that stores nothing in front of the packet stores nothing behind it -/
theorem header_uses {sd p : ℤ} {a : Ans} {m : ℕ} (hok : permitted (.udtRecv sd (8 - p)) a = true) (hlt : p < 8)
    (hp : p.toNat ≤ m) (hdef : ¬ (p < 0 ∧ a.data ≠ [])) :
    p.toNat + a.data.length ≤ 8 ∧ (p + a.rc).toNat ≤ max m (p.toNat + a.data.length) := by
  constructor
  · by_cases hdata : a.data = []
    · rw [hdata, List.length_nil]
      omega
    · obtain ⟨hlen, -, -⟩ := length_of_permitted (permitted_udtRecv hok)
      have h0 : 0 ≤ p := not_lt.1 fun hneg => hdef ⟨hneg, hdata⟩
      omega
  · rcases permitted_udtRecv hok with ⟨hrc, -⟩ | ⟨hrc, -⟩
    · omega
    · omega

/-- what the condition on the request gives for its tests -/
theorem request_uses {k : Known} {p q : SockPkt} {bs : List UInt8} (hfit : bs.length ≤ 8) (h8 : k.pkt ≤ 8)
    (hu : bs.length = 8 ∨ (bs[0]? = some 4 ∧ bs[1]? = some 1)) :
    max k.pkt bs.length = 8 ∨ ((p.recvAt 0 bs).vn = 4 ∧ (p.recvAt 0 bs).cd = 1 ∧ (q.recvAt 0 bs).vn = 4 ∧
      (q.recvAt 0 bs).cd = 1) := by
  rcases hu with hlen | ⟨h0, h1⟩
  · exact Or.inl (by omega)
  · obtain ⟨hv, hc⟩ := vn_cd_recvAt (p := p) hfit h0 h1
    obtain ⟨hv', hc'⟩ := vn_cd_recvAt (p := q) hfit h0 h1
    exact Or.inr ⟨hv, hc, hv', hc'⟩

/-- the test of the user id, when `c` is what was received -/
theorem agree_userId {k : Known} {s t : StartChild} (pc : Pc) (h : Agree k s t) (hc : s.c = t.c)
    (hpc : unopened s.pc = unopened pc) (he : Enough k s.pc) (hepc : Enough k pc) :
    Agree k (userId s pc) (userId t pc) ∧ Enough k (userId s pc).pc := by
  unfold userId
  rw [← hc]
  split_ifs
  · exact ⟨h, he⟩
  · refine ⟨⟨rfl, h.servsock, ?_, h.spkt, fun _ => rfl⟩, hepc⟩
    intro hu
    exact h.cargs (hpc.trans hu)

/-- **One step of two threads.** The same answer keeps them in step, as long as no byte is used that was not
received. -/
theorem agree_step {g : Globals} {k : Known} {s t : StartChild} {l : Log} {a : Ans} {c : Call} (h : Agree k s t)
    (he : Enough k s.pc) (h8 : k.pkt ≤ 8) (hu : Uses ⟨⟨s, l⟩, k⟩ a) (hc : call g s = some c)
    (hok : permitted c a = true) :
    Agree (k.next s.pc a) (resume g s a) (resume g t a) ∧ Enough (k.next s.pc a) (resume g s a).pc ∧
      (k.next s.pc a).pkt ≤ 8 := by
  obtain ⟨pc, sd, spkt, ch, ca⟩ := s
  obtain ⟨pc', sd', spkt', ch', ca'⟩ := t
  obtain ⟨rfl, rfl, hcargs, hfront, hchr⟩ := h
  have hwhole : k.pkt = 8 → spkt = spkt' := fun h8 => Front.eq (h8 ▸ hfront)
  cases pc with
  | server pc =>
    cases pc with
    | peername => exact ⟨⟨rfl, rfl, (fun h => by cases h), hfront, hchr⟩, trivial, h8⟩
    | socket =>
      obtain ⟨hagree, henough⟩ := agree_header (k := k) (s := ⟨.server .socket, sd, spkt, ch, ⟨a.rc, sd⟩⟩)
        (t := ⟨.server .socket, sd, spkt', ch', ⟨a.rc, sd⟩⟩) rfl rfl hfront hchr (p := 0) (Nat.zero_le _) h8
      exact ⟨hagree, henough, h8⟩
    | header p =>
      obtain rfl : Call.udtRecv ca.udtsock (8 - p) = c := Option.some.inj hc
      obtain rfl := hcargs rfl
      obtain ⟨hlt, hp⟩ := he
      have hdef : ¬ (p < 0 ∧ a.data ≠ []) := hu
      obtain ⟨hfit, hpnat⟩ := header_uses hok hlt hp hdef
      have hle : max k.pkt (p.toNat + a.data.length) ≤ 8 := max_le h8 hfit
      simp only [resume, srvResume, if_neg hdef, Known.next]
      obtain ⟨hagree, henough⟩ := agree_header (k := ⟨max k.pkt (p.toNat + a.data.length), k.chr⟩)
        (s := ⟨.server (.header p), sd, spkt.recvAt p.toNat a.data, ch, ca⟩)
        (t := ⟨.server (.header p), sd, spkt'.recvAt p.toNat a.data, ch', ca⟩) rfl rfl (hfront.recvAt hp hfit) hchr
        hpnat hle
      exact ⟨hagree, henough, hle⟩
    | userId =>
      obtain rfl := hcargs rfl
      have hcc : recvChar ch a.data = recvChar ch' a.data := recvChar_eq hu hchr
      obtain ⟨hagree, henough⟩ := agree_userId (k := k.next (.server .userId) a)
        (s := ⟨.server .userId, sd, spkt, recvChar ch a.data, ca⟩)
        (t := ⟨.server .userId, sd, spkt', recvChar ch' a.data, ca⟩)
        (if g.netAccess < 2 then .server .check else .server .connect)
        ⟨rfl, rfl, fun _ => rfl, hfront, fun _ => hcc⟩ hcc (by split_ifs <;> rfl) he (by split_ifs <;> exact he)
      exact ⟨hagree, henough, h8⟩
    | check =>
      obtain rfl := hcargs rfl
      obtain rfl := hwhole he
      simp only [resume, srvResume]
      split_ifs
      · exact ⟨⟨rfl, rfl, fun _ => rfl, hfront, hchr⟩, trivial, h8⟩
      · split
        · exact ⟨⟨rfl, rfl, fun _ => rfl, hfront, hchr⟩, trivial, h8⟩
        · exact ⟨⟨rfl, rfl, fun _ => rfl, Front.refl _ _, hchr⟩, he, h8⟩
        · exact ⟨⟨rfl, rfl, fun _ => rfl, hfront, hchr⟩, he, h8⟩
    | connect =>
      obtain rfl := hcargs rfl
      obtain rfl := hwhole he
      simp only [resume, srvResume]
      split_ifs
      · exact ⟨⟨rfl, rfl, fun _ => rfl, Front.refl _ _, hchr⟩, he, h8⟩
      · exact ⟨⟨rfl, rfl, fun _ => rfl, Front.refl _ _, hchr⟩, he, h8⟩
    | reject | refuse | granted =>
      obtain rfl := hcargs rfl
      exact ⟨⟨rfl, rfl, fun _ => rfl, hfront, hchr⟩, trivial, h8⟩
  | client pc =>
    cases pc with
    | peername => exact ⟨⟨rfl, rfl, (fun h => by cases h), hfront, hchr⟩, trivial, h8⟩
    | socket => exact ⟨⟨rfl, rfl, fun _ => rfl, hfront, hchr⟩, trivial, h8⟩
    | request =>
      obtain rfl : Call.recv ca.tcpsock 8 true = c := Option.some.inj hc
      obtain rfl := hcargs rfl
      have hfit := length_of_recv8 (permitted_recv hok)
      have hle : max k.pkt a.data.length ≤ 8 := max_le h8 hfit
      have hf : Front (max k.pkt a.data.length) (spkt.recvAt 0 a.data) (spkt'.recvAt 0 a.data) := by
        have hf0 := hfront.recvAt (Nat.zero_le _) (show 0 + a.data.length ≤ 8 by omega)
        rwa [Nat.zero_add] at hf0
      obtain ⟨hagree, henough⟩ := agree_request (k := ⟨max k.pkt a.data.length, k.chr⟩)
        (s := ⟨.client .request, sd, spkt.recvAt 0 a.data, ch, ca⟩)
        (t := ⟨.client .request, sd, spkt'.recvAt 0 a.data, ch', ca⟩) rfl rfl hf hchr (request_uses hfit h8 hu)
      exact ⟨hagree, henough, hle⟩
    | userId =>
      obtain rfl := hcargs rfl
      have hcc : recvChar ch a.data = recvChar ch' a.data := recvChar_eq hu hchr
      obtain ⟨hagree, henough⟩ := agree_userId (k := k.next (.client .userId) a)
        (s := ⟨.client .userId, sd, spkt, recvChar ch a.data, ca⟩)
        (t := ⟨.client .userId, sd, spkt', recvChar ch' a.data, ca⟩) (.client .options)
        ⟨rfl, rfl, fun _ => rfl, hfront, fun _ => hcc⟩ hcc rfl trivial trivial
      exact ⟨hagree, henough, h8⟩
    | options | bind =>
      obtain rfl := hcargs rfl
      simp only [resume, cliResume]
      split_ifs
      · exact ⟨⟨rfl, rfl, fun _ => rfl, hfront, hchr⟩, trivial, h8⟩
      · exact ⟨⟨rfl, rfl, fun _ => rfl, hfront, hchr⟩, trivial, h8⟩
    | connect =>
      obtain rfl := hcargs rfl
      obtain rfl := hwhole hu
      simp only [resume, cliResume]
      split_ifs
      · exact ⟨⟨rfl, rfl, fun _ => rfl, Front.refl _ _, hchr⟩, hu, h8⟩
      · exact ⟨⟨rfl, rfl, fun _ => rfl, hfront, hchr⟩, hu, h8⟩
    | refuse =>
      obtain rfl := hcargs rfl
      exact ⟨⟨rfl, rfl, fun _ => rfl, hfront, hchr⟩, trivial, h8⟩
    | forward | forwardNul =>
      obtain rfl := hcargs rfl
      exact ⟨⟨rfl, rfl, fun _ => rfl, hfront, hchr⟩, he, h8⟩
    | reply =>
      obtain rfl : Call.udtRecv ca.udtsock 8 = c := Option.some.inj hc
      obtain rfl := hcargs rfl
      obtain rfl := hwhole he
      have hfit := length_of_recv8 (permitted_udtRecv hok)
      have hpkt : k.pkt = 8 := he
      have hmax : max k.pkt a.data.length = 8 := by omega
      simp only [resume, cliResume, Known.next, hmax]
      split_ifs
      · exact ⟨⟨rfl, rfl, fun _ => rfl, Front.refl _ _, hchr⟩, rfl, le_refl 8⟩
      · exact ⟨⟨rfl, rfl, fun _ => rfl, Front.refl _ _, hchr⟩, rfl, le_refl 8⟩
    | answer =>
      obtain rfl := hcargs rfl
      obtain rfl := hwhole he
      simp only [resume, cliResume]
      split_ifs
      · exact ⟨⟨rfl, rfl, fun _ => rfl, hfront, hchr⟩, trivial, h8⟩
      · exact ⟨⟨rfl, rfl, fun _ => rfl, hfront, hchr⟩, trivial, h8⟩
  | undefined => exact he.elim
  | _ =>
    obtain rfl := hcargs rfl
    exact ⟨⟨rfl, rfl, fun _ => rfl, hfront, hchr⟩, trivial, h8⟩

/-! ## All threads in step -/

/-- the threads that started with other contents of `spkt` and `c` have come as far as `s` -/
structure InStep (g : Globals) (mode : Mode) (sd : ℤ) (as : List Ans) (s : Tracked) : Prop where
  enough : Enough s.known s.run.st.pc
  bound : s.known.pkt ≤ 8
  all : ∀ spkt c k, ∃ t, (system g (StartChild.start mode sd spkt c k)).exec
    (start (StartChild.start mode sd spkt c k)) as = some t ∧ s.known = t.known ∧ s.run.log = t.run.log ∧
      Agree s.known s.run.st t.run.st

theorem inStep_start (g : Globals) (mode : Mode) (sd : ℤ) (spkt : SockPkt) (c : UInt8) (k : Cargs) :
    InStep g mode sd [] (start (StartChild.start mode sd spkt c k)) := by
  refine ⟨?_, Nat.zero_le _, ?_⟩
  · cases mode <;> trivial
  · intro spkt' c' k'
    refine ⟨_, rfl, rfl, rfl, ?_⟩
    cases mode <;> exact ⟨rfl, rfl, nofun, nofun, nofun⟩

/-- a step as the function of the source -/
theorem step_of {g : Globals} {s : Tracked} {c : Call} {a : Ans} (hc : call g s.run.st = some c)
    (hok : permitted c a = true) :
    step g s a = some ⟨⟨resume g s.run.st a, s.run.log ++ [(c, a)]⟩, s.known.next s.run.st.pc a⟩ := by
  simp only [step, Machine.step, Machine.logged, machine, hc, hok, if_true, Option.map_some]

theorem inStep_step {g : Globals} {mode : Mode} {sd : ℤ} {as : List Ans} {s t : Tracked} {a : Ans}
    (h : InStep g mode sd as s) (hu : Uses s a) (hs : step g s a = some t) : InStep g mode sd (as ++ [a]) t := by
  obtain ⟨he, h8, hall⟩ := h
  obtain ⟨c, hc, hok, rfl⟩ := step_cases hs
  have hstep : ∀ u, Agree s.known s.run.st u →
      Agree (s.known.next s.run.st.pc a) (resume g s.run.st a) (resume g u a) ∧
        Enough (s.known.next s.run.st.pc a) (resume g s.run.st a).pc ∧ (s.known.next s.run.st.pc a).pkt ≤ 8 :=
    fun u hagree => agree_step (l := s.run.log) hagree he h8 hu hc hok
  obtain ⟨t0, -, -, -, hagree0⟩ := hall ⟨0, 0, Bytes.zero 2, Bytes.zero 4⟩ 0 ⟨0, 0⟩
  obtain ⟨-, henough, hbound⟩ := hstep _ hagree0
  refine ⟨henough, hbound, ?_⟩
  intro spkt ch k
  obtain ⟨u, hexec, hknown, hlog, hagree⟩ := hall spkt ch k
  have hcall : call g u.run.st = some c := by rw [← call_eq hagree he]; exact hc
  refine ⟨_, System.exec_snoc.2 ⟨u, hexec, step_of hcall hok⟩, ?_, by rw [hlog], (hstep _ hagree).1⟩
  rw [hknown, hagree.pc]

/-- the threads stay in step along a run that uses only what was received -/
theorem inStep_run {g : Globals} {mode : Mode} {sd : ℤ} {st : StartChild} {s t : Tracked} {as bs : List Ans}
    (h : (system g st).exec s bs = some t) (hG : (system g st).Meets Uses s bs) (hs : InStep g mode sd as s) :
    InStep g mode sd (as ++ bs) t := by
  induction bs generalizing s as with
  | nil =>
    simp only [System.exec_nil, Option.some.injEq] at h
    rw [List.append_nil]
    exact h ▸ hs
  | cons b bs ih =>
    obtain ⟨u, hu, ht⟩ := System.exec_cons.1 h
    obtain ⟨hb, hrest⟩ := hG
    rw [hu] at hrest
    have hnext := ih ht hrest (inStep_step hs hb hu)
    rwa [List.append_assoc] at hnext

/-! ## Bytes that were never received -/

/-- the client before its packet is sent -/
def unsent : Pc → Bool
  | .client .peername | .client .socket | .client .request | .client .userId | .client .options | .client .bind
  | .client .connect => true
  | _ => false

/-- the client before it has received into its packet -/
def unasked : Pc → Bool
  | .client .peername | .client .socket | .client .request => true
  | _ => false

/-- what was not received is what was on the stack -/
structure Left (spkt : SockPkt) (c : UInt8) (s : Tracked) : Prop where
  chr : s.known.chr = false → s.run.st.c = c
  pkt : unsent s.run.st.pc = true → ∀ i, s.known.pkt ≤ i → s.run.st.spkt.bytes[i]? = spkt.bytes[i]?
  asked : unasked s.run.st.pc = true → s.known.pkt = 0

theorem left_start (mode : Mode) (sd : ℤ) (spkt : SockPkt) (c : UInt8) (k : Cargs) :
    Left spkt c (start (StartChild.start mode sd spkt c k)) := ⟨fun _ => rfl, fun _ _ _ => rfl, fun _ => rfl⟩

theorem header_c (s : StartChild) (p : ℤ) : (header s p).c = s.c := by
  unfold header
  split_ifs <;> rfl

theorem userId_c (s : StartChild) (pc : Pc) : (userId s pc).c = s.c := by
  unfold userId
  split_ifs <;> rfl

theorem request_c (s : StartChild) : (request s).c = s.c := by
  unfold request
  split_ifs <;> rfl

/-- `c` is written by the two scans only -/
theorem resume_c (g : Globals) (s : StartChild) (a : Ans) :
    (resume g s a).c = s.c ∨ ((s.pc = .server .userId ∨ s.pc = .client .userId) ∧ a.data ≠ []) := by
  obtain ⟨pc, sd, spkt, ch, k⟩ := s
  have hscan : recvChar ch a.data = ch ∨ a.data ≠ [] := by
    cases a.data with
    | nil => exact Or.inl rfl
    | cons b bs => exact Or.inr (List.cons_ne_nil _ _)
  cases pc with
  | server pc =>
    cases pc with
    | socket => exact Or.inl (header_c _ _)
    | header p =>
      left
      simp only [resume, srvResume]
      split_ifs
      · rfl
      · exact header_c _ _
    | userId =>
      rcases hscan with hsame | hdata
      · exact Or.inl ((userId_c _ _).trans hsame)
      · exact Or.inr ⟨Or.inl rfl, hdata⟩
    | check =>
      left
      simp only [resume, srvResume]
      split_ifs
      · rfl
      · split <;> rfl
    | connect =>
      left
      simp only [resume, srvResume]
      split_ifs <;> rfl
    | _ => exact Or.inl rfl
  | client pc =>
    cases pc with
    | request => exact Or.inl (request_c _)
    | userId =>
      rcases hscan with hsame | hdata
      · exact Or.inl ((userId_c _ _).trans hsame)
      · exact Or.inr ⟨Or.inr rfl, hdata⟩
    | options | bind | connect | reply | answer =>
      left
      simp only [resume, cliResume]
      split_ifs <;> rfl
    | _ => exact Or.inl rfl
  | _ => exact Or.inl rfl

/-- before it is sent, the packet of the client is written by the request only -/
theorem resume_spkt {g : Globals} {s : StartChild} {a : Ans} (h : unsent (resume g s a).pc = true) :
    unsent s.pc = true ∧ ((s.pc = .client .request ∧ (resume g s a).spkt = s.spkt.recvAt 0 a.data) ∨
      (resume g s a).spkt = s.spkt) := by
  obtain ⟨pc, sd, spkt, ch, k⟩ := s
  cases pc with
  | server pc =>
    cases pc with
    | socket =>
      simp only [resume, srvResume, header] at h
      split_ifs at h <;> cases h
    | header p =>
      simp only [resume, srvResume, header] at h
      split_ifs at h <;> cases h
    | userId =>
      simp only [resume, srvResume, userId] at h
      split_ifs at h <;> cases h
    | check =>
      simp only [resume, srvResume] at h
      split_ifs at h
      · cases h
      · split at h <;> cases h
    | connect =>
      simp only [resume, srvResume] at h
      split_ifs at h <;> cases h
    | _ => cases h
  | client pc =>
    cases pc with
    | peername | socket => exact ⟨rfl, Or.inr rfl⟩
    | request =>
      refine ⟨rfl, Or.inl ⟨rfl, ?_⟩⟩
      simp only [resume, cliResume, request] at h ⊢
      split_ifs at h ⊢
      · cases h
      · cases h
      · rfl
    | userId =>
      refine ⟨rfl, Or.inr ?_⟩
      simp only [resume, cliResume, userId]
      split_ifs <;> rfl
    | options | bind =>
      refine ⟨rfl, Or.inr ?_⟩
      simp only [resume, cliResume]
      split_ifs <;> rfl
    | connect | reply | answer =>
      simp only [resume, cliResume] at h
      split_ifs at h <;> cases h
    | _ => cases h
  | _ => cases h

theorem resume_unasked {g : Globals} {s : StartChild} {a : Ans} (h : unasked (resume g s a).pc = true) :
    s.pc = .client .peername ∨ s.pc = .client .socket := by
  have hun : unsent (resume g s a).pc = true := by
    unfold unasked at h
    split at h
    · rename_i hpc; rw [hpc]; rfl
    · rename_i hpc; rw [hpc]; rfl
    · rename_i hpc; rw [hpc]; rfl
    · cases h
  obtain ⟨hclient, -⟩ := resume_spkt hun
  obtain ⟨pc, sd, spkt, ch, k⟩ := s
  cases pc with
  | client pc =>
    cases pc with
    | peername => exact Or.inl rfl
    | socket => exact Or.inr rfl
    | request =>
      simp only [resume, cliResume, request] at h
      split_ifs at h <;> cases h
    | userId =>
      simp only [resume, cliResume, userId] at h
      split_ifs at h <;> cases h
    | options | bind | connect =>
      simp only [resume, cliResume] at h
      split_ifs at h <;> cases h
    | _ => cases hclient
  | _ => cases hclient

theorem left_step {g : Globals} {spkt : SockPkt} {c : UInt8} {s t : Tracked} {a : Ans} (h : Left spkt c s)
    (hs : step g s a = some t) : Left spkt c t := by
  obtain ⟨call, hc, hok, rfl⟩ := step_cases hs
  constructor
  · intro hchr
    rcases resume_c g s.run.st a with hsame | ⟨hpc, hdata⟩
    · rw [hsame]
      apply h.chr
      simp only [Known.next] at hchr
      split at hchr
      · exact hchr
      · exact hchr
      · exact hchr
      · exact (Bool.or_eq_false_iff.1 hchr).1
      · exact (Bool.or_eq_false_iff.1 hchr).1
      · exact hchr
    · exfalso
      rcases hpc with hpc | hpc <;> simp [Known.next, hpc, hdata] at hchr
  · intro hun i hi
    obtain ⟨hun', hcases⟩ := resume_spkt hun
    rcases hcases with ⟨hpc, hspkt⟩ | hspkt
    · have hcall : Call.recv s.run.st.cargs.tcpsock 8 true = call := by
        simpa [StartChild.call, hpc, cliCall] using hc
      subst hcall
      have hfit := length_of_recv8 (permitted_recv hok)
      simp only [Known.next, hpc] at hi
      simp only
      rw [hspkt, getElem?_recvAt _ (by omega), if_neg (by omega)]
      exact h.pkt hun' i (le_trans (le_max_left _ _) hi)
    · simp only
      rw [hspkt]
      apply h.pkt hun' i
      refine le_trans ?_ hi
      simp only [Known.next]
      split <;> simp
  · intro hun
    simp only at hun ⊢
    rcases resume_unasked hun with hpc | hpc
    · rw [hpc]
      exact h.asked (by rw [hpc]; rfl)
    · rw [hpc]
      exact h.asked (by rw [hpc]; rfl)

/-! ## Contents that decide otherwise -/

/-- every byte is another one -/
def bump (p : SockPkt) : SockPkt := SockPkt.ofBytes (p.bytes.map (· + 1)) (by simp)

theorem getElem?_bump (p : SockPkt) {i : ℕ} (hi : i < 8) : (bump p).bytes[i]? ≠ p.bytes[i]? := by
  have hlt : i < p.bytes.length := by rw [SockPkt.length_bytes]; exact hi
  rw [bump, SockPkt.bytes_ofBytes, List.getElem?_map, List.getElem?_eq_getElem hlt]
  simp

/-- zero and not zero -/
def other (c : UInt8) : UInt8 := if c = 0 then 1 else 0

/-- packets that differ in their last byte are sent as different buffers, whatever their code is -/
theorem bytes_ne {p q : SockPkt} (h : p.bytes[7]? ≠ q.bytes[7]?) (b b' : UInt8) :
    ({ p with cd := b } : SockPkt).bytes ≠ ({ q with cd := b' } : SockPkt).bytes := by
  intro he
  have h7 : ({ p with cd := b } : SockPkt).bytes[7]? = ({ q with cd := b' } : SockPkt).bytes[7]? := by rw [he]
  exact h h7

theorem request_refused {s : StartChild} (h : ¬ (s.spkt.vn = 4 ∧ s.spkt.cd = 1)) :
    ∃ b, request s = { s with spkt := { s.spkt with cd := b }, pc := .client .refuse } := by
  unfold request
  split_ifs with hv hc
  · exact ⟨91, rfl⟩
  · exact ⟨90, rfl⟩
  · exact absurd ⟨not_not.1 hv, not_not.1 hc⟩ h

/-- a scan that receives nothing leaves the decision to `c` -/
theorem userId_differs {s t : StartChild} (h : s.c = 0 ↔ t.c ≠ 0) (hpc : s.pc = t.pc) {pc : Pc} (hne : s.pc ≠ pc) :
    (userId s pc).pc ≠ (userId t pc).pc := by
  unfold userId
  by_cases hc : s.c = 0
  · rw [if_neg (not_not.2 hc), if_pos (h.1 hc), ← hpc]
    exact hne.symm
  · have ht : t.c = 0 := not_not.1 fun hne => hc (h.2 hne)
    rw [if_pos hc, if_neg (not_not.2 ht)]
    exact hne

/-- tests of two packets that differ in the bytes not received -/
theorem request_differs {g : Globals} {s t : StartChild} {bs : List UInt8} {p q : SockPkt} (hfit : bs.length < 8)
    (hu : ¬ (bs[0]? = some 4 ∧ bs[1]? = some 1)) (hs : s.spkt = p.recvAt 0 bs) (ht : t.spkt = q.recvAt 0 bs)
    (hpq : ∀ i, bs.length ≤ i → i < 8 → p.bytes[i]? ≠ q.bytes[i]?) :
    (request s).pc ≠ (request t).pc ∨ call g (request s) ≠ call g (request t) := by
  have hbyte : ∀ i, bs.length ≤ i → i < 8 → s.spkt.bytes[i]? ≠ t.spkt.bytes[i]? := by
    intro i hi h8
    rw [hs, ht, getElem?_recvAt _ (by omega), getElem?_recvAt _ (by omega), if_neg (by omega), if_neg (by omega)]
    exact hpq i hi h8
  by_cases hok : s.spkt.vn = 4 ∧ s.spkt.cd = 1
  · by_cases hok' : t.spkt.vn = 4 ∧ t.spkt.cd = 1
    · -- the two tested bytes agree, so both were received
      exfalso
      have h0 : 0 < bs.length := by
        by_contra h0
        exact hbyte 0 (by omega) (by decide) (congrArg some (hok.1.trans hok'.1.symm))
      have h1 : 1 < bs.length := by
        by_contra h1
        exact hbyte 1 (by omega) (by decide) (congrArg some (hok.2.trans hok'.2.symm))
      apply hu
      have hb0 : s.spkt.bytes[0]? = some s.spkt.vn := rfl
      have hb1 : s.spkt.bytes[1]? = some s.spkt.cd := rfl
      rw [hs, getElem?_recvAt _ (by omega), if_pos ⟨le_refl 0, by omega⟩, ← hs, hok.1] at hb0
      rw [hs, getElem?_recvAt _ (by omega), if_pos ⟨Nat.zero_le 1, by omega⟩, ← hs, hok.2] at hb1
      exact ⟨hb0, hb1⟩
    · left
      obtain ⟨b, hb⟩ := request_refused hok'
      rw [hb, request, if_neg (not_not.2 hok.1), if_neg (not_not.2 hok.2)]
      exact fun h => by cases h
  · obtain ⟨b, hb⟩ := request_refused hok
    rw [hb]
    by_cases hok' : t.spkt.vn = 4 ∧ t.spkt.cd = 1
    · left
      rw [request, if_neg (not_not.2 hok'.1), if_neg (not_not.2 hok'.2)]
      exact fun h => by cases h
    · right
      obtain ⟨b', hb'⟩ := request_refused hok'
      rw [hb']
      intro he
      have hbytes := (Call.send.inj (Option.some.inj he)).2
      exact bytes_ne (hbyte 7 (by omega) (by decide)) b b' hbytes

/-- **A byte that was not received.** Threads that differ in all bytes not received part at a step that uses one. -/
theorem differs {g : Globals} {k : Known} {s t : StartChild} {l : Log} {a : Ans} {c : Call} {p : SockPkt} {c0 : UInt8}
    (h : Agree k s t) (he : Enough k s.pc) (h8 : k.pkt ≤ 8) (hu : ¬ Uses ⟨⟨s, l⟩, k⟩ a) (hc : call g s = some c)
    (hok : permitted c a = true) (hs : Left p c0 ⟨⟨s, l⟩, k⟩) (ht : Left (bump p) (other c0) ⟨⟨t, l⟩, k⟩) :
    (resume g s a).pc = .undefined ∨ (resume g s a).pc ≠ (resume g t a).pc ∨
      call g (resume g s a) ≠ call g (resume g t a) := by
  have hflip : k.chr = false → (s.c = 0 ↔ t.c ≠ 0) := by
    intro hchr
    rw [show s.c = c0 from hs.chr hchr, show t.c = other c0 from ht.chr hchr]
    unfold other
    split_ifs with h0
    · simp [h0]
    · simp [h0]
  have hpq : unsent s.pc = true → ∀ i, k.pkt ≤ i → i < 8 → s.spkt.bytes[i]? ≠ t.spkt.bytes[i]? := by
    intro hun i hi hi8
    rw [show s.spkt.bytes[i]? = p.bytes[i]? from hs.pkt hun i hi,
      show t.spkt.bytes[i]? = (bump p).bytes[i]? from ht.pkt (h.pc ▸ hun) i hi]
    exact (getElem?_bump p hi8).symm
  obtain ⟨pc, sd, spkt, ch, ca⟩ := s
  obtain ⟨pc', sd', spkt', ch', ca'⟩ := t
  obtain ⟨rfl, rfl, hcargs, -, -⟩ := h
  have hscan : ¬ (a.data ≠ [] ∨ k.chr = true) →
      k.chr = false ∧ recvChar ch a.data = ch ∧ recvChar ch' a.data = ch' := by
    intro hno
    have hdata : a.data = [] := not_not.1 fun hne => hno (Or.inl hne)
    rw [hdata]
    exact ⟨Bool.eq_false_iff.2 fun hchr => hno (Or.inr hchr), rfl, rfl⟩
  unfold Uses at hu
  cases pc with
  | server pc =>
    cases pc with
    | header p =>
      have hdef : p < 0 ∧ a.data ≠ [] := not_not.1 hu
      left
      simp only [resume, srvResume, if_pos hdef]
    | userId =>
      obtain ⟨hchr, hch, hch'⟩ := hscan hu
      right; left
      simp only [resume, srvResume, hch, hch']
      exact userId_differs (s := ⟨.server .userId, sd, spkt, ch, ca⟩) (t := ⟨.server .userId, sd, spkt', ch', ca'⟩)
        (hflip hchr) rfl (by split_ifs <;> exact fun h => by cases h)
    | _ => exact absurd trivial hu
  | client pc =>
    cases pc with
    | userId =>
      obtain ⟨hchr, hch, hch'⟩ := hscan hu
      right; left
      simp only [resume, cliResume, hch, hch']
      exact userId_differs (s := ⟨.client .userId, sd, spkt, ch, ca⟩) (t := ⟨.client .userId, sd, spkt', ch', ca'⟩)
        (hflip hchr) rfl (fun h => by cases h)
    | request =>
      obtain rfl : Call.recv ca.tcpsock 8 true = c := Option.some.inj hc
      have hfit := length_of_recv8 (permitted_recv hok)
      have hlt : a.data.length < 8 := lt_of_le_of_ne hfit fun h8 => hu (Or.inl h8)
      right
      apply request_differs hlt (fun h => hu (Or.inr h)) rfl rfl
      intro i hi hi8
      have hpkt : k.pkt = 0 := hs.asked rfl
      exact hpq rfl i (by rw [hpkt]; exact Nat.zero_le i) hi8
    | connect =>
      have hlt : k.pkt < 8 := lt_of_le_of_ne h8 hu
      have h7 := hpq rfl 7 (by omega) (by decide)
      right; right
      simp only [resume, cliResume]
      split_ifs
      · intro hcalls
        exact bytes_ne h7 92 92 (Call.send.inj (Option.some.inj hcalls)).2
      · intro hcalls
        have hbytes : spkt.bytes = spkt'.bytes := (Call.udtSend.inj (Option.some.inj hcalls)).2
        exact h7 (by simp only [hbytes])
    | _ => exact absurd trivial hu
  | _ => exact absurd trivial hu

/-! ## Main result -/

/-- every run has what was received beside it -/
theorem exec_tracked {g : Globals} {st : StartChild} {s : Tracked} {r : Machine.Logged StartChild Call Ans}
    {as : List Ans} (h : (StartChild.system g st).exec s.run as = some r) :
    ∃ t, (system g st).exec s as = some t ∧ t.run = r := by
  induction as generalizing s with
  | nil =>
    simp only [System.exec_nil, Option.some.injEq] at h
    exact ⟨s, rfl, h⟩
  | cons a as ih =>
    obtain ⟨u, hu, hr⟩ := System.exec_cons.1 h
    obtain ⟨t, ht, hrun⟩ := ih (s := ⟨u, s.known.next s.run.st.pc a⟩) hr
    exact ⟨t, System.exec_cons.2 ⟨_, Option.map_eq_some_iff.2 ⟨u, hu, rfl⟩, ht⟩, hrun⟩

/-- threads in step make the same decisions -/
theorem same_of_inStep {g : Globals} {mode : Mode} {sd : ℤ} {as : List Ans} {s : Tracked}
    (h : InStep g mode sd as s) (spkt : SockPkt) (c : UInt8) (k : Cargs) :
    ∃ t, (StartChild.system g (StartChild.start mode sd spkt c k)).exec ⟨StartChild.start mode sd spkt c k, []⟩ as =
      some t ∧ Same g s.run t := by
  obtain ⟨he, -, hall⟩ := h
  obtain ⟨t, ht, -, hlog, hagree⟩ := hall spkt c k
  refine ⟨t.run, run_exec ht, hlog, hagree.pc, call_eq hagree he, ?_⟩
  intro hpc
  rw [hpc] at he
  exact he

/-- **Leftover contents.** For every run of a thread that started with the contents `spkt` and `c`: in each of its
states, every thread that started with other contents and got the same answers has made the same calls with the same
arguments, is at the same point and waits on the same call, if and only if no step of the run uses a byte of `spkt` or
`c` that was not received. -/
theorem same_decisions_iff {g : Globals} {mode : Mode} {sd : ℤ} {spkt : SockPkt} {c : UInt8} {k : Cargs} {as : List Ans}
    {s : Machine.Logged StartChild Call Ans}
    (h : (StartChild.system g (StartChild.start mode sd spkt c k)).exec ⟨StartChild.start mode sd spkt c k, []⟩ as =
      some s) :
    (∀ pre post u, as = pre ++ post →
        (StartChild.system g (StartChild.start mode sd spkt c k)).exec ⟨StartChild.start mode sd spkt c k, []⟩ pre =
          some u →
        ∀ spkt' c' k', ∃ t, (StartChild.system g (StartChild.start mode sd spkt' c' k')).exec
          ⟨StartChild.start mode sd spkt' c' k', []⟩ pre = some t ∧ Same g u t) ↔
      (system g (StartChild.start mode sd spkt c k)).Meets Uses (start (StartChild.start mode sd spkt c k)) as := by
  have hstart := inStep_start g mode sd spkt c k
  obtain ⟨s', hs', -⟩ := exec_tracked (s := start (StartChild.start mode sd spkt c k)) h
  constructor
  · intro hsame
    by_contra hG
    obtain ⟨pre, a, post, u, v, rfl, hu, hpre, ha, hv, -⟩ := System.exists_of_not_meets hs' hG
    have hin := inStep_run hu hpre hstart
    rw [List.nil_append] at hin
    obtain ⟨req, hcall, hok, rfl⟩ := step_cases hv
    -- the second thread, with every byte another one
    obtain ⟨t, ht, hknown, hlog, hagree⟩ := hin.all (bump spkt) (other c) k
    have hleft : Left spkt c u :=
      System.exec_inv (Left spkt c) (fun _ _ _ => left_step) hu (left_start mode sd spkt c k)
    have hleft' : Left (bump spkt) (other c) t :=
      System.exec_inv (Left (bump spkt) (other c)) (fun _ _ _ => left_step) ht (left_start mode sd _ _ k)
    have hcall' : call g t.run.st = some req := by rw [← call_eq hagree hin.enough]; exact hcall
    have hnext := System.exec_snoc.2 ⟨t, ht, step_of hcall' hok⟩
    obtain ⟨w, hw, hwsame⟩ := hsame (pre ++ [a]) post _ (by simp) (run_exec (System.exec_snoc.2 ⟨u, hu, hv⟩))
      (bump spkt) (other c) k
    have hwt : w = ⟨resume g t.run.st a, t.run.log ++ [(req, a)]⟩ := Option.some.inj (hw.symm.trans (run_exec hnext))
    subst hwt
    obtain ⟨⟨ust, ulog⟩, uk⟩ := u
    obtain ⟨⟨tst, tlog⟩, tk⟩ := t
    simp only at hknown hlog
    subst hknown hlog
    rcases differs hagree hin.enough hin.bound ha hcall hok hleft hleft' with hundef | hpc | hcalls
    · exact hwsame.stored hundef
    · exact hpc hwsame.pc
    · exact hcalls hwsame.call
  · rintro hG pre post u rfl hu spkt' c' k'
    obtain ⟨u', hu', rfl⟩ := exec_tracked (s := start (StartChild.start mode sd spkt c k)) hu
    have hin := inStep_run hu' (System.meets_of_append hG) hstart
    rw [List.nil_append] at hin
    exact same_of_inStep hin spkt' c' k'

/-- the relay at the near end of the tunnel -/
def nearEnd : Globals := { HeaderLoop.farEnd with mode := .client }

/-- a thread for the connection 5 with the packet `spkt` on its stack -/
def thread (spkt : SockPkt) : StartChild := StartChild.start .client 5 spkt 0 ⟨0, 0⟩

/-- a packet that was on the stack, as an earlier request may have left it -/
def oldRequest : SockPkt := ⟨4, 1, Bytes.zero 2, Bytes.zero 4⟩

/-- a whole request with its zero byte -/
def requested : List Ans :=
  [{ rc := 0 }, { rc := 9 }, { rc := 8, data := [4, 1, 0, 80, 10, 0, 0, 5] }, { rc := 1, data := [0] }]

theorem same_decisions_iff_requested :
    ∃ s, (StartChild.system nearEnd (thread oldRequest)).exec ⟨thread oldRequest, []⟩ requested = some s ∧
      s.st.pc = .client .options ∧
      ∀ spkt' c' k', ∃ t, (StartChild.system nearEnd (StartChild.start .client 5 spkt' c' k')).exec
        ⟨StartChild.start .client 5 spkt' c' k', []⟩ requested = some t ∧ Same nearEnd s t := by
  obtain ⟨s, hs, hpc⟩ : ∃ s, (StartChild.system nearEnd (thread oldRequest)).exec ⟨thread oldRequest, []⟩ requested =
      some s ∧ s.st.pc = .client .options := System.exec_of_any (by decide)
  exact ⟨s, hs, hpc, (same_decisions_iff hs).2 (by decide) requested [] s (List.append_nil _).symm hs⟩

/-- **Leftover contents decide.** The application closes before its request. What was left in `spkt` is taken for a
request with a user id to follow, or for one with a wrong version. -/
theorem leftover_decides :
    ¬ ∀ (g : Globals) (mode : Mode) (sd : ℤ) (spkt : SockPkt) (c : UInt8) (k : Cargs) (as : List Ans)
      (s : Machine.Logged StartChild Call Ans),
      (StartChild.system g (StartChild.start mode sd spkt c k)).exec ⟨StartChild.start mode sd spkt c k, []⟩ as =
        some s →
      ∀ spkt' c' k', ∃ t, (StartChild.system g (StartChild.start mode sd spkt' c' k')).exec
        ⟨StartChild.start mode sd spkt' c' k', []⟩ as = some t ∧ Same g s t := by
  intro h
  obtain ⟨s, hs, hpc⟩ : ∃ s, (StartChild.system nearEnd (thread oldRequest)).exec ⟨thread oldRequest, []⟩
      [{ rc := 0 }, { rc := 9 }, { rc := 0 }] = some s ∧ s.st.pc = .client .userId := System.exec_of_any (by decide)
  obtain ⟨t, ht, hpc'⟩ : ∃ t, (StartChild.system nearEnd (thread { oldRequest with vn := 0 })).exec
      ⟨thread { oldRequest with vn := 0 }, []⟩ [{ rc := 0 }, { rc := 9 }, { rc := 0 }] = some t ∧
      t.st.pc = .client .refuse := System.exec_of_any (by decide)
  obtain ⟨u, hu, hsame⟩ := h nearEnd .client 5 oldRequest 0 ⟨0, 0⟩ _ s hs { oldRequest with vn := 0 } 0 ⟨0, 0⟩
  have htu : t = u := Option.some.inj (ht.symm.trans hu)
  have hsu := hsame.pc
  rw [← htu, hpc, hpc'] at hsu
  exact absurd hsu (by decide)

end Tracked

end UdtGate
