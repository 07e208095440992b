/-
How the relay's reply reaches `minisocks`: the preloaded `connect` when the reply comes over TCP in several segments.

The relay answers, and everything before that succeeds. A `recv` returns at least one byte of what the relay sent and
the application has not read yet, and at most what was asked for; how many is up to TCP. `connect` calls it once.

- `Inv`: where the function is, and what it has left unread.
- `Agrees`: what `connect` is to return for the reply, however it is cut, and where the application is to go on reading.
- `agrees_iff`: it does so exactly when the first segment is the whole reply.
-/
import UdtGate.Minisocks

namespace UdtGate

open UdtGate.Core

/-- `connect`, the bytes from the relay that are still to be read, and whether the socket was shut down -/
structure Fragments where
  app : Minisocks
  left : List UInt8
  shut : Bool := false
deriving DecidableEq

namespace Fragments

/-! ## Model -/

/-- the relay was reached and sent the bytes `left` -/
def answers (left : List UInt8) (c : Call) (a : Ans) : Bool :=
  match c with
  | .connect .. => a.rc = 0
  | .send _ buf => a.rc = buf.length
  | .recv _ n _ => 1 ≤ a.rc && a.rc ≤ n && a.rc ≤ left.length && a.data = left.take a.rc.toNat
  | _ => true

/-- what is still to be read after a call -/
def unread (left : List UInt8) (c : Call) (a : Ans) : List UInt8 :=
  match c with
  | .recv .. => left.drop a.rc.toNat
  | _ => left

def isShutdown : Call → Bool
  | .shutdown _ => true
  | _ => false

def step (s : Fragments) (a : Ans) : Option Fragments :=
  match s.app.call with
  | none => none
  | some c =>
    if answers s.left c a then some ⟨s.app.resume a, unread s.left c a, s.shut || isShutdown c⟩ else none

/-- `connect` to an address of AF_INET, with `reply` and then `rest` to be read -/
def start (sd : ℤ) (dst srv : SockAddrIn) (junk : Minisocks) (reply : Bytes 8) (rest : List UInt8) : Fragments :=
  ⟨Minisocks.start sd (.in4 dst) (some srv) junk, reply.1 ++ rest, false⟩

def system (s : Fragments) : System Fragments Ans := ⟨fun t => t = s, step⟩

/-- the code in a reply -/
def cd (reply : Bytes 8) : UInt8 := reply.get 1

/-- `connect` has returned -/
def Returned (s : Fragments) : Prop := s.app.call = none

/-- what `connect` returns is the reply's code and nothing else: 0 for 90, with the stream right behind the reply; for
other codes an error that says so, and the socket shut down -/
def Agrees (reply : Bytes 8) (rest : List UInt8) (s : Fragments) : Prop :=
  ∀ rc, s.app.pc = .returned rc →
    (rc = 0 ↔ cd reply = 90) ∧ (rc = 0 → s.left = rest) ∧ (rc ≠ 0 → rc = -1 ∧ s.app.errno ≠ 0 ∧ s.shut = true)

/-- a receive gets all eight bytes -/
def Whole (s : Fragments) (a : Ans) : Prop := s.app.pc = .receiving → a.rc = 8

instance (s : Fragments) (a : Ans) : Decidable (Whole s a) := inferInstanceAs (Decidable (_ → _))

/-! ## One call -/

variable {reply : Bytes 8} {rest : List UInt8} {s t : Fragments} {a : Ans}

/-- where `connect` is, and what it has left unread -/
def Inv (reply : Bytes 8) (rest : List UInt8) (s : Fragments) : Prop :=
  match s.app.pc with
  | .connecting | .sending | .receiving => s.left = reply.1 ++ rest
  | .shutting => cd reply ≠ 90
  | .returned _ => True

/-- the receive of a part: an error without a number, for a socket that stays open -/
theorem not_agrees_of_part (reply : Bytes 8) (rest left : List UInt8) (app : Minisocks) (shut : Bool)
    (hpc : app.pc = .returned (-1)) (herr : app.errno = 0) : ¬ Agrees reply rest ⟨app, left, shut⟩ := by
  intro h
  have hrefused := (h (-1) hpc).2.2 (by decide)
  exact hrefused.2.1 herr

/-- the code that `connect` tests, when it got the whole reply -/
theorem cd_recvAt (pkt : SockPkt) (reply : Bytes 8) : (pkt.recvAt 0 reply.1).cd = cd reply := by
  have hlt : 1 < reply.1.length := by rw [reply.2]; decide
  rw [SockPkt.cd_recvAt_zero pkt reply.2.le, List.getElem?_eq_getElem hlt]
  rfl

theorem take_reply (reply : Bytes 8) (rest : List UInt8) : (reply.1 ++ rest).take 8 = reply.1 := by
  rw [List.take_left' reply.2]

theorem drop_reply (reply : Bytes 8) (rest : List UInt8) : (reply.1 ++ rest).drop 8 = rest := by
  rw [List.drop_left' reply.2]

theorem step_cases (hs : step s a = some t) :
    ∃ c, s.app.call = some c ∧ answers s.left c a = true ∧
      t = ⟨s.app.resume a, unread s.left c a, s.shut || isShutdown c⟩ := by
  unfold step at hs
  cases hc : s.app.call with
  | none => rw [hc] at hs; cases hs
  | some c =>
    rw [hc] at hs
    simp only at hs
    split_ifs at hs with hok
    exact ⟨c, rfl, hok, (Option.some.inj hs).symm⟩

/-- as long as `connect` has not returned -/
theorem agrees_of_call {c : Call} (hc : s.app.call = some c) : Agrees reply rest s := by
  intro rc hpc
  rw [Minisocks.call, hpc] at hc
  cases hc

theorem agrees_of_step (hs : step s a = some t) : Agrees reply rest s := by
  obtain ⟨c, hc, -, -⟩ := step_cases hs
  exact agrees_of_call hc

/-- only a receive can get too little -/
theorem whole_of_ne (hpc : s.app.pc ≠ .receiving) : Whole s a := fun h => absurd h hpc

/-- **Step lemma.** The invariant is kept, and what is returned agrees with the reply if it was received whole. -/
theorem step_agrees (hi : Inv reply rest s) (hs : step s a = some t) :
    Inv reply rest t ∧ (Agrees reply rest t ↔ Whole s a) := by
  obtain ⟨c, hc, hok, rfl⟩ := step_cases hs
  obtain ⟨⟨pc, sd, srv, pkt, errno⟩, left, shut⟩ := s
  cases pc with
  | connecting =>
    cases hc
    have h0 : ¬ a.rc ≠ 0 := not_not.2 (of_decide_eq_true hok)
    simp only [Minisocks.resume, if_neg h0]
    exact ⟨hi, iff_of_true (agrees_of_call rfl) (whole_of_ne Minisocks.Pc.noConfusion)⟩
  | sending =>
    cases hc
    have h9 : ¬ a.rc ≠ 9 := by
      rw [answers, decide_eq_true_eq, List.length_append, SockPkt.length_bytes] at hok
      exact not_not.2 hok
    simp only [Minisocks.resume, if_neg h9]
    exact ⟨hi, iff_of_true (agrees_of_call rfl) (whole_of_ne Minisocks.Pc.noConfusion)⟩
  | receiving =>
    cases hc
    obtain rfl : left = reply.1 ++ rest := hi
    simp only [answers, Bool.and_eq_true, decide_eq_true_eq] at hok
    obtain ⟨⟨⟨hpos, -⟩, -⟩, hdata⟩ := hok
    by_cases h8 : a.rc ≠ 8
    · simp only [Minisocks.resume, if_pos h8, if_pos (show a.rc ≥ 0 by omega)]
      refine ⟨trivial, iff_of_false (not_agrees_of_part _ _ _ _ _ rfl rfl) ?_⟩
      intro hw
      exact h8 (hw rfl)
    · have hrc8 : a.rc = 8 := not_not.1 h8
      rw [hrc8] at hdata
      have hreply : a.data = reply.1 := hdata.trans (take_reply reply rest)
      have hleft : (reply.1 ++ rest).drop a.rc.toNat = rest := by
        rw [hrc8]
        exact drop_reply reply rest
      simp only [Minisocks.resume, if_neg h8, hreply, cd_recvAt, unread, hleft]
      split_ifs with hcd
      · exact ⟨hcd, iff_of_true (agrees_of_call rfl) fun _ => hrc8⟩
      · refine ⟨trivial, iff_of_true ?_ fun _ => hrc8⟩
        intro rc hret
        cases hret
        exact ⟨⟨fun _ => not_not.1 hcd, fun _ => rfl⟩, fun _ => rfl, fun h => absurd rfl h⟩
  | shutting =>
    cases hc
    have herr : ECONNREFUSED ≠ 0 := by decide
    have hne : (-1 : ℤ) ≠ 0 := by decide
    refine ⟨trivial, iff_of_true ?_ (whole_of_ne Minisocks.Pc.noConfusion)⟩
    intro rc hret
    cases hret
    exact ⟨iff_of_false hne hi, fun h => absurd h hne, fun _ => ⟨rfl, herr, Bool.or_true _⟩⟩
  | returned rc => cases hc

/-! ## Runs -/

/-- the calls that are still to come -/
def rank (s : Fragments) : ℕ :=
  match s.app.pc with
  | .connecting => 4
  | .sending => 3
  | .receiving => 2
  | .shutting => 1
  | .returned _ => 0

theorem rank_step (hs : step s a = some t) : rank t < rank s := by
  obtain ⟨c, hc, -, rfl⟩ := step_cases hs
  obtain ⟨⟨pc, sd, srv, pkt, errno⟩, left, shut⟩ := s
  cases pc with
  | connecting =>
    simp only [rank, Minisocks.resume]
    split_ifs
    · exact Nat.succ_pos 3
    · exact Nat.lt_succ_self 3
  | sending =>
    simp only [rank, Minisocks.resume]
    by_cases h9 : a.rc ≠ 9
    · rw [if_pos h9]
      exact Nat.succ_pos 2
    · rw [if_neg h9]
      exact Nat.lt_succ_self 2
  | receiving =>
    simp only [rank, Minisocks.resume]
    by_cases h8 : a.rc ≠ 8
    · rw [if_pos h8]
      exact Nat.succ_pos 1
    · rw [if_neg h8]
      split_ifs
      · exact Nat.lt_succ_self 1
      · exact Nat.succ_pos 1
  | shutting => exact Nat.zero_lt_one
  | returned rc => cases hc

/-- before `connect` has returned there is an answer to its call -/
theorem exists_step (hi : Inv reply rest s) (hr : ¬ Returned s) : ∃ a t, step s a = some t := by
  have hgo {c : Call} {a : Ans} (hc : s.app.call = some c) (hok : answers s.left c a = true) :
      ∃ a t, step s a = some t := by
    refine ⟨a, ⟨s.app.resume a, unread s.left c a, s.shut || isShutdown c⟩, ?_⟩
    rw [step, hc]
    exact if_pos hok
  obtain ⟨⟨pc, sd, srv, pkt, errno⟩, left, shut⟩ := s
  cases pc with
  | connecting => exact hgo (a := ⟨0, 0, [], []⟩) rfl rfl
  | sending => exact hgo (a := ⟨(pkt.bytes ++ [0]).length, 0, [], []⟩) rfl (decide_eq_true rfl)
  | receiving =>
    obtain rfl : left = reply.1 ++ rest := hi
    refine hgo (a := ⟨8, 0, (reply.1 ++ rest).take 8, []⟩) rfl ?_
    have hlen : (8 : ℤ) ≤ (reply.1 ++ rest).length := by
      rw [List.length_append, reply.2]
      omega
    simp only [answers, decide_eq_true hlen, Bool.and_eq_true, decide_eq_true_eq]
    exact ⟨⟨⟨by decide, le_rfl⟩, trivial⟩, rfl⟩
  | shutting => exact hgo (a := ⟨0, 0, [], []⟩) rfl rfl
  | returned rc => exact absurd rfl hr

variable {sd : ℤ} {dst srv : SockAddrIn} {junk : Minisocks} {as : List Ans}

/-- `connect` comes to an end -/
theorem ends (sd : ℤ) (dst srv : SockAddrIn) (junk : Minisocks) (reply : Bytes 8) (rest : List UInt8) :
    (system (start sd dst srv junk reply rest)).Ends Returned (start sd dst srv junk reply rest) := by
  refine System.ends_of_rank (Inv reply rest) rank ?_ ?_ (fun s => exists_step) rfl
  · intro s a t hd hs
    obtain ⟨c, hc, -, -⟩ := step_cases hs
    rw [hd] at hc
    cases hc
  · intro s a t hi _ hs _
    exact ⟨(step_agrees hi hs).1, rank_step hs⟩

/-- **When the result does not depend on the segments.** `connect` returns in every run, and what it returns agrees with
the reply if and only if the receive gets all of it at once. -/
theorem agrees_iff (sd : ℤ) (dst srv : SockAddrIn) (junk : Minisocks) (reply : Bytes 8) (rest : List UInt8) :
    (system (start sd dst srv junk reply rest)).Ends Returned (start sd dst srv junk reply rest) ∧
      ∀ as t, (system (start sd dst srv junk reply rest)).exec (start sd dst srv junk reply rest) as = some t →
        (Agrees reply rest t ↔
          (system (start sd dst srv junk reply rest)).Meets Whole (start sd dst srv junk reply rest) as) := by
  refine ⟨ends sd dst srv junk reply rest, ?_⟩
  intro as t ht
  have hstart : Agrees reply rest (start sd dst srv junk reply rest) := agrees_of_call rfl
  have hrun := System.meets_iff (Inv reply rest) (Agrees reply rest) Whole
    (fun s a t hi hs => (step_agrees hi hs).1)
    (fun s a t hi hs => by rw [(step_agrees hi hs).2, and_iff_right (agrees_of_step hs)]) ht rfl
  rw [hrun, and_iff_right hstart]

/-- 10.0.0.3, port 443 -/
def host : SockAddrIn := ⟨⟨[1, 187], rfl⟩, ⟨[10, 0, 0, 3], rfl⟩⟩

/-- a reply that grants the request -/
def granted : Bytes 8 := ⟨[0, 90, 1, 187, 10, 0, 0, 3], rfl⟩

/-- `connect` through the relay at the same address, with one byte of the destination's behind the reply -/
def connecting : Fragments := start 3 host host ⟨.connecting, 0, host, ⟨0, 0, host.port, host.addr⟩, 0⟩ granted [7]

theorem agrees_iff_whole :
    ∃ t, (system connecting).exec connecting [⟨0, 0, [], []⟩, ⟨9, 0, [], []⟩, ⟨8, 0, granted.1, []⟩] = some t ∧
      t.app.pc = .returned 0 ∧ Agrees granted [7] t := by
  obtain ⟨t, ht, hpc⟩ : ∃ t, (system connecting).exec connecting
      [⟨0, 0, [], []⟩, ⟨9, 0, [], []⟩, ⟨8, 0, granted.1, []⟩] = some t ∧ t.app.pc = .returned 0 :=
    System.exec_of_any (by decide)
  exact ⟨t, ht, hpc, ((agrees_iff 3 host host _ granted [7]).2 _ t ht).2 (by decide)⟩

/-- **A split grant.** The code comes with the first four bytes; `connect` returns -1 with an `errno` of 0, leaves the
socket open, and four bytes of the reply unread. -/
theorem split_grant_refused :
    ∃ t, (system connecting).exec connecting [⟨0, 0, [], []⟩, ⟨9, 0, [], []⟩, ⟨4, 0, [0, 90, 1, 187], []⟩] = some t ∧
      t.app.pc = .returned (-1) ∧ t.app.errno = 0 ∧ t.shut = false ∧ t.left = [10, 0, 0, 3, 7] ∧
      ¬ Agrees granted [7] t := by
  obtain ⟨t, ht, hpc, herr, hshut, hleft⟩ : ∃ t, (system connecting).exec connecting
      [⟨0, 0, [], []⟩, ⟨9, 0, [], []⟩, ⟨4, 0, [0, 90, 1, 187], []⟩] = some t ∧
      t.app.pc = .returned (-1) ∧ t.app.errno = 0 ∧ t.shut = false ∧ t.left = [10, 0, 0, 3, 7] :=
    System.exec_of_any (by decide)
  exact ⟨t, ht, hpc, herr, hshut, hleft, not_agrees_of_part granted [7] t.left t.app t.shut hpc herr⟩

end Fragments

end UdtGate
