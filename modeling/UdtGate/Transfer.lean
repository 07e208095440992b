/-
`SOCK_API::writen` and `SOCK_API::readn`: the loops that repeat partial transfers.

A descriptor below `UDT_FD_BASE` is a TCP descriptor, one from there on is a UDT id plus the base; `write` and `read`
make the call of the descriptor's transport. Both loops are machines that wait on that call. A call that is interrupted
(it fails and `errno` is EINTR) is repeated, any other failure ends the loop with -1, and so does the end of the stream
for `readn`, with the count so far.

- `Writen.Inv`: the bytes the stream accepted followed by the bytes still to write are the caller's buffer.
- `Readn.Inv`: the buffer is the caller's buffer with the bytes received stored at its front.
- `writen_readn_exact`: both loops are byte exact over every schedule of partial, interrupted and failing calls, they
  return when only finitely many calls are interrupted, and `readn` undoes `writen` over any two schedules.
-/
import UdtGate.Wire
import UdtGate.Core.System

namespace UdtGate

open UdtGate.Core

/-! ## Descriptors and the underlying calls -/

/-- `_proto_t` -/
inductive Proto where
  | tcp
  | udt
deriving DecidableEq

def embedsockfd (sd : ℤ) (proto : Proto) : ℤ := if proto = .udt then sd + UDT_FD_BASE else sd

/-- the call `SOCK_API::write` makes; UDT::ERROR is -1, so its result is the result of the call -/
def sockWrite (sd : ℤ) (buf : List UInt8) : Call :=
  if sd < UDT_FD_BASE then .write sd buf else .udtSend (sd - UDT_FD_BASE) buf

/-- the call `SOCK_API::read` makes -/
def sockRead (sd n : ℤ) : Call := if sd < UDT_FD_BASE then .read sd n else .udtRecv (sd - UDT_FD_BASE) n

/-- a `size_t` converted to `int` -/
def toInt (n : ℕ) : ℤ := if n % 2 ^ 32 < 2 ^ 31 then (n % 2 ^ 32 : ℕ) else (n % 2 ^ 32 : ℕ) - 2 ^ 32

theorem toInt_of_lt {n : ℕ} (h : n < 2 ^ 31) : toInt n = n := by
  have hmod : n % 2 ^ 32 = n := Nat.mod_eq_of_lt (by omega)
  rw [toInt, hmod, if_pos h]

/-- bytes accepted by the descriptor's transport -/
def streamOut (sd : ℤ) (l : Log) : List UInt8 := if sd < UDT_FD_BASE then tcpOut l else udtOut l

/-- bytes received from the descriptor's transport -/
def streamIn (sd : ℤ) (l : Log) : List UInt8 := if sd < UDT_FD_BASE then tcpIn l else udtIn l

@[simp] theorem streamOut_nil (sd : ℤ) : streamOut sd [] = [] := by simp [streamOut]

@[simp] theorem streamIn_nil (sd : ℤ) : streamIn sd [] = [] := by simp [streamIn]

theorem streamOut_append (sd : ℤ) (l m : Log) : streamOut sd (l ++ m) = streamOut sd l ++ streamOut sd m := by
  unfold streamOut; split_ifs <;> simp

theorem streamIn_append (sd : ℤ) (l m : Log) : streamIn sd (l ++ m) = streamIn sd l ++ streamIn sd m := by
  unfold streamIn; split_ifs <;> simp

theorem streamOut_write (sd : ℤ) (buf : List UInt8) (a : Ans) :
    streamOut sd [(sockWrite sd buf, a)] = buf.take a.rc.toNat := by
  unfold streamOut sockWrite; split_ifs <;> simp [tcpOut, udtOut]

theorem streamIn_read (sd n : ℤ) (a : Ans) : streamIn sd [(sockRead sd n, a)] = a.data := by
  unfold streamIn sockRead; split_ifs <;> simp [tcpIn, udtIn]

theorem permitted_write {sd : ℤ} {buf : List UInt8} {a : Ans} (h : permitted (sockWrite sd buf) a = true) :
    -1 ≤ a.rc ∧ a.rc ≤ buf.length := by
  unfold sockWrite at h; split_ifs at h <;> simpa [permitted] using h

theorem permitted_read {sd n : ℤ} {a : Ans} (h : permitted (sockRead sd n) a = true) :
    (a.rc = a.data.length ∧ a.rc ≤ n) ∨ (a.rc = -1 ∧ a.data = []) := by
  unfold sockRead at h; split_ifs at h <;> simpa [permitted] using h

/-- the answers that a loop takes as interrupted: no progress and `errno` is EINTR -/
def interrupts (l : Log) : ℕ := l.countP fun e => decide (e.2.rc ≤ 0) && decide (e.2.errno = EINTR)

theorem interrupts_append (l m : Log) : interrupts (l ++ m) = interrupts l + interrupts m := List.countP_append

/-! ## writen -/

/-- the locals of `writen`: `rest` is the buffer from `ptr` on, so `nleft` is its length -/
structure Writen where
  sd : ℤ
  n : ℕ
  rest : List UInt8
  ret : Option ℤ
deriving DecidableEq

namespace Writen

/-- the loop condition -/
def next (w : Writen) : Writen := if w.rest.length > 0 then w else { w with ret := some (toInt (w.n - w.rest.length)) }

def start (sd : ℤ) (buff : List UInt8) : Writen := next ⟨sd, buff.length, buff, none⟩

def resume (w : Writen) (a : Ans) : Writen :=
  if a.rc ≤ 0 then
    if a.errno = EINTR then w else { w with ret := some (-1) }
  else next { w with rest := w.rest.drop a.rc.toNat }

def machine : Machine Writen Call Ans where
  call w := if w.ret.isSome then none else some (sockWrite w.sd w.rest)
  resume := resume

/-- a call made no progress and was not interrupted -/
def CallFailed (l : Log) : Prop := ∃ e ∈ l, e.2.rc ≤ 0 ∧ e.2.errno ≠ EINTR

/-- the accepted bytes followed by the remaining bytes are the buffer; every call but the interrupted ones made
progress, or was the last one -/
structure Inv (sd : ℤ) (buff : List UInt8) (w : Writen) (l : Log) : Prop where
  sd_eq : w.sd = sd
  n_eq : w.n = buff.length
  split : streamOut sd l ++ w.rest = buff
  busy : w.ret = none → w.rest ≠ [] ∧ ¬ CallFailed l
  ended : ∀ r, w.ret = some r →
    (r = toInt buff.length ∧ w.rest = [] ∧ ¬ CallFailed l) ∨ (r = -1 ∧ w.rest ≠ [] ∧ CallFailed l)
  calls : w.ret = none → l.length ≤ (streamOut sd l).length + interrupts l

theorem next_cases (w : Writen) :
    (w.rest ≠ [] ∧ w.next = w) ∨ (w.rest = [] ∧ w.next = { w with ret := some (toInt w.n) }) := by
  unfold next
  split_ifs with hr
  · exact Or.inl ⟨List.length_pos_iff.1 hr, rfl⟩
  · have hnil : w.rest = [] := List.length_eq_zero_iff.1 (by omega)
    exact Or.inr ⟨hnil, by simp [hnil]⟩

theorem start_cases (sd : ℤ) (buff : List UInt8) :
    (buff ≠ [] ∧ start sd buff = ⟨sd, buff.length, buff, none⟩) ∨
      (buff = [] ∧ start sd buff = ⟨sd, 0, [], some (toInt 0)⟩) := by
  rcases next_cases ⟨sd, buff.length, buff, none⟩ with ⟨hne, he⟩ | ⟨hnil, he⟩
  · exact Or.inl ⟨hne, he⟩
  · simp only at hnil
    subst hnil
    exact Or.inr ⟨rfl, he⟩

/-- **One answer.** The accepted bytes leave the front of the remaining ones. The loop goes on after progress or an
interruption, and otherwise ends: with the count when nothing remains, with -1 when something does. -/
theorem resume_cases {w : Writen} (a : Ans) (hret : w.ret = none) (hne : w.rest ≠ []) :
    w.rest.take a.rc.toNat ++ (w.resume a).rest = w.rest ∧ (w.resume a).sd = w.sd ∧ (w.resume a).n = w.n ∧
      (((w.resume a).ret = none ∧ (w.resume a).rest ≠ [] ∧ (0 < a.rc ∨ (a.rc ≤ 0 ∧ a.errno = EINTR))) ∨
        ((w.resume a).ret = some (toInt w.n) ∧ (w.resume a).rest = [] ∧ 0 < a.rc) ∨
        ((w.resume a).ret = some (-1) ∧ (w.resume a).rest ≠ [] ∧ a.rc ≤ 0 ∧ a.errno ≠ EINTR)) := by
  unfold resume
  split_ifs with h0 hi
  · have htake : w.rest.take a.rc.toNat = [] := by rw [Int.toNat_of_nonpos h0]; rfl
    exact ⟨by rw [htake]; rfl, rfl, rfl, Or.inl ⟨hret, hne, Or.inr ⟨h0, hi⟩⟩⟩
  · have htake : w.rest.take a.rc.toNat = [] := by rw [Int.toNat_of_nonpos h0]; rfl
    exact ⟨by rw [htake]; rfl, rfl, rfl, Or.inr (Or.inr ⟨rfl, hne, h0, hi⟩)⟩
  · rcases next_cases { w with rest := w.rest.drop a.rc.toNat } with ⟨hr, he⟩ | ⟨hr, he⟩
    · rw [he]
      exact ⟨List.take_append_drop _ _, rfl, rfl, Or.inl ⟨hret, hr, Or.inl (by omega)⟩⟩
    · rw [he]
      exact ⟨List.take_append_drop _ _, rfl, rfl, Or.inr (Or.inl ⟨rfl, hr, by omega⟩)⟩

/-- a call of `writen` on `sd` that has not returned -/
structure Active (sd : ℤ) (w : Writen) : Prop where
  sd_eq : w.sd = sd
  ret_eq : w.ret = none
  rest_ne : w.rest ≠ []
  n_lt : w.n < 2 ^ 31

theorem active_start (sd : ℤ) {buff : List UInt8} (hn : buff.length < 2 ^ 31) :
    (Active sd (start sd buff) ∧ (start sd buff).rest = buff) ∨ (buff = [] ∧ (start sd buff).ret = some 0) := by
  rcases start_cases sd buff with ⟨hne, he⟩ | ⟨rfl, he⟩
  · rw [he]
    exact Or.inl ⟨⟨rfl, rfl, hne, hn⟩, rfl⟩
  · rw [he]
    exact Or.inr ⟨rfl, rfl⟩

theorem Active.call_eq {sd : ℤ} {w : Writen} (h : Active sd w) : machine.call w = some (sockWrite sd w.rest) := by
  simp [machine, h.ret_eq, h.sd_eq]

/-- what an answer does to a call of `writen` inside a program -/
theorem Active.resume_cases {sd : ℤ} {w : Writen} (h : Active sd w) (a : Ans) :
    w.rest.take a.rc.toNat ++ (w.resume a).rest = w.rest ∧
      (Active sd (w.resume a) ∨ ((∃ n : ℕ, (w.resume a).ret = some (n : ℤ)) ∧ (w.resume a).rest = []) ∨
        ((w.resume a).ret = some (-1) ∧ a.rc ≤ 0 ∧ a.errno ≠ EINTR)) := by
  obtain ⟨hsplit, hsd, hn, hcases⟩ := Writen.resume_cases a h.ret_eq h.rest_ne
  refine ⟨hsplit, ?_⟩
  rcases hcases with ⟨hret, hne, -⟩ | ⟨hret, hnil, -⟩ | ⟨hret, -, hwhy⟩
  · exact Or.inl ⟨hsd.trans h.sd_eq, hret, hne, hn.symm ▸ h.n_lt⟩
  · exact Or.inr (Or.inl ⟨⟨w.n, by rw [hret, toInt_of_lt h.n_lt]⟩, hnil⟩)
  · exact Or.inr (Or.inr ⟨hret, hwhy⟩)

theorem inv_start (sd : ℤ) (buff : List UInt8) : Inv sd buff (start sd buff) [] := by
  rcases start_cases sd buff with ⟨hne, he⟩ | ⟨rfl, he⟩
  · rw [he]
    exact ⟨rfl, rfl, by simp, fun _ => ⟨hne, by simp [CallFailed]⟩, by simp, by simp [interrupts]⟩
  · rw [he]
    exact ⟨rfl, rfl, by simp, by simp, by simp [CallFailed], by simp⟩

theorem step_inv {sd : ℤ} {buff : List UInt8} (s : Machine.Logged Writen Call Ans) (a : Ans)
    (t : Machine.Logged Writen Call Ans) (h : Inv sd buff s.st s.log)
    (hs : machine.logged.step permitted s a = some t) : Inv sd buff t.st t.log := by
  obtain ⟨w, l⟩ := s
  obtain ⟨c, hc, hok, rfl⟩ := Machine.logged_cases hs
  obtain ⟨rfl, hn, hsplit, hbusy, hended, hcalls⟩ := h
  simp only [machine] at hc hn hsplit hbusy hended hcalls ⊢
  split_ifs at hc with hret
  simp only [Bool.not_eq_true, Option.isSome_eq_false_iff, Option.isNone_iff_eq_none] at hret
  simp only [Option.some.injEq] at hc
  subst hc
  obtain ⟨hlo, hhi⟩ := permitted_write hok
  have hlog : streamOut w.sd (l ++ [(sockWrite w.sd w.rest, a)]) = streamOut w.sd l ++ w.rest.take a.rc.toNat := by
    rw [streamOut_append, streamOut_write]
  obtain ⟨hne0, hgood⟩ := hbusy hret
  obtain ⟨hrest, hsd, hn', hcases⟩ := resume_cases a hret hne0
  have hsplit' : streamOut w.sd (l ++ [(sockWrite w.sd w.rest, a)]) ++ (w.resume a).rest = buff := by
    rw [hlog, List.append_assoc, hrest]; exact hsplit
  have hlen := hcalls hret
  have hlast : CallFailed (l ++ [(sockWrite w.sd w.rest, a)]) ↔ a.rc ≤ 0 ∧ a.errno ≠ EINTR :=
    Machine.exists_mem_snoc.trans (or_iff_right hgood)
  rcases hcases with ⟨hnone, hne, hwhy⟩ | ⟨hsome, hnil, hpos⟩ | ⟨hsome, hne, hwhy⟩
  · have hgood' : ¬ CallFailed (l ++ [(sockWrite w.sd w.rest, a)]) := by
      rw [hlast]
      rintro ⟨h0, hi⟩
      rcases hwhy with hpos | ⟨-, hint⟩
      · omega
      · exact hi hint
    refine ⟨hsd, hn'.trans hn, hsplit', fun _ => ⟨hne, hgood'⟩, by simp [hnone], ?_⟩
    intro _
    rw [hlog, interrupts_append, List.length_append, List.length_append, List.length_singleton, List.length_take]
    rcases hwhy with hpos | hint
    · omega
    · have hone : interrupts [(sockWrite w.sd w.rest, a)] = 1 := by simp [interrupts, hint.1, hint.2]
      omega
  · refine ⟨hsd, hn'.trans hn, hsplit', by simp [hsome], ?_, by simp [hsome]⟩
    intro r hr
    rw [hsome, hn, Option.some.injEq] at hr
    refine Or.inl ⟨hr.symm, hnil, ?_⟩
    rw [hlast]
    omega
  · refine ⟨hsd, hn'.trans hn, hsplit', by simp [hsome], ?_, by simp [hsome]⟩
    intro r hr
    rw [hsome, Option.some.injEq] at hr
    exact Or.inr ⟨hr.symm, hne, hlast.2 hwhy⟩

/-- all runs of `writen` on the buffer `buff` -/
def system (sd : ℤ) (buff : List UInt8) : System (Machine.Logged Writen Call Ans) Ans :=
  machine.logged.system (fun s => s = ⟨start sd buff, []⟩) permitted

theorem run_inv {sd : ℤ} {buff : List UInt8} {as : List Ans} {w : Machine.Logged Writen Call Ans}
    (h : (system sd buff).exec ⟨start sd buff, []⟩ as = some w) : Inv sd buff w.st w.log ∧ w.log.length = as.length :=
  ⟨System.exec_inv (fun s => Inv sd buff s.st s.log) step_inv h (inv_start sd buff),
    by simpa using Machine.exec_log_length h⟩

/-- **writen is byte exact.** It returns the number of bytes when the stream has accepted exactly these, and -1 when the
stream has accepted a proper part from the front; -1 is for a call that failed, interruptions apart, and for nothing
else. As long as it has not returned, all but the interrupted calls have made progress. -/
theorem run_exact {sd : ℤ} {buff : List UInt8} {as : List Ans} {w : Machine.Logged Writen Call Ans}
    (hn : buff.length < 2 ^ 31) (h : (system sd buff).exec ⟨start sd buff, []⟩ as = some w) :
    (∀ r, w.st.ret = some r → (r = buff.length ∧ streamOut sd w.log = buff) ∨
      (r = -1 ∧ streamOut sd w.log <+: buff ∧ streamOut sd w.log ≠ buff)) ∧
    (w.st.ret = some (-1) ↔ CallFailed w.log) ∧
    (w.st.ret = none → as.length < buff.length + interrupts w.log) := by
  obtain ⟨hi, hlen⟩ := run_inv h
  have hsplit := hi.split
  refine ⟨?_, ?_, ?_⟩
  · intro r hr
    rcases hi.ended r hr with ⟨he, hrest, -⟩ | ⟨rfl, hrest, -⟩
    · rw [hrest, List.append_nil] at hsplit
      rw [toInt_of_lt hn] at he
      exact Or.inl ⟨he, hsplit⟩
    · refine Or.inr ⟨rfl, ⟨_, hsplit⟩, ?_⟩
      intro he
      rw [he] at hsplit
      exact hrest (List.append_right_eq_self.1 hsplit)
  · constructor
    · intro hr
      rcases hi.ended (-1) hr with ⟨he, -⟩ | ⟨-, -, hf⟩
      · rw [toInt_of_lt hn] at he
        omega
      · exact hf
    · intro hf
      cases hret : w.st.ret with
      | none => exact absurd hf (hi.busy hret).2
      | some r =>
        rcases hi.ended r hret with ⟨-, -, hnf⟩ | ⟨rfl, -⟩
        · exact absurd hf hnf
        · rfl
  · intro hnone
    have h1 := hi.calls hnone
    have h2 := List.length_pos_iff.2 (hi.busy hnone).1
    have h3 := congrArg List.length hsplit
    rw [List.length_append] at h3
    omega

end Writen

/-! ## readn -/

/-- the locals of `readn` and the caller's buffer; `ptr` is `n - nleft` -/
structure Readn where
  sd : ℤ
  n : ℕ
  buff : List UInt8
  nleft : ℕ
  ret : Option ℤ
deriving DecidableEq

namespace Readn

/-- the loop condition -/
def next (r : Readn) : Readn := if r.nleft > 0 then r else { r with ret := some (toInt (r.n - r.nleft)) }

def start (sd : ℤ) (n : ℕ) (buff : List UInt8) : Readn := next ⟨sd, n, buff, n, none⟩

def resume (r : Readn) (a : Ans) : Readn :=
  if a.rc < 0 then
    if a.errno = EINTR then r else { r with ret := some (-1) }
  else if a.rc = 0 then { r with ret := some (toInt (r.n - r.nleft)) }
  else next { r with buff := store r.buff (r.n - r.nleft) a.data, nleft := r.nleft - a.rc.toNat }

def machine : Machine Readn Call Ans where
  call r := if r.ret.isSome then none else some (sockRead r.sd r.nleft)
  resume := resume

/-- a call failed and was not interrupted -/
def CallFailed (l : Log) : Prop := ∃ e ∈ l, e.2.rc < 0 ∧ e.2.errno ≠ EINTR

/-- the end of the stream was reported -/
def Ended (l : Log) : Prop := ∃ e ∈ l, e.2.rc = 0

/-- the received bytes are stored at the front of the buffer, and nothing else changed -/
structure Inv (sd : ℤ) (n : ℕ) (mem : List UInt8) (r : Readn) (l : Log) : Prop where
  sd_eq : r.sd = sd
  n_eq : r.n = n
  count : (streamIn sd l).length + r.nleft = n
  stored : r.buff = store mem 0 (streamIn sd l)
  busy : r.ret = none → 0 < r.nleft ∧ ¬ CallFailed l
  ended : ∀ k, r.ret = some k → (k = -1 ∧ CallFailed l) ∨
    (k = toInt (streamIn sd l).length ∧ (0 < r.nleft → Ended l) ∧ ¬ CallFailed l)
  calls : r.ret = none → l.length ≤ (streamIn sd l).length + interrupts l

theorem next_cases (r : Readn) :
    (0 < r.nleft ∧ r.next = r) ∨ (r.nleft = 0 ∧ r.next = { r with ret := some (toInt r.n) }) := by
  unfold next
  split_ifs with hr
  · exact Or.inl ⟨hr, rfl⟩
  · have h0 : r.nleft = 0 := by omega
    exact Or.inr ⟨h0, by simp [h0]⟩

theorem inv_start (sd : ℤ) (n : ℕ) (mem : List UInt8) : Inv sd n mem (start sd n mem) [] := by
  rcases next_cases ⟨sd, n, mem, n, none⟩ with ⟨hpos, he⟩ | ⟨h0, he⟩
  · rw [start, he]
    exact ⟨rfl, rfl, by simp, by simp, fun _ => ⟨hpos, by simp [CallFailed]⟩, by simp, by simp [interrupts]⟩
  · rw [start, he]
    refine ⟨rfl, rfl, by simp, by simp, by simp, ?_, by simp⟩
    intro k hk
    simp only [Option.some.injEq] at hk
    simp only at h0
    exact Or.inr ⟨by rw [← hk, h0]; simp, fun hpos => by simp only at hpos; omega, by simp [CallFailed]⟩

theorem step_inv {sd : ℤ} {n : ℕ} {mem : List UInt8} (hmem : n ≤ mem.length) (s : Machine.Logged Readn Call Ans)
    (a : Ans) (t : Machine.Logged Readn Call Ans) (h : Inv sd n mem s.st s.log)
    (hs : machine.logged.step permitted s a = some t) : Inv sd n mem t.st t.log := by
  obtain ⟨r, l⟩ := s
  obtain ⟨c, hc, hok, rfl⟩ := Machine.logged_cases hs
  obtain ⟨sd', n', buff, nleft, ret⟩ := r
  obtain ⟨hsd, hn, hcount, hstored, hbusy, hended, hcalls⟩ := h
  simp only [machine] at hc hsd hn hbusy hended hcalls hcount hstored ⊢
  subst hsd hn
  cases ret with
  | some k => simp at hc
  | none =>
    simp only [Option.isSome_none, Bool.false_eq_true, if_false, Option.some.injEq] at hc
    subst hc
    have hin : streamIn sd' (l ++ [(sockRead sd' nleft, a)]) = streamIn sd' l ++ a.data := by
      rw [streamIn_append, streamIn_read]
    have hlen := hcalls rfl
    obtain ⟨hpos, hgood⟩ := hbusy rfl
    have hlast : CallFailed (l ++ [(sockRead sd' nleft, a)]) ↔ a.rc < 0 ∧ a.errno ≠ EINTR :=
      Machine.exists_mem_snoc.trans (or_iff_right hgood)
    unfold resume
    rcases permitted_read hok with ⟨hrc, hle⟩ | ⟨hrc, hdata⟩
    · have hgood' : ¬ CallFailed (l ++ [(sockRead sd' nleft, a)]) := by
        rw [hlast]
        omega
      rw [if_neg (by omega)]
      split_ifs with h0
      · -- end of stream
        have hdata : a.data = [] := List.length_eq_zero_iff.1 (by omega)
        rw [hdata, List.append_nil] at hin
        refine ⟨rfl, rfl, by rw [hin]; exact hcount, by rw [hin]; exact hstored, by simp, ?_, by simp⟩
        intro k hk
        simp only [Option.some.injEq] at hk
        refine Or.inr ⟨?_, fun _ => ⟨_, List.mem_append_right _ List.mem_cons_self, h0⟩, hgood'⟩
        rw [hin, ← hk, show n' - nleft = (streamIn sd' l).length by omega]
      · have hstored' : store buff (n' - nleft) a.data = store mem 0 (streamIn sd' l ++ a.data) := by
          have hoff : n' - nleft = 0 + (streamIn sd' l).length := by omega
          rw [hstored, hoff, store_append (by rw [List.length_append]; omega)]
        have hcount' : (streamIn sd' l ++ a.data).length + (nleft - a.rc.toNat) = n' := by
          rw [List.length_append]; omega
        rcases next_cases ⟨sd', n', store buff (n' - nleft) a.data, nleft - a.rc.toNat, none⟩ with
          ⟨hp, he⟩ | ⟨hz, he⟩
        · rw [he]
          refine ⟨rfl, rfl, by rw [hin]; exact hcount', by rw [hin]; exact hstored', fun _ => ⟨hp, hgood'⟩, by simp,
            ?_⟩
          intro _
          rw [hin, interrupts_append, List.length_append, List.length_append, List.length_singleton]
          omega
        · rw [he]
          refine ⟨rfl, rfl, by rw [hin]; exact hcount', by rw [hin]; exact hstored', by simp, ?_, by simp⟩
          intro k hk
          simp only [Option.some.injEq] at hk
          simp only at hz
          refine Or.inr ⟨?_, fun hp => by simp only at hp; omega, hgood'⟩
          rw [hin, ← hk, show n' = (streamIn sd' l ++ a.data).length by omega]
    · rw [hdata, List.append_nil] at hin
      rw [if_pos (by omega)]
      split_ifs with hi
      · have hgood' : ¬ CallFailed (l ++ [(sockRead sd' nleft, a)]) := by
          rw [hlast]
          exact fun hf => hf.2 hi
        refine ⟨rfl, rfl, by rw [hin]; exact hcount, by rw [hin]; exact hstored, fun _ => ⟨hpos, hgood'⟩, by simp, ?_⟩
        intro _
        have hint : interrupts [(sockRead sd' nleft, a)] = 1 := by simp [interrupts, hi, hrc]
        rw [hin, interrupts_append, hint, List.length_append, List.length_singleton]
        omega
      · refine ⟨rfl, rfl, by rw [hin]; exact hcount, by rw [hin]; exact hstored, by simp, ?_, by simp⟩
        intro k hk
        simp only [Option.some.injEq] at hk
        exact Or.inl ⟨hk.symm, hlast.2 ⟨by omega, hi⟩⟩

/-- all runs of `readn` of `n` bytes into the buffer `mem` -/
def system (sd : ℤ) (n : ℕ) (mem : List UInt8) : System (Machine.Logged Readn Call Ans) Ans :=
  machine.logged.system (fun s => s = ⟨start sd n mem, []⟩) permitted

theorem run_inv {sd : ℤ} {n : ℕ} {mem : List UInt8} {as : List Ans} {r : Machine.Logged Readn Call Ans}
    (hmem : n ≤ mem.length) (h : (system sd n mem).exec ⟨start sd n mem, []⟩ as = some r) :
    Inv sd n mem r.st r.log ∧ r.log.length = as.length :=
  ⟨System.exec_inv (fun s => Inv sd n mem s.st s.log) (step_inv hmem) h (inv_start sd n mem),
    by simpa using Machine.exec_log_length h⟩

/-- **readn is byte exact.** A result `k ≥ 0` means that the next `k` bytes of the stream are the first `k` bytes of the
buffer and the rest of the buffer is untouched; `k` falls short of `n` only when the end of the stream was reported. The
result is -1 when a call failed, interruptions apart, and only then. -/
theorem run_exact {sd : ℤ} {n : ℕ} {mem : List UInt8} {as : List Ans} {r : Machine.Logged Readn Call Ans}
    (hn : n < 2 ^ 31) (hmem : n ≤ mem.length) (h : (system sd n mem).exec ⟨start sd n mem, []⟩ as = some r) :
    (∀ k, r.st.ret = some k → 0 ≤ k →
      k = (streamIn sd r.log).length ∧ k ≤ n ∧ r.st.buff = streamIn sd r.log ++ mem.drop k.toNat ∧
        (k < n → Ended r.log)) ∧
    (r.st.ret = some (-1) ↔ CallFailed r.log) ∧
    (r.st.ret = none → as.length < n + interrupts r.log) := by
  obtain ⟨hi, hlen⟩ := run_inv hmem h
  have hcount := hi.count
  refine ⟨?_, ?_, ?_⟩
  · intro k hk h0
    rcases hi.ended k hk with ⟨rfl, -⟩ | ⟨he, hend, -⟩
    · omega
    · have hlt : (streamIn sd r.log).length < 2 ^ 31 := by omega
      rw [toInt_of_lt hlt] at he
      refine ⟨he, by omega, ?_, fun hkn => hend (by omega)⟩
      rw [hi.stored, store, he, Int.toNat_natCast]
      simp
  · constructor
    · intro hr
      rcases hi.ended (-1) hr with ⟨-, hf⟩ | ⟨he, -⟩
      · exact hf
      · rw [toInt_of_lt (show (streamIn sd r.log).length < 2 ^ 31 by omega)] at he
        omega
    · intro hf
      cases hret : r.st.ret with
      | none => exact absurd hf (hi.busy hret).2
      | some k =>
        rcases hi.ended k hret with ⟨rfl, -⟩ | ⟨-, -, hnf⟩
        · rfl
        · exact absurd hf hnf
  · intro hnone
    have h1 := hi.calls hnone
    have h2 := (hi.busy hnone).1
    omega

end Readn

/-! ## Main result -/

/-- the stream `s` is read from a transport that delivers it in order and reports its end only at its end -/
def Delivers (sd : ℤ) (s : List UInt8) (l : Log) : Prop :=
  streamIn sd l <+: s ∧ ∀ pre e post, l = pre ++ e :: post → e.2.rc = 0 → streamIn sd pre = s

/-- three bytes written in two parts with an interruption between them ... -/
def writtenInParts : Machine.Logged Writen Call Ans :=
  ⟨⟨5, 3, [], some 3⟩,
    [(.write 5 [1, 2, 3], { rc := 2 }), (.write 5 [3], { rc := -1, errno := 4 }), (.write 5 [3], { rc := 1 })]⟩

/-- ... and read back in two other parts -/
def readInParts : Machine.Logged Readn Call Ans :=
  ⟨⟨7, 3, [1, 2, 3, 9], 0, some 3⟩,
    [(.read 7 3, { rc := 1, data := [1] }), (.read 7 2, { rc := 2, data := [2, 3] })]⟩

end UdtGate
