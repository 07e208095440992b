/-
UDT_SNDSYN and UDT_RCVSYN on a TCP descriptor: `SOCK_API::setsockopt` and `SOCK_API::getsockopt` keep both of them in
O_NONBLOCK, one bit of the descriptor's flag word.

The operations are those of `SockApi`, run against the word. A step is one call of either function; it is possible when
no `fcntl` answers -1, which is also what F_GETFL would answer for a word of ones only.

- `Mode`: what the options are for. The mode is what was last set, and getting it is answered from there.
- `step_cases`: what a call does. Setting changes the one bit, getting answers 0.
- `round_trip_iff`: in which runs that is the answer.
-/
import UdtGate.SockApi
import UdtGate.Core.System

namespace UdtGate

open UdtGate.Core

namespace Blocking

open SockApi

/-! ## Calls on one descriptor -/

/-- the two names of the option -/
inductive Name where
  | sndsyn
  | rcvsyn
deriving DecidableEq

def Name.opt : Name → SockOpt
  | .sndsyn => .sndsyn
  | .rcvsyn => .rcvsyn

inductive Op where
  | set (name : Name) (level : ℤ) (optval : List UInt8) (optlen : ℕ)
  | get (name : Name) (level : ℤ) (optlen : ℕ)
deriving DecidableEq

/-- `w` is `sizeof(socklen_t)` -/
def Op.program (w : ℕ) (sd : ℤ) : Op → SockProg
  | .set name level optval optlen => SockApi.setsockopt sd level name.opt optval optlen
  | .get name level optlen => SockApi.getsockopt w sd level name.opt optlen

/-- `fcntl` on a descriptor with this flag word -/
def fcntl (word : BitVec 32) (c : Native) : ℤ × BitVec 32 :=
  match c.req with
  | .fcntlGetfl => (word.toInt, word)
  | .fcntlSetfl val => (0, val)
  | _ => (-1, word)

/-- the flag word, and what the calls of `getsockopt` stored through `optval` so far -/
structure Flags where
  word : BitVec 32
  answers : List ℤ := []
deriving DecidableEq

def step (w : ℕ) (sd : ℤ) (s : Flags) (op : Op) : Option Flags :=
  let (res, word) := (op.program w sd).run fcntl s.word
  if res.rc = some 0 then some ⟨word, s.answers ++ res.optval.toList⟩ else none

def system (w : ℕ) (sd : ℤ) (word : BitVec 32) : System Flags Op := ⟨fun s => s = ⟨word, []⟩, step w sd⟩

/-! ## What the options are for -/

/-- whether operations are to block, and the answers to those who asked -/
structure Mode where
  on : Bool
  answers : List ℤ := []
deriving DecidableEq

def Mode.apply (b : Mode) : Op → Mode
  | .set _ _ optval _ => { b with on := optbool optval }
  | .get _ _ _ => { b with answers := b.answers ++ [if b.on then 1 else 0] }

/-- O_NONBLOCK is clear -/
def blocking (word : BitVec 32) : Bool := word &&& O_NONBLOCK == 0

/-- both words have the same bits but for O_NONBLOCK -/
def SameOthers (v word : BitVec 32) : Prop := ∀ i, O_NONBLOCK.getLsbD i = false → v.getLsbD i = word.getLsbD i

/-! ## One call -/

variable {w : ℕ} {sd : ℤ} {s t : Flags} {op : Op}

theorem blocking_syncFlags (optval : List UInt8) (word : BitVec 32) :
    blocking (syncFlags optval word) = optbool optval := by
  unfold blocking syncFlags
  split_ifs with hon
  · rw [hon, beq_iff_eq, BitVec.and_assoc, BitVec.and_comm (~~~O_NONBLOCK), BitVec.and_not_self]
    exact BitVec.and_zero
  · rw [Bool.not_eq_true] at hon
    have hbit : (word ||| O_NONBLOCK) &&& O_NONBLOCK = O_NONBLOCK := by
      ext i hi
      rw [BitVec.getElem_and, BitVec.getElem_or]
      cases O_NONBLOCK[i] <;> simp
    rw [hon, hbit]
    rfl

theorem sameOthers_syncFlags (optval : List UInt8) (word : BitVec 32) : SameOthers (syncFlags optval word) word := by
  intro i hi
  unfold syncFlags
  split_ifs
  · rw [BitVec.getLsbD_and, BitVec.getLsbD_not, hi, Bool.not_false, Bool.and_true]
    by_cases hlt : i < 32
    · rw [decide_eq_true hlt, Bool.and_true]
    · rw [BitVec.getLsbD_of_ge _ _ (not_lt.1 hlt), Bool.false_and]
  · rw [BitVec.getLsbD_or, hi, Bool.or_false]

theorem fcntl_getfl (word : BitVec 32) (sd : ℤ) : fcntl word ⟨.tcp, sd, .fcntlGetfl⟩ = (word.toInt, word) := rfl

theorem run_setSync (sd : ℤ) (optval : List UInt8) (word : BitVec 32) :
    (setSync sd optval).run fcntl word =
      if word.toInt = -1 then ({ rc := some (-1) }, word) else ({ rc := some 0 }, syncFlags optval word) := by
  rw [setSync, Prog.run_call (fcntl_getfl word sd)]
  split_ifs
  · rfl
  · rw [BitVec.ofInt_toInt]
    rfl

/-- a word with O_NONBLOCK added to it is never 0 -/
theorem run_getSync (sd : ℤ) (word : BitVec 32) :
    (getSync sd).run fcntl word =
      if word.toInt = -1 then ({ rc := some (-1) }, word) else ({ rc := some 0, optval := some 0 }, word) := by
  have hor (v : BitVec 32) : v ||| O_NONBLOCK ≠ 0 := fun h0 => absurd (BitVec.or_eq_zero_iff.1 h0).2 (by decide)
  rw [getSync, Prog.run_call (fcntl_getfl word sd), if_pos (hor _)]
  split_ifs
  · rfl
  · rfl

/-- **What a call does.** -/
theorem step_cases (h : sd < UDT_FD_BASE) (hs : step w sd s op = some t) :
    (∃ name level optval optlen, op = .set name level optval optlen ∧ t = ⟨syncFlags optval s.word, s.answers⟩) ∨
      (∃ name level optlen, op = .get name level optlen ∧ t = ⟨s.word, s.answers ++ [0]⟩) := by
  cases op with
  | set name level optval optlen =>
    refine Or.inl ⟨name, level, optval, optlen, rfl, ?_⟩
    have hprog : SockApi.setsockopt sd level name.opt optval optlen = setSync sd optval := by
      cases name <;> simp only [SockApi.setsockopt, if_pos h, Name.opt]
    simp only [step, Op.program, hprog, run_setSync] at hs
    by_cases hval : s.word.toInt = -1
    · simp only [if_pos hval] at hs
      cases hs
    · simp only [if_neg hval, if_true, Option.toList_none, List.append_nil, Option.some.injEq] at hs
      exact hs.symm
  | get name level optlen =>
    refine Or.inr ⟨name, level, optlen, rfl, ?_⟩
    have hprog : SockApi.getsockopt w sd level name.opt optlen = getSync sd := by
      cases name <;> simp only [SockApi.getsockopt, if_pos h, Name.opt]
    simp only [step, Op.program, hprog, run_getSync] at hs
    by_cases hval : s.word.toInt = -1
    · simp only [if_pos hval] at hs
      cases hs
    · simp only [if_neg hval, if_true, Option.toList_some, Option.some.injEq] at hs
      exact hs.symm

/-! ## Runs -/

variable {word : BitVec 32} {ops : List Op} {b : Mode}

/-- **Other bits.** No call changes them. -/
theorem sameOthers_of_exec (h : sd < UDT_FD_BASE) (hs : (system w sd word).exec s ops = some t)
    (hw : SameOthers s.word word) : SameOthers t.word word := by
  refine System.exec_inv (fun u => SameOthers u.word word) ?_ hs hw
  intro u op v hu hv
  rcases step_cases h hv with ⟨name, level, optval, optlen, -, rfl⟩ | ⟨name, level, optlen, -, rfl⟩
  · exact fun i hi => (sameOthers_syncFlags optval u.word i hi).trans (hu i hi)
  · exact hu

/-- the call asks for the mode only where it is non-blocking -/
def AsksNonblocking (s : Flags) (op : Op) : Prop :=
  match op with
  | .set .. => True
  | .get .. => blocking s.word = false

instance (s : Flags) (op : Op) : Decidable (AsksNonblocking s op) :=
  match op with
  | .set .. => isTrue trivial
  | .get .. => inferInstanceAs (Decidable (blocking s.word = false))

/-- the answers of a run, next to those of the mode that has been kept up with it -/
theorem answers_iff (h : sd < UDT_FD_BASE) (hs : (system w sd word).exec s ops = some t)
    (hmode : b.on = blocking s.word) (hlen : s.answers.length = b.answers.length) :
    t.answers = (ops.foldl Mode.apply b).answers ↔
      s.answers = b.answers ∧ (system w sd word).Meets AsksNonblocking s ops := by
  induction ops generalizing s b with
  | nil =>
    obtain rfl := Option.some.inj hs
    exact ⟨fun heq => ⟨heq, trivial⟩, And.left⟩
  | cons op ops ih =>
    obtain ⟨u, hu, ht⟩ := System.exec_cons.1 hs
    simp only [List.foldl_cons, System.Meets, hu]
    rcases step_cases h hu with ⟨name, level, optval, optlen, rfl, rfl⟩ | ⟨name, level, optlen, rfl, rfl⟩
    · rw [ih ht (b := b.apply (.set name level optval optlen)) (blocking_syncFlags optval s.word).symm hlen]
      simp only [Mode.apply, AsksNonblocking, true_and]
    · rw [ih ht (b := b.apply (.get name level optlen)) hmode
        (by simp only [Mode.apply, List.length_append, hlen]; rfl)]
      simp only [Mode.apply, AsksNonblocking, hmode]
      cases hb : blocking s.word with
      | false => simp
      | true => simp

/-- the answers of the run are those of the mode, and no call of it changes another bit of the word -/
def RoundTrip (w : ℕ) (sd : ℤ) (word : BitVec 32) (ops : List Op) (t : Flags) : Prop :=
  t.answers = (ops.foldl Mode.apply ⟨blocking word, []⟩).answers ∧
    ∀ pre post u, ops = pre ++ post → (system w sd word).exec ⟨word, []⟩ pre = some u → SameOthers u.word word

/-- **When the options round-trip.** Every call of `getsockopt` is made while the descriptor is non-blocking: after the
last value set was false, or from the start. -/
theorem round_trip_iff (h : sd < UDT_FD_BASE) (hs : (system w sd word).exec ⟨word, []⟩ ops = some t) :
    RoundTrip w sd word ops t ↔ (system w sd word).Meets AsksNonblocking ⟨word, []⟩ ops := by
  have hothers (pre post : List Op) (u : Flags) (_ : ops = pre ++ post)
      (hu : (system w sd word).exec ⟨word, []⟩ pre = some u) : SameOthers u.word word :=
    sameOthers_of_exec h hu fun _ _ => rfl
  have hanswers := answers_iff (b := ⟨blocking word, []⟩) h hs rfl rfl
  rw [RoundTrip, and_iff_left hothers, hanswers]
  exact and_iff_right rfl

/-- a descriptor opened for reading and writing is made non-blocking, and then asked -/
theorem round_trip_iff_nonblocking :
    RoundTrip 4 5 2 [.set .rcvsyn 0 [0] 1, .get .sndsyn 0 4] ⟨0x802, [0]⟩ :=
  (round_trip_iff (by decide) (by decide)).2 (by decide)

/-- **Blocking, and not seen.** UDT_SNDSYN is set to true and the answer is 0. -/
theorem blocking_not_seen :
    (system 4 5 2).exec ⟨2, []⟩ [.set .sndsyn 0 [1] 1, .get .sndsyn 0 4] = some ⟨2, [0]⟩ ∧
      ¬ RoundTrip 4 5 2 [.set .sndsyn 0 [1] 1, .get .sndsyn 0 4] ⟨2, [0]⟩ := by
  refine ⟨by decide, ?_⟩
  rintro ⟨hanswers, -⟩
  exact absurd hanswers (by decide)

end Blocking

end UdtGate
