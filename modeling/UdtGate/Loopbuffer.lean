/-
The circular byte buffer of `include/loopbuffer.h`, and the proof that it is a bounded queue of bytes.

The buffer is `len` bytes with two offsets into it and a count of the bytes between them. Equal offsets mean empty or
full, and only `size` tells which. A caller writes through `getWritePointer` and then calls `writen`, or reads through
`getReadPointer` and then calls `readn`; both assert that the bytes lie before the end of the buffer and in the free
(used) part of it. `step` is one such pair, `none` where the assertion fails.

- `Inv` is the invariant: bounds of the three counters, and the write offset is the read offset plus the count, modulo
  the length. `step_inv` keeps it.
- `fifo_simulation`: the buffer is simulated by `Core.Fifo`, across `held`, the unread bytes.
- `loopbuffer_is_fifo`: what this means for a run of any length from an empty buffer.

`atom`, the chunk size, is set by the constructor and never changed; the results hold for every value of it.
-/
import UdtGate.Core.Ring

namespace UdtGate

open UdtGate.Core

/-! ## Model -/

/-- `class Loopbuffer`. The counters are `int`s there: up to 2 ^ 30 for `len` and for the bytes of one step, no sum of two
of them overflows -/
structure Loopbuffer where
  len : ℤ
  atom : ℤ
  size : ℤ
  buf : List UInt8
  readP : ℤ
  writP : ℤ
deriving DecidableEq, Repr

namespace Loopbuffer

/-- the constructor; `mem` is what `new char[sz]` returns -/
def new (sz at_ : ℤ) (mem : List UInt8) : Loopbuffer :=
  let b : Loopbuffer := { len := sz, size := 0, readP := 0, writP := 0, atom := at_, buf := mem }
  -- `if (atom = 0)` assigns and tests the value assigned
  let b := { b with atom := 0 }
  if b.atom ≠ 0 then { b with atom := b.len } else b

def isful (b : Loopbuffer) : Bool := b.size = b.len

def isempty (b : Loopbuffer) : Bool := b.size = 0

def getReadSpace (b : Loopbuffer) : ℤ :=
  min b.atom (if b.readP + b.size ≤ b.len then b.size else b.len - b.readP)

def getWriteSpace (b : Loopbuffer) : ℤ :=
  if b.size = b.len then 0
  else min b.atom (if b.writP > b.readP then b.len - b.writP else b.readP - b.writP)

/-- the assertion of `writen` -/
def WritenOk (b : Loopbuffer) (n : ℤ) : Prop := b.writP + n ≤ b.len ∧ n ≤ b.len - b.size

/-- the assertion of `readn` -/
def ReadnOk (b : Loopbuffer) (n : ℤ) : Prop := b.readP + n ≤ b.len ∧ n ≤ b.size

instance (b : Loopbuffer) (n : ℤ) : Decidable (b.WritenOk n) := inferInstanceAs (Decidable (_ ∧ _))

instance (b : Loopbuffer) (n : ℤ) : Decidable (b.ReadnOk n) := inferInstanceAs (Decidable (_ ∧ _))

def writen (b : Loopbuffer) (n : ℤ) : Option Loopbuffer :=
  if b.WritenOk n then some { b with writP := (b.writP + n).tmod b.len, size := b.size + n } else none

def readn (b : Loopbuffer) (n : ℤ) : Option Loopbuffer :=
  if b.ReadnOk n then some { b with readP := (b.readP + n).tmod b.len, size := b.size - n } else none

/-- a write step stores `bs` at `getWritePointer()` and calls `writen`; a read step takes bytes from
`getReadPointer()` and calls `readn` -/
def step (b : Loopbuffer) : QueueEv UInt8 → Option Loopbuffer
  | .put bs => { b with buf := store b.buf b.writP.toNat bs }.writen bs.length
  | .take bs => if bs = load b.buf b.readP.toNat bs.length then b.readn bs.length else none

/-- as constructed with `cap` bytes, with any chunk size and any contents of the fresh memory -/
def Fresh (cap : ℕ) (b : Loopbuffer) : Prop :=
  0 < b.len ∧ b.len = cap ∧ b.size = 0 ∧ b.readP = 0 ∧ b.writP = 0 ∧ b.buf.length = cap

instance (cap : ℕ) (b : Loopbuffer) : Decidable (Fresh cap b) := inferInstanceAs (Decidable (_ ∧ _))

/-- all uses of a buffer of `cap` bytes -/
def system (cap : ℕ) : System Loopbuffer (QueueEv UInt8) := ⟨Fresh cap, step⟩

/-- the unread bytes, oldest first -/
def held (b : Loopbuffer) : List UInt8 := window b.buf b.readP.toNat b.size.toNat

/-! ## The invariant -/

/-- the counters of a buffer of `cap` bytes -/
structure Inv (cap : ℕ) (b : Loopbuffer) : Prop where
  len_eq : b.len = cap
  buf_length : b.buf.length = cap
  read_nonneg : 0 ≤ b.readP
  read_lt : b.readP < b.len
  size_nonneg : 0 ≤ b.size
  size_le : b.size ≤ b.len
  writ_eq : b.writP = (b.readP + b.size) % b.len

namespace Inv

variable {cap : ℕ} {b : Loopbuffer} (h : Inv cap b)

include h

theorem len_pos : 0 < b.len := lt_of_le_of_lt h.read_nonneg h.read_lt

theorem writ_nonneg : 0 ≤ b.writP := by rw [h.writ_eq]; exact Int.emod_nonneg _ h.len_pos.ne'

theorem writ_lt : b.writP < b.len := by rw [h.writ_eq]; exact Int.emod_lt_of_pos _ h.len_pos

/-- the write offset, whether the unread bytes wrap or not -/
theorem writ_cases :
    (b.readP + b.size < b.len ∧ b.writP = b.readP + b.size) ∨
      (b.len ≤ b.readP + b.size ∧ b.writP = b.readP + b.size - b.len) := by
  have h1 := h.read_nonneg
  have h2 := h.read_lt
  have h3 := h.size_nonneg
  have h4 := h.size_le
  rcases lt_or_ge (b.readP + b.size) b.len with hlt | hge
  · exact Or.inl ⟨hlt, by rw [h.writ_eq, Int.emod_eq_of_lt (by omega) hlt]⟩
  · refine Or.inr ⟨hge, ?_⟩
    rw [h.writ_eq, ← Int.sub_emod_right, Int.emod_eq_of_lt (by omega) (by omega)]

/-- the buffer as a ring of `cap` cells -/
def ring : RingBuf UInt8 where
  cells := b.buf
  start := b.readP.toNat
  count := b.size.toNat
  start_lt := by have := h.read_nonneg; have := h.read_lt; have := h.len_eq; have := h.buf_length; omega
  count_le := by have := h.size_nonneg; have := h.size_le; have := h.len_eq; have := h.buf_length; omega

theorem held_length : b.held.length = b.size.toNat := h.ring.length_held

theorem tail_eq : h.ring.tail = b.writP.toNat := by
  have h1 := h.read_nonneg
  have h3 := h.size_nonneg
  have h4 := h.writ_nonneg
  have h5 := h.buf_length
  have h6 := h.len_eq
  apply Int.ofNat.inj
  show ((b.readP.toNat + b.size.toNat) % b.buf.length : ℕ) = ((b.writP.toNat : ℕ) : ℤ)
  rw [Int.toNat_of_nonneg h4, h.writ_eq, Int.natCast_emod, Int.natCast_add, Int.toNat_of_nonneg h1,
    Int.toNat_of_nonneg h3, h5, h6]

/-- the abstract queue a buffer stands for -/
def abs : Fifo UInt8 cap := ⟨b.held, by
  have := h.held_length; have := h.size_le; have := h.len_eq; omega⟩

end Inv

theorem inv_of_fresh {cap : ℕ} {b : Loopbuffer} (h : Fresh cap b) : Inv cap b := by
  obtain ⟨h1, h2, h3, h4, h5, h6⟩ := h
  exact ⟨h2, h6, by omega, by omega, by omega, by omega, by rw [h3, h4, h5]; simp⟩

theorem fresh_new {cap : ℕ} (hcap : 0 < cap) (at_ : ℤ) {mem : List UInt8} (hmem : mem.length = cap) :
    Fresh cap (new cap at_ mem) :=
  ⟨Int.natCast_pos.2 hcap, rfl, rfl, rfl, rfl, hmem⟩

theorem held_of_fresh {cap : ℕ} {b : Loopbuffer} (h : Fresh cap b) : b.held = [] := by
  simp [held, window, h.2.2.1]

/-! ## One step -/

/-- what a write step can do -/
theorem step_put {b b' : Loopbuffer} {bs : List UInt8} (h : b.step (.put bs) = some b') :
    b.WritenOk bs.length ∧
      b' = { b with buf := store b.buf b.writP.toNat bs, writP := (b.writP + bs.length).tmod b.len,
                    size := b.size + bs.length } := by
  simp only [step, writen] at h
  split_ifs at h with hok
  exact ⟨hok, (Option.some.inj h).symm⟩

/-- what a read step can do -/
theorem step_take {b b' : Loopbuffer} {bs : List UInt8} (h : b.step (.take bs) = some b') :
    bs = load b.buf b.readP.toNat bs.length ∧ b.ReadnOk bs.length ∧
      b' = { b with readP := (b.readP + bs.length).tmod b.len, size := b.size - bs.length } := by
  simp only [step, readn] at h
  split_ifs at h with hd hok
  exact ⟨hd, hok, (Option.some.inj h).symm⟩

theorem step_inv {cap : ℕ} {b b' : Loopbuffer} {e : QueueEv UInt8} (h : Inv cap b) (hs : b.step e = some b') :
    Inv cap b' := by
  have hw := h.writ_nonneg
  have hr := h.read_nonneg
  have hz := h.size_nonneg
  have hl := h.len_pos
  have hlen := h.len_eq
  cases e with
  | put bs =>
    obtain ⟨⟨hend, hfree⟩, rfl⟩ := step_put hs
    have hfit : b.writP.toNat + bs.length ≤ b.buf.length := by have := h.buf_length; omega
    refine ⟨h.len_eq, by simp only [length_store hfit, h.buf_length], h.read_nonneg, h.read_lt, by simp only; omega,
      by simp only; omega, ?_⟩
    calc (b.writP + bs.length).tmod b.len
        = ((b.readP + b.size) % b.len + bs.length) % b.len := by
          rw [Int.tmod_eq_emod_of_nonneg (by omega), h.writ_eq]
      _ = (b.readP + (b.size + bs.length)) % b.len := by rw [Int.emod_add_emod, add_assoc]
  | take bs =>
    obtain ⟨-, ⟨hend, hle⟩, rfl⟩ := step_take hs
    have hmod : (b.readP + bs.length).tmod b.len = (b.readP + bs.length) % b.len :=
      Int.tmod_eq_emod_of_nonneg (by omega)
    refine ⟨h.len_eq, h.buf_length, ?_, ?_, by simp only; omega, by have := h.size_le; simp only; omega, ?_⟩
    · simp only [hmod]; exact Int.emod_nonneg _ hl.ne'
    · simp only [hmod]; exact Int.emod_lt_of_pos _ hl
    · calc b.writP
          = (b.readP + b.size) % b.len := h.writ_eq
        _ = (b.readP + bs.length + (b.size - bs.length)) % b.len := by congr 1; ring
        _ = ((b.readP + bs.length).tmod b.len + (b.size - bs.length)) % b.len := by rw [hmod, Int.emod_add_emod]

/-- a write step appends to the unread bytes -/
theorem held_put {cap : ℕ} {b b' : Loopbuffer} {bs : List UInt8} (h : Inv cap b) (hs : b.step (.put bs) = some b') :
    b'.held = b.held ++ bs := by
  obtain ⟨⟨hend, hfree⟩, rfl⟩ := step_put hs
  have hw := h.writ_nonneg
  have hz := h.size_nonneg
  have hlen := h.len_eq
  have hbuf := h.buf_length
  have hput := h.ring.held_put bs (by rw [h.tail_eq]; simp only [Inv.ring]; omega)
    (by simp only [Inv.ring]; omega)
  rw [RingBuf.put, RingBuf.held] at hput
  simp only [h.tail_eq] at hput
  have hcount : (b.size + bs.length).toNat = b.size.toNat + bs.length := by omega
  simp only [held, hcount]
  exact hput

/-- a read step takes bytes from the front of the unread bytes -/
theorem held_take {cap : ℕ} {b b' : Loopbuffer} {bs : List UInt8} (h : Inv cap b) (hs : b.step (.take bs) = some b') :
    b.held = bs ++ b'.held := by
  obtain ⟨hd, ⟨hend, hle⟩, rfl⟩ := step_take hs
  have hr := h.read_nonneg
  have hz := h.size_nonneg
  have hlen := h.len_eq
  have hbuf := h.buf_length
  have hn : bs.length ≤ h.ring.count := by simp only [Inv.ring]; omega
  have hload : load b.buf b.readP.toNat bs.length = b.held.take bs.length :=
    h.ring.load_start bs.length hn (by simp only [Inv.ring]; omega)
  have htake := h.ring.held_take bs.length hn
  have hstart : ((b.readP + bs.length).tmod b.len).toNat = (b.readP.toNat + bs.length) % b.buf.length := by
    have hsum : b.readP + bs.length = ((b.readP.toNat + bs.length : ℕ) : ℤ) := by omega
    rw [Int.tmod_eq_emod_of_nonneg (by omega), hlen, hbuf, hsum, ← Int.natCast_emod, Int.toNat_natCast]
  have hcount : (b.size - bs.length).toNat = b.size.toNat - bs.length := by omega
  have hrest : held { b with readP := (b.readP + bs.length).tmod b.len, size := b.size - bs.length } =
      b.held.drop bs.length := by
    simp only [held, hstart, hcount]
    exact htake
  rw [hrest]
  conv_lhs => rw [← List.take_append_drop bs.length b.held]
  rw [← hload, ← hd]

/-- the bytes a buffer of `cap` bytes holds fit in a queue of `cap` bytes -/
theorem held_le {cap : ℕ} {b : Loopbuffer} (h : Inv cap b) : b.held.length ≤ cap := h.abs.bound

/-! ## Refinement -/

/-- **The buffer refines the bounded queue**: across `held`, each step is the queue's step with the same data. -/
theorem fifo_simulation (cap : ℕ) :
    System.Simulation (system cap) (Fifo.system UInt8 cap) (fun b q => Inv cap b ∧ q.items = b.held) id where
  init := fun _ hf => ⟨⟨[], Nat.zero_le _⟩, rfl, inv_of_fresh hf, (held_of_fresh hf).symm⟩
  step := by
    rintro b q e b' ⟨hi, hq⟩ hs
    have hi' := step_inv hi hs
    cases e with
    | put bs =>
      have hh := held_put hi hs
      have hfit : (q.items ++ bs).length ≤ cap := by rw [hq, ← hh]; exact held_le hi'
      refine ⟨⟨q.items ++ bs, hfit⟩, ?_, hi', by simp only [hh, hq]⟩
      simp only [Fifo.system, Fifo.step, id_eq, dif_pos hfit]
    | take bs =>
      have hh := held_take hi hs
      have hp : bs <+: q.items := by rw [hq, hh]; exact List.prefix_append _ _
      have hitems : q.items.drop bs.length = b'.held := by rw [hq, hh, List.drop_left]
      refine ⟨⟨b'.held, held_le hi'⟩, ?_, hi', rfl⟩
      simp only [Fifo.system, Fifo.step, id_eq, if_pos hp, hitems]

/-- a run from an empty buffer is a run of the queue -/
theorem exec_fresh {cap : ℕ} {b b' : Loopbuffer} {es : List (QueueEv UInt8)} (hb : Fresh cap b)
    (h : (system cap).exec b es = some b') :
    Inv cap b' ∧ ∃ q, (Fifo.system UInt8 cap).exec ⟨[], Nat.zero_le _⟩ es = some q ∧ q.items = b'.held := by
  obtain ⟨q, hq, hi, hitems⟩ := (fifo_simulation cap).exec (show Inv cap b ∧ _ from
    ⟨inv_of_fresh hb, (show (⟨[], Nat.zero_le _⟩ : Fifo UInt8 cap).items = b.held from (held_of_fresh hb).symm)⟩) h
  rw [List.map_id] at hq
  exact ⟨hi, q, hq, hitems⟩

/-- the unread bytes are what was written and has not been taken -/
theorem held_of_exec {cap : ℕ} {b b' : Loopbuffer} {es : List (QueueEv UInt8)} (hb : Fresh cap b)
    (h : (system cap).exec b es = some b') : QueueEv.taken es ++ b'.held = QueueEv.written es := by
  obtain ⟨-, q, hq, hitems⟩ := exec_fresh hb h
  rw [← hitems, ← Fifo.run_conserves hq]
  rfl

/-- any amount up to the write space passes the assertion of `writen` -/
theorem writen_ok_of_le {cap : ℕ} {b : Loopbuffer} (h : Inv cap b) {n : ℤ} (hn : 0 < n) (hle : n ≤ b.getWriteSpace) :
    b.WritenOk n := by
  have hr := h.read_nonneg
  have hz := h.size_nonneg
  have hs := h.size_le
  unfold getWriteSpace at hle
  split_ifs at hle with hful hgt
  · omega
  · have hle' := le_trans hle (min_le_right _ _)
    rcases h.writ_cases with ⟨h1, h2⟩ | ⟨h1, h2⟩
    · exact ⟨by omega, by omega⟩
    · omega
  · have hle' := le_trans hle (min_le_right _ _)
    rcases h.writ_cases with ⟨h1, h2⟩ | ⟨h1, h2⟩
    · omega
    · have := h.read_lt
      exact ⟨by omega, by omega⟩

/-- any amount up to the read space passes the assertion of `readn` -/
theorem readn_ok_of_le {cap : ℕ} {b : Loopbuffer} (h : Inv cap b) {n : ℤ} (hle : n ≤ b.getReadSpace) :
    b.ReadnOk n := by
  have hs := h.size_le
  have hr := h.read_nonneg
  have hle' := le_trans hle (min_le_right _ _)
  split_ifs at hle' with hend
  · exact ⟨by omega, by omega⟩
  · exact ⟨by omega, by omega⟩

/-! ## Main result -/

/-- **A Loopbuffer is a bounded queue of bytes.** After any run of asserted write and read steps from an empty buffer of
any length and chunk size: the offsets and the count are in range, and the write offset is the read offset plus the
count modulo the length. The run is a run of the queue of `len` bytes, which then holds the unread bytes; so the bytes
taken by the reads followed by the unread bytes are the bytes stored by the writes. `isful` and `isempty` say that the
queue holds `len` and 0 bytes. What `getWriteSpace` and `getReadSpace` offer passes the assertions. -/
theorem loopbuffer_is_fifo {cap : ℕ} {b b' : Loopbuffer} {es : List (QueueEv UInt8)} (hb : Fresh cap b)
    (h : (system cap).exec b es = some b') :
    (0 ≤ b'.readP ∧ b'.readP < b'.len ∧ 0 ≤ b'.writP ∧ b'.writP < b'.len ∧ 0 ≤ b'.size ∧ b'.size ≤ b'.len ∧
      b'.writP = (b'.readP + b'.size) % b'.len) ∧
    (∃ q, (Fifo.system UInt8 cap).exec ⟨[], Nat.zero_le _⟩ es = some q ∧ q.items = b'.held) ∧
    QueueEv.taken es ++ b'.held = QueueEv.written es ∧
    (b'.isful = true ↔ (b'.held.length : ℤ) = b'.len) ∧ (b'.isempty = true ↔ b'.held.length = 0) ∧
    (∀ n, 0 < n → n ≤ b'.getWriteSpace → b'.WritenOk n) ∧ (∀ n, 0 < n → n ≤ b'.getReadSpace → b'.ReadnOk n) := by
  obtain ⟨hi, q, hq, hitems⟩ := exec_fresh hb h
  have hl := hi.held_length
  have hz := hi.size_nonneg
  refine ⟨⟨hi.read_nonneg, hi.read_lt, hi.writ_nonneg, hi.writ_lt, hz, hi.size_le, hi.writ_eq⟩,
    ⟨q, hq, hitems⟩, held_of_exec hb h, ?_, ?_, fun n hn hle => writen_ok_of_le hi hn hle,
    fun n _ hle => readn_ok_of_le hi hle⟩
  · simp only [isful, decide_eq_true_eq]; omega
  · simp only [isempty, decide_eq_true_eq]; omega

/-- four bytes of capacity: a write of three, a read of two and a write that ends at the end of the buffer -/
theorem loopbuffer_is_fifo_wrap :
    (system 4).exec ⟨4, 2, 0, [0, 0, 0, 0], 0, 0⟩ [.put [1, 2, 3], .take [1, 2], .put [4]] =
        some ⟨4, 2, 2, [1, 2, 3, 4], 2, 0⟩ ∧
      QueueEv.taken [.put [1, 2, 3], .take [1, 2], .put [4]] ++ held ⟨4, 2, 2, [1, 2, 3, 4], 2, 0⟩ =
        QueueEv.written [.put [1, 2, 3], .take [1, 2], .put [4]] := by
  have hrun : (system 4).exec ⟨4, 2, 0, [0, 0, 0, 0], 0, 0⟩ [.put [1, 2, 3], .take [1, 2], .put [4]] =
      some ⟨4, 2, 2, [1, 2, 3, 4], 2, 0⟩ := by decide
  have hfresh : Fresh 4 ⟨4, 2, 0, [0, 0, 0, 0], 0, 0⟩ := by decide
  exact ⟨hrun, (loopbuffer_is_fifo hfresh hrun).2.2.1⟩

end Loopbuffer

end UdtGate
