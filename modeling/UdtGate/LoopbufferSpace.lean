/-
What the getters of `include/loopbuffer.h` offer, against the cells that are really there.

- `readRun` and `writeRun`: the unread bytes, and the free cells, that lie in one piece from the read and the write
  pointer on.
- `getReadSpace_eq` and `getWriteSpace_eq_iff`: the getters in every state that keeps the invariant. The chunk size
  limits both; equal offsets make the write getter take an empty buffer for a full one.
- `read_space_iff` and `write_space_iff`: when the getters are right, over every run. The constructor leaves a chunk
  size of 0 behind, so a buffer that is not empty offers nothing to read.
-/
import UdtGate.Loopbuffer

namespace UdtGate

open UdtGate.Core

namespace Loopbuffer

/-! ## The cells -/

/-- the cell `i` holds an unread byte -/
def unread (b : Loopbuffer) (i : ℕ) : Bool :=
  decide (∃ j < b.size.toNat, (b.readP.toNat + j) % b.buf.length = i)

/-- the unread bytes in one piece from `read_p` on -/
def readRun (b : Loopbuffer) : ℕ := runLength b.unread b.readP.toNat (b.buf.length - b.readP.toNat)

/-- the free cells in one piece from `writ_p` on -/
def writeRun (b : Loopbuffer) : ℕ :=
  runLength (fun i => !b.unread i) b.writP.toNat (b.buf.length - b.writP.toNat)

/-- the chunk size that a buffer is asked for -/
def chunk (sz at_ : ℤ) : ℤ := if at_ = 0 then sz else at_

variable {cap : ℕ} {b b' : Loopbuffer}

namespace Inv

variable (h : Inv cap b)

include h

theorem readRun_eq : (b.readRun : ℤ) = min b.size (b.len - b.readP) := by
  have hrun : b.readRun = min b.size.toNat (b.buf.length - b.readP.toNat) := h.ring.run_occupied
  have h1 := h.read_nonneg
  have h2 := h.read_lt
  have h3 := h.size_nonneg
  have h4 := h.len_eq
  have h5 := h.buf_length
  omega

theorem writeRun_eq : (b.writeRun : ℤ) = min (b.len - b.size) (b.len - b.writP) := by
  have hrun : b.writeRun = min (b.buf.length - b.size.toNat) (b.buf.length - b.writP.toNat) := by
    rw [← h.tail_eq, writeRun, ← h.tail_eq]
    exact h.ring.run_free
  have h1 := h.writ_nonneg
  have h2 := h.writ_lt
  have h3 := h.size_nonneg
  have h4 := h.size_le
  have h5 := h.len_eq
  have h6 := h.buf_length
  omega

/-- the read getter is exact, up to the chunk size -/
theorem getReadSpace_eq : b.getReadSpace = min b.atom b.readRun := by
  have hr := h.readRun_eq
  rw [getReadSpace]
  congr 1
  split_ifs with hend
  · omega
  · omega

/-- there is a byte to read exactly when the buffer is not empty -/
theorem readRun_pos : 0 < b.readRun ↔ b.size ≠ 0 := by
  have hr := h.readRun_eq
  have h2 := h.read_lt
  have h3 := h.size_nonneg
  omega

theorem writeRun_pos : 0 < b.writeRun ↔ b.size ≠ b.len := by
  have hr := h.writeRun_eq
  have h2 := h.writ_lt
  have h4 := h.size_le
  omega

/-- the write getter is exact unless the buffer is empty: then the offsets are equal and it finds no room -/
theorem getWriteSpace_eq_iff (hatom : 0 < b.atom) : b.getWriteSpace = min b.atom b.writeRun ↔ b.size ≠ 0 := by
  have hr := h.writeRun_eq
  have hw := h.writ_lt
  have hl := h.len_pos
  have hz := h.size_nonneg
  have hread := h.read_nonneg
  have hlt := h.read_lt
  have hcases := h.writ_cases
  rw [getWriteSpace]
  split_ifs with hful hgt
  · omega
  · omega
  · omega

end Inv

/-! ## Runs -/

theorem step_atom {e : QueueEv UInt8} (hs : b.step e = some b') : b'.atom = b.atom := by
  cases e with
  | put bs =>
    obtain ⟨-, rfl⟩ := step_put hs
    rfl
  | take bs =>
    obtain ⟨-, -, rfl⟩ := step_take hs
    rfl

/-- the chunk size is never changed -/
theorem exec_atom {es : List (QueueEv UInt8)} (h : (system cap).exec b es = some b') : b'.atom = b.atom :=
  System.exec_inv (fun c => c.atom = b.atom) (fun _ _ _ hs ht => (step_atom ht).trans hs) h rfl

/-- the buffer is empty exactly when everything written has been taken -/
theorem size_eq_zero_iff {es : List (QueueEv UInt8)} (hb : Fresh cap b) (h : (system cap).exec b es = some b') :
    b'.size = 0 ↔ QueueEv.taken es = QueueEv.written es := by
  have hi := (exec_fresh hb h).1
  have hz := hi.size_nonneg
  have hl := hi.held_length
  rw [← held_of_exec hb h, List.self_eq_append_right, ← List.length_eq_zero_iff]
  omega

/-- **When the read space is right**: never while a byte is unread. -/
theorem read_space_iff (hcap : 0 < cap) {at_ : ℤ} (hat : 0 ≤ at_) {mem : List UInt8} (hmem : mem.length = cap)
    {es : List (QueueEv UInt8)} (h : (system cap).exec (new cap at_ mem) es = some b) :
    (b.getReadSpace = min (chunk cap at_) b.readRun ∧ (b.isempty = false → 0 < b.getReadSpace)) ↔
      QueueEv.taken es = QueueEv.written es := by
  have hfresh := fresh_new hcap at_ hmem
  have hi := (exec_fresh hfresh h).1
  have hatom : b.atom = 0 := exec_atom h
  have hchunk : 0 < chunk cap at_ := by
    unfold chunk
    split_ifs with hzero
    · exact Int.natCast_pos.2 hcap
    · exact lt_of_le_of_ne hat (Ne.symm hzero)
  have hpos := hi.readRun_pos
  rw [← size_eq_zero_iff hfresh h, hi.getReadSpace_eq, hatom, isempty, decide_eq_false_iff_not]
  constructor
  · rintro ⟨-, hne⟩
    by_contra hs
    have := hne hs
    omega
  · intro hs
    exact ⟨by omega, fun hne => absurd hs hne⟩

/-- four bytes written and read back, to the end of the buffer -/
theorem read_space_iff_drained :
    getReadSpace ⟨4, 0, 0, [1, 2, 3, 4], 0, 0⟩ = min (chunk 4 2) (readRun ⟨4, 0, 0, [1, 2, 3, 4], 0, 0⟩) := by
  have hrun : (system 4).exec (new 4 2 [0, 0, 0, 0]) [.put [1, 2, 3], .take [1, 2], .put [4], .take [3, 4]] =
      some ⟨4, 0, 0, [1, 2, 3, 4], 0, 0⟩ := by decide
  exact ((read_space_iff (show 0 < 4 by decide) (by decide) rfl hrun).2 rfl).1

/-- **A buffer that offers nothing.** One byte is written to a buffer with a chunk size of 2, and there is nothing to
read. -/
theorem nothing_to_read :
    ∃ b, (system 4).exec (new 4 2 [0, 0, 0, 0]) [.put [7]] = some b ∧
      b.isempty = false ∧ min (chunk 4 2) b.readRun = 1 ∧ b.getReadSpace = 0 :=
  System.exec_of_any (by decide)

/-- **When the write space is right**: exactly while a byte is unread. -/
theorem write_space_iff (hb : Fresh cap b) (hatom : 0 < b.atom) {es : List (QueueEv UInt8)}
    (h : (system cap).exec b es = some b') :
    (b'.getWriteSpace = min b'.atom b'.writeRun ∧ (b'.getWriteSpace = 0 ↔ b'.isful = true)) ↔
      QueueEv.taken es ≠ QueueEv.written es := by
  have hi := (exec_fresh hb h).1
  have hatom' : 0 < b'.atom := by rwa [exec_atom h]
  rw [Ne, ← size_eq_zero_iff hb h, ← Ne, ← hi.getWriteSpace_eq_iff hatom']
  refine ⟨And.left, fun heq => ⟨heq, ?_⟩⟩
  have hpos := hi.writeRun_pos
  rw [heq, isful, decide_eq_true_eq]
  omega

/-- one byte unread, two cells free up to the end of the buffer -/
theorem write_space_iff_unread :
    getWriteSpace ⟨4, 3, 1, [1, 2, 0, 0], 1, 2⟩ = min 3 (writeRun ⟨4, 3, 1, [1, 2, 0, 0], 1, 2⟩ : ℤ) := by
  have hfresh : Fresh 4 ⟨4, 3, 0, [0, 0, 0, 0], 0, 0⟩ := by decide
  have hrun : (system 4).exec ⟨4, 3, 0, [0, 0, 0, 0], 0, 0⟩ [.put [1, 2], .take [1]] =
      some ⟨4, 3, 1, [1, 2, 0, 0], 1, 2⟩ := by decide
  exact ((write_space_iff hfresh (by decide) hrun).2 (by decide)).1

/-- **An empty buffer that takes nothing.** All four cells are free and the write space is 0. -/
theorem nothing_to_write :
    ∃ b, (system 4).exec ⟨4, 2, 0, [0, 0, 0, 0], 0, 0⟩ [] = some b ∧
      b.isful = false ∧ min b.atom b.writeRun = 2 ∧ b.getWriteSpace = 0 :=
  System.exec_of_any (by decide)

end Loopbuffer

end UdtGate
