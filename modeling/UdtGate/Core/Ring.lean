/-
Bounded first-in first-out queues, and their representation in a ring of cells.

Two levels of one design:
- `Fifo α cap`: a queue of at most `cap` items, oldest first, moved by `QueueEv`s: items put in, items taken out.
  `Fifo.run_conserves` says that over any run the items taken out followed by the items still held are the items put in.
- `RingBuf α`: a block of cells with a start and a count. `RingBuf.tail` is the first free cell, wrapping at the end of
  the block. A write may not cross the end of the block, so it has two side conditions: it fits before the end, and it
  fits in the free part.

`RingBuf.held_put` and `RingBuf.held_take`: each ring operation is the queue operation on the items the ring holds.
`RingBuf.run_occupied` and `RingBuf.run_free`: how many items, and how many free cells, lie in one piece.
-/
import Mathlib.Data.List.Rotate
import Mathlib.Data.Nat.ModEq
import UdtGate.Core.Memory
import UdtGate.Core.System

namespace UdtGate.Core

/-! ## The abstract queue -/

/-- a queue of at most `cap` items, oldest first -/
structure Fifo (α : Type*) (cap : ℕ) where
  items : List α
  bound : items.length ≤ cap

/-- what happens to a queue: items are put in behind, or items are taken out at the front -/
inductive QueueEv (α : Type*) where
  | put (xs : List α)
  | take (xs : List α)
deriving DecidableEq

namespace QueueEv

variable {α : Type*}

/-- everything a run puts in, in order -/
def written : List (QueueEv α) → List α
  | [] => []
  | .put xs :: es => xs ++ written es
  | .take _ :: es => written es

/-- everything a run takes out, in order -/
def taken : List (QueueEv α) → List α
  | [] => []
  | .put _ :: es => taken es
  | .take xs :: es => xs ++ taken es

end QueueEv

namespace Fifo

variable {α : Type*} {cap : ℕ}

/-- the queue with `xs` behind it, when they fit -/
def push (q : Fifo α cap) (xs : List α) : Fifo α cap :=
  if h : (q.items ++ xs).length ≤ cap then ⟨q.items ++ xs, h⟩ else q

/-- the queue without its first `n` items -/
def pop (q : Fifo α cap) (n : ℕ) : Fifo α cap :=
  ⟨q.items.drop n, le_trans (by rw [List.length_drop]; exact Nat.sub_le _ _) q.bound⟩

theorem push_items {q : Fifo α cap} {xs : List α} (h : xs.length ≤ cap - q.items.length) :
    (q.push xs).items = q.items ++ xs := by
  have hb := q.bound
  rw [push, dif_pos (by rw [List.length_append]; omega)]

@[simp] theorem pop_items (q : Fifo α cap) (n : ℕ) : (q.pop n).items = q.items.drop n := rfl

variable [DecidableEq α]

/-- one event: items that fit are put in; items that are at the front are taken out -/
def step (q : Fifo α cap) : QueueEv α → Option (Fifo α cap)
  | .put xs => if h : (q.items ++ xs).length ≤ cap then some ⟨q.items ++ xs, h⟩ else none
  | .take xs =>
    if xs <+: q.items then
      some ⟨q.items.drop xs.length, le_trans (by rw [List.length_drop]; omega) q.bound⟩
    else none

/-- the queue as a system that starts empty -/
def system (α : Type*) [DecidableEq α] (cap : ℕ) : System (Fifo α cap) (QueueEv α) := ⟨fun q => q.items = [], step⟩

theorem step_put {q q' : Fifo α cap} {xs : List α} (h : q.step (.put xs) = some q') : q'.items = q.items ++ xs := by
  simp only [step] at h
  split_ifs at h
  cases h; rfl

theorem step_take {q q' : Fifo α cap} {xs : List α} (h : q.step (.take xs) = some q') : q.items = xs ++ q'.items := by
  simp only [step] at h
  split_ifs at h with hp
  cases h
  obtain ⟨r, hr⟩ := hp
  simp [← hr]

/-- **Conservation.** Over any run, the items taken out followed by the items still held are the items held at the
start followed by the items put in, in order. -/
theorem run_conserves {q q' : Fifo α cap} {es : List (QueueEv α)} (h : (system α cap).exec q es = some q') :
    q.items ++ QueueEv.written es = QueueEv.taken es ++ q'.items := by
  induction es generalizing q with
  | nil => simp only [System.exec_nil, Option.some.injEq] at h; simp [QueueEv.written, QueueEv.taken, h]
  | cons e es ih =>
    obtain ⟨u, hu, hr⟩ := System.exec_cons.1 h
    cases e with
    | put xs =>
      calc q.items ++ (xs ++ QueueEv.written es)
          = u.items ++ QueueEv.written es := by rw [← List.append_assoc, ← step_put hu]
        _ = QueueEv.taken es ++ q'.items := ih hr
    | take xs =>
      calc q.items ++ QueueEv.written es
          = xs ++ (u.items ++ QueueEv.written es) := by rw [step_take hu, List.append_assoc]
        _ = xs ++ QueueEv.taken es ++ q'.items := by rw [ih hr, List.append_assoc]

end Fifo

/-! ## A window of a block of cells -/

variable {α : Type*}

/-- the `n` cells of the block `m` from cell `s` on, wrapping at the end of the block -/
def window (m : List α) (s n : ℕ) : List α := (m.rotate s).take n

theorem length_window {m : List α} {s n : ℕ} (h : n ≤ m.length) : (window m s n).length = n := by
  simp only [window, List.length_take, List.length_rotate]; omega

theorem getElem?_window {m : List α} {s n i : ℕ} (hn : n ≤ m.length) (hi : i < n) :
    (window m s n)[i]? = m[(i + s) % m.length]? := by
  unfold window
  rw [List.getElem?_take_of_lt hi, List.getElem?_rotate (by omega)]

/-- distinct offsets below the length of the block are distinct cells -/
theorem wrap_ne {len s i j : ℕ} (hi : i < len) (hj : j < len) (h : i ≠ j) : (i + s) % len ≠ (j + s) % len := by
  intro he
  have hm : Nat.ModEq len i j := Nat.ModEq.add_right_cancel' s he
  exact h (Nat.ModEq.eq_of_lt_of_lt hm hi hj)

/-- **A write behind the window extends it**: cells stored from the first free cell on, without crossing the end of
the block and without reaching the window again, are appended to the window's contents. -/
theorem window_store {m xs : List α} {s n : ℕ} (hfree : n + xs.length ≤ m.length)
    (hend : (s + n) % m.length + xs.length ≤ m.length) :
    window (store m ((s + n) % m.length) xs) s (n + xs.length) = window m s n ++ xs := by
  have hlen := length_store hend
  have hn : n ≤ m.length := by omega
  apply List.ext_getElem?
  intro i
  rcases Nat.lt_or_ge i (n + xs.length) with hi | hi
  · rw [getElem?_window (by rw [hlen]; exact hfree) hi, hlen, getElem?_store hend]
    have hpos : 0 < m.length := by omega
    by_cases h1 : i < n
    · -- an old cell: it lies outside the stored range, since the range holds the offsets n, n + 1, ...
      rw [List.getElem?_append_left (by rw [length_window hn]; exact h1), getElem?_window hn h1, if_neg]
      rintro ⟨hlo, hhi⟩
      have hj : ((i + s) % m.length - (s + n) % m.length) < xs.length := by omega
      have hne := wrap_ne (s := s) (show i < m.length by omega)
        (show n + ((i + s) % m.length - (s + n) % m.length) < m.length by omega) (by omega)
      apply hne
      calc (i + s) % m.length
          = ((s + n) % m.length + ((i + s) % m.length - (s + n) % m.length)) % m.length := by
            rw [Nat.add_sub_cancel' hlo, Nat.mod_mod]
        _ = (s + n + ((i + s) % m.length - (s + n) % m.length)) % m.length := by rw [Nat.mod_add_mod]
        _ = (n + ((i + s) % m.length - (s + n) % m.length) + s) % m.length := by congr 1; omega
    · have hd : (i + s) % m.length = (s + n) % m.length + (i - n) := by
        have he : i + s = (s + n) + (i - n) := by omega
        rw [he, ← Nat.mod_add_mod, Nat.mod_eq_of_lt (by omega)]
      rw [List.getElem?_append_right (by rw [length_window hn]; omega), length_window hn, hd, if_pos (by omega)]
      congr 1; omega
  · rw [List.getElem?_eq_none (by rw [length_window (by rw [hlen]; exact hfree)]; exact hi),
      List.getElem?_eq_none (by rw [List.length_append, length_window hn]; exact hi)]

theorem window_drop {m : List α} {s n k : ℕ} (hk : k ≤ n) (hn : n ≤ m.length) :
    window m ((s + k) % m.length) (n - k) = (window m s n).drop k := by
  apply List.ext_getElem?
  intro i
  rcases Nat.lt_or_ge i (n - k) with hi | hi
  · rw [getElem?_window (by omega) hi, List.getElem?_drop, getElem?_window hn (by omega), Nat.add_mod_mod]
    congr 2; omega
  · rw [List.getElem?_eq_none (by rw [length_window (by omega)]; exact hi),
      List.getElem?_eq_none (by rw [List.length_drop, length_window hn]; exact hi)]

/-- a read that does not cross the end of the block reads the front of the window -/
theorem load_eq_take_window {m : List α} {s n k : ℕ} (hs : s + k ≤ m.length) (hk : k ≤ n) :
    load m s k = (window m s n).take k := by
  unfold load window
  rw [List.take_take, Nat.min_eq_left hk]
  rcases Nat.eq_zero_or_pos k with rfl | hpos
  · simp
  · rw [List.rotate_eq_drop_append_take (by omega), List.take_append_of_le_length (by rw [List.length_drop]; omega)]

/-! ## The ring -/

/-- a block of cells of which `count`, from `start` on, hold items -/
structure RingBuf (α : Type*) where
  cells : List α
  start : ℕ
  count : ℕ
  start_lt : start < cells.length
  count_le : count ≤ cells.length

namespace RingBuf

/-- the first free cell -/
def tail (r : RingBuf α) : ℕ := (r.start + r.count) % r.cells.length

/-- the items the ring holds, oldest first -/
def held (r : RingBuf α) : List α := window r.cells r.start r.count

def abs (r : RingBuf α) : Fifo α r.cells.length := ⟨r.held, by rw [held, length_window r.count_le]; exact r.count_le⟩

theorem length_held (r : RingBuf α) : r.held.length = r.count := length_window r.count_le

def put (r : RingBuf α) (xs : List α) (hend : r.tail + xs.length ≤ r.cells.length)
    (hfree : r.count + xs.length ≤ r.cells.length) : RingBuf α where
  cells := store r.cells r.tail xs
  start := r.start
  count := r.count + xs.length
  start_lt := by rw [length_store hend]; exact r.start_lt
  count_le := by rw [length_store hend]; exact hfree

def take (r : RingBuf α) (n : ℕ) (hn : n ≤ r.count) : RingBuf α where
  cells := r.cells
  start := (r.start + n) % r.cells.length
  count := r.count - n
  start_lt := Nat.mod_lt _ (Nat.lt_of_le_of_lt (Nat.zero_le _) r.start_lt)
  count_le := by have := r.count_le; omega

/-- **A ring write is a queue write.** -/
theorem held_put (r : RingBuf α) (xs : List α) (hend : r.tail + xs.length ≤ r.cells.length)
    (hfree : r.count + xs.length ≤ r.cells.length) : (r.put xs hend hfree).held = r.held ++ xs :=
  window_store hfree hend

/-- **A ring read is a queue read.** -/
theorem held_take (r : RingBuf α) (n : ℕ) (hn : n ≤ r.count) : (r.take n hn).held = r.held.drop n :=
  window_drop hn r.count_le

/-- the data a read finds at `start`, when it does not cross the end of the block -/
theorem load_start (r : RingBuf α) (n : ℕ) (hn : n ≤ r.count) (hend : r.start + n ≤ r.cells.length) :
    load r.cells r.start n = r.held.take n :=
  load_eq_take_window hend hn

end RingBuf

/-! ## Runs of cells -/

/-- how many of the `room` cells from `s` on have the property, up to the first that has not -/
def runLength (p : ℕ → Bool) (s : ℕ) : ℕ → ℕ
  | 0 => 0
  | room + 1 => if p s then runLength p (s + 1) room + 1 else 0

/-- **The longest run**: no longer block of cells from `s` on has the property throughout. -/
theorem runLength_isGreatest (p : ℕ → Bool) (s room : ℕ) :
    IsGreatest {n | n ≤ room ∧ ∀ i < n, p (s + i) = true} (runLength p s room) := by
  induction room generalizing s with
  | zero => exact ⟨⟨le_refl 0, fun i hi => absurd hi (Nat.not_lt_zero i)⟩, fun n hn => hn.1⟩
  | succ room ih =>
    unfold runLength
    split_ifs with hs
    · obtain ⟨⟨hle, hall⟩, hmax⟩ := ih (s + 1)
      refine ⟨⟨Nat.succ_le_succ hle, ?_⟩, ?_⟩
      · intro i hi
        cases i with
        | zero => exact hs
        | succ i =>
          have hi' := hall i (Nat.lt_of_succ_lt_succ hi)
          rwa [Nat.add_assoc, Nat.add_comm 1 i] at hi'
      · rintro n ⟨hn, hp⟩
        cases n with
        | zero => exact Nat.zero_le _
        | succ n =>
          apply Nat.succ_le_succ
          apply hmax
          refine ⟨Nat.le_of_succ_le_succ hn, ?_⟩
          intro i hi
          have hi' := hp (i + 1) (Nat.succ_lt_succ hi)
          rwa [Nat.add_comm i 1, ← Nat.add_assoc] at hi'
    · refine ⟨⟨Nat.zero_le _, fun i hi => absurd hi (Nat.not_lt_zero i)⟩, ?_⟩
      rintro n ⟨-, hp⟩
      by_contra hn
      exact hs (hp 0 (Nat.pos_of_ne_zero fun h0 => hn h0.le))

/-- a run ends where the property does, or the room -/
theorem runLength_eq {p : ℕ → Bool} {s room n : ℕ} (hn : n ≤ room) (hall : ∀ i < n, p (s + i) = true)
    (hend : n = room ∨ p (s + n) = false) : runLength p s room = n := by
  apply (runLength_isGreatest p s room).unique
  refine ⟨⟨hn, hall⟩, ?_⟩
  rintro m ⟨hm, hp⟩
  by_contra hlt
  rcases hend with rfl | hend
  · exact hlt hm
  · exact Bool.false_ne_true (hend.symm.trans (hp n (not_le.1 hlt)))

namespace RingBuf

/-- the cell `i` holds an item -/
def occupied (r : RingBuf α) (i : ℕ) : Bool := decide (∃ j < r.count, (r.start + j) % r.cells.length = i)

/-- the items lie between the start and the tail, around the end of the block -/
theorem occupied_iff (r : RingBuf α) {i : ℕ} (hi : i < r.cells.length) :
    r.occupied i = true ↔
      (r.start ≤ i ∧ i < r.start + r.count) ∨ i + r.cells.length < r.start + r.count := by
  have hs := r.start_lt
  have hc := r.count_le
  rw [occupied, decide_eq_true_eq]
  constructor
  · rintro ⟨j, hj, rfl⟩
    rcases Nat.lt_or_ge (r.start + j) r.cells.length with hlt | hge
    · rw [Nat.mod_eq_of_lt hlt]
      omega
    · rw [Nat.mod_eq_sub_mod hge, Nat.mod_eq_of_lt (by omega)]
      omega
  · rintro (⟨hle, hlt⟩ | hlt)
    · exact ⟨i - r.start, by omega, by rw [Nat.add_sub_cancel' hle, Nat.mod_eq_of_lt hi]⟩
    · refine ⟨i + r.cells.length - r.start, by omega, ?_⟩
      rw [show r.start + (i + r.cells.length - r.start) = i + r.cells.length by omega, Nat.add_mod_right,
        Nat.mod_eq_of_lt hi]

/-- the items from the start on, up to the end of the block -/
theorem run_occupied (r : RingBuf α) :
    runLength r.occupied r.start (r.cells.length - r.start) = min r.count (r.cells.length - r.start) := by
  have hs := r.start_lt
  apply runLength_eq (min_le_right _ _)
  · intro i hi
    rw [r.occupied_iff (by omega)]
    omega
  · rcases Nat.lt_or_ge r.count (r.cells.length - r.start) with hlt | hge
    · right
      rw [min_eq_left hlt.le, Bool.eq_false_iff]
      intro h
      rw [r.occupied_iff (by omega)] at h
      omega
    · exact Or.inl (min_eq_right hge)

/-- the free cells from the tail on, up to the end of the block -/
theorem run_free (r : RingBuf α) :
    runLength (fun i => !r.occupied i) r.tail (r.cells.length - r.tail) =
      min (r.cells.length - r.count) (r.cells.length - r.tail) := by
  have hs := r.start_lt
  have hc := r.count_le
  have htail : r.tail < r.cells.length := Nat.mod_lt _ (Nat.lt_of_le_of_lt (Nat.zero_le _) hs)
  have hcases : (r.start + r.count < r.cells.length ∧ r.tail = r.start + r.count) ∨
      (r.cells.length ≤ r.start + r.count ∧ r.tail + r.cells.length = r.start + r.count) := by
    rcases Nat.lt_or_ge (r.start + r.count) r.cells.length with hlt | hge
    · exact Or.inl ⟨hlt, Nat.mod_eq_of_lt hlt⟩
    · refine Or.inr ⟨hge, ?_⟩
      rw [tail, Nat.mod_eq_sub_mod hge, Nat.mod_eq_of_lt (by omega)]
      omega
  apply runLength_eq (min_le_right _ _)
  · intro i hi
    rw [Bool.not_eq_true', Bool.eq_false_iff]
    intro h
    rw [r.occupied_iff (by omega)] at h
    omega
  · rcases Nat.lt_or_ge (r.cells.length - r.count) (r.cells.length - r.tail) with hlt | hge
    · right
      rw [min_eq_left hlt.le, Bool.not_eq_false', r.occupied_iff (by omega)]
      omega
    · exact Or.inl (min_eq_right hge)

end RingBuf

end UdtGate.Core
