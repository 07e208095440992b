/-
Memory as a function of addresses, for objects that lie side by side in it.

`putAt m p xs` writes `xs` from the address `p` on; there is no end of the memory that a write could run out of, so what
a write may touch is a question about addresses (`putAt_changed`).

- `putAt_over` and `putAt_append`: two writes that overlap, or lie side by side, are one;
- `HoldsAt`: what the cells from an address on hold;
- `StringAt`: a string with its terminator, `HoldsAt.string` when the cells show one.
-/
import Mathlib.Data.List.GetD
import Mathlib.Tactic

namespace UdtGate.Core

variable {β : Type*} {m : ℕ → β} {p q i : ℕ} {xs ys : List β}

/-- write `xs` from `p` on -/
def putAt (m : ℕ → β) (p : ℕ) (xs : List β) : ℕ → β := fun q => if p ≤ q then xs.getD (q - p) (m q) else m q

theorem putAt_nil (m : ℕ → β) (p : ℕ) : putAt m p [] = m := by
  funext q
  unfold putAt
  split_ifs
  · rfl
  · rfl

theorem putAt_of_lt (h : q < p) : putAt m p xs q = m q := if_neg (not_le.2 h)

theorem putAt_of_ge (h : p + xs.length ≤ q) : putAt m p xs q = m q := by
  rw [putAt, if_pos (by omega), List.getD_eq_default _ _ (by omega)]

/-- the cells that were written -/
theorem putAt_add (h : i < xs.length) : putAt m p xs (p + i) = xs[i] := by
  rw [putAt, if_pos (Nat.le_add_right p i), Nat.add_sub_cancel_left, List.getD_eq_getElem _ _ h]

/-- only the cells of a write are changed -/
theorem putAt_changed (h : putAt m p xs q ≠ m q) : p ≤ q ∧ q < p + xs.length := by
  constructor
  · by_contra hlt
    exact h (putAt_of_lt (not_le.1 hlt))
  · by_contra hge
    exact h (putAt_of_ge (not_lt.1 hge))

/-- of two writes that overlap, the later one counts where it covers the end of the earlier -/
theorem putAt_over {zs : List β} (h : zs.length ≤ ys.length) :
    putAt (putAt m p (xs ++ zs)) (p + xs.length) ys = putAt m p (xs ++ ys) := by
  funext q
  rcases lt_or_ge q p with hlt | hle
  · rw [putAt_of_lt (by omega), putAt_of_lt hlt, putAt_of_lt hlt]
  obtain ⟨i, rfl⟩ := Nat.exists_eq_add_of_le hle
  rcases lt_or_ge i xs.length with hi | hi
  · rw [putAt_of_lt (by omega), putAt_add (by rw [List.length_append]; omega),
      putAt_add (by rw [List.length_append]; omega), List.getElem_append_left hi, List.getElem_append_left hi]
  obtain ⟨j, rfl⟩ := Nat.exists_eq_add_of_le hi
  rcases lt_or_ge j ys.length with hj | hj
  · rw [← Nat.add_assoc, putAt_add hj, Nat.add_assoc, putAt_add (by rw [List.length_append]; omega),
      List.getElem_append_right (by omega)]
    simp only [Nat.add_sub_cancel_left]
  · rw [putAt_of_ge (by omega), putAt_of_ge (by rw [List.length_append]; omega),
      putAt_of_ge (by rw [List.length_append]; omega)]

/-- two writes side by side are one -/
theorem putAt_append : putAt (putAt m p xs) (p + xs.length) ys = putAt m p (xs ++ ys) := by
  have hover : putAt (putAt m p (xs ++ [])) (p + xs.length) ys = putAt m p (xs ++ ys) := putAt_over (Nat.zero_le _)
  rwa [List.append_nil] at hover

/-- the cells from `p` on hold `xs` -/
def HoldsAt (m : ℕ → β) (p : ℕ) (xs : List β) : Prop := ∀ i (h : i < xs.length), m (p + i) = xs[i]

theorem holdsAt_putAt : HoldsAt (putAt m p xs) p xs := fun _ h => putAt_add h

theorem holdsAt_append : HoldsAt m p (xs ++ ys) ↔ HoldsAt m p xs ∧ HoldsAt m (p + xs.length) ys := by
  constructor
  · intro h
    refine ⟨?_, ?_⟩
    · intro i hi
      rw [h i (by rw [List.length_append]; omega), List.getElem_append_left hi]
    · intro i hi
      rw [Nat.add_assoc, h (xs.length + i) (by rw [List.length_append]; omega),
        List.getElem_append_right (Nat.le_add_right _ _)]
      simp only [Nat.add_sub_cancel_left]
  · rintro ⟨hx, hy⟩ i hi
    rcases lt_or_ge i xs.length with hlt | hge
    · rw [List.getElem_append_left hlt, hx i hlt]
    · obtain ⟨j, rfl⟩ := Nat.exists_eq_add_of_le hge
      rw [List.length_append] at hi
      rw [List.getElem_append_right hge, ← Nat.add_assoc, hy j (by omega)]
      simp only [Nat.add_sub_cancel_left]

theorem holdsAt_singleton {x : β} : HoldsAt m p [x] ↔ m p = x := by
  constructor
  · intro h
    exact h 0 Nat.zero_lt_one
  · intro h i hi
    obtain rfl := Nat.lt_one_iff.1 hi
    exact h

/-- a string without a terminator in it, and one behind it -/
structure StringAt [Zero β] (m : ℕ → β) (p : ℕ) (t : List β) : Prop where
  cells : HoldsAt m p t
  proper : 0 ∉ t
  stop : m (p + t.length) = 0

/-- a string ends at the first terminator -/
theorem HoldsAt.string [Zero β] (h : HoldsAt m p (xs ++ 0 :: ys)) (hxs : 0 ∉ xs) : StringAt m p xs where
  cells := (holdsAt_append.1 h).1
  proper := hxs
  stop := (holdsAt_append.1 h).2 0 (Nat.zero_lt_succ _)

end UdtGate.Core
