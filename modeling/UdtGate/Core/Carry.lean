/-
Carrying a stream in blocks: what a relay does between taking a block in and handing it on.

`Carry cap blocks acc rest` says where the elements of the blocks taken in so far are: `acc` was handed on, in order,
and `rest` is still outstanding, the end of the last block, which has at most `cap` elements.

- `Carry.take_in`, `Carry.hand_on`: what keeps it;
- `Carry.front`, `Carry.oneBlock`: what it says to someone who sees only the blocks and what was handed on.
-/
import Mathlib.Tactic

namespace UdtGate.Core

variable {α : Type*}

/-- all blocks but at most the last were handed on, and that one has at most `cap` elements -/
def OneBlock (cap : ℕ) (blocks : List (List α)) (acc : List α) : Prop :=
  ∃ done last, blocks = done ++ last ∧ last.length ≤ 1 ∧ (∀ b ∈ last, b.length ≤ cap) ∧ done.flatten <+: acc

/-- `rest` of the elements of `blocks` is outstanding -/
structure Carry (cap : ℕ) (blocks : List (List α)) (acc rest : List α) : Prop where
  split : acc ++ rest = blocks.flatten
  last : ∃ done last, blocks = done ++ last ∧ last.length ≤ 1 ∧ (∀ b ∈ last, b.length ≤ cap) ∧ rest <:+ last.flatten

namespace Carry

variable {cap : ℕ} {blocks : List (List α)} {acc rest : List α}

theorem nil : Carry cap ([] : List (List α)) [] [] :=
  ⟨rfl, [], [], rfl, by simp, by simp, List.suffix_refl _⟩

/-- nothing is outstanding: the next block may be taken in -/
theorem take_in (h : Carry cap blocks acc []) {b : List α} (hb : b.length ≤ cap) :
    Carry cap (blocks ++ [b]) acc b := by
  refine ⟨?_, blocks, [b], rfl, by simp, by simpa using hb, by simp⟩
  have hs := h.split
  rw [List.append_nil] at hs
  rw [hs, List.flatten_append, List.flatten_singleton]

/-- the front of what is outstanding is handed on -/
theorem hand_on {xs : List α} (h : Carry cap blocks acc (xs ++ rest)) : Carry cap blocks (acc ++ xs) rest := by
  obtain ⟨done, last, hbl, h1, hcap, hsuf⟩ := h.last
  refine ⟨?_, done, last, hbl, h1, hcap, (List.suffix_append xs rest).trans hsuf⟩
  rw [List.append_assoc]
  exact h.split

theorem front (h : Carry cap blocks acc rest) : acc <+: blocks.flatten := ⟨rest, h.split⟩

theorem oneBlock (h : Carry cap blocks acc rest) : OneBlock cap blocks acc := by
  obtain ⟨done, last, hbl, h1, hcap, ⟨p, hp⟩⟩ := h.last
  refine ⟨done, last, hbl, h1, hcap, p, ?_⟩
  have hs := h.split
  rw [hbl, List.flatten_append, ← hp, ← List.append_assoc] at hs
  exact (List.append_cancel_right hs).symm

end Carry

end UdtGate.Core
