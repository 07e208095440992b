/-
A heap of blocks, and linked lists in it.

A heap maps addresses to blocks; address 0 is NULL and never a block. `Adds h₀ bs h` says that `h` is `h₀` and the
blocks `bs` besides: they lie at addresses of their own that `h₀` does not use, and everything else is as it is in `h₀`.

- `Adds.alloc`, `Adds.store`, `Adds.free`: what an operation does to the blocks;
- `Adds.base_eq`: a heap that adds no block to `h₀` is `h₀`, so what was allocated since then was freed;
- `chain`: the blocks of a linked list, up to the address `e` that its last cell links to.
-/
import Mathlib.Data.Finmap
import Mathlib.Order.Lattice.Nat

namespace UdtGate.Core

abbrev Heap (β : Type*) := Finmap fun _ : ℕ => β

namespace Heap

variable {β : Type*} {h h₀ : Heap β} {bs cs : List (ℕ × β)} {p : ℕ} {b : β}

/-- `free` leaves NULL alone; what is not a block cannot be freed -/
def free (h : Heap β) (p : ℕ) : Option (Heap β) :=
  if p = 0 then some h else if p ∈ h then some (h.erase p) else none

/-- `h` is `h₀` and the blocks `bs` besides -/
structure Adds (h₀ : Heap β) (bs : List (ℕ × β)) (h : Heap β) : Prop where
  nodup : (bs.map Prod.fst).Nodup
  fresh : ∀ x ∈ bs, x.1 ≠ 0 ∧ h₀.lookup x.1 = none
  holds : ∀ x ∈ bs, h.lookup x.1 = some x.2
  frame : ∀ p, p ∉ bs.map Prod.fst → h.lookup p = h₀.lookup p

theorem adds_nil (h : Heap β) : Adds h [] h :=
  ⟨List.nodup_nil, List.forall_mem_nil _, List.forall_mem_nil _, fun _ _ => rfl⟩

/-- **Nothing is left.** -/
theorem Adds.base_eq (ha : Adds h₀ [] h) : h = h₀ := Finmap.ext_lookup fun p => ha.frame p List.not_mem_nil

theorem Adds.perm (ha : Adds h₀ bs h) (hp : bs.Perm cs) : Adds h₀ cs h where
  nodup := (hp.map Prod.fst).nodup_iff.1 ha.nodup
  fresh := fun x hx => ha.fresh x (hp.mem_iff.2 hx)
  holds := fun x hx => ha.holds x (hp.mem_iff.2 hx)
  frame := fun q hq => ha.frame q fun hmem => hq ((hp.map Prod.fst).mem_iff.1 hmem)

theorem ne_of_mem (hnot : p ∉ bs.map Prod.fst) {x : ℕ × β} (hx : x ∈ bs) : x.1 ≠ p := by
  rintro rfl
  exact hnot (List.mem_map_of_mem hx)

/-- a block at an address that is not in use -/
theorem Adds.alloc (ha : Adds h₀ bs h) (hp : p ≠ 0) (hnone : h.lookup p = none) (b : β) :
    Adds h₀ ((p, b) :: bs) (h.insert p b) := by
  have hnot : p ∉ bs.map Prod.fst := by
    intro hmem
    obtain ⟨x, hx, rfl⟩ := List.mem_map.1 hmem
    cases hnone.symm.trans (ha.holds x hx)
  refine ⟨List.nodup_cons.2 ⟨hnot, ha.nodup⟩, ?_, ?_, ?_⟩
  · intro x hx
    rcases List.mem_cons.1 hx with rfl | hx
    · exact ⟨hp, (ha.frame p hnot).symm.trans hnone⟩
    · exact ha.fresh x hx
  · intro x hx
    rcases List.mem_cons.1 hx with rfl | hx
    · exact Finmap.lookup_insert _
    · have hne : x.1 ≠ p := ne_of_mem hnot hx
      rw [Finmap.lookup_insert_of_ne _ hne]
      exact ha.holds x hx
  · intro q hq
    rw [Finmap.lookup_insert_of_ne _ (List.ne_of_not_mem_cons hq)]
    exact ha.frame q (List.not_mem_of_not_mem_cons hq)

theorem Adds.ne_zero (ha : Adds h₀ (bs ++ (p, b) :: cs) h) : p ≠ 0 :=
  (ha.fresh (p, b) (List.mem_append_right _ List.mem_cons_self)).1

/-- a block is written -/
theorem Adds.store (ha : Adds h₀ (bs ++ (p, b) :: cs) h) (b' : β) :
    Adds h₀ (bs ++ (p, b') :: cs) (h.insert p b') := by
  have hfirst := ha.perm List.perm_middle
  obtain ⟨hnot, hnodup⟩ := List.nodup_cons.1 hfirst.nodup
  have hstored : Adds h₀ ((p, b') :: (bs ++ cs)) (h.insert p b') := by
    refine ⟨hfirst.nodup, ?_, ?_, ?_⟩
    · intro x hx
      rcases List.mem_cons.1 hx with rfl | hx
      · exact hfirst.fresh (p, b) List.mem_cons_self
      · exact hfirst.fresh x (List.mem_cons_of_mem _ hx)
    · intro x hx
      rcases List.mem_cons.1 hx with rfl | hx
      · exact Finmap.lookup_insert _
      · rw [Finmap.lookup_insert_of_ne _ (ne_of_mem hnot hx)]
        exact hfirst.holds x (List.mem_cons_of_mem _ hx)
    · intro q hq
      rw [Finmap.lookup_insert_of_ne _ (List.ne_of_not_mem_cons hq)]
      exact hfirst.frame q hq
  exact hstored.perm List.perm_middle.symm

/-- a block is freed -/
theorem Adds.free (ha : Adds h₀ (bs ++ (p, b) :: cs) h) : ∃ h', h.free p = some h' ∧ Adds h₀ (bs ++ cs) h' := by
  have hp := ha.ne_zero
  have hfirst := ha.perm List.perm_middle
  obtain ⟨hnot, hnodup⟩ := List.nodup_cons.1 hfirst.nodup
  refine ⟨h.erase p, ?_, hnodup, ?_, ?_, ?_⟩
  · rw [Heap.free, if_neg hp, if_pos (Finmap.mem_of_lookup_eq_some (hfirst.holds (p, b) List.mem_cons_self))]
  · intro x hx
    exact hfirst.fresh x (List.mem_cons_of_mem _ hx)
  · intro x hx
    rw [Finmap.lookup_erase_ne (ne_of_mem hnot hx)]
    exact hfirst.holds x (List.mem_cons_of_mem _ hx)
  · intro q hq
    by_cases he : q = p
    · subst he
      rw [Finmap.lookup_erase]
      exact (hfirst.fresh (q, b) List.mem_cons_self).2.symm
    · rw [Finmap.lookup_erase_ne he]
      exact hfirst.frame q (List.not_mem_cons_of_ne_of_not_mem he hq)

/-! ## Pointers that may be NULL -/

section Owned

variable {α : Type*} (f : α → β) {x : Option (ℕ × α)}

/-- a pointer: where it points to and what is there, or NULL -/
def ref (x : Option (ℕ × α)) : ℕ := x.elim 0 Prod.fst

/-- the block behind a pointer -/
def owned (x : Option (ℕ × α)) : List (ℕ × β) := x.elim [] fun y => [(y.1, f y.2)]

@[simp] theorem ref_none : ref (none : Option (ℕ × α)) = 0 := rfl
@[simp] theorem ref_some (y : ℕ × α) : ref (some y) = y.1 := rfl
@[simp] theorem owned_none : owned f none = [] := rfl
@[simp] theorem owned_some (y : ℕ × α) : owned f (some y) = [(y.1, f y.2)] := rfl

variable {f}

theorem Adds.free_owned (ha : Adds h₀ (bs ++ (owned f x ++ cs)) h) :
    ∃ h', h.free (ref x) = some h' ∧ Adds h₀ (bs ++ cs) h' := by
  cases x with
  | none => exact ⟨h, if_pos rfl, ha⟩
  | some y => exact ha.free

/-- what answers requests for memory: an address that is not in use, or NULL. It may look at the heap and at the number
`k` of earlier requests -/
structure Allocator (β : Type*) where
  pick : ℕ → Heap β → ℕ
  fresh : ∀ k h, pick k h = 0 ∨ h.lookup (pick k h) = none

/-- the memory never runs out -/
def Allocator.Reliable (A : Allocator β) : Prop := ∀ k h, A.pick k h ≠ 0

/-- the `k`th request, for the block `b` -/
def Allocator.alloc (A : Allocator β) (k : ℕ) (h : Heap β) (b : β) : ℕ × Heap β :=
  if A.pick k h = 0 then (0, h) else (A.pick k h, h.insert (A.pick k h) b)

theorem lookup_behind (h : Heap β) : h.lookup (h.keys.sup id + 1) = none := by
  refine Finmap.lookup_eq_none.2 ?_
  intro hmem
  have hle : id (h.keys.sup id + 1) ≤ h.keys.sup id := Finset.le_sup (Finmap.mem_keys.2 hmem)
  exact Nat.not_succ_le_self _ hle

/-- the address behind all that are in use -/
def Allocator.bump : Allocator β where
  pick _ h := h.keys.sup id + 1
  fresh _ h := Or.inr (lookup_behind h)

theorem Allocator.bump_reliable : (Allocator.bump : Allocator β).Reliable := fun _ _ => Nat.succ_ne_zero _

/-- **A request** gives a pointer to a block of its own, or NULL. -/
theorem Adds.request (ha : Adds h₀ bs h) (A : Allocator β) (k : ℕ) (f : α → β) (a : α) :
    ∃ x : Option (ℕ × α), (A.alloc k h (f a)).1 = ref x ∧ (∀ y, x = some y → y.2 = a) ∧ (A.Reliable → x ≠ none) ∧
      Adds h₀ (owned f x ++ bs) (A.alloc k h (f a)).2 := by
  unfold Allocator.alloc
  split_ifs with hp
  · exact ⟨none, rfl, nofun, fun hr => absurd hp (hr k h), ha⟩
  · refine ⟨some (A.pick k h, a), rfl, ?_, fun _ => Option.some_ne_none _, ?_⟩
    · intro y hy
      exact (congrArg Prod.snd (Option.some.inj hy)).symm
    · exact ha.alloc hp ((A.fresh k h).resolve_left hp) (f a)

end Owned

/-! ## Linked lists -/

section Chain

variable {κ : Type*} (addr : κ → ℕ) (blocks : κ → ℕ → List (ℕ × β))

/-- where a list starts that ends at `e` -/
def headOr (e : ℕ) : List κ → ℕ
  | [] => e
  | c :: _ => addr c

/-- the blocks of a list that ends at `e`; `blocks c n` are the ones of the cell `c` when it links to `n` -/
def chain (e : ℕ) : List κ → List (ℕ × β)
  | [] => []
  | c :: cs => blocks c (headOr addr e cs) ++ chain e cs

theorem headOr_append (e : ℕ) (xs ys : List κ) : headOr addr e (xs ++ ys) = headOr addr (headOr addr e ys) xs := by
  cases xs with
  | nil => rfl
  | cons c xs => rfl

theorem chain_append (e : ℕ) (xs ys : List κ) : chain addr blocks e (xs ++ ys) =
    chain addr blocks (headOr addr e ys) xs ++ chain addr blocks e ys := by
  induction xs with
  | nil => rfl
  | cons c xs ih => rw [List.cons_append, chain, chain, ih, headOr_append, List.append_assoc]

end Chain

end Heap

end UdtGate.Core
