/-
Sequences that go through several places at once.

The elements of `all` are in the order `r`; those in `out` have come out and those in `inside` have not. What came out
is the front of the sequence if and only if it is in order and nothing still inside is older than any of it.

- `prefix_iff`: that equivalence, from the elements alone, wherever they are inside.
-/
import Mathlib.Tactic

namespace UdtGate.Core

variable {α : Type*} {r : α → α → Prop}

/-- the oldest element is the first to come out -/
theorem prefix_of_pairwise (hr : ∀ a b, r a b → ¬ r b a) {out inside all : List α} (hall : all.Pairwise r)
    (hout : out.Pairwise r) (hold : ∀ x ∈ out, ∀ y ∈ inside, r x y) (hperm : (out ++ inside).Perm all) :
    out <+: all := by
  induction all generalizing out with
  | nil =>
    have hnil := List.append_eq_nil_iff.1 hperm.eq_nil
    rw [hnil.1]
  | cons a all ih =>
    cases out with
    | nil => exact List.nil_prefix
    | cons x out =>
      have hall' := List.pairwise_cons.1 hall
      have hout' := List.pairwise_cons.1 hout
      have hxa : x = a := by
        by_contra hne
        have hx : r a x := by
          have hmem : x ∈ a :: all := hperm.subset (List.mem_append_left _ List.mem_cons_self)
          exact hall'.1 x ((List.mem_cons.1 hmem).resolve_left hne)
        have ha : a ∈ x :: out ++ inside := hperm.symm.subset List.mem_cons_self
        rcases List.mem_append.1 ha with ha | ha
        · exact hr x a (hout'.1 a ((List.mem_cons.1 ha).resolve_left (Ne.symm hne))) hx
        · exact hr x a (hold x List.mem_cons_self a ha) hx
      subst hxa
      have hrest : out <+: all := ih hall'.2 hout'.2 (fun y hy => hold y (List.mem_cons_of_mem _ hy)) hperm.cons_inv
      exact List.cons_prefix_cons.2 ⟨rfl, hrest⟩

/-- **What came out is the front** exactly when it is in order and older than everything inside. -/
theorem prefix_iff (hr : ∀ a b, r a b → ¬ r b a) {out inside all : List α} (hall : all.Pairwise r)
    (hperm : (out ++ inside).Perm all) :
    out <+: all ↔ out.Pairwise r ∧ ∀ x ∈ out, ∀ y ∈ inside, r x y := by
  constructor
  · rintro ⟨tail, rfl⟩
    obtain ⟨hout, -, hold⟩ := List.pairwise_append.1 hall
    have hinside : inside.Perm tail := (List.perm_append_left_iff out).1 hperm
    exact ⟨hout, fun x hx y hy => hold x hx y (hinside.subset hy)⟩
  · rintro ⟨hout, hold⟩
    exact prefix_of_pairwise hr hall hout hold hperm

end UdtGate.Core
