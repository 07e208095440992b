/-
Searching a list for the places where another list lies in it.

`find` is the first such place from a position on. Going on behind each place found gives the leftmost occurrences that
do not overlap, `Leftmost`, and they cut the list into the parts between them, `cut`.

- `Leftmost.exists_of_ne_nil`, `Leftmost.unique`: from every position there is exactly one list of these places;
- `intercalate_cut`: putting the separator between the parts gives the list back;
- `not_infix_of_mem_cut`: no part contains it.
-/
import UdtGate.Core.Memory

namespace UdtGate.Core

variable {α : Type*} {s sep t : List α} {start p : ℕ} {ps qs : List ℕ}

/-- `sep` lies in `s` at `p` -/
def OccursAt (s sep : List α) (p : ℕ) : Prop := sep <+: s.drop p

instance [DecidableEq α] (s sep : List α) (p : ℕ) : Decidable (OccursAt s sep p) :=
  inferInstanceAs (Decidable (sep <+: s.drop p))

theorem OccursAt.drop_eq (h : OccursAt s sep p) : s.drop p = sep ++ s.drop (p + sep.length) := by
  obtain ⟨t, ht⟩ := h
  rw [← List.drop_drop, ← ht, List.drop_left]

theorem OccursAt.add_length_le (hsep : sep ≠ []) (h : OccursAt s sep p) : p + sep.length ≤ s.length := by
  have hlen := h.length_le
  have hpos := List.length_pos_iff.2 hsep
  rw [List.length_drop] at hlen
  omega

/-- the first place at `start` or behind it -/
def find [DecidableEq α] (s sep : List α) (start : ℕ) : Option ℕ :=
  (List.range' start (s.length + 1 - start)).find? fun p => OccursAt s sep p

theorem find_eq_some [DecidableEq α] (h : find s sep start = some p) :
    start ≤ p ∧ OccursAt s sep p ∧ ∀ q, start ≤ q → q < p → ¬ OccursAt s sep q := by
  obtain ⟨hp, hmem, hfirst⟩ := List.find?_range'_eq_some.1 h
  refine ⟨(List.mem_range'_1.1 hmem).1, of_decide_eq_true hp, ?_⟩
  intro q hq hlt hocc
  have hnot := hfirst q hq hlt
  rw [decide_eq_true hocc] at hnot
  cases hnot

theorem find_eq_none [DecidableEq α] (hsep : sep ≠ []) (h : find s sep start = none) :
    ∀ q, start ≤ q → ¬ OccursAt s sep q := by
  intro q hq hocc
  have hle := hocc.add_length_le hsep
  have hpos := List.length_pos_iff.2 hsep
  have hnot := List.find?_range'_eq_none.1 h q hq (by omega)
  rw [decide_eq_true hocc] at hnot
  cases hnot

/-! ## Leftmost occurrences -/

/-- the places of `sep` from `start` on, leftmost first and each behind the one before -/
inductive Leftmost (s sep : List α) : ℕ → List ℕ → Prop where
  | last {start : ℕ} (h : ∀ q, start ≤ q → ¬ OccursAt s sep q) : Leftmost s sep start []
  | next {start p : ℕ} {ps : List ℕ} (hle : start ≤ p) (hocc : OccursAt s sep p)
      (hfirst : ∀ q, start ≤ q → q < p → ¬ OccursAt s sep q) (hrest : Leftmost s sep (p + sep.length) ps) :
      Leftmost s sep start (p :: ps)

theorem Leftmost.unique (h : Leftmost s sep start ps) (h' : Leftmost s sep start qs) : ps = qs := by
  induction h generalizing qs with
  | last hnone =>
    cases h' with
    | last => rfl
    | next hle hocc => exact absurd hocc (hnone _ hle)
  | @next start p ps hle hocc hfirst hrest ih =>
    cases h' with
    | last hnone => exact absurd hocc (hnone _ hle)
    | @next _ q qs hle' hocc' hfirst' hrest' =>
      have hpq : p = q := by
        rcases lt_trichotomy p q with hlt | heq | hlt
        · exact absurd hocc (hfirst' p hle hlt)
        · exact heq
        · exact absurd hocc' (hfirst q hle' hlt)
      subst hpq
      rw [ih hrest']

/-- every place takes up at least one cell -/
theorem Leftmost.length_le (hsep : sep ≠ []) (h : Leftmost s sep start ps) (hle : start ≤ s.length) :
    start + ps.length ≤ s.length := by
  induction h with
  | last => exact hle
  | @next start p ps hstart hocc _ _ ih =>
    have hrest := ih (hocc.add_length_le hsep)
    have hpos := List.length_pos_iff.2 hsep
    rw [List.length_cons]
    omega

theorem Leftmost.exists_of_ne_nil [DecidableEq α] (hsep : sep ≠ []) (s : List α) (start : ℕ) :
    ∃ ps, Leftmost s sep start ps := by
  cases hf : find s sep start with
  | none => exact ⟨[], .last (find_eq_none hsep hf)⟩
  | some p =>
    obtain ⟨hle, hocc, hfirst⟩ := find_eq_some hf
    have hend := hocc.add_length_le hsep
    have hpos := List.length_pos_iff.2 hsep
    obtain ⟨ps, hps⟩ := exists_of_ne_nil hsep s (p + sep.length)
    exact ⟨p :: ps, .next hle hocc hfirst hps⟩
termination_by s.length - start

/-! ## The parts between them -/

/-- what lies between the places `ps`, from `start` on -/
def cut (s sep : List α) : ℕ → List ℕ → List (List α)
  | start, [] => [s.drop start]
  | start, p :: ps => load s start (p - start) :: cut s sep (p + sep.length) ps

theorem length_cut (s sep : List α) (start : ℕ) (ps : List ℕ) : (cut s sep start ps).length = ps.length + 1 := by
  induction ps generalizing start with
  | nil => rfl
  | cons p ps ih => rw [cut, List.length_cons, ih, List.length_cons]

theorem intercalate_cons (sep t : List α) {ts : List (List α)} (h : ts ≠ []) :
    sep.intercalate (t :: ts) = t ++ sep ++ sep.intercalate ts := by
  cases ts with
  | nil => exact absurd rfl h
  | cons u us => exact List.intercalate_cons_cons

/-- **Joining the parts.** The separator put between the parts gives back the list from `start` on. -/
theorem intercalate_cut (h : Leftmost s sep start ps) : sep.intercalate (cut s sep start ps) = s.drop start := by
  induction h with
  | last => exact List.intercalate_singleton
  | @next start p ps hle hocc _ _ ih =>
    have hne : cut s sep (p + sep.length) ps ≠ [] := by
      apply List.ne_nil_of_length_pos
      rw [length_cut]
      exact Nat.succ_pos _
    calc sep.intercalate (cut s sep start (p :: ps))
        = load s start (p - start) ++ sep ++ s.drop (p + sep.length) := by rw [cut, intercalate_cons sep _ hne, ih]
      _ = load s start (p - start) ++ s.drop p := by rw [List.append_assoc, ← hocc.drop_eq]
      _ = (s.drop start).take (p - start) ++ (s.drop start).drop (p - start) := by
        rw [load, List.drop_drop, Nat.add_sub_cancel' hle]
      _ = s.drop start := List.take_append_drop _ _

/-- an occurrence inside a part is one in the whole list -/
theorem occursAt_of_infix (h : sep <:+: t) (ht : t <+: s.drop start) :
    ∃ k, k + sep.length ≤ t.length ∧ OccursAt s sep (start + k) := by
  obtain ⟨a, b, rfl⟩ := h
  refine ⟨a.length, ?_, ?_⟩
  · simp only [List.length_append]
    omega
  · have hdrop := ht.drop a.length
    rw [List.append_assoc, List.drop_left, List.drop_drop] at hdrop
    exact (List.prefix_append sep b).trans hdrop

/-- **No part contains the separator.** -/
theorem not_infix_of_mem_cut (hsep : sep ≠ []) (h : Leftmost s sep start ps) (ht : t ∈ cut s sep start ps) :
    ¬ sep <:+: t := by
  intro hin
  induction h with
  | @last start hnone =>
    obtain rfl := List.mem_singleton.1 ht
    obtain ⟨k, -, hocc⟩ := occursAt_of_infix hin List.prefix_rfl
    exact hnone _ (Nat.le_add_right start k) hocc
  | @next start p ps hle hocc hfirst _ ih =>
    rcases List.mem_cons.1 ht with rfl | hrest
    · -- it would lie before the place that was found first
      obtain ⟨k, hk, hocc'⟩ := occursAt_of_infix hin (List.take_prefix (p - start) _)
      have hpos := List.length_pos_iff.2 hsep
      have hlen : (load s start (p - start)).length ≤ p - start := List.length_take_le _ _
      exact hfirst _ (Nat.le_add_right start k) (by omega) hocc'
    · exact ih hrest

end UdtGate.Core
