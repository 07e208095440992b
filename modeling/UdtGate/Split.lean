/-
`split` of `lib/utils.cpp`, which cuts up the list of the relay's -A option.

The loop looks for the separator from `start` on and goes on behind what it found. It is over when there is no more to
be found, and then the rest of the string is the last piece. Here it runs for a number of rounds, which are enough when
there are more of them than characters.

- `splitLoop_eq`: the loop finds the leftmost occurrences and stores what lies between them.
- `split_inverts_join`: what that says about the pieces.
-/
import UdtGate.Core.Search

namespace UdtGate

open UdtGate.Core

namespace Split

variable {α : Type*} [DecidableEq α]

/-- the loop and the `push_back` behind it, for at most `rounds` of its tests -/
def splitLoop (inString separator : List α) : ℕ → ℕ → List (List α) → Option (List (List α))
  | 0, _, _ => none
  | rounds + 1, start, returnVector =>
    match find inString separator start with
    | some e =>
      splitLoop inString separator rounds (e + separator.length) (returnVector ++ [load inString start (e - start)])
    | none => some (returnVector ++ [inString.drop start])

def split (rounds : ℕ) (inString separator : List α) : Option (List (List α)) :=
  splitLoop inString separator rounds 0 []

variable {s sep : List α} {start rounds : ℕ} {ps : List ℕ}

/-- what one search comes to -/
theorem find_of_leftmost (hsep : sep ≠ []) (h : Leftmost s sep start ps) : find s sep start = ps.head? := by
  cases hf : find s sep start with
  | none =>
    cases h with
    | last => rfl
    | next hle hocc => exact absurd hocc (find_eq_none hsep hf _ hle)
  | some e =>
    obtain ⟨hle, hocc, hfirst⟩ := find_eq_some hf
    obtain ⟨qs, hqs⟩ := Leftmost.exists_of_ne_nil hsep s (e + sep.length)
    rw [h.unique (.next hle hocc hfirst hqs), List.head?_cons]

/-- **The loop.** With more rounds than occurrences it stores the parts between the leftmost ones. -/
theorem splitLoop_eq (hsep : sep ≠ []) (h : Leftmost s sep start ps) (hr : ps.length < rounds) (vec : List (List α)) :
    splitLoop s sep rounds start vec = some (vec ++ cut s sep start ps) := by
  induction rounds generalizing start ps vec with
  | zero => exact absurd hr (Nat.not_lt_zero _)
  | succ rounds ih =>
    have hf := find_of_leftmost hsep h
    cases h with
    | last => rw [splitLoop, hf]; rfl
    | @next _ p ps hle hocc hfirst hrest =>
      have hnext := ih hrest (Nat.lt_of_succ_lt_succ hr) (vec ++ [load s start (p - start)])
      rw [List.append_assoc] at hnext
      rw [splitLoop, hf]
      exact hnext

/-- **split inverts joining.** It comes to an end; the pieces joined by the separator are the string, none of them
contains the separator, and there is one more of them than there are leftmost occurrences that do not overlap. -/
theorem split_inverts_join (s : List α) (hsep : sep ≠ []) :
    ∃ pieces, (∀ rounds, s.length < rounds → split rounds s sep = some pieces) ∧ sep.intercalate pieces = s ∧
      (∀ t ∈ pieces, ¬ sep <:+: t) ∧ (∃! ps, Leftmost s sep 0 ps) ∧
        ∀ ps, Leftmost s sep 0 ps → pieces.length = ps.length + 1 := by
  obtain ⟨ps, hps⟩ := Leftmost.exists_of_ne_nil hsep s 0
  have hlen := hps.length_le hsep (Nat.zero_le _)
  refine ⟨cut s sep 0 ps, ?_, intercalate_cut hps, fun t ht => not_infix_of_mem_cut hsep hps ht,
    ⟨ps, hps, fun qs hqs => hqs.unique hps⟩, ?_⟩
  · intro rounds hr
    exact splitLoop_eq hsep hps (by omega) []
  · intro qs hqs
    rw [length_cut, hps.unique hqs]

/-- "aaa" by "aa": the occurrences overlap, and only the first of them is cut at -/
theorem split_inverts_join_overlap :
    split 4 [1, 1, 1] [1, 1] = some [[], [1]] ∧ [1, 1].intercalate [[], [1]] = [1, 1, 1] := by
  have hval : split 4 [1, 1, 1] [1, 1] = some [[], [1]] := by decide
  obtain ⟨pieces, hsplit, hjoin, -⟩ := split_inverts_join [1, 1, 1] (List.cons_ne_nil 1 [1])
  obtain rfl := Option.some.inj (hval.symm.trans (hsplit 4 (by decide)))
  exact ⟨hval, hjoin⟩

end Split

end UdtGate
