/-
Streams between two ends: what is on the way, and that it can arrive.

- `between out inp`: what one end has sent and the other has not received;
- `System.drain`: a system that can always hand on what it holds, and take in the next block when it holds nothing, can
  take in a stream of any length.
-/
import UdtGate.Core.System

namespace UdtGate.Core

variable {α S L : Type*}

/-- sent and not yet received -/
def between (out inp : List α) : List α := out.drop inp.length

theorem append_between {out inp : List α} (h : inp <+: out) : inp ++ between out inp = out :=
  List.prefix_append_drop h |>.symm

theorem between_self (out : List α) : between out out = [] := List.drop_length

/-- **Drain rule.** `I` holds all along; `held` is what the system holds, `inp` what it has taken in. -/
theorem System.drain {sys : System S L} (I : S → Prop) (held inp : S → List α) (cap : ℕ) (hcap : 0 < cap)
    (hflush : ∀ s, I s → ∃ ls t, sys.exec s ls = some t ∧ I t ∧ held t = [] ∧ inp t = inp s)
    (htake : ∀ s b, I s → held s = [] → b ≠ [] → b.length ≤ cap →
      ∃ ls t, sys.exec s ls = some t ∧ I t ∧ inp t = inp s ++ b) :
    ∀ (bs : List α) (s : S), I s → ∃ ls t, sys.exec s ls = some t ∧ I t ∧ held t = [] ∧ inp t = inp s ++ bs := by
  intro bs
  induction hn : bs.length using Nat.strong_induction_on generalizing bs with
  | _ n ih =>
    intro s hs
    obtain ⟨ls, t, hst, ht, hheld, hinp⟩ := hflush s hs
    by_cases hnil : bs = []
    · exact ⟨ls, t, hst, ht, hheld, by rw [hnil, List.append_nil, hinp]⟩
    · -- one block, and then the rest
      have hpos := List.length_pos_iff.2 hnil
      have hblock : bs.take cap ≠ [] := by
        rw [← List.length_pos_iff, List.length_take]
        exact lt_min hcap hpos
      have hless : (bs.drop cap).length < n := by
        rw [List.length_drop, ← hn]
        exact Nat.sub_lt hpos hcap
      obtain ⟨ms, u, htu, hu, hinp'⟩ := htake t (bs.take cap) ht hheld hblock (List.length_take_le _ _)
      obtain ⟨ns, v, huv, hv, hheld', hinp''⟩ := ih _ hless (bs.drop cap) rfl u hu
      refine ⟨ls ++ (ms ++ ns), v, System.exec_append.2 ⟨t, hst, System.exec_append.2 ⟨u, htu, huv⟩⟩, hv, hheld', ?_⟩
      rw [hinp'', hinp', hinp, List.append_assoc, List.take_append_drop]

end UdtGate.Core
