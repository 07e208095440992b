/-
Refinement: the runs of one system seen as runs of a more abstract one.

In a `Refines`, a step of the concrete system is a run of the abstract one, of no step or of several, between states
that the relation `R` ties to the old and to the new concrete state. Steps may have to meet a condition, as in `Meets`.

- `Refines.exec`: so is every run whose steps meet the condition;
- `meets_of_last`: a condition that no step can restore holds throughout a run when it holds at its end.
-/
import UdtGate.Core.System

namespace UdtGate.Core.System

variable {S L T M : Type*} {a : System S L} {b : System T M}

/-- a step of `a` that meets `G` is a run of `b`, across the relation `R` -/
structure Refines (a : System S L) (b : System T M) (R : S → T → Prop) (G : S → L → Prop) : Prop where
  init : ∀ s, a.init s → ∃ x, b.init x ∧ R s x
  step : ∀ s x l t, R s x → G s l → a.step s l = some t → ∃ ms y, b.exec x ms = some y ∧ R t y

variable {R : S → T → Prop} {G : S → L → Prop}

/-- **Refinement of runs.** -/
theorem Refines.exec (h : Refines a b R G) {s t : S} {x : T} {ls : List L} (hr : R s x) (hs : a.exec s ls = some t)
    (hG : a.Meets G s ls) : ∃ ms y, b.exec x ms = some y ∧ R t y := by
  induction ls generalizing s x with
  | nil =>
    simp only [exec_nil, Option.some.injEq] at hs
    exact ⟨[], x, rfl, hs ▸ hr⟩
  | cons l ls ih =>
    obtain ⟨u, hu, ht⟩ := exec_cons.1 hs
    obtain ⟨hg, hrest⟩ := hG
    rw [hu] at hrest
    obtain ⟨ms, y, hxy, hru⟩ := h.step s x l u hr hg hu
    obtain ⟨ns, z, hyz, hrt⟩ := ih hru ht hrest
    exact ⟨ms ++ ns, z, exec_append.2 ⟨y, hxy, hyz⟩, hrt⟩

/-- what a step can break and not restore holds along a run that ends with it -/
theorem meets_of_last (P : S → Prop) (hback : ∀ s l t, a.step s l = some t → P t → P s) {s t : S} {ls : List L}
    (hs : a.exec s ls = some t) (ht : P t) : P s ∧ a.Meets (fun s l => ∀ u, a.step s l = some u → P u) s ls := by
  induction ls generalizing s with
  | nil =>
    simp only [exec_nil, Option.some.injEq] at hs
    exact ⟨hs ▸ ht, trivial⟩
  | cons l ls ih =>
    obtain ⟨u, hu, hrest⟩ := exec_cons.1 hs
    obtain ⟨hpu, hM⟩ := ih hrest
    refine ⟨hback s l u hu hpu, ?_, by rw [hu]; exact hM⟩
    intro v hv
    rw [hu] at hv
    exact Option.some.inj hv ▸ hpu

/-- two conditions on the same run -/
theorem meets_and {G H : S → L → Prop} {s : S} {ls : List L} (hG : a.Meets G s ls) (hH : a.Meets H s ls) :
    a.Meets (fun s l => G s l ∧ H s l) s ls := by
  induction ls generalizing s with
  | nil => trivial
  | cons l ls ih =>
    obtain ⟨hg, hG⟩ := hG
    obtain ⟨hh, hH⟩ := hH
    refine ⟨⟨hg, hh⟩, ?_⟩
    cases hs : a.step s l with
    | none => trivial
    | some t =>
      rw [hs] at hG hH
      exact ih hG hH

end UdtGate.Core.System
