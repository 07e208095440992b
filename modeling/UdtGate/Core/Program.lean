/-
Programs that make calls and return: finite trees that branch on the answers.

`Prog C A α` makes calls of type `C`, goes on with answers of type `A` and returns an `α`. Two programs are the same
when they make the same calls for all answers and return the same; `Prog.Only` bounds the calls that a program makes,
and `Prog.run` lets it run against something that answers them.
-/
import Mathlib.Logic.Basic

namespace UdtGate.Core

inductive Prog (C A α : Type*) where
  | ret (r : α)
  | call (c : C) (next : A → Prog C A α)

namespace Prog

variable {C A α β : Type*}

/-- the same calls, with another result -/
def map (f : α → β) : Prog C A α → Prog C A β
  | .ret r => .ret (f r)
  | .call c next => .call c fun a => (next a).map f

@[simp] theorem map_ret (f : α → β) (r : α) : (Prog.ret r : Prog C A α).map f = .ret (f r) := rfl

@[simp] theorem map_call (f : α → β) (c : C) (next : A → Prog C A α) :
    (Prog.call c next).map f = .call c fun a => (next a).map f := rfl

/-- every call the program makes, whatever the answers are, has the property `P` -/
def Only (P : C → Prop) : Prog C A α → Prop
  | .ret _ => True
  | .call c next => P c ∧ ∀ a, (next a).Only P

/-- what the program returns, and what becomes of the state `s` that its calls are answered from -/
def run {S : Type*} (answer : S → C → A × S) (s : S) : Prog C A α → α × S
  | .ret r => (r, s)
  | .call c next => (next (answer s c).1).run answer (answer s c).2

/-- a call whose answer is known -/
theorem run_call {S : Type*} {answer : S → C → A × S} {s s' : S} {c : C} {a : A} (h : answer s c = (a, s'))
    (next : A → Prog C A α) : (Prog.call c next).run answer s = (next a).run answer s' := by
  rw [run, h]

end Prog

end UdtGate.Core
