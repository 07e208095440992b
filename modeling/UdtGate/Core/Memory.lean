/-
Bytes stored into a fixed block of memory. A block is a list of cells; `store m p xs` overwrites the cells from `p` on
with `xs` and leaves every other cell alone, `load m p n` reads `n` cells from `p`. The laws hold for cells of any type.

- `store_append`: two stores side by side are one store of the joined data (what a receive loop relies on);
- `store_overwrite`: of two stores into the same cells the later one counts;
- `getElem?_store`: the frame condition, cell by cell.
-/
import Mathlib.Data.List.Basic
import Mathlib.Tactic

namespace UdtGate.Core

variable {α : Type*}

/-- overwrite the cells of `m` from `p` on with `xs` -/
def store (m : List α) (p : ℕ) (xs : List α) : List α := m.take p ++ xs ++ m.drop (p + xs.length)

/-- the `n` cells of `m` from `p` on -/
def load (m : List α) (p n : ℕ) : List α := (m.drop p).take n

@[simp] theorem store_nil (m : List α) (p : ℕ) : store m p [] = m := by simp [store]

/-- a store at the front -/
theorem store_zero (m xs : List α) : store m 0 xs = xs ++ m.drop xs.length := by
  rw [store, List.take_zero, List.nil_append, Nat.zero_add]

theorem length_store {m xs : List α} {p : ℕ} (h : p + xs.length ≤ m.length) : (store m p xs).length = m.length := by
  simp only [store, List.length_append, List.length_take, List.length_drop]; omega

theorem length_load {m : List α} {p n : ℕ} (h : p + n ≤ m.length) : (load m p n).length = n := by
  simp only [load, List.length_take, List.length_drop]; omega

/-- what was stored is read back -/
theorem load_store {m xs : List α} {p : ℕ} (h : p + xs.length ≤ m.length) : load (store m p xs) p xs.length = xs := by
  have hp : (m.take p).length = p := by rw [List.length_take]; omega
  rw [load, store, List.append_assoc, List.drop_append_of_le_length (by omega), List.drop_of_length_le (by omega),
    List.nil_append, List.take_left]

theorem load_succ {m : List α} {i : ℕ} {x : α} (h : m[i]? = some x) (n : ℕ) :
    load m i (n + 1) = x :: load m (i + 1) n := by
  obtain ⟨hi, rfl⟩ := List.getElem?_eq_some_iff.1 h
  rw [load, load, List.drop_eq_getElem_cons hi, List.take_succ_cons]

/-- **Frame condition.** A store changes the cells `p ≤ i < p + xs.length` and no other. -/
theorem getElem?_store {m xs : List α} {p : ℕ} (h : p + xs.length ≤ m.length) (i : ℕ) :
    (store m p xs)[i]? = if p ≤ i ∧ i < p + xs.length then xs[i - p]? else m[i]? := by
  have hp : (m.take p).length = p := by rw [List.length_take]; omega
  unfold store
  by_cases h1 : i < p
  · rw [List.append_assoc, List.getElem?_append_left (by omega), List.getElem?_take_of_lt h1,
      if_neg (by omega)]
  · by_cases h2 : i < p + xs.length
    · rw [List.getElem?_append_left (by rw [List.length_append]; omega), List.getElem?_append_right (by omega), hp,
        if_pos ⟨by omega, h2⟩]
    · rw [List.getElem?_append_right (by rw [List.length_append]; omega), List.getElem?_drop, if_neg (by omega)]
      congr 1
      rw [List.length_append]; omega

/-- **Two stores side by side are one store.** -/
theorem store_append {m xs ys : List α} {p : ℕ} (h : p + (xs ++ ys).length ≤ m.length) :
    store (store m p xs) (p + xs.length) ys = store m p (xs ++ ys) := by
  rw [List.length_append] at h
  have hx : p + xs.length ≤ m.length := by omega
  apply List.ext_getElem?
  intro i
  rw [getElem?_store (by rw [length_store hx]; omega), getElem?_store hx,
    getElem?_store (by rw [List.length_append]; omega), List.length_append]
  by_cases h1 : p + xs.length ≤ i ∧ i < p + xs.length + ys.length
  · rw [if_pos h1, if_pos (by omega), List.getElem?_append_right (by omega)]
    congr 1; omega
  · rw [if_neg h1]
    by_cases h2 : p ≤ i ∧ i < p + xs.length
    · rw [if_pos h2, if_pos (by omega), List.getElem?_append_left (by omega)]
    · rw [if_neg h2, if_neg (by omega)]

/-- a store hides what an earlier one left in the same cells -/
theorem store_overwrite {m xs ys zs : List α} {p : ℕ} (h : p + xs.length + zs.length ≤ m.length)
    (hle : ys.length ≤ zs.length) : store (store m p (xs ++ ys)) (p + xs.length) zs = store m p (xs ++ zs) := by
  have hxy : p + (xs ++ ys).length ≤ m.length := by rw [List.length_append]; omega
  have hxz : p + (xs ++ zs).length ≤ m.length := by rw [List.length_append]; omega
  apply List.ext_getElem?
  intro i
  rw [getElem?_store (by rw [length_store hxy]; exact h), getElem?_store hxy, getElem?_store hxz, List.length_append,
    List.length_append]
  by_cases h1 : p + xs.length ≤ i ∧ i < p + xs.length + zs.length
  · rw [if_pos h1, if_pos (by omega), List.getElem?_append_right (by omega)]
    congr 1; omega
  · rw [if_neg h1]
    by_cases h2 : p ≤ i ∧ i < p + xs.length
    · rw [if_pos (by omega), if_pos (by omega), List.getElem?_append_left (by omega),
        List.getElem?_append_left (by omega)]
    · rw [if_neg (by omega), if_neg (by omega)]

end UdtGate.Core
