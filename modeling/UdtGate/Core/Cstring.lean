/-
Strings with a NUL behind them, in blocks of memory of a fixed size.

A function that stores a string needs room for it and the NUL, one that reads a string needs to find the NUL. Where they
run out of the block it is a `Fault`. The laws hold for characters of any type with a zero.

- `Terminated`: a block whose last cell is a NUL. `putStr_terminated` and `strncpy_terminated` keep it so.
- `cstr`: the string in a block. `cstr_putStr` and `cstr_strncpy` read back what was stored.
-/
import Mathlib.Data.List.TakeWhile
import UdtGate.Core.Memory

namespace UdtGate.Core

universe u v

/-- outside of a block -/
inductive Fault where
  | write
  | read
deriving DecidableEq

/-- a program that goes on only when its first part has succeeded -/
theorem bind_eq_ok {ε : Type u} {α β : Type v} {x : Except ε α} {f : α → Except ε β} {r : β} :
    (x >>= f) = .ok r ↔ ∃ a, x = .ok a ∧ f a = .ok r := by
  cases x with
  | error e => exact ⟨nofun, fun ⟨_, h, _⟩ => nomatch h⟩
  | ok a => exact ⟨fun h => ⟨a, rfl, h⟩, fun ⟨_, ha, h⟩ => Except.ok.inj ha ▸ h⟩

/-- a program fails in its first part or behind it -/
theorem bind_eq_error {ε : Type u} {α β : Type v} {x : Except ε α} {f : α → Except ε β} :
    (∃ e, (x >>= f) = .error e) ↔ (∃ e, x = .error e) ∨ ∃ a, x = .ok a ∧ ∃ e, f a = .error e := by
  cases x with
  | error e => exact ⟨fun _ => Or.inl ⟨e, rfl⟩, fun _ => ⟨e, rfl⟩⟩
  | ok a =>
    constructor
    · intro h
      exact Or.inr ⟨a, rfl, h⟩
    · rintro (⟨e, he⟩ | ⟨b, hb, h⟩)
      · cases he
      · exact Except.ok.inj hb ▸ h

section Storing

variable {α : Type*} [Zero α] {b b' t : List α} {n : ℕ}

/-- store a string with its NUL -/
def putStr (b t : List α) : Except Fault (List α) :=
  if t.length < b.length then .ok (store b 0 (t ++ [0])) else .error .write

/-- store the first `n` characters of a string, filled up with NULs -/
def strncpy (b t : List α) (n : ℕ) : Except Fault (List α) :=
  if n ≤ b.length then .ok (store b 0 ((t ++ List.replicate n 0).take n)) else .error .write

theorem putStr_eq_ok (h : putStr b t = .ok b') : t.length < b.length ∧ b' = store b 0 (t ++ [0]) := by
  unfold putStr at h
  split_ifs at h with hlt
  exact ⟨hlt, (Except.ok.inj h).symm⟩

theorem putStr_of_lt (h : t.length < b.length) : putStr b t = .ok (store b 0 (t ++ [0])) := if_pos h

theorem putStr_of_le (h : b.length ≤ t.length) : putStr b t = .error .write := if_neg (not_lt.2 h)

/-- `n` cells and a NUL behind them -/
structure Terminated (n : ℕ) (b : List α) : Prop where
  length_eq : b.length = n + 1
  last : b[n]? = some 0

theorem Terminated.mem (h : Terminated n b) : 0 ∈ b := List.mem_of_getElem? h.last

theorem terminated_replicate (n : ℕ) : Terminated n (List.replicate (n + 1) (0 : α)) where
  length_eq := List.length_replicate
  last := by rw [List.getElem?_replicate, if_pos (Nat.lt_succ_self n)]

/-- a string that fits leaves the last NUL alone, or puts its own there -/
theorem putStr_terminated (hb : Terminated n b) (h : putStr b t = .ok b') : Terminated n b' := by
  obtain ⟨hlt, rfl⟩ := putStr_eq_ok h
  have hfit : 0 + (t ++ [0]).length ≤ b.length := by
    rw [List.length_append, List.length_singleton]
    omega
  refine ⟨(length_store hfit).trans hb.length_eq, ?_⟩
  rw [getElem?_store hfit, List.length_append, List.length_singleton]
  have hlen := hb.length_eq
  split_ifs with hin
  · obtain rfl : n = t.length := by omega
    rw [Nat.sub_zero, List.getElem?_append_right le_rfl, Nat.sub_self]
    rfl
  · exact hb.last

theorem Terminated.putStr_long (hb : Terminated n b) (ht : n < t.length) : putStr b t = .error .write := by
  apply putStr_of_le
  rw [hb.length_eq]
  exact ht

theorem length_take_pad (t : List α) (n : ℕ) : ((t ++ List.replicate n 0).take n).length = n := by
  rw [List.length_take, List.length_append, List.length_replicate]
  omega

/-- `strncpy` of as many characters as there are in front of the last NUL -/
theorem strncpy_terminated (hb : Terminated n b) (t : List α) : ∃ b', strncpy b t n = .ok b' ∧ Terminated n b' := by
  have hlen := hb.length_eq
  have hpad := length_take_pad t n
  have hfit : 0 + ((t ++ List.replicate n 0).take n).length ≤ b.length := by omega
  refine ⟨_, if_pos (by omega), (length_store hfit).trans hlen, ?_⟩
  rw [getElem?_store hfit, hpad, if_neg (by omega)]
  exact hb.last

end Storing

section Reading

variable {α : Type*} [Zero α] [DecidableEq α] {b b' t : List α} {n : ℕ}

/-- the string in a block -/
def cstr (b : List α) : Except Fault (List α) :=
  if 0 ∈ b then .ok (b.takeWhile fun c => c ≠ 0) else .error .read

/-- append the first `n` characters of a string, with a NUL behind them -/
def strncat (b t : List α) (n : ℕ) : Except Fault (List α) := do
  let s ← cstr b
  if s.length + (t.take n).length < b.length then .ok (store b s.length (t.take n ++ [0])) else .error .write

theorem Terminated.exists_cstr (h : Terminated n b) : ∃ t, cstr b = .ok t := ⟨_, if_pos h.mem⟩

theorem cstr_append (ht : 0 ∉ t) (s : List α) : cstr (t ++ 0 :: s) = .ok t := by
  have hne : ∀ c ∈ t, (fun c : α => decide (c ≠ 0)) c = true := by
    intro c hc
    exact decide_eq_true fun h0 => ht (h0 ▸ hc)
  rw [cstr, if_pos (List.mem_append_right t List.mem_cons_self), List.takeWhile_append_of_pos hne,
    List.takeWhile_cons_of_neg (by simp), List.append_nil]

/-- a string ends in front of its NUL -/
theorem zero_not_mem_of_cstr (h : cstr b = .ok t) : 0 ∉ t := by
  unfold cstr at h
  split_ifs at h with h0
  obtain rfl := Except.ok.inj h
  intro hmem
  have hne := List.mem_takeWhile_imp hmem
  simp at hne

/-- a block that starts with a NUL has the empty string -/
theorem cstr_of_head (h : b.head? = some 0) : cstr b = .ok [] := by
  cases b with
  | nil => cases h
  | cons c b =>
    obtain rfl := Option.some.inj h
    exact cstr_append List.not_mem_nil b

theorem prefix_of_cstr (h : cstr b = .ok t) : t <+: b := by
  unfold cstr at h
  split_ifs at h
  obtain rfl := Except.ok.inj h
  exact List.takeWhile_prefix _

/-- the string is in front of the last NUL -/
theorem Terminated.length_cstr (h : Terminated n b) (ht : cstr b = .ok t) : t.length ≤ n := by
  by_contra hlt
  have hn : n < t.length := not_le.1 hlt
  obtain ⟨_, hlast⟩ := List.getElem?_eq_some_iff.1 h.last
  have hzero : t[n] = 0 := ((prefix_of_cstr ht).getElem hn).trans hlast
  exact zero_not_mem_of_cstr ht (hzero ▸ List.getElem_mem hn)

/-- **What was stored is read back.** -/
theorem cstr_putStr (ht : 0 ∉ t) (h : putStr b t = .ok b') : cstr b' = .ok t := by
  obtain ⟨-, rfl⟩ := putStr_eq_ok h
  rw [store_zero, List.append_assoc]
  exact cstr_append ht _

/-- a string that fits in front of the last NUL -/
theorem Terminated.putStr_fits (hb : Terminated n b) (ht : t.length ≤ n) :
    ∃ b', putStr b t = .ok b' ∧ Terminated n b' ∧ (0 ∉ t → cstr b' = .ok t) := by
  have hput : putStr b t = .ok _ := putStr_of_lt (by rw [hb.length_eq]; exact Nat.lt_succ_of_le ht)
  exact ⟨_, hput, putStr_terminated hb hput, fun h0 => cstr_putStr h0 hput⟩

theorem cstr_strncpy (hb : Terminated n b) (ht : 0 ∉ t) (h : strncpy b t n = .ok b') : cstr b' = .ok (t.take n) := by
  have hlen := hb.length_eq
  unfold strncpy at h
  rw [if_pos (by omega)] at h
  obtain rfl := Except.ok.inj h
  have hdrop : b.drop n = [0] := by
    obtain ⟨hn, hlast⟩ := List.getElem?_eq_some_iff.1 hb.last
    rw [List.drop_eq_getElem_cons hn, hlast, List.drop_of_length_le (by omega)]
  have hzero : List.replicate (n - t.length) (0 : α) ++ [0] = 0 :: List.replicate (n - t.length) 0 := by
    rw [← List.replicate_succ', List.replicate_succ]
  have htake : 0 ∉ t.take n := fun h0 => ht (List.mem_of_mem_take h0)
  rw [store_zero, length_take_pad, hdrop, List.take_append, List.take_replicate, List.append_assoc,
    min_eq_left (Nat.sub_le n t.length), hzero]
  exact cstr_append htake _

/-- a string with less than `n` characters -/
theorem strncpy_short (hb : n ≤ b.length) (hlt : t.length < n) (ht : 0 ∉ t) :
    ∃ b', strncpy b t n = .ok b' ∧ b'.length = b.length ∧ cstr b' = .ok t := by
  have hpad := length_take_pad t n
  have hfit : 0 + ((t ++ List.replicate n 0).take n).length ≤ b.length := by omega
  obtain ⟨k, hk⟩ := Nat.exists_eq_add_of_lt hlt
  refine ⟨_, if_pos hb, length_store hfit, ?_⟩
  have hrest : n - t.length = k + 1 := by omega
  have htake : t.take n = t := List.take_of_length_le hlt.le
  rw [store_zero, List.take_append, htake, List.take_replicate, min_eq_left (Nat.sub_le n t.length), hrest,
    List.replicate_succ, List.append_assoc]
  exact cstr_append ht _

/-- **What was appended is read back** behind what was there. -/
theorem strncat_fits {s : List α} (hs : cstr b = .ok s) (ht : 0 ∉ t) (hlt : s.length + (t.take n).length < b.length) :
    ∃ b', strncat b t n = .ok b' ∧ b'.length = b.length ∧ cstr b' = .ok (s ++ t.take n) := by
  have hfit : s.length + (t.take n ++ [0]).length ≤ b.length := by
    rw [List.length_append, List.length_singleton]
    omega
  have hb' : store b s.length (t.take n ++ [0]) =
      s ++ t.take n ++ 0 :: b.drop (s.length + (t.take n ++ [0]).length) := by
    rw [store, (List.prefix_iff_eq_take.1 (prefix_of_cstr hs)).symm]
    simp only [List.append_assoc, List.cons_append, List.nil_append]
  refine ⟨_, bind_eq_ok.2 ⟨s, hs, if_pos hlt⟩, length_store hfit, ?_⟩
  rw [hb']
  apply cstr_append
  intro h0
  rcases List.mem_append.1 h0 with h0 | h0
  · exact zero_not_mem_of_cstr hs h0
  · exact ht (List.mem_of_mem_take h0)

end Reading

end UdtGate.Core
