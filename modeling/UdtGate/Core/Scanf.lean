/-
`sscanf` for the conversions %[...], %s and %d, and ordinary characters in between.

The scan goes through the format from left to right and stops at the first item that does not match, so what is assigned
is a front of what the format asks for. A text is never empty. Numbers are decimal and of any size; what becomes of one
that its destination has no room for is a matter of the caller.

- `mem_sscanf_width`: an assigned text is within the width of its conversion, on any input;
- `sscanf_set`, `sscanf_str`, `sscanf_int`: the conversions on the text they are meant for;
- `sscanf_pair`: two fields and the character between them, on any input as well.
-/
import Mathlib.Data.List.TakeWhile
import Mathlib.Tactic

namespace UdtGate.Core

/-! ## Characters -/

/-- `isspace` -/
def isSpace (c : UInt8) : Bool := c == 32 || (9 ≤ c && c ≤ 13)

def isDigit (c : UInt8) : Bool := 48 ≤ c && c ≤ 57

/-- the number that digits stand for -/
def decimal (ds : List UInt8) : ℕ := ds.foldl (fun n d => 10 * n + (d.toNat - 48)) 0

/-- an optional sign, as a factor -/
def sign : List UInt8 → ℤ × List UInt8
  | 45 :: s => (-1, s)
  | 43 :: s => (1, s)
  | s => (1, s)

/-! ## The scan -/

namespace Scanf

inductive Item where
  /-- an ordinary character -/
  | lit (c : UInt8)
  /-- %[...], of the characters with `p` -/
  | set (p : UInt8 → Bool) (width : Option ℕ)
  | str (width : Option ℕ)
  | int

inductive Val where
  | text (t : List UInt8)
  | num (v : ℤ)
deriving DecidableEq

/-- as many characters as the width allows -/
def front (width : Option ℕ) (t : List UInt8) : List UInt8 :=
  match width with
  | none => t
  | some n => t.take n

/-- %d behind white space: a sign perhaps, and at least one digit -/
def scanInt (s : List UInt8) : Option (ℤ × List UInt8) :=
  let (factor, s) := sign (s.dropWhile isSpace)
  if s.takeWhile isDigit = [] then none else some (factor * decimal (s.takeWhile isDigit), s.dropWhile isDigit)

end Scanf

open Scanf

/-- the values assigned -/
def sscanf : List Item → List UInt8 → List Val
  | [], _ => []
  | .lit c :: fmt, s =>
    match s with
    | [] => []
    | x :: s => if x = c then sscanf fmt s else []
  | .set p width :: fmt, s =>
    let t := front width (s.takeWhile p)
    if t = [] then [] else .text t :: sscanf fmt (s.drop t.length)
  | .str width :: fmt, s =>
    let s := s.dropWhile isSpace
    let t := front width (s.takeWhile fun c => !isSpace c)
    if t = [] then [] else .text t :: sscanf fmt (s.drop t.length)
  | .int :: fmt, s =>
    match scanInt s with
    | none => []
    | some (v, s) => .num v :: sscanf fmt s

/-! ## What is assigned -/

variable {fmt : List Item} {s t u : List UInt8} {p : UInt8 → Bool} {width : Option ℕ} {c : UInt8}

/-- an assigned text is what a conversion of the format cut off some characters -/
theorem mem_sscanf (h : .text t ∈ sscanf fmt s) :
    ∃ p width u, t = front width u ∧ (.set p width ∈ fmt ∨ .str width ∈ fmt) := by
  induction fmt generalizing s with
  | nil => cases h
  | cons item fmt ih =>
    have hlater {s' : List UInt8} (hmem : .text t ∈ sscanf fmt s') :
        ∃ p width u, t = front width u ∧ (.set p width ∈ item :: fmt ∨ .str width ∈ item :: fmt) := by
      obtain ⟨p, width, u, ht, hitem⟩ := ih hmem
      exact ⟨p, width, u, ht, hitem.imp (List.mem_cons_of_mem item) (List.mem_cons_of_mem item)⟩
    cases item with
    | lit c =>
      cases s with
      | nil => cases h
      | cons x s =>
        simp only [sscanf] at h
        split_ifs at h
        · exact hlater h
        · cases h
    | set p width =>
      simp only [sscanf] at h
      split_ifs at h
      · cases h
      · rcases List.mem_cons.1 h with heq | hmem
        · exact ⟨p, width, _, Val.text.inj heq, Or.inl List.mem_cons_self⟩
        · exact hlater hmem
    | str width =>
      simp only [sscanf] at h
      split_ifs at h
      · cases h
      · rcases List.mem_cons.1 h with heq | hmem
        · exact ⟨isSpace, width, _, Val.text.inj heq, Or.inr List.mem_cons_self⟩
        · exact hlater hmem
    | int =>
      simp only [sscanf] at h
      cases hv : scanInt s with
      | none =>
        rw [hv] at h
        cases h
      | some vs =>
        rw [hv] at h
        rcases List.mem_cons.1 h with heq | hmem
        · cases heq
        · exact hlater hmem

/-- the conversions to texts have a width of at most `n` -/
def WidthLe (n : ℕ) : Item → Prop
  | .set _ width | .str width => ∃ m, width = some m ∧ m ≤ n
  | _ => True

/-- **An assigned text is within the width.** -/
theorem mem_sscanf_width {n : ℕ} (hw : ∀ item ∈ fmt, WidthLe n item) (h : .text t ∈ sscanf fmt s) : t.length ≤ n := by
  obtain ⟨p, width, u, rfl, hitem⟩ := mem_sscanf h
  have hle : ∃ m, width = some m ∧ m ≤ n := hitem.elim (hw _) (hw _)
  obtain ⟨m, rfl, hm⟩ := hle
  exact (List.length_take_le m _).trans hm

/-! ## Conversions on their own text -/

/-- the characters of a text, up to the first one that is not of its kind -/
theorem takeWhile_stop (ht : ∀ x ∈ t, p x = true) (hs : ∀ x, s.head? = some x → p x = false) :
    (t ++ s).takeWhile p = t := by
  rw [List.takeWhile_append_of_pos ht]
  cases s with
  | nil => rw [List.takeWhile_nil, List.append_nil]
  | cons x s => rw [List.takeWhile_cons_of_neg (by rw [hs x rfl]; exact Bool.false_ne_true), List.append_nil]

theorem dropWhile_stop (ht : ∀ x ∈ t, p x = true) (hs : ∀ x, s.head? = some x → p x = false) :
    (t ++ s).dropWhile p = s := by
  rw [List.dropWhile_append_of_pos ht]
  cases s with
  | nil => rfl
  | cons x s => rw [List.dropWhile_cons_of_neg (by rw [hs x rfl]; exact Bool.false_ne_true)]

theorem front_of_fits (h : ∀ n, width = some n → t.length ≤ n) : front width t = t := by
  cases width with
  | none => rfl
  | some n => exact List.take_of_length_le (h n rfl)

theorem sscanf_set (hne : t ≠ []) (ht : ∀ x ∈ t, p x = true) (hs : ∀ x, s.head? = some x → p x = false)
    (hw : ∀ n, width = some n → t.length ≤ n) :
    sscanf (.set p width :: fmt) (t ++ s) = .text t :: sscanf fmt s := by
  simp only [sscanf, takeWhile_stop ht hs, front_of_fits hw, if_neg hne, List.drop_left]

theorem sscanf_lit (fmt : List Item) (c : UInt8) (s : List UInt8) : sscanf (.lit c :: fmt) (c :: s) = sscanf fmt s := by
  simp only [sscanf, if_true]

theorem sscanf_str (hne : t ≠ []) (ht : ∀ x ∈ t, isSpace x = false) (hw : ∀ n, width = some n → t.length ≤ n) :
    sscanf [.str width] t = [.text t] := by
  have hdrop : t.dropWhile isSpace = t := dropWhile_stop (t := []) (by simp) fun x hx => ht x (List.mem_of_mem_head? hx)
  have htake : t.takeWhile (fun c => !isSpace c) = t := by
    have hstop := takeWhile_stop (t := t) (s := []) (p := fun c => !isSpace c) (by simpa using ht) (by simp)
    rwa [List.append_nil] at hstop
  simp only [sscanf, hdrop, htake, front_of_fits hw, if_neg hne]

/-- a digit is neither white space nor a sign -/
theorem isDigit_ne {c : UInt8} (h : isDigit c = true) : isSpace c = false ∧ c ≠ 45 ∧ c ≠ 43 := by
  have h48 : 48 ≤ c.toNat := by
    simp only [isDigit, Bool.and_eq_true, decide_eq_true_eq] at h
    exact UInt8.le_iff_toNat_le.1 h.1
  have hne {d : UInt8} (hd : d.toNat < 48) : c ≠ d := by
    rintro rfl
    omega
  have hgt : ¬ c ≤ 13 := by
    intro hle
    have h13 : c.toNat ≤ 13 := UInt8.le_iff_toNat_le.1 hle
    omega
  refine ⟨?_, hne (by decide), hne (by decide)⟩
  simp [isSpace, hne (d := 32) (by decide), hgt]

theorem sign_digits {ds : List UInt8} (hne : ds ≠ []) (hds : ∀ x ∈ ds, isDigit x = true) (s : List UInt8) :
    sign (ds ++ s) = (1, ds ++ s) := by
  obtain ⟨d, ds, rfl⟩ := List.exists_cons_of_ne_nil hne
  obtain ⟨-, hminus, hplus⟩ := isDigit_ne (hds d List.mem_cons_self)
  rw [List.cons_append]
  unfold sign
  split
  · rename_i heq
    exact absurd (List.cons.inj heq).1 hminus
  · rename_i heq
    exact absurd (List.cons.inj heq).1 hplus
  · rfl

/-- a number, up to the first character that is no digit -/
theorem scanInt_digits {sg ds : List UInt8} (hsg : sg = [] ∨ sg = [45] ∨ sg = [43]) (hne : ds ≠ [])
    (hds : ∀ x ∈ ds, isDigit x = true) (hs : ∀ x, s.head? = some x → isDigit x = false) :
    scanInt (sg ++ ds ++ s) = some ((sign sg).1 * decimal ds, s) := by
  obtain ⟨d, ds', hcons⟩ := List.exists_cons_of_ne_nil hne
  have hd : isDigit d = true := hds d (by rw [hcons]; exact List.mem_cons_self)
  have hspace : ∀ x, (sg ++ ds ++ s).head? = some x → isSpace x = false := by
    intro x hx
    rcases hsg with rfl | rfl | rfl
    · rw [hcons] at hx
      obtain rfl : d = x := Option.some.inj hx
      exact (isDigit_ne hd).1
    · obtain rfl : 45 = x := Option.some.inj hx
      rfl
    · obtain rfl : 43 = x := Option.some.inj hx
      rfl
  have hskip : (sg ++ ds ++ s).dropWhile isSpace = sg ++ ds ++ s := dropWhile_stop (t := []) (by simp) hspace
  have hsign : sign (sg ++ ds ++ s) = ((sign sg).1, ds ++ s) := by
    rcases hsg with rfl | rfl | rfl
    · exact sign_digits hne hds s
    · rfl
    · rfl
  simp only [scanInt, hskip, hsign, takeWhile_stop hds hs, dropWhile_stop hds hs, if_neg hne]

theorem sscanf_int {sg ds : List UInt8} (hsg : sg = [] ∨ sg = [45] ∨ sg = [43]) (hne : ds ≠ [])
    (hds : ∀ x ∈ ds, isDigit x = true) (hs : ∀ x, s.head? = some x → isDigit x = false) :
    sscanf (.int :: fmt) (sg ++ ds ++ s) = .num ((sign sg).1 * decimal ds) :: sscanf fmt s := by
  simp only [sscanf, scanInt_digits hsg hne hds hs]

/-! ## Two fields -/

theorem drop_takeWhile (p : UInt8 → Bool) (s : List UInt8) : s.drop (s.takeWhile p).length = s.dropWhile p := by
  have hleft := @List.drop_left _ (s.takeWhile p) (s.dropWhile p)
  rwa [List.takeWhile_append_dropWhile] at hleft

/-- a conversion without a width takes what there is -/
theorem sscanf_set_none (p : UInt8 → Bool) (fmt : List Item) (s : List UInt8) :
    sscanf (.set p none :: fmt) s =
      if s.takeWhile p = [] then [] else .text (s.takeWhile p) :: sscanf fmt (s.dropWhile p) := by
  rw [← drop_takeWhile p s]
  rfl

/-- **Two fields and the character between them**, on any input: what is in front of the first such character, and what
is between that one and the next. -/
theorem sscanf_pair (c : UInt8) (s : List UInt8) :
    sscanf [.set (fun x => x != c) none, .lit c, .set (fun x => x != c) none] s =
      let t := s.takeWhile fun x => x != c
      let u := ((s.dropWhile fun x => x != c).drop 1).takeWhile fun x => x != c
      if t = [] then [] else if u = [] then [.text t] else [.text t, .text u] := by
  rw [sscanf_set_none]
  by_cases ht : (s.takeWhile fun x => x != c) = []
  · simp only [if_pos ht]
  simp only [if_neg ht]
  cases hrest : s.dropWhile fun x => x != c with
  | nil => rfl
  | cons x r =>
    have hx : x = c := by
      have hhead := List.head?_dropWhile_not (fun x => x != c) s
      rw [hrest] at hhead
      simpa using hhead
    rw [hx, sscanf_lit, sscanf_set_none, List.drop_succ_cons, List.drop_zero]
    by_cases hu : (r.takeWhile fun x => x != c) = []
    · simp only [if_pos hu]
    · simp only [if_neg hu, sscanf]

end UdtGate.Core
