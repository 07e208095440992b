/-
`utl::dump_str`, the form in which received bytes are logged: printable bytes as they are, each other byte as `<%03d>`,
and an ellipsis when there was more.

The function writes into a buffer that its callers have sized for five characters a byte. `dumpStr` is given the cells
of both buffers and is `none` when it reads or writes outside of them; its counters are not bounded, as an overrun comes
long before they could be.

- `dumpStr_eq`: the cells afterwards, and that there is no way to fail but to run out of `str`.
- `fits_iff`: when five characters a byte and ten more are enough. A byte of -100 or less takes six.
-/
import UdtGate.Core.Memory

namespace UdtGate

open UdtGate.Core

namespace DumpStr

/-! ## Model -/

/-- the byte as a `char`, which is signed -/
def toChar (b : UInt8) : ℤ := if b.toNat < 128 then b.toNat else b.toNat - 256

def ascii (s : List Char) : List UInt8 := s.map Char.toUInt8

/-- `%03d` -/
def fmt03d (v : ℤ) : List Char :=
  let sign := if v < 0 then ['-'] else []
  let digits := Nat.toDigits 10 v.natAbs
  sign ++ List.replicate (3 - (sign.length + digits.length)) '0' ++ digits

/-- `str` and `p` -/
structure Out where
  str : List UInt8
  p : ℕ

/-- the cells of `str` after `bs` was written at `p` -/
def Out.write (o : Out) (bs : List UInt8) : Option (List UInt8) :=
  if o.p + bs.length ≤ o.str.length then some (store o.str o.p bs) else none

/-- `*(str+(p++)) = c` -/
def Out.put (o : Out) (c : UInt8) : Option Out := (o.write [c]).map fun str => ⟨str, o.p + 1⟩

/-- `p += sprintf(str+p, text)`, which puts a NUL behind the text -/
def Out.sprintf (o : Out) (text : List UInt8) : Option Out :=
  (o.write (text ++ [0])).map fun str => ⟨str, o.p + text.length⟩

/-- `c >= ' ' and c <= '~'` -/
def isPrintable (c : UInt8) : Bool := 32 ≤ toChar c && toChar c ≤ 126

/-- the body of the loop -/
def dumpByte (o : Out) (c : UInt8) : Option Out :=
  if isPrintable c then o.put c else o.sprintf (ascii (['<'] ++ fmt03d (toChar c) ++ ['>']))

/-- the loop, with `n` bytes to go from `i` on -/
def dumpBytes (buf : List UInt8) : ℕ → ℕ → Out → Option Out
  | 0, _, o => some o
  | n + 1, i, o =>
    match buf[i]? with
    | none => none
    | some c =>
      match dumpByte o c with
      | none => none
      | some o => dumpBytes buf n (i + 1) o

/-- how many bytes are shown -/
def minSize (bufSz rcvSz prnSz : ℤ) : ℤ :=
  let sz := if bufSz < rcvSz then bufSz else rcvSz
  if sz < prnSz then sz else prnSz

def ellipsis (o : Out) (rcvSz prnSz : ℤ) : Option Out :=
  if prnSz < rcvSz then o.sprintf (ascii ['.', '.', '.']) else some o

def dumpStr (str buf : List UInt8) (bufSz rcvSz prnSz : ℤ) : Option (List UInt8) := do
  let o ← dumpBytes buf (minSize bufSz rcvSz prnSz).toNat 0 ⟨str, 0⟩
  let o ← ellipsis o rcvSz prnSz
  o.write [0]

/-! ## What is written -/

/-- how a byte is shown -/
def shown (c : UInt8) : List UInt8 :=
  if isPrintable c then [c] else ascii (['<'] ++ fmt03d (toChar c) ++ ['>'])

def dots (rcvSz prnSz : ℤ) : List UInt8 := if prnSz < rcvSz then ascii ['.', '.', '.'] else []

/-- the text for the bytes `bs` -/
def text (bs : List UInt8) (rcvSz prnSz : ℤ) : List UInt8 := bs.flatMap shown ++ dots rcvSz prnSz

variable {m t : List UInt8} {o o' : Out}

/-- `t` was written to the front of the cells `m`, and perhaps a NUL behind it -/
def Wrote (m t : List UInt8) (o : Out) : Prop :=
  ∃ z : List UInt8, z.length ≤ 1 ∧ t.length + z.length ≤ m.length ∧ o.str = store m 0 (t ++ z) ∧ o.p = t.length

theorem wrote_nil (m : List UInt8) : Wrote m [] ⟨m, 0⟩ :=
  ⟨[], Nat.zero_le _, Nat.zero_le _, (store_nil m 0).symm, rfl⟩

/-- the next write goes over the NUL -/
theorem Wrote.write (h : Wrote m t o) {xs : List UInt8} (hxs : 0 < xs.length) :
    o.write xs = if t.length + xs.length ≤ m.length then some (store m 0 (t ++ xs)) else none := by
  obtain ⟨z, hz, hfit, hstr, hp⟩ := h
  have hlen : o.str.length = m.length := by
    rw [hstr, length_store (by rw [List.length_append]; omega)]
  rw [Out.write, hlen, hp]
  split_ifs with hroom
  · have hover : store (store m 0 (t ++ z)) (0 + t.length) xs = store m 0 (t ++ xs) :=
      store_overwrite (by omega) (by omega)
    rw [Nat.zero_add] at hover
    rw [hstr, hover]
  · rfl

/-- a text is put behind what was written, with or without a NUL of its own -/
theorem Wrote.append (h : Wrote m t o) {xs z : List UInt8} (hxs : 0 < xs.length) (hz : z.length ≤ 1)
    (hs : ((o.write (xs ++ z)).map fun str => ⟨str, o.p + xs.length⟩) = some o') : Wrote m (t ++ xs) o' := by
  have hp : o.p = t.length := by
    obtain ⟨-, -, -, -, hp⟩ := h
    exact hp
  rw [h.write (by rw [List.length_append]; omega)] at hs
  split_ifs at hs with hroom
  · obtain rfl := Option.some.inj hs
    rw [List.length_append] at hroom
    exact ⟨z, hz, by rw [List.length_append]; omega, by rw [List.append_assoc], by rw [List.length_append, hp]⟩
  · cases hs

theorem Wrote.append_of_room (h : Wrote m t o) {xs z : List UInt8} (hxs : 0 < xs.length) (hz : z.length ≤ 1)
    (hroom : (t ++ xs).length < m.length) :
    ∃ o', ((o.write (xs ++ z)).map fun str => (⟨str, o.p + xs.length⟩ : Out)) = some o' := by
  rw [List.length_append] at hroom
  rw [h.write (by rw [List.length_append]; omega), if_pos (by rw [List.length_append]; omega)]
  exact ⟨_, rfl⟩

theorem shown_pos (c : UInt8) : 0 < (shown c).length := by
  unfold shown
  split_ifs
  · exact Nat.zero_lt_one
  · simp [ascii]

/-- both ways to write a byte -/
theorem dumpByte_eq (o : Out) (c : UInt8) : ∃ z : List UInt8, z.length ≤ 1 ∧
    dumpByte o c = (o.write (shown c ++ z)).map fun str => ⟨str, o.p + (shown c).length⟩ := by
  unfold dumpByte shown
  split_ifs
  · exact ⟨[], Nat.zero_le _, rfl⟩
  · exact ⟨[0], le_rfl, rfl⟩

/-- **The loop writes the text of its bytes.** -/
theorem wrote_dumpBytes {buf : List UInt8} {n i : ℕ} (h : Wrote m t o) (hs : dumpBytes buf n i o = some o') :
    Wrote m (t ++ (load buf i n).flatMap shown) o' := by
  induction n generalizing i o t with
  | zero =>
    obtain rfl := Option.some.inj hs
    simpa [load] using h
  | succ n ih =>
    unfold dumpBytes at hs
    cases hc : buf[i]? with
    | none => rw [hc] at hs; cases hs
    | some c =>
      rw [hc] at hs
      obtain ⟨z, hz, heq⟩ := dumpByte_eq o c
      cases hb : dumpByte o c with
      | none => simp only [hb] at hs; cases hs
      | some o1 =>
        simp only [hb] at hs
        have hnext := ih (h.append (shown_pos c) hz (heq.symm.trans hb)) hs
        rwa [load_succ hc, List.flatMap_cons, ← List.append_assoc]

/-- the loop does not fail when `buf` has its bytes and `str` has room for the text -/
theorem dumpBytes_of_room {buf : List UInt8} {n i : ℕ} (h : Wrote m t o) (hbuf : i + n ≤ buf.length)
    (hroom : (t ++ (load buf i n).flatMap shown).length < m.length) : ∃ o', dumpBytes buf n i o = some o' := by
  induction n generalizing i o t with
  | zero => exact ⟨o, rfl⟩
  | succ n ih =>
    have hc : buf[i]? = some buf[i] := List.getElem?_eq_getElem (by omega)
    rw [load_succ hc, List.flatMap_cons, ← List.append_assoc] at hroom
    have hfirst : (t ++ shown buf[i]).length < m.length :=
      lt_of_le_of_lt (List.prefix_append _ _).length_le hroom
    obtain ⟨z, hz, heq⟩ := dumpByte_eq o buf[i]
    obtain ⟨o1, ho1⟩ := h.append_of_room (shown_pos buf[i]) hz hfirst
    obtain ⟨o', ho'⟩ := ih (h.append (shown_pos buf[i]) hz ho1) (by omega) hroom
    refine ⟨o', ?_⟩
    rw [dumpBytes, hc]
    simp only [heq.trans ho1]
    exact ho'

theorem ellipsis_cases (o : Out) (rcvSz prnSz : ℤ) :
    (dots rcvSz prnSz = [] ∧ ellipsis o rcvSz prnSz = some o) ∨
      (0 < (dots rcvSz prnSz).length ∧ ellipsis o rcvSz prnSz =
        (o.write (dots rcvSz prnSz ++ [0])).map fun str => ⟨str, o.p + (dots rcvSz prnSz).length⟩) := by
  unfold ellipsis dots
  split_ifs
  · exact Or.inr ⟨by decide, rfl⟩
  · exact Or.inl ⟨rfl, rfl⟩

theorem wrote_ellipsis {rcvSz prnSz : ℤ} (h : Wrote m t o) (hs : ellipsis o rcvSz prnSz = some o') :
    Wrote m (t ++ dots rcvSz prnSz) o' := by
  rcases ellipsis_cases o rcvSz prnSz with ⟨hnil, heq⟩ | ⟨hpos, heq⟩
  · obtain rfl := Option.some.inj (heq.symm.trans hs)
    rwa [hnil, List.append_nil]
  · exact h.append hpos (le_refl [0].length) (heq.symm.trans hs)

theorem ellipsis_of_room {rcvSz prnSz : ℤ} (h : Wrote m t o) (hroom : (t ++ dots rcvSz prnSz).length < m.length) :
    ∃ o', ellipsis o rcvSz prnSz = some o' := by
  rcases ellipsis_cases o rcvSz prnSz with ⟨-, heq⟩ | ⟨hpos, heq⟩
  · exact ⟨o, heq⟩
  · obtain ⟨o', ho'⟩ := h.append_of_room hpos (le_refl [0].length) hroom
    exact ⟨o', heq.trans ho'⟩

/-- the bytes that are shown -/
def front (buf : List UInt8) (bufSz rcvSz prnSz : ℤ) : List UInt8 := buf.take (minSize bufSz rcvSz prnSz).toNat

/-- the text that `dump_str` is to write -/
def dumped (buf : List UInt8) (bufSz rcvSz prnSz : ℤ) : List UInt8 := text (front buf bufSz rcvSz prnSz) rcvSz prnSz

/-- the NUL at the end -/
theorem Wrote.write_nul (h : Wrote m t o) :
    o.write [0] = if t.length < m.length then some (store m 0 (t ++ [0])) else none :=
  h.write Nat.zero_lt_one

/-- **What `dump_str` does**: with `buf` holding the bytes that are shown, it writes their text and a NUL to the front
of `str`, or runs out of `str`. -/
theorem dumpStr_eq {str buf : List UInt8} {bufSz rcvSz prnSz : ℤ} (hbuf : minSize bufSz rcvSz prnSz ≤ buf.length) :
    dumpStr str buf bufSz rcvSz prnSz =
      if (dumped buf bufSz rcvSz prnSz).length < str.length then
        some (store str 0 (dumped buf bufSz rcvSz prnSz ++ [0]))
      else none := by
  have htext (bs : List UInt8) : [] ++ bs.flatMap shown ++ dots rcvSz prnSz = text bs rcvSz prnSz := rfl
  have hload : load buf 0 (minSize bufSz rcvSz prnSz).toNat = front buf bufSz rcvSz prnSz := rfl
  cases h1 : dumpBytes buf (minSize bufSz rcvSz prnSz).toNat 0 ⟨str, 0⟩ with
  | none =>
    rw [if_neg]
    · simp only [dumpStr, h1, Option.bind_eq_bind, Option.bind_none]
    · intro hroom
      have hfirst : ([] ++ (load buf 0 (minSize bufSz rcvSz prnSz).toNat).flatMap shown).length < str.length :=
        lt_of_le_of_lt (List.prefix_append _ (dots rcvSz prnSz)).length_le hroom
      obtain ⟨o', ho'⟩ := dumpBytes_of_room (wrote_nil str) (show 0 + _ ≤ buf.length by omega) hfirst
      cases h1.symm.trans ho'
  | some o1 =>
    have hw1 := wrote_dumpBytes (wrote_nil str) h1
    cases h2 : ellipsis o1 rcvSz prnSz with
    | none =>
      rw [if_neg]
      · simp only [dumpStr, h1, h2, Option.bind_eq_bind, Option.bind_some, Option.bind_none]
      · intro hroom
        obtain ⟨o', ho'⟩ := ellipsis_of_room hw1 hroom
        cases h2.symm.trans ho'
    | some o2 =>
      simp only [dumpStr, h1, h2, Option.bind_eq_bind, Option.bind_some]
      have hw2 := wrote_ellipsis hw1 h2
      rw [htext, hload] at hw2
      exact hw2.write_nul

/-! ## How long it is -/

/-- three digits and a sign -/
def isLong (c : UInt8) : Bool := toChar c ≤ -100

theorem length_fmt03d {v : ℤ} (h : v.natAbs < 1000) : (fmt03d v).length = if v ≤ -100 then 4 else 3 := by
  have h3 : (Nat.toDigits 10 v.natAbs).length ≤ 3 := (Nat.length_toDigits_le_iff (by decide) (by decide)).2 h
  have h2 : (Nat.toDigits 10 v.natAbs).length ≤ 2 ↔ v.natAbs < 10 ^ 2 :=
    Nat.length_toDigits_le_iff (by decide) (by decide)
  simp only [fmt03d, List.length_append, List.length_replicate]
  split_ifs with hneg hlong
  · simp only [List.length_singleton]
    omega
  · simp only [List.length_singleton]
    omega
  · omega
  · simp only [List.length_nil]
    omega

/-- the width of a byte -/
theorem length_shown (c : UInt8) :
    (shown c).length = if isPrintable c then 1 else if isLong c then 6 else 5 := by
  have habs : (toChar c).natAbs < 1000 := by
    have hlt := c.toNat_lt
    unfold toChar
    split_ifs
    · omega
    · omega
  unfold shown isLong
  split_ifs with hprint hlong
  · rfl
  · rw [decide_eq_true_eq] at hlong
    simp only [ascii, List.length_map, List.length_append, List.length_singleton, length_fmt03d habs, if_pos hlong]
  · rw [decide_eq_true_eq] at hlong
    simp only [ascii, List.length_map, List.length_append, List.length_singleton, length_fmt03d habs, if_neg hlong]

theorem not_isLong {c : UInt8} (h : isPrintable c = true) : isLong c = false := by
  simp only [isPrintable, Bool.and_eq_true, decide_eq_true_eq] at h
  rw [isLong, decide_eq_false_iff_not]
  omega

/-- five characters a byte, four less for a printable one, one more for a long one -/
theorem length_flatMap_shown (bs : List UInt8) :
    (bs.flatMap shown).length + 4 * bs.countP isPrintable = 5 * bs.length + bs.countP isLong := by
  induction bs with
  | nil => rfl
  | cons c bs ih =>
    rw [List.flatMap_cons, List.length_append, List.length_cons, List.countP_cons, List.countP_cons, length_shown]
    split_ifs with hprint hlong hlong
    · exact absurd hlong (by rw [not_isLong hprint]; exact Bool.false_ne_true)
    · omega
    · omega
    · omega

theorem length_dumped (buf : List UInt8) (bufSz rcvSz prnSz : ℤ) :
    (dumped buf bufSz rcvSz prnSz).length + 4 * (front buf bufSz rcvSz prnSz).countP isPrintable =
      5 * (front buf bufSz rcvSz prnSz).length + (front buf bufSz rcvSz prnSz).countP isLong +
        if prnSz < rcvSz then 3 else 0 := by
  have hlen := length_flatMap_shown (front buf bufSz rcvSz prnSz)
  rw [dumped, text, List.length_append, dots]
  split_ifs
  · simp only [ascii, List.length_map, List.length_cons, List.length_nil]
    omega
  · rw [List.length_nil]
    omega

/-- the bytes behind those that are shown do not matter, nor need there be any -/
theorem dumpStr_front {str buf : List UInt8} {bufSz rcvSz prnSz : ℤ} (hbuf : minSize bufSz rcvSz prnSz ≤ buf.length) :
    dumpStr str (front buf bufSz rcvSz prnSz) bufSz rcvSz prnSz = dumpStr str buf bufSz rcvSz prnSz := by
  have hfront : minSize bufSz rcvSz prnSz ≤ (front buf bufSz rcvSz prnSz).length := by
    rw [front, List.length_take]
    omega
  have hsame : front (front buf bufSz rcvSz prnSz) bufSz rcvSz prnSz = front buf bufSz rcvSz prnSz := by
    rw [front, front, List.take_take, min_self]
  rw [dumpStr_eq hfront, dumpStr_eq hbuf, dumped, dumped, hsame]

/-- **When `dump_str` stays inside the buffer of its callers.** It reads no more than the bytes that are shown, and it
fits exactly when the long ones among them and the ellipsis find the room that printable bytes and bytes not shown
leave. -/
theorem fits_iff {str buf : List UInt8} {bufSz rcvSz prnSz : ℤ}
    (hbuf : minSize bufSz rcvSz prnSz ≤ buf.length) (hstr : (str.length : ℤ) = 5 * prnSz + 10) :
    ((dumpStr str buf bufSz rcvSz prnSz).isSome = true ∧
      dumpStr str (front buf bufSz rcvSz prnSz) bufSz rcvSz prnSz = dumpStr str buf bufSz rcvSz prnSz) ↔
        ((front buf bufSz rcvSz prnSz).countP isLong : ℤ) + (if prnSz < rcvSz then 3 else 0) ≤
          9 + 5 * (prnSz - (front buf bufSz rcvSz prnSz).length) +
            4 * (front buf bufSz rcvSz prnSz).countP isPrintable := by
  have hlen := length_dumped buf bufSz rcvSz prnSz
  rw [and_iff_left (dumpStr_front hbuf), dumpStr_eq hbuf]
  split_ifs at hlen ⊢ with hroom hmore hmore
  · simp only [Option.isSome_some, true_iff]
    omega
  · simp only [Option.isSome_some, true_iff]
    omega
  · simp only [Option.isSome_none, Bool.false_eq_true, false_iff]
    omega
  · simp only [Option.isSome_none, Bool.false_eq_true, false_iff]
    omega

/-- two letters, a line feed and an ellipsis -/
theorem fits_iff_text :
    (dumpStr (List.replicate 25 0) [104, 105, 10] 3 9 3).isSome = true :=
  ((fits_iff (by decide) (by decide)).2 (by decide)).1

/-- **An overrun.** Twenty bytes of 128 are shown as `<-128>` each, and the buffer for twenty bytes has 110 cells. -/
theorem long_bytes_overrun :
    (dumped (List.replicate 20 128) 1048576 20 20).length = 120 ∧
      dumpStr (List.replicate 110 0) (List.replicate 20 128) 1048576 20 20 = none := by
  have hlen : (dumped (List.replicate 20 128) 1048576 20 20).length = 120 := by decide +kernel
  refine ⟨hlen, ?_⟩
  rw [dumpStr_eq (by decide), if_neg]
  rw [hlen, List.length_replicate]
  decide

end DumpStr

end UdtGate
