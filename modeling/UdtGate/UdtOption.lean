/-
`parse_udt_option`, which takes the argument of the -U option apart: the name of an option, `=`, a number, and a suffix
perhaps.

The function never looks at how much its `sscanf` assigned. The name goes to a block with one cell for each character of
the argument, so there is none for the NUL when the whole argument is a name. When nothing was assigned, the name is
what `malloc` left in the block, and the number what was on the stack: a `Platform` says what that is.

- `Denotes`: the arguments with a meaning, and `parse_denotes`, what becomes of them;
- `parse_of_name`, `parse_of_no_name`, `parse_of_all_name`: what becomes of any argument;
- `grammar_iff`: when an argument with a meaning is accepted and one without is rejected.
-/
import Mathlib.Data.UInt
import UdtGate.Core.Cstring
import UdtGate.Core.Scanf
import UdtGate.DumpStr
import UdtGate.UdpBuffer

namespace UdtGate

open UdtGate.Core UdtGate.Core.Scanf
open DumpStr (ascii)

namespace UdtOption

/-! ## Model -/

/-- what the function leaves to the compiler and the libraries -/
structure Platform where
  /-- the cells of a block that `malloc` returned -/
  heap : ℕ → UInt8
  /-- `optval` before anything was assigned to it -/
  optval : ℤ
  /-- %d for a number that no `int` holds -/
  outOfRange : ℤ → ℤ
  /-- the options as the numbers that they are in `udt_options` -/
  code : UdtOpt → ℕ

/-- `malloc(n)` -/
def malloc (heap : ℕ → UInt8) (n : ℕ) : List UInt8 := (List.range n).map heap

def UDT_OPTIONS_LIST : List (List UInt8 × UdtOpt) := [
  (ascii ['U', 'D', 'T', '_', 'M', 'S', 'S'], .mss),
  (ascii ['U', 'D', 'T', '_', 'R', 'C', 'V', 'B', 'U', 'F'], .udtRcvbuf),
  (ascii ['U', 'D', 'P', '_', 'R', 'C', 'V', 'B', 'U', 'F'], .udpRcvbuf),
  (ascii ['U', 'D', 'T', '_', 'S', 'N', 'D', 'B', 'U', 'F'], .udtSndbuf),
  (ascii ['U', 'D', 'P', '_', 'S', 'N', 'D', 'B', 'U', 'F'], .udpSndbuf),
  (ascii ['U', 'D', 'T', '_', 'L', 'I', 'N', 'G', 'E', 'R'], .linger)]

def toLower (c : UInt8) : UInt8 := if 65 ≤ c && c ≤ 90 then c + 32 else c

/-- `!strcasecmp(s, t)` -/
def sameName (s t : List UInt8) : Bool := s.map toLower == t.map toLower

/-- the loop over the list -/
def findOption (optname : List UInt8) : Option UdtOpt :=
  (UDT_OPTIONS_LIST.find? fun entry => sameName entry.1 optname).map Prod.snd

/-- `udt_options[optcode] = optval` -/
def assign (code : UdtOpt → ℕ) (optcode : UdtOpt) (optval : ℤ) : UdtOptions → UdtOptions
  | [] => [(optcode, optval)]
  | (o, v) :: options =>
    if o = optcode then (optcode, optval) :: options
    else if code optcode < code o then (optcode, optval) :: (o, v) :: options
    else (o, v) :: assign code optcode optval options

/-- `[a-zA-Z_]` -/
def isNameChar (c : UInt8) : Bool := (97 ≤ c && c ≤ 122) || (65 ≤ c && c ≤ 90) || c == 95

/-- `%[a-zA-Z_]=%d` -/
def format : List Item := [.set isNameChar none, .lit 61, .int]

/-- an assigned text goes to its block -/
def storeText (b : List UInt8) : Option Val → Except Fault (List UInt8)
  | some (.text t) => putStr b t
  | _ => .ok b

/-- the values of an `int` -/
def InInt (v : ℤ) : Prop := -2 ^ 31 ≤ v ∧ v < 2 ^ 31

instance (v : ℤ) : Decidable (InInt v) := by unfold InInt; infer_instance

/-- an assigned number goes to `optval` -/
def Platform.storeInt (pl : Platform) : Option Val → ℤ
  | some (.num v) => if InInt v then v else pl.outOfRange v
  | _ => pl.optval

/-- a product of `int`s -/
def mulInt (v w : ℤ) : ℤ := (v * w).bmod (2 ^ 32)

/-- `optval` after the suffix `q` -/
def quantify (q : UInt8) (optval : ℤ) : ℤ :=
  if q = 107 ∨ q = 75 then mulInt optval 1024
  else if q = 109 ∨ q = 77 then mulInt optval (1024 * 1024)
  else optval

/-- `optstr[strlen(optstr)-1]` -/
def lastChar (optstr : List UInt8) : Except Fault UInt8 :=
  match optstr.getLast? with
  | none => .error .read
  | some q => .ok q

/-- what the function leaves behind -/
structure Parsed where
  options : UdtOptions
  /-- the name in the message of `log_die` -/
  died : Option (List UInt8)
deriving DecidableEq

/-- the loop over the list, and `log_die` behind it -/
def setOption (pl : Platform) (options : UdtOptions) (optname : List UInt8) (optval : ℤ) : Parsed :=
  match findOption optname with
  | some optcode => ⟨assign pl.code optcode optval options, none⟩
  | none => ⟨options, some optname⟩

/-- the block for the name, after the scan -/
def Platform.storeName (pl : Platform) (optstr : List UInt8) : Except Fault (List UInt8) :=
  storeText (malloc pl.heap optstr.length) (sscanf format optstr)[0]?

def parseUdtOption (pl : Platform) (options : UdtOptions) (optstr : List UInt8) : Except Fault Parsed := do
  let optname ← pl.storeName optstr
  let q ← lastChar optstr
  let optval := quantify q (pl.storeInt (sscanf format optstr)[1]?)
  -- without a NUL in the block the name is read beyond it, by strcasecmp or by the message
  let optname ← cstr optname
  return setOption pl options optname optval

/-! ## Options with a meaning -/

inductive Sign : List UInt8 → ℤ → Prop
  | none : Sign [] 1
  | minus : Sign [45] (-1)
  | plus : Sign [43] 1

inductive Suffix : List UInt8 → ℤ → Prop
  | none : Suffix [] 1
  | kilo (q : UInt8) (hq : q = 107 ∨ q = 75) : Suffix [q] 1024
  | mega (q : UInt8) (hq : q = 109 ∨ q = 77) : Suffix [q] (1024 * 1024)

/-- the name of an option, in any case -/
def Names (name : List UInt8) (o : UdtOpt) : Prop := ∃ entry ∈ UDT_OPTIONS_LIST, sameName entry.1 name ∧ entry.2 = o

/-- `s` asks for the value `v` of the option `o` -/
structure Denotes (s : List UInt8) (o : UdtOpt) (v : ℤ) : Prop where
  parts : ∃ name sg digits suffix factor k, s = name ++ 61 :: (sg ++ digits ++ suffix) ∧ Names name o ∧ Sign sg factor ∧
    digits ≠ [] ∧ (∀ d ∈ digits, isDigit d = true) ∧ Suffix suffix k ∧ v = factor * decimal digits * k
  inInt : InInt v

/-- what has a meaning is accepted with that meaning, and what has none is rejected -/
structure Exact (pl : Platform) (options : UdtOptions) (s : List UInt8) : Prop where
  accepted : ∀ o v, Denotes s o v → ∃ options', parseUdtOption pl options s = .ok ⟨options', none⟩ ∧
    options'.lookup o = some v ∧ ∀ o', o' ≠ o → options'.lookup o' = options.lookup o'
  rejected : (¬ ∃ o v, Denotes s o v) → ∃ optname, parseUdtOption pl options s = .ok ⟨options, some optname⟩

/-! ## Names -/

theorem isNameChar_toLower (c : UInt8) : isNameChar (toLower c) = isNameChar c := by
  unfold toLower
  split_ifs with hc
  · simp only [Bool.and_eq_true, decide_eq_true_eq, UInt8.le_iff_toNat_le] at hc
    have h65 : (65 : UInt8).toNat = 65 := rfl
    have h90 : (90 : UInt8).toNat = 90 := rfl
    have hadd : (c + 32).toNat = c.toNat + 32 := by
      rw [UInt8.toNat_add, Nat.mod_eq_of_lt]
      · rfl
      · have h32 : (32 : UInt8).toNat = 32 := rfl
        omega
    have hup : isNameChar c = true := by
      simp [isNameChar, UInt8.le_iff_toNat_le]
      omega
    have hlow : isNameChar (c + 32) = true := by
      simp [isNameChar, UInt8.le_iff_toNat_le, hadd]
      omega
    rw [hup, hlow]
  · rfl

theorem entry_chars : ∀ entry ∈ UDT_OPTIONS_LIST, entry.1 ≠ [] ∧ entry.1.all isNameChar = true := by decide

theorem entry_unique : ∀ e ∈ UDT_OPTIONS_LIST, ∀ e' ∈ UDT_OPTIONS_LIST,
    e.1.map toLower = e'.1.map toLower → e = e' := by decide

theorem sameName_iff {s t : List UInt8} : sameName s t = true ↔ s.map toLower = t.map toLower := beq_iff_eq

theorem Names.chars {name : List UInt8} {o : UdtOpt} (h : Names name o) :
    name ≠ [] ∧ ∀ c ∈ name, isNameChar c = true := by
  obtain ⟨entry, hmem, hsame, -⟩ := h
  obtain ⟨hne, hchars⟩ := entry_chars entry hmem
  have hmap := sameName_iff.1 hsame
  constructor
  · rintro rfl
    exact hne (List.map_eq_nil_iff.1 hmap)
  · intro c hc
    have hlow : toLower c ∈ entry.1.map toLower := hmap ▸ List.mem_map_of_mem hc
    obtain ⟨x, hx, heq⟩ := List.mem_map.1 hlow
    rw [← isNameChar_toLower, ← heq, isNameChar_toLower]
    exact List.all_eq_true.1 hchars x hx

theorem findOption_eq_some {name : List UInt8} {o : UdtOpt} : findOption name = some o ↔ Names name o := by
  unfold findOption
  rw [Option.map_eq_some_iff]
  constructor
  · rintro ⟨entry, hfind, heq⟩
    have hsame := List.find?_some hfind
    exact ⟨entry, List.mem_of_find?_eq_some hfind, hsame, heq⟩
  · rintro ⟨entry, hmem, hsame, heq⟩
    cases hfind : UDT_OPTIONS_LIST.find? fun entry => sameName entry.1 name with
    | none => exact absurd hsame (List.find?_eq_none.1 hfind entry hmem)
    | some e =>
      have hsame' := List.find?_some hfind
      have hmap : e.1.map toLower = entry.1.map toLower := (sameName_iff.1 hsame').trans (sameName_iff.1 hsame).symm
      obtain rfl := entry_unique e (List.mem_of_find?_eq_some hfind) entry hmem hmap
      exact ⟨e, rfl, heq⟩

/-! ## The map -/

theorem lookup_assign (code : UdtOpt → ℕ) (o : UdtOpt) (v : ℤ) (options : UdtOptions) :
    (assign code o v options).lookup o = some v := by
  induction options with
  | nil => simp [assign]
  | cons entry options ih =>
    obtain ⟨o', v'⟩ := entry
    simp only [assign]
    split_ifs with heq hlt
    · exact List.lookup_cons_self
    · exact List.lookup_cons_self
    · rw [List.lookup_cons, beq_false_of_ne (Ne.symm heq)]
      exact ih

theorem lookup_assign_of_ne (code : UdtOpt → ℕ) {o o' : UdtOpt} (h : o' ≠ o) (v : ℤ) (options : UdtOptions) :
    (assign code o v options).lookup o' = options.lookup o' := by
  induction options with
  | nil => rw [assign, List.lookup_cons, beq_false_of_ne h]
  | cons entry options ih =>
    obtain ⟨o'', v''⟩ := entry
    simp only [assign]
    split_ifs with heq hlt
    · rw [List.lookup_cons, List.lookup_cons, heq, beq_false_of_ne h]
    · rw [List.lookup_cons, beq_false_of_ne h]
    · rw [List.lookup_cons, List.lookup_cons, ih]

/-! ## What becomes of an argument -/

variable {pl : Platform} {options : UdtOptions} {s b n : List UInt8} {q : UInt8}

theorem length_malloc (heap : ℕ → UInt8) (n : ℕ) : (malloc heap n).length = n := by
  rw [malloc, List.length_map, List.length_range]

/-- the first text assigned is the front of name characters -/
theorem scan_name (s : List UInt8) : (sscanf format s)[0]? =
    if s.takeWhile isNameChar = [] then none else some (.text (s.takeWhile isNameChar)) := by
  rw [format, sscanf_set_none]
  split_ifs
  · rfl
  · rfl

/-- the name is read from its block when all the rest is done -/
theorem parse_of_stored (hb : pl.storeName s = .ok b)
    (hq : s.getLast? = some q) :
    parseUdtOption pl options s =
      (cstr b).map fun n => setOption pl options n (quantify q (pl.storeInt (sscanf format s)[1]?)) := by
  simp only [parseUdtOption, hb, lastChar, hq, bind, Except.bind, pure, Except.pure]
  cases cstr b with
  | error e => rfl
  | ok n => rfl

theorem isNameChar_ne_zero {c : UInt8} (h : isNameChar c = true) : c ≠ 0 := by
  rintro rfl
  cases h

theorem zero_not_mem_takeWhile (s : List UInt8) : 0 ∉ s.takeWhile isNameChar := fun h =>
  isNameChar_ne_zero (List.mem_takeWhile_imp h) rfl

/-- a name with something behind it is stored -/
theorem parse_of_name (hne : s.takeWhile isNameChar ≠ []) (hlt : (s.takeWhile isNameChar).length < s.length)
    (hq : s.getLast? = some q) :
    parseUdtOption pl options s = .ok (setOption pl options (s.takeWhile isNameChar)
      (quantify q (pl.storeInt (sscanf format s)[1]?))) := by
  obtain ⟨b, hput⟩ : ∃ b, putStr (malloc pl.heap s.length) (s.takeWhile isNameChar) = .ok b :=
    ⟨_, putStr_of_lt (hlt.trans_eq (length_malloc pl.heap s.length).symm)⟩
  have hb : pl.storeName s = .ok b := by
    rw [Platform.storeName, scan_name, if_neg hne]
    exact hput
  rw [parse_of_stored hb hq, cstr_putStr (zero_not_mem_takeWhile s) hput]
  rfl

/-- there is no room for a name with nothing behind it -/
theorem parse_of_all_name (hne : s ≠ []) (hall : s.takeWhile isNameChar = s) :
    parseUdtOption pl options s = .error .write := by
  have hput : putStr (malloc pl.heap s.length) s = .error .write := putStr_of_le (length_malloc pl.heap s.length).le
  simp only [parseUdtOption, Platform.storeName, scan_name, hall, if_neg hne, storeText, hput, bind, Except.bind]

/-- without a name in front, what is in the block is the name -/
theorem parse_of_no_name (hno : s.takeWhile isNameChar = []) (hq : s.getLast? = some q) :
    parseUdtOption pl options s = (cstr (malloc pl.heap s.length)).map fun n =>
      setOption pl options n (quantify q (pl.storeInt (sscanf format s)[1]?)) := by
  apply parse_of_stored _ hq
  rw [Platform.storeName, scan_name, if_pos hno]
  rfl

/-! ## Arguments with a meaning -/

theorem Sign.cases {sg : List UInt8} {factor : ℤ} (h : Sign sg factor) :
    (sg = [] ∨ sg = [45] ∨ sg = [43]) ∧ (sign sg).1 = factor := by
  cases h with
  | none => exact ⟨Or.inl rfl, rfl⟩
  | minus => exact ⟨Or.inr (Or.inl rfl), rfl⟩
  | plus => exact ⟨Or.inr (Or.inr rfl), rfl⟩

/-- a suffix is no digit -/
theorem Suffix.head {suffix : List UInt8} {k : ℤ} (h : Suffix suffix k) :
    ∀ x, suffix.head? = some x → isDigit x = false := by
  intro x hx
  cases h with
  | none => cases hx
  | kilo q hq =>
    obtain rfl := Option.some.inj hx
    rcases hq with rfl | rfl
    · rfl
    · rfl
  | mega q hq =>
    obtain rfl := Option.some.inj hx
    rcases hq with rfl | rfl
    · rfl
    · rfl

theorem mulInt_of_inInt {v k : ℤ} (h : InInt (v * k)) : mulInt v k = v * k := by
  obtain ⟨hlo, hhi⟩ := h
  exact Int.bmod_eq_of_le (by omega) (by omega)

/-- the last character is the suffix, or a digit that stands for none -/
theorem Suffix.quantify {suffix digits : List UInt8} {k v : ℤ} (h : Suffix suffix k) (hne : digits ≠ [])
    (hdigits : ∀ d ∈ digits, isDigit d = true) (hv : InInt (v * k)) (pre : List UInt8) :
    ∃ q, (pre ++ digits ++ suffix).getLast? = some q ∧ UdtOption.quantify q v = v * k := by
  cases h with
  | none =>
    obtain ⟨q, hq⟩ : ∃ q, digits.getLast? = some q := ⟨_, List.getLast?_eq_some_getLast hne⟩
    refine ⟨q, by rw [List.append_nil, List.getLast?_append, hq]; rfl, ?_⟩
    have hdigit := hdigits q (List.mem_of_getLast? hq)
    have hk : ¬ (q = 107 ∨ q = 75) := by
      rintro (rfl | rfl)
      · cases hdigit
      · cases hdigit
    have hm : ¬ (q = 109 ∨ q = 77) := by
      rintro (rfl | rfl)
      · cases hdigit
      · cases hdigit
    rw [UdtOption.quantify, if_neg hk, if_neg hm, mul_one]
  | kilo q hq =>
    refine ⟨q, List.getLast?_concat, ?_⟩
    rw [UdtOption.quantify, if_pos hq, mulInt_of_inInt hv]
  | mega q hq =>
    have hk : ¬ (q = 107 ∨ q = 75) := by
      rcases hq with rfl | rfl
      · decide
      · decide
    refine ⟨q, List.getLast?_concat, ?_⟩
    rw [UdtOption.quantify, if_neg hk, if_pos hq, mulInt_of_inInt hv]

/-- a number is within an `int` when its product is -/
theorem Suffix.inInt {suffix : List UInt8} {k v : ℤ} (h : Suffix suffix k) (hv : InInt (v * k)) : InInt v := by
  obtain ⟨hlo, hhi⟩ := hv
  cases h with
  | none => exact ⟨by omega, by omega⟩
  | kilo q hq => exact ⟨by omega, by omega⟩
  | mega q hq => exact ⟨by omega, by omega⟩

variable {o : UdtOpt} {v : ℤ}

/-- the name of an argument with a meaning -/
theorem Denotes.name (h : Denotes s o v) :
    s.takeWhile isNameChar ≠ [] ∧ (s.takeWhile isNameChar).length < s.length ∧ Names (s.takeWhile isNameChar) o := by
  obtain ⟨name, sg, digits, suffix, factor, k, rfl, hname, -⟩ := h.parts
  have hstop : (name ++ 61 :: (sg ++ digits ++ suffix)).takeWhile isNameChar = name := by
    apply takeWhile_stop hname.chars.2
    intro x hx
    obtain rfl := Option.some.inj hx
    rfl
  rw [hstop]
  refine ⟨hname.chars.1, ?_, hname⟩
  rw [List.length_append, List.length_cons]
  omega

/-- what is assigned for the parts of an argument -/
theorem scan_parts {name sg digits suffix : List UInt8} {factor k : ℤ} (hname : Names name o) (hsg : Sign sg factor)
    (hne : digits ≠ []) (hdigits : ∀ d ∈ digits, isDigit d = true) (hsuffix : Suffix suffix k) :
    sscanf format (name ++ 61 :: (sg ++ digits ++ suffix)) = [.text name, .num (factor * decimal digits)] := by
  obtain ⟨hsign, hfactor⟩ := hsg.cases
  have hstop : ∀ x, (61 :: (sg ++ digits ++ suffix)).head? = some x → isNameChar x = false := by
    intro x hx
    obtain rfl := Option.some.inj hx
    rfl
  rw [format, sscanf_set hname.chars.1 hname.chars.2 hstop (by rintro n ⟨⟩), sscanf_lit,
    sscanf_int hsign hne hdigits hsuffix.head, hfactor]
  rfl

/-- **An argument with a meaning is taken for what it means.** -/
theorem parse_denotes (pl : Platform) (options : UdtOptions) (h : Denotes s o v) :
    parseUdtOption pl options s = .ok ⟨assign pl.code o v options, none⟩ := by
  obtain ⟨hne, hlt, hname⟩ := h.name
  have hfind := findOption_eq_some.2 hname
  obtain ⟨⟨name, sg, digits, suffix, factor, k, rfl, hchars, hsg, hdne, hdigits, hsuffix, rfl⟩, hint⟩ := h
  obtain ⟨q, hq, hquant⟩ := hsuffix.quantify hdne hdigits hint (name ++ 61 :: sg)
  have hlast : (name ++ 61 :: (sg ++ digits ++ suffix)).getLast? = some q := by
    rw [← hq]
    simp only [List.append_assoc, List.cons_append]
  have hstore : pl.storeInt (some (.num (factor * decimal digits))) = factor * decimal digits :=
    if_pos (hsuffix.inInt hint)
  rw [parse_of_name hne hlt hlast, scan_parts hchars hsg hdne hdigits hsuffix]
  simp only [setOption, hfind, List.getElem?_cons_succ, List.getElem?_cons_zero, hstore, hquant]

/-! ## The grammar -/

/-- what the function can tell to be no name of an option: the letters in front of something else, or what is in the
block when there are none -/
def Unknown (pl : Platform) (s : List UInt8) : Prop :=
  (s.takeWhile isNameChar ≠ [] ∧ (s.takeWhile isNameChar).length < s.length ∧
    findOption (s.takeWhile isNameChar) = none) ∨
  (s.takeWhile isNameChar = [] ∧ s ≠ [] ∧ ∃ n, cstr (malloc pl.heap s.length) = .ok n ∧ findOption n = none)

theorem setOption_died {m : List UInt8} :
    setOption pl options n v = ⟨options, some m⟩ ↔ findOption n = none ∧ n = m := by
  unfold setOption
  cases findOption n with
  | none => simp
  | some o => simp

/-- **What is rejected**: the names that are unknown, and nothing else. -/
theorem rejected_iff (pl : Platform) (options : UdtOptions) (s : List UInt8) :
    (∃ m, parseUdtOption pl options s = .ok ⟨options, some m⟩) ↔ Unknown pl s := by
  by_cases hs : s = []
  · subst hs
    constructor
    · rintro ⟨m, hm⟩
      cases hm
    · rintro (⟨hne, -⟩ | ⟨-, hne, -⟩)
      · exact absurd rfl hne
      · exact absurd rfl hne
  obtain ⟨q, hq⟩ : ∃ q, s.getLast? = some q := ⟨_, List.getLast?_eq_some_getLast hs⟩
  by_cases hno : s.takeWhile isNameChar = []
  · rw [parse_of_no_name hno hq]
    constructor
    · rintro ⟨m, hm⟩
      cases hn : cstr (malloc pl.heap s.length) with
      | error e =>
        rw [hn] at hm
        cases hm
      | ok n =>
        rw [hn] at hm
        exact Or.inr ⟨hno, hs, n, hn, (setOption_died.1 (Except.ok.inj hm)).1⟩
    · rintro (⟨hne, -⟩ | ⟨-, -, n, hn, hfind⟩)
      · exact absurd hno hne
      · rw [hn]
        exact ⟨n, congrArg Except.ok (setOption_died.2 ⟨hfind, rfl⟩)⟩
  by_cases hlt : (s.takeWhile isNameChar).length < s.length
  · rw [parse_of_name hno hlt hq]
    constructor
    · rintro ⟨m, hm⟩
      exact Or.inl ⟨hno, hlt, (setOption_died.1 (Except.ok.inj hm)).1⟩
    · rintro (⟨-, -, hfind⟩ | ⟨hnil, -⟩)
      · exact ⟨_, congrArg Except.ok (setOption_died.2 ⟨hfind, rfl⟩)⟩
      · exact absurd hnil hno
  · have hall : s.takeWhile isNameChar = s :=
      (List.takeWhile_prefix isNameChar).eq_of_length (le_antisymm (List.takeWhile_prefix _).length_le (not_lt.1 hlt))
    rw [parse_of_all_name hs hall]
    constructor
    · rintro ⟨m, hm⟩
      cases hm
    · rintro (⟨-, hlt', -⟩ | ⟨hnil, -⟩)
      · exact absurd hlt' hlt
      · exact absurd hnil hno

/-- **When the function keeps to its grammar**: exactly for the arguments with a meaning and those with an unknown
name. -/
theorem grammar_iff (pl : Platform) (options : UdtOptions) (s : List UInt8) :
    Exact pl options s ↔ (∃ o v, Denotes s o v) ∨ Unknown pl s := by
  constructor
  · intro h
    by_cases hmeant : ∃ o v, Denotes s o v
    · exact Or.inl hmeant
    · exact Or.inr ((rejected_iff pl options s).1 (h.rejected hmeant))
  · rintro (hmeant | hunknown)
    · refine ⟨?_, fun hno => absurd hmeant hno⟩
      intro o v h
      exact ⟨_, parse_denotes pl options h, lookup_assign pl.code o v options,
        fun o' hne => lookup_assign_of_ne pl.code hne v options⟩
    · obtain ⟨m, hm⟩ := (rejected_iff pl options s).2 hunknown
      refine ⟨?_, fun _ => ⟨m, hm⟩⟩
      intro o v h
      have hdied := congrArg Parsed.died (Except.ok.inj ((parse_denotes pl options h).symm.trans hm))
      cases hdied

/-- `UDT_MSS=`, with no number -/
def noNumber : List UInt8 := ascii ['U', 'D', 'T', '_', 'M', 'S', 'S', '=']

/-- **A number that nobody gave.** `UDT_MSS=` sets the option to what `optval` happens to be. -/
theorem no_number_taken :
    parseUdtOption ⟨fun _ => 0, 77, fun _ => 0, fun _ => 0⟩ [] noNumber = .ok ⟨[(.mss, 77)], none⟩ ∧
      ¬ Exact ⟨fun _ => 0, 77, fun _ => 0, fun _ => 0⟩ [] noNumber := by
  have hparse : parseUdtOption ⟨fun _ => 0, 77, fun _ => 0, fun _ => 0⟩ [] noNumber = .ok ⟨[(.mss, 77)], none⟩ := by
    decide
  refine ⟨hparse, ?_⟩
  intro h
  have hno : ¬ ∃ o v, Denotes noNumber o v := by
    rintro ⟨o, v, ⟨name, sg, digits, suffix, factor, k, heq, hname, hsg, hne, hdigits, hsuffix, -⟩, -⟩
    have hscan := scan_parts hname hsg hne hdigits hsuffix
    rw [← heq] at hscan
    have hlen : (sscanf format noNumber).length = 2 := congrArg List.length hscan
    exact absurd hlen (by decide)
  obtain ⟨m, hm⟩ := h.rejected hno
  cases hparse.symm.trans hm

end UdtOption

end UdtGate
