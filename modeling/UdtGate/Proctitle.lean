/-
The title of a process, `lib/setproctitle.cpp`, where it is written over the arguments.

`initsetproctitle` moves the environment to memory of its own and looks how far the strings of `argv`, and behind them
those of `envp`, lie side by side from `argv[0]` on. `setproctitle` writes its text there, filled up with SPT_PADCHAR:
NULs on Linux, blanks where `setproctitle.h` defines nothing. Both are called by `main`, which has made sure of three
operands by then.

- `lastArgv_covered`: every cell up to `LastArgv` is in a string of `argv` or `envp`;
- `entitles_iff`: when the two functions do not write in front of a buffer or through NULL, and that they write to no
  cell outside of the strings;
- `titled`: for strings that lie side by side, as a kernel lays them out, all is well: what is written is the title, and
  the environment is what it was.
-/
import Mathlib.Data.UInt
import UdtGate.Core.Flat
import UdtGate.Core.Cstring
import UdtGate.DumpStr

namespace UdtGate

open UdtGate.Core
open DumpStr (ascii)

namespace Proctitle

/-! ## Model -/

/-- a string that the kernel has laid out -/
structure Str where
  addr : ℕ
  text : List UInt8
deriving DecidableEq

/-- its NUL -/
def Str.last (s : Str) : ℕ := s.addr + s.text.length

/-- what `malloc` and the calls of `strdup` return: whether there is memory -/
structure Requests where
  malloc : Bool
  strdup : ℕ → Bool

/-- the memory of the process, and the static variables -/
structure State where
  mem : ℕ → UInt8
  /-- the texts, unless `environ` is NULL -/
  environ : Option (List (List UInt8))
  /-- the array behind `Argv`, with NULL as 0, unless `Argv` is NULL itself -/
  argv : Option (List ℕ)
  lastArgv : ℕ

/-- `LastArgv`, when it has come to the string `s` -/
def extend (lastArgv : ℕ) (s : Str) : ℕ := if lastArgv + 1 = s.addr then s.last else lastArgv

/-- both loops -/
def lastArgv (argv envp : List Str) : ℕ :=
  match argv with
  | [] => envp.foldl extend 0
  | s :: rest => envp.foldl extend (rest.foldl extend s.last)

/-- the new array, which ends at the first copy that failed; the `i`th is the next -/
def copies (r : Requests) : ℕ → List Str → List (List UInt8)
  | _, [] => []
  | i, s :: envp => if r.strdup i then s.text :: copies r (i + 1) envp else []

def initsetproctitle (r : Requests) (mem : ℕ → UInt8) (argv envp : List Str) : State :=
  if r.malloc then ⟨mem, some (copies r 0 envp), some (argv.map Str.addr ++ [0]), lastArgv argv envp⟩
  else ⟨mem, none, none, 0⟩

def SPT_BUFSIZE : ℕ := 2048

/-- `while (p < LastArgv) *p++ = SPT_PADCHAR`, `n` times -/
def pad (padchar : UInt8) (m : ℕ → UInt8) (p : ℕ) : ℕ → ℕ → UInt8
  | 0 => m
  | n + 1 => pad padchar (putAt m p [padchar]) (p + 1) n

/-- `i`: the length of the text, or what there is room for -/
def cutAt (buf : List UInt8) (room : ℤ) : ℤ := if (buf.length : ℤ) > room then room else buf.length

/-- the end of `_setproctitle`, with the text in `buf` -/
def reuseArgv (padchar : UInt8) (st : State) (argv : List ℕ) (argv0 : ℕ) (buf : List UInt8) : Except Fault State :=
  let i := cutAt buf (st.lastArgv - argv0 - 2)
  -- `buf[i] = '\0'`, and `strcpy` to NULL
  if i < 0 ∨ argv0 = 0 then .error .write
  else
    let mem := putAt st.mem argv0 (buf.take i.toNat ++ [0])
    .ok { st with
      mem := pad padchar mem (argv0 + i.toNat) (st.lastArgv - (argv0 + i.toNat))
      argv := some (argv.set 1 0) }

/-- `setproctitle` and `_setproctitle`, for the formatted text -/
def setproctitle (padchar : UInt8) (st : State) (title : List UInt8) : Except Fault State :=
  match st.argv with
  | none => .error .read
  | some argv => reuseArgv padchar st argv (argv.headD 0) (title.take (SPT_BUFSIZE - 1))

/-- both calls of `main` -/
def entitle (padchar : UInt8) (r : Requests) (mem : ℕ → UInt8) (argv envp : List Str) (title : List UInt8) :
    Except Fault State := setproctitle padchar (initsetproctitle r mem argv envp) title

/-- SPT_PADCHAR on Linux -/
def SPT_PADCHAR : UInt8 := 0

/-! ## How far the strings lie side by side -/

variable {padchar : UInt8} {r : Requests} {mem : ℕ → UInt8} {argv envp strs : List Str} {s : Str}
  {title : List UInt8} {p a : ℕ}

/-- the cell is in one of the strings -/
def InStrings (strs : List Str) (q : ℕ) : Prop := ∃ s ∈ strs, s.addr ≤ q ∧ q ≤ s.last

theorem InStrings.mono {strs' : List Str} {q : ℕ} (h : InStrings strs q) (hsub : strs ⊆ strs') : InStrings strs' q := by
  obtain ⟨s, hs, hq⟩ := h
  exact ⟨s, hsub hs, hq⟩

/-- all cells from `a` to `p` are in the strings -/
def Covered (strs : List Str) (a p : ℕ) : Prop := ∀ q, a ≤ q → q ≤ p → InStrings strs q

theorem Covered.extend (h : Covered strs a p) (s : Str) : Covered (strs ++ [s]) a (extend p s) := by
  intro q hq hle
  unfold Proctitle.extend at hle
  split_ifs at hle with hnext
  · rcases le_or_gt q p with hp | hp
    · exact (h q hq hp).mono (List.subset_append_left _ _)
    · exact ⟨s, List.mem_append_right _ List.mem_cons_self, by omega, hle⟩
  · exact (h q hq hle).mono (List.subset_append_left _ _)

theorem Covered.foldl (more : List Str) (h : Covered strs a p) :
    Covered (strs ++ more) a (more.foldl Proctitle.extend p) := by
  induction more generalizing strs p with
  | nil =>
    rw [List.append_nil]
    exact h
  | cons s more ih =>
    rw [List.append_cons]
    exact ih (h.extend s)

/-- **What is written over** is in the strings of `argv` and `envp`. -/
theorem lastArgv_covered (s : Str) (rest envp : List Str) :
    Covered (s :: rest ++ envp) s.addr (lastArgv (s :: rest) envp) := by
  have hfirst : Covered [s] s.addr s.last := fun q hq hle => ⟨s, List.mem_cons_self, hq, hle⟩
  exact (hfirst.foldl rest).foldl envp

/-- the strings lie side by side -/
def SideBySide (strs : List Str) : Prop := strs.IsChain fun s t => s.last + 1 = t.addr

instance (strs : List Str) : Decidable (SideBySide strs) := inferInstanceAs (Decidable (List.IsChain _ _))

/-- strings side by side are taken in, each with its NUL -/
theorem foldl_sideBySide (h : SideBySide (s :: strs)) : s.last + strs.length ≤ strs.foldl extend s.last ∧
    ∃ t ∈ s :: strs, strs.foldl extend s.last = t.last := by
  induction strs generalizing s with
  | nil => exact ⟨le_rfl, s, List.mem_cons_self, rfl⟩
  | cons t strs ih =>
    obtain ⟨hnext, hrest⟩ := List.isChain_cons_cons.1 h
    obtain ⟨hle, u, hu, hlast⟩ := ih hrest
    have hextend : extend s.last t = t.last := if_pos hnext
    rw [List.foldl_cons, hextend]
    refine ⟨?_, u, List.mem_cons_of_mem s hu, hlast⟩
    have hge : t.addr ≤ t.last := Nat.le_add_right _ _
    rw [List.length_cons]
    omega

theorem lastArgv_eq (s : Str) (rest envp : List Str) :
    lastArgv (s :: rest) envp = (rest ++ envp).foldl extend s.last := by
  rw [lastArgv, List.foldl_append]

/-! ## What is written -/

theorem pad_eq (m : ℕ → UInt8) (p n : ℕ) : pad padchar m p n = putAt m p (List.replicate n padchar) := by
  induction n generalizing m p with
  | zero => exact (putAt_nil m p).symm
  | succ n ih =>
    calc pad padchar m p (n + 1) = putAt (putAt m p [padchar]) (p + 1) (List.replicate n padchar) := ih _ _
      _ = putAt m p ([padchar] ++ List.replicate n padchar) := putAt_append
      _ = putAt m p (List.replicate (n + 1) padchar) := by rw [List.replicate_succ, List.singleton_append]

/-- the part of the title there is room for -/
def shown (title : List UInt8) (room : ℕ) : List UInt8 := (title.take (SPT_BUFSIZE - 1)).take room

theorem setproctitle_cons {st : State} {argv : List ℕ} (hargv : st.argv = some (a :: argv)) (title : List UInt8) :
    setproctitle padchar st title = reuseArgv padchar st (a :: argv) a (title.take (SPT_BUFSIZE - 1)) := by
  simp only [setproctitle, hargv]
  rfl

/-- `setproctitle` with room for SPT_PADCHAR twice -/
theorem setproctitle_eq {st : State} {argv : List ℕ} (hargv : st.argv = some (a :: argv)) (ha : a ≠ 0)
    (hroom : a + 2 ≤ st.lastArgv) (title : List UInt8) :
    setproctitle padchar st title = .ok { st with
      mem := putAt st.mem a (shown title (st.lastArgv - a - 2) ++
        List.replicate (st.lastArgv - a - (shown title (st.lastArgv - a - 2)).length) padchar)
      argv := some ((a :: argv).set 1 0) } := by
  obtain ⟨buf, hbuf⟩ : ∃ buf, title.take (SPT_BUFSIZE - 1) = buf := ⟨_, rfl⟩
  obtain ⟨room, hlast⟩ := Nat.exists_eq_add_of_le hroom
  have hr : st.lastArgv - a - 2 = room := by omega
  have hi : cutAt buf ((st.lastArgv : ℤ) - a - 2) = ((min room buf.length : ℕ) : ℤ) := by
    unfold cutAt
    split_ifs with hbig
    · omega
    · omega
  have htake : buf.take (min room buf.length) = buf.take room := by
    rw [← List.take_take, List.take_length]
  have hlen : (buf.take room).length = min room buf.length := List.length_take
  simp only [setproctitle_cons hargv, reuseArgv, hbuf, hi, Int.toNat_natCast, shown, hr]
  rw [if_neg (by omega), htake, pad_eq, ← hlen]
  have hpad : putAt (putAt st.mem a (buf.take room ++ [0])) (a + (buf.take room).length)
      (List.replicate (st.lastArgv - (a + (buf.take room).length)) padchar) =
      putAt st.mem a (buf.take room ++ List.replicate (st.lastArgv - (a + (buf.take room).length)) padchar) := by
    apply putAt_over
    rw [List.length_singleton, List.length_replicate]
    omega
  rw [hpad, Nat.sub_sub]

/-- without room the NUL behind the title is stored before the buffer -/
theorem setproctitle_ok_iff {st : State} {argv : List ℕ} (hargv : st.argv = some (a :: argv)) (title : List UInt8) :
    (∃ st', setproctitle padchar st title = .ok st') ↔ a ≠ 0 ∧ a + 2 ≤ st.lastArgv := by
  constructor
  · rintro ⟨st', hst⟩
    rw [setproctitle_cons hargv, reuseArgv] at hst
    split_ifs at hst with hno
    obtain ⟨hpos, ha⟩ := not_or.1 hno
    unfold cutAt at hpos
    refine ⟨ha, ?_⟩
    split_ifs at hpos with hbig
    · omega
    · omega
  · rintro ⟨ha, hroom⟩
    exact ⟨_, setproctitle_eq hargv ha hroom title⟩

/-- what `setproctitle` has changed lies between `argv[0]` and `LastArgv` -/
theorem setproctitle_changed {st st' : State} {argv : List ℕ} (hargv : st.argv = some (a :: argv))
    (hst : setproctitle padchar st title = .ok st') {q : ℕ} (hq : st'.mem q ≠ st.mem q) : a ≤ q ∧ q < st.lastArgv := by
  obtain ⟨ha, hroom⟩ := (setproctitle_ok_iff hargv title).1 ⟨st', hst⟩
  rw [setproctitle_eq hargv ha hroom] at hst
  obtain rfl := Except.ok.inj hst
  obtain ⟨hge, hlt⟩ := putAt_changed hq
  have hshort : (shown title (st.lastArgv - a - 2)).length ≤ st.lastArgv - a - 2 := by
    rw [shown, List.length_take]
    exact Nat.min_le_left _ _
  rw [List.length_append, List.length_replicate] at hlt
  exact ⟨hge, by omega⟩

/-- whatever was changed is in the strings -/
theorem entitle_changed {st : State} (hst : entitle padchar r mem argv envp title = .ok st) {q : ℕ}
    (hq : st.mem q ≠ mem q) : InStrings (argv ++ envp) q := by
  unfold entitle initsetproctitle at hst
  split_ifs at hst
  · cases argv with
    | nil => exact absurd rfl ((setproctitle_ok_iff rfl title).1 ⟨st, hst⟩).1
    | cons s rest =>
      obtain ⟨hge, hlt⟩ := setproctitle_changed rfl hst hq
      exact lastArgv_covered s rest envp q hge hlt.le
  · cases hst

/-! ## Main results -/

/-- **When the title is written, and where**, for any strings anywhere. The functions fault unless there was memory for
the new environment and `LastArgv` is at least two cells behind `argv[0]`, and only then; and when they do not, all the
cells they have changed are in the strings of `argv` and `envp`. -/
theorem entitles_iff (padchar : UInt8) (r : Requests) (mem : ℕ → UInt8) (argv envp : List Str) (title : List UInt8) :
    ((∃ st, entitle padchar r mem argv envp title = .ok st) ↔
      r.malloc = true ∧ ∃ s rest, argv = s :: rest ∧ s.addr ≠ 0 ∧ s.addr + 2 ≤ lastArgv argv envp) ∧
    ∀ st, entitle padchar r mem argv envp title = .ok st → ∀ q, st.mem q ≠ mem q → InStrings (argv ++ envp) q := by
  refine ⟨?_, fun st hst q hq => entitle_changed hst hq⟩
  unfold entitle initsetproctitle
  cases hm : r.malloc with
  | false =>
    constructor
    · rintro ⟨st, hst⟩
      cases hst
    · rintro ⟨hmalloc, -⟩
      cases hmalloc
  | true =>
    rw [if_pos rfl]
    cases argv with
    | nil =>
      rw [setproctitle_ok_iff rfl]
      constructor
      · rintro ⟨hne, -⟩
        exact absurd rfl hne
      · rintro ⟨-, s, rest, heq, -⟩
        cases heq
    | cons s rest =>
      rw [setproctitle_ok_iff rfl]
      constructor
      · rintro ⟨hne, hroom⟩
        exact ⟨rfl, s, rest, rfl, hne, hroom⟩
      · rintro ⟨-, s', rest', heq, hne, hroom⟩
        obtain ⟨rfl, rfl⟩ := List.cons.inj heq
        exact ⟨hne, hroom⟩

theorem copies_eq (hdup : ∀ i, r.strdup i = true) (i : ℕ) (envp : List Str) : copies r i envp = envp.map Str.text := by
  induction envp generalizing i with
  | nil => rfl
  | cons s envp ih => rw [copies, if_pos (hdup i), ih, List.map_cons]

/-- the title was written and nothing else was touched; `argv[0]` is at `a` -/
structure Titled (padchar : UInt8) (mem : ℕ → UInt8) (argv envp : List Str) (title : List UInt8) (a : ℕ)
    (st : State) : Prop where
  /-- from `argv[0]` on, the title and SPT_PADCHAR at least twice, and a NUL at `LastArgv` -/
  cells : ∃ n, 2 ≤ n ∧ a + (shown title (st.lastArgv - a - 2)).length + n = st.lastArgv ∧
    HoldsAt st.mem a (shown title (st.lastArgv - a - 2) ++ List.replicate n padchar ++ [0])
  /-- padded with NULs, the string at `argv[0]` is the title -/
  title : padchar = 0 → StringAt st.mem a (shown title (st.lastArgv - a - 2))
  frame : ∀ q, st.mem q ≠ mem q → InStrings (argv ++ envp) q
  environ : st.environ = some (envp.map Str.text)

/-- **The title, in the memory that a kernel lays out.** When the strings of `argv` and `envp` lie side by side, there
are three arguments at least, and there is memory for the new environment, then the calls of `main` stay within their
memory for every title: from `argv[0]` to `LastArgv` there is as much of it as there is room for, with SPT_PADCHAR at
least twice and a NUL behind it, so that with NULs for SPT_PADCHAR it is the new string at `argv[0]`; no cell outside of
the strings is touched, and the variables of the environment are what they were. -/
theorem titled (padchar : UInt8) (hmalloc : r.malloc = true) (hdup : ∀ i, r.strdup i = true) {rest : List Str}
    (hside : SideBySide (s :: rest ++ envp)) (h3 : 3 ≤ (s :: rest).length) (haddr : s.addr ≠ 0)
    (hstr : ∀ t ∈ s :: rest ++ envp, StringAt mem t.addr t.text) (htitle : 0 ∉ title) :
    ∃ st, entitle padchar r mem (s :: rest) envp title = .ok st ∧
      Titled padchar mem (s :: rest) envp title s.addr st := by
  have hcons : SideBySide (s :: (rest ++ envp)) := hside
  obtain ⟨hle, t, ht, hlast⟩ := foldl_sideBySide hcons
  rw [← lastArgv_eq] at hle hlast
  have hroom : s.addr + 2 ≤ lastArgv (s :: rest) envp := by
    have hge : s.addr ≤ s.last := Nat.le_add_right _ _
    rw [List.length_append] at hle
    rw [List.length_cons] at h3
    omega
  obtain ⟨k, hk⟩ : ∃ k, lastArgv (s :: rest) envp - s.addr - 2 = k := ⟨_, rfl⟩
  have hshort : (shown title k).length ≤ k := by
    rw [shown, List.length_take]
    exact Nat.min_le_left _ _
  have hargv : (initsetproctitle r mem (s :: rest) envp).argv = some (s.addr :: (rest.map Str.addr ++ [0])) := by
    rw [initsetproctitle, if_pos hmalloc]
    rfl
  have hset := @setproctitle_eq padchar _ _ _ hargv haddr (by rw [initsetproctitle, if_pos hmalloc]; exact hroom) title
  have hmem : (initsetproctitle r mem (s :: rest) envp).mem = mem := by rw [initsetproctitle, if_pos hmalloc]
  have hlastArgv : (initsetproctitle r mem (s :: rest) envp).lastArgv = lastArgv (s :: rest) envp := by
    rw [initsetproctitle, if_pos hmalloc]
  have henviron : (initsetproctitle r mem (s :: rest) envp).environ = some (envp.map Str.text) := by
    rw [initsetproctitle, if_pos hmalloc, copies_eq hdup]
  rw [hmem, hlastArgv, hk] at hset
  obtain ⟨n, hn⟩ : ∃ n, lastArgv (s :: rest) envp - s.addr - (shown title k).length = n := ⟨_, rfl⟩
  have hlen : s.addr + (shown title k ++ List.replicate n padchar).length = lastArgv (s :: rest) envp := by
    rw [List.length_append, List.length_replicate]
    omega
  have hcells : HoldsAt (putAt mem s.addr (shown title k ++ List.replicate n padchar)) s.addr
      (shown title k ++ List.replicate n padchar ++ [0]) := by
    -- the NUL behind it is the one of the last string
    refine holdsAt_append.2 ⟨holdsAt_putAt, holdsAt_singleton.2 ?_⟩
    rw [putAt_of_ge le_rfl, hlen, hlast]
    exact (hstr t ht).stop
  rw [hn] at hset
  refine ⟨_, hset, ⟨n, by omega, by simp only [hk]; omega, by simp only [hk]; exact hcells⟩, ?_,
    fun q hq => entitle_changed hset hq, henviron⟩
  rintro rfl
  simp only [hk]
  obtain ⟨j, rfl⟩ := Nat.exists_eq_add_of_le' (show 1 ≤ n by omega)
  rw [List.replicate_succ, List.append_assoc, List.cons_append] at hcells
  refine hcells.string ?_
  intro h0
  exact htitle (List.mem_of_mem_take (List.mem_of_mem_take h0))

/-- the memory with the strings in it -/
def laidOut (strs : List Str) : ℕ → UInt8 := strs.foldl (fun m s => putAt m s.addr s.text) fun _ => 0

def program : Str := ⟨4096, ascii ['u', 'd', 't', 'r', 'e', 'l', 'a', 'y']⟩

def operands : List Str := [⟨4105, ascii ['1']⟩, ⟨4107, ascii ['2']⟩, ⟨4109, ascii ['h']⟩]

def environment : List Str := [⟨4111, ascii ['A', '=', 'b']⟩]

/-- `udtrelay: arriving`, for which there is no room -/
def arriving : List UInt8 :=
  ascii ['u', 'd', 't', 'r', 'e', 'l', 'a', 'y', ':', ' ', 'a', 'r', 'r', 'i', 'v', 'i', 'n', 'g']

theorem laidOut_strings : ∀ t ∈ program :: operands ++ environment,
    StringAt (laidOut (program :: operands ++ environment)) t.addr t.text := by
  have hall : ∀ t ∈ program :: operands ++ environment,
      (∀ i (h : i < t.text.length), laidOut (program :: operands ++ environment) (t.addr + i) = t.text[i]) ∧
        0 ∉ t.text ∧ laidOut (program :: operands ++ environment) (t.addr + t.text.length) = 0 := by decide
  intro t ht
  exact ⟨(hall t ht).1, (hall t ht).2.1, (hall t ht).2.2⟩

/-- sixteen characters of it are the new string -/
theorem titled_arriving :
    ∃ st, entitle SPT_PADCHAR ⟨true, fun _ => true⟩ (laidOut (program :: operands ++ environment)) (program :: operands)
        environment arriving = .ok st ∧ st.environ = some [ascii ['A', '=', 'b']] ∧
      StringAt st.mem 4096 (arriving.take 16) := by
  have hall : ∃ st, entitle SPT_PADCHAR ⟨true, fun _ => true⟩ (laidOut (program :: operands ++ environment))
      (program :: operands) environment arriving = .ok st ∧
        Titled SPT_PADCHAR (laidOut (program :: operands ++ environment)) (program :: operands) environment arriving
          4096 st :=
    titled SPT_PADCHAR rfl (fun _ => rfl) (by decide) (by decide) (by decide) laidOut_strings (by decide)
  obtain ⟨st, hst, htitled⟩ := hall
  have hlast : st.lastArgv = 4114 := by
    have hany : (entitle SPT_PADCHAR ⟨true, fun _ => true⟩ (laidOut (program :: operands ++ environment))
        (program :: operands) environment arriving).toOption.map State.lastArgv = some 4114 := by decide
    rw [hst] at hany
    exact Option.some.inj hany
  have hstring := htitled.title rfl
  rw [hlast] at hstring
  exact ⟨st, hst, htitled.environ, hstring⟩

end Proctitle

end UdtGate
