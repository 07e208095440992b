/-
`check_udp_buffer` against a system with a limit: calls for one option and one requested size, one after the other.

The system accepts a size up to the limit `L` and no other, and a socket whose size it accepted can be bound. The option
has a custom value or UDT's own, `r` in both cases. A run is any number of calls of the function; what it has found out
lies in its static variables from one call to the next.

- `settled`: where the halving comes to rest. It stops at an accepted size, or below the floor of the loop.
- `Inv`: what each point of the function knows of the static variables.
- `Respects`: what the function is for, in every state of a run.
- `respects_iff`: for which limits and sizes it does that.
-/
import UdtGate.UdpBuffer

namespace UdtGate

open UdtGate.Core

namespace UdpLimit

/-! ## Model -/

/-- the static variables of both directions -/
structure Statics where
  chk : Buf → ℕ := fun _ => 0
  max : Buf → ℕ := fun _ => 0
  warned : Buf → Bool := fun _ => false

def Statics.after (m : Statics) : Check.Call → Statics
  | .storeChk b size => { m with chk := Function.update m.chk b size }
  | .storeMax b size => { m with max := Function.update m.max b size }
  | .storeWarned b => { m with warned := Function.update m.warned b true }
  | _ => m

/-- the answers of the static variables, of UDT for its own value of the option, and of a system with the limit `L` -/
def answers (L r : ℕ) (m : Statics) (c : Check.Call) (rc : ℤ) : Bool :=
  match c with
  | .udtGetsockopt .. => rc = r
  | .loadChk b => rc = m.chk b
  | .loadMax b => rc = m.max b
  | .loadWarned b => decide (rc ≠ 0) = m.warned b
  | .setsockopt _ _ sz => decide (rc = 0) = decide (sz ≤ L)
  | .bind _ => rc = 0
  | _ => true

/-- the size that a call puts on the UDT socket -/
def installs (i : Option ℤ) : Check.Call → Option ℤ
  | .udtSetsockopt _ _ value => some value
  | _ => i

/-- a call of `check_udp_buffer`, the static variables, and what it has put on its UDT socket so far -/
structure Repeated where
  check : Check
  mem : Statics
  installed : Option ℤ

def answer (L r : ℕ) (s : Repeated) (rc : ℤ) : Option Repeated :=
  match s.check.call with
  | none => none
  | some c =>
    if answers L r s.mem c rc then some ⟨s.check.resume rc, s.mem.after c, installs s.installed c⟩ else none

/-- one call, to its end -/
def oneCall (L r : ℕ) (s : Repeated) : System Repeated ℤ := ⟨fun t => t = s, answer L r⟩

def enter (options : UdtOptions) (b : Buf) (sock : ℤ) (mem : Statics) : Repeated :=
  ⟨Check.start options sock b, mem, none⟩

inductive Label where
  | answer (rc : ℤ)
  /-- after a return the function is called again, for the same option of any socket -/
  | again (sock : ℤ)
deriving DecidableEq

def step (options : UdtOptions) (b : Buf) (L r : ℕ) (s : Repeated) : Label → Option Repeated
  | .answer rc => answer L r s rc
  | .again sock =>
    match s.check.pc with
    | .returned _ => some (enter options b sock s.mem)
    | _ => none

def system (options : UdtOptions) (b : Buf) (L r : ℕ) : System Repeated Label :=
  ⟨fun s => ∃ sock, s = enter options b sock {}, step options b L r⟩

/-- `is_custom_value` -/
def isCustomValue (options : UdtOptions) (b : Buf) : Bool := (options.lookup b.optcode).isSome

/-- the requested size is `r` if it is a custom value -/
def Requests (options : UdtOptions) (b : Buf) (r : ℕ) : Prop :=
  options.lookup b.optcode = none ∨ options.lookup b.optcode = some (r : ℤ)

/-! ## What the function is for -/

/-- the call is over: the function has returned, or the process has ended -/
def Over (s : Repeated) : Prop := s.check.call = none

/-- A size within the limit is left alone. One beyond it ends the process when it was asked for, with a maximum that is
within the limit, and is replaced by a size within the limit when it was not. -/
def Respects (L r : ℕ) (custom : Bool) (s : Repeated) : Prop :=
  if r ≤ L then
    (∀ ok, s.check.pc = .returned ok → ok = true) ∧ (∀ n, s.check.pc ≠ .died n) ∧ ∀ v, s.installed = some v → r ≤ v
  else if custom then
    (∀ ok, s.check.pc ≠ .returned ok) ∧ ∀ n, s.check.pc = .died n → n ≤ L
  else
    (∀ n, s.check.pc ≠ .died n) ∧
      ∀ ok, s.check.pc = .returned ok → ok = false ∧ ∃ v, s.installed = some v ∧ 0 < v ∧ v ≤ L

/-! ## The halving -/

/-- where the loop comes to rest: at a size that is accepted, or is below its floor -/
def settled (L : ℕ) (sz : ℕ) : ℕ := if 8096 < sz ∧ L < sz then settled L (sz / 2) else sz
termination_by sz
decreasing_by omega

variable {L r sz : ℕ}

theorem settled_halve (h : 8096 < sz) (hL : L < sz) : settled L sz = settled L (sz / 2) := by
  rw [settled, if_pos ⟨h, hL⟩]

theorem settled_stop (h : ¬ (8096 < sz ∧ L < sz)) : settled L sz = sz := by
  rw [settled, if_neg h]

theorem settled_le (L sz : ℕ) : settled L sz ≤ sz := by
  induction sz using settled.induct L with
  | case1 sz h ih =>
    rw [settled_halve h.1 h.2]
    omega
  | case2 sz h => exact (settled_stop h).le

theorem settled_pos (h : 0 < sz) : 0 < settled L sz := by
  induction sz using settled.induct L with
  | case1 sz h' ih =>
    rw [settled_halve h'.1 h'.2]
    exact ih (by omega)
  | case2 sz h' =>
    rw [settled_stop h']
    exact h

/-- the loop comes to rest within the limit when it gets there before it gets below the floor -/
theorem settled_le_iff (h : 8096 < sz) (hL : L < sz) :
    settled L sz ≤ L ↔ ∃ k, 8096 < sz / 2 ^ k ∧ sz / 2 ^ (k + 1) ≤ L := by
  induction sz using settled.induct L with
  | case1 sz h' ih =>
    have hshift (k : ℕ) : sz / 2 / 2 ^ k = sz / 2 ^ (k + 1) := by rw [Nat.div_div_eq_div_mul, pow_succ']
    rw [settled_halve h hL]
    by_cases hgo : 8096 < sz / 2 ∧ L < sz / 2
    · rw [ih hgo.1 hgo.2]
      constructor
      · rintro ⟨k, hk, hk'⟩
        rw [hshift] at hk hk'
        exact ⟨k + 1, hk, hk'⟩
      · rintro ⟨k, hk, hk'⟩
        cases k with
        | zero =>
          rw [Nat.zero_add, pow_one] at hk'
          omega
        | succ k => exact ⟨k, by rw [hshift]; exact hk, by rw [hshift]; exact hk'⟩
    · rw [settled_stop hgo]
      constructor
      · intro hle
        exact ⟨0, by rw [pow_zero, Nat.div_one]; exact h, by rw [Nat.zero_add, pow_one]; exact hle⟩
      · rintro ⟨k, hk, hk'⟩
        cases k with
        | zero => rwa [Nat.zero_add, pow_one] at hk'
        | succ k =>
          -- the halves only get smaller, so the first of them is above the floor
          have hle : sz / 2 / 2 ^ k ≤ sz / 2 := Nat.div_le_self _ _
          rw [hshift] at hle
          omega
  | case2 sz h' => exact absurd ⟨h, hL⟩ h'

/-! ## The invariant -/

/-- the system accepts the size, and the loop gets to try it -/
def Accepted (L r : ℕ) : Prop := 8096 < r ∧ r ≤ L

theorem not_accepted_of_lt (h : L < r) : ¬ Accepted L r := fun ha => absurd ha.2 (not_le.2 h)

/-- the maximum that is found for a size that is not accepted; below the floor of the loop there is none -/
def limit (L r : ℕ) : ℕ := if 8096 < r then settled L r else 0

theorem limit_lt (hr : 0 < r) (h : ¬ Accepted L r) : limit L r < r := by
  unfold limit
  split_ifs with hfloor
  · have hL : L < r := by
      by_contra hle
      exact h ⟨hfloor, not_lt.1 hle⟩
    have hle := settled_le L (r / 2)
    rw [settled_halve hfloor hL]
    omega
  · exact hr

/-- the size at which the loop came to rest -/
theorem limit_of_settled (hr : 8096 < r) (hset : settled L sz = settled L r) (hstop : ¬ (8096 < sz ∧ L < sz)) :
    limit L r = sz := by
  rw [limit, if_pos hr, ← hset, settled_stop hstop]

variable {b : Buf} {m : Statics} {s t : Repeated} {rc : ℤ}

/-- nothing was found out yet -/
def Fresh (b : Buf) (m : Statics) : Prop := m.chk b = 0 ∧ m.max b = 0

/-- the size was accepted -/
def Took (L r : ℕ) (b : Buf) (m : Statics) : Prop := Accepted L r ∧ m.chk b = r ∧ m.max b = 0

/-- the size was not accepted -/
def Refused (L r : ℕ) (b : Buf) (m : Statics) : Prop :=
  ¬ Accepted L r ∧ m.max b = limit L r ∧ m.chk b ≤ limit L r

/-- inside the loop, at the size `sz`: the one that was requested, or one that came of halving it -/
def Looping (L r : ℕ) (b : Buf) (m : Statics) (sz : ℕ) : Prop :=
  8096 < sz ∧ sz ≤ r ∧ settled L sz = settled L r ∧ (sz = r ∧ m.max b = 0 ∨ L < r ∧ m.max b = sz)

/-- what a point of the function knows of the static variables, and of what it has done -/
def At (L r : ℕ) (custom : Bool) (s : Repeated) : Check.Pc → Prop
  | .getsockopt =>
    custom = false ∧ s.installed = none ∧
      (Fresh s.check.buf s.mem ∨ Took L r s.check.buf s.mem ∨ Refused L r s.check.buf s.mem)
  | .chkSet =>
    s.check.size = r ∧ s.installed = none ∧
      (Fresh s.check.buf s.mem ∨ Took L r s.check.buf s.mem ∨ Refused L r s.check.buf s.mem)
  | .chkEnough =>
    s.check.size = r ∧ s.installed = none ∧ (Took L r s.check.buf s.mem ∨ Refused L r s.check.buf s.mem)
  | .maxUnset =>
    s.check.size = r ∧ s.installed = none ∧ (Fresh s.check.buf s.mem ∨ Refused L r s.check.buf s.mem)
  | .socket => s.check.size = r ∧ s.installed = none ∧ Fresh s.check.buf s.mem
  | .sockopt =>
    s.check.size = r ∧ s.installed = none ∧ s.mem.chk s.check.buf = 0 ∧
      ∃ sz : ℕ, s.check.sz = sz ∧ Looping L r s.check.buf s.mem sz
  | .bind | .closeBound | .chkLess | .chkStore =>
    s.check.size = r ∧ s.installed = none ∧ s.mem.chk s.check.buf = 0 ∧
      ∃ sz : ℕ, s.check.sz = sz ∧ Looping L r s.check.buf s.mem sz ∧ sz ≤ L
  | .maxFirst =>
    s.check.size = r ∧ s.installed = none ∧
      ∃ sz : ℕ, s.mem.chk s.check.buf = sz ∧ Looping L r s.check.buf s.mem sz ∧ sz ≤ L
  | .maxStore =>
    s.check.size = r ∧ s.installed = none ∧ s.mem.chk s.check.buf = 0 ∧
      ∃ sz : ℕ, s.check.sz = sz ∧ Looping L r s.check.buf s.mem sz ∧ L < sz
  | .closeLast | .maxLess => s.check.size = r ∧ s.installed = none ∧ Refused L r s.check.buf s.mem
  | .dieLoad => custom = true ∧ s.installed = none ∧ Refused L r s.check.buf s.mem
  | .warnedLoad | .warnedStore | .lowerLoad =>
    custom = false ∧ s.installed = none ∧ Refused L r s.check.buf s.mem
  | .lower v => custom = false ∧ s.installed = none ∧ v = limit L r ∧ Refused L r s.check.buf s.mem
  | .keep => False
  | .returned ok =>
    (ok = true ∧ s.installed = none ∧ Took L r s.check.buf s.mem) ∨
      (ok = false ∧ custom = false ∧ s.installed = some (limit L r : ℤ) ∧ Refused L r s.check.buf s.mem)
  | .died n => custom = true ∧ s.installed = none ∧ n = limit L r ∧ ¬ Accepted L r

/-- the call is for the option `b`, and is where it may be -/
structure Inv (L r : ℕ) (b : Buf) (custom : Bool) (s : Repeated) : Prop where
  buf : s.check.buf = b
  custom_eq : s.check.custom = custom
  point : At L r custom s s.check.pc

theorem answer_cases (hs : answer L r s rc = some t) :
    ∃ c, s.check.call = some c ∧ answers L r s.mem c rc = true ∧
      t = ⟨s.check.resume rc, s.mem.after c, installs s.installed c⟩ := by
  unfold answer at hs
  cases hc : s.check.call with
  | none => rw [hc] at hs; cases hs
  | some c =>
    rw [hc] at hs
    simp only at hs
    split_ifs at hs with hok
    exact ⟨c, rfl, hok, (Option.some.inj hs).symm⟩

theorem loop_buf (k : Check) : k.loop.buf = k.buf := by
  unfold Check.loop
  split_ifs
  · rfl
  · rfl

theorem loop_custom (k : Check) : k.loop.custom = k.custom := by
  unfold Check.loop
  split_ifs
  · rfl
  · rfl

/-- the test of the loop, at the requested size or at what came of halving one that was refused -/
theorem at_loop (custom : Bool) (check : Check) (hsize : check.size = r) (hsz : check.sz = (sz : ℤ))
    (hchk : m.chk check.buf = 0) (hle : sz ≤ r)
    (hm : sz = r ∧ m.max check.buf = 0 ∨ 8096 < r ∧ L < r ∧ settled L sz = settled L r ∧ m.max check.buf = sz) :
    At L r custom ⟨check.loop, m, none⟩ check.loop.pc := by
  unfold Check.loop
  split_ifs with hfloor
  · have hbig : 8096 < sz := by omega
    refine ⟨hsize, rfl, hchk, sz, hsz, hbig, hle, ?_⟩
    rcases hm with ⟨heq, hmax⟩ | ⟨-, hL, hset, hmax⟩
    · exact ⟨by rw [heq], Or.inl ⟨heq, hmax⟩⟩
    · exact ⟨hset, Or.inr ⟨hL, hmax⟩⟩
  · have hsmall : ¬ 8096 < sz := by omega
    refine ⟨hsize, rfl, ?_⟩
    rcases hm with ⟨rfl, hmax⟩ | ⟨hr, hL, hset, hmax⟩
    · have hlim : limit L sz = 0 := if_neg hsmall
      exact ⟨fun ha => hsmall ha.1, hmax.trans hlim.symm, hchk.le.trans (Nat.zero_le _)⟩
    · have hlim : limit L r = sz := limit_of_settled hr hset fun h => hsmall h.1
      exact ⟨not_accepted_of_lt hL, hmax.trans hlim.symm, hchk.le.trans (Nat.zero_le _)⟩

theorem toUnsigned_natCast (h : sz < 2 ^ 31) : toUnsigned (sz : ℤ) = sz := by
  rw [toUnsigned]
  omega

theorem tdiv_two (sz : ℕ) : (sz : ℤ).tdiv 2 = ((sz / 2 : ℕ) : ℤ) := (Int.ofNat_tdiv sz 2).symm

/-- **Step lemma.** An answer leads from one point to the next. -/
theorem answer_inv {custom : Bool} (hr : 0 < r) (hr' : r < 2 ^ 31) (hi : Inv L r b custom s)
    (hs : answer L r s rc = some t) : Inv L r b custom t := by
  obtain ⟨c, hc, hok, rfl⟩ := answer_cases hs
  obtain ⟨⟨sock, buf, cust, pc, size, sz, sd⟩, mem, inst⟩ := s
  obtain ⟨hb, hcust, hp⟩ := hi
  simp only at hb hcust hp
  subst hb
  subst hcust
  cases pc with
  | getsockopt =>
    cases hc
    obtain ⟨hno, hinst, hm⟩ := hp
    have hrc : rc = r := of_decide_eq_true hok
    refine ⟨rfl, rfl, ?_, hinst, hm⟩
    show toUnsigned rc = r
    rw [hrc, toUnsigned_natCast hr']
  | chkSet =>
    cases hc
    simp only [At] at hp
    obtain ⟨rfl, hinst, hm⟩ := hp
    have hrc : rc = mem.chk buf := of_decide_eq_true hok
    simp only [Check.resume]
    split_ifs with hpos
    · refine ⟨rfl, rfl, rfl, hinst, ?_⟩
      rcases hm with hfresh | hrest
      · rw [hrc, hfresh.1] at hpos
        exact absurd hpos (lt_irrefl _)
      · exact hrest
    · refine ⟨rfl, rfl, rfl, hinst, ?_⟩
      rcases hm with hfresh | htook | href
      · exact Or.inl hfresh
      · rw [hrc, htook.2.1] at hpos
        omega
      · exact Or.inr href
  | chkEnough =>
    cases hc
    simp only [At] at hp
    obtain ⟨rfl, hinst, hm⟩ := hp
    have hrc : rc = mem.chk buf := of_decide_eq_true hok
    simp only [Check.resume]
    split_ifs with hle
    · refine ⟨rfl, rfl, Or.inl ⟨rfl, hinst, ?_⟩⟩
      rcases hm with htook | href
      · exact htook
      · have hlt := limit_lt hr href.1
        have hchk := href.2.2
        rw [hrc] at hle
        omega
    · refine ⟨rfl, rfl, rfl, hinst, ?_⟩
      rcases hm with htook | href
      · rw [hrc, htook.2.1] at hle
        exact absurd le_rfl hle
      · exact Or.inr href
  | maxUnset =>
    cases hc
    simp only [At] at hp
    obtain ⟨rfl, hinst, hm⟩ := hp
    have hrc : rc = mem.max buf := of_decide_eq_true hok
    simp only [Check.resume]
    split_ifs with h0
    · refine ⟨rfl, rfl, rfl, hinst, ?_⟩
      rcases hm with hfresh | href
      · exact hfresh
      · have hmax : mem.max buf = 0 := by omega
        have hchk := href.2.2
        rw [← href.2.1, hmax] at hchk
        exact ⟨Nat.le_zero.1 hchk, hmax⟩
    · refine ⟨rfl, rfl, rfl, hinst, ?_⟩
      rcases hm with hfresh | href
      · rw [hrc, hfresh.2] at h0
        exact absurd rfl h0
      · exact href
  | socket =>
    cases hc
    simp only [At] at hp
    obtain ⟨rfl, rfl, hfresh⟩ := hp
    have hloop := at_loop (L := L) (m := mem) cust ⟨sock, buf, cust, .socket, size, toInt size, rc⟩ rfl
      (toInt_of_lt hr') hfresh.1 le_rfl (Or.inl ⟨rfl, hfresh.2⟩)
    exact ⟨loop_buf _, loop_custom _, hloop⟩
  | sockopt =>
    cases hc
    simp only [At] at hp
    obtain ⟨rfl, rfl, hchk, n, rfl, hloop⟩ := hp
    have hrc : (rc = 0) = ((n : ℤ) ≤ L) := by simpa [answers] using hok
    simp only [Check.resume]
    split_ifs with h0
    · rw [hrc] at h0
      exact ⟨rfl, rfl, rfl, rfl, hchk, n, rfl, hloop, Int.ofNat_le.1 h0⟩
    · rw [hrc] at h0
      exact ⟨rfl, rfl, rfl, rfl, hchk, n, rfl, hloop, Int.ofNat_lt.1 (not_le.1 h0)⟩
  | bind =>
    cases hc
    have h0 : rc = 0 := of_decide_eq_true hok
    simp only [Check.resume, if_pos h0]
    exact ⟨rfl, rfl, hp⟩
  | closeBound =>
    cases hc
    exact ⟨rfl, rfl, hp⟩
  | chkLess =>
    cases hc
    simp only [At] at hp
    obtain ⟨rfl, rfl, hchk, n, rfl, hloop, hle⟩ := hp
    have hrc : rc = mem.chk buf := of_decide_eq_true hok
    have hn : toUnsigned (n : ℤ) = n := toUnsigned_natCast (lt_of_le_of_lt hloop.2.1 hr')
    have hlt : rc < toUnsigned (n : ℤ) := by
      have hbig := hloop.1
      rw [hn, hrc, hchk]
      omega
    simp only [Check.resume, if_pos hlt]
    exact ⟨rfl, rfl, rfl, rfl, hchk, n, rfl, hloop, hle⟩
  | chkStore =>
    cases hc
    simp only [At] at hp
    obtain ⟨rfl, rfl, hchk, n, rfl, hloop, hle⟩ := hp
    refine ⟨rfl, rfl, rfl, rfl, n, ?_, hloop, hle⟩
    show Function.update mem.chk buf (toUnsigned (n : ℤ)) buf = n
    rw [Function.update_self, toUnsigned_natCast (lt_of_le_of_lt hloop.2.1 hr')]
  | maxFirst =>
    cases hc
    simp only [At] at hp
    obtain ⟨rfl, rfl, n, hchk, ⟨hbig, hnr, hset, hmax⟩, hle⟩ := hp
    have hrc : rc = mem.max buf := of_decide_eq_true hok
    simp only [Check.resume]
    split_ifs with h0
    · rcases hmax with ⟨rfl, hmax⟩ | ⟨-, hmax⟩
      · exact ⟨rfl, rfl, Or.inl ⟨rfl, rfl, ⟨hbig, hle⟩, hchk, hmax⟩⟩
      · omega
    · rcases hmax with ⟨-, hmax⟩ | ⟨hL, hmax⟩
      · rw [hrc, hmax] at h0
        exact absurd rfl h0
      · have hlim : limit L size = n :=
          limit_of_settled (lt_of_lt_of_le hbig hnr) hset fun h => absurd hle (not_le.2 h.2)
        refine ⟨rfl, rfl, rfl, rfl, not_accepted_of_lt hL, hmax.trans hlim.symm, ?_⟩
        show mem.chk buf ≤ limit L size
        rw [hchk, hlim]
  | maxStore =>
    cases hc
    simp only [At] at hp
    obtain ⟨rfl, rfl, hchk, n, rfl, ⟨hbig, hnr, hset, -⟩, hL⟩ := hp
    have hhalf : toUnsigned ((n : ℤ).tdiv 2) = n / 2 := by
      rw [tdiv_two, toUnsigned_natCast (by omega)]
    have hloop := at_loop (L := L) (r := size) (m := mem.after (.storeMax buf (toUnsigned ((n : ℤ).tdiv 2))))
      cust ⟨sock, buf, cust, .maxStore, size, (n : ℤ).tdiv 2, sd⟩ rfl (tdiv_two n) hchk (by omega)
      (Or.inr ⟨by omega, by omega, (settled_halve hbig hL).symm.trans hset,
        (Function.update_self _ _ _).trans hhalf⟩)
    exact ⟨loop_buf _, loop_custom _, hloop⟩
  | closeLast =>
    cases hc
    exact ⟨rfl, rfl, hp⟩
  | maxLess =>
    cases hc
    simp only [At] at hp
    obtain ⟨rfl, rfl, href⟩ := hp
    have hrc : rc = mem.max buf := of_decide_eq_true hok
    have hlt : (size : ℤ) > rc := by
      have hlim := limit_lt hr href.1
      rw [hrc, href.2.1]
      omega
    simp only [Check.resume, if_pos hlt]
    cases cust with
    | false => exact ⟨rfl, rfl, rfl, rfl, href⟩
    | true => exact ⟨rfl, rfl, rfl, rfl, href⟩
  | dieLoad =>
    cases hc
    obtain ⟨hcust, rfl, href⟩ := hp
    have hrc : rc = mem.max buf := of_decide_eq_true hok
    refine ⟨rfl, rfl, hcust, rfl, ?_, href.1⟩
    rw [hrc, Int.toNat_natCast, href.2.1]
  | warnedLoad =>
    cases hc
    exact ⟨rfl, rfl, hp⟩
  | warnedStore =>
    cases hc
    exact ⟨rfl, rfl, hp⟩
  | lowerLoad =>
    cases hc
    obtain ⟨hcust, rfl, href⟩ := hp
    have hrc : rc = mem.max buf := of_decide_eq_true hok
    refine ⟨rfl, rfl, hcust, rfl, ?_, href⟩
    rw [hrc, Int.toNat_natCast, href.2.1]
  | lower v =>
    cases hc
    obtain ⟨hcust, rfl, rfl, href⟩ := hp
    exact ⟨rfl, rfl, Or.inr ⟨rfl, hcust, rfl, href⟩⟩
  | keep => exact hp.elim
  | returned ok => cases hc
  | died n => cases hc

/-! ## Every call ends -/

/-- how far the end is, at most -/
def rank (r : ℕ) (check : Check) : ℕ :=
  match check.pc with
  | .getsockopt => 3 * r + 40
  | .chkSet => 3 * r + 39
  | .chkEnough => 3 * r + 38
  | .maxUnset => 3 * r + 37
  | .socket => 3 * r + 36
  | .sockopt => 3 * check.sz.toNat + 32
  | .bind => 3 * check.sz.toNat + 31
  | .maxStore => 3 * check.sz.toNat + 30
  | .closeBound => 15
  | .chkLess => 14
  | .chkStore => 13
  | .maxFirst => 12
  | .closeLast => 11
  | .maxLess => 10
  | .warnedLoad => 9
  | .warnedStore => 8
  | .lowerLoad => 7
  | .lower _ => 6
  | .dieLoad => 5
  | .keep => 4
  | .returned _ => 0
  | .died _ => 0

theorem rank_loop (r : ℕ) (check : Check) : rank r check.loop ≤ 3 * check.sz.toNat + 32 := by
  unfold Check.loop
  split_ifs
  · exact le_rfl
  · show 11 ≤ 3 * check.sz.toNat + 32
    omega

theorem rank_resume {custom : Bool} (hr' : r < 2 ^ 31) (hi : Inv L r b custom s) (hs : answer L r s rc = some t) :
    rank r t.check < rank r s.check := by
  obtain ⟨c, hc, -, rfl⟩ := answer_cases hs
  obtain ⟨⟨sock, buf, cust, pc, size, sz, sd⟩, mem, inst⟩ := s
  obtain ⟨-, -, hp⟩ := hi
  simp only at hp
  cases pc with
  | socket =>
    simp only [At] at hp
    obtain ⟨rfl, -⟩ := hp
    have hloop := rank_loop size ⟨sock, buf, cust, .socket, size, toInt size, rc⟩
    simp only [toInt_of_lt hr', Int.toNat_natCast] at hloop
    simp only [Check.resume, toInt_of_lt hr', rank] at hloop ⊢
    omega
  | maxStore =>
    simp only [At] at hp
    obtain ⟨-, -, -, n, rfl, ⟨hbig, -⟩, -⟩ := hp
    have hloop := rank_loop r ⟨sock, buf, cust, .maxStore, size, (n : ℤ).tdiv 2, sd⟩
    simp only [tdiv_two, Int.toNat_natCast] at hloop
    simp only [Check.resume, tdiv_two, rank, Int.toNat_natCast] at hloop ⊢
    omega
  | returned ok => cases hc
  | died n => cases hc
  | chkSet | chkEnough | maxUnset | sockopt | bind | chkLess | maxFirst | maxLess =>
    simp only [Check.resume]
    split_ifs <;> simp only [rank] <;> omega
  | _ =>
    simp only [Check.resume, rank]
    omega

/-- every call has an answer -/
theorem exists_answers (L r : ℕ) (m : Statics) (c : Check.Call) : ∃ rc, answers L r m c rc = true := by
  cases c with
  | udtGetsockopt => exact ⟨r, decide_eq_true rfl⟩
  | loadChk b => exact ⟨m.chk b, decide_eq_true rfl⟩
  | loadMax b => exact ⟨m.max b, decide_eq_true rfl⟩
  | loadWarned b =>
    cases hw : m.warned b with
    | false => exact ⟨0, by simp [answers, hw]⟩
    | true => exact ⟨1, by simp [answers, hw]⟩
  | setsockopt sd b sz =>
    by_cases h : sz ≤ L
    · exact ⟨0, by simp [answers, h]⟩
    · exact ⟨-1, by simp [answers, h]⟩
  | bind => exact ⟨0, rfl⟩
  | _ => exact ⟨0, rfl⟩

/-- **Every call ends.** -/
theorem ends {custom : Bool} (hr : 0 < r) (hr' : r < 2 ^ 31) (hi : Inv L r b custom s) :
    (oneCall L r s).Ends Over s := by
  refine System.ends_of_rank (Inv L r b custom) (fun u => rank r u.check) ?_ ?_ ?_ hi
  · intro u rc v hd hs
    obtain ⟨c, hc, -, -⟩ := answer_cases hs
    rw [hd] at hc
    cases hc
  · intro u rc v hu _ hs _
    exact ⟨answer_inv hr hr' hu hs, rank_resume hr' hu hs⟩
  · intro u hu hd
    obtain ⟨c, hc⟩ := Option.ne_none_iff_exists'.1 hd
    obtain ⟨rc, hrc⟩ := exists_answers L r u.mem c
    refine ⟨rc, ⟨u.check.resume rc, u.mem.after c, installs u.installed c⟩, ?_⟩
    show answer L r u rc = _
    rw [answer, hc]
    exact if_pos hrc

/-! ## Runs -/

variable {options : UdtOptions}

theorem enter_inv (hreq : Requests options b r) (hr' : r < 2 ^ 31) (sock : ℤ)
    (hm : Fresh b m ∨ Took L r b m ∨ Refused L r b m) :
    Inv L r b (isCustomValue options b) (enter options b sock m) := by
  unfold enter Check.start isCustomValue
  rcases hreq with hnone | hsome
  · rw [hnone]
    exact ⟨rfl, rfl, rfl, rfl, hm⟩
  · rw [hsome]
    exact ⟨rfl, rfl, toUnsigned_natCast hr', rfl, hm⟩

theorem again_cases {sock : ℤ} (hs : step options b L r s (.again sock) = some t) :
    ∃ ok, s.check.pc = .returned ok ∧ t = enter options b sock s.mem := by
  simp only [step] at hs
  split at hs
  · next ok hret => exact ⟨ok, hret, (Option.some.inj hs).symm⟩
  · cases hs

theorem reachable_inv (hreq : Requests options b r) (hr : 0 < r) (hr' : r < 2 ^ 31)
    (h : (system options b L r).Reachable s) : Inv L r b (isCustomValue options b) s := by
  refine System.reachable_inv _ ?_ ?_ h
  · rintro u ⟨sock, rfl⟩
    exact enter_inv hreq hr' sock (Or.inl ⟨rfl, rfl⟩)
  · intro u l v hu hs
    cases l with
    | answer rc => exact answer_inv hr hr' hu hs
    | again sock =>
      obtain ⟨ok, hret, rfl⟩ := again_cases (L := L) (r := r) hs
      have hp := hu.point
      rw [hret] at hp
      simp only [At, hu.buf] at hp
      rcases hp with ⟨-, -, htook⟩ | ⟨-, -, -, href⟩
      · exact enter_inv hreq hr' sock (Or.inr (Or.inl htook))
      · exact enter_inv hreq hr' sock (Or.inr (Or.inr href))

/-- only a call that returns false puts a size on the socket -/
theorem installed_cases {custom : Bool} (hi : Inv L r b custom s) :
    s.installed = none ∨ s.check.pc = .returned false := by
  have hp := hi.point
  cases hpc : s.check.pc with
  | returned ok =>
    rw [hpc] at hp
    rcases hp with ⟨-, hinst, -⟩ | ⟨rfl, -⟩
    · exact Or.inl hinst
    · exact Or.inr rfl
  | keep =>
    rw [hpc] at hp
    exact hp.elim
  | _ =>
    rw [hpc] at hp
    exact Or.inl hp.2.1

/-- the sizes that are handled right: above the floor of the loop, and accepted or brought within the limit by halving
before the floor is reached; or a custom value that is beyond the limit and below the floor -/
def Handled (L r : ℕ) (custom : Bool) : Prop :=
  (8096 < r ∧ (r ≤ L ∨ ∃ k, 8096 < r / 2 ^ k ∧ r / 2 ^ (k + 1) ≤ L)) ∨ (custom = true ∧ L < r ∧ r ≤ 8096)

/-- beyond the limit, that is a maximum within it, and for the default not a maximum of 0 -/
theorem handled_iff {custom : Bool} (h : L < r) :
    Handled L r custom ↔ limit L r ≤ L ∧ (custom = false → 0 < limit L r) := by
  unfold Handled limit
  split_ifs with hfloor
  · have hpos : 0 < settled L r := settled_pos (by omega)
    rw [settled_le_iff hfloor h]
    constructor
    · rintro (⟨-, hle | hk⟩ | ⟨-, -, hle⟩)
      · omega
      · exact ⟨hk, fun _ => hpos⟩
      · omega
    · rintro ⟨hk, -⟩
      exact Or.inl ⟨hfloor, Or.inr hk⟩
  · constructor
    · rintro (⟨hbig, -⟩ | ⟨hc, -, -⟩)
      · exact absurd hbig hfloor
      · exact ⟨Nat.zero_le L, fun hno => absurd (hc.symm.trans hno) (by decide)⟩
    · rintro ⟨-, hpos⟩
      refine Or.inr ⟨?_, h, not_lt.1 hfloor⟩
      cases custom with
      | false => exact absurd (hpos rfl) (lt_irrefl 0)
      | true => rfl

/-- a point of the function, for a size that is handled right -/
theorem respects_of_inv {custom : Bool} (hi : Inv L r b custom s) (h : Handled L r custom) : Respects L r custom s := by
  have hp := hi.point
  unfold Respects
  split_ifs with hL hc
  · have hacc : Accepted L r := by
      rcases h with ⟨hbig, -⟩ | ⟨-, hlt, -⟩
      · exact ⟨hbig, hL⟩
      · exact absurd hL (not_le.2 hlt)
    have hret (ok : Bool) (hpc : s.check.pc = .returned ok) : ok = true := by
      rw [hpc] at hp
      rcases hp with ⟨hok, -⟩ | ⟨-, -, -, href⟩
      · exact hok
      · exact absurd hacc href.1
    refine ⟨hret, ?_, ?_⟩
    · intro n hpc
      rw [hpc] at hp
      exact hp.2.2.2 hacc
    · intro v hv
      rcases installed_cases hi with hnone | hpc
      · rw [hnone] at hv
        cases hv
      · exact absurd (hret false hpc) (by decide)
  · subst hc
    refine ⟨?_, ?_⟩
    · intro ok hpc
      rw [hpc] at hp
      rcases hp with ⟨-, -, htook⟩ | ⟨-, hno, -⟩
      · exact hL htook.1.2
      · exact absurd hno (by decide)
    · intro n hpc
      rw [hpc] at hp
      rw [hp.2.2.1]
      exact ((handled_iff (not_le.1 hL)).1 h).1
  · obtain rfl := Bool.not_eq_true _ ▸ hc
    obtain ⟨hle, hpos⟩ := (handled_iff (not_le.1 hL)).1 h
    refine ⟨?_, ?_⟩
    · intro n hpc
      rw [hpc] at hp
      exact absurd hp.1 (by decide)
    · intro ok hpc
      rw [hpc] at hp
      rcases hp with ⟨-, -, htook⟩ | ⟨hok, -, hinst, -⟩
      · exact absurd htook.1.2 hL
      · exact ⟨hok, _, hinst, Int.natCast_pos.2 (hpos rfl), Int.ofNat_le.2 hle⟩

/-- where a call ends, for a size that is not handled right -/
theorem handled_of_over {custom : Bool} (hi : Inv L r b custom s) (hover : Over s) (h : Respects L r custom s) :
    Handled L r custom := by
  have hp := hi.point
  by_cases hacc : Accepted L r
  · exact Or.inl ⟨hacc.1, Or.inl hacc.2⟩
  unfold Respects at h
  cases hpc : s.check.pc with
  | returned ok =>
    rw [hpc] at hp
    rcases hp with ⟨-, -, htook⟩ | ⟨rfl, rfl, hinst, -⟩
    · exact absurd htook.1 hacc
    · by_cases hL : r ≤ L
      · rw [if_pos hL] at h
        exact absurd (h.1 false hpc) (by decide)
      · rw [if_neg hL, if_neg Bool.false_ne_true] at h
        obtain ⟨-, v, hv, hpos, hle⟩ := h.2 false hpc
        obtain rfl := Option.some.inj (hinst.symm.trans hv)
        exact (handled_iff (not_le.1 hL)).2 ⟨Int.ofNat_le.1 hle, fun _ => Int.natCast_pos.1 hpos⟩
  | died n =>
    rw [hpc] at hp
    obtain ⟨rfl, -, rfl, -⟩ := hp
    by_cases hL : r ≤ L
    · rw [if_pos hL] at h
      exact absurd hpc (h.2.1 _)
    · rw [if_neg hL, if_pos rfl] at h
      exact (handled_iff (not_le.1 hL)).2 ⟨h.2 _ hpc, nofun⟩
  | keep =>
    rw [hpc] at hp
    exact hp.elim
  | _ =>
    rw [Over, Check.call, hpc] at hover
    cases hover

/-- **When the check respects the system's limit.** In every run of repeated calls each call ends, and it does what it
is for, if and only if the requested size is handled right. -/
theorem respects_iff (hreq : Requests options b r) (hr : 0 < r) (hr' : r < 2 ^ 31) :
    (∀ s, (system options b L r).Reachable s →
      (oneCall L r s).Ends Over s ∧ Respects L r (isCustomValue options b) s) ↔
        Handled L r (isCustomValue options b) := by
  constructor
  · intro h
    have hfirst : (system options b L r).Reachable (enter options b 0 {}) := ⟨_, [], ⟨0, rfl⟩, rfl⟩
    obtain ⟨ls, t, ht, hover⟩ := (h _ hfirst).1.exists_done
    have hreach : (system options b L r).Reachable t :=
      System.exec_inv (system options b L r).Reachable
        (fun u rc v hu hs => System.Reachable.next (l := .answer rc) hu hs) ht hfirst
    exact handled_of_over (reachable_inv hreq hr hr' hreach) hover (h t hreach).2
  · intro h s hs
    have hi := reachable_inv hreq hr hr' hs
    exact ⟨ends hr hr' hi, respects_of_inv hi h⟩

/-- UDT's own value of 65536 on a system with a limit of 20000: the second half is accepted, and put on the socket -/
def halvings : List Label :=
  [.answer 65536, .answer 0, .answer 0, .answer 5, .answer (-1), .answer 0, .answer (-1), .answer 0, .answer 0,
    .answer 0, .answer 0, .answer 0, .answer 0, .answer 16384, .answer 0, .answer 16384, .answer 0, .answer 0,
    .answer 16384, .answer 0]

theorem respects_iff_halved :
    ∃ s, (system [] .rcv 20000 65536).exec (enter [] .rcv 7 {}) halvings = some s ∧
      s.check.pc = .returned false ∧ s.installed = some 16384 ∧ Respects 20000 65536 false s := by
  obtain ⟨s, hs, hpc, hinst⟩ : ∃ s, (system [] .rcv 20000 65536).exec (enter [] .rcv 7 {}) halvings = some s ∧
      s.check.pc = .returned false ∧ s.installed = some 16384 := System.exec_of_any (by decide)
  have hhandled : Handled 20000 65536 (isCustomValue [] .rcv) := Or.inl ⟨by decide, Or.inr ⟨1, by decide, by decide⟩⟩
  have hall := (respects_iff (Or.inl rfl) (by decide) (by decide)).2 hhandled
  exact ⟨s, hs, hpc, hinst, (hall s ⟨_, halvings, ⟨7, rfl⟩, hs⟩).2⟩

/-- **A small size.** A custom value of 8000 is within the limit, but the loop does not try it, and the process ends
with the message that the maximal possible size is 0. -/
theorem small_size_dies :
    ∃ s, (system [(.udpRcvbuf, 8000)] .rcv 20000 8000).exec (enter [(.udpRcvbuf, 8000)] .rcv 7 {})
        [.answer 0, .answer 0, .answer 5, .answer 0, .answer 0, .answer 0] = some s ∧
      s.check.pc = .died 0 ∧ ¬ Respects 20000 8000 true s := by
  obtain ⟨s, hs, hpc⟩ : ∃ s,
      (system [(.udpRcvbuf, 8000)] .rcv 20000 8000).exec (enter [(.udpRcvbuf, 8000)] .rcv 7 {})
        [.answer 0, .answer 0, .answer 5, .answer 0, .answer 0, .answer 0] = some s ∧ s.check.pc = .died 0 :=
    System.exec_of_any (by decide)
  refine ⟨s, hs, hpc, ?_⟩
  intro h
  rw [Respects, if_pos (by decide)] at h
  exact h.2.1 0 hpc

end UdpLimit

end UdtGate
