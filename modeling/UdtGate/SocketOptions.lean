/-
The options of UDT sockets, from the command line of a relay on.

`main` takes its arguments apart and fills `udt_options`; afterwards its threads call `setsockopt(UDTSOCKET)`, each for
a socket of its own. A call sets what is in `udt_options`, and then checks both UDP buffers, for which it looks at the
static variables that all threads share. The calls run side by side, and one may go on between any two accesses of
another. The system and UDT answer what they like, also whether a value is accepted: `setsockopt(UDTSOCKET)` looks at
none of UDT's answers.

- `LastGiven`: what the command line asks for. A later argument for the same option takes precedence.
- `Recorded`: `udt_options` after a run over arguments with a meaning; `recorded` says it is what was asked for.
- `Setup.Inv`: what each point of a call knows of its socket.
- `asked_for`: UDT is asked for what the command line asks for, whatever the other threads do to the static variables,
  and a socket has it unless UDT has refused it.
-/
import UdtGate.Arguments
import UdtGate.UdpLimit

namespace UdtGate

open UdtGate.Core UdtGate.UdtOption
open DumpStr (ascii)

/-! ## Model -/

/-- a call of `UDT::setsockopt`, with its answer: 0, or UDT::ERROR when UDT refuses the value -/
structure Attempt where
  opt : UdtOpt
  value : ℤ
  rc : ℤ

/-- a call of `setsockopt(UDTSOCKET)`, and what it has asked of UDT for its socket so far -/
structure Setup where
  opts : Options
  attempts : List Attempt
  /-- the answer to UDT_RENDEZVOUS, when that was set -/
  rendezvous : Option ℤ

namespace Setup

def start (options : UdtOptions) (sock : ℤ) : Setup := ⟨Options.start options sock, [], none⟩

def after (s : Setup) : Check.Call → ℤ → Setup
  | .udtSetsockopt sock o v, rc =>
    if sock = s.opts.sock then { s with attempts := s.attempts ++ [⟨o, v, rc⟩] } else s
  | .setRendezvous sock, rc => if sock = s.opts.sock then { s with rendezvous := some rc } else s
  | _, _ => s

/-- the value of an option on the socket, when UDT has accepted one: a value that is accepted replaces an earlier one -/
def installed (s : Setup) (o : UdtOpt) : Option ℤ :=
  (s.attempts.filter fun a => decide (a.opt = o ∧ a.rc = 0)).getLast?.map Attempt.value

/-- the static variables answer for themselves; the system and UDT answer what they like -/
def recalled (m : UdpLimit.Statics) : Check.Call → ℤ → Bool
  | .loadChk b, rc => rc = m.chk b
  | .loadMax b, rc => rc = m.max b
  | .loadWarned b, rc => decide (rc ≠ 0) = m.warned b
  | _, _ => true

def resume (options : UdtOptions) (isRendezvous : Bool) (s : Setup) (c : Check.Call) (rc : ℤ) : Setup :=
  { s.after c rc with opts := s.opts.resume options isRendezvous rc }

end Setup

/-- the process, when its arguments are parsed -/
structure SocketOptions where
  mem : UdpLimit.Statics
  calls : List Setup

namespace SocketOptions

def start : SocketOptions := ⟨{}, []⟩

inductive Label where
  /-- a thread calls `setsockopt(UDTSOCKET)` -/
  | enter (sock : ℤ)
  /-- a call gets an answer -/
  | answer (i : ℕ) (rc : ℤ)

/-- `log_die` ends the process -/
def Died (p : SocketOptions) : Prop := ∃ s ∈ p.calls, s.opts.pc = .died

instance (p : SocketOptions) : Decidable p.Died := inferInstanceAs (Decidable (∃ s ∈ p.calls, _))

def answer (options : UdtOptions) (isRendezvous : Bool) (p : SocketOptions) (i : ℕ) (rc : ℤ) :
    Option SocketOptions := do
  let s ← p.calls[i]?
  let c ← s.opts.call
  if Setup.recalled p.mem c rc then
    return ⟨p.mem.after c, p.calls.set i (s.resume options isRendezvous c rc)⟩
  else none

def step (options : UdtOptions) (isRendezvous : Bool) (p : SocketOptions) (l : Label) : Option SocketOptions :=
  if p.Died then none
  else
    match l with
    | .enter sock => some { p with calls := p.calls ++ [Setup.start options sock] }
    | .answer i rc => p.answer options isRendezvous i rc

def system (options : UdtOptions) (isRendezvous : Bool) : System SocketOptions Label :=
  ⟨fun p => p = start, step options isRendezvous⟩

end SocketOptions

/-! ## What is asked for -/

namespace Arguments

/-- the argument asks for a value of the option `o` -/
def Label.Asks (l : Label) (o : UdtOpt) (v : ℤ) : Prop := ∃ pl s, l = .udt pl s ∧ Denotes s o v

/-- the last argument for the option `o` asks for `v` -/
def LastGiven (ls : List Label) (o : UdtOpt) (v : ℤ) : Prop :=
  ∃ pre l post, ls = pre ++ l :: post ∧ l.Asks o v ∧ ∀ m ∈ post, ∀ w, ¬ m.Asks o w

/-- -R -/
def Label.isRendezvous : Label → Bool
  | .rendezvous _ => true
  | _ => false

/-- the -U arguments have a meaning, and the options are different numbers to UDT -/
structure Meant (code : UdtOpt → ℕ) (ls : List Label) : Prop where
  injective : Function.Injective code
  udt : ∀ pl s, .udt pl s ∈ ls → pl.code = code ∧ ∃ o v, Denotes s o v

/-! ## udt_options -/

variable {code : UdtOpt → ℕ} {o o' : UdtOpt} {v v' : ℤ} {options : UdtOptions} {w t : Arguments} {l : Label}
  {ls : List Label}

/-- a map in the order of its keys -/
def Sorted (code : UdtOpt → ℕ) (options : UdtOptions) : Prop := options.Pairwise fun a b => code a.1 < code b.1

theorem mem_assign {e : UdtOpt × ℤ} (h : e ∈ assign code o v options) : e = (o, v) ∨ e ∈ options := by
  induction options with
  | nil => exact Or.inl (List.mem_singleton.1 h)
  | cons entry options ih =>
    simp only [assign] at h
    split_ifs at h with heq hlt
    · exact (List.mem_cons.1 h).imp_right (List.mem_cons_of_mem _)
    · exact List.mem_cons.1 h
    · rcases List.mem_cons.1 h with he | h
      · exact Or.inr (he ▸ List.mem_cons_self)
      · exact (ih h).imp_right (List.mem_cons_of_mem _)

theorem Sorted.assign (hinj : Function.Injective code) (h : Sorted code options) (o : UdtOpt) (v : ℤ) :
    Sorted code (assign code o v options) := by
  induction options with
  | nil => exact List.pairwise_singleton _ _
  | cons entry options ih =>
    obtain ⟨hhead, htail⟩ := List.pairwise_cons.1 h
    simp only [UdtOption.assign]
    split_ifs with heq hlt
    · exact List.pairwise_cons.2 ⟨heq ▸ hhead, htail⟩
    · refine List.pairwise_cons.2 ⟨?_, h⟩
      intro e he
      rcases List.mem_cons.1 he with rfl | he
      · exact hlt
      · exact hlt.trans (hhead e he)
    · refine List.pairwise_cons.2 ⟨?_, ih htail⟩
      intro e he
      rcases mem_assign he with rfl | he
      · exact lt_of_le_of_ne (not_lt.1 hlt) (hinj.ne heq)
      · exact hhead e he

/-- in a sorted map each option is found with its only value -/
theorem Sorted.lookup_eq (h : Sorted code options) (hmem : (o, v) ∈ options) : options.lookup o = some v := by
  induction options with
  | nil => cases hmem
  | cons entry options ih =>
    obtain ⟨hhead, htail⟩ := List.pairwise_cons.1 h
    rcases List.mem_cons.1 hmem with rfl | hmem
    · exact List.lookup_cons_self
    · have hne : o ≠ entry.1 := by
        rintro rfl
        exact lt_irrefl _ (hhead (entry.1, v) hmem)
      rw [List.lookup_cons, beq_false_of_ne hne]
      exact ih htail hmem

/-! ## What the command line leaves in it -/

/-- an argument has one meaning -/
theorem denotes_unique {s : List UInt8} (h : Denotes s o v) (h' : Denotes s o' v') : o = o' ∧ v = v' := by
  let pl : Platform := ⟨fun _ => 0, 0, fun _ => 0, fun _ => 0⟩
  have heq : UdtOption.assign pl.code o v [] = UdtOption.assign pl.code o' v' [] :=
    congrArg Parsed.options (Except.ok.inj ((parse_denotes pl [] h).symm.trans (parse_denotes pl [] h')))
  have hpair := (List.cons.inj heq).1
  exact ⟨congrArg Prod.fst hpair, congrArg Prod.snd hpair⟩

theorem Label.Asks.unique (h : l.Asks o v) (h' : l.Asks o v') : v = v' := by
  obtain ⟨pl, s, rfl, hs⟩ := h
  obtain ⟨pl', s', heq, hs'⟩ := h'
  obtain ⟨-, rfl⟩ := Label.udt.inj heq
  exact (denotes_unique hs hs').2

theorem lastGiven_snoc : LastGiven (ls ++ [l]) o v ↔ l.Asks o v ∨ ((∀ w, ¬ l.Asks o w) ∧ LastGiven ls o v) := by
  constructor
  · rintro ⟨pre, m, post, heq, hasks, hlast⟩
    rcases List.eq_nil_or_concat post with rfl | ⟨post, n, rfl⟩
    · obtain ⟨-, hl⟩ := List.append_inj' heq rfl
      obtain rfl := (List.cons.inj hl).1
      exact Or.inl hasks
    · rw [List.concat_eq_append] at heq hlast
      rw [← List.cons_append, ← List.append_assoc] at heq
      obtain ⟨rfl, hl⟩ := List.append_inj' heq rfl
      obtain rfl := (List.cons.inj hl).1
      refine Or.inr ⟨?_, pre, m, post, rfl, hasks, ?_⟩
      · intro w
        exact hlast l (List.mem_append_right _ List.mem_cons_self) w
      · intro n hn w
        exact hlast n (List.mem_append_left _ hn) w
  · rintro (hasks | ⟨hno, pre, m, post, rfl, hasks, hlast⟩)
    · exact ⟨ls, l, [], rfl, hasks, List.forall_mem_nil _⟩
    · refine ⟨pre, m, post ++ [l], by rw [List.append_assoc, List.cons_append], hasks, ?_⟩
      intro n hn
      rcases List.mem_append.1 hn with hn | hn
      · exact hlast n hn
      · obtain rfl := List.mem_singleton.1 hn
        exact hno

theorem rendezvous_options {s : List UInt8} (h : w.rendezvous s = .ok t) : t.udtOptions = w.udtOptions := by
  unfold rendezvous at h
  obtain ⟨lport, -, h⟩ := bind_eq_ok.1 h
  obtain ⟨rport, -, h⟩ := bind_eq_ok.1 h
  split_ifs at h
  · exact (Except.ok.inj h) ▸ rfl
  · obtain ⟨text, -, h⟩ := bind_eq_ok.1 h
    obtain ⟨rport', -, h⟩ := bind_eq_ok.1 h
    exact (Except.ok.inj h) ▸ rfl

theorem operands_options {args : List (List UInt8)} (h : w.operands args = .ok t) : t.udtOptions = w.udtOptions := by
  unfold operands at h
  split at h
  · obtain ⟨socksPort, -, h⟩ := bind_eq_ok.1 h
    obtain ⟨listenPort, -, h⟩ := bind_eq_ok.1 h
    obtain ⟨addr, -, h⟩ := bind_eq_ok.1 h
    obtain ⟨remotePort, -, h⟩ := bind_eq_ok.1 h
    obtain ⟨remotePort', -, h⟩ := bind_eq_ok.1 h
    exact (Except.ok.inj h) ▸ rfl
  · exact (Except.ok.inj h) ▸ rfl

theorem udt_options {pl : Platform} {s : List UInt8} (hs : Denotes s o v) (h : w.udt pl s = .ok t) :
    t.udtOptions = UdtOption.assign pl.code o v w.udtOptions := by
  unfold udt at h
  obtain ⟨block, -, h⟩ := bind_eq_ok.1 h
  obtain ⟨r, hr, h⟩ := bind_eq_ok.1 h
  obtain rfl := Except.ok.inj ((parse_denotes pl w.udtOptions hs).symm.trans hr)
  exact (Except.ok.inj h) ▸ rfl

/-- the name of an argument with a meaning is stored -/
theorem udt_succeeds (pl : Platform) {s : List UInt8} (hs : Denotes s o v) : ∃ t, w.udt pl s = .ok t := by
  have hparse := parse_denotes pl w.udtOptions hs
  obtain ⟨block, hblock, -⟩ := bind_eq_ok.1 hparse
  refine ⟨_, bind_eq_ok.2 ⟨block, hblock, bind_eq_ok.2 ⟨_, hparse, rfl⟩⟩⟩

/-- `udt_options` holds what was asked for -/
structure Recorded (code : UdtOpt → ℕ) (ls : List Label) (w : Arguments) : Prop where
  sorted : Sorted code w.udtOptions
  lookup : ∀ o v, w.udtOptions.lookup o = some v ↔ LastGiven ls o v

/-- an argument that is no -U option -/
theorem Recorded.other (h : Recorded code ls w) (hno : ∀ o v, ¬ l.Asks o v) (ht : t.udtOptions = w.udtOptions) :
    Recorded code (ls ++ [l]) t := by
  constructor
  · rw [ht]
    exact h.sorted
  · intro o v
    rw [ht, h.lookup, lastGiven_snoc]
    constructor
    · intro hgiven
      exact Or.inr ⟨hno o, hgiven⟩
    · rintro (hasks | ⟨-, hgiven⟩)
      · exact absurd hasks (hno o v)
      · exact hgiven

theorem settle_options {x : Except Fault Arguments} (h : ∀ t, x = .ok t → t.udtOptions = w.udtOptions) :
    (w.settle x).udtOptions = w.udtOptions := by
  cases x with
  | error f => rfl
  | ok t => exact h t rfl

/-- **Step lemma.** -/
theorem Recorded.step (hm : Meant code (ls ++ [l])) (h : Recorded code ls w) (hs : step w l = some t) :
    Recorded code (ls ++ [l]) t := by
  obtain ⟨-, ⟨s, rfl, rfl⟩ | ⟨pl, s, rfl, rfl⟩ | ⟨args, rfl, rfl⟩⟩ := step_cases hs
  · refine h.other ?_ (settle_options fun t ht => rendezvous_options ht)
    rintro o v ⟨pl, s, ⟨⟩, -⟩
  · obtain ⟨hcode, o, v, hden⟩ := hm.udt pl s (List.mem_append_right _ List.mem_cons_self)
    obtain ⟨t, ht⟩ := udt_succeeds (w := w) pl hden
    have hoptions := udt_options hden ht
    rw [hcode] at hoptions
    rw [ht]
    show Recorded code _ t
    constructor
    · rw [hoptions]
      exact h.sorted.assign hm.injective o v
    · intro o' v'
      rw [hoptions, lastGiven_snoc]
      by_cases heq : o' = o
      · subst heq
        rw [lookup_assign]
        constructor
        · intro hv
          exact Or.inl ⟨pl, s, rfl, Option.some.inj hv ▸ hden⟩
        · rintro (hasks | ⟨hno, -⟩)
          · exact congrArg some (Label.Asks.unique ⟨pl, s, rfl, hden⟩ hasks)
          · exact absurd ⟨pl, s, rfl, hden⟩ (hno v)
      · rw [lookup_assign_of_ne code heq, h.lookup]
        have hno : ∀ w, ¬ (Label.udt pl s).Asks o' w := by
          rintro w ⟨pl', s', hl, hden'⟩
          obtain ⟨-, rfl⟩ := Label.udt.inj hl
          exact heq (denotes_unique hden' hden).1
        constructor
        · intro hgiven
          exact Or.inr ⟨hno, hgiven⟩
        · rintro (hasks | ⟨-, hgiven⟩)
          · exact absurd hasks (hno v')
          · exact hgiven
  · refine h.other ?_ (settle_options fun t ht => operands_options ht)
    rintro o v ⟨pl, s, ⟨⟩, -⟩

/-- **What was asked for is recorded**, in every run over options with a meaning. -/
theorem recorded (hm : Meant code ls) (h : system.exec start ls = some w) : Recorded code ls w := by
  induction ls using List.reverseRecOn generalizing w with
  | nil =>
    obtain rfl := Option.some.inj h
    refine ⟨List.Pairwise.nil, ?_⟩
    intro o v
    constructor
    · intro hv
      cases hv
    · rintro ⟨pre, l, post, heq, -⟩
      cases pre with
      | nil => cases heq
      | cons _ _ => cases heq
  | append_singleton ls l ih =>
    obtain ⟨u, hu, hs⟩ := System.exec_snoc.1 h
    have hm' : Meant code ls := ⟨hm.injective, fun pl s hmem => hm.udt pl s (List.mem_append_left _ hmem)⟩
    exact (ih hm' hu).step hm hs

end Arguments

namespace Setup

/-! ## A check -/

variable {options : UdtOptions} {code : UdtOpt → ℕ} {k : Check} {sock rc : ℤ} {c : Check.Call}

/-- the points that only a check without a custom value gets to -/
def Plain : Check.Pc → Prop
  | .getsockopt | .warnedLoad | .warnedStore | .lowerLoad | .lower _ => True
  | _ => False

/-- what a check knows of its option -/
structure Checks (options : UdtOptions) (sock : ℤ) (k : Check) : Prop where
  sock_eq : k.sock = sock
  custom : ∀ v, (k.buf.optcode, v) ∈ options → k.custom = true ∧ k.size = toUnsigned v
  plain : Plain k.pc → k.custom = false

theorem checks_start (h : Arguments.Sorted code options) (sock : ℤ) (b : Buf) :
    Checks options sock (Check.start options sock b) := by
  unfold Check.start
  cases hv : options.lookup b.optcode with
  | some v =>
    refine ⟨rfl, ?_, False.elim⟩
    intro v' hmem
    obtain rfl := Option.some.inj (hv.symm.trans (h.lookup_eq hmem))
    exact ⟨rfl, rfl⟩
  | none =>
    refine ⟨rfl, ?_, fun _ => rfl⟩
    intro v' hmem
    cases hv.symm.trans (h.lookup_eq hmem)

theorem loop_frame (k : Check) :
    k.loop.sock = k.sock ∧ k.loop.buf = k.buf ∧ k.loop.custom = k.custom ∧ k.loop.size = k.size ∧
      ¬ Plain k.loop.pc := by
  unfold Check.loop
  split_ifs
  · exact ⟨rfl, rfl, rfl, rfl, id⟩
  · exact ⟨rfl, rfl, rfl, rfl, id⟩

theorem Checks.loop (h : Checks options sock k) : Checks options sock k.loop := by
  obtain ⟨hsock, hbuf, hcustom, hsize, hplain⟩ := loop_frame k
  refine ⟨hsock.trans h.sock_eq, ?_, fun hp => absurd hp hplain⟩
  rw [hbuf, hcustom, hsize]
  exact h.custom

/-- a point that any check may get to -/
theorem Checks.at_pc (h : Checks options sock k) {pc : Check.Pc} (hpc : Plain pc → k.custom = false) :
    Checks options sock { k with pc := pc } := ⟨h.sock_eq, h.custom, hpc⟩

/-- **Step lemma for a check.** -/
theorem Checks.resume (h : Checks options sock k) (rc : ℤ) : Checks options sock (k.resume rc) := by
  obtain ⟨ksock, buf, custom, pc, size, sz, sd⟩ := k
  cases pc with
  | getsockopt =>
    refine ⟨h.sock_eq, ?_, False.elim⟩
    intro v hmem
    cases (h.plain trivial).symm.trans (h.custom v hmem).1
  | chkSet | chkEnough | sockopt | bind | chkLess | maxFirst =>
    simp only [Check.resume]
    split_ifs
    · exact h.at_pc False.elim
    · exact h.at_pc False.elim
  | maxUnset =>
    simp only [Check.resume]
    split_ifs
    · exact h.at_pc False.elim
    · exact h.at_pc False.elim
  | socket => exact Checks.loop ⟨h.sock_eq, h.custom, False.elim⟩
  | maxStore => exact Checks.loop ⟨h.sock_eq, h.custom, False.elim⟩
  | closeBound | chkStore | closeLast | dieLoad => exact h.at_pc False.elim
  | maxLess =>
    simp only [Check.resume]
    split_ifs with hbig hcustom
    · exact h.at_pc False.elim
    · exact h.at_pc fun _ => Bool.eq_false_iff.2 hcustom
    · exact h.at_pc False.elim
  | warnedLoad | warnedStore | lowerLoad => exact h.at_pc fun _ => h.plain trivial
  | lower _ | keep => exact h.at_pc False.elim
  | returned _ | died _ => exact h

/-- the size that was asked for is an `int` again -/
theorem toInt_toUnsigned {v : ℤ} (h : InInt v) : toInt (toUnsigned v) = v := by
  obtain ⟨hlo, hhi⟩ := h
  unfold toInt toUnsigned
  split_ifs
  · omega
  · omega

/-- a check asks for nothing but its option, and for that only what was asked for -/
theorem Checks.sets (h : Checks options sock k) (hint : ∀ e ∈ options, InInt e.2) (hc : k.call = some c) :
    (∃ v, c = .udtSetsockopt sock k.buf.optcode v ∧ ∀ v', (k.buf.optcode, v') ∈ options → v' = v) ∨
      ∀ (s : Setup) (rc : ℤ), s.after c rc = s := by
  obtain ⟨ksock, buf, custom, pc, size, sz, sd⟩ := k
  obtain rfl := h.sock_eq
  cases pc with
  | lower value =>
    refine Or.inl ⟨_, (Option.some.inj hc).symm, ?_⟩
    intro v' hmem
    cases (h.plain trivial).symm.trans (h.custom v' hmem).1
  | keep =>
    refine Or.inl ⟨_, (Option.some.inj hc).symm, ?_⟩
    intro v' hmem
    rw [(h.custom v' hmem).2]
    exact (toInt_toUnsigned (hint _ hmem)).symm
  | returned _ | died _ => cases hc
  | getsockopt | chkSet | chkEnough | maxUnset | socket | sockopt | bind | closeBound | chkLess | chkStore | maxFirst
  | maxStore | closeLast | maxLess | dieLoad | warnedLoad | warnedStore | lowerLoad =>
    cases hc
    exact Or.inr fun s rc => rfl

/-! ## A call -/

/-- UDT was asked for each option with its value, and beside that for nothing but perhaps a UDP buffer -/
structure Has (options : UdtOptions) (attempts : List Attempt) : Prop where
  given : ∀ o v, (o, v) ∈ options → ∃ rc, ⟨o, v, rc⟩ ∈ attempts
  meant : ∀ a ∈ attempts, (a.opt, a.value) ∈ options ∨ ((∀ v, (a.opt, v) ∉ options) ∧ ∃ b : Buf, a.opt = b.optcode)

/-- UDT was asked for the custom options up to here, and for nothing else -/
structure HasSet (done : UdtOptions) (attempts : List Attempt) : Prop where
  given : ∀ o v, (o, v) ∈ done → ∃ rc, ⟨o, v, rc⟩ ∈ attempts
  meant : ∀ a ∈ attempts, (a.opt, a.value) ∈ done

def At (options : UdtOptions) (isRendezvous : Bool) (s : Setup) : Options.Pc → Prop
  | .custom opt rest => s.rendezvous = none ∧ ∃ done, options = done ++ opt :: rest ∧ HasSet done s.attempts
  | .checking k => s.rendezvous = none ∧ Has options s.attempts ∧ Checks options s.opts.sock k
  | .rendezvous => isRendezvous = true ∧ Has options s.attempts
  | .returned => (s.rendezvous ≠ none ↔ isRendezvous = true) ∧ Has options s.attempts
  | .died => True

def Inv (options : UdtOptions) (isRendezvous : Bool) (s : Setup) : Prop := At options isRendezvous s s.opts.pc

variable {isRendezvous : Bool} {s : Setup} {attempts : List Attempt} {done rest : UdtOptions} {o : UdtOpt} {v : ℤ}

theorem HasSet.has (h : HasSet options attempts) : Has options attempts := ⟨h.given, fun a ha => Or.inl (h.meant a ha)⟩

theorem HasSet.next (h : HasSet done attempts) (o : UdtOpt) (v rc : ℤ) :
    HasSet (done ++ [(o, v)]) (attempts ++ [⟨o, v, rc⟩]) := by
  constructor
  · intro o' v' hmem
    rcases List.mem_append.1 hmem with hmem | hmem
    · obtain ⟨rc', ha⟩ := h.given o' v' hmem
      exact ⟨rc', List.mem_append_left _ ha⟩
    · obtain ⟨rfl, rfl⟩ := Prod.mk.inj (List.mem_singleton.1 hmem)
      exact ⟨rc, List.mem_append_right _ List.mem_cons_self⟩
  · intro a ha
    rcases List.mem_append.1 ha with ha | ha
    · exact List.mem_append_left _ (h.meant a ha)
    · obtain rfl := List.mem_singleton.1 ha
      exact List.mem_append_right _ List.mem_cons_self

/-- a check asks for its buffer -/
theorem Has.snoc (h : Has options attempts) {b : Buf} (hv : ∀ v', (b.optcode, v') ∈ options → v' = v) (rc : ℤ) :
    Has options (attempts ++ [⟨b.optcode, v, rc⟩]) := by
  constructor
  · intro o v' hmem
    obtain ⟨rc', ha⟩ := h.given o v' hmem
    exact ⟨rc', List.mem_append_left _ ha⟩
  · intro a ha
    rcases List.mem_append.1 ha with ha | ha
    · exact h.meant a ha
    · obtain rfl := List.mem_singleton.1 ha
      by_cases hcustom : ∃ v', (b.optcode, v') ∈ options
      · obtain ⟨v', hmem⟩ := hcustom
        obtain rfl := hv v' hmem
        exact Or.inl hmem
      · exact Or.inr ⟨fun v' hmem => hcustom ⟨v', hmem⟩, b, rfl⟩

/-- what the option has is an attempt that was accepted; it has nothing when there is none -/
theorem installed_cases (s : Setup) (o : UdtOpt) :
    (∃ a ∈ s.attempts, a.opt = o ∧ a.rc = 0 ∧ s.installed o = some a.value) ∨
      (s.installed o = none ∧ ∀ a ∈ s.attempts, a.opt = o → a.rc ≠ 0) := by
  unfold installed
  cases hlast : (s.attempts.filter fun a => decide (a.opt = o ∧ a.rc = 0)).getLast? with
  | none =>
    refine Or.inr ⟨rfl, ?_⟩
    intro a ha ho h0
    have hmem : a ∈ s.attempts.filter fun a => decide (a.opt = o ∧ a.rc = 0) :=
      List.mem_filter.2 ⟨ha, decide_eq_true ⟨ho, h0⟩⟩
    rw [List.getLast?_eq_none_iff.1 hlast] at hmem
    cases hmem
  | some a =>
    obtain ⟨ha, hcond⟩ := List.mem_filter.1 (List.mem_of_getLast? hlast)
    obtain ⟨ho, h0⟩ := of_decide_eq_true hcond
    exact Or.inl ⟨a, ha, ho, h0, rfl⟩

theorem inv_start (hs : Arguments.Sorted code options) (sock : ℤ) : Inv options isRendezvous (start options sock) := by
  cases options with
  | nil =>
    exact ⟨rfl, ⟨fun o v hmem => absurd hmem List.not_mem_nil, fun a ha => absurd ha List.not_mem_nil⟩,
      checks_start hs sock .rcv⟩
  | cons opt rest =>
    exact ⟨rfl, [], rfl, fun o v hmem => absurd hmem List.not_mem_nil, fun a ha => absurd ha List.not_mem_nil⟩

/-- what follows a check, when it went on by one call -/
theorem inv_checked (hs : Arguments.Sorted code options) (opts : Options) (hrz : s.rendezvous = none)
    (hhas : Has options s.attempts) (hk : Checks options opts.sock k) :
    Inv options isRendezvous { s with opts := Options.checked options isRendezvous opts k } := by
  unfold Options.checked
  split
  · trivial
  · split
    · exact ⟨hrz, hhas, checks_start hs _ .snd⟩
    · split_ifs with hon
      · exact ⟨hon, hhas⟩
      · exact ⟨iff_of_false (fun hne => hne hrz) hon, hhas⟩
  · exact ⟨hrz, hhas, hk⟩

/-- **Step lemma for a call.** An answer leads from one point to the next. -/
theorem Inv.resume (hs : Arguments.Sorted code options) (hint : ∀ e ∈ options, InInt e.2)
    (h : Inv options isRendezvous s) (hc : s.opts.call = some c) (rc : ℤ) :
    Inv options isRendezvous (s.resume options isRendezvous c rc) := by
  obtain ⟨⟨sock, pc⟩, attempts, rendezvous⟩ := s
  cases pc with
  | custom opt rest =>
    obtain ⟨hrz, done, heq, hset⟩ := h
    obtain rfl := Option.some.inj hc
    have hnext := hset.next opt.1 opt.2 rc
    simp only [Setup.resume, after, if_true, Options.resume]
    cases rest with
    | nil => exact ⟨hrz, heq ▸ hnext.has, checks_start hs sock .rcv⟩
    | cons opt' rest => exact ⟨hrz, done ++ [opt], by rw [heq, List.append_assoc]; rfl, hnext⟩
  | checking k =>
    obtain ⟨hrz, hhas, hk⟩ := h
    simp only [Setup.resume, Options.resume]
    rcases hk.sets hint hc with ⟨v, rfl, hv⟩ | hsame
    · simp only [after, if_true]
      exact inv_checked (s := ⟨⟨sock, .checking k⟩, _, rendezvous⟩) hs ⟨sock, _⟩ hrz (hhas.snoc hv rc) (hk.resume rc)
    · rw [hsame]
      exact inv_checked hs ⟨sock, _⟩ hrz hhas (hk.resume rc)
  | rendezvous =>
    obtain ⟨hon, hhas⟩ := h
    obtain rfl := Option.some.inj hc
    simp only [Setup.resume, after, if_true, Options.resume]
    exact ⟨iff_of_true (Option.some_ne_none rc) hon, hhas⟩
  | returned => cases hc
  | died => cases hc

end Setup

namespace SocketOptions

variable {options : UdtOptions} {isRendezvous : Bool} {code : UdtOpt → ℕ} {p q : SocketOptions}

theorem answer_cases {i : ℕ} {rc : ℤ} (h : p.answer options isRendezvous i rc = some q) :
    ∃ s c, p.calls[i]? = some s ∧ s.opts.call = some c ∧
      q = ⟨p.mem.after c, p.calls.set i (s.resume options isRendezvous c rc)⟩ := by
  unfold answer at h
  obtain ⟨s, hs, h⟩ := Option.bind_eq_some_iff.1 h
  obtain ⟨c, hc, h⟩ := Option.bind_eq_some_iff.1 h
  split_ifs at h
  exact ⟨s, c, hs, hc, (Option.some.inj h).symm⟩

/-- **Run lemma.** Whatever the calls do to the static variables, each keeps its own invariant. -/
theorem run_inv (hs : Arguments.Sorted code options) (hint : ∀ e ∈ options, InInt e.2) {ls : List Label}
    (h : (system options isRendezvous).exec start ls = some p) : ∀ s ∈ p.calls, Setup.Inv options isRendezvous s := by
  refine System.exec_inv (fun p => ∀ s ∈ p.calls, Setup.Inv options isRendezvous s) ?_ h (List.forall_mem_nil _)
  intro p l q hp hstep
  simp only [system, step] at hstep
  split_ifs at hstep
  cases l with
  | enter sock =>
    obtain rfl := Option.some.inj hstep
    intro s hmem
    rcases List.mem_append.1 hmem with hmem | hmem
    · exact hp s hmem
    · obtain rfl := List.mem_singleton.1 hmem
      exact Setup.inv_start hs sock
  | answer i rc =>
    obtain ⟨s, c, hget, hc, rfl⟩ := answer_cases hstep
    intro t hmem
    rcases List.mem_or_eq_of_mem_set hmem with hmem | rfl
    · exact hp t hmem
    · exact (hp s (List.mem_of_getElem? hget)).resume hs hint hc rc

/-! ## Main result -/

/-- UDT was asked for the options of the command line, and the socket has those that UDT has not refused -/
structure Configured (ls : List Arguments.Label) (s : Setup) : Prop where
  given : ∀ o v, Arguments.LastGiven ls o v → ∃ rc, ⟨o, v, rc⟩ ∈ s.attempts
  meant : ∀ a ∈ s.attempts, Arguments.LastGiven ls a.opt a.value ∨
    ((∀ v, ¬ Arguments.LastGiven ls a.opt v) ∧ ∃ b : Buf, a.opt = b.optcode)
  installed : ∀ o v, Arguments.LastGiven ls o v →
    s.installed o = some v ∨ (s.installed o = none ∧ ∀ a ∈ s.attempts, a.opt = o → a.rc ≠ 0)
  rendezvous : s.rendezvous ≠ none ↔ ∃ optarg, .rendezvous optarg ∈ ls

/-- **What was asked for is what a socket has**, unless UDT refuses it. After a command line whose -U arguments have a
meaning, in every run of the threads that set up UDT sockets side by side, whatever the system and UDT answer: when
`setsockopt` returns, UDT was asked for each option with the value that was given last, and for no other value of it, so
that the option has this value or UDT has refused every call for it; UDT was asked for no other option but a UDP buffer;
and rendezvous mode was asked for exactly when there was a -R. -/
theorem asked_for {ls : List Arguments.Label} {w : Arguments} (hm : Arguments.Meant code ls)
    (hw : Arguments.system.exec Arguments.start ls = some w) {ms : List Label}
    (hp : (system w.udtOptions (ls.any Arguments.Label.isRendezvous)).exec start ms = some p) {s : Setup}
    (hmem : s ∈ p.calls) (hret : s.opts.pc = .returned) : Configured ls s := by
  have hrec := Arguments.recorded hm hw
  have hint : ∀ e ∈ w.udtOptions, InInt e.2 := by
    intro e he
    obtain ⟨-, l, -, -, ⟨-, text, -, hden⟩, -⟩ := (hrec.lookup e.1 e.2).1 (hrec.sorted.lookup_eq he)
    exact hden.inInt
  have hinv := run_inv hrec.sorted hint hp s hmem
  rw [Setup.Inv, hret] at hinv
  obtain ⟨hrz, hhas⟩ := hinv
  have hlist : ∀ o v, (o, v) ∈ w.udtOptions ↔ Arguments.LastGiven ls o v := by
    intro o v
    rw [← hrec.lookup o v]
    constructor
    · exact hrec.sorted.lookup_eq
    · intro hv
      obtain ⟨pre, post, heq, -⟩ := List.lookup_eq_some_iff.1 hv
      exact heq ▸ List.mem_append_right _ List.mem_cons_self
  have hmeant : ∀ a ∈ s.attempts, Arguments.LastGiven ls a.opt a.value ∨
      ((∀ v, ¬ Arguments.LastGiven ls a.opt v) ∧ ∃ b : Buf, a.opt = b.optcode) := by
    intro a ha
    rcases hhas.meant a ha with hopt | ⟨hno, hbuf⟩
    · exact Or.inl ((hlist _ _).1 hopt)
    · exact Or.inr ⟨fun v hv => hno v ((hlist _ _).2 hv), hbuf⟩
  refine ⟨fun o v hgiven => hhas.given o v ((hlist o v).2 hgiven), hmeant, ?_, ?_⟩
  · intro o v hgiven
    rcases s.installed_cases o with ⟨a, ha, rfl, -, hval⟩ | hnone
    · -- an attempt for an option that was given is for the value that was given
      rcases hmeant a ha with hgiven' | ⟨hno, -⟩
      · have heq := ((hrec.lookup _ _).2 hgiven').symm.trans ((hrec.lookup _ _).2 hgiven)
        rw [hval, Option.some.inj heq]
        exact Or.inl rfl
      · exact absurd hgiven (hno v)
    · exact Or.inr hnone
  · rw [hrz, List.any_eq_true]
    constructor
    · rintro ⟨l, hl, hon⟩
      cases l with
      | rendezvous optarg => exact ⟨optarg, hl⟩
      | udt pl optarg => cases hon
      | operands args => cases hon
    · rintro ⟨optarg, hl⟩
      exact ⟨_, hl, rfl⟩

/-- the numbers of the options -/
def udtCode : UdtOpt → ℕ
  | .mss => 0
  | .udtSndbuf => 5
  | .udtRcvbuf => 6
  | .linger => 7
  | .udpSndbuf => 8
  | .udpRcvbuf => 9

def platform : Platform := ⟨fun _ => 0, 0, fun _ => 0, udtCode⟩

/-- `UDT_MSS=`, a digit, and a k -/
def mssKilo (d : UInt8) : List UInt8 := ascii ['U', 'D', 'T', '_', 'M', 'S', 'S', '='] ++ [d, 107]

theorem denotes_mssKilo {d : UInt8} (h : isDigit d = true) (hint : InInt (1 * decimal [d] * 1024)) :
    Denotes (mssKilo d) .mss (1 * decimal [d] * 1024) := by
  refine ⟨⟨ascii ['U', 'D', 'T', '_', 'M', 'S', 'S'], [], [d], [107], 1, 1024, rfl, ?_, .none, by simp, ?_,
    .kilo 107 (Or.inl rfl), rfl⟩, hint⟩
  · exact ⟨_, List.mem_cons_self, by decide, rfl⟩
  · intro x hx
    obtain rfl := List.mem_singleton.1 hx
    exact h

/-- an option that is given twice, and -R in between -/
def mssTwice : List Arguments.Label :=
  [.udt platform (mssKilo 57), .rendezvous (ascii ['9']), .udt platform (mssKilo 56),
    .operands [ascii ['1'], ascii ['2'], ascii ['a']]]

theorem mssTwice_meant : Arguments.Meant udtCode mssTwice := by
  constructor
  · intro o o' h
    cases o <;> cases o' <;> first | rfl | cases h
  · intro pl s hmem
    rcases List.mem_cons.1 hmem with heq | hmem
    · obtain ⟨rfl, rfl⟩ := Arguments.Label.udt.inj heq
      exact ⟨rfl, _, _, denotes_mssKilo rfl (by decide)⟩
    rcases List.mem_cons.1 hmem with heq | hmem
    · cases heq
    rcases List.mem_cons.1 hmem with heq | hmem
    · obtain ⟨rfl, rfl⟩ := Arguments.Label.udt.inj heq
      exact ⟨rfl, _, _, denotes_mssKilo rfl (by decide)⟩
    · cases List.mem_singleton.1 hmem

/-- two threads; the first has found out a size when the second gets to its check -/
def sideBySide : List Label :=
  [.enter 3, .enter 4, .answer 0 0, .answer 1 0, .answer 0 16384, .answer 0 0, .answer 0 0, .answer 0 7, .answer 0 0,
    .answer 0 0, .answer 0 0, .answer 0 0, .answer 1 16384, .answer 0 0, .answer 1 16384, .answer 0 0, .answer 0 16384,
    .answer 0 0, .answer 0 0, .answer 0 7, .answer 0 0, .answer 0 0, .answer 0 0, .answer 0 0, .answer 0 0, .answer 0 0,
    .answer 0 0]

set_option maxRecDepth 10000 in
theorem asked_for_mssTwice :
    ∃ p s, (system [(.mss, 8192)] true).exec start sideBySide = some p ∧ s ∈ p.calls ∧
      s.installed .mss = some 8192 ∧ s.rendezvous = some 0 := by
  obtain ⟨w, hw, hoptions⟩ : ∃ w, Arguments.system.exec Arguments.start mssTwice = some w ∧
      w.udtOptions = [(.mss, 8192)] := System.exec_of_any (by decide)
  obtain ⟨p, hp, hany⟩ : ∃ p, (system [(.mss, 8192)] true).exec start sideBySide = some p ∧
      p.calls.any (fun s => decide (s.opts.pc = .returned ∧ s.rendezvous = some 0 ∧ s.installed .mss ≠ none)) = true :=
    System.exec_of_any (by decide)
  obtain ⟨s, hmem, hcond⟩ := List.any_eq_true.1 hany
  obtain ⟨hret, hrz, hset⟩ := of_decide_eq_true hcond
  have hconf := asked_for mssTwice_meant hw (hoptions ▸ hp) hmem hret
  have hgiven : Arguments.LastGiven mssTwice .mss 8192 := by
    refine ⟨[_, _], .udt platform (mssKilo 56), [_], rfl, ⟨platform, _, rfl, denotes_mssKilo rfl (by decide)⟩, ?_⟩
    intro l hl v
    obtain rfl := List.mem_singleton.1 hl
    rintro ⟨pl, s, ⟨⟩, -⟩
  rcases hconf.installed .mss 8192 hgiven with hval | ⟨hnone, -⟩
  · exact ⟨p, s, hp, hmem, hval, hrz⟩
  · exact absurd hnone hset

end SocketOptions

end UdtGate
