/-
The logger, `lib/logger.cpp`.

A call puts its format behind a mark for its kind, and that behind the process group when the syslog is on, in buffers
of a fixed size on its stack. What comes out is a format for `vfprintf` or `vsyslog`; its arguments are theirs. After
`vfprintf` the function looks at the character of its buffer that the length of the format it was given points at.

- `Logger`: the logger with its buffers, over any contents of the stack.
- `Journal`: what it is for, the lines one after the other, each cut where the buffer ends.
- `Safe`: the calls that read within the buffer. `log_info("")` and `log_die("")`, which the relay calls when it starts
  and when it ends, are not among them.
- `keeps_journal`: a run faults exactly with a call that is not safe, and until then it is the journal's.
-/
import Mathlib.Data.UInt
import UdtGate.Core.System
import UdtGate.Core.Cstring
import UdtGate.DumpStr

namespace UdtGate

open UdtGate.Core
open DumpStr (ascii)

/-! ## Model -/

def MAX_MSG_SZ : ℕ := 1024

namespace Logger

inductive Pri where
  | err
  | info
  | notice
  | warning
  | debug
deriving DecidableEq

inductive Sink where
  | stdout
  | stderr
  | syslog
deriving DecidableEq

/-- what is handed to `vfprintf` or `vsyslog` -/
structure Line where
  sink : Sink
  pri : Pri
  format : List UInt8
deriving DecidableEq

/-- what a call finds: the process group, and whatever is on the stack where its buffers are -/
structure Frame where
  pgrp : ℕ
  fmsg : { b : List UInt8 // b.length = MAX_MSG_SZ }
  msg : { b : List UInt8 // b.length = MAX_MSG_SZ }

abbrev Format := { t : List UInt8 // 0 ∉ t }

inductive Pc where
  | running
  /-- `exit(1)` -/
  | exited
  | fault (f : Fault)
deriving DecidableEq

end Logger

structure Logger where
  inter : Bool := true
  cont : Bool := false
  syslog : Bool := false
  debugLevel : ℤ := 0
  out : List Logger.Line := []
  pc : Logger.Pc := .running
deriving DecidableEq

namespace Logger

/-- `[%d] ` -/
def group (pgrp : ℕ) : List UInt8 := ascii (['['] ++ Nat.toDigits 10 pgrp ++ [']', ' '])

def sinkOf (pri : Pri) : Sink := if pri = .err then .stderr else .stdout

/-- `fmsg`, up to where it is handed on -/
def compose (syslog : Bool) (f : Frame) (fmt : List UInt8) : Except Fault (List UInt8) := do
  let fmsg := store f.fmsg.1 0 [0]
  let fmsg ← if syslog then putStr fmsg ((group f.pgrp).take (MAX_MSG_SZ - 1)) else .ok fmsg
  let s ← cstr fmsg
  strncat fmsg fmt (MAX_MSG_SZ - s.length - 1)

/-- `fmsg[strlen(fmt)-1]` -/
def lastRead (fmsg fmt : List UInt8) : Except Fault UInt8 :=
  if fmt = [] then .error .read
  else
    match fmsg[fmt.length - 1]? with
    | none => .error .read
    | some c => .ok c

def put (l : Logger) (line : Line) : Logger := { l with out := l.out ++ [line] }

/-- the rest of `_log_msg` -/
def emit (l : Logger) (pri : Pri) (fmt fmsg : List UInt8) : Logger :=
  match cstr fmsg with
  | .error f => { l with pc := .fault f }
  | .ok text =>
    if l.syslog then l.put ⟨.syslog, pri, text⟩
    else
      let l := l.put ⟨sinkOf pri, pri, text⟩
      match lastRead fmsg fmt with
      | .error f => { l with pc := .fault f }
      | .ok c => { l with cont := c ≠ 10 }

/-- `_log_msg` -/
def logMsg (l : Logger) (f : Frame) (pri : Pri) (fmt : List UInt8) : Logger :=
  match compose l.syslog f fmt with
  | .error e => { l with pc := .fault e }
  | .ok fmsg => l.emit pri fmt fmsg

/-- `msg` of `_log_msg_pref` -/
def prefixed (f : Frame) (pref fmt : List UInt8) : Except Fault (List UInt8) := do
  let msg ← strncpy f.msg.1 pref (MAX_MSG_SZ - 1)
  let s ← cstr msg
  let msg ← strncat msg fmt (MAX_MSG_SZ - s.length - 1)
  cstr msg

/-- `_log_msg_pref` -/
def logMsgPref (l : Logger) (f : Frame) (pref : List UInt8) (pri : Pri) (fmt : List UInt8) : Logger :=
  match prefixed f pref fmt with
  | .error e => { l with pc := .fault e }
  | .ok msg => l.logMsg f pri msg

/-- `max_sz` -/
def PREF_SZ : ℕ := 7

/-- `pref` of `_log_debug`: an arrow for each level, as far as there is room, and a blank -/
def arrows (level : ℤ) : List UInt8 := List.replicate (min level.toNat (PREF_SZ - 2)) 62 ++ [32]

inductive Event where
  /-- with the frame of the call behind it, too -/
  | die (f g : Frame) (fmt : Format)
  /-- `log_debug` without a level -/
  | debug (f : Frame) (fmt : Format)
  | debugAt (f : Frame) (level : ℤ) (fmt : Format)
  | info (f : Frame) (fmt : Format)
  | notice (f : Frame) (fmt : Format)
  | warning (f : Frame) (fmt : Format)
  | err (f : Frame) (fmt : Format)
  | setInteractive (state : Bool)
  | setDebugLevel (dl : ℤ)
  | syslogOn
  | syslogOff

/-- "Exiting.\n" -/
def exiting : List UInt8 := ascii ['E', 'x', 'i', 't', 'i', 'n', 'g', '.', '\n']

/-- `exit(1)`, when it is reached -/
def exit (l : Logger) : Logger := if l.pc = .running then { l with pc := .exited } else l

/-- `log_die`, behind its message -/
def die (l : Logger) (g : Frame) : Logger :=
  if l.pc = .running ∧ l.inter = false then exit (l.logMsg g .err exiting) else exit l

def act (l : Logger) : Event → Logger
  | .die f g fmt => (l.logMsg f .err fmt.1).die g
  | .debug f fmt => l.logMsgPref f (arrows 1) .debug fmt.1
  | .debugAt f level fmt => if level ≤ l.debugLevel then l.logMsgPref f (arrows level) .debug fmt.1 else l
  | .info f fmt => l.logMsg f .info fmt.1
  | .notice f fmt => l.logMsgPref f (ascii ['*', ' ']) .notice fmt.1
  | .warning f fmt => l.logMsgPref f (ascii ['!', ' ']) .warning fmt.1
  | .err f fmt => l.logMsg f .err fmt.1
  | .setInteractive state => { l with inter := state }
  | .setDebugLevel dl => { l with debugLevel := dl }
  | .syslogOn => { l with syslog := true }
  | .syslogOff => { l with syslog := false }

def step (l : Logger) (e : Event) : Option Logger := if l.pc = .running then some (l.act e) else none

def system : System Logger Event := ⟨fun l => l = {}, step⟩

end Logger

/-! ## What the logger is for -/

/-- the lines one after the other -/
structure Journal where
  inter : Bool := true
  syslog : Bool := false
  debugLevel : ℤ := 0
  out : List Logger.Line := []
  ended : Bool := false

namespace Journal

open Logger

/-- a line with a mark in front of its format, cut to one less than the buffers have room for -/
def line (syslog : Bool) (f : Frame) (mark : List UInt8) (pri : Pri) (fmt : List UInt8) : Line :=
  if syslog then ⟨.syslog, pri, (group f.pgrp ++ (mark ++ fmt)).take (MAX_MSG_SZ - 1)⟩
  else ⟨sinkOf pri, pri, (mark ++ fmt).take (MAX_MSG_SZ - 1)⟩

def log (j : Journal) (f : Frame) (mark : List UInt8) (pri : Pri) (fmt : List UInt8) : Journal :=
  { j with out := j.out ++ [line j.syslog f mark pri fmt] }

def act (j : Journal) : Event → Journal
  | .die f g fmt =>
    let j := j.log f [] .err fmt.1
    { (if j.inter = false then j.log g [] .err exiting else j) with ended := true }
  | .debug f fmt => j.log f (arrows 1) .debug fmt.1
  | .debugAt f level fmt => if level ≤ j.debugLevel then j.log f (arrows level) .debug fmt.1 else j
  | .info f fmt => j.log f [] .info fmt.1
  | .notice f fmt => j.log f (ascii ['*', ' ']) .notice fmt.1
  | .warning f fmt => j.log f (ascii ['!', ' ']) .warning fmt.1
  | .err f fmt => j.log f [] .err fmt.1
  | .setInteractive state => { j with inter := state }
  | .setDebugLevel dl => { j with debugLevel := dl }
  | .syslogOn => { j with syslog := true }
  | .syslogOff => { j with syslog := false }

def step (j : Journal) (e : Event) : Option Journal := if j.ended then none else some (j.act e)

def system : System Journal Event := ⟨fun j => j = {}, step⟩

end Journal

/-! ## What a call comes to -/

namespace Logger

/-- the calls that read within `fmsg` -/
def Fits (l : Logger) (fmt : List UInt8) : Prop := l.syslog = true ∨ 1 ≤ fmt.length ∧ fmt.length ≤ MAX_MSG_SZ

instance (l : Logger) (fmt : List UInt8) : Decidable (l.Fits fmt) := inferInstanceAs (Decidable (_ ∨ _))

/-- a mark is in front of the others -/
def Safe (l : Logger) : Event → Prop
  | .die _ _ fmt => l.Fits fmt.1
  | .info _ fmt => l.Fits fmt.1
  | .err _ fmt => l.Fits fmt.1
  | _ => True

def Faulted (l : Logger) : Prop := ∃ f, l.pc = .fault f

/-- what a logger has done, as far as the journal goes -/
def view (l : Logger) : Journal := ⟨l.inter, l.syslog, l.debugLevel, l.out, decide (l.pc = .exited)⟩

variable {l : Logger} {fmt mark s t : List UInt8}

theorem digit_ne_zero {c : Char} (h : c.isDigit) : c.toUInt8 ≠ 0 := by
  intro h0
  have hmod : c.val.toNat % 2 ^ 8 = 0 := (UInt32.toNat_toUInt8 c.val).symm.trans (congrArg UInt8.toNat h0)
  have hrange : 48 ≤ c.val.toNat ∧ c.val.toNat ≤ 57 := by
    rw [Char.isDigit, Bool.and_eq_true, decide_eq_true_iff, decide_eq_true_iff] at h
    exact h
  omega

theorem group_nul (n : ℕ) : 0 ∉ group n := by
  intro h0
  obtain ⟨c, hc, h0⟩ := List.mem_map.1 h0
  rcases List.mem_append.1 hc with hc | hc
  · rcases List.mem_append.1 hc with hc | hc
    · obtain rfl := List.mem_singleton.1 hc
      cases h0
    · exact digit_ne_zero (Nat.isDigit_of_mem_toDigits (by decide) (by decide) hc) h0
  · rcases List.mem_cons.1 hc with rfl | hc
    · cases h0
    · obtain rfl := List.mem_singleton.1 hc
      cases h0

theorem arrows_nul (level : ℤ) : 0 ∉ arrows level := by
  intro h0
  rcases List.mem_append.1 h0 with h0 | h0
  · cases List.eq_of_mem_replicate h0
  · cases List.mem_singleton.1 h0

theorem length_arrows (level : ℤ) : 1 ≤ (arrows level).length ∧ (arrows level).length < PREF_SZ := by
  rw [arrows, List.length_append, List.length_replicate, List.length_singleton]
  have hle : min level.toNat (PREF_SZ - 2) ≤ PREF_SZ - 2 := Nat.min_le_right _ _
  have hsz : PREF_SZ = 7 := rfl
  omega

theorem take_append_take (s t : List UInt8) (n : ℕ) : (s ++ t.take n).take n = (s ++ t).take n := by
  rw [List.take_append, List.take_append, List.take_take, min_eq_left (Nat.sub_le n s.length)]

/-- `strncat` behind a string that is cut already -/
theorem strncat_cut {b : List UInt8} (hb : b.length = MAX_MSG_SZ) (hs : cstr b = .ok (s.take (MAX_MSG_SZ - 1)))
    (ht : 0 ∉ t) : ∃ b', strncat b t (MAX_MSG_SZ - (s.take (MAX_MSG_SZ - 1)).length - 1) = .ok b' ∧
      b'.length = MAX_MSG_SZ ∧ cstr b' = .ok ((s ++ t).take (MAX_MSG_SZ - 1)) := by
  have hmax : MAX_MSG_SZ = 1024 := rfl
  have hlen : (s.take (MAX_MSG_SZ - 1)).length = min (MAX_MSG_SZ - 1) s.length := List.length_take
  have hcut : MAX_MSG_SZ - (s.take (MAX_MSG_SZ - 1)).length - 1 = MAX_MSG_SZ - 1 - s.length := by omega
  have hroom : (t.take (MAX_MSG_SZ - 1 - s.length)).length ≤ MAX_MSG_SZ - 1 - s.length := List.length_take_le _ _
  obtain ⟨b', hcat, hlen', hstr⟩ := strncat_fits hs ht
    (show _ + (t.take (MAX_MSG_SZ - 1 - s.length)).length < b.length by omega)
  rw [← List.take_append] at hstr
  rw [hcut]
  exact ⟨b', hcat, hlen'.trans hb, hstr⟩

/-- what is in front of the format -/
def header (syslog : Bool) (f : Frame) : List UInt8 := if syslog then group f.pgrp else []

theorem compose_eq (syslog : Bool) (f : Frame) (h0 : 0 ∉ fmt) :
    ∃ b, compose syslog f fmt = .ok b ∧ b.length = MAX_MSG_SZ ∧
      cstr b = .ok ((header syslog f ++ fmt).take (MAX_MSG_SZ - 1)) := by
  have hfit : 0 + [(0 : UInt8)].length ≤ f.fmsg.1.length := by
    rw [f.fmsg.2]
    decide
  have hlen : (store f.fmsg.1 0 [0]).length = MAX_MSG_SZ := (length_store hfit).trans f.fmsg.2
  cases syslog with
  | false =>
    have hempty : cstr (store f.fmsg.1 0 [0]) = .ok ([].take (MAX_MSG_SZ - 1)) := by
      rw [store_zero]
      exact cstr_append List.not_mem_nil _
    obtain ⟨b, hcat, hb⟩ := strncat_cut hlen hempty h0
    exact ⟨b, bind_eq_ok.2 ⟨_, rfl, bind_eq_ok.2 ⟨_, hempty, hcat⟩⟩, hb⟩
  | true =>
    have hshort : ((group f.pgrp).take (MAX_MSG_SZ - 1)).length < (store f.fmsg.1 0 [0]).length := by
      have hle := List.length_take_le (MAX_MSG_SZ - 1) (group f.pgrp)
      have hmax : MAX_MSG_SZ = 1024 := rfl
      omega
    have hput := putStr_of_lt hshort
    have hgroup := cstr_putStr (fun h => group_nul f.pgrp (List.mem_of_mem_take h)) hput
    have hlen' : 0 + ((group f.pgrp).take (MAX_MSG_SZ - 1) ++ [0]).length ≤ (store f.fmsg.1 0 [0]).length := by
      rw [List.length_append, List.length_singleton]
      omega
    obtain ⟨b, hcat, hb⟩ := strncat_cut ((length_store hlen').trans hlen) hgroup h0
    exact ⟨b, bind_eq_ok.2 ⟨_, hput, bind_eq_ok.2 ⟨_, hgroup, hcat⟩⟩, hb⟩

theorem prefixed_eq (f : Frame) (hmark : mark.length < MAX_MSG_SZ - 1) (h0 : 0 ∉ mark) (h1 : 0 ∉ fmt) :
    prefixed f mark fmt = .ok ((mark ++ fmt).take (MAX_MSG_SZ - 1)) := by
  have hroom : MAX_MSG_SZ - 1 ≤ f.msg.1.length := by
    rw [f.msg.2]
    exact Nat.sub_le _ _
  obtain ⟨b, hcpy, hlen, hstr⟩ := strncpy_short hroom hmark h0
  have hwhole : mark.take (MAX_MSG_SZ - 1) = mark := List.take_of_length_le hmark.le
  obtain ⟨b', hcat, -, hstr'⟩ := strncat_cut (hlen.trans f.msg.2) (by rw [hwhole]; exact hstr) h1
  rw [hwhole] at hcat
  exact bind_eq_ok.2 ⟨b, hcpy, bind_eq_ok.2 ⟨mark, hstr, bind_eq_ok.2 ⟨b', hcat, hstr'⟩⟩⟩

/-- the character that the length of the format points at -/
theorem lastRead_ok {b : List UInt8} (hb : b.length = MAX_MSG_SZ) (h1 : 1 ≤ fmt.length)
    (hmax : fmt.length ≤ MAX_MSG_SZ) : ∃ c, lastRead b fmt = .ok c := by
  have hne : fmt ≠ [] := List.ne_nil_of_length_pos h1
  have hlt : fmt.length - 1 < b.length := by omega
  refine ⟨b[fmt.length - 1], ?_⟩
  rw [lastRead, if_neg hne, List.getElem?_eq_getElem hlt]

theorem lastRead_error {b : List UInt8} (hb : b.length = MAX_MSG_SZ)
    (h : ¬ (1 ≤ fmt.length ∧ fmt.length ≤ MAX_MSG_SZ)) : lastRead b fmt = .error .read := by
  by_cases hne : fmt = []
  · exact if_pos hne
  · have hpos : 0 < fmt.length := List.length_pos_iff.2 hne
    have hge : b.length ≤ fmt.length - 1 := by omega
    rw [lastRead, if_neg hne, List.getElem?_eq_none hge]

theorem logMsg_ok (f : Frame) (pri : Pri) (hrun : l.pc = .running) (h0 : 0 ∉ fmt) (h : l.Fits fmt) :
    (l.logMsg f pri fmt).pc = .running ∧ (l.logMsg f pri fmt).view = l.view.log f [] pri fmt := by
  obtain ⟨b, hcompose, hlen, hstr⟩ := compose_eq l.syslog f h0
  have hlog : l.view.log f [] pri fmt = { l.view with out := l.out ++ [Journal.line l.syslog f [] pri fmt] } := rfl
  rw [logMsg, hcompose, hlog]
  simp only [emit, hstr]
  cases hsys : l.syslog with
  | true =>
    rw [if_pos rfl]
    exact ⟨hrun, rfl⟩
  | false =>
    rcases h with h | ⟨h1, hmax⟩
    · rw [hsys] at h
      cases h
    · obtain ⟨c, hc⟩ := lastRead_ok hlen h1 hmax
      rw [if_neg (by decide), hc]
      exact ⟨hrun, rfl⟩

theorem logMsg_faulted (f : Frame) (pri : Pri) (h0 : 0 ∉ fmt) (h : ¬ l.Fits fmt) : (l.logMsg f pri fmt).Faulted := by
  obtain ⟨b, hcompose, hlen, hstr⟩ := compose_eq l.syslog f h0
  obtain ⟨hsys, hfmt⟩ := not_or.1 h
  rw [logMsg, hcompose]
  simp only [emit, hstr]
  rw [if_neg hsys, lastRead_error hlen hfmt]
  exact ⟨.read, rfl⟩

/-- a mark makes room for itself -/
theorem logMsgPref_ok (f : Frame) (pri : Pri) (hrun : l.pc = .running) (hmark : 1 ≤ mark.length)
    (hlt : mark.length < MAX_MSG_SZ - 1) (h0 : 0 ∉ mark) (h1 : 0 ∉ fmt) :
    (l.logMsgPref f mark pri fmt).pc = .running ∧ (l.logMsgPref f mark pri fmt).view = l.view.log f mark pri fmt := by
  have hcut : 0 ∉ (mark ++ fmt).take (MAX_MSG_SZ - 1) := by
    intro h
    exact (List.mem_append.1 (List.mem_of_mem_take h)).elim h0 h1
  have hfits : l.Fits ((mark ++ fmt).take (MAX_MSG_SZ - 1)) := by
    have hlen : ((mark ++ fmt).take (MAX_MSG_SZ - 1)).length = min (MAX_MSG_SZ - 1) (mark.length + fmt.length) := by
      rw [List.length_take, List.length_append]
    exact Or.inr ⟨by omega, by omega⟩
  have hline : Journal.line l.syslog f [] pri ((mark ++ fmt).take (MAX_MSG_SZ - 1)) =
      Journal.line l.syslog f mark pri fmt := by
    rw [Journal.line, Journal.line, List.nil_append, take_append_take, List.take_take, min_self]
  have hlog : l.view.log f [] pri ((mark ++ fmt).take (MAX_MSG_SZ - 1)) = l.view.log f mark pri fmt :=
    congrArg (fun t : Line => { l.view with out := l.out ++ [t] }) hline
  rw [logMsgPref, prefixed_eq f hlt h0 h1, ← hlog]
  exact logMsg_ok f pri hrun hcut hfits

theorem exiting_fits (l : Logger) : 0 ∉ exiting ∧ l.Fits exiting := ⟨by decide, Or.inr (by decide)⟩

theorem not_faulted (h : l.pc = .running) : ¬ l.Faulted := by
  rintro ⟨f, hf⟩
  rw [h] at hf
  cases hf

theorem exit_view (h : l.pc = .running) : ¬ (exit l).Faulted ∧ (exit l).view = { l.view with ended := true } := by
  rw [exit, if_pos h]
  exact ⟨fun ⟨_, hf⟩ => Pc.noConfusion hf, rfl⟩

theorem die_view (g : Frame) (h : l.pc = .running) : ¬ (l.die g).Faulted ∧
    (l.die g).view = { (if l.inter = false then l.view.log g [] .err exiting else l.view) with ended := true } := by
  by_cases hinter : l.inter = false
  · obtain ⟨h0, hfits⟩ := exiting_fits l
    obtain ⟨hrun, hview⟩ := logMsg_ok g .err h h0 hfits
    rw [die, if_pos ⟨h, hinter⟩, if_pos hinter, ← hview]
    exact exit_view hrun
  · rw [die, if_neg fun hc => hinter hc.2, if_neg hinter]
    exact exit_view h

/-- a fault stays one -/
theorem die_faulted (g : Frame) (h : l.Faulted) : (l.die g).Faulted := by
  obtain ⟨f, hf⟩ := h
  have hrun : l.pc ≠ .running := by
    intro hrun
    rw [hf] at hrun
    cases hrun
  rw [die, if_neg fun hc => hrun hc.1, exit, if_neg hrun]
  exact ⟨f, hf⟩

theorem act_safe {e : Event} (hrun : l.pc = .running) (h : Safe l e) :
    ¬ (l.act e).Faulted ∧ (l.act e).view = l.view.act e := by
  cases e with
  | die f g fmt =>
    obtain ⟨hpc, hview⟩ := logMsg_ok f .err hrun fmt.2 h
    obtain ⟨hend, hdie⟩ := die_view g hpc
    have hinter : (l.logMsg f .err fmt.1).inter = l.inter := congrArg Journal.inter hview
    rw [hinter, hview] at hdie
    exact ⟨hend, hdie⟩
  | debug f fmt =>
    obtain ⟨hpc, hview⟩ := logMsgPref_ok f .debug hrun (length_arrows 1).1 (by decide) (arrows_nul 1) fmt.2
    exact ⟨not_faulted hpc, hview⟩
  | debugAt f level fmt =>
    have hshow : l.view.debugLevel = l.debugLevel := rfl
    rw [act, Journal.act, hshow]
    split_ifs
    · have hlt : (arrows level).length < MAX_MSG_SZ - 1 := (length_arrows level).2.trans (by decide)
      obtain ⟨hpc, hview⟩ := logMsgPref_ok f .debug hrun (length_arrows level).1 hlt (arrows_nul level) fmt.2
      exact ⟨not_faulted hpc, hview⟩
    · exact ⟨not_faulted hrun, rfl⟩
  | info f fmt =>
    obtain ⟨hpc, hview⟩ := logMsg_ok f .info hrun fmt.2 h
    exact ⟨not_faulted hpc, hview⟩
  | notice f fmt =>
    have hmark : 1 ≤ (ascii ['*', ' ']).length ∧ (ascii ['*', ' ']).length < MAX_MSG_SZ - 1 ∧ 0 ∉ ascii ['*', ' '] := by
      decide
    obtain ⟨hpc, hview⟩ := logMsgPref_ok f .notice hrun hmark.1 hmark.2.1 hmark.2.2 fmt.2
    exact ⟨not_faulted hpc, hview⟩
  | warning f fmt =>
    have hmark : 1 ≤ (ascii ['!', ' ']).length ∧ (ascii ['!', ' ']).length < MAX_MSG_SZ - 1 ∧ 0 ∉ ascii ['!', ' '] := by
      decide
    obtain ⟨hpc, hview⟩ := logMsgPref_ok f .warning hrun hmark.1 hmark.2.1 hmark.2.2 fmt.2
    exact ⟨not_faulted hpc, hview⟩
  | err f fmt =>
    obtain ⟨hpc, hview⟩ := logMsg_ok f .err hrun fmt.2 h
    exact ⟨not_faulted hpc, hview⟩
  | setInteractive state => exact ⟨not_faulted hrun, rfl⟩
  | setDebugLevel dl => exact ⟨not_faulted hrun, rfl⟩
  | syslogOn => exact ⟨not_faulted hrun, rfl⟩
  | syslogOff => exact ⟨not_faulted hrun, rfl⟩

theorem act_faulted {e : Event} (h : ¬ Safe l e) : (l.act e).Faulted := by
  cases e with
  | die f g fmt => exact die_faulted g (logMsg_faulted f .err fmt.2 h)
  | info f fmt => exact logMsg_faulted f .info fmt.2 h
  | err f fmt => exact logMsg_faulted f .err fmt.2 h
  | debug | debugAt | notice | warning | setInteractive | setDebugLevel | syslogOn | syslogOff => exact absurd trivial h

theorem step_eq_some {e : Event} {m : Logger} (h : l.step e = some m) : l.pc = .running ∧ m = l.act e := by
  unfold step at h
  split_ifs at h with hrun
  exact ⟨hrun, (Option.some.inj h).symm⟩

/-- a safe call of a running logger is a step of the journal's -/
theorem view_step {e : Event} {m : Logger} (hs : l.step e = some m) (h : Safe l e) :
    l.view.step e = some m.view := by
  obtain ⟨hrun, rfl⟩ := step_eq_some hs
  have hended : l.view.ended = false := by
    rw [view, hrun]
    rfl
  rw [Journal.step, hended, (act_safe hrun h).2]
  rfl

/-- a run of safe calls is a run of the journal's -/
theorem view_exec {m : Logger} {es : List Event} (hs : system.exec l es = some m) (h : system.Meets Safe l es) :
    Journal.system.exec l.view es = some m.view := by
  induction es generalizing l with
  | nil =>
    obtain rfl := Option.some.inj hs
    rfl
  | cons e es ih =>
    obtain ⟨u, hu, hs⟩ := System.exec_cons.1 hs
    obtain ⟨hsafe, h⟩ := h
    rw [hu] at h
    exact System.exec_cons.2 ⟨u.view, view_step hu hsafe, ih hs h⟩

/-- **The journal is kept** until a call reads outside of its buffer, and it is exactly the calls that are not safe that
do. -/
theorem keeps_journal {m : Logger} {es : List Event} (hs : system.exec {} es = some m) :
    (¬ m.Faulted ↔ system.Meets Safe {} es) ∧
      (system.Meets Safe {} es → Journal.system.exec {} es = some m.view) := by
  refine ⟨?_, view_exec hs⟩
  have hexact : ∀ (l : Logger) e t, True → system.step l e = some t → (¬ t.Faulted ↔ ¬ l.Faulted ∧ Safe l e) := by
    intro l e t _ h
    obtain ⟨hrun, rfl⟩ := step_eq_some h
    constructor
    · intro hok
      exact ⟨not_faulted hrun, by_contra fun hsafe => hok (act_faulted hsafe)⟩
    · rintro ⟨-, hsafe⟩
      exact (act_safe hrun hsafe).1
  rw [System.meets_iff _ _ _ (fun _ _ _ _ _ => trivial) hexact hs trivial]
  exact and_iff_right (not_faulted rfl)

def emptyStack : Frame where
  pgrp := 1
  fmsg := ⟨List.replicate MAX_MSG_SZ 0, List.length_replicate⟩
  msg := ⟨List.replicate MAX_MSG_SZ 0, List.length_replicate⟩

/-- `log_info("")`, with the syslog and without -/
theorem keeps_journal_empty :
    (∃ m, system.exec {} [.syslogOn, .info emptyStack ⟨[], List.not_mem_nil⟩] = some m ∧
        Journal.system.exec {} [.syslogOn, .info emptyStack ⟨[], List.not_mem_nil⟩] = some m.view) ∧
      ∃ m, system.exec {} [.info emptyStack ⟨[], List.not_mem_nil⟩] = some m ∧ m.Faulted := by
  constructor
  · exact ⟨_, rfl, (keeps_journal rfl).2 ⟨trivial, Or.inl rfl, trivial⟩⟩
  · have hs : system.exec {} [.info emptyStack ⟨[], List.not_mem_nil⟩] =
        some (act {} (.info emptyStack ⟨[], List.not_mem_nil⟩)) := rfl
    refine ⟨_, hs, by_contra fun hok => ?_⟩
    have hsafe := (keeps_journal hs).1.1 hok
    exact absurd hsafe.1 (by decide : ¬ Fits {} [])

end Logger

end UdtGate
