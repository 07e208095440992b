/-
The command line, `main` up to its first fork.

`getopt` has taken the options apart: a label is an option with its argument, or what comes behind the options: the
process makes itself the leader of a group, and reads its operands. Most options count or set a flag. -C and -S exclude
each other, and each of them itself. The debug level and the number of bytes to dump are brought into line when all
options are read. -R, -U and the operands store texts, which is in `Arguments`.

- `Acceptable`: the options that do not end the process;
- `Configured`: what it is set to at its first fork, in terms of the options alone. `configured` says so, and when it
  comes to that fork;
- `globals`: what its children find.
-/
import UdtGate.Arguments
import UdtGate.Supervisor

namespace UdtGate

open UdtGate.Core UdtGate.Core.Scanf UdtGate.UdtOption
open DumpStr (ascii)

/-! ## Model -/

namespace CommandLine

inductive Pc where
  | options
  /-- behind the options, the leader of a process group -/
  | grouped
  /-- before the first fork -/
  | forking
  /-- `exit(0)` -/
  | helped
  /-- `exit(1)` -/
  | exited
  /-- `log_die` -/
  | died
  | fault (f : Fault)
deriving DecidableEq

def Pc.after : Arguments.Pc → Pc
  | .options => .options
  | .stored => .forking
  | .died => .died
  | .fault f => .fault f

inductive Label where
  | help
  | net
  | debug
  /-- -X; the library may make anything of a number that no `int` holds -/
  | dump (outOfRange : ℤ → ℤ) (optarg : List UInt8)
  | demonize
  | track
  | client
  | server
  /-- -R, -U, or the operands -/
  | text (l : Arguments.Label)
  /-- an option that `getopt` knows and the loop does not -/
  | other
  | unknown
  /-- the options are all read: what `setpgid` returns -/
  | setpgid (rc : ℤ)

end CommandLine

/-- `mode`, the class `globals`, and the texts -/
structure CommandLine where
  mode : RunMode := .dual
  netAccess : ℕ := 0
  debugLevel : ℕ := 0
  dumpMessage : ℤ := 0
  isTrackConnections : Bool := false
  isRendezvous : Bool := false
  isDemonize : Bool := false
  text : Arguments := Arguments.start
  pc : CommandLine.Pc := .options

namespace CommandLine

def atoi (outOfRange : ℤ → ℤ) (s : List UInt8) : ℤ :=
  match scanInt s with
  | none => 0
  | some (v, _) => if InInt v then v else outOfRange v

/-- -C or -S -/
def choose (c : CommandLine) (mode : RunMode) : CommandLine :=
  if c.mode ≠ .dual then { c with pc := .died } else { c with mode := mode }

def dump (c : CommandLine) (n : ℤ) : CommandLine :=
  { c with dumpMessage := n, pc := if n ≤ 0 ∨ 10000 < n then .died else c.pc }

/-- the debug level and the dump, when all options are read -/
def settle (c : CommandLine) : CommandLine :=
  let debugLevel := if 3 < c.debugLevel then 3 else c.debugLevel
  let debugLevel := if 0 < c.dumpMessage then 3 else debugLevel
  { c with
    debugLevel := debugLevel
    dumpMessage := if debugLevel = 3 ∧ c.dumpMessage = 0 then 20 else c.dumpMessage }

/-- what becomes of a text -/
def store (c : CommandLine) (l : Arguments.Label) : Option CommandLine :=
  (Arguments.step c.text l).map fun w => { c with text := w, pc := Pc.after w.pc }

/-- the loop over the options, and the call behind it -/
def option (c : CommandLine) : Label → Option CommandLine
  | .help => some { c with pc := .helped }
  | .net => some { c with netAccess := c.netAccess + 1 }
  | .debug => some { c with debugLevel := c.debugLevel + 1 }
  | .dump outOfRange optarg => some (c.dump (atoi outOfRange optarg))
  | .demonize => some { c with isDemonize := true }
  | .track => some { c with isTrackConnections := true }
  | .client => some (c.choose .client)
  | .server => some (c.choose .server)
  | .text (.rendezvous optarg) => { c with isRendezvous := true }.store (.rendezvous optarg)
  | .text (.udt pl optarg) => c.store (.udt pl optarg)
  | .text (.operands _) => none
  | .other => some c
  | .unknown => some { c with pc := .died }
  | .setpgid rc => some { c with pc := if rc < 0 then .exited else .grouped }

def step (c : CommandLine) (l : Label) : Option CommandLine :=
  match c.pc with
  | .options => c.option l
  | .grouped =>
    match l with
    | .text (.operands args) => c.settle.store (.operands args)
    | _ => none
  | _ => none

def system : System CommandLine Label := ⟨fun c => c = {}, step⟩

/-- what a child for `mode` finds, with the addresses that `getaddrinfo` made of the texts -/
def globals (c : CommandLine) (mode : Mode) (peeraddr peerRzvLocal : SockAddrIn) : Globals where
  mode := mode
  netAccess := c.netAccess
  debugLevel := c.debugLevel
  isRendezvous := c.isRendezvous
  peeraddr := peeraddr
  peerRzvLocal := peerRzvLocal

/-! ## What the options ask for -/

def Label.isNet : Label → Bool
  | .net => true
  | _ => false

def Label.isDebug : Label → Bool
  | .debug => true
  | _ => false

def Label.isDemonize : Label → Bool
  | .demonize => true
  | _ => false

def Label.isTrack : Label → Bool
  | .track => true
  | _ => false

def Label.isRendezvous : Label → Bool
  | .text (.rendezvous _) => true
  | _ => false

/-- the loop does not go on: -h, no option at all, or the end of the options -/
def Label.ends : Label → Bool
  | .help | .unknown | .setpgid _ => true
  | _ => false

def Label.dumped : Label → Option ℤ
  | .dump outOfRange optarg => some (atoi outOfRange optarg)
  | _ => none

def Label.mode : Label → Option RunMode
  | .client => some .client
  | .server => some .server
  | _ => none

def Label.stored : Label → Option Arguments.Label
  | .text l => some l
  | _ => none

/-- no option ends the process -/
structure Acceptable (ls : List Label) : Prop where
  goes_on : ∀ l ∈ ls, l.ends = false
  dumps : ∀ v ∈ ls.filterMap Label.dumped, 0 < v ∧ v ≤ 10000
  one_mode : (ls.filterMap Label.mode).length ≤ 1

/-- what the options up to here have set -/
structure Counted (ls : List Label) (c : CommandLine) : Prop where
  net : c.netAccess = ls.countP Label.isNet
  debug : c.debugLevel = ls.countP Label.isDebug
  dump : c.dumpMessage = (ls.filterMap Label.dumped).getLast?.getD 0
  track : c.isTrackConnections = ls.any Label.isTrack
  rendezvous : c.isRendezvous = ls.any Label.isRendezvous
  demonize : c.isDemonize = ls.any Label.isDemonize
  mode : c.mode = (ls.filterMap Label.mode).head?.getD .dual
  text : Arguments.system.exec Arguments.start (ls.filterMap Label.stored) = some c.text

/-! ## One option -/

variable {c t u : CommandLine} {l : Label} {ls : List Label}

/-- what a label sets, when the loop goes on behind it -/
structure Sets (u : CommandLine) (l : Label) (c : CommandLine) : Prop where
  net : c.netAccess = u.netAccess + if l.isNet then 1 else 0
  debug : c.debugLevel = u.debugLevel + if l.isDebug then 1 else 0
  dump : c.dumpMessage = l.dumped.getD u.dumpMessage
  track : c.isTrackConnections = (u.isTrackConnections || l.isTrack)
  rendezvous : c.isRendezvous = (u.isRendezvous || l.isRendezvous)
  demonize : c.isDemonize = (u.isDemonize || l.isDemonize)
  mode : c.mode = l.mode.getD u.mode
  text : Arguments.system.exec u.text l.stored.toList = some c.text

/-- the loop goes on behind a label -/
structure Passes (u : CommandLine) (l : Label) : Prop where
  goes_on : l.ends = false
  dumps : ∀ v ∈ l.dumped, 0 < v ∧ v ≤ 10000
  one_mode : l.mode ≠ none → u.mode = .dual

/-- an option that neither ends the process nor dumps nor chooses a mode -/
theorem passes_plain (hends : l.ends = false) (hdumped : l.dumped = none) (hmode : l.mode = none) : Passes u l where
  goes_on := hends
  dumps := by
    intro v hv
    rw [hdumped] at hv
    cases hv
  one_mode := fun hm => absurd hmode hm

theorem store_eq_some {m : Arguments.Label} (h : c.store m = some t) :
    ∃ w, Arguments.step c.text m = some w ∧ t = { c with text := w, pc := Pc.after w.pc } := by
  obtain ⟨w, hw, ht⟩ := Option.map_eq_some_iff.1 h
  exact ⟨w, hw, ht.symm⟩

theorem text_running {w v : Arguments} {m : Arguments.Label} (h : Arguments.step w m = some v) : w.pc = .options := by
  unfold Arguments.step at h
  split_ifs at h with hrun
  exact hrun

/-- the operands are the last that is read -/
theorem operands_end {w v : Arguments} {args : List (List UInt8)} (h : w.operands args = .ok v) : v.pc ≠ .options := by
  match args with
  | [] | [_] | [_, _] =>
    obtain rfl := Except.ok.inj h
    exact Arguments.Pc.noConfusion
  | socks :: listen :: peer :: rest =>
    obtain ⟨socksPort, -, h⟩ := bind_eq_ok.1 h
    obtain ⟨listenPort, -, h⟩ := bind_eq_ok.1 h
    obtain ⟨addr, -, h⟩ := bind_eq_ok.1 h
    obtain ⟨remotePort, -, h⟩ := bind_eq_ok.1 h
    obtain ⟨remotePort', -, h⟩ := bind_eq_ok.1 h
    obtain rfl := Except.ok.inj h
    exact Arguments.Pc.noConfusion

theorem step_operands_end {w v : Arguments} {args : List (List UInt8)}
    (h : Arguments.step w (.operands args) = some v) : v.pc ≠ .options := by
  unfold Arguments.step at h
  split_ifs at h
  obtain rfl := Option.some.inj h
  cases hw : w.operands args with
  | error f => exact Arguments.Pc.noConfusion
  | ok v => exact operands_end hw

theorem after_eq_options {pc : Arguments.Pc} (h : Pc.after pc = .options) : pc = .options := by
  cases pc with
  | options => rfl
  | stored | died | fault => cases h

theorem after_eq_forking {pc : Arguments.Pc} (h : Pc.after pc = .forking) : pc = .stored := by
  cases pc with
  | stored => rfl
  | options | died | fault => cases h

/-- a label is read in the loop, or behind it the operands -/
theorem step_cases (h : step u l = some c) :
    (u.pc = .options ∧ u.option l = some c) ∨
      (u.pc = .grouped ∧ ∃ args w, l = .text (.operands args) ∧ Arguments.step u.text (.operands args) = some w ∧
        w.pc ≠ .options ∧ c = { u.settle with text := w, pc := Pc.after w.pc }) := by
  unfold step at h
  split at h
  · rename_i hpc
    exact Or.inl ⟨hpc, h⟩
  · rename_i hpc
    split at h
    · rename_i args
      obtain ⟨w, hw, hc⟩ := store_eq_some h
      exact Or.inr ⟨hpc, args, w, rfl, hw, step_operands_end hw, hc⟩
    · cases h
  · cases h

/-- while options are read, all labels are -/
theorem step_options (h : step u l = some c) (hc : c.pc = .options) : u.pc = .options ∧ u.option l = some c := by
  rcases step_cases h with hrun | ⟨-, args, w, -, -, hw, rfl⟩
  · exact hrun
  · exact absurd (after_eq_options hc) hw

theorem exec_single {w v : Arguments} {m : Arguments.Label} (h : Arguments.step w m = some v) :
    Arguments.system.exec w [m] = some v :=
  System.exec_cons.2 ⟨v, h, rfl⟩

theorem choose_options {mode : RunMode} (hc : (u.choose mode).pc = .options) :
    u.mode = .dual ∧ u.choose mode = { u with mode := mode } := by
  by_cases hmode : u.mode = .dual
  · exact ⟨hmode, if_neg (not_not.2 hmode)⟩
  · rw [choose, if_pos hmode] at hc
    cases hc

theorem option_sets (h : u.option l = some c) (hc : c.pc = .options) : Passes u l ∧ Sets u l c := by
  cases l with
  | help | unknown =>
    obtain rfl := Option.some.inj h
    cases hc
  | setpgid rc =>
    obtain rfl := Option.some.inj h
    simp only at hc
    split_ifs at hc
  | net | debug | demonize | track | other =>
    obtain rfl := Option.some.inj h
    refine ⟨passes_plain rfl rfl rfl, ?_⟩
    constructor <;> simp [Label.isNet, Label.isDebug, Label.dumped, Label.isTrack, Label.isRendezvous,
      Label.isDemonize, Label.mode, Label.stored]
  | dump outOfRange optarg =>
    obtain rfl := Option.some.inj h
    have hrange : ¬ (atoi outOfRange optarg ≤ 0 ∨ 10000 < atoi outOfRange optarg) := by
      intro hbad
      rw [dump, if_pos hbad] at hc
      cases hc
    refine ⟨⟨rfl, ?_, fun hm => absurd rfl hm⟩, ⟨rfl, rfl, rfl, ?_, ?_, ?_, rfl, rfl⟩⟩
    · intro v hv
      obtain rfl := Option.some.inj hv
      omega
    all_goals exact (Bool.or_false _).symm
  | client | server =>
    obtain rfl := Option.some.inj h
    obtain ⟨hmode, heq⟩ := choose_options hc
    rw [heq]
    refine ⟨⟨rfl, nofun, fun _ => hmode⟩, rfl, rfl, rfl, ?_, ?_, ?_, rfl, rfl⟩
    all_goals exact (Bool.or_false _).symm
  | text m =>
    cases m with
    | rendezvous optarg =>
      obtain ⟨w, hw, rfl⟩ := store_eq_some h
      exact ⟨passes_plain rfl rfl rfl, rfl, rfl, rfl, (Bool.or_false _).symm, (Bool.or_true _).symm,
        (Bool.or_false _).symm, rfl, exec_single hw⟩
    | udt pl optarg =>
      obtain ⟨w, hw, rfl⟩ := store_eq_some h
      exact ⟨passes_plain rfl rfl rfl, rfl, rfl, rfl, (Bool.or_false _).symm, (Bool.or_false _).symm,
        (Bool.or_false _).symm, rfl, exec_single hw⟩
    | operands args => cases h

/-! ## All options -/

/-- no mode but the two that an option asks for is asked for -/
theorem modes_eq_nil (h : (ls.filterMap Label.mode).head?.getD .dual = .dual) : ls.filterMap Label.mode = [] := by
  cases hmodes : ls.filterMap Label.mode with
  | nil => rfl
  | cons m ms =>
    rw [hmodes] at h
    have hm : m ∈ ls.filterMap Label.mode := by
      rw [hmodes]
      exact List.mem_cons_self
    obtain ⟨l, -, hl⟩ := List.mem_filterMap.1 hm
    obtain rfl : m = .dual := h
    cases l <;> cases hl

theorem stored_singleton (l : Label) : [l].filterMap Label.stored = l.stored.toList := by
  cases hl : l.stored with
  | none => simp [hl]
  | some m => simp [hl]

theorem Counted.snoc (h : Counted ls u) (hp : Passes u l) (hs : Sets u l c) : Counted (ls ++ [l]) c where
  net := by
    rw [hs.net, h.net, List.countP_append, List.countP_singleton]
  debug := by
    rw [hs.debug, h.debug, List.countP_append, List.countP_singleton]
  dump := by
    rw [hs.dump, h.dump, List.filterMap_append, List.getLast?_append]
    cases hl : l.dumped with
    | none => simp [hl]
    | some v => simp [hl]
  track := by
    rw [hs.track, h.track, List.any_append, List.any_cons, List.any_nil, Bool.or_false]
  rendezvous := by
    rw [hs.rendezvous, h.rendezvous, List.any_append, List.any_cons, List.any_nil, Bool.or_false]
  demonize := by
    rw [hs.demonize, h.demonize, List.any_append, List.any_cons, List.any_nil, Bool.or_false]
  mode := by
    rw [hs.mode, List.filterMap_append]
    cases hl : l.mode with
    | none => simp [hl, h.mode]
    | some m =>
      have hnil := modes_eq_nil (h.mode.symm.trans (hp.one_mode (by rw [hl]; exact Option.some_ne_none m)))
      simp [hl, hnil]
  text := by
    rw [List.filterMap_append]
    refine System.exec_append.2 ⟨u.text, h.text, ?_⟩
    rw [stored_singleton]
    exact hs.text

theorem counted_start : Counted [] {} := ⟨rfl, rfl, rfl, rfl, rfl, rfl, rfl, rfl⟩

theorem acceptable_nil : Acceptable [] := ⟨nofun, nofun, Nat.zero_le 1⟩

theorem Acceptable.snoc (h : Acceptable ls) (hu : Counted ls u) (hp : Passes u l) : Acceptable (ls ++ [l]) where
  goes_on := by
    intro m hm
    rcases List.mem_append.1 hm with hm | hm
    · exact h.goes_on m hm
    · rw [List.mem_singleton.1 hm]
      exact hp.goes_on
  dumps := by
    intro v hv
    rw [List.filterMap_append] at hv
    rcases List.mem_append.1 hv with hv | hv
    · exact h.dumps v hv
    · obtain ⟨m, hm, hv⟩ := List.mem_filterMap.1 hv
      rw [List.mem_singleton.1 hm] at hv
      exact hp.dumps v hv
  one_mode := by
    rw [List.filterMap_append, List.length_append]
    cases hl : l.mode with
    | none =>
      have hone := h.one_mode
      simpa [hl] using hone
    | some m =>
      have hnil := modes_eq_nil (hu.mode.symm.trans (hp.one_mode (by rw [hl]; exact Option.some_ne_none m)))
      simp [hl, hnil]

/-- while options are read, they are counted -/
theorem counted (h : system.exec {} ls = some c) (hc : c.pc = .options) : Acceptable ls ∧ Counted ls c := by
  induction ls using List.reverseRecOn generalizing c with
  | nil =>
    obtain rfl := Option.some.inj h
    exact ⟨acceptable_nil, counted_start⟩
  | append_singleton ls l ih =>
    obtain ⟨u, hu, hl⟩ := System.exec_snoc.1 h
    obtain ⟨hrun, hoption⟩ := step_options hl hc
    obtain ⟨hacceptable, hcounted⟩ := ih hu hrun
    obtain ⟨hpasses, hsets⟩ := option_sets hoption hc
    exact ⟨hacceptable.snoc hcounted hpasses, hcounted.snoc hpasses hsets⟩

theorem Acceptable.front {m : List Label} (h : Acceptable (ls ++ m)) : Acceptable ls where
  goes_on := fun l hl => h.goes_on l (List.mem_append_left m hl)
  dumps := by
    intro v hv
    apply h.dumps
    rw [List.filterMap_append]
    exact List.mem_append_left _ hv
  one_mode := by
    have hone := h.one_mode
    rw [List.filterMap_append, List.length_append] at hone
    omega

/-- an acceptable option is one that the loop goes on behind -/
theorem Acceptable.passes (h : Acceptable (ls ++ [l])) (hu : Counted ls u) : Passes u l where
  goes_on := h.goes_on l (List.mem_append_right ls List.mem_cons_self)
  dumps := by
    intro v hv
    apply h.dumps
    rw [List.filterMap_append]
    exact List.mem_append_right _ (List.mem_filterMap.2 ⟨l, List.mem_cons_self, hv⟩)
  one_mode := by
    intro hl
    obtain ⟨m, hm⟩ := Option.ne_none_iff_exists'.1 hl
    have hone := h.one_mode
    have hlast : ([l].filterMap Label.mode).length = 1 := by simp [hm]
    rw [List.filterMap_append, List.length_append, hlast] at hone
    have hnil : ls.filterMap Label.mode = [] := List.length_eq_zero_iff.1 (by omega)
    rw [hu.mode, hnil]
    rfl

theorem step_passes (hrun : u.pc = .options) (hp : Passes u l) {w : Arguments} (hw : w.pc = .options)
    (htext : Arguments.system.exec u.text l.stored.toList = some w) : ∃ c, step u l = some c ∧ c.pc = .options := by
  have hstep : step u l = u.option l := by simp only [step, hrun]
  rw [hstep]
  cases l with
  | help | unknown | setpgid => cases hp.goes_on
  | net | debug | demonize | track | other => exact ⟨_, rfl, hrun⟩
  | dump outOfRange optarg =>
    obtain ⟨hpos, hmax⟩ := hp.dumps _ rfl
    refine ⟨_, rfl, ?_⟩
    rw [dump, if_neg (by omega)]
    exact hrun
  | client | server =>
    have hmode := hp.one_mode (Option.some_ne_none _)
    refine ⟨_, rfl, ?_⟩
    rw [choose, if_neg (not_not.2 hmode)]
    exact hrun
  | text m =>
    obtain ⟨v, hv, hvw⟩ := System.exec_cons.1 htext
    obtain rfl := Option.some.inj hvw
    cases m with
    | rendezvous | udt => exact ⟨_, Option.map_eq_some_iff.2 ⟨v, hv, rfl⟩, by rw [hw]; rfl⟩
    | operands args => exact absurd hw (step_operands_end hv)

/-- acceptable options with texts that are stored are all read -/
theorem exists_counted {w : Arguments} (h : Acceptable ls)
    (htext : Arguments.system.exec Arguments.start (ls.filterMap Label.stored) = some w) (hw : w.pc = .options) :
    ∃ c, system.exec {} ls = some c ∧ c.pc = .options := by
  induction ls using List.reverseRecOn generalizing w with
  | nil => exact ⟨{}, rfl, rfl⟩
  | append_singleton ls l ih =>
    rw [List.filterMap_append] at htext
    obtain ⟨v, hv, hlast⟩ := System.exec_append.1 htext
    rw [stored_singleton] at hlast
    have hvpc : v.pc = .options := by
      cases hl : l.stored with
      | none =>
        rw [hl] at hlast
        obtain rfl := Option.some.inj hlast
        exact hw
      | some m =>
        rw [hl] at hlast
        obtain ⟨_, hstep, -⟩ := System.exec_cons.1 hlast
        exact text_running hstep
    obtain ⟨u, hu, hupc⟩ := ih h.front hv hvpc
    obtain ⟨-, hcounted⟩ := counted hu hupc
    obtain rfl := Option.some.inj (hcounted.text.symm.trans hv)
    obtain ⟨c, hc, hpc⟩ := step_passes hupc (h.passes hcounted) hw hlast
    exact ⟨c, System.exec_snoc.2 ⟨u, hu, hc⟩, hpc⟩

/-! ## All labels -/

/-- an option stores no operands -/
theorem rendezvous_ne_stored {w v : Arguments} {optarg : List UInt8} (h : w.rendezvous optarg = .ok v)
    (hrun : w.pc = .options) : v.pc ≠ .stored := by
  obtain ⟨lport, -, h⟩ := bind_eq_ok.1 h
  obtain ⟨rport, -, h⟩ := bind_eq_ok.1 h
  split_ifs at h
  · obtain rfl := Except.ok.inj h
    exact Arguments.Pc.noConfusion
  · obtain ⟨text, -, h⟩ := bind_eq_ok.1 h
    obtain ⟨rport', -, h⟩ := bind_eq_ok.1 h
    obtain rfl := Except.ok.inj h
    rw [hrun]
    exact Arguments.Pc.noConfusion

theorem udt_ne_stored {w v : Arguments} {pl : Platform} {optarg : List UInt8} (h : w.udt pl optarg = .ok v) :
    v.pc ≠ .stored := by
  obtain ⟨block, -, h⟩ := bind_eq_ok.1 h
  obtain ⟨r, -, h⟩ := bind_eq_ok.1 h
  obtain rfl := Except.ok.inj h
  simp only
  split_ifs
  · exact Arguments.Pc.noConfusion
  · exact Arguments.Pc.noConfusion

theorem stored_last {w v : Arguments} {m : Arguments.Label} (h : Arguments.step w m = some v) (hv : v.pc = .stored) :
    ∃ args, m = .operands args := by
  have hrun := text_running h
  unfold Arguments.step at h
  rw [if_pos hrun] at h
  cases m with
  | operands args => exact ⟨args, rfl⟩
  | rendezvous optarg =>
    obtain rfl := Option.some.inj h
    cases hr : w.rendezvous optarg with
    | error f =>
      rw [hr] at hv
      cases hv
    | ok v =>
      rw [hr] at hv
      exact absurd hv (rendezvous_ne_stored hr hrun)
  | udt pl optarg =>
    obtain rfl := Option.some.inj h
    cases hr : w.udt pl optarg with
    | error f =>
      rw [hr] at hv
      cases hv
    | ok v =>
      rw [hr] at hv
      exact absurd hv (udt_ne_stored hr)

/-- the loop does not get to the forks -/
theorem option_ne_forking (h : u.option l = some c) (hrun : u.pc = .options) : c.pc ≠ .forking := by
  intro hc
  cases l with
  | help | unknown =>
    obtain rfl := Option.some.inj h
    cases hc
  | setpgid rc =>
    obtain rfl := Option.some.inj h
    simp only at hc
    split_ifs at hc
  | net | debug | demonize | track | other =>
    obtain rfl := Option.some.inj h
    rw [hrun] at hc
    cases hc
  | dump outOfRange optarg =>
    obtain rfl := Option.some.inj h
    simp only [dump, hrun] at hc
    split_ifs at hc
  | client | server =>
    obtain rfl := Option.some.inj h
    unfold choose at hc
    split_ifs at hc
    rw [hrun] at hc
    cases hc
  | text m =>
    cases m with
    | operands args => cases h
    | rendezvous | udt =>
      obtain ⟨w, hw, rfl⟩ := store_eq_some h
      obtain ⟨_, hm⟩ := stored_last hw (after_eq_forking hc)
      cases hm

/-- the loop is left by `setpgid` -/
theorem option_grouped (h : u.option l = some c) (hrun : u.pc = .options) (hc : c.pc = .grouped) :
    ∃ rc, l = .setpgid rc ∧ 0 ≤ rc ∧ c = { u with pc := .grouped } := by
  cases l with
  | setpgid rc =>
    obtain rfl := Option.some.inj h
    by_cases hneg : rc < 0
    · rw [if_pos hneg] at hc
      cases hc
    · exact ⟨rc, rfl, not_lt.1 hneg, by rw [if_neg hneg]⟩
  | help | unknown =>
    obtain rfl := Option.some.inj h
    cases hc
  | net | debug | demonize | track | other =>
    obtain rfl := Option.some.inj h
    rw [hrun] at hc
    cases hc
  | dump outOfRange optarg =>
    obtain rfl := Option.some.inj h
    simp only [dump, hrun] at hc
    split_ifs at hc
  | client | server =>
    obtain rfl := Option.some.inj h
    unfold choose at hc
    split_ifs at hc
    rw [hrun] at hc
    cases hc
  | text m =>
    cases m with
    | operands args => cases h
    | rendezvous | udt =>
      obtain ⟨w, hw, rfl⟩ := store_eq_some h
      simp only at hc
      cases hpc : w.pc <;> rw [hpc] at hc <;> cases hc

/-- behind the loop only the operands are read -/
theorem step_grouped (h : step u l = some c) (hc : c.pc = .grouped) :
    u.pc = .options ∧ ∃ rc, l = .setpgid rc ∧ 0 ≤ rc ∧ c = { u with pc := .grouped } := by
  rcases step_cases h with ⟨hrun, hoption⟩ | ⟨-, args, w, -, -, -, rfl⟩
  · exact ⟨hrun, option_grouped hoption hrun hc⟩
  · simp only at hc
    cases hpc : w.pc <;> rw [hpc] at hc <;> cases hc

/-- it is the operands that lead to the forks -/
theorem step_forking (h : step u l = some c) (hc : c.pc = .forking) :
    u.pc = .grouped ∧ ∃ args w, l = .text (.operands args) ∧ Arguments.step u.text (.operands args) = some w ∧
      w.pc = .stored ∧ c = { u.settle with text := w, pc := .forking } := by
  rcases step_cases h with ⟨hrun, hoption⟩ | ⟨hpc, args, w, rfl, hw, -, rfl⟩
  · exact absurd hc (option_ne_forking hoption hrun)
  · have hstored := after_eq_forking hc
    exact ⟨hpc, args, w, rfl, hw, hstored, by rw [hstored]; rfl⟩

/-- what `main` is set to at its first fork, by the options and operands `ls` -/
structure Configured (ls : List Label) (c : CommandLine) : Prop where
  net : c.netAccess = ls.countP Label.isNet
  level : c.debugLevel = if ls.filterMap Label.dumped = [] then min (ls.countP Label.isDebug) 3 else 3
  dump : c.dumpMessage = (ls.filterMap Label.dumped).getLast?.getD (if 3 ≤ ls.countP Label.isDebug then 20 else 0)
  track : c.isTrackConnections = ls.any Label.isTrack
  rendezvous : c.isRendezvous = ls.any Label.isRendezvous
  demonize : c.isDemonize = ls.any Label.isDemonize
  mode : c.mode = (ls.filterMap Label.mode).head?.getD .dual
  text : Arguments.system.exec Arguments.start (ls.filterMap Label.stored) = some c.text

/-- the debug level and the dump agree with each other -/
structure InLine (c : CommandLine) : Prop where
  level_le : c.debugLevel ≤ 3
  level_iff : c.debugLevel = 3 ↔ 0 < c.dumpMessage
  dump_nonneg : 0 ≤ c.dumpMessage
  dump_le : c.dumpMessage ≤ 10000

theorem settle_none (h : u.dumpMessage = 0) :
    u.settle.debugLevel = min u.debugLevel 3 ∧ u.settle.dumpMessage = if 3 ≤ u.debugLevel then 20 else 0 := by
  simp only [settle, h, lt_irrefl, if_false, and_true]
  constructor
  · split_ifs <;> omega
  · split_ifs <;> omega

theorem settle_some (h : 0 < u.dumpMessage) :
    u.settle.debugLevel = 3 ∧ u.settle.dumpMessage = u.dumpMessage := by
  simp only [settle, h, if_true, true_and]
  rw [if_neg h.ne']

/-- the last -X option, or none -/
theorem Counted.dump_cases (h : Counted ls u) (ha : Acceptable ls) :
    (ls.filterMap Label.dumped = [] ∧ u.dumpMessage = 0) ∨
      ∃ v, (ls.filterMap Label.dumped).getLast? = some v ∧ u.dumpMessage = v ∧ 0 < v ∧ v ≤ 10000 := by
  rw [h.dump]
  cases hlast : (ls.filterMap Label.dumped).getLast? with
  | none => exact Or.inl ⟨List.getLast?_eq_none_iff.1 hlast, rfl⟩
  | some v => exact Or.inr ⟨v, rfl, rfl, ha.dumps v (List.mem_of_getLast? hlast)⟩

/-- no mode is chosen behind the options -/
theorem modes_operands (ls : List Label) (rc : ℤ) (args : List (List UInt8)) :
    (ls ++ [Label.setpgid rc, .text (.operands args)]).filterMap Label.mode = ls.filterMap Label.mode := by
  simp [Label.mode]

theorem configured_of_counted {rc : ℤ} {args : List (List UInt8)} {w : Arguments} (h : Counted ls u)
    (ha : Acceptable ls) (hw : Arguments.step u.text (.operands args) = some w) :
    Configured (ls ++ [.setpgid rc, .text (.operands args)]) { u.settle with text := w, pc := .forking } ∧
      InLine { u.settle with text := w, pc := .forking } := by
  have hdumped : (ls ++ [Label.setpgid rc, .text (.operands args)]).filterMap Label.dumped =
      ls.filterMap Label.dumped := by
    simp [Label.dumped]
  have hdebug : (ls ++ [Label.setpgid rc, .text (.operands args)]).countP Label.isDebug = ls.countP Label.isDebug := by
    simp [Label.isDebug]
  have hset : u.settle.debugLevel = (if ls.filterMap Label.dumped = [] then min (ls.countP Label.isDebug) 3 else 3) ∧
      u.settle.dumpMessage =
        (ls.filterMap Label.dumped).getLast?.getD (if 3 ≤ ls.countP Label.isDebug then 20 else 0) ∧
      InLine u.settle := by
    rcases h.dump_cases ha with ⟨hnil, hdump⟩ | ⟨v, hlast, hdump, hpos, hmax⟩
    · obtain ⟨hlevel, hmessage⟩ := settle_none hdump
      rw [h.debug] at hlevel hmessage
      refine ⟨by rw [hnil, if_pos rfl, hlevel], by rw [hnil, hmessage]; rfl, ?_⟩
      split_ifs at hmessage <;> constructor <;> omega
    · have hne : ls.filterMap Label.dumped ≠ [] := by
        intro hnil
        rw [hnil] at hlast
        cases hlast
      obtain ⟨hlevel, hmessage⟩ := settle_some (hdump ▸ hpos)
      refine ⟨by rw [if_neg hne, hlevel], by rw [hlast, hmessage, hdump]; rfl, ?_⟩
      constructor <;> omega
  obtain ⟨hlevel, hmessage, hline⟩ := hset
  refine ⟨⟨?_, ?_, ?_, ?_, ?_, ?_, ?_, ?_⟩, ⟨hline.1, hline.2, hline.3, hline.4⟩⟩
  · simp [settle, h.net, Label.isNet]
  · rw [hdumped, hdebug]
    exact hlevel
  · rw [hdumped, hdebug]
    exact hmessage
  · simp [settle, h.track, Label.isTrack]
  · simp [settle, h.rendezvous, Label.isRendezvous]
  · simp [settle, h.demonize, Label.isDemonize]
  · rw [modes_operands]
    exact h.mode
  · rw [List.filterMap_append]
    exact System.exec_append.2 ⟨u.text, h.text, exec_single hw⟩

theorem step_setpgid {rc : ℤ} (hrun : u.pc = .options) (hrc : 0 ≤ rc) :
    step u (.setpgid rc) = some { u with pc := .grouped } := by
  simp only [step, hrun, option, if_neg (not_lt.2 hrc)]

theorem step_operands {args : List (List UInt8)} {w : Arguments}
    (hw : Arguments.step u.text (.operands args) = some w) (hstored : w.pc = .stored) :
    step { u with pc := .grouped } (.text (.operands args)) = some { u.settle with text := w, pc := .forking } := by
  simp only [step]
  exact Option.map_eq_some_iff.2 ⟨w, hw, by rw [hstored]; rfl⟩

/-- a run up to the forks has options, and operands behind them -/
theorem options_operands (h : system.exec {} ls = some c) (hc : c.pc = .forking) : ∃ opts rc args w u,
    ls = opts ++ [.setpgid rc, .text (.operands args)] ∧ 0 ≤ rc ∧ Acceptable opts ∧ Counted opts u ∧
      Arguments.step u.text (.operands args) = some w ∧ w.pc = .stored ∧
        c = { u.settle with text := w, pc := .forking } := by
  rcases List.eq_nil_or_concat' ls with rfl | ⟨front, l, rfl⟩
  · obtain rfl := Option.some.inj h
    cases hc
  obtain ⟨v, hv, hl⟩ := System.exec_snoc.1 h
  obtain ⟨hvpc, args, w, rfl, hw, hstored, rfl⟩ := step_forking hl hc
  rcases List.eq_nil_or_concat' front with rfl | ⟨opts, m, rfl⟩
  · obtain rfl := Option.some.inj hv
    cases hvpc
  obtain ⟨u, hu, hm⟩ := System.exec_snoc.1 hv
  obtain ⟨hupc, rc, rfl, hrc, rfl⟩ := step_grouped hm hvpc
  obtain ⟨hacceptable, hcounted⟩ := counted hu hupc
  exact ⟨opts, rc, args, w, u, by rw [List.append_assoc]; rfl, hrc, hacceptable, hcounted, hw, hstored, rfl⟩

/-- the settings at the forks -/
theorem settings (h : system.exec {} ls = some c) (hc : c.pc = .forking) :
    (ls.filterMap Label.mode).length ≤ 1 ∧ Configured ls c ∧ InLine c := by
  obtain ⟨opts, rc, args, w, u, rfl, -, hacceptable, hcounted, hw, -, rfl⟩ := options_operands h hc
  refine ⟨?_, configured_of_counted hcounted hacceptable hw⟩
  rw [modes_operands]
  exact hacceptable.one_mode

/-- **The command line.** `main` comes to its forks exactly with options of which none ends the process, each on its own
or with the others, a `setpgid` that succeeds, and operands behind them, whose texts are stored. Then every setting is
what the options ask for, whatever their order. -/
theorem configured (ls : List Label) :
    ((∃ c, system.exec {} ls = some c ∧ c.pc = .forking) ↔
      (∃ opts rc args, ls = opts ++ [.setpgid rc, .text (.operands args)] ∧ 0 ≤ rc ∧ Acceptable opts) ∧
        ∃ w, Arguments.system.exec Arguments.start (ls.filterMap Label.stored) = some w ∧ w.pc = .stored) ∧
    ∀ c, system.exec {} ls = some c → c.pc = .forking → Configured ls c ∧ InLine c := by
  refine ⟨⟨?_, ?_⟩, fun c h hc => (settings h hc).2⟩
  · rintro ⟨c, h, hc⟩
    obtain ⟨-, hconfigured, -⟩ := settings h hc
    obtain ⟨opts, rc, args, w, u, hls, hrc, hacceptable, -, -, hstored, rfl⟩ := options_operands h hc
    exact ⟨⟨opts, rc, args, hls, hrc, hacceptable⟩, w, hconfigured.text, hstored⟩
  · rintro ⟨⟨opts, rc, args, rfl, hrc, hacceptable⟩, w, htext, hstored⟩
    rw [List.filterMap_append] at htext
    obtain ⟨v, hv, hlast⟩ := System.exec_append.1 htext
    obtain ⟨t, hstep, hend⟩ := System.exec_cons.1 hlast
    have hw : Arguments.step v (.operands args) = some w := hstep.trans hend
    obtain ⟨u, hu, hrun⟩ := exists_counted hacceptable hv (text_running hw)
    obtain ⟨-, hcounted⟩ := counted hu hrun
    obtain rfl := Option.some.inj (hcounted.text.symm.trans hv)
    refine ⟨{ u.settle with text := w, pc := .forking }, System.exec_append.2 ⟨u, hu, ?_⟩, rfl⟩
    exact System.exec_cons.2 ⟨_, step_setpgid hrun hrc, System.exec_cons.2 ⟨_, step_operands hw hstored, rfl⟩⟩

/-- `-d -N -X 50 -C 1 2 h` -/
def dumping : List Label :=
  [.debug, .net, .dump id (ascii ['5', '0']), .client, .setpgid 0,
    .text (.operands [ascii ['1'], ascii ['2'], ascii ['h']])]

set_option maxRecDepth 10000 in
theorem configured_dumping : ∃ c, system.exec {} dumping = some c ∧ c.debugLevel = 3 ∧ c.dumpMessage = 50 := by
  have hrun : ∃ c, system.exec {} dumping = some c ∧ c.pc = .forking := System.exec_of_any (by decide)
  obtain ⟨c, hc, hpc⟩ := hrun
  obtain ⟨hconfigured, -⟩ := (configured dumping).2 c hc hpc
  exact ⟨c, hc, hconfigured.level.trans (by decide), hconfigured.dump.trans (by decide)⟩

end CommandLine

end UdtGate
