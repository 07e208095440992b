/-
What `main` stores of its arguments, and `init` of minisocks of its environment.

The -R option goes to two static buffers of 129 characters with no width in its format, the three operands to four more
that all have one, and the name of a -U option to a block of its own. `getopt` has taken the options apart: a label is
an option with its argument, or the operands behind the options. The options that store no text are left out.

- `Safe`: nothing was stored outside of its buffer, and what was stored ends in a NUL. `safe_of_fits` and
  `fault_of_not_fits` say what one argument does to it;
- `stores_fit_iff`: when a whole run is safe;
- `reachable_ready`: what the operands find in their buffers.
-/
import UdtGate.UdtOption

namespace UdtGate

open UdtGate.Core UdtGate.Core.Scanf UdtGate.UdtOption
open DumpStr (ascii)

/-! ## Model -/

def MAX_NAME_SZ : ℕ := 128

inductive Arguments.Pc where
  | options
  /-- all operands are stored -/
  | stored
  /-- `log_die` -/
  | died
  | fault (f : Fault)
deriving DecidableEq

/-- the static variables, and the name of the last -U option -/
structure Arguments where
  peerAddr : List UInt8
  peerListenPort : List UInt8
  peerRemotePort : List UInt8
  socksPort : List UInt8
  peerRzvLport : List UInt8
  peerRzvRport : List UInt8
  udtOptions : UdtOptions
  optname : Option (List UInt8)
  pc : Arguments.Pc
deriving DecidableEq

namespace Arguments

/-- `char s[MAX_NAME_SZ+1] = ""` -/
def emptyName : List UInt8 := List.replicate (MAX_NAME_SZ + 1) 0

def start : Arguments := ⟨emptyName, emptyName, emptyName, emptyName, emptyName, emptyName, [], none, .options⟩

def notColon (c : UInt8) : Bool := c != 58

/-- `%[^:]:%[^:]` -/
def pairFormat : List Item := [.set notColon none, .lit 58, .set notColon none]

/-- `%128[^:]:%128s`, with the width put in by `main` -/
def peerFormat : List Item := [.set notColon (some MAX_NAME_SZ), .lit 58, .str (some MAX_NAME_SZ)]

/-- -R -/
def rendezvous (w : Arguments) (optarg : List UInt8) : Except Fault Arguments := do
  let vals := sscanf pairFormat optarg
  let lport ← storeText w.peerRzvLport vals[0]?
  let rport ← storeText w.peerRzvRport vals[1]?
  if vals.length < 1 then
    return { w with peerRzvLport := lport, peerRzvRport := rport, pc := .died }
  -- the `=` in `if (c = 1)`: there is no other way
  let text ← cstr lport
  let rport ← putStr rport text
  return { w with peerRzvLport := lport, peerRzvRport := rport }

/-- -U -/
def udt (w : Arguments) (pl : Platform) (optarg : List UInt8) : Except Fault Arguments := do
  let block ← pl.storeName optarg
  let r ← parseUdtOption pl w.udtOptions optarg
  return { w with
    udtOptions := r.options
    optname := if (sscanf format optarg).length = 0 then w.optname else some block
    pc := if r.died = none then .options else .died }

/-- the remote port, by default the listen port -/
def defaultRemote (remotePort listenPort : List UInt8) : Except Fault (List UInt8) :=
  if remotePort.head? = some 0 then do
    let text ← cstr listenPort
    strncpy remotePort text MAX_NAME_SZ
  else .ok remotePort

/-- the arguments behind the options -/
def operands (w : Arguments) : List (List UInt8) → Except Fault Arguments
  | socks :: listen :: peer :: _ => do
    let socksPort ← strncpy w.socksPort socks MAX_NAME_SZ
    let listenPort ← strncpy w.peerListenPort listen MAX_NAME_SZ
    let vals := sscanf peerFormat peer
    let addr ← storeText w.peerAddr vals[0]?
    let remotePort ← storeText w.peerRemotePort vals[1]?
    let remotePort ← defaultRemote remotePort listenPort
    return { w with
      socksPort := socksPort, peerListenPort := listenPort, peerAddr := addr, peerRemotePort := remotePort
      pc := .stored }
  -- "missed arguments"
  | _ => .ok { w with pc := .died }

inductive Label where
  | rendezvous (optarg : List UInt8)
  | udt (pl : Platform) (optarg : List UInt8)
  | operands (args : List (List UInt8))

/-- `main` goes on, or has stored or read something outside of its buffer -/
def settle (w : Arguments) : Except Fault Arguments → Arguments
  | .ok t => t
  | .error f => { w with pc := .fault f }

def step (w : Arguments) (l : Label) : Option Arguments :=
  if w.pc = .options then
    match l with
    | .rendezvous optarg => some (w.settle (w.rendezvous optarg))
    | .udt pl optarg => some (w.settle (w.udt pl optarg))
    | .operands args => some (w.settle (w.operands args))
  else none

def system : System Arguments Label where
  init := fun w => w = start
  step := step

/-- "1080" and its NUL -/
def defaultPort : List UInt8 := ascii ['1', '0', '8', '0'] ++ [0]

/-- `init` of minisocks, up to `getaddrinfo`: the blocks for `host` and `port`. `none` when no server is set -/
def init (hostHeap portHeap : ℕ → UInt8) (servEnvVal : List UInt8) :
    Except Fault (Option (List UInt8 × List UInt8)) := do
  let vals := sscanf pairFormat servEnvVal
  let host ← storeText (malloc hostHeap (servEnvVal.length + 1)) vals[0]?
  let port ← storeText (malloc portHeap (servEnvVal.length + 1)) vals[1]?
  if 1 ≤ vals.length then
    return some (host, if vals.length = 1 then defaultPort else port)
  else
    return none

/-! ## Texts in their buffers -/

variable {w t : Arguments} {s b b' : List UInt8} {v : Option Val} {n : ℕ}

/-- the static buffers have their size and end in a NUL -/
structure Kept (w : Arguments) : Prop where
  peerAddr : Terminated MAX_NAME_SZ w.peerAddr
  peerListenPort : Terminated MAX_NAME_SZ w.peerListenPort
  peerRemotePort : Terminated MAX_NAME_SZ w.peerRemotePort
  socksPort : Terminated MAX_NAME_SZ w.socksPort
  peerRzvLport : Terminated MAX_NAME_SZ w.peerRzvLport
  peerRzvRport : Terminated MAX_NAME_SZ w.peerRzvRport

/-- nothing was stored outside of its buffer, and what was stored ends in a NUL -/
structure Safe (w : Arguments) : Prop extends Kept w where
  inside : w.pc ≠ .fault .write
  optname : ∀ b, w.optname = some b → 0 ∈ b

/-- the other variables do not matter -/
theorem Kept.same (h : Kept w) (udtOptions : UdtOptions) (optname : Option (List UInt8)) (pc : Pc) :
    Kept { w with udtOptions := udtOptions, optname := optname, pc := pc } :=
  ⟨h.peerAddr, h.peerListenPort, h.peerRemotePort, h.socksPort, h.peerRzvLport, h.peerRzvRport⟩

theorem Safe.at_pc (h : Safe w) {pc : Pc} (hpc : pc ≠ .fault .write) : Safe { w with pc := pc } :=
  ⟨h.toKept.same _ _ _, hpc, h.optname⟩

/-- a text that fits is stored -/
theorem storeText_of_lt (hv : ∀ t, v = some (.text t) → t.length < b.length) : ∃ b', storeText b v = .ok b' := by
  cases v with
  | none => exact ⟨b, rfl⟩
  | some v =>
    cases v with
    | text t => exact ⟨_, putStr_of_lt (hv t rfl)⟩
    | num v => exact ⟨b, rfl⟩

@[simp] theorem storeText_text (b t : List UInt8) : storeText b (some (.text t)) = putStr b t := rfl

theorem storeText_terminated (hb : Terminated n b) (h : storeText b v = .ok b') : Terminated n b' := by
  cases v with
  | none => exact Except.ok.inj h ▸ hb
  | some v =>
    cases v with
    | text t => exact putStr_terminated hb h
    | num v => exact Except.ok.inj h ▸ hb

/-- there is a NUL where a text was stored -/
theorem zero_mem_of_storeText {t : List UInt8} (h : storeText b (some (.text t)) = .ok b') : 0 ∈ b' := by
  obtain ⟨-, rfl⟩ := putStr_eq_ok h
  rw [store_zero]
  exact List.mem_append_left _ (List.mem_append_right _ List.mem_cons_self)

/-! ## Two fields -/

def firstField (s : List UInt8) : List UInt8 := s.takeWhile notColon

def secondField (s : List UInt8) : List UInt8 := ((s.dropWhile notColon).drop 1).takeWhile notColon

theorem scan_pair (s : List UInt8) : sscanf pairFormat s =
    if firstField s = [] then []
    else if secondField s = [] then [.text (firstField s)]
    else [.text (firstField s), .text (secondField s)] := sscanf_pair 58 s

theorem scan_pair_nil (h : firstField s = []) : sscanf pairFormat s = [] := by
  rw [scan_pair, if_pos h]

theorem scan_pair_first (h : firstField s ≠ []) : (sscanf pairFormat s)[0]? = some (.text (firstField s)) := by
  rw [scan_pair, if_neg h]
  split_ifs
  · rfl
  · rfl

theorem scan_pair_second (h : firstField s ≠ []) :
    (sscanf pairFormat s)[1]? = if secondField s = [] then none else some (.text (secondField s)) := by
  rw [scan_pair, if_neg h]
  split_ifs
  · rfl
  · rfl

theorem scan_pair_pos (h : firstField s ≠ []) : 1 ≤ (sscanf pairFormat s).length := by
  rw [scan_pair, if_neg h]
  split_ifs
  · exact Nat.succ_le_succ (Nat.zero_le _)
  · exact Nat.succ_le_succ (Nat.zero_le _)

/-! ## -R -/

theorem rendezvous_of_nil (h : firstField s = []) : w.rendezvous s = .ok { w with pc := .died } := by
  simp only [rendezvous, scan_pair_nil h]
  rfl

/-- two fields that fit: the second one is overwritten with the first -/
theorem rendezvous_of_fits (hl : Terminated MAX_NAME_SZ w.peerRzvLport) (hr : Terminated MAX_NAME_SZ w.peerRzvRport)
    (hne : firstField s ≠ []) (h1 : (firstField s).length ≤ MAX_NAME_SZ) (h2 : (secondField s).length ≤ MAX_NAME_SZ) :
    ∃ lport rport, w.rendezvous s = .ok { w with peerRzvLport := lport, peerRzvRport := rport } ∧
      Terminated MAX_NAME_SZ lport ∧ Terminated MAX_NAME_SZ rport ∧
      (0 ∉ firstField s → cstr lport = .ok (firstField s) ∧ cstr rport = .ok (firstField s)) := by
  obtain ⟨lport, hput, hlport, hread⟩ := hl.putStr_fits h1
  obtain ⟨rport, hrport⟩ : ∃ rport, storeText w.peerRzvRport (sscanf pairFormat s)[1]? = .ok rport := by
    apply storeText_of_lt
    intro u hu
    rw [scan_pair_second hne] at hu
    split_ifs at hu
    obtain rfl := Val.text.inj (Option.some.inj hu)
    rw [hr.length_eq]
    omega
  have hr' := storeText_terminated hr hrport
  obtain ⟨text, htext⟩ := hlport.exists_cstr
  obtain ⟨rport', hput', hterm, hread'⟩ := hr'.putStr_fits (hlport.length_cstr htext)
  refine ⟨lport, rport', ?_, hlport, hterm, ?_⟩
  · simp only [rendezvous, scan_pair_first hne, storeText_text, hput, hrport, if_neg (not_lt.2 (scan_pair_pos hne)),
      htext, hput', bind, Except.bind, pure, Except.pure]
  · intro h0
    obtain rfl := Except.ok.inj (htext.symm.trans (hread h0))
    exact ⟨hread h0, hread' h0⟩

/-- two fields of which one does not fit -/
theorem rendezvous_of_not_fits (hl : Terminated MAX_NAME_SZ w.peerRzvLport)
    (hr : Terminated MAX_NAME_SZ w.peerRzvRport) (hne : firstField s ≠ [])
    (h : ¬ ((firstField s).length ≤ MAX_NAME_SZ ∧ (secondField s).length ≤ MAX_NAME_SZ)) :
    w.rendezvous s = .error .write := by
  by_cases h1 : (firstField s).length ≤ MAX_NAME_SZ
  · obtain ⟨lport, hput, -⟩ := hl.putStr_fits h1
    have h2 : ¬ (secondField s).length ≤ MAX_NAME_SZ := fun h2 => h ⟨h1, h2⟩
    have hne2 : secondField s ≠ [] := by
      intro hnil
      rw [hnil] at h2
      exact h2 (Nat.zero_le _)
    have hlong := hr.putStr_long (not_le.1 h2)
    simp only [rendezvous, scan_pair_first hne, scan_pair_second hne, if_neg hne2, storeText_text, hput, hlong, bind,
      Except.bind]
  · have hlong := hl.putStr_long (not_le.1 h1)
    simp only [rendezvous, scan_pair_first hne, storeText_text, hlong, bind, Except.bind]

/-! ## The operands -/

variable {socks listen peer socksPort listenPort addr remotePort remotePort' : List UInt8} {rest : List (List UInt8)}

theorem operands_eq (h1 : strncpy w.socksPort socks MAX_NAME_SZ = .ok socksPort)
    (h2 : strncpy w.peerListenPort listen MAX_NAME_SZ = .ok listenPort)
    (h3 : storeText w.peerAddr (sscanf peerFormat peer)[0]? = .ok addr)
    (h4 : storeText w.peerRemotePort (sscanf peerFormat peer)[1]? = .ok remotePort)
    (h5 : defaultRemote remotePort listenPort = .ok remotePort') :
    w.operands (socks :: listen :: peer :: rest) =
      .ok { w with
        socksPort := socksPort, peerListenPort := listenPort, peerAddr := addr, peerRemotePort := remotePort'
        pc := .stored } := by
  simp only [operands, h1, h2, h3, h4, h5, bind, Except.bind, pure, Except.pure]

theorem defaultRemote_terminated (hr : Terminated MAX_NAME_SZ remotePort) (hl : Terminated MAX_NAME_SZ listenPort) :
    ∃ b, defaultRemote remotePort listenPort = .ok b ∧ Terminated MAX_NAME_SZ b := by
  unfold defaultRemote
  split_ifs
  · obtain ⟨text, htext⟩ := hl.exists_cstr
    obtain ⟨b, hb, hterm⟩ := strncpy_terminated hr text
    refine ⟨b, ?_, hterm⟩
    rw [htext]
    exact hb
  · exact ⟨remotePort, rfl, hr⟩

/-- the texts of the last operand are within the width of their conversions -/
theorem storeText_peer (hb : Terminated MAX_NAME_SZ b) (peer : List UInt8) (i : ℕ) :
    ∃ b', storeText b (sscanf peerFormat peer)[i]? = .ok b' ∧ Terminated MAX_NAME_SZ b' := by
  obtain ⟨b', hb'⟩ : ∃ b', storeText b (sscanf peerFormat peer)[i]? = .ok b' := by
    apply storeText_of_lt
    intro t ht
    have hw : ∀ item ∈ peerFormat, WidthLe MAX_NAME_SZ item := by
      intro item hitem
      rcases List.mem_cons.1 hitem with rfl | hitem
      · exact ⟨MAX_NAME_SZ, rfl, le_rfl⟩
      rcases List.mem_cons.1 hitem with rfl | hitem
      · trivial
      obtain rfl := List.mem_singleton.1 hitem
      exact ⟨MAX_NAME_SZ, rfl, le_rfl⟩
    have hle := mem_sscanf_width hw (List.mem_of_getElem? ht)
    rw [hb.length_eq]
    omega
  exact ⟨b', hb', storeText_terminated hb hb'⟩

/-- **The operands always fit**, and are the last that is looked at. -/
theorem safe_operands (h : Safe w) (args : List (List UInt8)) :
    ∃ t, w.operands args = .ok t ∧ Safe t ∧ t.pc ≠ .options := by
  have hdied : Safe { w with pc := .died } := h.at_pc (by decide)
  match args with
  | [] => exact ⟨_, rfl, hdied, Pc.noConfusion⟩
  | [_] => exact ⟨_, rfl, hdied, Pc.noConfusion⟩
  | [_, _] => exact ⟨_, rfl, hdied, Pc.noConfusion⟩
  | socks :: listen :: peer :: rest =>
    obtain ⟨socksPort, h1, hsocks⟩ := strncpy_terminated h.socksPort socks
    obtain ⟨listenPort, h2, hlisten⟩ := strncpy_terminated h.peerListenPort listen
    obtain ⟨addr, h3, haddr⟩ := storeText_peer h.peerAddr peer 0
    obtain ⟨remotePort, h4, hremote⟩ := storeText_peer h.peerRemotePort peer 1
    obtain ⟨remotePort', h5, hremote'⟩ := defaultRemote_terminated hremote hlisten
    exact ⟨_, operands_eq h1 h2 h3 h4 h5,
      ⟨⟨haddr, hlisten, hremote', hsocks, h.peerRzvLport, h.peerRzvRport⟩, Pc.noConfusion, h.optname⟩, Pc.noConfusion⟩

/-! ## -U -/

variable {pl : Platform}

/-- a name with nothing behind it does not fit -/
theorem storeName_of_all (pl : Platform) (hne : s ≠ []) (hall : ∀ c ∈ s, isNameChar c = true) :
    pl.storeName s = .error .write := by
  have hself : s.takeWhile isNameChar = s := List.takeWhile_eq_self_iff.2 hall
  rw [Platform.storeName, scan_name, hself, if_neg hne]
  exact putStr_of_le (length_malloc pl.heap s.length).le

/-- any other argument leaves a block with a name in it, or with nothing stored -/
theorem storeName_of_fits (pl : Platform) (hfits : s = [] ∨ ∃ c ∈ s, isNameChar c = false) :
    ∃ b, pl.storeName s = .ok b ∧ ((sscanf format s).length ≠ 0 → 0 ∈ b) := by
  obtain ⟨b, hb⟩ : ∃ b, pl.storeName s = .ok b := by
    apply storeText_of_lt
    intro t ht
    rw [scan_name] at ht
    split_ifs at ht with hnil
    obtain rfl := Val.text.inj (Option.some.inj ht)
    have hle := (List.takeWhile_prefix isNameChar (l := s)).length_le
    rw [length_malloc]
    refine lt_of_le_of_ne hle ?_
    intro hlen
    have hself := (List.takeWhile_prefix isNameChar (l := s)).eq_of_length hlen
    rcases hfits with rfl | ⟨c, hc, hno⟩
    · exact hnil rfl
    · rw [List.takeWhile_eq_self_iff.1 hself c hc] at hno
      cases hno
  refine ⟨b, hb, ?_⟩
  intro hlen
  have hscan := scan_name s
  split_ifs at hscan with hnil
  · rw [List.getElem?_eq_none_iff] at hscan
    omega
  · rw [Platform.storeName, hscan] at hb
    exact zero_mem_of_storeText hb

/-- after the name nothing else is stored -/
theorem parse_ne_write (hb : pl.storeName s = .ok b) (options : UdtOptions) :
    parseUdtOption pl options s ≠ .error .write := by
  intro h
  cases hq : s.getLast? with
  | none =>
    simp only [parseUdtOption, hb, lastChar, hq, bind, Except.bind] at h
    cases h
  | some q =>
    rw [parse_of_stored hb hq] at h
    unfold cstr at h
    split_ifs at h
    · cases h
    · cases h

/-- a -U option with room for its name -/
theorem safe_udt (h : Safe w) (pl : Platform) (hfits : s = [] ∨ ∃ c ∈ s, isNameChar c = false) :
    Safe (w.settle (w.udt pl s)) ∧ (w.settle (w.udt pl s)).peerRemotePort = w.peerRemotePort := by
  obtain ⟨b, hb, hzero⟩ := storeName_of_fits pl hfits
  cases hr : parseUdtOption pl w.udtOptions s with
  | error f =>
    have hudt : w.udt pl s = .error f := by
      simp only [udt, hb, hr, bind, Except.bind]
    rw [hudt]
    refine ⟨h.at_pc ?_, rfl⟩
    rintro ⟨⟩
    exact parse_ne_write hb w.udtOptions hr
  | ok r =>
    have hudt : w.udt pl s = .ok { w with
        udtOptions := r.options
        optname := if (sscanf format s).length = 0 then w.optname else some b
        pc := if r.died = none then .options else .died } := by
      simp only [udt, hb, hr, bind, Except.bind, pure, Except.pure]
    rw [hudt]
    refine ⟨⟨h.toKept.same _ _ _, ?_, ?_⟩, rfl⟩
    · simp only [settle]
      split_ifs
      · exact Pc.noConfusion
      · exact Pc.noConfusion
    · intro b' hb'
      simp only [settle] at hb'
      split_ifs at hb' with hlen
      · exact h.optname b' hb'
      · exact Option.some.inj hb' ▸ hzero hlen

/-- a -R option with room for both fields -/
theorem safe_rendezvous (h : Safe w) (hfits : firstField s = [] ∨
    ((firstField s).length ≤ MAX_NAME_SZ ∧ (secondField s).length ≤ MAX_NAME_SZ)) :
    Safe (w.settle (w.rendezvous s)) ∧ (w.settle (w.rendezvous s)).peerRemotePort = w.peerRemotePort := by
  by_cases hnil : firstField s = []
  · rw [rendezvous_of_nil hnil]
    exact ⟨h.at_pc (by decide), rfl⟩
  · obtain ⟨h1, h2⟩ := hfits.resolve_left hnil
    obtain ⟨lport, rport, heq, hlport, hrport, -⟩ := rendezvous_of_fits h.peerRzvLport h.peerRzvRport hnil h1 h2
    rw [heq]
    exact ⟨⟨⟨h.peerAddr, h.peerListenPort, h.peerRemotePort, h.socksPort, hlport, hrport⟩, h.inside, h.optname⟩, rfl⟩

/-! ## Whole command lines -/

/-- what the buffers have room for -/
def Label.Fits : Label → Prop
  | .rendezvous optarg =>
    firstField optarg = [] ∨
      ((firstField optarg).length ≤ MAX_NAME_SZ ∧ (secondField optarg).length ≤ MAX_NAME_SZ)
  | .udt _ optarg => optarg = [] ∨ ∃ c ∈ optarg, isNameChar c = false
  | .operands _ => True

theorem safe_start : Safe start where
  peerAddr := terminated_replicate MAX_NAME_SZ
  peerListenPort := terminated_replicate MAX_NAME_SZ
  peerRemotePort := terminated_replicate MAX_NAME_SZ
  socksPort := terminated_replicate MAX_NAME_SZ
  peerRzvLport := terminated_replicate MAX_NAME_SZ
  peerRzvRport := terminated_replicate MAX_NAME_SZ
  inside := Pc.noConfusion
  optname := by rintro b ⟨⟩

theorem step_cases {l : Label} (h : step w l = some t) :
    w.pc = .options ∧
      ((∃ s, l = .rendezvous s ∧ t = w.settle (w.rendezvous s)) ∨
        (∃ pl s, l = .udt pl s ∧ t = w.settle (w.udt pl s)) ∨
        (∃ args, l = .operands args ∧ t = w.settle (w.operands args))) := by
  unfold step at h
  split_ifs at h with hpc
  refine ⟨hpc, ?_⟩
  cases l with
  | rendezvous s => exact Or.inl ⟨s, rfl, (Option.some.inj h).symm⟩
  | udt pl s => exact Or.inr (Or.inl ⟨pl, s, rfl, (Option.some.inj h).symm⟩)
  | operands args => exact Or.inr (Or.inr ⟨args, rfl, (Option.some.inj h).symm⟩)

/-- **One argument that fits** -/
theorem safe_of_fits {l : Label} (hw : Safe w) (h : step w l = some t) (hfits : l.Fits) :
    Safe t ∧ (t.pc = .options → t.peerRemotePort = w.peerRemotePort) := by
  obtain ⟨-, ⟨s, rfl, rfl⟩ | ⟨pl, s, rfl, rfl⟩ | ⟨args, rfl, rfl⟩⟩ := step_cases h
  · obtain ⟨hsafe, hframe⟩ := safe_rendezvous hw hfits
    exact ⟨hsafe, fun _ => hframe⟩
  · obtain ⟨hsafe, hframe⟩ := safe_udt hw pl hfits
    exact ⟨hsafe, fun _ => hframe⟩
  · obtain ⟨t, ht, hsafe, hpc⟩ := safe_operands hw args
    rw [ht]
    exact ⟨hsafe, fun hpc' => absurd hpc' hpc⟩

/-- **One argument that does not fit** -/
theorem fault_of_not_fits {l : Label} (hw : Safe w) (h : step w l = some t) (hno : ¬ l.Fits) :
    t.pc = .fault .write := by
  obtain ⟨-, ⟨s, rfl, rfl⟩ | ⟨pl, s, rfl, rfl⟩ | ⟨args, rfl, rfl⟩⟩ := step_cases h
  · obtain ⟨hne, hlong⟩ := not_or.1 hno
    rw [rendezvous_of_not_fits hw.peerRzvLport hw.peerRzvRport hne hlong]
    rfl
  · obtain ⟨hne, hall⟩ := not_or.1 hno
    push Not at hall
    have hname : pl.storeName s = .error .write :=
      storeName_of_all pl hne fun c hc => Bool.eq_true_of_not_eq_false (hall c hc)
    simp only [udt, hname, bind, Except.bind, settle]
  · exact absurd trivial hno

theorem safe_iff_fits {l : Label} (hw : Safe w) (h : step w l = some t) : Safe t ↔ l.Fits := by
  constructor
  · intro hsafe
    by_contra hno
    exact hsafe.inside (fault_of_not_fits hw h hno)
  · intro hfits
    exact (safe_of_fits hw h hfits).1

/-- **What the operands find**: as long as there are options, all that was stored is safe, and the remote port is
empty. -/
theorem reachable_ready (h : system.Reachable w) (hpc : w.pc = .options) : Safe w ∧ w.peerRemotePort = emptyName := by
  refine System.reachable_inv (fun w => w.pc = .options → Safe w ∧ w.peerRemotePort = emptyName) ?_ ?_ h hpc
  · rintro w rfl _
    exact ⟨safe_start, rfl⟩
  · intro u l t hu hstep hpc
    obtain ⟨hsafe, hempty⟩ := hu (step_cases hstep).1
    by_cases hfits : l.Fits
    · obtain ⟨hsafe', hframe⟩ := safe_of_fits hsafe hstep hfits
      exact ⟨hsafe', (hframe hpc).trans hempty⟩
    · have hfault := fault_of_not_fits hsafe hstep hfits
      rw [hpc] at hfault
      cases hfault

/-! ## The environment -/

/-- what `init` stores is within its blocks and ends in a NUL -/
def InitSafe (hostHeap portHeap : ℕ → UInt8) (s : List UInt8) : Prop :=
  ∃ r, init hostHeap portHeap s = .ok r ∧ ∀ host port, r = some (host, port) → 0 ∈ host ∧ 0 ∈ port

theorem firstField_length (s : List UInt8) : (firstField s).length ≤ s.length := (List.takeWhile_prefix _).length_le

theorem isInfix_secondField (s : List UInt8) : secondField s <:+: s :=
  (List.takeWhile_prefix _).isInfix.trans ((List.drop_suffix 1 _).trans (List.dropWhile_suffix _)).isInfix

theorem secondField_length (s : List UInt8) : (secondField s).length ≤ s.length := (isInfix_secondField s).length_le

/-- a block with a cell for each character and one more has room for any part -/
theorem put_part (heap : ℕ → UInt8) {u : List UInt8} (h : u.length ≤ s.length) :
    ∃ b, putStr (malloc heap (s.length + 1)) u = .ok b ∧ 0 ∈ b ∧ (0 ∉ u → cstr b = .ok u) := by
  have hput := putStr_of_lt (b := malloc heap (s.length + 1)) (t := u) (by rw [length_malloc]; omega)
  exact ⟨_, hput, zero_mem_of_storeText hput, fun h0 => cstr_putStr h0 hput⟩

/-- `init` of an environment with a first field -/
theorem init_of_first (hostHeap portHeap : ℕ → UInt8) (h : firstField s ≠ []) :
    ∃ host port, init hostHeap portHeap s = .ok (some (host, port)) ∧ 0 ∈ host ∧ 0 ∈ port ∧
      (0 ∉ s → cstr host = .ok (firstField s) ∧
        cstr port = .ok (if secondField s = [] then ascii ['1', '0', '8', '0'] else secondField s)) := by
  obtain ⟨host, hhost, hhost0, hhostc⟩ := put_part hostHeap (firstField_length s)
  have hsub1 : 0 ∉ s → 0 ∉ firstField s := fun h0 hmem => h0 ((List.takeWhile_prefix _).subset hmem)
  by_cases hsecond : secondField s = []
  · have hscan : sscanf pairFormat s = [.text (firstField s)] := by
      rw [scan_pair, if_neg h, if_pos hsecond]
    refine ⟨host, defaultPort, ?_, hhost0, by decide, ?_⟩
    · simp only [init, hscan, List.getElem?_cons_zero, storeText_text, hhost]
      rfl
    · intro h0
      rw [if_pos hsecond]
      exact ⟨hhostc (hsub1 h0), cstr_append (by decide) []⟩
  · have hscan : sscanf pairFormat s = [.text (firstField s), .text (secondField s)] := by
      rw [scan_pair, if_neg h, if_neg hsecond]
    obtain ⟨port, hport, hport0, hportc⟩ := put_part portHeap (secondField_length s)
    refine ⟨host, port, ?_, hhost0, hport0, ?_⟩
    · simp only [init, hscan, List.getElem?_cons_zero, List.getElem?_cons_succ, storeText_text, hhost, hport]
      rfl
    · intro h0
      rw [if_neg hsecond]
      exact ⟨hhostc (hsub1 h0), hportc fun hmem => h0 ((isInfix_secondField s).subset hmem)⟩

theorem init_safe (hostHeap portHeap : ℕ → UInt8) (s : List UInt8) : InitSafe hostHeap portHeap s := by
  by_cases h : firstField s = []
  · refine ⟨none, ?_, ?_⟩
    · simp only [init, scan_pair_nil h]
      rfl
    · rintro host port ⟨⟩
  · obtain ⟨host, port, heq, hhost, hport, -⟩ := init_of_first hostHeap portHeap h
    refine ⟨_, heq, ?_⟩
    rintro _ _ ⟨⟩
    exact ⟨hhost, hport⟩

/-- **When arguments stay within their buffers**: in a run of `main` over a command line, together with `init` over any
environment, exactly when each of them is one that its buffers have room for. -/
theorem stores_fit_iff {ls : List Label} (h : system.exec start ls = some w) :
    ((∀ pre post u, ls = pre ++ post → system.exec start pre = some u → Safe u) ∧
      ∀ hostHeap portHeap s, InitSafe hostHeap portHeap s) ↔ ∀ l ∈ ls, l.Fits := by
  rw [and_iff_left init_safe, System.prefixes_iff_meets Safe (fun _ l => l.Fits) _ h safe_start]
  · exact ⟨System.forall_of_meets h, System.meets_of_forall⟩
  · intro u l t hu hstep
    exact safe_iff_fits hu hstep

/-- two ports for -R, an option, and the operands -/
def commandLine : List Label :=
  [.rendezvous (ascii ['9', ':', '8']),
    .udt ⟨fun _ => 0, 0, fun _ => 0, fun _ => 0⟩ (ascii ['U', 'D', 'T', '_', 'M', 'S', 'S', '=', '9', 'k']),
    .operands [ascii ['1'], ascii ['2'], ascii ['a', ':', '3']]]

theorem commandLine_fits : ∀ l ∈ commandLine, l.Fits := by
  intro l hl
  rcases List.mem_cons.1 hl with rfl | hl
  · exact Or.inr ⟨by decide, by decide⟩
  rcases List.mem_cons.1 hl with rfl | hl
  · exact Or.inr ⟨61, by decide, by decide⟩
  obtain rfl := List.mem_singleton.1 hl
  trivial

set_option maxRecDepth 10000 in
theorem stores_fit_iff_two_ports :
    ∃ w, system.exec start commandLine = some w ∧ w.pc = .stored ∧ w.udtOptions = [(.mss, 9216)] ∧ Safe w := by
  obtain ⟨w, hw, hpc, hoptions⟩ : ∃ w, system.exec start commandLine = some w ∧ w.pc = .stored ∧
      w.udtOptions = [(.mss, 9216)] := System.exec_of_any (by decide)
  have hall := (stores_fit_iff hw).2 commandLine_fits
  exact ⟨w, hw, hpc, hoptions, hall.1 _ [] w (List.append_nil _).symm hw⟩

/-- **One byte too many.** `-U UDT_MSS` stores seven characters and a NUL in a block of seven. -/
theorem name_overruns :
    ∃ w, system.exec start [.udt ⟨fun _ => 0, 0, fun _ => 0, fun _ => 0⟩
        (ascii ['U', 'D', 'T', '_', 'M', 'S', 'S'])] = some w ∧ w.pc = .fault .write ∧ ¬ Safe w := by
  obtain ⟨w, hw, hpc⟩ : ∃ w, system.exec start [.udt ⟨fun _ => 0, 0, fun _ => 0, fun _ => 0⟩
      (ascii ['U', 'D', 'T', '_', 'M', 'S', 'S'])] = some w ∧ w.pc = .fault .write := System.exec_of_any (by decide)
  exact ⟨w, hw, hpc, fun h => h.inside hpc⟩

end Arguments

end UdtGate
