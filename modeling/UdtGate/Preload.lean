/-
A process with `minisocks` preloaded, over all of its calls of `connect`.

The relay is looked up by the first `connect` for an IPv4 address that finds a usable MINISOCKS_SERVER, and what was
found out is kept in `serv_status` and `server`. The environment may change between two calls, and so may the answers
of `getaddrinfo`. Each `connect` is a run of `Minisocks` behind the lookup, and is over before the next one begins: two
threads in `connect` at a time, of which each might look up the relay, are not modelled.

- `Inv`: what `serv_status` says about the environments seen and the lookups made so far;
- `one_relay`: there is one lookup at most, and all connections of the process go to the address it gave;
- `settled`: what was found out once is never looked at again.
-/
import UdtGate.Request
import UdtGate.Minisocks
import UdtGate.Endpoints

namespace UdtGate

open UdtGate.Core UdtGate.Core.Scanf
open DumpStr (ascii)
open Arguments (firstField secondField serverPair)

/-! ## Model -/

/-- `status_t` -/
inductive ServStatus where
  | pending
  | done
  | error
  | absent
deriving DecidableEq

/-- a value of `getenv` -/
abbrev EnvVal := Option { s : List UInt8 // 0 ∉ s }

/-- the arguments of `connect`, and what its uninitialised variables contain -/
structure Entry where
  sd : ℤ
  name : SockAddr
  junk : Minisocks
deriving DecidableEq

/-- a call of `getaddrinfo`: its arguments, its answer and where `server` points then -/
structure Lookup where
  host : List UInt8
  port : List UInt8
  rc : ℤ
  server : Option SockAddrIn
deriving DecidableEq

/-- a `connect` that has returned -/
structure Conn where
  name : SockAddr
  log : Log
  rc : ℤ
  errno : ℤ
deriving DecidableEq

inductive Preload.Pc where
  | outside
  /-- `init`, at `getenv` -/
  | getenv (e : Entry)
  /-- `init`, at `getaddrinfo` -/
  | getaddrinfo (e : Entry) (host port : List UInt8)
  | running (name : SockAddr) (m : Minisocks) (log : Log)
  | fault (f : Fault)
deriving DecidableEq

/-- the static variables of the library, and what has happened -/
structure Preload where
  servStatus : ServStatus
  server : Option SockAddrIn
  pc : Preload.Pc
  envs : List EnvVal
  lookups : List Lookup
  finished : List Conn
deriving DecidableEq

namespace Preload

def start : Preload := ⟨.pending, none, .outside, [], [], []⟩

/-- `getserver` behind `init`; `server->ai_addr` needs a server -/
def getserver (p : Preload) : Except Fault (Option SockAddrIn) :=
  if p.servStatus = .done then
    match p.server with
    | some srv => .ok (some srv)
    | none => .error .read
  else .ok none

/-- `connect` goes on, or returns -/
def settle (p : Preload) (name : SockAddr) (m : Minisocks) (log : Log) : Preload :=
  match m.pc with
  | .returned rc => { p with pc := .outside, finished := p.finished ++ [⟨name, log, rc, m.errno⟩] }
  | _ => { p with pc := .running name m log }

/-- `connect` behind `getserver` -/
def enter (p : Preload) (e : Entry) : Preload :=
  match p.getserver with
  | .ok srv => p.settle e.name (Minisocks.start e.sd e.name srv e.junk) []
  | .error f => { p with pc := .fault f }

inductive Label where
  | connect (e : Entry)
  | getenv (val : EnvVal) (hostHeap portHeap : ℕ → UInt8)
  | getaddrinfo (rc : ℤ) (res : Option SockAddrIn)
  | answer (a : Ans)

/-- `init` with the environment `val` -/
def lookAt (p : Preload) (e : Entry) (val : EnvVal) (hostHeap portHeap : ℕ → UInt8) : Preload :=
  let p := { p with envs := p.envs ++ [val] }
  match val with
  | none => enter { p with servStatus := .absent } e
  | some s =>
    match serverPair hostHeap portHeap s.1 with
    | .ok (some (host, port)) => { p with pc := .getaddrinfo e host port }
    -- no conversion: the status is left as it is
    | .ok none => p.enter e
    | .error f => { p with pc := .fault f }

/-- `init` with the answer of `getaddrinfo` -/
def resolve (p : Preload) (e : Entry) (host port : List UInt8) (rc : ℤ) (res : Option SockAddrIn) : Preload :=
  enter { p with
    server := res
    servStatus := if rc = 0 then .done else .error
    lookups := p.lookups ++ [⟨host, port, rc, res⟩] } e

/-- one step. A `getaddrinfo` that returns 0 has set `server` -/
def step (p : Preload) : Label → Option Preload
  | .connect e =>
    if p.pc = .outside then
      match e.name with
      | .in4 _ => if p.servStatus = .pending then some { p with pc := .getenv e } else some (p.enter e)
      | _ => some (p.settle e.name (Minisocks.start e.sd e.name none e.junk) [])
    else none
  | .getenv val hostHeap portHeap =>
    match p.pc with
    | .getenv e => some (p.lookAt e val hostHeap portHeap)
    | _ => none
  | .getaddrinfo rc res =>
    match p.pc with
    | .getaddrinfo e host port => if rc = 0 → res ≠ none then some (p.resolve e host port rc res) else none
    | _ => none
  | .answer a =>
    match p.pc with
    | .running name m log =>
      match Minisocks.call m with
      | some c => if permitted c a then some (p.settle name (Minisocks.resume m a) (log ++ [(c, a)])) else none
      | none => none
    | _ => none

/-- all runs of a process -/
def system : System Preload Label := ⟨fun p => p = start, step⟩

/-- what a step can do -/
theorem step_cases {p q : Preload} {l : Label} (h : p.step l = some q) :
    (∃ e dst, l = .connect e ∧ p.pc = .outside ∧ e.name = .in4 dst ∧
      (p.servStatus = .pending ∧ q = { p with pc := .getenv e } ∨ p.servStatus ≠ .pending ∧ q = p.enter e)) ∨
    (∃ e, l = .connect e ∧ p.pc = .outside ∧ (∀ dst, e.name ≠ .in4 dst) ∧
      q = p.settle e.name (Minisocks.start e.sd e.name none e.junk) []) ∨
    (∃ e val hostHeap portHeap, l = .getenv val hostHeap portHeap ∧ p.pc = .getenv e ∧
      q = p.lookAt e val hostHeap portHeap) ∨
    (∃ e host port rc res, l = .getaddrinfo rc res ∧ p.pc = .getaddrinfo e host port ∧ (rc = 0 → res ≠ none) ∧
      q = p.resolve e host port rc res) ∨
    (∃ a name m log c, l = .answer a ∧ p.pc = .running name m log ∧ Minisocks.call m = some c ∧ permitted c a = true ∧
      q = p.settle name (Minisocks.resume m a) (log ++ [(c, a)])) := by
  cases l with
  | connect e =>
    simp only [step] at h
    by_cases hpc : p.pc = .outside
    swap
    · rw [if_neg hpc] at h
      cases h
    rw [if_pos hpc] at h
    cases hname : e.name with
    | in4 dst =>
      rw [hname] at h
      simp only at h
      split_ifs at h with hpend
      · exact Or.inl ⟨e, dst, rfl, hpc, hname, Or.inl ⟨hpend, (Option.some.inj h).symm⟩⟩
      · exact Or.inl ⟨e, dst, rfl, hpc, hname, Or.inr ⟨hpend, (Option.some.inj h).symm⟩⟩
    | in6 port addr =>
      rw [hname] at h
      refine Or.inr (Or.inl ⟨e, rfl, hpc, ?_, ?_⟩)
      · intro dst hdst
        exact SockAddr.noConfusion (hname.symm.trans hdst)
      · rw [hname]
        exact (Option.some.inj h).symm
    | other family =>
      rw [hname] at h
      refine Or.inr (Or.inl ⟨e, rfl, hpc, ?_, ?_⟩)
      · intro dst hdst
        exact SockAddr.noConfusion (hname.symm.trans hdst)
      · rw [hname]
        exact (Option.some.inj h).symm
  | getenv val hostHeap portHeap =>
    simp only [step] at h
    split at h
    · rename_i e hpc
      exact Or.inr (Or.inr (Or.inl ⟨e, val, hostHeap, portHeap, rfl, hpc, (Option.some.inj h).symm⟩))
    · cases h
  | getaddrinfo rc res =>
    simp only [step] at h
    split at h
    · rename_i e host port hpc
      split_ifs at h with hres
      exact Or.inr (Or.inr (Or.inr (Or.inl ⟨e, host, port, rc, res, rfl, hpc, hres, (Option.some.inj h).symm⟩)))
    · cases h
  | answer a =>
    simp only [step] at h
    split at h
    · rename_i name m log hpc
      split at h
      · rename_i c hc
        split_ifs at h with hok
        exact Or.inr (Or.inr (Or.inr (Or.inr ⟨a, name, m, log, c, rfl, hpc, hc, hok, (Option.some.inj h).symm⟩)))
      · cases h
    · cases h

/-! ## One connect -/

/-- a `connect` for `dst` through the relay `srv`, at `m` behind the calls `l` -/
structure Going (dst srv : SockAddrIn) (m : Minisocks) (l : Log) : Prop where
  inv : Minisocks.Inv (connectRequest dst.port dst.addr) m l
  srv_eq : m.srv = srv
  relay : ∀ sd a, Call.connect sd a ∈ l.map Prod.fst → a = srv
  whole : m.pc = .receiving ∨ m.pc = .shutting ∨ m.pc = .returned 0 →
    tcpOut l = (connectRequest dst.port dst.addr).bytes ++ [0]

theorem going_start (e : Entry) (dst srv : SockAddrIn) :
    Going dst srv (Minisocks.start e.sd (.in4 dst) (some srv) e.junk) [] :=
  ⟨Minisocks.inv_start _ _ _ _, rfl, nofun, by rintro (h | h | h) <;> cases h⟩

variable {dst srv : SockAddrIn} {m : Minisocks} {l : Log} {c : Call} {a : Ans}

theorem srv_resume (m : Minisocks) (a : Ans) : (Minisocks.resume m a).srv = m.srv := by
  unfold Minisocks.resume
  split
  · split_ifs <;> rfl
  · split_ifs <;> rfl
  · split_ifs <;> rfl
  · rfl
  · rfl

/-- the whole request is sent before the reply is waited for -/
theorem Going.whole_step (h : Going dst srv m l) (hc : Minisocks.call m = some c)
    (hpc : (Minisocks.resume m a).pc = .receiving ∨ (Minisocks.resume m a).pc = .shutting ∨
      (Minisocks.resume m a).pc = .returned 0) :
    tcpOut (l ++ [(c, a)]) = (connectRequest dst.port dst.addr).bytes ++ [0] := by
  obtain ⟨hinv, -, -, hwhole⟩ := h
  obtain ⟨pc, sd, srv, pkt, errno⟩ := m
  cases pc with
  | connecting =>
    simp only [Minisocks.resume] at hpc
    split_ifs at hpc with hrc
    · rcases hpc with hpc | hpc | hpc
      · cases hpc
      · cases hpc
      · exact absurd (Minisocks.Pc.returned.inj hpc) hrc
    · rcases hpc with hpc | hpc | hpc
      · cases hpc
      · cases hpc
      · cases hpc
  | sending =>
    obtain ⟨hpkt, hout, -⟩ := hinv
    cases hc
    simp only [Minisocks.resume] at hpc
    by_cases h9 : a.rc = 9
    · have hpkt' : pkt = connectRequest dst.port dst.addr := hpkt
      rw [tcpOut_append, hout, ← hpkt']
      simp [tcpOut, h9]
    · rw [if_pos h9] at hpc
      rcases hpc with hpc | hpc | hpc
      · cases hpc
      · cases hpc
      · exact absurd (Minisocks.Pc.returned.inj hpc) (by decide)
  | receiving =>
    cases hc
    rw [tcpOut_append, hwhole (Or.inl rfl)]
    exact List.append_nil _
  | shutting =>
    cases hc
    rw [tcpOut_append, hwhole (Or.inr (Or.inl rfl))]
    exact List.append_nil _
  | returned rc => cases hc

theorem Going.step (h : Going dst srv m l) (hc : Minisocks.call m = some c) (hok : permitted c a = true) :
    Going dst srv (Minisocks.resume m a) (l ++ [(c, a)]) where
  inv := Minisocks.step_inv h.inv hc hok
  srv_eq := (srv_resume m a).trans h.srv_eq
  relay := by
    intro sd b hb
    rw [List.map_append, List.mem_append] at hb
    rcases hb with hb | hb
    · exact h.relay sd b hb
    · obtain rfl := List.mem_singleton.1 hb
      unfold Minisocks.call at hc
      split at hc
      · cases hc
        exact h.srv_eq
      · cases hc
      · cases hc
      · cases hc
      · cases hc
  whole := h.whole_step hc

/-! ## What was found out -/

/-- an environment that leaves the status as it is has no host in it -/
def Undecided (v : EnvVal) : Prop := ∃ s, v = some s ∧ firstField s.1 = []

/-- the host and the port in an environment -/
structure Names (s host port : List UInt8) : Prop where
  host_eq : host = firstField s
  ne_nil : host ≠ []
  port_eq : port = if secondField s = [] then ascii ['1', '0', '8', '0'] else secondField s

theorem serverPair_cases (hostHeap portHeap : ℕ → UInt8) {s : List UInt8} (h0 : 0 ∉ s) :
    (firstField s = [] ∧ serverPair hostHeap portHeap s = .ok none) ∨
    ∃ host port, serverPair hostHeap portHeap s = .ok (some (host, port)) ∧ Names s host port := by
  by_cases h : firstField s = []
  · refine Or.inl ⟨h, ?_⟩
    simp only [serverPair, Arguments.init, Arguments.scan_pair_nil h]
    rfl
  · obtain ⟨host, port, heq, -, -, hread⟩ := Arguments.init_of_first hostHeap portHeap h
    obtain ⟨hhost, hport⟩ := hread h0
    refine Or.inr ⟨firstField s, _, ?_, rfl, h, rfl⟩
    simp only [serverPair, heq, hhost, hport, bind, Except.bind, pure, Except.pure]

/-- what `serv_status` and `server` say about the environments seen and the lookups made -/
inductive Found : ServStatus → Option SockAddrIn → List EnvVal → List Lookup → Prop
  | pending {es : List EnvVal} (h : ∀ v ∈ es, Undecided v) : Found .pending none es []
  | absent {es : List EnvVal} (h : ∀ v ∈ es, Undecided v) : Found .absent none (es ++ [none]) []
  | done {es : List EnvVal} {s : { s : List UInt8 // 0 ∉ s }} {host port : List UInt8} {srv : SockAddrIn}
      (h : ∀ v ∈ es, Undecided v) (hs : Names s.1 host port) :
      Found .done (some srv) (es ++ [some s]) [⟨host, port, 0, some srv⟩]
  | error {es : List EnvVal} {s : { s : List UInt8 // 0 ∉ s }} {host port : List UInt8} {rc : ℤ}
      {res : Option SockAddrIn} (h : ∀ v ∈ es, Undecided v) (hs : Names s.1 host port) (hrc : rc ≠ 0) :
      Found .error res (es ++ [some s]) [⟨host, port, rc, res⟩]

/-- one of the lookups gave this address -/
def Gave (ls : List Lookup) (a : SockAddrIn) : Prop := ∃ e ∈ ls, e.rc = 0 ∧ e.server = some a

/-- a `connect` that has returned, behind the lookups `ls` -/
structure Conn.Sound (ls : List Lookup) (c : Conn) : Prop where
  relay : ∀ sd a, Call.connect sd a ∈ c.log.map Prod.fst → Gave ls a
  sent : ∀ dst, c.name = .in4 dst → tcpOut c.log <+: (connectRequest dst.port dst.addr).bytes ++ [0]
  silent : (∀ dst, c.name ≠ .in4 dst) → c.log = []
  granted : c.rc = 0 → ∃ dst, c.name = .in4 dst ∧ tcpOut c.log = (connectRequest dst.port dst.addr).bytes ++ [0] ∧
    (tcpIn c.log)[1]? = some 90

theorem Gave.append {ls : List Lookup} {b : SockAddrIn} (h : Gave ls b) (e : Lookup) : Gave (ls ++ [e]) b := by
  obtain ⟨x, hx, hgave⟩ := h
  exact ⟨x, List.mem_append_left _ hx, hgave⟩

theorem Conn.Sound.append {ls : List Lookup} {c : Conn} (h : Conn.Sound ls c) (e : Lookup) : Conn.Sound (ls ++ [e]) c :=
  ⟨fun sd a ha => (h.relay sd a ha).append e, h.sent, h.silent, h.granted⟩

/-- a `connect` that was refused before its first call -/
theorem sound_refused (ls : List Lookup) (name : SockAddr) {rc errno : ℤ} (hrc : rc ≠ 0) :
    Conn.Sound ls ⟨name, [], rc, errno⟩ :=
  ⟨nofun, fun _ _ => List.nil_prefix, fun _ => rfl, fun h0 => absurd h0 hrc⟩

/-- a `connect` that has run to its end -/
theorem Going.sound {ls : List Lookup} (h : Going dst srv m l) (hgave : Gave ls srv) {rc : ℤ}
    (hpc : m.pc = .returned rc) (errno : ℤ) : Conn.Sound ls ⟨.in4 dst, l, rc, errno⟩ where
  relay := by
    intro sd b hb
    rw [h.relay sd b hb]
    exact hgave
  sent := by
    intro d hd
    obtain rfl := SockAddr.in4.inj hd
    exact Minisocks.sent h.inv
  silent := fun hno => absurd rfl (hno dst)
  granted := by
    rintro rfl
    refine ⟨dst, rfl, h.whole (Or.inr (Or.inr hpc)), ?_⟩
    have hinv := h.inv
    simp only [Minisocks.Inv, hpc] at hinv
    exact hinv.2 trivial

/-! ## The invariant -/

/-- where the process is -/
def At (p : Preload) : Prop :=
  match p.pc with
  | .outside => Found p.servStatus p.server p.envs p.lookups
  | .getenv e => (∃ dst, e.name = .in4 dst) ∧ p.servStatus = .pending ∧ Found .pending p.server p.envs p.lookups
  | .getaddrinfo e host port => (∃ dst, e.name = .in4 dst) ∧ p.servStatus = .pending ∧ p.lookups = [] ∧
      ∃ es s, p.envs = es ++ [some s] ∧ (∀ v ∈ es, Undecided v) ∧ Names s.1 host port
  | .running name m log => ∃ dst srv, name = .in4 dst ∧ p.servStatus = .done ∧ p.server = some srv ∧
      Found .done (some srv) p.envs p.lookups ∧ Going dst srv m log
  | .fault _ => False

structure Inv (p : Preload) : Prop where
  at_pc : At p
  finished : ∀ c ∈ p.finished, Conn.Sound p.lookups c

/-- what `server` points to was given by a lookup -/
theorem Found.gave {es : List EnvVal} {ls : List Lookup} {b : SockAddrIn} (h : Found .done (some b) es ls) :
    Gave ls b := by
  cases h with
  | done _ _ => exact ⟨_, List.mem_singleton_self _, rfl, rfl⟩

theorem Found.exists_server {server : Option SockAddrIn} {es : List EnvVal} {ls : List Lookup}
    (h : Found .done server es ls) : ∃ srv, server = some srv := by
  cases h with
  | done _ _ => exact ⟨_, rfl⟩

variable {p q : Preload} {e : Entry}

theorem enter_refused (hname : e.name = .in4 dst) (h : p.servStatus ≠ .done) :
    p.enter e = { p with pc := .outside, finished := p.finished ++ [⟨e.name, [], -1, EFAULT⟩] } := by
  simp only [enter, getserver, if_neg h, hname, Minisocks.start, settle]

theorem enter_through (hname : e.name = .in4 dst) (h : p.servStatus = .done) (hsrv : p.server = some srv) :
    p.enter e = { p with pc := .running e.name (Minisocks.start e.sd (.in4 dst) (some srv) e.junk) [] } := by
  simp only [enter, getserver, if_pos h, hsrv, hname, Minisocks.start, settle]

theorem settle_unsupported (hname : ∀ dst, e.name ≠ .in4 dst) (srv : Option SockAddrIn) :
    p.settle e.name (Minisocks.start e.sd e.name srv e.junk) [] =
      { p with pc := .outside, finished := p.finished ++ [⟨e.name, [], -1, EAFNOSUPPORT⟩] } := by
  cases hn : e.name with
  | in4 dst => exact absurd hn (hname dst)
  | in6 port addr => rfl
  | other family => rfl

/-- `connect` behind `getserver` -/
theorem inv_enter (hname : e.name = .in4 dst) (hfound : Found p.servStatus p.server p.envs p.lookups)
    (hfin : ∀ c ∈ p.finished, Conn.Sound p.lookups c) : Inv (p.enter e) := by
  by_cases hdone : p.servStatus = .done
  · rw [hdone] at hfound
    obtain ⟨srv, hsrv⟩ := hfound.exists_server
    rw [enter_through hname hdone hsrv]
    rw [hsrv] at hfound
    exact ⟨⟨dst, srv, hname, hdone, hsrv, hfound, going_start e dst srv⟩, hfin⟩
  · rw [enter_refused hname hdone]
    refine ⟨hfound, ?_⟩
    intro c hc
    rcases List.mem_append.1 hc with hc | hc
    · exact hfin c hc
    · obtain rfl := List.mem_singleton.1 hc
      exact sound_refused p.lookups e.name (by decide)

/-- `init` with an environment -/
theorem inv_lookAt {val : EnvVal} (hostHeap portHeap : ℕ → UInt8) (hname : e.name = .in4 dst)
    (hpend : p.servStatus = .pending) (hfound : Found .pending p.server p.envs p.lookups)
    (hfin : ∀ c ∈ p.finished, Conn.Sound p.lookups c) : Inv (p.lookAt e val hostHeap portHeap) := by
  obtain ⟨servStatus, server, pc, envs, lookups, finished⟩ := p
  obtain rfl : servStatus = .pending := hpend
  obtain ⟨hund⟩ := hfound
  cases val with
  | none =>
    simp only [lookAt]
    exact inv_enter hname (.absent hund) hfin
  | some s =>
    rcases serverPair_cases hostHeap portHeap s.2 with ⟨hnil, heq⟩ | ⟨host, port, heq, hnames⟩
    · simp only [lookAt, heq]
      refine inv_enter hname (.pending ?_) hfin
      intro v hv
      rcases List.mem_append.1 hv with hv | hv
      · exact hund v hv
      · obtain rfl := List.mem_singleton.1 hv
        exact ⟨s, rfl, hnil⟩
    · simp only [lookAt, heq]
      exact ⟨⟨⟨dst, hname⟩, rfl, rfl, envs, s, rfl, hund, hnames⟩, hfin⟩

/-- `init` with the answer of `getaddrinfo` -/
theorem inv_resolve {host port : List UInt8} {rc : ℤ} {res : Option SockAddrIn} (h : Inv p)
    (hpc : p.pc = .getaddrinfo e host port) (hres : rc = 0 → res ≠ none) : Inv (p.resolve e host port rc res) := by
  obtain ⟨hat, hfin⟩ := h
  simp only [At, hpc] at hat
  obtain ⟨⟨dst, hname⟩, hpend, hlookups, es, s, henvs, hund, hnames⟩ := hat
  refine inv_enter hname ?_ ?_
  · simp only [hlookups, henvs, List.nil_append]
    by_cases hrc : rc = 0
    · obtain ⟨srv, rfl⟩ := Option.ne_none_iff_exists'.1 (hres hrc)
      subst hrc
      exact .done hund hnames
    · rw [if_neg hrc]
      exact .error hund hnames hrc
  · intro c hc
    exact (hfin c hc).append _

theorem inv_step (p : Preload) (l : Label) (q : Preload) (h : Inv p) (hs : p.step l = some q) : Inv q := by
  have hat := h.at_pc
  rcases step_cases hs with ⟨e, dst, -, hpc, hname, hcase⟩ | ⟨e, -, hpc, hname, rfl⟩ |
    ⟨e, val, hostHeap, portHeap, -, hpc, rfl⟩ | ⟨e, host, port, rc, res, -, hpc, hres, rfl⟩ |
    ⟨a, name, m, log, c, -, hpc, hc, hok, rfl⟩
  · -- a call for an IPv4 address
    simp only [At, hpc] at hat
    rcases hcase with ⟨hpend, rfl⟩ | ⟨-, rfl⟩
    · exact ⟨⟨⟨dst, hname⟩, hpend, hpend ▸ hat⟩, h.finished⟩
    · exact inv_enter hname hat h.finished
  · -- a call for another address
    simp only [At, hpc] at hat
    rw [settle_unsupported hname]
    refine ⟨hat, ?_⟩
    intro c hc
    rcases List.mem_append.1 hc with hc | hc
    · exact h.finished c hc
    · obtain rfl := List.mem_singleton.1 hc
      exact sound_refused p.lookups e.name (by decide)
  · simp only [At, hpc] at hat
    obtain ⟨⟨dst, hname⟩, hpend, hfound⟩ := hat
    exact inv_lookAt hostHeap portHeap hname hpend hfound h.finished
  · exact inv_resolve h hpc hres
  · -- an answer to the running call
    simp only [At, hpc] at hat
    obtain ⟨dst, srv, rfl, hdone, hsrv, hfound, hgoing⟩ := hat
    have hnext := hgoing.step hc hok
    unfold settle
    split
    · rename_i rc hret
      refine ⟨?_, ?_⟩
      · simp only [At]
        rw [hdone, hsrv]
        exact hfound
      · intro d hd
        rcases List.mem_append.1 hd with hd | hd
        · exact h.finished d hd
        · obtain rfl := List.mem_singleton.1 hd
          exact hnext.sound hfound.gave hret _
    · exact ⟨⟨dst, srv, rfl, hdone, hsrv, hfound, hnext⟩, h.finished⟩

theorem inv_reachable (h : system.Reachable p) : Inv p := by
  refine System.reachable_inv Inv ?_ inv_step h
  rintro _ rfl
  exact ⟨.pending (List.forall_mem_nil _), List.forall_mem_nil _⟩

/-! ## Main results -/

/-- all calls that the process has made through `connect` -/
def calls (p : Preload) : Log :=
  p.finished.flatMap Conn.log ++
    match p.pc with
    | .running _ _ log => log
    | _ => []

/-- one relay for the whole process -/
structure OneRelay (p : Preload) : Prop where
  safe : ∀ f, p.pc ≠ .fault f
  once : p.lookups.length ≤ 1
  /-- a lookup is for the host and the port of the last environment that was looked at -/
  asked : ∀ e ∈ p.lookups, ∃ s, p.envs.getLast? = some (some s) ∧ Names s.1 e.host e.port
  relay : ∀ sd a, Call.connect sd a ∈ p.calls.map Prod.fst → Gave p.lookups a
  finished : ∀ c ∈ p.finished, Conn.Sound p.lookups c

/-- **One relay.** In every run of a process with `minisocks` preloaded, however the environment and the answers of
`getaddrinfo` change, there is at most one lookup, for the host and the port that MINISOCKS_SERVER had then, and every
connection the process makes goes to the address it gave. A `connect` that returns 0 has sent the request for its own
destination whole, and has read the code 90. -/
theorem one_relay (h : system.Reachable p) : OneRelay p := by
  obtain ⟨hat, hfin⟩ := inv_reachable h
  obtain ⟨servStatus, server, pc, envs, lookups, finished⟩ := p
  have hfound : (∃ st srv, Found st srv envs lookups) ∨ lookups = [] := by
    cases pc with
    | outside => exact Or.inl ⟨_, _, hat⟩
    | getenv e => exact Or.inl ⟨_, _, hat.2.2⟩
    | getaddrinfo e host port => exact Or.inr hat.2.2.1
    | running name m log =>
      obtain ⟨dst, srv, -, -, -, hfound, -⟩ := hat
      exact Or.inl ⟨_, _, hfound⟩
    | fault f => exact hat.elim
  refine ⟨?_, ?_, ?_, ?_, hfin⟩
  · rintro f rfl
    exact hat
  · rcases hfound with ⟨st, srv, hfound⟩ | rfl
    · cases hfound with
      | pending _ => exact Nat.zero_le _
      | absent _ => exact Nat.zero_le _
      | done _ _ => exact le_rfl
      | error _ _ _ => exact le_rfl
    · exact Nat.zero_le _
  · intro e he
    rcases hfound with ⟨st, srv, hfound⟩ | rfl
    · cases hfound with
      | pending _ => cases he
      | absent _ => cases he
      | done _ hs =>
        obtain rfl := List.mem_singleton.1 he
        exact ⟨_, List.getLast?_concat, hs⟩
      | error _ hs _ =>
        obtain rfl := List.mem_singleton.1 he
        exact ⟨_, List.getLast?_concat, hs⟩
    · cases he
  · intro sd a ha
    rw [calls, List.map_append, List.mem_append] at ha
    rcases ha with ha | ha
    · obtain ⟨x, hx, hxa⟩ := List.mem_map.1 ha
      obtain ⟨c, hc, hxc⟩ := List.mem_flatMap.1 hx
      exact (hfin c hc).relay sd a (List.mem_map.2 ⟨x, hxc, hxa⟩)
    · cases pc with
      | running name m log =>
        obtain ⟨dst, srv, -, -, -, hfound, hgoing⟩ := hat
        rw [hgoing.relay sd a ha]
        exact hfound.gave
      | outside => cases ha
      | getenv e => cases ha
      | getaddrinfo e host port => cases ha
      | fault f => cases ha

/-- 192.168.0.7, port 22, and the relay at 127.0.0.1, port 1080 -/
def sshd : SockAddrIn := ⟨⟨[0, 22], rfl⟩, ⟨[192, 168, 0, 7], rfl⟩⟩

def localRelay : SockAddrIn := ⟨⟨[4, 56], rfl⟩, ⟨[192, 168, 0, 1], rfl⟩⟩

def dial : Label := .connect ⟨5, .in4 sshd, ⟨.connecting, 0, sshd, connectRequest sshd.port sshd.addr, 0⟩⟩

/-- a first `connect` without a host in its environment, and two behind the lookup of `gw` -/
def dialling : List Label :=
  [dial, .getenv (some ⟨ascii [':', '1'], by decide⟩) (fun _ => 7) (fun _ => 7),
    dial, .getenv (some ⟨ascii ['g', 'w'], by decide⟩) (fun _ => 7) (fun _ => 7), .getaddrinfo 0 (some localRelay),
    .answer { rc := 0 }, .answer { rc := 9 }, .answer { rc := 8, data := [0, 90, 0, 0, 0, 0, 0, 0] },
    dial, .answer { rc := 0 }]

theorem one_relay_dialling :
    ∃ p, system.exec start dialling = some p ∧ p.finished.map Conn.rc = [-1, 0] ∧ OneRelay p := by
  obtain ⟨p, hp, hrc⟩ : ∃ p, system.exec start dialling = some p ∧ p.finished.map Conn.rc = [-1, 0] :=
    System.exec_of_any (by decide)
  exact ⟨p, hp, hrc, one_relay ⟨start, dialling, rfl, hp⟩⟩

/-- a `connect` that was refused at once -/
def Refused (c : Conn) : Prop :=
  c.log = [] ∧ c.rc = -1 ∧ c.errno = match c.name with | .in4 _ => EFAULT | _ => EAFNOSUPPORT

/-- what was found out in `p` is what `q` goes by; without a server, every `connect` in between was refused -/
structure Keeps (p q : Preload) : Prop where
  servStatus : q.servStatus = p.servStatus
  server : q.server = p.server
  envs : q.envs = p.envs
  lookups : q.lookups = p.lookups
  refused : p.servStatus ≠ .done → q.pc = .outside ∧ ∃ new, q.finished = p.finished ++ new ∧ ∀ c ∈ new, Refused c

theorem keeps_refl (hat : At p) (hp : p.servStatus ≠ .pending) : Keeps p p := by
  refine ⟨rfl, rfl, rfl, rfl, ?_⟩
  intro hdone
  refine ⟨?_, [], (List.append_nil _).symm, List.forall_mem_nil _⟩
  unfold At at hat
  split at hat
  · assumption
  · exact absurd hat.2.1 hp
  · exact absurd hat.2.1 hp
  · obtain ⟨-, -, -, hd, -⟩ := hat
    exact absurd hd hdone
  · exact hat.elim

/-- one more refused call -/
theorem Keeps.refuse (h : Keeps p q) {c : Conn} (hc : Refused c) :
    Keeps p { q with pc := .outside, finished := q.finished ++ [c] } := by
  refine ⟨h.servStatus, h.server, h.envs, h.lookups, ?_⟩
  intro hdone
  obtain ⟨-, new, hnew, hall⟩ := h.refused hdone
  refine ⟨rfl, new ++ [c], ?_, ?_⟩
  · rw [hnew, List.append_assoc]
  · intro d hd
    rcases List.mem_append.1 hd with hd | hd
    · exact hall d hd
    · exact List.mem_singleton.1 hd ▸ hc

/-- behind a lookup that gave a server, calls may do what they want -/
theorem Keeps.go_on (h : Keeps p q) (hdone : q.servStatus = .done) (pc : Pc) (finished : List Conn) :
    Keeps p { q with pc := pc, finished := finished } :=
  ⟨h.servStatus, h.server, h.envs, h.lookups, fun hno => absurd (h.servStatus.symm.trans hdone) hno⟩

theorem Keeps.step (hp : p.servStatus ≠ .pending) {l : Label} {r : Preload} (h : Inv q ∧ Keeps p q)
    (hs : q.step l = some r) : Inv r ∧ Keeps p r := by
  refine ⟨inv_step q l r h.1 hs, ?_⟩
  obtain ⟨⟨hat, -⟩, hk⟩ := h
  have hq : q.servStatus ≠ .pending := by rw [hk.servStatus]; exact hp
  rcases step_cases hs with ⟨e, dst, -, hpc, hname, hcase⟩ | ⟨e, -, hpc, hname, rfl⟩ |
    ⟨e, val, hostHeap, portHeap, -, hpc, -⟩ | ⟨e, host, port, rc, res, -, hpc, -⟩ |
    ⟨a, name, m, log, c, -, hpc, hc, hok, rfl⟩
  · rcases hcase with ⟨hpend, -⟩ | ⟨-, rfl⟩
    · exact absurd hpend hq
    · by_cases hdone : q.servStatus = .done
      · simp only [At, hpc, hdone] at hat
        obtain ⟨srv, hsrv⟩ := hat.exists_server
        rw [enter_through hname hdone hsrv]
        exact hk.go_on hdone _ _
      · rw [enter_refused hname hdone]
        exact hk.refuse ⟨rfl, rfl, by rw [hname]⟩
  · rw [settle_unsupported hname]
    refine hk.refuse ⟨rfl, rfl, ?_⟩
    cases hn : e.name with
    | in4 dst => exact absurd hn (hname dst)
    | in6 port addr => rfl
    | other family => rfl
  · simp only [At, hpc] at hat
    exact absurd hat.2.1 hq
  · simp only [At, hpc] at hat
    exact absurd hat.2.1 hq
  · simp only [At, hpc] at hat
    obtain ⟨-, -, -, hdone, -⟩ := hat
    unfold settle
    split
    · exact hk.go_on hdone _ _
    · exact hk.go_on hdone _ q.finished

/-- **What was found out is kept.** Once the status is not PENDING any more, a process never looks at its environment
again and never changes the relay; without one, every later `connect` fails at once, with EFAULT for IPv4 addresses and
EAFNOSUPPORT for others, and makes no call. -/
theorem settled (h : system.Reachable p) (hp : p.servStatus ≠ .pending) {ls : List Label}
    (hrun : system.exec p ls = some q) : Keeps p q := by
  have hinv := inv_reachable h
  exact (System.exec_inv (fun q => Inv q ∧ Keeps p q) (fun _ _ _ hk hs => Keeps.step hp hk hs) hrun
    ⟨hinv, keeps_refl hinv.at_pc hp⟩).2

/-- a lookup that fails, and two `connect`s behind it -/
def dialledWrong : List Label :=
  [dial, .getenv (some ⟨ascii ['g', 'w'], by decide⟩) (fun _ => 7) (fun _ => 7), .getaddrinfo (-2) none]

theorem settled_wrong :
    ∃ p q, system.exec start dialledWrong = some p ∧ p.servStatus = .error ∧
      system.exec p [dial, dial] = some q ∧ Keeps p q := by
  obtain ⟨p, hp, hst, hq⟩ : ∃ p, system.exec start dialledWrong = some p ∧
      (p.servStatus = .error ∧ (system.exec p [dial, dial]).isSome = true) := System.exec_of_any (by decide)
  obtain ⟨q, hq⟩ := Option.isSome_iff_exists.1 hq
  exact ⟨p, q, hp, hst, hq, settled ⟨start, dialledWrong, rfl, hp⟩ (by rw [hst]; decide) hq⟩

end Preload

end UdtGate
