/-
The handling of one connection, from its accept to the end: the test of its source in the accept loop, and then the
thread of `start_child`, or the close of a rejected connection.

Two sockets are involved: the accepted one, a UDT id on the server and a TCP descriptor on the client, and the one that
`start_child` opens to the other side, of the other transport. Each has to be closed through the API of its transport.

- `Held`: what has been opened and closed at each point.
- `released_iff`: a handling that is over has closed both sockets if and only if, on the server, the peer had the
  configured address and its request had the right version and command. On the client both are always closed.
- `wrong_version_leaks`: a request of another version, after which the thread returns with both sockets open.
-/
import UdtGate.AcceptLoop
import UdtGate.StartChild

namespace UdtGate

open UdtGate.Core

/-! ## Model -/

inductive Handling.Pc where
  /-- the client calls `check_source` -/
  | checking (clientaddr : SockAddrIn)
  /-- the server sets the options of the accepted socket -/
  | options
  /-- `close` of the rejected connection -/
  | rejecting
  | rejected
  | serving
  /-- the process ended: `log_die` -/
  | exited
  /-- the process ended in the test of the source -/
  | aborted
deriving DecidableEq

/-- `thread` is what runs `start_child`, when the connection passes -/
structure Handling where
  pc : Handling.Pc
  thread : StartChild
deriving DecidableEq

namespace Handling

/-- what follows the test of the source -/
def judged (g : Globals) (s : Handling) : Option Bool → Handling
  | none => { s with pc := .aborted }
  | some false => { s with pc := .rejecting }
  | some true =>
    match g.mode with
    | .server => { s with pc := .options }
    | .client => { s with pc := .serving }

/-- a connection `conn` accepted from `clientaddr`; the rest is what the variables of the thread hold. The thread gets
`conn` itself: that it may find another connection in the loop's variable is a matter of `AcceptLoop`, left out here -/
def accepted (g : Globals) (clientaddr : SockAddrIn) (conn : ℤ) (spkt : SockPkt) (c : UInt8) (cargs : Cargs) :
    Handling :=
  let s : Handling := ⟨.checking clientaddr, StartChild.start g.mode conn spkt c cargs⟩
  if g.mode = .client ∧ g.netAccess < 2 then s else judged g s (AcceptLoop.sourceCheck g clientaddr none)

def call (g : Globals) (s : Handling) : Option Call :=
  match s.pc with
  | .checking _ => some .getifaddrs
  | .options => some (.setUdtOptions s.thread.servsock)
  -- on the server this is a UDT id
  | .rejecting => some (.close s.thread.servsock)
  | .serving => StartChild.call g s.thread
  | .rejected | .exited | .aborted => none

def resume (g : Globals) (s : Handling) (a : Ans) : Handling :=
  match s.pc with
  | .checking clientaddr =>
    judged g s (AcceptLoop.sourceCheck g clientaddr (if a.rc < 0 then none else some a.ifap))
  | .options => if a.rc < 0 then { s with pc := .exited } else { s with pc := .serving }
  | .rejecting => { s with pc := .rejected }
  | .serving => { s with thread := StartChild.resume g s.thread a }
  | .rejected | .exited | .aborted => s

def machine (g : Globals) : Machine Handling Call Ans := ⟨call g, resume g⟩

/-- all runs of the handling that begins as `s` -/
def system (g : Globals) (s : Handling) : System (Machine.Logged Handling Call Ans) Ans :=
  (machine g).logged.system (fun t => t = ⟨s, []⟩) permitted

/-- the accept loop rejected the connection, or `start_child` returned -/
def Over (s : Handling) : Prop := s.pc = .rejected ∨ (s.pc = .serving ∧ s.thread.pc = .returned)

instance (s : Handling) : Decidable s.Over := inferInstanceAs (Decidable (_ ∨ _))

/-! ## The two sockets -/

/-- the close of an accepted connection, by the transport it came over -/
def closing (mode : Mode) (conn : ℤ) : Call :=
  match mode with
  | .server => .udtClose conn
  | .client => .close conn

/-- the call that opens the socket to the other side -/
def opening : Mode → Call
  | .server => .socket
  | .client => .udtSocket

/-- the close of that socket -/
def closingPeer (mode : Mode) (peersock : ℤ) : Call :=
  match mode with
  | .server => .close peersock
  | .client => .udtClose peersock

def calls (l : Log) : List Call := l.map Prod.fst

/-- the accepted socket `conn` and every socket opened have been closed -/
structure Released (mode : Mode) (conn : ℤ) (l : Log) : Prop where
  accepted : closing mode conn ∈ calls l
  opened : ∀ a, (opening mode, a) ∈ l → a.rc ≠ -1 → closingPeer mode a.rc ∈ calls l

/-- the last receive of the header leaves a request that `start_child` goes on with -/
def Understood (s : Machine.Logged Handling Call Ans) (a : Ans) : Prop :=
  match s.st.pc, s.st.thread.pc with
  | .serving, .server (.header p) =>
    0 ≤ p → 8 ≤ p + a.rc →
      (s.st.thread.spkt.recvAt p.toNat a.data).vn = 4 ∧ (s.st.thread.spkt.recvAt p.toNat a.data).cd = 1
  | _, _ => True

instance (s : Machine.Logged Handling Call Ans) (a : Ans) : Decidable (Understood s a) := by
  unfold Understood
  split
  · infer_instance
  · infer_instance

/-! ## The invariant -/

/-- what is known of the two sockets, by where the thread is -/
inductive Point where
  /-- nothing has been opened -/
  | idle
  | busy
  /-- the UDT socket has been closed -/
  | closing
  | returned
  /-- the process has ended, or the behaviour is undefined -/
  | ended

def point : StartChild.Pc → Point
  | .server .peername | .server .socket | .client .peername | .client .socket => .idle
  | .server _ | .client _ | .createWorkers | .joinWorkers | .closeUdt => .busy
  | .closeTcp => .closing
  | .returned => .returned
  | .exited | .aborted | .undefined => .ended

/-- the branch of the thread is that of the mode -/
def InBranch (mode : Mode) : StartChild.Pc → Prop
  | .server _ => mode = .server
  | .client _ => mode = .client
  | _ => True

structure Idle (mode : Mode) (conn : ℤ) (l : Log) : Prop where
  unopened : ∀ a, (opening mode, a) ∉ l
  unclosed : closing mode conn ∉ calls l

/-- the accepted socket in `cargs` -/
def own (mode : Mode) (cargs : Cargs) : ℤ :=
  match mode with
  | .server => cargs.udtsock
  | .client => cargs.tcpsock

/-- the opened socket in `cargs` -/
def peer (mode : Mode) (cargs : Cargs) : ℤ :=
  match mode with
  | .server => cargs.tcpsock
  | .client => cargs.udtsock

/-- `cargs` has both sockets -/
structure Opened (mode : Mode) (conn : ℤ) (cargs : Cargs) (l : Log) : Prop where
  own_eq : own mode cargs = conn
  peer_eq : ∀ a, (opening mode, a) ∈ l → a.rc = peer mode cargs

def HeldThread (mode : Mode) (conn : ℤ) (t : StartChild) (l : Log) : Prop :=
  match point t.pc with
  | .idle => InBranch mode t.pc ∧ t.servsock = conn ∧ Idle mode conn l
  | .busy => Opened mode conn t.cargs l ∧ closing mode conn ∉ calls l
  | .closing => Opened mode conn t.cargs l ∧ .udtClose t.cargs.udtsock ∈ calls l
  | .returned => Released mode conn l ∨ closing mode conn ∉ calls l
  | .ended => True

def Held (mode : Mode) (conn : ℤ) (s : Handling) (l : Log) : Prop :=
  match s.pc with
  | .checking _ => mode = .client ∧ HeldThread mode conn s.thread l ∧ point s.thread.pc = .idle
  | .options | .rejecting => HeldThread mode conn s.thread l ∧ point s.thread.pc = .idle
  | .rejected => (∀ a, (opening mode, a) ∉ l) ∧ (closing mode conn ∈ calls l ↔ mode = .client)
  | .serving => HeldThread mode conn s.thread l
  | .exited | .aborted => True

/-- a call that neither opens nor closes a socket of the two -/
def quiet : Call → Bool
  | .socket | .udtSocket | .udtClose _ | .close _ => false
  | _ => true

theorem ne_opening {c : Call} (h : quiet c = true) (mode : Mode) : opening mode ≠ c := by
  rintro rfl
  cases mode with
  | server => cases h
  | client => cases h

theorem ne_closing {c : Call} (h : quiet c = true) (mode : Mode) (conn : ℤ) : closing mode conn ≠ c := by
  rintro rfl
  cases mode with
  | server => cases h
  | client => cases h

theorem mem_calls_snoc {l : Log} {c d : Call} {a : Ans} : c ∈ calls (l ++ [(d, a)]) ↔ c ∈ calls l ∨ c = d := by
  rw [calls, List.map_append, List.mem_append, List.map_singleton, List.mem_singleton]
  rfl

theorem closing_mem_quiet {mode : Mode} {conn : ℤ} {l : Log} {c : Call} {a : Ans} (h : quiet c = true) :
    closing mode conn ∈ calls (l ++ [(c, a)]) ↔ closing mode conn ∈ calls l := by
  rw [mem_calls_snoc, or_iff_left (ne_closing h mode conn)]

theorem opening_mem_snoc {mode : Mode} {l : Log} {c : Call} {a x : Ans} (h : opening mode ≠ c) :
    (opening mode, x) ∈ l ++ [(c, a)] ↔ (opening mode, x) ∈ l := by
  rw [List.mem_append, List.mem_singleton, Prod.mk.injEq]
  exact or_iff_left fun he => h he.1

theorem Idle.snoc {mode : Mode} {conn : ℤ} {l : Log} {c : Call} {a : Ans} (h : Idle mode conn l)
    (hc : quiet c = true) : Idle mode conn (l ++ [(c, a)]) where
  unopened x := by
    rw [opening_mem_snoc (ne_opening hc mode)]
    exact h.unopened x
  unclosed := by
    rw [closing_mem_quiet hc]
    exact h.unclosed

theorem Opened.snoc {mode : Mode} {conn : ℤ} {cargs : Cargs} {l : Log} {c : Call} {a : Ans}
    (h : Opened mode conn cargs l) (hc : opening mode ≠ c) : Opened mode conn cargs (l ++ [(c, a)]) where
  own_eq := h.own_eq
  peer_eq x hx := h.peer_eq x ((opening_mem_snoc hc).1 hx)

/-- the socket is opened -/
theorem Idle.open_ {mode : Mode} {conn : ℤ} {cargs : Cargs} {l : Log} {a : Ans} (h : Idle mode conn l)
    (hown : own mode cargs = conn) (hpeer : peer mode cargs = a.rc) :
    Opened mode conn cargs (l ++ [(opening mode, a)]) ∧ closing mode conn ∉ calls (l ++ [(opening mode, a)]) := by
  refine ⟨⟨hown, ?_⟩, ?_⟩
  · intro x hx
    rcases List.mem_append.1 hx with hx | hx
    · exact absurd hx (h.unopened x)
    · rw [(Prod.mk.inj (List.mem_singleton.1 hx)).2, hpeer]
  · rw [mem_calls_snoc]
    rintro (hc | hc)
    · exact h.unclosed hc
    · cases mode with
      | server => cases hc
      | client => cases hc

/-- both closes have been made -/
theorem Opened.released {mode : Mode} {conn : ℤ} {cargs : Cargs} {l : Log} (h : Opened mode conn cargs l)
    (hudt : .udtClose cargs.udtsock ∈ calls l) (htcp : .close cargs.tcpsock ∈ calls l) : Released mode conn l := by
  have hown := h.own_eq
  cases mode with
  | server =>
    refine ⟨?_, fun a ha _ => ?_⟩
    · rw [← hown]
      exact hudt
    · rw [h.peer_eq a ha]
      exact htcp
  | client =>
    refine ⟨?_, fun a ha _ => ?_⟩
    · rw [← hown]
      exact htcp
    · rw [h.peer_eq a ha]
      exact hudt

/-! ## What one step does -/

theorem header_cases (t : StartChild) (p : ℤ) :
    (t.header p).cargs = t.cargs ∧ point (t.header p).pc = .busy ∧
      ((t.header p).pc = .server .reject ↔ 8 ≤ p ∧ ¬ (t.spkt.vn = 4 ∧ t.spkt.cd = 1)) := by
  unfold StartChild.header
  split_ifs with hp hvn hcd
  · exact ⟨rfl, rfl, nofun, fun h => absurd h.1 (not_le.2 hp)⟩
  · exact ⟨rfl, rfl, fun _ => ⟨not_lt.1 hp, fun h => hvn h.1⟩, fun _ => rfl⟩
  · exact ⟨rfl, rfl, fun _ => ⟨not_lt.1 hp, fun h => hcd h.2⟩, fun _ => rfl⟩
  · exact ⟨rfl, rfl, nofun, fun h => absurd ⟨not_not.1 hvn, not_not.1 hcd⟩ h.2⟩

theorem userId_cases (t : StartChild) (pc : StartChild.Pc) (h : point pc = .busy) (ht : point t.pc = .busy) :
    (t.userId pc).cargs = t.cargs ∧ point (t.userId pc).pc = .busy ∧
      ((t.userId pc).pc = t.pc ∨ (t.userId pc).pc = pc) := by
  unfold StartChild.userId
  split_ifs
  · exact ⟨rfl, ht, Or.inl rfl⟩
  · exact ⟨rfl, h, Or.inr rfl⟩

/-- the receive of the header completes a request of another version or command -/
def Misread (t : StartChild) (a : Ans) (pc : StartChild.SrvPc) : Prop :=
  ∃ p, pc = .header p ∧ 0 ≤ p ∧ 8 ≤ p + a.rc ∧
    ¬ ((t.spkt.recvAt p.toNat a.data).vn = 4 ∧ (t.spkt.recvAt p.toNat a.data).cd = 1)

/-- elsewhere no request is read -/
theorem not_misread {t : StartChild} {a : Ans} {pc : StartChild.SrvPc} (hpc : ∀ p, pc ≠ .header p) :
    ¬ Misread t a pc := by
  rintro ⟨p, hp, -⟩
  exact hpc p hp

/-- the server after its sockets are there: only a request that it did not understand leads past the closes -/
theorem server_next {g : Globals} {t : StartChild} {a : Ans} {pc : StartChild.SrvPc}
    (hb : point (.server pc) = .busy) (hok : permitted (StartChild.srvCall t pc) a = true) (hpc : t.pc = .server pc) :
    (StartChild.srvResume g t a pc).cargs = t.cargs ∧
      (point (StartChild.srvResume g t a pc).pc = .busy ∨ point (StartChild.srvResume g t a pc).pc = .ended ∨
        (pc = .reject ∧ (StartChild.srvResume g t a pc).pc = .returned)) ∧
      ((StartChild.srvResume g t a pc).pc = .server .reject ↔ Misread t a pc) := by
  cases pc with
  | peername => cases hb
  | socket => cases hb
  | header p =>
    simp only [StartChild.srvResume]
    split_ifs with hbad
    · refine ⟨rfl, Or.inr (Or.inl rfl), (fun h => by cases h), ?_⟩
      rintro ⟨q, hq, hpos, -⟩
      cases hq
      exact absurd hbad.1 (not_lt.2 hpos)
    · obtain ⟨hcargs, hbusy, hreject⟩ := header_cases { t with spkt := t.spkt.recvAt p.toNat a.data } (p + a.rc)
      refine ⟨hcargs, Or.inl hbusy, ?_⟩
      rw [hreject]
      constructor
      · rintro ⟨hend, hbadpkt⟩
        refine ⟨p, rfl, ?_, hend, hbadpkt⟩
        by_contra hneg
        have hnil : a.data = [] := by_contra fun hne => hbad ⟨not_le.1 hneg, hne⟩
        have hrc : a.rc ≤ 0 := by
          simp only [StartChild.srvCall, permitted, hnil, List.length_nil, Bool.or_eq_true, Bool.and_eq_true,
            decide_eq_true_eq] at hok
          rcases hok with ⟨h0, -⟩ | ⟨h1, -⟩
          · exact le_of_eq h0
          · rw [h1]; decide
        exact absurd hend (not_le.2 (by linarith [not_le.1 hneg]))
      · rintro ⟨q, hq, -, hend, hbadpkt⟩
        cases hq
        exact ⟨hend, hbadpkt⟩
  | reject =>
    exact ⟨rfl, Or.inr (Or.inr ⟨rfl, rfl⟩), iff_of_false (by simp [StartChild.srvResume]) (not_misread (by simp))⟩
  | userId =>
    simp only [StartChild.srvResume]
    have htarget : point (if g.netAccess < 2 then .server .check else .server .connect) = .busy := by
      split_ifs
      · rfl
      · rfl
    obtain ⟨hcargs, hbusy, hpc'⟩ :=
      userId_cases { t with c := StartChild.recvChar t.c a.data } _ htarget (by rw [hpc]; rfl)
    refine ⟨hcargs, Or.inl hbusy, iff_of_false ?_ (not_misread (by simp))⟩
    intro hr
    rcases hpc' with h | h
    · cases (hr.symm.trans h).trans hpc
    · have hre := hr.symm.trans h
      split_ifs at hre
      · cases hre
      · cases hre
  | check =>
    simp only [StartChild.srvResume]
    split_ifs with hneg
    · exact ⟨rfl, Or.inr (Or.inl rfl), iff_of_false (by simp) (not_misread (by simp))⟩
    · split
      · exact ⟨rfl, Or.inr (Or.inl rfl), iff_of_false (by simp) (not_misread (by simp))⟩
      · exact ⟨rfl, Or.inl rfl, iff_of_false (by simp) (not_misread (by simp))⟩
      · exact ⟨rfl, Or.inl rfl, iff_of_false (by simp) (not_misread (by simp))⟩
  | connect =>
    simp only [StartChild.srvResume]
    split_ifs
    · exact ⟨rfl, Or.inl rfl, iff_of_false (by simp) (not_misread (by simp))⟩
    · exact ⟨rfl, Or.inl rfl, iff_of_false (by simp) (not_misread (by simp))⟩
  | refuse => exact ⟨rfl, Or.inl rfl, iff_of_false (by simp [StartChild.srvResume]) (not_misread (by simp))⟩
  | granted => exact ⟨rfl, Or.inl rfl, iff_of_false (by simp [StartChild.srvResume]) (not_misread (by simp))⟩

/-- the client after its sockets are there -/
theorem client_next {t : StartChild} {a : Ans} {pc : StartChild.CliPc} (hb : point (.client pc) = .busy)
    (hpc : t.pc = .client pc) :
    (StartChild.cliResume t a pc).cargs = t.cargs ∧
      (point (StartChild.cliResume t a pc).pc = .busy ∨ point (StartChild.cliResume t a pc).pc = .ended) ∧
      (StartChild.cliResume t a pc).pc ≠ .server .reject := by
  have hbusy : point t.pc = .busy := by rw [hpc]; exact hb
  cases pc with
  | peername => cases hb
  | socket => cases hb
  | request =>
    simp only [StartChild.cliResume, StartChild.request]
    split_ifs
    · exact ⟨rfl, Or.inl rfl, nofun⟩
    · exact ⟨rfl, Or.inl rfl, nofun⟩
    · exact ⟨rfl, Or.inl rfl, nofun⟩
  | userId =>
    obtain ⟨hcargs, hb', hpc'⟩ :=
      userId_cases { t with c := StartChild.recvChar t.c a.data } (.client .options) rfl hbusy
    refine ⟨hcargs, Or.inl hb', ?_⟩
    intro hr
    simp only [StartChild.cliResume] at hr
    rcases hpc' with h | h
    · cases (hr.symm.trans h).trans hpc
    · cases hr.symm.trans h
  | options =>
    simp only [StartChild.cliResume]
    split_ifs
    · exact ⟨rfl, Or.inr rfl, nofun⟩
    · exact ⟨rfl, Or.inl rfl, nofun⟩
  | bind =>
    simp only [StartChild.cliResume]
    split_ifs
    · exact ⟨rfl, Or.inr rfl, nofun⟩
    · exact ⟨rfl, Or.inl rfl, nofun⟩
  | connect =>
    simp only [StartChild.cliResume]
    split_ifs
    · exact ⟨rfl, Or.inl rfl, nofun⟩
    · exact ⟨rfl, Or.inl rfl, nofun⟩
  | reply =>
    simp only [StartChild.cliResume]
    split_ifs
    · exact ⟨rfl, Or.inl hbusy, by rw [hpc]; exact nofun⟩
    · exact ⟨rfl, Or.inl rfl, nofun⟩
  | answer =>
    simp only [StartChild.cliResume]
    split_ifs
    · exact ⟨rfl, Or.inl rfl, nofun⟩
    · exact ⟨rfl, Or.inl rfl, nofun⟩
  | refuse => exact ⟨rfl, Or.inl rfl, nofun⟩
  | forward => exact ⟨rfl, Or.inl rfl, nofun⟩
  | forwardNul => exact ⟨rfl, Or.inl rfl, nofun⟩

/-- the thread keeps to the way that leads to the closes, or has made them -/
def OnTrackThread (mode : Mode) (conn : ℤ) (t : StartChild) (l : Log) : Prop :=
  t.pc ≠ .server .reject ∧ (t.pc = .returned → closing mode conn ∈ calls l)

/-- from a busy point with a call that opens and closes nothing -/
theorem held_quiet {mode : Mode} {conn : ℤ} {t t' : StartChild} {l : Log} {c : Call} {a : Ans}
    (hopened : Opened mode conn t.cargs l) (hunclosed : closing mode conn ∉ calls l) (hq : quiet c = true)
    (hcargs : t'.cargs = t.cargs) (hp : point t'.pc = .busy ∨ point t'.pc = .ended ∨ t'.pc = .returned) :
    HeldThread mode conn t' (l ++ [(c, a)]) := by
  have hunclosed' : closing mode conn ∉ calls (l ++ [(c, a)]) := by
    rw [closing_mem_quiet hq]
    exact hunclosed
  unfold HeldThread
  rcases hp with hp | hp | hp
  · rw [hp, hcargs]
    exact ⟨hopened.snoc (ne_opening hq mode), hunclosed'⟩
  · rw [hp]
    exact trivial
  · rw [hp]
    exact Or.inr hunclosed'

theorem srvCall_quiet (t : StartChild) {pc : StartChild.SrvPc} (hb : point (.server pc) = .busy) :
    quiet (StartChild.srvCall t pc) = true := by
  cases pc with
  | peername => cases hb
  | socket => cases hb
  | _ => rfl

theorem cliCall_quiet (g : Globals) (t : StartChild) {pc : StartChild.CliPc} (hb : point (.client pc) = .busy) :
    quiet (StartChild.cliCall g t pc) = true := by
  cases pc with
  | peername => cases hb
  | socket => cases hb
  | _ => rfl

theorem not_returned {t : StartChild} (h : point t.pc = .busy ∨ point t.pc = .ended) : t.pc ≠ .returned := by
  intro hret
  rw [hret] at h
  rcases h with h | h
  · cases h
  · cases h

/-- a point that is neither the reply to a request that was not understood nor the end is on the way -/
theorem onTrack_of {mode : Mode} {conn : ℤ} {t : StartChild} {l : Log} (hr : t.pc ≠ .server .reject)
    (hret : t.pc ≠ .returned) : OnTrackThread mode conn t l := ⟨hr, fun h => absurd h hret⟩

theorem server_step {g : Globals} {conn : ℤ} {t : StartChild} {l : Log} {a : Ans} {pc : StartChild.SrvPc}
    (hpc : t.pc = .server pc) (h : HeldThread g.mode conn t l)
    (hok : permitted (StartChild.srvCall t pc) a = true) :
    HeldThread g.mode conn (StartChild.srvResume g t a pc) (l ++ [(StartChild.srvCall t pc, a)]) ∧
      (OnTrackThread g.mode conn (StartChild.srvResume g t a pc) (l ++ [(StartChild.srvCall t pc, a)]) ↔
        OnTrackThread g.mode conn t l ∧ ¬ Misread t a pc) := by
  by_cases hb : point (.server pc) = .busy
  · have hq := srvCall_quiet t hb
    rw [HeldThread, hpc, hb] at h
    obtain ⟨hopened, hunclosed⟩ := h
    obtain ⟨hcargs, hp, hreject⟩ := server_next (g := g) hb hok hpc
    refine ⟨held_quiet hopened hunclosed hq hcargs ?_, ?_⟩
    · rcases hp with hp | hp | ⟨-, hp⟩
      · exact Or.inl hp
      · exact Or.inr (Or.inl hp)
      · exact Or.inr (Or.inr hp)
    · have hret : t.pc ≠ .returned := by rw [hpc]; nofun
      by_cases hpr : pc = .reject
      · -- the reply is followed by a `return`
        obtain rfl := hpr
        refine ⟨fun htrack => absurd (htrack.2 rfl) ?_, fun htrack => absurd hpc htrack.1.1⟩
        rw [closing_mem_quiet hq]
        exact hunclosed
      · have hstay : (StartChild.srvResume g t a pc).pc ≠ .returned := by
          rcases hp with hp | hp | ⟨hpr', -⟩
          · exact not_returned (Or.inl hp)
          · exact not_returned (Or.inr hp)
          · exact absurd hpr' hpr
        constructor
        · intro htrack
          refine ⟨onTrack_of ?_ hret, fun hm => htrack.1 (hreject.2 hm)⟩
          rw [hpc]
          exact fun heq => hpr (StartChild.Pc.server.inj heq)
        · rintro ⟨-, hm⟩
          exact onTrack_of (fun hr => hm (hreject.1 hr)) hstay
  · have hm : ¬ Misread t a pc := by
      rintro ⟨p, rfl, -⟩
      exact hb rfl
    have htrack : OnTrackThread g.mode conn t l :=
      onTrack_of (by rw [hpc]; rintro heq; exact hb (by rw [StartChild.Pc.server.inj heq]; rfl)) (by rw [hpc]; nofun)
    have hidle : point t.pc = .idle := by
      rw [hpc]
      cases pc with
      | peername => rfl
      | socket => rfl
      | _ => exact absurd rfl hb
    rw [HeldThread, hidle] at h
    obtain ⟨hmode, hconn, hfresh⟩ := h
    rw [hpc] at hmode
    rw [iff_true_right ⟨htrack, hm⟩]
    cases pc with
    | peername => exact ⟨⟨hmode, hconn, hfresh.snoc rfl⟩, onTrack_of nofun nofun⟩
    | socket =>
      obtain ⟨hcargs, hbusy, hreject⟩ := header_cases { t with cargs := { udtsock := t.servsock, tcpsock := a.rc } } 0
      refine ⟨?_, onTrack_of (fun hr => absurd (hreject.1 hr).1 (by decide)) (not_returned (Or.inl hbusy))⟩
      rw [HeldThread, show point (StartChild.srvResume g t a .socket).pc = .busy from hbusy]
      rw [show g.mode = .server from hmode] at hfresh ⊢
      rw [show (StartChild.srvResume g t a .socket).cargs = { udtsock := t.servsock, tcpsock := a.rc } from hcargs]
      exact hfresh.open_ hconn rfl
    | _ => exact absurd rfl hb

theorem client_step {g : Globals} {conn : ℤ} {t : StartChild} {l : Log} {a : Ans} {pc : StartChild.CliPc}
    (hpc : t.pc = .client pc) (h : HeldThread g.mode conn t l) :
    HeldThread g.mode conn (StartChild.cliResume t a pc) (l ++ [(StartChild.cliCall g t pc, a)]) ∧
      OnTrackThread g.mode conn (StartChild.cliResume t a pc) (l ++ [(StartChild.cliCall g t pc, a)]) := by
  by_cases hb : point (.client pc) = .busy
  · have hq := cliCall_quiet g t hb
    rw [HeldThread, hpc, hb] at h
    obtain ⟨hcargs, hp, hreject⟩ := client_next (a := a) hb hpc
    exact ⟨held_quiet h.1 h.2 hq hcargs (hp.imp_right Or.inl), onTrack_of hreject (not_returned hp)⟩
  · have hidle : point t.pc = .idle := by
      rw [hpc]
      cases pc with
      | peername => rfl
      | socket => rfl
      | _ => exact absurd rfl hb
    rw [HeldThread, hidle] at h
    obtain ⟨hmode, hconn, hfresh⟩ := h
    rw [hpc] at hmode
    cases pc with
    | peername => exact ⟨⟨hmode, hconn, hfresh.snoc rfl⟩, onTrack_of nofun nofun⟩
    | socket =>
      refine ⟨?_, onTrack_of nofun nofun⟩
      rw [show g.mode = .client from hmode] at hfresh ⊢
      exact hfresh.open_ hconn rfl
    | _ => exact absurd rfl hb

/-- **What one step of the thread keeps**, and when it leaves the way to the closes. -/
theorem thread_step {g : Globals} {conn : ℤ} {t : StartChild} {l : Log} {c : Call} {a : Ans}
    (h : HeldThread g.mode conn t l) (hc : StartChild.call g t = some c) (hok : permitted c a = true) :
    HeldThread g.mode conn (StartChild.resume g t a) (l ++ [(c, a)]) ∧
      (OnTrackThread g.mode conn (StartChild.resume g t a) (l ++ [(c, a)]) ↔
        OnTrackThread g.mode conn t l ∧ ∀ pc, t.pc = .server pc → ¬ Misread t a pc) := by
  obtain ⟨pc, servsock, spkt, c0, cargs⟩ := t
  have hno (hpc : ∀ p, pc ≠ .server p) : ∀ p, pc = .server p → ¬ Misread ⟨pc, servsock, spkt, c0, cargs⟩ a p :=
    fun p hp => absurd hp (hpc p)
  cases pc with
  | server pc =>
    obtain rfl := Option.some.inj hc
    obtain ⟨hheld, htrack⟩ := server_step rfl h hok
    refine ⟨hheld, htrack.trans (and_congr_right' ?_)⟩
    exact ⟨fun hm p hp => StartChild.Pc.server.inj hp ▸ hm, fun hm => hm pc rfl⟩
  | client pc =>
    obtain rfl := Option.some.inj hc
    obtain ⟨hheld, htrack⟩ := client_step (a := a) rfl h
    exact ⟨hheld, iff_of_true htrack ⟨onTrack_of nofun nofun, hno nofun⟩⟩
  | createWorkers =>
    obtain rfl := Option.some.inj hc
    exact ⟨held_quiet h.1 h.2 rfl rfl (Or.inl rfl), iff_of_true (onTrack_of nofun nofun)
      ⟨onTrack_of nofun nofun, hno nofun⟩⟩
  | joinWorkers =>
    obtain rfl := Option.some.inj hc
    exact ⟨held_quiet h.1 h.2 rfl rfl (Or.inl rfl), iff_of_true (onTrack_of nofun nofun)
      ⟨onTrack_of nofun nofun, hno nofun⟩⟩
  | closeUdt =>
    obtain rfl := Option.some.inj hc
    have hopening : opening g.mode ≠ .udtClose cargs.udtsock := by
      cases g.mode with
      | server => nofun
      | client => nofun
    exact ⟨⟨h.1.snoc hopening, mem_calls_snoc.2 (Or.inr rfl)⟩, iff_of_true (onTrack_of nofun nofun)
      ⟨onTrack_of nofun nofun, hno nofun⟩⟩
  | closeTcp =>
    obtain rfl := Option.some.inj hc
    have hopening : opening g.mode ≠ .close cargs.tcpsock := by
      cases g.mode with
      | server => nofun
      | client => nofun
    have hreleased :=
      (h.1.snoc (a := a) hopening).released (mem_calls_snoc.2 (Or.inl h.2)) (mem_calls_snoc.2 (Or.inr rfl))
    exact ⟨Or.inl hreleased, iff_of_true ⟨nofun, fun _ => hreleased.accepted⟩ ⟨onTrack_of nofun nofun, hno nofun⟩⟩
  | returned => cases hc
  | exited => cases hc
  | aborted => cases hc
  | undefined => cases hc

/-! ## Whole runs -/

/-- no step so far leads past the closes -/
def OnTrack (mode : Mode) (conn : ℤ) (s : Handling) (l : Log) : Prop :=
  match s.pc with
  | .rejecting => mode = .client
  | .rejected => closing mode conn ∈ calls l
  | .serving => OnTrackThread mode conn s.thread l
  | _ => True

/-- a thread that has only been started, after a call that opens and closes nothing -/
theorem held_idle_snoc {mode : Mode} {conn : ℤ} {t : StartChild} {l : Log} {c : Call} {a : Ans}
    (h : HeldThread mode conn t l) (hidle : point t.pc = .idle) (hq : quiet c = true) :
    HeldThread mode conn t (l ++ [(c, a)]) := by
  unfold HeldThread at h ⊢
  rw [hidle] at h ⊢
  exact ⟨h.1, h.2.1, h.2.2.snoc hq⟩

theorem onTrack_idle {mode : Mode} {conn : ℤ} {t : StartChild} {l : Log} (hidle : point t.pc = .idle) :
    OnTrackThread mode conn t l := by
  refine onTrack_of ?_ ?_
  · intro hr
    rw [hr] at hidle
    cases hidle
  · intro hr
    rw [hr] at hidle
    cases hidle

/-- after the test of the source -/
theorem judged_cases {g : Globals} {conn : ℤ} {s : Handling} {l : Log} (h : HeldThread g.mode conn s.thread l)
    (hidle : point s.thread.pc = .idle) (v : Option Bool) :
    Held g.mode conn (judged g s v) l ∧
      (OnTrack g.mode conn (judged g s v) l ↔ (g.mode = .server → v ≠ some false)) := by
  cases v with
  | none => exact ⟨trivial, fun _ _ => nofun, fun _ => trivial⟩
  | some v =>
    cases v with
    | false =>
      refine ⟨⟨h, hidle⟩, fun hmode hs => ?_, fun hs => ?_⟩
      · cases hmode.symm.trans hs
      · show g.mode = .client
        cases hm : g.mode with
        | server => exact absurd rfl (hs hm)
        | client => rfl
    | true =>
      simp only [judged]
      split
      · exact ⟨⟨h, hidle⟩, fun _ _ => nofun, fun _ => trivial⟩
      · exact ⟨h, fun _ _ => nofun, fun _ => onTrack_idle hidle⟩

theorem understood_iff {s : Machine.Logged Handling Call Ans} {a : Ans} (hs : s.st.pc = .serving) :
    Understood s a ↔ ∀ pc, s.st.thread.pc = .server pc → ¬ Misread s.st.thread a pc := by
  unfold Understood Misread
  rw [hs]
  cases hpc : s.st.thread.pc with
  | server pc =>
    cases pc with
    | header p =>
      constructor
      · rintro hgood pc' heq ⟨q, rfl, hpos, hend, hbad⟩
        obtain rfl := StartChild.SrvPc.header.inj (StartChild.Pc.server.inj heq)
        exact hbad (hgood hpos hend)
      · intro hm hpos hend
        by_contra hbad
        exact hm _ rfl ⟨p, rfl, hpos, hend, hbad⟩
    | _ =>
      refine ⟨fun _ => ?_, fun _ => trivial⟩
      rintro pc' heq ⟨q, rfl, -⟩
      cases heq
  | _ => exact ⟨fun _ => nofun, fun _ => trivial⟩

/-- **What one step keeps**, and when it leaves the way to the closes. -/
theorem held_step {g : Globals} {conn : ℤ} {s₀ : Handling} {s t : Machine.Logged Handling Call Ans} {a : Ans}
    (h : Held g.mode conn s.st s.log) (hst : (system g s₀).step s a = some t) :
    Held g.mode conn t.st t.log ∧
      (OnTrack g.mode conn t.st t.log ↔ OnTrack g.mode conn s.st s.log ∧ Understood s a) := by
  obtain ⟨c, hc, hok, rfl⟩ := Machine.logged_cases hst
  obtain ⟨⟨pc, thread⟩, l⟩ := s
  cases pc with
  | checking clientaddr =>
    obtain rfl := Option.some.inj hc
    obtain ⟨hmode, hheld, hidle⟩ := h
    obtain ⟨hheld', htrack⟩ := judged_cases (s := ⟨.checking clientaddr, thread⟩)
      (held_idle_snoc (c := .getifaddrs) (a := a) hheld hidle rfl) hidle
      (AcceptLoop.sourceCheck g clientaddr (if a.rc < 0 then none else some a.ifap))
    refine ⟨hheld', htrack.trans (iff_of_true ?_ ⟨trivial, trivial⟩)⟩
    intro hs
    cases hmode.symm.trans hs
  | options =>
    obtain rfl := Option.some.inj hc
    have hheld' := held_idle_snoc (c := .setUdtOptions thread.servsock) (a := a) h.1 h.2 rfl
    simp only [machine, resume]
    split_ifs
    · exact ⟨trivial, iff_of_true trivial ⟨trivial, trivial⟩⟩
    · exact ⟨hheld', iff_of_true (onTrack_idle h.2) ⟨trivial, trivial⟩⟩
  | rejecting =>
    obtain rfl := Option.some.inj hc
    obtain ⟨hheld, hidle⟩ := h
    have hthread := hheld
    simp only [HeldThread] at hthread
    rw [hidle] at hthread
    obtain ⟨-, hconn, hfresh⟩ := hthread
    have hopening : opening g.mode ≠ .close thread.servsock := by
      cases g.mode with
      | server => nofun
      | client => nofun
    have hclosing : closing g.mode conn ∈ calls (l ++ [(.close thread.servsock, a)]) ↔ g.mode = .client := by
      rw [mem_calls_snoc, or_iff_right hfresh.unclosed, hconn]
      cases g.mode with
      | server => exact ⟨nofun, nofun⟩
      | client => exact ⟨fun _ => rfl, fun _ => rfl⟩
    refine ⟨⟨fun x hx => hfresh.unopened x ((opening_mem_snoc hopening).1 hx), hclosing⟩, ?_⟩
    exact hclosing.trans (and_iff_left trivial).symm
  | serving =>
    obtain ⟨hheld, htrack⟩ := thread_step h hc hok
    refine ⟨hheld, ?_⟩
    rw [understood_iff rfl]
    exact htrack
  | rejected => cases hc
  | exited => cases hc
  | aborted => cases hc

theorem held_accepted (g : Globals) (clientaddr : SockAddrIn) (conn : ℤ) (spkt : SockPkt) (c : UInt8) (cargs : Cargs) :
    Held g.mode conn (accepted g clientaddr conn spkt c cargs) [] ∧
      (OnTrack g.mode conn (accepted g clientaddr conn spkt c cargs) [] ↔
        (g.mode = .server → sockaddrMatch (.in4 clientaddr) (.in4 g.peeraddr) false ≠ some false)) := by
  have hidle : point (StartChild.start g.mode conn spkt c cargs).pc = .idle := by
    cases g.mode with
    | server => rfl
    | client => rfl
  have hheld : HeldThread g.mode conn (StartChild.start g.mode conn spkt c cargs) [] := by
    unfold HeldThread
    rw [hidle]
    refine ⟨?_, rfl, nofun, nofun⟩
    cases g.mode with
    | server => rfl
    | client => rfl
  unfold accepted
  split_ifs with hchecks
  · exact ⟨⟨hchecks.1, hheld, hidle⟩, iff_of_true trivial fun hs => by cases hchecks.1.symm.trans hs⟩
  · obtain ⟨hheld', htrack⟩ := judged_cases (s := ⟨.checking clientaddr, StartChild.start g.mode conn spkt c cargs⟩)
      hheld hidle (AcceptLoop.sourceCheck g clientaddr none)
    refine ⟨hheld', htrack.trans (forall_congr' fun hs => ?_)⟩
    rw [AcceptLoop.sourceCheck, hs]

/-- **No leaked connection.** When the handling of a connection is over, the accepted socket and the one opened for it
have been closed through the API of their transports, if and only if, on the server, the source matched the peer's
address and the request had the version and the command that are served. -/
theorem released_iff (g : Globals) (clientaddr : SockAddrIn) (conn : ℤ) (spkt : SockPkt) (c : UInt8) (cargs : Cargs)
    {as : List Ans} {s : Machine.Logged Handling Call Ans}
    (h : (system g (accepted g clientaddr conn spkt c cargs)).exec
      ⟨accepted g clientaddr conn spkt c cargs, []⟩ as = some s) (hover : s.st.Over) :
    Released g.mode conn s.log ↔
      (g.mode = .server → sockaddrMatch (.in4 clientaddr) (.in4 g.peeraddr) false ≠ some false) ∧
        (system g (accepted g clientaddr conn spkt c cargs)).Meets Understood
          ⟨accepted g clientaddr conn spkt c cargs, []⟩ as := by
  obtain ⟨hheld, htrack⟩ := held_accepted g clientaddr conn spkt c cargs
  have hend := System.exec_inv (fun t => Held g.mode conn t.st t.log) (fun _ _ _ hs hst => (held_step hs hst).1) h hheld
  have hmeets := System.meets_iff (fun t => Held g.mode conn t.st t.log) (fun t => OnTrack g.mode conn t.st t.log)
    Understood (fun _ _ _ hs hst => (held_step hs hst).1) (fun _ _ _ hs hst => (held_step hs hst).2) h hheld
  rw [← htrack, ← hmeets]
  rcases hover with hpc | ⟨hpc, hret⟩
  · simp only [Held, hpc] at hend
    simp only [OnTrack, hpc]
    exact ⟨Released.accepted, fun hclosed => ⟨hclosed, fun a ha => absurd ha (hend.1 a)⟩⟩
  · simp only [Held, hpc, HeldThread, hret, point] at hend
    simp only [OnTrack, hpc, OnTrackThread, hret]
    constructor
    · exact fun hreleased => ⟨nofun, fun _ => hreleased.accepted⟩
    · rintro ⟨-, hclosed⟩
      exact hend.resolve_right fun hno => hno (hclosed trivial)

/-- a server with -N -N whose peer is 10.0.0.1 -/
def gateServer : Globals := { AcceptLoop.localClient with mode := .server, netAccess := 2 }

/-- its peer calls -/
def peerCalls : Handling :=
  accepted gateServer gateServer.peeraddr 9 ⟨0, 0, Bytes.zero 2, Bytes.zero 4⟩ 0 ⟨0, 0⟩

/-- the options are set, the socket to the other side is 5, and the request is `request` -/
def requested (request : List UInt8) : List Ans := [⟨0, 0, [], []⟩, ⟨0, 0, [], []⟩, ⟨5, 0, [], []⟩, ⟨8, 0, request, []⟩]

/-- a request for a server that does not answer -/
theorem released_iff_unreachable :
    ∃ s, (system gateServer peerCalls).exec ⟨peerCalls, []⟩ (requested [4, 1, 0, 80, 10, 0, 0, 7] ++
      [⟨1, 0, [0], []⟩, ⟨-1, 0, [], []⟩, ⟨8, 0, [], []⟩, ⟨0, 0, [], []⟩, ⟨0, 0, [], []⟩]) = some s ∧
      s.st.Over ∧ Released .server 9 s.log := by
  obtain ⟨s, hs, hover⟩ : ∃ s, (system gateServer peerCalls).exec ⟨peerCalls, []⟩
      (requested [4, 1, 0, 80, 10, 0, 0, 7] ++
        [⟨1, 0, [0], []⟩, ⟨-1, 0, [], []⟩, ⟨8, 0, [], []⟩, ⟨0, 0, [], []⟩, ⟨0, 0, [], []⟩]) = some s ∧ s.st.Over :=
    System.exec_of_any (by decide)
  exact ⟨s, hs, hover, (released_iff gateServer _ 9 _ 0 _ hs hover).2 ⟨by decide, by decide⟩⟩

/-- **A leak for each wrong version.** The thread answers a request of version 5 and returns; UDT id 9 and descriptor 5
stay open. -/
theorem wrong_version_leaks :
    ¬ ∀ (g : Globals) (clientaddr : SockAddrIn) (conn : ℤ) (spkt : SockPkt) (c : UInt8) (cargs : Cargs) (as : List Ans)
      (s : Machine.Logged Handling Call Ans),
      (system g (accepted g clientaddr conn spkt c cargs)).exec ⟨accepted g clientaddr conn spkt c cargs, []⟩ as =
        some s → s.st.Over → Released g.mode conn s.log := by
  intro h
  obtain ⟨s, hs, hover, hclosed⟩ : ∃ s, (system gateServer peerCalls).exec ⟨peerCalls, []⟩
      (requested [5, 1, 0, 80, 10, 0, 0, 7] ++ [⟨8, 0, [], []⟩]) = some s ∧ s.st.Over ∧
        Call.udtClose 9 ∉ calls s.log := System.exec_of_any (by decide)
  exact hclosed (h _ _ _ _ _ _ _ s hs hover).accepted

end Handling

end UdtGate
