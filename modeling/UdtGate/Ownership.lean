/-
Who owns which descriptor, over every interleaving of the accept loop and the threads it starts.

The process is the accept loop of `main`, its threads, and what they share: the table of open descriptors, the static
variables of `check_udp_buffer`, and the variable through which a connection is handed over. A new descriptor is any
number that nobody holds. Every libc `close` is recorded with the holder of the descriptor at that moment.

- `Gate.step`: one call of one of the threads, or one access to shared memory.
- `Owned`: what is wanted. Every `close` was applied to a descriptor that the closing thread held, and a probe socket is
  open only while its thread is in `check_udp_buffer`.
- `Careful`: the steps that do not lead away from it.
- `owned_of_careful`: a run of careful steps keeps `Owned`.
- `second_close_hits`: a probe socket that is closed twice, and the connection of another thread in between.
-/
import UdtGate.UdpBuffer
import UdtGate.Handling

namespace UdtGate

open UdtGate.Core

/-! ## What the threads share -/

inductive Tid where
  | main
  | child (i : ℕ)
deriving DecidableEq

inductive Kind where
  | tcp
  /-- a probe socket of `check_udp_buffer` -/
  | udp
deriving DecidableEq

/-- the holder of a descriptor: who opened or accepted it, or was handed the connection -/
structure Owner where
  tid : Tid
  kind : Kind
deriving DecidableEq

/-- the static variables of `check_udp_buffer`, for one direction -/
structure Sizes where
  chk : ℕ
  max : ℕ
  warned : Bool
deriving DecidableEq

/-- a call of libc `close`, with the holder of the descriptor when it was made -/
structure Close where
  tid : Tid
  fd : ℤ
  holder : Option Owner
deriving DecidableEq

structure Shared where
  holder : ℤ → Option Owner
  sizes : Buf → Sizes
  /-- all calls of `close`, oldest first -/
  closes : List Close

namespace Shared

/-- nothing is open, and the static variables have their initial values -/
def start : Shared := ⟨fun _ => none, fun _ => ⟨0, 0, false⟩, []⟩

/-- a call that opens a descriptor returns a number that nobody holds, or -1 -/
def socket (k : Shared) (tid : Tid) (kind : Kind) (fd : ℤ) : Option Shared :=
  if fd = -1 then some k
  else if 0 ≤ fd ∧ k.holder fd = none then some { k with holder := Function.update k.holder fd (some ⟨tid, kind⟩) }
  else none

def close (k : Shared) (tid : Tid) (fd : ℤ) : Shared :=
  { k with holder := Function.update k.holder fd none, closes := k.closes ++ [⟨tid, fd, k.holder fd⟩] }

/-- a call of the thread `tid` in `start_child` -/
def serve (k : Shared) (tid : Tid) (c : Call) (a : Ans) : Option Shared :=
  match c with
  | .socket => k.socket tid .tcp a.rc
  | .close sd => some (k.close tid sd)
  | _ => some k

/-- a call of the thread `tid` in `check_udp_buffer`, and what it returns; loads return what the memory holds -/
def serveCheck (k : Shared) (tid : Tid) (c : Check.Call) (rc : ℤ) : Option (Shared × ℤ) :=
  match c with
  | .socket => (k.socket tid .udp rc).map fun k => (k, rc)
  | .close sd => some (k.close tid sd, rc)
  | .loadChk b => some (k, (k.sizes b).chk)
  | .storeChk b size => some ({ k with sizes := Function.update k.sizes b { k.sizes b with chk := size } }, rc)
  | .loadMax b => some (k, (k.sizes b).max)
  | .storeMax b size => some ({ k with sizes := Function.update k.sizes b { k.sizes b with max := size } }, rc)
  | .loadWarned b => some (k, if (k.sizes b).warned then 1 else 0)
  | .storeWarned b => some ({ k with sizes := Function.update k.sizes b { k.sizes b with warned := true } }, rc)
  | _ => some (k, rc)

end Shared

/-! ## The process -/

/-- a thread that runs `start_child(&slot)`; `opts` while it is in `setsockopt(peersock)` -/
structure ChildThread where
  child : StartChild
  opts : Option Options
deriving DecidableEq

/-- what follows the options of a UDT socket in `main` -/
inductive Gate.After where
  /-- the listening socket -/
  | listen
  /-- the socket of a rendezvous -/
  | rendezvous
  /-- an accepted connection -/
  | spawn
deriving DecidableEq

inductive Gate.Pc where
  /-- the client opens `ltcpsock` -/
  | listening
  /-- `bind` and `listen` -/
  | binding
  | options (o : Options) (after : Gate.After)
  | accepting
  | rzvBind
  | rzvConnecting
  | checking (clientaddr : SockAddrIn)
  | rejecting
  | spawning
  /-- the process has ended -/
  | stopped
deriving DecidableEq

/-- `slot` is `audtsock` or `atcpsock` -/
structure Gate where
  shared : Shared
  pc : Gate.Pc
  slot : ℤ
  threads : List ChildThread

namespace Gate

inductive Label where
  | main (a : Ans)
  | accept (rc : ℤ) (clientaddr : SockAddrIn)
  /-- the socket in the slot is connected, in rendezvous mode -/
  | connected (clientaddr : SockAddrIn)
  /-- with what the variables of the new thread hold -/
  | spawn (spkt : SockPkt) (c : UInt8) (cargs : Cargs)
  | thread (i : ℕ) (a : Ans)
deriving DecidableEq

/-- as `main` has parsed its arguments -/
def start (g : Globals) (options : UdtOptions) (ludtsock : ℤ) : Gate where
  shared := Shared.start
  pc := match g.mode with
    | .client => .listening
    | .server => if g.isRendezvous then .accepting else .options (Options.start options ludtsock) .listen
  slot := 0
  threads := []

def after : After → Pc
  | .listen => .binding
  | .rendezvous => .rzvBind
  | .spawn => .spawning

/-- a step of `main` other than those with labels of their own -/
def mainStep (g : Globals) (options : UdtOptions) (w : Gate) (a : Ans) : Option Gate :=
  match w.pc with
  | .listening =>
    (w.shared.socket .main .tcp a.rc).map fun k =>
      { w with shared := k, pc := if a.rc = -1 then .stopped else .binding }
  | .binding => some { w with pc := if a.rc = 0 then .accepting else .stopped }
  | .options o next =>
    match o.call with
    | none => some { w with pc := if o.pc = .died then .stopped else after next }
    | some c =>
      (w.shared.serveCheck .main c a.rc).map fun r =>
        { w with shared := r.1, pc := .options (o.resume options g.isRendezvous r.2) next }
  | .accepting =>
    if AcceptLoop.connects g then
      some { w with slot := a.rc, pc := .options (Options.start options a.rc) .rendezvous }
    else none
  | .rzvBind => some { w with pc := if a.rc = -1 then .stopped else .rzvConnecting }
  -- a connect that failed is made again
  | .rzvConnecting => some w
  | .checking clientaddr =>
    match AcceptLoop.sourceCheck g clientaddr (if a.rc < 0 then none else some a.ifap) with
    | none => some { w with pc := .stopped }
    | some false => some { w with pc := .rejecting }
    | some true =>
      match g.mode with
      | .server => some { w with pc := .options (Options.start options w.slot) .spawn }
      | .client => some { w with pc := .spawning }
  | .rejecting => some { w with shared := w.shared.close .main w.slot, pc := .accepting }
  | .spawning => none
  | .stopped => none

/-- the thread has still to read the slot -/
def unread : StartChild.Pc → Bool
  | .server .peername | .server .socket | .client .peername | .client .socket => true
  | _ => false

/-- the thread reads the slot for as long as it has no copy -/
def look (slot : ℤ) (t : StartChild) : StartChild := if unread t.pc then { t with servsock := slot } else t

def setThread (w : Gate) (i : ℕ) (t : ChildThread) : Gate := { w with threads := w.threads.set i t }

/-- `log_die` and `assert` end the process; after a store outside of `spkt` there is nothing to be said about it -/
def ends : StartChild.Pc → Bool
  | .exited | .aborted | .undefined => true
  | _ => false

def threadStep (g : Globals) (options : UdtOptions) (w : Gate) (i : ℕ) (t : ChildThread) (a : Ans) : Option Gate :=
  match t.opts with
  | some o =>
    match o.call with
    | none =>
      if o.pc = .died then some { w with pc := .stopped }
      else some (w.setThread i ⟨StartChild.resume g t.child ⟨0, 0, [], []⟩, none⟩)
    | some c =>
      (w.shared.serveCheck (.child i) c a.rc).map fun r =>
        { w with shared := r.1 }.setThread i ⟨t.child, some (o.resume options g.isRendezvous r.2)⟩
  | none =>
    match StartChild.call g (look w.slot t.child) with
    | none => none
    | some (.setUdtOptions sock) => some (w.setThread i ⟨t.child, some (Options.start options sock)⟩)
    | some c =>
      if permitted c a then
        (w.shared.serve (.child i) c a).map fun k =>
          let child := StartChild.resume g (look w.slot t.child) a
          { w with shared := k, pc := if ends child.pc then .stopped else w.pc }.setThread i ⟨child, none⟩
      else none

def step (g : Globals) (options : UdtOptions) (w : Gate) (l : Label) : Option Gate :=
  if w.pc = .stopped then none
  else
    match l with
    | .main a => mainStep g options w a
    | .accept rc clientaddr =>
      if w.pc = .accepting ∧ AcceptLoop.connects g = false then
        if rc = -1 then some { w with pc := .stopped }
        else
          match g.mode with
          | .server => some { w with slot := rc, pc := .checking clientaddr }
          | .client =>
            (w.shared.socket .main .tcp rc).map fun k => { w with shared := k, slot := rc, pc := .checking clientaddr }
      else none
    | .connected clientaddr => if w.pc = .rzvConnecting then some { w with pc := .checking clientaddr } else none
    | .spawn spkt c cargs =>
      if w.pc = .spawning then
        -- the connection now belongs to the new thread
        let k := match g.mode with
          | .server => w.shared
          | .client =>
            { w.shared with
              holder := Function.update w.shared.holder w.slot (some ⟨.child w.threads.length, .tcp⟩) }
        some { w with
          shared := k, pc := .accepting,
          threads := w.threads ++ [⟨StartChild.start g.mode w.slot spkt c cargs, none⟩] }
      else none
    | .thread i a =>
      match w.threads[i]? with
      | none => none
      | some t => threadStep g options w i t a

/-- all runs of the process -/
def system (g : Globals) (options : UdtOptions) : System Gate Label :=
  ⟨fun w => ∃ ludtsock, w = start g options ludtsock, step g options⟩

/-! ## What is wanted -/

end Gate

/-- the probe socket that is open at this point -/
def Check.probe (s : Check) : Option ℤ :=
  match s.pc with
  | .sockopt | .bind | .closeBound | .maxStore | .closeLast => some s.sd
  | _ => none

def Options.probe (o : Options) : Option ℤ :=
  match o.pc with
  | .checking k => k.probe
  | _ => none

namespace Gate

/-- the probe socket of a thread in `check_udp_buffer` -/
def probe (w : Gate) : Tid → Option ℤ
  | .main =>
    match w.pc with
    | .options o _ => o.probe
    | _ => none
  | .child i => (w.threads[i]?.bind ChildThread.opts).bind Options.probe

/-- every `close` was applied to a descriptor of the closing thread, and only a thread in `check_udp_buffer` has a probe
socket open, the one it is about to close -/
structure Owned (w : Gate) : Prop where
  rightful : ∀ c ∈ w.shared.closes, ∃ kind, c.holder = some ⟨c.tid, kind⟩
  probes : w.pc ≠ .stopped → ∀ tid fd, w.shared.holder fd = some ⟨tid, .udp⟩ → w.probe tid = some fd

/-- a step in `check_udp_buffer` after a size was accepted: it was the first one; and a socket that is closed is one -/
def CarefulCheck (k : Shared) (o : Options) : Prop :=
  match o.pc with
  | .checking s =>
    match s.pc with
    | .maxFirst => (k.sizes s.buf).max = 0
    | .closeBound | .closeLast => s.sd ≠ -1
    | _ => True
  | _ => True

/-- the thread of the client has still to read the slot -/
def waiting : StartChild.Pc → Bool
  | .client .peername | .client .socket => true
  | _ => false

/-- a connection goes into the slot only when every thread of the client has read it, the server rejects nobody, and
`check_udp_buffer` and `start_child` close what they have opened -/
def Careful (g : Globals) (w : Gate) : Label → Prop
  | .main _ =>
    match w.pc with
    | .accepting => ∀ t ∈ w.threads, waiting t.child.pc = false
    | .rejecting => g.mode = .client
    | .options o _ => CarefulCheck w.shared o
    | _ => True
  | .accept _ _ => ∀ t ∈ w.threads, waiting t.child.pc = false
  | .thread i _ =>
    match w.threads[i]? with
    | some ⟨_, some o⟩ => CarefulCheck w.shared o
    | some ⟨t, none⟩ => t.pc = .closeTcp → t.cargs.tcpsock ≠ -1
    | none => True
  | _ => True

instance (k : Shared) (o : Options) : Decidable (CarefulCheck k o) := by
  unfold CarefulCheck
  split
  · split <;> infer_instance
  · infer_instance

instance (g : Globals) (w : Gate) (l : Label) : Decidable (Careful g w l) := by
  cases l with
  | main a =>
    unfold Careful
    dsimp only
    split <;> infer_instance
  | thread i a =>
    unfold Careful
    dsimp only
    split <;> infer_instance
  | accept rc clientaddr => exact inferInstanceAs (Decidable (∀ t ∈ w.threads, _))
  | connected clientaddr => exact isTrue trivial
  | spawn spkt c cargs => exact isTrue trivial

/-! ## The invariant -/

/-- the TCP descriptor that a thread has to close, when the slot holds `slot` -/
def toClose (slot : ℤ) (t : StartChild) : Option ℤ :=
  if waiting t.pc then some slot
  else
    match Handling.point t.pc with
    | .busy | .closing => some t.cargs.tcpsock
    | _ => none

/-- what the thread `tid` holds: the probe socket `probe` and the TCP descriptor `tcp` -/
structure Holds (k : Shared) (tid : Tid) (probe tcp : Option ℤ) : Prop where
  udp : ∀ fd, k.holder fd = some ⟨tid, .udp⟩ ↔ probe = some fd ∧ fd ≠ -1
  tcp : ∀ fd, tcp = some fd → fd ≠ -1 → k.holder fd = some ⟨tid, .tcp⟩

/-- the TCP descriptor that the thread `tid` has to close; the accepted connection, while it is with `main` -/
def conn (mode : Mode) (w : Gate) : Tid → Option ℤ
  | .main =>
    match w.pc with
    | .checking _ | .rejecting | .spawning => if mode = .client then some w.slot else none
    | _ => none
  | .child i => w.threads[i]?.bind fun t => toClose w.slot t.child

def Rightful (k : Shared) : Prop := ∀ c ∈ k.closes, ∃ kind, c.holder = some ⟨c.tid, kind⟩

/-- only the server sets options in `main` -/
def serverOnly : Pc → Bool
  | .options _ _ | .rzvBind | .rzvConnecting => true
  | _ => false

structure Inv (mode : Mode) (w : Gate) : Prop where
  rightful : Rightful w.shared
  holds : w.pc ≠ .stopped → ∀ tid, Holds w.shared tid (w.probe tid) (w.conn mode tid)
  slot : ∀ fd, w.conn mode .main = some fd → fd ≠ -1
  inOptions : ∀ t ∈ w.threads, t.opts ≠ none → t.child.pc = .client .options
  branch : serverOnly w.pc = true → mode = .server

/-! ## What the threads do to each other -/

/-- nothing changes for the descriptors of other threads -/
def Frame (tid : Tid) (k k' : Shared) : Prop := ∀ fd o, o.tid ≠ tid → (k'.holder fd = some o ↔ k.holder fd = some o)

theorem Holds.frame {tid tid' : Tid} {k k' : Shared} {probe tcp : Option ℤ} (hf : Frame tid k k') (hne : tid' ≠ tid)
    (h : Holds k tid' probe tcp) : Holds k' tid' probe tcp where
  udp fd := (hf fd ⟨tid', .udp⟩ hne).trans (h.udp fd)
  tcp fd ht hfd := (hf fd ⟨tid', .tcp⟩ hne).2 (h.tcp fd ht hfd)

theorem Frame.refl (tid : Tid) (k : Shared) : Frame tid k k := fun _ _ _ => Iff.rfl

/-- nothing was opened or closed -/
theorem Holds.same {tid : Tid} {k k' : Shared} {probe tcp tcp' : Option ℤ} (hk : k'.holder = k.holder)
    (ht : tcp' = tcp ∨ tcp' = none) (h : Holds k tid probe tcp) : Holds k' tid probe tcp' where
  udp fd := by
    rw [hk]
    exact h.udp fd
  tcp fd hfd hne := by
    rw [hk]
    rcases ht with rfl | rfl
    · exact h.tcp fd hfd hne
    · cases hfd

/-- what a step of the thread `tid` has to keep, which then holds `probe` and `tcp` -/
structure Keeps (tid : Tid) (k k' : Shared) (probe tcp : Option ℤ) : Prop where
  frame : Frame tid k k'
  rightful : Rightful k'
  holds : Holds k' tid probe tcp

/-- a call that opens a descriptor -/
theorem socket_cases {k k' : Shared} {tid : Tid} {kind : Kind} {fd : ℤ} (h : k.socket tid kind fd = some k') :
    k'.closes = k.closes ∧ Frame tid k k' ∧
      ((fd = -1 ∧ k' = k) ∨
        (fd ≠ -1 ∧ k.holder fd = none ∧ k'.holder = Function.update k.holder fd (some ⟨tid, kind⟩))) := by
  unfold Shared.socket at h
  split_ifs at h with h1 h2
  · obtain rfl := Option.some.inj h
    exact ⟨rfl, Frame.refl tid k, Or.inl ⟨h1, rfl⟩⟩
  · obtain rfl := Option.some.inj h
    refine ⟨rfl, ?_, Or.inr ⟨h1, h2.2, rfl⟩⟩
    intro x o ho
    by_cases hx : x = fd
    · subst hx
      simp only [Function.update_self, h2.2, Option.some.injEq, reduceCtorEq, iff_false]
      rintro rfl
      exact ho rfl
    · simp only [Function.update_of_ne hx]

theorem Rightful.socket {k k' : Shared} {tid : Tid} {kind : Kind} {fd : ℤ} (hr : Rightful k)
    (h : k.socket tid kind fd = some k') : Rightful k' := by
  intro c hc
  rw [(socket_cases h).1] at hc
  exact hr c hc

/-- **A close by the holder** disturbs nobody. -/
theorem close_cases {k : Shared} {tid : Tid} {kind : Kind} {fd : ℤ} (hr : Rightful k)
    (h : k.holder fd = some ⟨tid, kind⟩) : Rightful (k.close tid fd) ∧ Frame tid k (k.close tid fd) := by
  constructor
  · intro c hc
    rcases List.mem_append.1 hc with hc | hc
    · exact hr c hc
    · rw [List.mem_singleton.1 hc]
      exact ⟨kind, h⟩
  · intro x o ho
    by_cases hx : x = fd
    · subst hx
      simp only [Shared.close, Function.update_self, h, Option.some.injEq, reduceCtorEq, false_iff]
      rintro rfl
      exact ho rfl
    · simp only [Shared.close, Function.update_of_ne hx]

theorem Holds.open_udp {k k' : Shared} {tid : Tid} {fd : ℤ} {tcp : Option ℤ} (h : Holds k tid none tcp)
    (hk : k.socket tid .udp fd = some k') : Holds k' tid (some fd) tcp := by
  have hno (x : ℤ) : k.holder x ≠ some ⟨tid, .udp⟩ := fun hx => by cases ((h.udp x).1 hx).1
  rcases (socket_cases hk).2.2 with ⟨rfl, rfl⟩ | ⟨hne, hfree, hupd⟩
  · refine ⟨fun x => ?_, h.tcp⟩
    simp only [hno x, false_iff, Option.some.injEq]
    rintro ⟨rfl, hx⟩
    exact hx rfl
  · refine ⟨fun x => ?_, fun x hx hx1 => ?_⟩
    · rw [hupd, Option.some.injEq]
      by_cases hx : x = fd
      · subst hx
        simp [hne]
      · simp only [Function.update_of_ne hx, hno x, false_iff]
        exact fun heq => hx heq.1.symm
    · have hold := h.tcp x hx hx1
      rw [hupd, Function.update_of_ne]
      · exact hold
      · rintro rfl
        rw [hfree] at hold
        cases hold

theorem Holds.open_tcp {k k' : Shared} {tid : Tid} {fd : ℤ} {probe tcp : Option ℤ} (h : Holds k tid probe tcp)
    (hk : k.socket tid .tcp fd = some k') : Holds k' tid probe (some fd) := by
  rcases (socket_cases hk).2.2 with ⟨rfl, rfl⟩ | ⟨hne, hfree, hupd⟩
  · exact ⟨h.udp, fun x hx hx1 => absurd (Option.some.inj hx).symm hx1⟩
  · refine ⟨fun x => ?_, fun x hx _ => ?_⟩
    · rw [hupd, ← h.udp]
      by_cases hx : x = fd
      · subst hx
        simp [hfree]
      · rw [Function.update_of_ne hx]
    · obtain rfl := Option.some.inj hx
      rw [hupd, Function.update_self]

theorem Holds.close_udp {k : Shared} {tid : Tid} {fd : ℤ} {tcp : Option ℤ} (h : Holds k tid (some fd) tcp)
    (hne : fd ≠ -1) : Holds (k.close tid fd) tid none tcp := by
  have hfd : k.holder fd = some ⟨tid, .udp⟩ := (h.udp fd).2 ⟨rfl, hne⟩
  refine ⟨fun x => ?_, fun x hx hx1 => ?_⟩
  · simp only [Shared.close, reduceCtorEq, false_and, iff_false]
    by_cases hx : x = fd
    · subst hx
      simp
    · rw [Function.update_of_ne hx]
      exact fun hheld => hx (Option.some.inj ((h.udp x).1 hheld).1).symm
  · have hold := h.tcp x hx hx1
    simp only [Shared.close]
    rw [Function.update_of_ne]
    · exact hold
    · rintro rfl
      cases hold.symm.trans hfd

theorem Holds.close_tcp {k : Shared} {tid : Tid} {fd : ℤ} {probe : Option ℤ} (h : Holds k tid probe (some fd))
    (hne : fd ≠ -1) : Holds (k.close tid fd) tid probe none := by
  have hfd := h.tcp fd rfl hne
  refine ⟨fun x => ?_, nofun⟩
  rw [← h.udp]
  simp only [Shared.close]
  by_cases hx : x = fd
  · subst hx
    simp [hfd]
  · rw [Function.update_of_ne hx]

/-! ## check_udp_buffer -/

theorem probe_check_start (options : UdtOptions) (sock : ℤ) (b : Buf) : (Check.start options sock b).probe = none := by
  unfold Check.start
  split
  · rfl
  · rfl

theorem probe_checks (options : UdtOptions) (sock : ℤ) : (Options.checks options sock).probe = none :=
  probe_check_start options sock .rcv

theorem probe_options_start (options : UdtOptions) (sock : ℤ) : (Options.start options sock).probe = none := by
  cases options with
  | nil => exact probe_checks [] sock
  | cons opt rest => rfl

theorem probe_loop (s : Check) : s.loop.probe = some s.sd := by
  unfold Check.loop
  split_ifs
  · rfl
  · rfl

/-- a check that has ended has closed its socket -/
theorem probe_checked (options : UdtOptions) (rzv : Bool) (o : Options) (s : Check) :
    (Options.checked options rzv o s).probe = s.probe := by
  unfold Options.checked
  split
  · next hpc => simp only [Options.probe, Check.probe, hpc]
  · next hpc =>
    have hnone : s.probe = none := by simp only [Check.probe, hpc]
    rw [hnone]
    split
    · exact probe_check_start options o.sock .snd
    · split_ifs
      · rfl
      · rfl
  · rfl

/-- a step that touches no descriptor -/
theorem holds_quiet {k k' : Shared} {tid : Tid} {p p' tcp : Option ℤ} (hk : k'.holder = k.holder)
    (hc : k'.closes = k.closes) (hr : Rightful k) (h : Holds k tid p tcp) (hp : p' = p) :
    Keeps tid k k' p' tcp := by
  subst hp
  refine ⟨fun fd o _ => by rw [hk], ?_, h.same hk (Or.inl rfl)⟩
  intro c hmem
  exact hr c (hc ▸ hmem)

/-- a call of `check_udp_buffer` that opens or closes nothing -/
def quietCheck : Check.Call → Bool
  | .socket | .close _ => false
  | _ => true

theorem serveCheck_quiet {k k' : Shared} {tid : Tid} {c : Check.Call} {rc rc' : ℤ}
    (hs : k.serveCheck tid c rc = some (k', rc')) (hq : quietCheck c = true) :
    k'.holder = k.holder ∧ k'.closes = k.closes := by
  cases c with
  | socket => cases hq
  | close sd => cases hq
  | _ =>
    obtain ⟨rfl, -⟩ := Prod.mk.inj (Option.some.inj hs)
    exact ⟨rfl, rfl⟩

/-- a step that neither opens nor closes the probe socket; after the first size it returns -/
theorem probe_resume {s : Check} {rc : ℤ} (hsocket : s.pc ≠ .socket) (hbound : s.pc ≠ .closeBound)
    (hlast : s.pc ≠ .closeLast) (hfirst : s.pc = .maxFirst → rc = 0) : (s.resume rc).probe = s.probe := by
  obtain ⟨sock, b, custom, pc, size, sz, sd⟩ := s
  cases pc with
  | socket => exact absurd rfl hsocket
  | closeBound => exact absurd rfl hbound
  | closeLast => exact absurd rfl hlast
  | maxFirst =>
    simp only [Check.resume, hfirst rfl, if_true]
    rfl
  | maxStore => exact probe_loop _
  | chkSet | chkEnough | maxUnset | sockopt | bind | chkLess =>
    simp only [Check.resume]
    split_ifs
    · rfl
    · rfl
  | maxLess =>
    simp only [Check.resume]
    split_ifs
    · rfl
    · rfl
    · rfl
  | _ => rfl

/-- the close of the probe socket -/
theorem check_close {k : Shared} {tid : Tid} {sd : ℤ} {tcp : Option ℤ} (hr : Rightful k)
    (h : Holds k tid (some sd) tcp) (hne : sd ≠ -1) :
    Keeps tid k (k.close tid sd) none tcp := by
  obtain ⟨hr', hframe⟩ := close_cases hr ((h.udp sd).2 ⟨rfl, hne⟩)
  exact ⟨hframe, hr', h.close_udp hne⟩

/-- **One step of a check** that does not leave by `break`, and has a socket to close. -/
theorem check_step {k k' : Shared} {tid : Tid} {s : Check} {c : Check.Call} {rc rc' : ℤ} {tcp : Option ℤ}
    (hr : Rightful k) (h : Holds k tid s.probe tcp) (hc : s.call = some c)
    (hs : k.serveCheck tid c rc = some (k', rc'))
    (hfirst : s.pc = .maxFirst → (k.sizes s.buf).max = 0) (hsd : s.pc = .closeBound ∨ s.pc = .closeLast → s.sd ≠ -1) :
    Keeps tid k k' (s.resume rc').probe tcp := by
  obtain ⟨sock, b, custom, pc, size, sz, sd⟩ := s
  cases pc with
  | socket =>
    obtain rfl := Option.some.inj hc
    obtain ⟨k₁, hk₁, heq⟩ := Option.map_eq_some_iff.1 hs
    obtain ⟨rfl, rfl⟩ := Prod.mk.inj heq
    refine ⟨(socket_cases hk₁).2.1, hr.socket hk₁, ?_⟩
    simp only [Check.resume, probe_loop]
    exact h.open_udp hk₁
  | closeBound =>
    obtain rfl := Option.some.inj hc
    obtain ⟨rfl, rfl⟩ := Prod.mk.inj (Option.some.inj hs)
    exact check_close hr h (hsd (Or.inl rfl))
  | closeLast =>
    obtain rfl := Option.some.inj hc
    obtain ⟨rfl, rfl⟩ := Prod.mk.inj (Option.some.inj hs)
    exact check_close hr h (hsd (Or.inr rfl))
  | maxFirst =>
    obtain rfl := Option.some.inj hc
    obtain ⟨rfl, rfl⟩ := Prod.mk.inj (Option.some.inj hs)
    exact holds_quiet rfl rfl hr h (probe_resume nofun nofun nofun fun _ => by rw [hfirst rfl]; rfl)
  | returned ok => cases hc
  | died size => cases hc
  | _ =>
    obtain rfl := Option.some.inj hc
    obtain ⟨hholder, hcloses⟩ := serveCheck_quiet hs rfl
    exact holds_quiet hholder hcloses hr h (probe_resume nofun nofun nofun nofun)

/-- **One step of `setsockopt(UDTSOCKET)`.** -/
theorem options_step {k k' : Shared} {tid : Tid} {o : Options} {c : Check.Call} {rc rc' : ℤ} {tcp : Option ℤ}
    (options : UdtOptions) (rzv : Bool) (hr : Rightful k) (h : Holds k tid o.probe tcp) (hc : o.call = some c)
    (hs : k.serveCheck tid c rc = some (k', rc')) (hG : CarefulCheck k o) :
    Keeps tid k k' (o.resume options rzv rc').probe tcp := by
  obtain ⟨sock, pc⟩ := o
  cases pc with
  | custom opt rest =>
    obtain rfl := Option.some.inj hc
    obtain ⟨hholder, hcloses⟩ := serveCheck_quiet hs rfl
    refine holds_quiet hholder hcloses hr h ?_
    cases rest with
    | nil => exact probe_checks options sock
    | cons opt rest => rfl
  | checking s =>
    have hprobe : (Options.resume options rzv ⟨sock, .checking s⟩ rc').probe = (s.resume rc').probe :=
      probe_checked options rzv _ _
    rw [hprobe]
    refine check_step hr h hc hs ?_ ?_
    · intro hpc
      simp only [CarefulCheck, hpc] at hG
      exact hG
    · rintro (hpc | hpc)
      · simp only [CarefulCheck, hpc] at hG
        exact hG
      · simp only [CarefulCheck, hpc] at hG
        exact hG
  | rendezvous =>
    obtain rfl := Option.some.inj hc
    obtain ⟨hholder, hcloses⟩ := serveCheck_quiet hs rfl
    exact holds_quiet hholder hcloses hr h rfl
  | returned => cases hc
  | died => cases hc

theorem probe_none {o : Options} (h : o.call = none) : o.probe = none := by
  obtain ⟨sock, pc⟩ := o
  cases pc with
  | checking s =>
    obtain ⟨sock', b, custom, pc, size, sz, sd⟩ := s
    cases pc with
    | returned ok => rfl
    | died size => rfl
    | _ => cases h
  | _ => rfl

/-! ## start_child -/

theorem waiting_of_busy {pc : StartChild.Pc} (h : Handling.point pc = .busy) : waiting pc = false := by
  cases pc with
  | client pc => cases pc with
    | peername | socket => cases h
    | _ => rfl
  | _ => rfl

theorem toClose_of_busy {slot : ℤ} {t : StartChild} (h : Handling.point t.pc = .busy) :
    toClose slot t = some t.cargs.tcpsock := by
  simp only [toClose, waiting_of_busy h, h, Bool.false_eq_true, if_false]

theorem toClose_of_gone {slot : ℤ} {t : StartChild} (h : Handling.point t.pc = .ended ∨ t.pc = .returned) :
    toClose slot t = none := by
  unfold toClose
  rcases h with h | h
  · have hw : waiting t.pc = false := by
      cases hpc : t.pc with
      | client pc => rw [hpc] at h; cases pc <;> cases h
      | _ => rfl
    simp only [hw, h, Bool.false_eq_true, if_false]
  · rw [h]
    rfl

/-- after a step between busy points, or to the end -/
theorem toClose_next {slot : ℤ} {t t' : StartChild} (ht : Handling.point t.pc = .busy) (hcargs : t'.cargs = t.cargs)
    (hp : Handling.point t'.pc = .busy ∨ Handling.point t'.pc = .ended ∨ t'.pc = .returned) :
    toClose slot t' = toClose slot t ∨ toClose slot t' = none := by
  rcases hp with hp | hp | hp
  · exact Or.inl (by rw [toClose_of_busy hp, toClose_of_busy ht, hcargs])
  · exact Or.inr (toClose_of_gone (Or.inl hp))
  · exact Or.inr (toClose_of_gone (Or.inr hp))

/-- a call of `start_child` that opens or closes no TCP descriptor -/
def quietCall : Call → Bool
  | .socket | .close _ => false
  | _ => true

/-- **What one step of the thread does to the descriptor it has to close.** -/
theorem toClose_resume {g : Globals} {slot : ℤ} {t : StartChild} {c : Call} {a : Ans}
    (hc : StartChild.call g (look slot t) = some c) (hok : permitted c a = true) :
    (c = .socket ∧ toClose slot (StartChild.resume g (look slot t) a) = some a.rc) ∨
    (c = .close t.cargs.tcpsock ∧ t.pc = .closeTcp ∧ toClose slot t = some t.cargs.tcpsock ∧
      toClose slot (StartChild.resume g (look slot t) a) = none) ∨
    (quietCall c = true ∧ (toClose slot (StartChild.resume g (look slot t) a) = toClose slot t ∨
      toClose slot (StartChild.resume g (look slot t) a) = none)) := by
  obtain ⟨pc, servsock, spkt, c0, cargs⟩ := t
  cases pc with
  | server pc =>
    cases pc with
    | peername =>
      obtain rfl := Option.some.inj hc
      exact Or.inr (Or.inr ⟨rfl, Or.inl rfl⟩)
    | socket =>
      obtain rfl := Option.some.inj hc
      refine Or.inl ⟨rfl, ?_⟩
      obtain ⟨hcargs, hbusy, -⟩ := Handling.header_cases
        ⟨.server .socket, slot, spkt, c0, { udtsock := slot, tcpsock := a.rc }⟩ 0
      exact (toClose_of_busy hbusy).trans (by rw [hcargs])
    | _ =>
      obtain rfl := Option.some.inj hc
      refine Or.inr (Or.inr ⟨rfl, ?_⟩)
      obtain ⟨hcargs, hp, -⟩ := Handling.server_next (g := g) (t := ⟨.server _, servsock, spkt, c0, cargs⟩) rfl hok rfl
      refine toClose_next rfl hcargs ?_
      rcases hp with hp | hp | ⟨-, hp⟩
      · exact Or.inl hp
      · exact Or.inr (Or.inl hp)
      · exact Or.inr (Or.inr hp)
  | client pc =>
    by_cases hb : Handling.point (.client pc) = .busy
    · have hlook : look slot ⟨.client pc, servsock, spkt, c0, cargs⟩ = ⟨.client pc, servsock, spkt, c0, cargs⟩ := by
        cases pc with
        | peername | socket => cases hb
        | _ => rfl
      rw [hlook] at hc ⊢
      obtain rfl := Option.some.inj hc
      obtain ⟨hcargs, hp, -⟩ := Handling.client_next (a := a) (t := ⟨.client pc, servsock, spkt, c0, cargs⟩) hb rfl
      refine Or.inr (Or.inr ⟨?_, toClose_next hb hcargs (hp.imp_right Or.inl)⟩)
      cases pc with
      | peername | socket => cases hb
      | _ => rfl
    · cases pc with
      | peername | socket =>
        obtain rfl := Option.some.inj hc
        exact Or.inr (Or.inr ⟨rfl, Or.inl rfl⟩)
      | _ => exact absurd rfl hb
  | createWorkers =>
    obtain rfl := Option.some.inj hc
    exact Or.inr (Or.inr ⟨rfl, Or.inl rfl⟩)
  | joinWorkers =>
    obtain rfl := Option.some.inj hc
    exact Or.inr (Or.inr ⟨rfl, Or.inl rfl⟩)
  | closeUdt =>
    obtain rfl := Option.some.inj hc
    exact Or.inr (Or.inr ⟨rfl, Or.inl rfl⟩)
  | closeTcp =>
    obtain rfl := Option.some.inj hc
    exact Or.inr (Or.inl ⟨rfl, rfl, rfl, rfl⟩)
  | returned => cases hc
  | exited => cases hc
  | aborted => cases hc
  | undefined => cases hc

/-- **One step of a thread in `start_child`.** -/
theorem child_step {k k' : Shared} {tid : Tid} {g : Globals} {slot : ℤ} {t : StartChild} {c : Call} {a : Ans}
    {p : Option ℤ} (hr : Rightful k) (h : Holds k tid p (toClose slot t))
    (hc : StartChild.call g (look slot t) = some c) (hok : permitted c a = true) (hs : k.serve tid c a = some k')
    (hG : t.pc = .closeTcp → t.cargs.tcpsock ≠ -1) :
    Keeps tid k k' p (toClose slot (StartChild.resume g (look slot t) a)) := by
  rcases toClose_resume hc hok with ⟨rfl, hto⟩ | ⟨rfl, hpc, hfrom, hto⟩ | ⟨hq, hto⟩
  · rw [hto]
    exact ⟨(socket_cases hs).2.1, hr.socket hs, h.open_tcp hs⟩
  · obtain rfl := Option.some.inj hs
    rw [hfrom] at h
    rw [hto]
    obtain ⟨hr', hframe⟩ := close_cases hr (h.tcp _ rfl (hG hpc))
    exact ⟨hframe, hr', h.close_tcp (hG hpc)⟩
  · have hk : k' = k := by
      cases c with
      | socket => cases hq
      | close sd => cases hq
      | _ => exact (Option.some.inj hs).symm
    subst hk
    exact ⟨Frame.refl tid k', hr, h.same rfl hto⟩

/-! ## Steps of main -/

/-- a step of `main` that leaves the slot and the threads -/
theorem inv_main {mode : Mode} {w : Gate} {k : Shared} {pc : Pc} (h : Inv mode w) (hpc : w.pc ≠ .stopped)
    (hf : Frame .main w.shared k) (hr : Rightful k)
    (hm : pc ≠ .stopped → Holds k .main (probe { w with shared := k, pc := pc } .main)
      (conn mode { w with shared := k, pc := pc } .main))
    (hslot : ∀ fd, conn mode { w with shared := k, pc := pc } .main = some fd → fd ≠ -1)
    (hbranch : serverOnly pc = true → mode = .server) : Inv mode { w with shared := k, pc := pc } where
  rightful := hr
  holds hstop tid := by
    cases tid with
    | main => exact hm hstop
    | child i => exact (h.holds hpc (.child i)).frame hf nofun
  slot := hslot
  inOptions := h.inOptions
  branch := hbranch

/-- the process ends -/
theorem inv_stopped {mode : Mode} {w : Gate} (h : Inv mode w) : Inv mode { w with pc := .stopped } where
  rightful := h.rightful
  holds hstop := absurd rfl hstop
  slot := nofun
  inOptions := h.inOptions
  branch := nofun

/-- `main` has no probe socket and no connection before and after -/
theorem inv_idle {mode : Mode} {w : Gate} {pc : Pc} (h : Inv mode w) (hpc : w.pc ≠ .stopped)
    (hprobe : w.probe .main = none) (hprobe' : probe { w with pc := pc } .main = none)
    (hconn : conn mode { w with pc := pc } .main = conn mode w .main ∨ conn mode { w with pc := pc } .main = none)
    (hbranch : serverOnly pc = true → mode = .server) : Inv mode { w with pc := pc } := by
  refine inv_main h hpc (Frame.refl _ _) h.rightful (fun _ => ?_) (fun fd hfd => ?_) hbranch
  · have hold := h.holds hpc .main
    rw [hprobe] at hold
    rw [show probe { w with shared := w.shared, pc := pc } .main = none from hprobe']
    exact hold.same rfl hconn
  · rcases hconn with hc | hc
    · exact h.slot fd (hc ▸ hfd)
    · cases hc.symm.trans hfd

theorem conn_slot {mode : Mode} {w : Gate} (hw : ∀ t ∈ w.threads, waiting t.child.pc = false) (k : Shared) (slot : ℤ)
    (pc : Pc) (i : ℕ) :
    conn mode { w with shared := k, slot := slot, pc := pc } (.child i) = conn mode w (.child i) := by
  simp only [conn]
  cases ht : w.threads[i]? with
  | none => rfl
  | some t =>
    have hread := hw t (List.mem_of_getElem? ht)
    simp only [Option.bind_some, toClose, hread, Bool.false_eq_true, if_false]

/-- a connection goes into the slot, which every thread has read -/
theorem inv_slot {mode : Mode} {w : Gate} {k : Shared} {slot : ℤ} {pc : Pc} (h : Inv mode w) (hpc : w.pc ≠ .stopped)
    (hw : ∀ t ∈ w.threads, waiting t.child.pc = false) (hf : Frame .main w.shared k) (hr : Rightful k)
    (hm : Holds k .main (probe { w with shared := k, slot := slot, pc := pc } .main)
      (conn mode { w with shared := k, slot := slot, pc := pc } .main))
    (hslot : ∀ fd, conn mode { w with shared := k, slot := slot, pc := pc } .main = some fd → fd ≠ -1)
    (hbranch : serverOnly pc = true → mode = .server) :
    Inv mode { w with shared := k, slot := slot, pc := pc } where
  rightful := hr
  holds _ tid := by
    cases tid with
    | main => exact hm
    | child i =>
      rw [conn_slot hw]
      exact (h.holds hpc (.child i)).frame hf nofun
  slot := hslot
  inOptions := h.inOptions
  branch := hbranch

theorem inv_mainStep {g : Globals} {options : UdtOptions} {w t : Gate} {a : Ans} (h : Inv g.mode w)
    (hpc : w.pc ≠ .stopped) (hG : Careful g w (.main a)) (hs : mainStep g options w a = some t) : Inv g.mode t := by
  obtain ⟨k, pc, slot, threads⟩ := w
  cases pc with
  | listening =>
    obtain ⟨k', hk, rfl⟩ := Option.map_eq_some_iff.1 hs
    have hf := (socket_cases hk).2.1
    have hr' := h.rightful.socket hk
    have hnone : Holds k' .main none none := ((h.holds hpc .main).open_tcp hk).same rfl (Or.inr rfl)
    split_ifs
    · exact inv_main h hpc hf hr' (fun hstop => absurd rfl hstop) nofun nofun
    · exact inv_main h hpc hf hr' (fun _ => hnone) nofun nofun
  | binding =>
    obtain rfl := Option.some.inj hs
    split_ifs
    · exact inv_idle h hpc rfl rfl (Or.inr rfl) nofun
    · exact inv_stopped h
  | options o next =>
    have hserver : g.mode = .server := h.branch rfl
    simp only [mainStep] at hs
    cases hc : o.call with
    | none =>
      rw [hc] at hs
      obtain rfl := Option.some.inj hs
      split_ifs
      · exact inv_stopped h
      · refine inv_idle h hpc (probe_none hc) ?_ (Or.inr ?_) fun _ => hserver
        · cases next with
          | listen | rendezvous | spawn => rfl
        · cases next with
          | listen | rendezvous => rfl
          | spawn => exact if_neg (by rw [hserver]; nofun)
    | some c =>
      rw [hc] at hs
      obtain ⟨⟨k', rc'⟩, hk, rfl⟩ := Option.map_eq_some_iff.1 hs
      obtain ⟨hf, hr', hnew⟩ := options_step options g.isRendezvous h.rightful (h.holds hpc .main) hc hk hG
      exact inv_main h hpc hf hr' (fun _ => hnew) nofun fun _ => hserver
  | accepting =>
    simp only [mainStep] at hs
    split_ifs at hs with hconnects
    obtain rfl := Option.some.inj hs
    have hserver : g.mode = .server := by
      simp only [AcceptLoop.connects, Bool.and_eq_true, decide_eq_true_eq] at hconnects
      exact hconnects.1
    have hold : Holds k .main none none := h.holds hpc .main
    refine inv_slot h hpc hG (Frame.refl _ _) h.rightful ?_ nofun fun _ => hserver
    have hnone : probe ⟨k, .options (Options.start options a.rc) .rendezvous, a.rc, threads⟩ .main = none :=
      probe_options_start options a.rc
    rw [hnone]
    exact hold
  | rzvBind =>
    have hserver : g.mode = .server := h.branch rfl
    obtain rfl := Option.some.inj hs
    split_ifs
    · exact inv_stopped h
    · exact inv_idle h hpc rfl rfl (Or.inr rfl) fun _ => hserver
  | rzvConnecting =>
    obtain rfl := Option.some.inj hs
    exact h
  | checking clientaddr =>
    simp only [mainStep] at hs
    split at hs
    · obtain rfl := Option.some.inj hs
      exact inv_stopped h
    · obtain rfl := Option.some.inj hs
      exact inv_idle h hpc rfl rfl (Or.inl rfl) nofun
    · split at hs
      · next hserver =>
        obtain rfl := Option.some.inj hs
        exact inv_idle h hpc rfl (probe_options_start options slot) (Or.inr rfl) fun _ => hserver
      · obtain rfl := Option.some.inj hs
        exact inv_idle h hpc rfl rfl (Or.inl rfl) nofun
  | rejecting =>
    obtain rfl := Option.some.inj hs
    have hclient : g.mode = .client := hG
    have hconn : conn g.mode ⟨k, .rejecting, slot, threads⟩ .main = some slot := if_pos hclient
    have hne : slot ≠ -1 := h.slot slot hconn
    have hold := h.holds hpc .main
    rw [hconn] at hold
    obtain ⟨hr', hf⟩ := close_cases h.rightful (hold.tcp slot rfl hne)
    exact inv_main h hpc hf hr' (fun _ => hold.close_tcp hne) nofun nofun
  | spawning => cases hs
  | stopped => exact absurd rfl hpc

theorem not_stopped {g : Globals} {options : UdtOptions} {w t : Gate} {l : Label}
    (hs : step g options w l = some t) : w.pc ≠ .stopped := by
  intro hpc
  unfold step at hs
  rw [if_pos hpc] at hs
  cases hs

theorem inv_accept {g : Globals} {options : UdtOptions} {w t : Gate} {rc : ℤ} {clientaddr : SockAddrIn}
    (h : Inv g.mode w) (hG : Careful g w (.accept rc clientaddr))
    (hs : step g options w (.accept rc clientaddr) = some t) : Inv g.mode t := by
  have hpc := not_stopped hs
  unfold step at hs
  rw [if_neg hpc] at hs
  dsimp only at hs
  split_ifs at hs with hacc hrc
  · obtain rfl := Option.some.inj hs
    exact inv_stopped h
  · have hnone : Holds w.shared .main none none := by
      have hold := h.holds hpc .main
      simp only [probe, conn, hacc.1] at hold
      exact hold
    split at hs
    · next hserver =>
      obtain rfl := Option.some.inj hs
      have hconn : conn g.mode ⟨w.shared, .checking clientaddr, rc, w.threads⟩ .main = none :=
        if_neg (by rw [hserver]; nofun)
      refine inv_slot (k := w.shared) h hpc hG (Frame.refl _ _) h.rightful ?_ ?_ nofun
      · rw [hconn]
        exact hnone
      · rw [hconn]
        exact nofun
    · next hclient =>
      obtain ⟨k', hk, rfl⟩ := Option.map_eq_some_iff.1 hs
      have hconn : conn g.mode ⟨k', .checking clientaddr, rc, w.threads⟩ .main = some rc := if_pos hclient
      refine inv_slot h hpc hG (socket_cases hk).2.1 (h.rightful.socket hk) ?_ ?_ nofun
      · rw [hconn]
        exact hnone.open_tcp hk
      · rw [hconn]
        intro fd hfd
        exact Option.some.inj hfd ▸ hrc

theorem inv_connected {g : Globals} {options : UdtOptions} {w t : Gate} {clientaddr : SockAddrIn} (h : Inv g.mode w)
    (hs : step g options w (.connected clientaddr) = some t) : Inv g.mode t := by
  have hpc := not_stopped hs
  unfold step at hs
  rw [if_neg hpc] at hs
  dsimp only at hs
  split_ifs at hs with hrzv
  obtain rfl := Option.some.inj hs
  have hserver : g.mode = .server := h.branch (by rw [hrzv]; rfl)
  refine inv_idle h hpc ?_ rfl (Or.inr (if_neg ?_)) nofun
  · simp only [probe, hrzv]
  · rw [hserver]
    nofun

/-- what a thread holds, after a connection of `main` has passed to another thread -/
theorem holds_given {k : Shared} {slot : ℤ} {tid : Tid} {p tcp : Option ℤ} (new : Tid)
    (hmain : k.holder slot = some ⟨.main, .tcp⟩) (h : Holds k tid p tcp) (ht : tid = .main → tcp = none) :
    Holds { k with holder := Function.update k.holder slot (some ⟨new, .tcp⟩) } tid p tcp where
  udp fd := by
    rw [← h.udp]
    by_cases hfd : fd = slot
    · subst hfd
      simp [hmain]
    · simp only [Function.update_of_ne hfd]
  tcp fd hfd hfd1 := by
    have hold := h.tcp fd hfd hfd1
    have hslot : fd ≠ slot := by
      rintro rfl
      rw [hmain] at hold
      cases (ht (Owner.mk.inj (Option.some.inj hold)).1.symm).symm.trans hfd
    simp only [Function.update_of_ne hslot]
    exact hold

theorem probe_spawn (w : Gate) (k : Shared) (t : StartChild) (i : ℕ) :
    probe { w with shared := k, pc := .accepting, threads := w.threads ++ [⟨t, none⟩] } (.child i) =
      w.probe (.child i) := by
  simp only [probe]
  rcases Nat.lt_trichotomy i w.threads.length with hi | rfl | hi
  · rw [List.getElem?_append_left hi]
  · rw [List.getElem?_concat_length, List.getElem?_eq_none (le_refl _)]
    rfl
  · rw [List.getElem?_eq_none (by rw [List.length_append, List.length_singleton]; exact hi),
      List.getElem?_eq_none (le_of_lt hi)]

theorem conn_spawn (mode : Mode) (w : Gate) (k : Shared) (t : StartChild) (i : ℕ) :
    conn mode { w with shared := k, pc := .accepting, threads := w.threads ++ [⟨t, none⟩] } (.child i) =
      if i = w.threads.length then toClose w.slot t else conn mode w (.child i) := by
  simp only [conn]
  rcases Nat.lt_trichotomy i w.threads.length with hi | rfl | hi
  · rw [List.getElem?_append_left hi, if_neg (Nat.ne_of_lt hi)]
  · rw [List.getElem?_concat_length, if_pos rfl]
    rfl
  · rw [List.getElem?_eq_none (by rw [List.length_append, List.length_singleton]; exact hi), if_neg (Nat.ne_of_gt hi),
      List.getElem?_eq_none (le_of_lt hi)]

/-- **The hand-over.** The connection passes from `main` to the thread that is started for it. -/
theorem inv_spawn {g : Globals} {options : UdtOptions} {w t : Gate} {spkt : SockPkt} {c : UInt8} {cargs : Cargs}
    (h : Inv g.mode w) (hs : step g options w (.spawn spkt c cargs) = some t) : Inv g.mode t := by
  have hpc := not_stopped hs
  unfold step at hs
  rw [if_neg hpc] at hs
  dsimp only at hs
  split_ifs at hs with hspawn
  obtain rfl := Option.some.inj hs
  have hin : ∀ x ∈ w.threads ++ [⟨StartChild.start g.mode w.slot spkt c cargs, none⟩], x.opts ≠ none →
      x.child.pc = .client .options := by
    intro x hx hopts
    rcases List.mem_append.1 hx with hx | hx
    · exact h.inOptions x hx hopts
    · rw [List.mem_singleton.1 hx] at hopts
      exact absurd rfl hopts
  have hmain := h.holds hpc .main
  have hprobe : w.probe .main = none := by simp only [probe, hspawn]
  rw [hprobe] at hmain
  cases hm : g.mode with
  | server =>
    rw [hm] at h hmain hin
    refine ⟨h.rightful, fun _ tid => ?_, nofun, hin, nofun⟩
    cases tid with
    | main => exact hmain.same rfl (Or.inr rfl)
    | child i =>
      rw [probe_spawn, conn_spawn]
      refine (h.holds hpc (.child i)).same rfl ?_
      split_ifs
      · exact Or.inr rfl
      · exact Or.inl rfl
  | client =>
    rw [hm] at h hmain hin
    have hconn : conn .client w .main = some w.slot := by simp only [conn, hspawn, if_true]
    rw [hconn] at hmain
    have hslot : w.shared.holder w.slot = some ⟨.main, .tcp⟩ := hmain.tcp _ rfl (h.slot _ hconn)
    refine ⟨h.rightful, fun _ tid => ?_, nofun, hin, nofun⟩
    cases tid with
    | main => exact holds_given _ hslot (hmain.same rfl (Or.inr rfl)) fun _ => rfl
    | child i =>
      rw [probe_spawn, conn_spawn]
      have hgiven := holds_given (.child w.threads.length) hslot (h.holds hpc (.child i)) nofun
      split_ifs with hi
      · subst hi
        refine ⟨hgiven.udp, fun fd hfd _ => ?_⟩
        obtain rfl := Option.some.inj hfd
        exact Function.update_self ..
      · exact hgiven

/-! ## Steps of the threads -/

theorem probe_set {w : Gate} {i : ℕ} {t t' : ChildThread} (ht : w.threads[i]? = some t) (k : Shared) (pc : Pc) (j : ℕ) :
    probe ({ w with shared := k, pc := pc }.setThread i t') (.child j) =
      if j = i then t'.opts.bind Options.probe else w.probe (.child j) := by
  simp only [probe, setThread]
  have hi : i < w.threads.length := (List.getElem?_eq_some_iff.1 ht).1
  split_ifs with hj
  · subst hj
    rw [List.getElem?_set_self hi]
    rfl
  · rw [List.getElem?_set_ne (Ne.symm hj)]

theorem conn_set {w : Gate} {i : ℕ} {t t' : ChildThread} (ht : w.threads[i]? = some t) (mode : Mode) (k : Shared)
    (pc : Pc) (j : ℕ) :
    conn mode ({ w with shared := k, pc := pc }.setThread i t') (.child j) =
      if j = i then toClose w.slot t'.child else conn mode w (.child j) := by
  simp only [conn, setThread]
  have hi : i < w.threads.length := (List.getElem?_eq_some_iff.1 ht).1
  split_ifs with hj
  · subst hj
    rw [List.getElem?_set_self hi]
    rfl
  · rw [List.getElem?_set_ne (Ne.symm hj)]

/-- what a thread holds, by its variables -/
theorem holds_thread {mode : Mode} {w : Gate} {i : ℕ} {t : ChildThread} (h : Inv mode w) (hpc : w.pc ≠ .stopped)
    (ht : w.threads[i]? = some t) :
    Holds w.shared (.child i) (t.opts.bind Options.probe) (toClose w.slot t.child) := by
  have hold := h.holds hpc (.child i)
  simp only [probe, conn, ht] at hold
  exact hold

/-- a step of a thread that leaves the slot and the other threads; the process may end with it -/
theorem inv_thread {mode : Mode} {w : Gate} {i : ℕ} {t t' : ChildThread} {k : Shared} {pc : Pc} (h : Inv mode w)
    (hpc : w.pc ≠ .stopped) (ht : w.threads[i]? = some t)
    (hkeeps : Keeps (.child i) w.shared k (t'.opts.bind Options.probe) (toClose w.slot t'.child))
    (hopts : t'.opts ≠ none → t'.child.pc = .client .options) (hend : pc = w.pc ∨ pc = .stopped) :
    Inv mode ({ w with shared := k, pc := pc }.setThread i t') where
  rightful := hkeeps.rightful
  holds hstop tid := by
    have hsame : pc = w.pc := hend.resolve_right hstop
    cases tid with
    | main =>
      have hne : Tid.main ≠ .child i := nofun
      have hmain := (h.holds hpc .main).frame hkeeps.frame hne
      subst hsame
      exact hmain
    | child j =>
      rw [probe_set ht, conn_set ht]
      by_cases hj : j = i
      · subst hj
        rw [if_pos rfl, if_pos rfl]
        exact hkeeps.holds
      · rw [if_neg hj, if_neg hj]
        exact (h.holds hpc (.child j)).frame hkeeps.frame fun heq => hj (Tid.child.inj heq)
  slot := by
    rcases hend with rfl | rfl
    · exact h.slot
    · exact nofun
  inOptions x hx hxo := by
    rcases List.mem_or_eq_of_mem_set hx with hx | rfl
    · exact h.inOptions x hx hxo
    · exact hopts hxo
  branch := by
    rcases hend with rfl | rfl
    · exact h.branch
    · exact nofun

theorem options_pc {g : Globals} {slot sock : ℤ} {t : StartChild}
    (hc : StartChild.call g (look slot t) = some (.setUdtOptions sock)) : t.pc = .client .options := by
  obtain ⟨pc, servsock, spkt, c, cargs⟩ := t
  cases pc with
  | server pc => cases pc <;> cases hc
  | client pc => cases pc with
    | options => rfl
    | _ => cases hc
  | _ => cases hc

theorem inv_threadStep {g : Globals} {options : UdtOptions} {w v : Gate} {i : ℕ} {t : ChildThread} {a : Ans}
    (h : Inv g.mode w) (hpc : w.pc ≠ .stopped) (ht : w.threads[i]? = some t) (hG : Careful g w (.thread i a))
    (hs : threadStep g options w i t a = some v) : Inv g.mode v := by
  have hholds := holds_thread h hpc ht
  simp only [Careful, ht] at hG
  obtain ⟨child, opts⟩ := t
  cases opts with
  | some o =>
    have hin : child.pc = .client .options := h.inOptions _ (List.mem_of_getElem? ht) nofun
    simp only [threadStep] at hs
    cases hc : o.call with
    | none =>
      rw [hc] at hs
      simp only at hs
      split_ifs at hs
      · obtain rfl := Option.some.inj hs
        exact inv_stopped h
      · obtain rfl := Option.some.inj hs
        have hnone : Holds w.shared (.child i) none (toClose w.slot child) := by
          rw [← probe_none hc]
          exact hholds
        have hbind : (StartChild.resume g child ⟨0, 0, [], []⟩) = { child with pc := .client .bind } := by
          rw [StartChild.resume, hin]
          rfl
        refine inv_thread (t := ⟨child, some o⟩) h hpc ht ⟨Frame.refl _ _, h.rightful, ?_⟩
          (fun hne => absurd rfl hne) (Or.inl rfl)
        rw [hbind]
        refine hnone.same rfl (Or.inl ?_)
        rw [toClose_of_busy (t := child) (by rw [hin]; rfl)]
        rfl
    | some c =>
      rw [hc] at hs
      obtain ⟨⟨k, rc⟩, hk, rfl⟩ := Option.map_eq_some_iff.1 hs
      have hkeeps := options_step options g.isRendezvous h.rightful hholds hc hk hG
      exact inv_thread (t := ⟨child, some o⟩) h hpc ht hkeeps (fun _ => hin) (Or.inl (Eq.refl w.pc))
  | none =>
    simp only [threadStep] at hs
    split at hs
    · cases hs
    · next sock hc =>
      obtain rfl := Option.some.inj hs
      refine inv_thread (t := ⟨child, none⟩) h hpc ht ⟨Frame.refl _ _, h.rightful, ?_⟩ (fun _ => options_pc hc)
        (Or.inl rfl)
      have hprobe : (some (Options.start options sock)).bind Options.probe = none := probe_options_start options sock
      rw [hprobe]
      exact hholds
    · next c hne hc =>
      split_ifs at hs with hok hend
      · obtain ⟨k, hk, rfl⟩ := Option.map_eq_some_iff.1 hs
        have hkeeps := child_step h.rightful hholds hc hok hk hG
        exact inv_thread (t := ⟨child, none⟩) h hpc ht hkeeps (fun hne => absurd rfl hne) (Or.inr rfl)
      · obtain ⟨k, hk, rfl⟩ := Option.map_eq_some_iff.1 hs
        have hkeeps := child_step h.rightful hholds hc hok hk hG
        exact inv_thread (t := ⟨child, none⟩) h hpc ht hkeeps (fun hne => absurd rfl hne) (Or.inl rfl)

/-- **What one careful step keeps.** -/
theorem inv_step {g : Globals} {options : UdtOptions} (w : Gate) (l : Label) (v : Gate) (h : Inv g.mode w)
    (hG : Careful g w l) (hs : step g options w l = some v) : Inv g.mode v := by
  have hpc := not_stopped hs
  cases l with
  | accept rc clientaddr => exact inv_accept h hG hs
  | connected clientaddr => exact inv_connected h hs
  | spawn spkt c cargs => exact inv_spawn h hs
  | main a =>
    unfold step at hs
    rw [if_neg hpc] at hs
    exact inv_mainStep h hpc hG hs
  | thread i a =>
    unfold step at hs
    rw [if_neg hpc] at hs
    simp only at hs
    split at hs
    · cases hs
    · next t ht => exact inv_threadStep h hpc ht hG hs

/-! ## Whole runs -/

theorem probe_start (g : Globals) (options : UdtOptions) (ludtsock : ℤ) (tid : Tid) :
    (start g options ludtsock).probe tid = none := by
  cases tid with
  | child i => rfl
  | main =>
    simp only [probe, start]
    cases g.mode with
    | client => rfl
    | server =>
      cases g.isRendezvous with
      | true => rfl
      | false => exact probe_options_start options ludtsock

theorem conn_start (g : Globals) (options : UdtOptions) (ludtsock : ℤ) (tid : Tid) :
    conn g.mode (start g options ludtsock) tid = none := by
  cases tid with
  | child i => rfl
  | main =>
    simp only [conn, start]
    cases g.mode with
    | client => rfl
    | server => cases g.isRendezvous <;> rfl

theorem serverOnly_start {g : Globals} {options : UdtOptions} {ludtsock : ℤ}
    (h : serverOnly (start g options ludtsock).pc = true) : g.mode = .server := by
  simp only [start] at h
  cases hm : g.mode with
  | client =>
    rw [hm] at h
    cases h
  | server => rfl

/-- at the start nobody holds anything -/
theorem holds_start (tid : Tid) : Holds Shared.start tid none none where
  udp fd := by simp [Shared.start]
  tcp fd h := by cases h

theorem inv_start (g : Globals) (options : UdtOptions) (ludtsock : ℤ) : Inv g.mode (start g options ludtsock) where
  rightful c hc := absurd hc List.not_mem_nil
  holds _ tid := by
    rw [probe_start, conn_start]
    exact holds_start tid
  slot fd h := by
    rw [conn_start] at h
    cases h
  inOptions t ht := absurd ht List.not_mem_nil
  branch := serverOnly_start

/-- **Descriptor ownership.** In every interleaving of the accept loop and the threads, with descriptors that are any
free numbers: as long as all steps are careful, every `close` is applied to a descriptor that the closing thread holds,
and a probe socket is open only while its thread is about to close it. -/
theorem owned_of_careful (g : Globals) (options : UdtOptions) (ludtsock : ℤ) {ls : List Label} {w : Gate}
    (h : (system g options).exec (start g options ludtsock) ls = some w)
    (hG : (system g options).Meets (Careful g) (start g options ludtsock) ls) : Owned w := by
  have hinv := System.exec_inv_meets (Inv g.mode) (Careful g) inv_step h hG (inv_start g options ludtsock)
  exact ⟨hinv.rightful, fun hstop tid fd hfd => ((hinv.holds hstop tid).udp fd).1 hfd |>.1⟩

/-- a client accepts descriptor 5; its thread reads a good request, and comes to the options of UDT id 77 -/
def toOptions : List Label :=
  [.main ⟨3, 0, [], []⟩, .main ⟨0, 0, [], []⟩, .accept 5 AcceptLoop.loopback,
    .main ⟨0, 0, [], [AcceptLoop.loInterface]⟩, .spawn ⟨0, 0, Bytes.zero 2, Bytes.zero 4⟩ 0 ⟨0, 0⟩,
    .thread 0 ⟨0, 0, [], []⟩, .thread 0 ⟨77, 0, [], []⟩, .thread 0 ⟨8, 0, [4, 1, 0, 80, 10, 0, 0, 7], []⟩,
    .thread 0 ⟨1, 0, [0], []⟩, .thread 0 ⟨0, 0, [], []⟩]

/-- the answers to the calls of thread 0 in `check_udp_buffer` -/
def answers (rcs : List ℤ) : List Label := rcs.map fun rc => .thread 0 ⟨rc, 0, [], []⟩

/-- the first size is accepted for the one direction, and none is tried for the other -/
theorem owned_of_careful_two_probes :
    ∃ w, (system AcceptLoop.localClient []).exec (start AcceptLoop.localClient [] 0)
      (toOptions ++ answers [10000, 0, 0, 6, 0, 0, 0, 0, 0, 0] ++ answers [8000, 0, 0, 6, 0]) = some w ∧
      w.shared.closes.map Close.fd = [6, 6] ∧ Owned w := by
  obtain ⟨w, hw, hcloses⟩ : ∃ w, (system AcceptLoop.localClient []).exec (start AcceptLoop.localClient [] 0)
      (toOptions ++ answers [10000, 0, 0, 6, 0, 0, 0, 0, 0, 0] ++ answers [8000, 0, 0, 6, 0]) = some w ∧
      w.shared.closes.map Close.fd = [6, 6] := System.exec_of_any (by decide)
  exact ⟨w, hw, hcloses, owned_of_careful _ [] 0 hw (by decide)⟩

/-- **The second close hits another connection.** The first size is refused and its half accepted. Thread 0 closes its
probe socket 9, `main` accepts a connection, which is given the number 9, and thread 0 closes 9 again. -/
theorem second_close_hits :
    ¬ ∀ (g : Globals) (options : UdtOptions) (ludtsock : ℤ) (ls : List Label) (w : Gate),
      (system g options).exec (start g options ludtsock) ls = some w → Owned w := by
  intro h
  obtain ⟨w, hw, hlast⟩ : ∃ w, (system AcceptLoop.localClient []).exec (start AcceptLoop.localClient [] 0)
      (toOptions ++ answers [20000, 0, 0, 9, -1, 0, 0, 0, 0, 0, 0, 0] ++ [.accept 9 AcceptLoop.loopback] ++
        answers [0]) = some w ∧ w.shared.closes.getLast? = some ⟨.child 0, 9, some ⟨.main, .tcp⟩⟩ :=
    System.exec_of_any (by decide)
  obtain ⟨kind, hkind⟩ := (h _ _ _ _ w hw).rightful _ (List.mem_of_getLast? hlast)
  cases hkind

end Gate

end UdtGate
