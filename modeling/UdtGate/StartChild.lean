/-
`start_child`: the handling of one connection, as the program that the thread runs.

A `StartChild` is the thread's local variables and where it is. The server branch (UDT in, TCP out) and the client
branch (TCP in, UDT out) speak SOCKS4 first: both receive a request of eight bytes and a user id that ends with a zero
byte, and both answer through the same `spkt`. After that two data threads are created and joined, and the sockets are
closed. `spkt` and `c` are not initialised, so they start with any contents. `*servsock` is the connection the thread
was started for; that the accept loop may have put another one there by then is left to `AcceptLoop`.

Every `break` of the loop leads to the two closes; a wrong version or command on the server is a `return` without them.
The header loop of the server adds what `UDT::recv` returns to its pointer, -1 included; storing bytes in front of
`spkt` is `undefined`.
-/
import UdtGate.Workers

namespace UdtGate

open UdtGate.Core

/-! ## Model -/

inductive StartChild.SrvPc where
  | peername
  | socket
  /-- the pointer `p`, as an offset into `spkt` -/
  | header (p : ℤ)
  /-- wrong version or command: one last send -/
  | reject
  | userId
  | check
  | connect
  /-- refused or not connected: one last send, then `break` -/
  | refuse
  | granted
deriving DecidableEq

inductive StartChild.CliPc where
  | peername
  | socket
  | request
  /-- one last send, then `break` -/
  | refuse
  | userId
  | options
  | bind
  | connect
  | forward
  | forwardNul
  | reply
  | answer
deriving DecidableEq

inductive StartChild.Pc where
  | server (pc : StartChild.SrvPc)
  | client (pc : StartChild.CliPc)
  | createWorkers
  | joinWorkers
  | closeUdt
  | closeTcp
  | returned
  /-- the process ended: `log_die` -/
  | exited
  /-- the process ended: a failed assertion -/
  | aborted
  | undefined
deriving DecidableEq

/-- the thread of one connection -/
structure StartChild where
  pc : StartChild.Pc
  servsock : ℤ
  spkt : SockPkt
  c : UInt8
  cargs : Cargs
deriving DecidableEq

namespace StartChild

/-- as the thread starts; `spkt`, `c` and the descriptors in `cargs` are not initialised -/
def start (mode : Mode) (servsock : ℤ) (spkt : SockPkt) (c : UInt8) (cargs : Cargs) : StartChild where
  pc := match mode with
    | .server => .server .peername
    | .client => .client .peername
  servsock := servsock
  spkt := spkt
  c := c
  cargs := cargs

/-- `c` after a receive of one byte into it -/
def recvChar (c : UInt8) (data : List UInt8) : UInt8 := data.head?.getD c

/-- the condition of the loop that skips the user id; `pc` is what follows the loop -/
def userId (s : StartChild) (pc : Pc) : StartChild := if s.c ≠ 0 then s else { s with pc := pc }

/-! The server branch -/

def srvCall (s : StartChild) : SrvPc → Call
  | .peername => .udtGetpeername s.servsock
  | .socket => .socket
  | .header p => .udtRecv s.cargs.udtsock (8 - p)
  | .reject => .udtSend s.cargs.udtsock s.spkt.bytes
  | .userId => .udtRecv s.cargs.udtsock 1
  | .check => .getifaddrs
  | .connect => .connect s.cargs.tcpsock s.spkt.dst
  | .refuse => .udtSend s.cargs.udtsock s.spkt.bytes
  | .granted => .udtSend s.cargs.udtsock s.spkt.bytes

/-- the condition of the header loop, and the tests after it -/
def header (s : StartChild) (p : ℤ) : StartChild :=
  if p < 8 then { s with pc := .server (.header p) }
  else if s.spkt.vn ≠ 4 then { s with spkt := { s.spkt with cd := 91 }, pc := .server .reject }
  else if s.spkt.cd ≠ 1 then { s with spkt := { s.spkt with cd := 91 }, pc := .server .reject }
  else { s with pc := .server .userId }

def srvResume (g : Globals) (s : StartChild) (a : Ans) : SrvPc → StartChild
  | .peername => { s with pc := .server .socket }
  | .socket => header { s with cargs := { udtsock := s.servsock, tcpsock := a.rc } } 0
  | .header p =>
    if p < 0 ∧ a.data ≠ [] then { s with pc := .undefined }
    else header { s with spkt := s.spkt.recvAt p.toNat a.data } (p + a.rc)
  | .reject => { s with pc := .returned }
  | .userId =>
    userId { s with c := recvChar s.c a.data } (if g.netAccess < 2 then .server .check else .server .connect)
  | .check =>
    if a.rc < 0 then { s with pc := .exited }
    else
      match checkSource g.debugLevel s.spkt.dst (g.netAccess > 0) a.ifap with
      | none => { s with pc := .aborted }
      | some (false, _) => { s with spkt := { s.spkt with cd := 92 }, pc := .server .refuse }
      | some (true, _) => { s with pc := .server .connect }
  | .connect =>
    if a.rc = -1 then { s with spkt := { s.spkt with cd := 92 }, pc := .server .refuse }
    else { s with spkt := { s.spkt with cd := 90 }, pc := .server .granted }
  | .refuse => { s with pc := .closeUdt }
  | .granted => { s with pc := .createWorkers }

/-! The client branch -/

/-- `addr_any` -/
def addrAny : SockAddrIn := ⟨Bytes.zero 2, Bytes.zero 4⟩

def bindAddr (g : Globals) : SockAddrIn := if g.isRendezvous then g.peerRzvLocal else addrAny

def cliCall (g : Globals) (s : StartChild) : CliPc → Call
  | .peername => .getpeername s.servsock
  | .socket => .udtSocket
  | .request => .recv s.cargs.tcpsock 8 true
  | .refuse => .send s.cargs.tcpsock s.spkt.bytes
  | .userId => .recv s.cargs.tcpsock 1 false
  | .options => .setUdtOptions s.cargs.udtsock
  | .bind => .udtBind s.cargs.udtsock (bindAddr g)
  | .connect => .udtConnect s.cargs.udtsock g.peeraddr
  | .forward => .udtSend s.cargs.udtsock s.spkt.bytes
  | .forwardNul => .udtSend s.cargs.udtsock [0]
  | .reply => .udtRecv s.cargs.udtsock 8
  | .answer => .send s.cargs.tcpsock s.spkt.bytes

/-- the tests of a received request -/
def request (s : StartChild) : StartChild :=
  if s.spkt.vn ≠ 4 then { s with spkt := { s.spkt with cd := 91 }, pc := .client .refuse }
  else if s.spkt.cd ≠ 1 then { s with spkt := { s.spkt with cd := 90 }, pc := .client .refuse }
  else { s with pc := .client .userId }

def cliResume (s : StartChild) (a : Ans) : CliPc → StartChild
  | .peername => { s with pc := .client .socket }
  | .socket => { s with cargs := { tcpsock := s.servsock, udtsock := a.rc }, pc := .client .request }
  | .request => request { s with spkt := s.spkt.recvAt 0 a.data }
  | .refuse => { s with pc := .closeUdt }
  | .userId => userId { s with c := recvChar s.c a.data } (.client .options)
  -- the options are set one by one; a buffer size the system refuses is a `log_die`
  | .options => if a.rc < 0 then { s with pc := .exited } else { s with pc := .client .bind }
  | .bind => if a.rc = -1 then { s with pc := .exited } else { s with pc := .client .connect }
  | .connect =>
    if a.rc = -1 then { s with spkt := { s.spkt with cd := 92 }, pc := .client .refuse }
    else { s with pc := .client .forward }
  | .forward => { s with pc := .client .forwardNul }
  | .forwardNul => { s with pc := .client .reply }
  | .reply =>
    if a.rc = 0 then { s with spkt := s.spkt.recvAt 0 a.data }
    else { s with spkt := s.spkt.recvAt 0 a.data, pc := .client .answer }
  | .answer => if s.spkt.cd ≠ 90 then { s with pc := .closeUdt } else { s with pc := .createWorkers }

/-! Both branches, and what follows them -/

def call (g : Globals) (s : StartChild) : Option Call :=
  match s.pc with
  | .server pc => some (srvCall s pc)
  | .client pc => some (cliCall g s pc)
  | .createWorkers => some .createWorkers
  | .joinWorkers => some .joinWorkers
  | .closeUdt => some (.udtClose s.cargs.udtsock)
  | .closeTcp => some (.close s.cargs.tcpsock)
  | .returned | .exited | .aborted | .undefined => none

def resume (g : Globals) (s : StartChild) (a : Ans) : StartChild :=
  match s.pc with
  | .server pc => srvResume g s a pc
  | .client pc => cliResume s a pc
  | .createWorkers => { s with pc := .joinWorkers }
  | .joinWorkers => { s with pc := .closeUdt }
  | .closeUdt => { s with pc := .closeTcp }
  | .closeTcp => { s with pc := .returned }
  | .returned | .exited | .aborted | .undefined => s

def machine (g : Globals) : Machine StartChild Call Ans := ⟨call g, resume g⟩

/-- all runs of the thread that starts as `s` -/
def system (g : Globals) (s : StartChild) : System (Machine.Logged StartChild Call Ans) Ans :=
  (machine g).logged.system (fun t => t = ⟨s, []⟩) permitted

end StartChild

end UdtGate
