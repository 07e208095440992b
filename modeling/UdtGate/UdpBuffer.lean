/-
`check_udp_buffer` and the relay's own `setsockopt(UDTSOCKET)`, which calls it for both directions of a UDT socket.

The check finds out how large a UDP buffer the system allows. It opens a probe socket and halves the requested size
until the system accepts it. What it found is kept in static variables that all threads share, two for each direction.
Every access to them is a call here, so that between any two of them another thread may run: the caller of the machine
answers a load from the memory.

- `Check.machine`: the function. Its loop leaves by `return true` when the first size was accepted, by `break` when a
  smaller one was, and by its condition; only the first way does not lead to the `close` behind the loop.
- `Options.machine`: the options of a UDT socket, with the checks in it.
-/
import UdtGate.Transfer

namespace UdtGate

open UdtGate.Core

/-! ## Options -/

/-- the options that can be given for a UDT socket -/
inductive UdtOpt where
  | mss
  | udtRcvbuf
  | udpRcvbuf
  | udtSndbuf
  | udpSndbuf
  | linger
deriving DecidableEq

/-- `udt_options`, the values that were asked for -/
abbrev UdtOptions := List (UdtOpt × ℤ)

/-- `so_opt`: which of the two buffers -/
inductive Buf where
  | rcv
  | snd
deriving DecidableEq

def Buf.optcode : Buf → UdtOpt
  | .rcv => .udpRcvbuf
  | .snd => .udpSndbuf

/-- an `int` converted to `unsigned int` -/
def toUnsigned (n : ℤ) : ℕ := (n % 2 ^ 32).toNat

/-! ## check_udp_buffer -/

inductive Check.Call where
  | udtGetsockopt (sock : ℤ) (optcode : UdtOpt)
  | udtSetsockopt (sock : ℤ) (optcode : UdtOpt) (value : ℤ)
  /-- UDT_RENDEZVOUS -/
  | setRendezvous (sock : ℤ)
  | loadChk (b : Buf)
  | storeChk (b : Buf) (size : ℕ)
  | loadMax (b : Buf)
  | storeMax (b : Buf) (size : ℕ)
  | loadWarned (b : Buf)
  | storeWarned (b : Buf)
  /-- a UDP socket -/
  | socket
  | setsockopt (sd : ℤ) (b : Buf) (sz : ℤ)
  | bind (sd : ℤ)
  | close (sd : ℤ)
deriving DecidableEq

inductive Check.Pc where
  | getsockopt
  /-- `*chk_size > 0` -/
  | chkSet
  /-- `size <= *chk_size` -/
  | chkEnough
  /-- `0 == *max_size` -/
  | maxUnset
  | socket
  | sockopt
  | bind
  /-- `close(sd)` after a bind -/
  | closeBound
  /-- `*chk_size < sz` -/
  | chkLess
  | chkStore
  /-- `*max_size == 0` -/
  | maxFirst
  /-- `*max_size = sz = sz / 2` -/
  | maxStore
  /-- `close(sd)` behind the loop -/
  | closeLast
  /-- `size > *max_size` -/
  | maxLess
  /-- `*max_size`, for the message of `log_die` -/
  | dieLoad
  | warnedLoad
  | warnedStore
  /-- `*max_size`, as the value of the option -/
  | lowerLoad
  | lower (value : ℕ)
  | keep
  | returned (ok : Bool)
  /-- `log_die` with the maximal size it names -/
  | died (size : ℕ)
deriving DecidableEq

/-- the local variables of `check_udp_buffer(sock, optcode)` -/
structure Check where
  sock : ℤ
  buf : Buf
  /-- `is_custom_value(optcode)` -/
  custom : Bool
  pc : Check.Pc
  size : ℕ := 0
  sz : ℤ := 0
  sd : ℤ := 0
deriving DecidableEq

namespace Check

def start (options : UdtOptions) (sock : ℤ) (b : Buf) : Check :=
  match options.lookup b.optcode with
  | some v => { sock := sock, buf := b, custom := true, pc := .chkSet, size := toUnsigned v }
  | none => { sock := sock, buf := b, custom := false, pc := .getsockopt }

def call (s : Check) : Option Call :=
  match s.pc with
  | .getsockopt => some (.udtGetsockopt s.sock s.buf.optcode)
  | .chkSet => some (.loadChk s.buf)
  | .chkEnough => some (.loadChk s.buf)
  | .maxUnset => some (.loadMax s.buf)
  | .socket => some .socket
  | .sockopt => some (.setsockopt s.sd s.buf s.sz)
  | .bind => some (.bind s.sd)
  | .closeBound => some (.close s.sd)
  | .chkLess => some (.loadChk s.buf)
  | .chkStore => some (.storeChk s.buf (toUnsigned s.sz))
  | .maxFirst => some (.loadMax s.buf)
  | .maxStore => some (.storeMax s.buf (toUnsigned (s.sz.tdiv 2)))
  | .closeLast => some (.close s.sd)
  | .maxLess => some (.loadMax s.buf)
  | .dieLoad => some (.loadMax s.buf)
  | .warnedLoad => some (.loadWarned s.buf)
  | .warnedStore => some (.storeWarned s.buf)
  | .lowerLoad => some (.loadMax s.buf)
  | .lower value => some (.udtSetsockopt s.sock s.buf.optcode value)
  | .keep => some (.udtSetsockopt s.sock s.buf.optcode (toInt s.size))
  | .returned _ => none
  | .died _ => none

/-- the condition of the loop -/
def loop (s : Check) : Check := if s.sz > 8096 then { s with pc := .sockopt } else { s with pc := .closeLast }

/-- `rc` is what a call returns, or the value of a static variable -/
def resume (s : Check) (rc : ℤ) : Check :=
  match s.pc with
  | .getsockopt => { s with size := toUnsigned rc, pc := .chkSet }
  | .chkSet => if rc > 0 then { s with pc := .chkEnough } else { s with pc := .maxUnset }
  | .chkEnough => if s.size ≤ rc then { s with pc := .returned true } else { s with pc := .maxUnset }
  | .maxUnset => if rc = 0 then { s with pc := .socket } else { s with pc := .maxLess }
  | .socket => loop { s with sd := rc, sz := toInt s.size }
  | .sockopt => if rc = 0 then { s with pc := .bind } else { s with pc := .maxStore }
  | .bind => if rc = 0 then { s with pc := .closeBound } else { s with pc := .maxStore }
  | .closeBound => { s with pc := .chkLess }
  | .chkLess => if rc < toUnsigned s.sz then { s with pc := .chkStore } else { s with pc := .maxFirst }
  | .chkStore => { s with pc := .maxFirst }
  -- `break` leads to the `close` behind the loop, for a socket that has just been closed
  | .maxFirst => if rc = 0 then { s with pc := .returned true } else { s with pc := .closeLast }
  | .maxStore => loop { s with sz := s.sz.tdiv 2 }
  | .closeLast => { s with pc := .maxLess }
  | .maxLess =>
    if s.size > rc then (if s.custom then { s with pc := .dieLoad } else { s with pc := .warnedLoad })
    else { s with pc := .keep }
  | .dieLoad => { s with pc := .died rc.toNat }
  -- unless it is set there is a message in the log
  | .warnedLoad => { s with pc := .warnedStore }
  | .warnedStore => { s with pc := .lowerLoad }
  | .lowerLoad => { s with pc := .lower rc.toNat }
  | .lower _ => { s with pc := .returned false }
  | .keep => { s with pc := .returned true }
  | .returned _ => s
  | .died _ => s

def machine : Machine Check Call ℤ := ⟨call, resume⟩

end Check

/-! ## setsockopt(UDTSOCKET) -/

inductive Options.Pc where
  | custom (opt : UdtOpt × ℤ) (rest : UdtOptions)
  | checking (s : Check)
  | rendezvous
  | returned
  | died
deriving DecidableEq

structure Options where
  sock : ℤ
  pc : Options.Pc
deriving DecidableEq

namespace Options

/-- what follows the custom options -/
def checks (options : UdtOptions) (sock : ℤ) : Options := ⟨sock, .checking (Check.start options sock .rcv)⟩

def start (options : UdtOptions) (sock : ℤ) : Options :=
  match options with
  | [] => checks options sock
  | opt :: rest => ⟨sock, .custom opt rest⟩

def call (s : Options) : Option Check.Call :=
  match s.pc with
  | .custom opt _ => some (.udtSetsockopt s.sock opt.1 opt.2)
  | .checking k => k.call
  | .rendezvous => some (.setRendezvous s.sock)
  | .returned => none
  | .died => none

/-- a check goes on, or gives way to what follows it -/
def checked (options : UdtOptions) (isRendezvous : Bool) (s : Options) (k : Check) : Options :=
  match k.pc with
  | .died _ => { s with pc := .died }
  | .returned _ =>
    match k.buf with
    | .rcv => { s with pc := .checking (Check.start options s.sock .snd) }
    | .snd => if isRendezvous then { s with pc := .rendezvous } else { s with pc := .returned }
  | _ => { s with pc := .checking k }

def resume (options : UdtOptions) (isRendezvous : Bool) (s : Options) (rc : ℤ) : Options :=
  match s.pc with
  | .custom _ rest =>
    match rest with
    | [] => checks options s.sock
    | opt :: rest => { s with pc := .custom opt rest }
  | .checking k => checked options isRendezvous s (k.resume rc)
  | .rendezvous => { s with pc := .returned }
  | .returned => s
  | .died => s

def machine (options : UdtOptions) (isRendezvous : Bool) : Machine Options Check.Call ℤ :=
  ⟨call, resume options isRendezvous⟩

end Options

end UdtGate
