/-
`SOCK_API`: one descriptor space over two transports.

A descriptor below `UDT_FD_BASE` is a TCP descriptor, one from there on is a UDT id plus the base. Every operation looks
at its descriptor and makes a call of the one layer or of the other; here it is the program of these calls, with the
result it returns. A function that runs off its end without a `return` has no result.

- `Op.program`: the operations as they are written.
- `Op.uniform`: what they are for. The call goes to the transport and the native id that the descriptor stands for, and
  its result comes back; an operation the transport does not have is refused without a call.
- `dispatch_iff`: where the one is the other.
-/
import UdtGate.Core.Program
import UdtGate.Transfer

namespace UdtGate

open UdtGate.Core

/-! ## Descriptors -/

def getsocktype (sd : ℤ) : Proto := if sd < UDT_FD_BASE then .tcp else .udt

def getsockfd (sd : ℤ) : ℤ := if sd < UDT_FD_BASE then sd else sd - UDT_FD_BASE

def UDT_ERROR : ℤ := -1

/-! ## The layers below -/

/-- `UDT::SOCKOPT`, as far as the options are told apart -/
inductive SockOpt where
  | sndsyn
  | rcvsyn
  | sndbuf
  | rcvbuf
  | linger
  | sndtimeo
  | rcvtimeo
  | reuseaddr
  | other (optname : ℕ)
deriving DecidableEq

/-- the options of SOL_SOCKET -/
inductive SoName where
  | sndbuf
  | rcvbuf
  | linger
  | sndtimeo
  | rcvtimeo
  | reuseaddr
deriving DecidableEq

/-- a call of a layer, without its descriptor -/
inductive Req where
  | socket (domain type : ℤ)
  | accept
  | bind (addr : List UInt8) (socklen : ℕ)
  | connect (addr : List UInt8) (socklen : ℕ)
  | listen (n : ℤ)
  | recv (n flags : ℤ)
  | send (buff : List UInt8) (n flags : ℤ)
  | read (n : ℤ)
  | write (buff : List UInt8) (n : ℤ)
  | recvmsg (message : List UInt8) (flags : ℤ)
  | recvmsgBuf (n : ℤ)
  | sendmsg (message : List UInt8) (flags : ℤ)
  | sendmsgBuf (buff : List UInt8) (n : ℤ)
  | fcntlGetfl
  | fcntlSetfl (val : BitVec 32)
  | setsockopt (oname : SoName) (optval : List UInt8) (olen : ℕ)
  | udtSetsockopt (level : ℤ) (optname : SockOpt) (optval : List UInt8) (optlen : ℕ)
  | getsockopt (oname : SoName) (optlen : ℕ)
  | udtGetsockopt (level : ℤ) (optname : SockOpt) (optlen : ℕ)
  | close
  | shutdown (how : ℤ)
deriving DecidableEq

/-- a call of the layer `proto` on its descriptor or id `sd` -/
structure Native where
  proto : Proto
  sd : ℤ
  req : Req
deriving DecidableEq

/-- what a function leaves: the returned value, when there is a `return`, and what it sets itself -/
structure Res where
  rc : Option ℤ
  errno : Option ℤ := none
  optval : Option ℤ := none
deriving DecidableEq

abbrev SockProg := Prog Native ℤ Res

def ret (rc : ℤ) : SockProg := .ret { rc := some rc }

/-- the end of a function without a `return` -/
def noReturn : SockProg := .ret { rc := none }

/-- `rc == UDT::ERROR ? -1 : rc` -/
def fromUdt (rc : ℤ) : SockProg := ret (if rc = UDT_ERROR then -1 else rc)

namespace SockApi

/-! ## The operations -/

def socket (domain type : ℤ) (proto : Proto) : SockProg :=
  if proto = .tcp then .call ⟨.tcp, 0, .socket domain type⟩ ret
  else .call ⟨.udt, 0, .socket domain type⟩ fun res => ret (if res > 0 then res + UDT_FD_BASE else res)

def bind (sd : ℤ) (addr : List UInt8) (socklen : ℕ) : SockProg :=
  if sd < UDT_FD_BASE then .call ⟨.tcp, sd, .bind addr socklen⟩ ret
  else .call ⟨.udt, sd - UDT_FD_BASE, .bind addr socklen⟩ ret

def connect (sd : ℤ) (addr : List UInt8) (socklen : ℕ) : SockProg :=
  if sd < UDT_FD_BASE then .call ⟨.tcp, sd, .connect addr socklen⟩ ret
  else .call ⟨.udt, sd - UDT_FD_BASE, .connect addr socklen⟩ ret

def listen (sd n : ℤ) : SockProg :=
  if sd < UDT_FD_BASE then .call ⟨.tcp, sd, .listen n⟩ ret else .call ⟨.udt, sd - UDT_FD_BASE, .listen n⟩ ret

def accept (sd : ℤ) : SockProg :=
  if sd < UDT_FD_BASE then .call ⟨.tcp, sd, .accept⟩ ret
  -- the new id is returned as it is
  else .call ⟨.udt, sd - UDT_FD_BASE, .accept⟩ ret

def recv (sd : ℤ) (n : ℕ) (flags : ℤ) : SockProg :=
  -- the call of the TCP branch is a statement, not a `return`
  if sd < UDT_FD_BASE then .call ⟨.tcp, sd, .recv n flags⟩ fun _ => noReturn
  else .call ⟨.udt, sd - UDT_FD_BASE, .recv (toInt n) flags⟩ fromUdt

def send (sd : ℤ) (buff : List UInt8) (flags : ℤ) : SockProg :=
  if sd < UDT_FD_BASE then .call ⟨.tcp, sd, .send buff buff.length flags⟩ ret
  else .call ⟨.udt, sd - UDT_FD_BASE, .send buff (toInt buff.length) flags⟩ fromUdt

def read (sd : ℤ) (n : ℕ) : SockProg :=
  if sd < UDT_FD_BASE then .call ⟨.tcp, sd, .read n⟩ ret
  else .call ⟨.udt, sd - UDT_FD_BASE, .recv (toInt n) 0⟩ fromUdt

def write (sd : ℤ) (buff : List UInt8) : SockProg :=
  if sd < UDT_FD_BASE then .call ⟨.tcp, sd, .write buff buff.length⟩ ret
  else .call ⟨.udt, sd - UDT_FD_BASE, .send buff (toInt buff.length) 0⟩ fromUdt

def recvmsg (sd : ℤ) (message : List UInt8) (flags : ℤ) : SockProg :=
  if sd < UDT_FD_BASE then .call ⟨.tcp, sd, .recvmsg message flags⟩ ret else ret (-1)

/-- the overload with a buffer -/
def recvmsgBuf (sd : ℤ) (n : ℕ) : SockProg :=
  if sd < UDT_FD_BASE then ret (-1) else .call ⟨.udt, sd - UDT_FD_BASE, .recvmsgBuf (toInt n)⟩ fromUdt

def sendmsg (sd : ℤ) (message : List UInt8) (flags : ℤ) : SockProg :=
  if sd < UDT_FD_BASE then .call ⟨.tcp, sd, .sendmsg message flags⟩ ret else ret (-1)

/-- the overload with a buffer -/
def sendmsgBuf (sd : ℤ) (buff : List UInt8) : SockProg :=
  if sd < UDT_FD_BASE then ret (-1)
  else .call ⟨.udt, sd - UDT_FD_BASE, .sendmsgBuf buff (toInt buff.length)⟩ fromUdt

def close (sd : ℤ) : SockProg :=
  if sd < UDT_FD_BASE then .call ⟨.tcp, sd, .close⟩ fun _ => noReturn
  else .call ⟨.udt, sd - UDT_FD_BASE, .close⟩ fun _ => noReturn

def shutdown (sd how : ℤ) : SockProg :=
  if sd < UDT_FD_BASE then .call ⟨.tcp, sd, .shutdown how⟩ fun _ => noReturn
  else .call ⟨.udt, sd - UDT_FD_BASE, .close⟩ fun _ => noReturn

/-! Socket options -/

def O_NONBLOCK : BitVec 32 := 0x800#32

def ENOPROTOOPT : ℤ := 92

def SIZEOF_INT : ℕ := 4

/-- the option of SOL_SOCKET for a UDT option -/
def soName : SockOpt → Option SoName
  | .sndbuf => some .sndbuf
  | .rcvbuf => some .rcvbuf
  | .linger => some .linger
  | .sndtimeo => some .sndtimeo
  | .rcvtimeo => some .rcvtimeo
  | .reuseaddr => some .reuseaddr
  | .sndsyn | .rcvsyn | .other _ => none

/-- `*((bool*) optval)` -/
def optbool (optval : List UInt8) : Bool := optval.headD 0 ≠ 0

/-- the flags that UDT_SNDSYN and UDT_RCVSYN set alike on a TCP socket -/
def syncFlags (optval : List UInt8) (val : BitVec 32) : BitVec 32 :=
  if optbool optval then val &&& ~~~O_NONBLOCK else val ||| O_NONBLOCK

def setSync (sd : ℤ) (optval : List UInt8) : SockProg :=
  .call ⟨.tcp, sd, .fcntlGetfl⟩ fun val =>
    if val = -1 then ret (-1)
    else
      .call ⟨.tcp, sd, .fcntlSetfl (syncFlags optval (BitVec.ofInt 32 val))⟩ fun rc =>
        if rc = -1 then ret (-1) else ret 0

def setsockopt (sd level : ℤ) (optname : SockOpt) (optval : List UInt8) (optlen : ℕ) : SockProg :=
  if sd < UDT_FD_BASE then
    match optname with
    | .sndsyn => setSync sd optval
    | .rcvsyn => setSync sd optval
    | optname =>
      match soName optname with
      | some oname => .call ⟨.tcp, sd, .setsockopt oname optval SIZEOF_INT⟩ ret
      | none => .ret { rc := some (-1), errno := some ENOPROTOOPT }
  else .call ⟨.udt, sd - UDT_FD_BASE, .udtSetsockopt level optname optval optlen⟩ ret

def getSync (sd : ℤ) : SockProg :=
  .call ⟨.tcp, sd, .fcntlGetfl⟩ fun val =>
    if val = -1 then ret (-1)
    else if BitVec.ofInt 32 val ||| O_NONBLOCK ≠ 0 then .ret { rc := some 0, optval := some 0 }
    else .ret { rc := some 0, optval := some 1 }

/-- `w` is `sizeof(socklen_t)` -/
def getsockopt (w : ℕ) (sd level : ℤ) (optname : SockOpt) (optlen : ℕ) : SockProg :=
  if sd < UDT_FD_BASE then
    match optname with
    | .sndsyn => getSync sd
    | .rcvsyn => getSync sd
    | optname =>
      match soName optname with
      | some oname => .call ⟨.tcp, sd, .getsockopt oname optlen⟩ ret
      | none => .ret { rc := some (-1), errno := some ENOPROTOOPT }
  -- without a conversion of the length the id is not converted either
  else if w = SIZEOF_INT then .call ⟨.udt, sd, .udtGetsockopt level optname optlen⟩ ret
  else .call ⟨.udt, sd - UDT_FD_BASE, .udtGetsockopt level optname optlen⟩ ret

/-! ## What the operations are for -/

/-- an operation with its arguments, without the descriptor -/
inductive Op where
  | bind (addr : List UInt8) (socklen : ℕ)
  | connect (addr : List UInt8) (socklen : ℕ)
  | listen (n : ℤ)
  | recv (n : ℕ) (flags : ℤ)
  | send (buff : List UInt8) (flags : ℤ)
  | read (n : ℕ)
  | write (buff : List UInt8)
  | recvmsg (message : List UInt8) (flags : ℤ)
  | recvmsgBuf (n : ℕ)
  | sendmsg (message : List UInt8) (flags : ℤ)
  | sendmsgBuf (buff : List UInt8)
  | setsockopt (level : ℤ) (optname : SockOpt) (optval : List UInt8) (optlen : ℕ)
  | getsockopt (level : ℤ) (optname : SockOpt) (optlen : ℕ)
  | close
  | shutdown (how : ℤ)
deriving DecidableEq

/-- the operation as it is written -/
def Op.program (w : ℕ) (sd : ℤ) : Op → SockProg
  | .bind addr socklen => SockApi.bind sd addr socklen
  | .connect addr socklen => SockApi.connect sd addr socklen
  | .listen n => SockApi.listen sd n
  | .recv n flags => SockApi.recv sd n flags
  | .send buff flags => SockApi.send sd buff flags
  | .read n => SockApi.read sd n
  | .write buff => SockApi.write sd buff
  | .recvmsg message flags => SockApi.recvmsg sd message flags
  | .recvmsgBuf n => SockApi.recvmsgBuf sd n
  | .sendmsg message flags => SockApi.sendmsg sd message flags
  | .sendmsgBuf buff => SockApi.sendmsgBuf sd buff
  | .setsockopt level optname optval optlen => SockApi.setsockopt sd level optname optval optlen
  | .getsockopt level optname optlen => SockApi.getsockopt w sd level optname optlen
  | .close => SockApi.close sd
  | .shutdown how => SockApi.shutdown sd how

/-- what an operation comes to on a transport -/
inductive Effect where
  | one (req : Req)
  | getfl
  | setfl (f : BitVec 32 → BitVec 32)

/-- the underlying call of an operation the transport supports -/
def Op.effect : Op → Proto → Option Effect
  | .bind addr socklen, _ => some (.one (.bind addr socklen))
  | .connect addr socklen, _ => some (.one (.connect addr socklen))
  | .listen n, _ => some (.one (.listen n))
  | .recv n flags, .tcp => some (.one (.recv n flags))
  | .recv n flags, .udt => some (.one (.recv (toInt n) flags))
  | .send buff flags, .tcp => some (.one (.send buff buff.length flags))
  | .send buff flags, .udt => some (.one (.send buff (toInt buff.length) flags))
  | .read n, .tcp => some (.one (.read n))
  | .read n, .udt => some (.one (.recv (toInt n) 0))
  | .write buff, .tcp => some (.one (.write buff buff.length))
  | .write buff, .udt => some (.one (.send buff (toInt buff.length) 0))
  | .recvmsg message flags, .tcp => some (.one (.recvmsg message flags))
  | .recvmsg .., .udt => none
  | .recvmsgBuf _, .tcp => none
  | .recvmsgBuf n, .udt => some (.one (.recvmsgBuf (toInt n)))
  | .sendmsg message flags, .tcp => some (.one (.sendmsg message flags))
  | .sendmsg .., .udt => none
  | .sendmsgBuf _, .tcp => none
  | .sendmsgBuf buff, .udt => some (.one (.sendmsgBuf buff (toInt buff.length)))
  | .setsockopt _ .sndsyn optval _, .tcp | .setsockopt _ .rcvsyn optval _, .tcp => some (.setfl (syncFlags optval))
  | .setsockopt _ optname optval _, .tcp => (soName optname).map fun o => .one (.setsockopt o optval SIZEOF_INT)
  | .setsockopt level optname optval optlen, .udt => some (.one (.udtSetsockopt level optname optval optlen))
  | .getsockopt _ .sndsyn _, .tcp | .getsockopt _ .rcvsyn _, .tcp => some .getfl
  | .getsockopt _ optname optlen, .tcp => (soName optname).map fun o => .one (.getsockopt o optlen)
  | .getsockopt level optname optlen, .udt => some (.one (.udtGetsockopt level optname optlen))
  | .close, _ => some (.one .close)
  | .shutdown how, .tcp => some (.one (.shutdown how))
  | .shutdown _, .udt => some (.one .close)

/-- the result of a call, with UDT::ERROR as -1 -/
def result (proto : Proto) (rc : ℤ) : ℤ :=
  match proto with
  | .tcp => rc
  | .udt => if rc = UDT_ERROR then -1 else rc

/-- success or failure of fcntl -/
def status (rc : ℤ) : ℤ := if rc = -1 then -1 else 0

/-- the calls of an effect on the socket `id`, with the result that is passed on -/
def Effect.calls (proto : Proto) (id : ℤ) : Effect → Prog Native ℤ (Option ℤ)
  | .one req => .call ⟨proto, id, req⟩ fun rc => .ret (some (result proto rc))
  | .getfl => .call ⟨proto, id, .fcntlGetfl⟩ fun val => .ret (some (status val))
  | .setfl f =>
    .call ⟨proto, id, .fcntlGetfl⟩ fun val =>
      if val = -1 then .ret (some (-1))
      else .call ⟨proto, id, .fcntlSetfl (f (BitVec.ofInt 32 val))⟩ fun rc => .ret (some (status rc))

/-- the operation on the socket that the descriptor stands for; -1 without a call where there is no such operation -/
def Op.uniform (op : Op) (sd : ℤ) : Prog Native ℤ (Option ℤ) :=
  match op.effect (getsocktype sd) with
  | none => .ret (some (-1))
  | some e => e.calls (getsocktype sd) (getsockfd sd)

/-! ## Where they agree -/

variable {sd : ℤ}

theorem getsocktype_tcp (h : sd < UDT_FD_BASE) : getsocktype sd = .tcp ∧ getsockfd sd = sd := by
  simp only [getsocktype, getsockfd, if_pos h, and_self]

theorem getsocktype_udt (h : ¬ sd < UDT_FD_BASE) : getsocktype sd = .udt ∧ getsockfd sd = sd - UDT_FD_BASE := by
  simp only [getsocktype, getsockfd, if_neg h, and_self]

/-- an operation on a TCP descriptor -/
theorem uniform_tcp (h : sd < UDT_FD_BASE) (op : Op) :
    op.uniform sd = match op.effect .tcp with
      | none => .ret (some (-1))
      | some e => e.calls .tcp sd := by
  obtain ⟨ht, hfd⟩ := getsocktype_tcp h
  rw [Op.uniform, ht, hfd]

/-- an operation on a UDT descriptor -/
theorem uniform_udt (h : ¬ sd < UDT_FD_BASE) (op : Op) :
    op.uniform sd = match op.effect .udt with
      | none => .ret (some (-1))
      | some e => e.calls .udt (sd - UDT_FD_BASE) := by
  obtain ⟨ht, hfd⟩ := getsocktype_udt h
  rw [Op.uniform, ht, hfd]

/-- UDT::ERROR is -1, so the result of a UDT call can be passed on as it is -/
theorem result_udt (rc : ℤ) : result .udt rc = rc := by
  unfold result UDT_ERROR
  split_ifs with h
  · exact h.symm
  · rfl

theorem map_fromUdt (rc : ℤ) : (fromUdt rc).map Res.rc = .ret (some (result .udt rc)) := rfl

/-- setting a flag by fcntl -/
theorem map_setSync (optval : List UInt8) :
    (setSync sd optval).map Res.rc = Effect.calls .tcp sd (.setfl (syncFlags optval)) := by
  simp only [setSync, Effect.calls, Prog.map_call]
  congr 1
  funext val
  split_ifs
  · rfl
  · simp only [Prog.map_call]
    congr 1
    funext rc
    unfold status
    split_ifs <;> rfl

/-- reading a flag by fcntl: whatever it is, the call succeeds -/
theorem map_getSync : (getSync sd).map Res.rc = Effect.calls .tcp sd .getfl := by
  simp only [getSync, Effect.calls, Prog.map_call]
  congr 1
  funext val
  unfold status
  split_ifs <;> rfl

/-- options other than these two are looked up in `soName` -/
theorem map_setsockopt (level : ℤ) (optname : SockOpt) (optval : List UInt8) (optlen : ℕ) :
    (setsockopt sd level optname optval optlen).map Res.rc =
      (Op.setsockopt level optname optval optlen).uniform sd := by
  by_cases h : sd < UDT_FD_BASE
  · rw [uniform_tcp h]
    unfold setsockopt
    rw [if_pos h]
    cases optname with
    | sndsyn | rcvsyn => exact map_setSync optval
    | _ => rfl
  · rw [uniform_udt h]
    unfold setsockopt
    rw [if_neg h]
    simp only [Op.effect, Effect.calls, result_udt, Prog.map_call]
    rfl

theorem map_getsockopt_tcp (h : sd < UDT_FD_BASE) (w : ℕ) (level : ℤ) (optname : SockOpt) (optlen : ℕ) :
    (getsockopt w sd level optname optlen).map Res.rc = (Op.getsockopt level optname optlen).uniform sd := by
  rw [uniform_tcp h]
  unfold getsockopt
  rw [if_pos h]
  cases optname with
  | sndsyn | rcvsyn => exact map_getSync
  | _ => rfl

theorem map_getsockopt_udt (h : ¬ sd < UDT_FD_BASE) {w : ℕ} {level : ℤ} {optname : SockOpt} {optlen : ℕ} :
    (getsockopt w sd level optname optlen).map Res.rc = (Op.getsockopt level optname optlen).uniform sd ↔
      w ≠ SIZEOF_INT := by
  rw [uniform_udt h]
  unfold getsockopt
  rw [if_neg h]
  simp only [Op.effect, Effect.calls, result_udt]
  by_cases hw : w = SIZEOF_INT
  · rw [if_pos hw]
    refine iff_of_false ?_ (not_not.2 hw)
    intro heq
    have hcall : sd = sd - UDT_FD_BASE := congrArg Native.sd (Prog.call.inj heq).1
    have hbase : (0 : ℤ) < UDT_FD_BASE := by decide
    omega
  · rw [if_neg hw]
    exact iff_of_true rfl hw

/-- a program that returns nothing is not one that returns a result -/
theorem noReturn_ne {c c' : Native} {f : ℤ → ℤ} :
    (Prog.call c fun _ => noReturn : SockProg).map Res.rc ≠ .call c' fun rc => .ret (some (f rc)) := by
  intro h
  have hnext := congrFun (Prog.call.inj h).2 0
  cases hnext

/-- where an operation is dispatched as it is meant: not where a `return` is missing, and not for the options of a UDT
socket where `socklen_t` has the size of `int` -/
def Op.Dispatched (w : ℕ) (sd : ℤ) : Op → Prop
  | .recv .. => UDT_FD_BASE ≤ sd
  | .getsockopt .. => sd < UDT_FD_BASE ∨ w ≠ SIZEOF_INT
  | .close | .shutdown _ => False
  | _ => True

/-- **Dispatch.** For every descriptor, every operation and all its arguments, and whatever the layers below answer: the
operation makes its call on the transport and the native id of the descriptor and returns the result of that call, or
returns -1 without a call where the transport does not have the operation, if and only if it is none of: `recv` on TCP,
`getsockopt` on UDT where `socklen_t` is as wide as `int`, `close` and `shutdown`. -/
theorem dispatch_iff (w : ℕ) (sd : ℤ) (op : Op) :
    (op.program w sd).map Res.rc = op.uniform sd ↔ op.Dispatched w sd := by
  by_cases h : sd < UDT_FD_BASE
  · have hnot : ¬ UDT_FD_BASE ≤ sd := not_le.2 h
    cases op with
    | recv n flags =>
      refine ⟨fun heq => absurd heq ?_, fun hd => absurd hd hnot⟩
      rw [uniform_tcp h, Op.program, recv, if_pos h]
      exact noReturn_ne
    | close =>
      refine ⟨fun heq => absurd heq ?_, False.elim⟩
      rw [uniform_tcp h, Op.program, close, if_pos h]
      exact noReturn_ne
    | shutdown how =>
      refine ⟨fun heq => absurd heq ?_, False.elim⟩
      rw [uniform_tcp h, Op.program, shutdown, if_pos h]
      exact noReturn_ne
    | setsockopt level optname optval optlen => exact iff_of_true (map_setsockopt level optname optval optlen) trivial
    | getsockopt level optname optlen =>
      exact iff_of_true (map_getsockopt_tcp h w level optname optlen) (Or.inl h)
    | _ =>
      refine iff_of_true ?_ trivial
      rw [uniform_tcp h]
      simp only [Op.program, bind, connect, listen, send, read, write, recvmsg, recvmsgBuf, sendmsg, sendmsgBuf,
        if_pos h]
      rfl
  · have hle : UDT_FD_BASE ≤ sd := not_lt.1 h
    cases op with
    | close =>
      refine ⟨fun heq => absurd heq ?_, False.elim⟩
      rw [uniform_udt h, Op.program, close, if_neg h]
      exact noReturn_ne
    | shutdown how =>
      refine ⟨fun heq => absurd heq ?_, False.elim⟩
      rw [uniform_udt h, Op.program, shutdown, if_neg h]
      exact noReturn_ne
    | recv n flags =>
      refine iff_of_true ?_ hle
      rw [uniform_udt h, Op.program, recv, if_neg h]
      rfl
    | setsockopt level optname optval optlen => exact iff_of_true (map_setsockopt level optname optval optlen) trivial
    | getsockopt level optname optlen =>
      rw [Op.program, map_getsockopt_udt h]
      exact ⟨Or.inr, fun hd => hd.resolve_left h⟩
    | bind _ _ | connect _ _ | listen _ =>
      refine iff_of_true ?_ trivial
      rw [uniform_udt h]
      simp only [Op.program, bind, connect, listen, if_neg h, Op.effect, Effect.calls, result_udt, Prog.map_call]
      rfl
    | _ =>
      refine iff_of_true ?_ trivial
      rw [uniform_udt h]
      simp only [Op.program, send, read, write, recvmsg, recvmsgBuf, sendmsg, sendmsgBuf, if_neg h]
      rfl

/-- **Another socket.** `getsockopt` on the first UDT id asks UDT for the id 16777216. -/
theorem getsockopt_other_socket :
    ¬ ∀ (w : ℕ) (sd : ℤ) (op : Op), (op.program w sd).map Res.rc = op.uniform sd := by
  intro h
  have heq := h 4 (embedsockfd 1 .udt) (.getsockopt 0 .sndbuf 4)
  have hcall := congrArg Native.sd (Prog.call.inj heq).1
  exact absurd hcall (by decide)

/-! ## The calls of readn and writen -/

/-- the transfers among the calls of the layers, as the loops over them see them -/
def transfer (c : Native) : Option Call :=
  match c.proto, c.req with
  | .tcp, .read n => some (.read c.sd n)
  | .tcp, .write buff _ => some (.write c.sd buff)
  | .udt, .recv n _ => some (.udtRecv c.sd n)
  | .udt, .send buff _ _ => some (.udtSend c.sd buff)
  | _, _ => none

/-- `read` makes the one call that `readn` repeats, and passes its result on -/
theorem read_calls (sd : ℤ) {n : ℕ} (hn : n < 2 ^ 31) :
    ∃ c, transfer c = some (sockRead sd n) ∧ (read sd n).map Res.rc = .call c fun rc => .ret (some rc) := by
  unfold read sockRead
  split_ifs with h
  · exact ⟨_, rfl, rfl⟩
  · refine ⟨⟨.udt, sd - UDT_FD_BASE, .recv (toInt n) 0⟩, by rw [toInt_of_lt hn]; rfl, ?_⟩
    simp only [Prog.map_call, map_fromUdt, result_udt]

/-- `write` makes the one call that `writen` repeats, and passes its result on -/
theorem write_calls (sd : ℤ) (buff : List UInt8) :
    ∃ c, transfer c = some (sockWrite sd buff) ∧ (write sd buff).map Res.rc = .call c fun rc => .ret (some rc) := by
  unfold write sockWrite
  split_ifs with h
  · exact ⟨_, rfl, rfl⟩
  · refine ⟨⟨.udt, sd - UDT_FD_BASE, .send buff (toInt buff.length) 0⟩, rfl, ?_⟩
    simp only [Prog.map_call, map_fromUdt, result_udt]

end SockApi

end UdtGate
