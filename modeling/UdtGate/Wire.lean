/-
What the relay says to the operating system and to the UDT library, and what goes over the wire.

- `SockPkt` is the SOCKS4 packet of `include/udtgate.h`, request and reply alike: eight packed bytes.
- `Call` lists the socket calls of `relay/udtrelay.cpp` and `lib/socket_api.cpp` that the model follows, with their
  arguments; `Ans` is what comes back. `permitted` is the documented behaviour: a receive stores at most the bytes asked
  for and returns their number, a send accepts at most the bytes offered, and both return -1 when they fail.
- A `Log` is the calls made so far with their answers. `tcpIn`, `tcpOut`, `udtIn` and `udtOut` are the bytes it received
  from, and had accepted by, the TCP and the UDT socket.
-/
import UdtGate.Access
import UdtGate.Core.Memory

namespace UdtGate

open UdtGate.Core

/-! ## The packet -/

/-- `struct sock_pkt` -/
structure SockPkt where
  vn : UInt8
  cd : UInt8
  dstport : Bytes 2
  dstip : Bytes 4
deriving DecidableEq

namespace SockPkt

/-- the packet as it lies in memory -/
def bytes (p : SockPkt) : List UInt8 := p.vn :: p.cd :: (p.dstport.1 ++ p.dstip.1)

@[simp] theorem length_bytes (p : SockPkt) : p.bytes.length = 8 := by
  simp [bytes, p.dstport.2, p.dstip.2]

def ofBytes (l : List UInt8) (h : l.length = 8) : SockPkt where
  vn := l.get ⟨0, by omega⟩
  cd := l.get ⟨1, by omega⟩
  dstport := ⟨load l 2 2, length_load (by omega)⟩
  dstip := ⟨load l 4 4, length_load (by omega)⟩

@[simp] theorem bytes_ofBytes (l : List UInt8) (h : l.length = 8) : (ofBytes l h).bytes = l := by
  rcases l with _ | ⟨a, _ | ⟨b, _ | ⟨c, _ | ⟨d, _ | ⟨e, _ | ⟨f, _ | ⟨g, _ | ⟨i, _ | ⟨j, l⟩⟩⟩⟩⟩⟩⟩⟩⟩ <;>
    simp [bytes, ofBytes, load] at h ⊢

theorem bytes_injective {p q : SockPkt} (h : p.bytes = q.bytes) : p = q := by
  obtain ⟨v, c, ⟨dp, hdp⟩, ⟨di, hdi⟩⟩ := p
  obtain ⟨v', c', ⟨dp', hdp'⟩, ⟨di', hdi'⟩⟩ := q
  simp only [bytes, List.cons.injEq] at h
  obtain ⟨rfl, rfl, h⟩ := h
  obtain ⟨rfl, rfl⟩ := List.append_inj h (hdp.trans hdp'.symm)
  rfl

/-- a receive of `bs` at offset `off` of the packet; bytes that do not fit are outside the model -/
def recvAt (p : SockPkt) (off : ℕ) (bs : List UInt8) : SockPkt :=
  if h : off + bs.length ≤ 8 then
    ofBytes (store p.bytes off bs) ((length_store (by simpa using h)).trans p.length_bytes)
  else p

@[simp] theorem recvAt_nil (p : SockPkt) (off : ℕ) : p.recvAt off [] = p := by
  unfold recvAt
  split_ifs
  · exact bytes_injective (by simp)
  · rfl

theorem bytes_recvAt (p : SockPkt) {off : ℕ} {bs : List UInt8} (h : off + bs.length ≤ 8) :
    (p.recvAt off bs).bytes = store p.bytes off bs := by
  simp [recvAt, h]

/-- a receive of all eight bytes replaces the packet -/
theorem bytes_recvAt_zero (p : SockPkt) {bs : List UInt8} (h : bs.length ≤ 8) :
    (p.recvAt 0 bs).bytes = bs ++ p.bytes.drop bs.length := by
  rw [bytes_recvAt p (by omega)]
  simp [store]

/-- the command byte after a receive at the front: received, or what was there -/
theorem cd_recvAt_zero (p : SockPkt) {bs : List UInt8} (h : bs.length ≤ 8) :
    (p.recvAt 0 bs).cd = (bs[1]?).getD p.cd := by
  have hb := bytes_recvAt_zero p h
  have h1 : (p.recvAt 0 bs).bytes[1]? = some (p.recvAt 0 bs).cd := rfl
  have h2 : p.bytes[1]? = some p.cd := rfl
  rw [hb] at h1
  rcases bs with _ | ⟨a, _ | ⟨b, bs⟩⟩
  · simp
  · have h3 : (p.bytes.drop 1)[0]? = some p.cd := by rw [List.getElem?_drop]; exact h2
    simp only [List.length_singleton, List.cons_append, List.nil_append, List.getElem?_cons_succ] at h1
    rw [h3] at h1
    simpa using (Option.some.inj h1).symm
  · simp only [List.cons_append, List.getElem?_cons_succ, List.getElem?_cons_zero, Option.some.injEq] at h1
    simpa using h1.symm

/-- the destination a request asks for, a reply echoes -/
def dst (p : SockPkt) : SockAddrIn := ⟨p.dstport, p.dstip⟩

end SockPkt

/-! ## Calls and answers -/

/-- the calls, with descriptors and arguments -/
inductive Call where
  | getpeername (sd : ℤ)
  | udtGetpeername (sd : ℤ)
  | socket
  | udtSocket
  | recv (sd n : ℤ) (waitall : Bool)
  | udtRecv (sd n : ℤ)
  | send (sd : ℤ) (buf : List UInt8)
  | udtSend (sd : ℤ) (buf : List UInt8)
  | read (sd n : ℤ)
  | write (sd : ℤ) (buf : List UInt8)
  | getifaddrs
  | connect (sd : ℤ) (addr : SockAddrIn)
  | udtConnect (sd : ℤ) (addr : SockAddrIn)
  | udtBind (sd : ℤ) (addr : SockAddrIn)
  /-- the relay's own `setsockopt(UDTSOCKET)`: all configured options -/
  | setUdtOptions (sd : ℤ)
  | setRcvTimeo (sd ms : ℤ)
  | poll (sd ms : ℤ)
  | shutdown (sd : ℤ)
  | loadShutdown
  | storeShutdown (v : ℤ)
  | createWorkers
  | joinWorkers
  | udtClose (sd : ℤ)
  | close (sd : ℤ)
deriving DecidableEq

def EINTR : ℤ := 4

/-- an answer: the returned value, `errno` after the call, the bytes a receive stored, the list of `getifaddrs` -/
structure Ans where
  rc : ℤ
  errno : ℤ := 0
  data : List UInt8 := []
  ifap : List Ifaddrs := []
deriving DecidableEq

/-- descriptors from here on are UDT ids, plus this -/
def UDT_FD_BASE : ℤ := 0xFFFFFF

/-- the documented behaviour of receives, sends and connects; TCP descriptors lie below the UDT ones, and a UDT id that
is none can not be bound -/
def permitted (c : Call) (a : Ans) : Bool :=
  match c with
  | .recv _ n _ | .udtRecv _ n | .read _ n => (a.rc = a.data.length && a.rc ≤ n) || (a.rc = -1 && a.data = [])
  | .send _ buf | .udtSend _ buf | .write _ buf => -1 ≤ a.rc && a.rc ≤ buf.length
  | .socket => a.rc < UDT_FD_BASE
  | .udtBind sd _ => 0 ≤ sd || a.rc = -1
  | .connect .. => a.rc = 0 || a.rc = -1
  | _ => true

/-! ## Logs and the bytes in them -/

abbrev Log := List (Call × Ans)

/-- the blocks received from the TCP socket -/
def tcpBlocks (l : Log) : List (List UInt8) :=
  l.flatMap fun e =>
    match e.1 with
    | .recv .. | .read .. => [e.2.data]
    | _ => []

/-- the blocks received from the UDT socket -/
def udtBlocks (l : Log) : List (List UInt8) :=
  l.flatMap fun e =>
    match e.1 with
    | .udtRecv .. => [e.2.data]
    | _ => []

/-- bytes received from the TCP socket -/
def tcpIn (l : Log) : List UInt8 :=
  l.flatMap fun e =>
    match e.1 with
    | .recv .. | .read .. => e.2.data
    | _ => []

/-- bytes received from the UDT socket -/
def udtIn (l : Log) : List UInt8 :=
  l.flatMap fun e =>
    match e.1 with
    | .udtRecv .. => e.2.data
    | _ => []

/-- bytes accepted by the TCP socket -/
def tcpOut (l : Log) : List UInt8 :=
  l.flatMap fun e =>
    match e.1 with
    | .send _ buf | .write _ buf => buf.take e.2.rc.toNat
    | _ => []

/-- bytes accepted by the UDT socket -/
def udtOut (l : Log) : List UInt8 :=
  l.flatMap fun e =>
    match e.1 with
    | .udtSend _ buf => buf.take e.2.rc.toNat
    | _ => []

@[simp] theorem tcpIn_nil : tcpIn [] = [] := rfl
@[simp] theorem udtIn_nil : udtIn [] = [] := rfl
@[simp] theorem tcpOut_nil : tcpOut [] = [] := rfl
@[simp] theorem udtOut_nil : udtOut [] = [] := rfl
@[simp] theorem tcpIn_append (l m : Log) : tcpIn (l ++ m) = tcpIn l ++ tcpIn m := List.flatMap_append
@[simp] theorem udtIn_append (l m : Log) : udtIn (l ++ m) = udtIn l ++ udtIn m := List.flatMap_append
@[simp] theorem tcpOut_append (l m : Log) : tcpOut (l ++ m) = tcpOut l ++ tcpOut m := List.flatMap_append
@[simp] theorem udtOut_append (l m : Log) : udtOut (l ++ m) = udtOut l ++ udtOut m := List.flatMap_append
@[simp] theorem tcpBlocks_append (l m : Log) : tcpBlocks (l ++ m) = tcpBlocks l ++ tcpBlocks m := List.flatMap_append
@[simp] theorem udtBlocks_append (l m : Log) : udtBlocks (l ++ m) = udtBlocks l ++ udtBlocks m := List.flatMap_append

theorem flatten_tcpBlocks (l : Log) : (tcpBlocks l).flatten = tcpIn l := by
  induction l with
  | nil => rfl
  | cons e l ih =>
    have hone : (tcpBlocks [e]).flatten = tcpIn [e] := by
      obtain ⟨c, a⟩ := e
      cases c <;> simp [tcpBlocks, tcpIn]
    rw [← List.singleton_append, tcpBlocks_append, tcpIn_append, List.flatten_append, hone, ih]

theorem flatten_udtBlocks (l : Log) : (udtBlocks l).flatten = udtIn l := by
  induction l with
  | nil => rfl
  | cons e l ih =>
    have hone : (udtBlocks [e]).flatten = udtIn [e] := by
      obtain ⟨c, a⟩ := e
      cases c <;> simp [udtBlocks, udtIn]
    rw [← List.singleton_append, udtBlocks_append, udtIn_append, List.flatten_append, hone, ih]

end UdtGate
