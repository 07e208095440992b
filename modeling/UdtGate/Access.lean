/-
Socket addresses, interfaces, and the access check of `lib/utils.cpp`: `sockaddr_match`, `sockaddr_mask`, `memand` and
`check_source`.

An address is a family with the bytes of that family, as stored (network order). A failed `assert` is `none`.
`checkSource` is the loop of `check_source` over the list that `getifaddrs` returned, with the lines it logs. It is only
ever given AF_INET addresses: the listener and the requested destination are both AF_INET.

- `Globals` are the settings that the accept loop and the handlers of connections read.
- `OwnAddress` and `OnSubnet` say what the check is for, byte by byte and without the code's helpers.
- `checkSource_spec`: on a list whose netmasks have the family of their addresses the loop never runs into an assertion,
  and its decision is the existence of a matching entry.
-/
import Mathlib.Tactic

namespace UdtGate

/-! ## Byte arrays -/

/-- `char[n]` -/
abbrev Bytes (n : ℕ) := {l : List UInt8 // l.length = n}

/-- after `memset` -/
def Bytes.zero (n : ℕ) : Bytes n := ⟨List.replicate n 0, List.length_replicate⟩

def Bytes.get {n : ℕ} (a : Bytes n) (k : Fin n) : UInt8 := a.1.get (k.cast a.2.symm)

theorem Bytes.ext_get {n : ℕ} {a b : Bytes n} (h : ∀ k, a.get k = b.get k) : a = b := by
  apply Subtype.ext
  apply List.ext_getElem (a.2.trans b.2.symm)
  intro i h1 h2
  exact h ⟨i, a.2 ▸ h1⟩

/-- `memand`: the loop over `size` bytes -/
def memand : List UInt8 → List UInt8 → ℕ → List UInt8
  | d :: dst, s :: src, size + 1 => (d &&& s) :: memand dst src size
  | dst, _, _ => dst

theorem length_memand (dst src : List UInt8) (size : ℕ) : (memand dst src size).length = dst.length := by
  induction dst, src, size using memand.induct with
  | case1 d dst s src size ih => simp [memand, ih]
  | case2 dst src size h => rw [memand]; exact h

theorem memand_eq_zipWith {dst src : List UInt8} (h : dst.length = src.length) :
    memand dst src dst.length = List.zipWith (· &&& ·) dst src := by
  induction dst generalizing src with
  | nil => simp [memand]
  | cons d dst ih =>
    cases src with
    | nil => simp at h
    | cons s src =>
      simp only [List.length_cons, memand, List.zipWith_cons_cons]
      rw [ih (by simpa using h)]

/-- `memand` on whole arrays -/
def Bytes.mask {n : ℕ} (a m : Bytes n) : Bytes n := ⟨memand a.1 m.1 n, (length_memand _ _ _).trans a.2⟩

theorem Bytes.get_mask {n : ℕ} (a m : Bytes n) (k : Fin n) : (a.mask m).get k = a.get k &&& m.get k := by
  obtain ⟨a, rfl⟩ := a
  obtain ⟨m, hm⟩ := m
  simp only [Bytes.get, Bytes.mask, memand_eq_zipWith hm.symm, List.get_eq_getElem, List.getElem_zipWith]
  rfl

theorem Bytes.mask_mask {n : ℕ} (a m : Bytes n) : (a.mask m).mask m = a.mask m := by
  apply Bytes.ext_get
  intro k
  rw [Bytes.get_mask, Bytes.get_mask, UInt8.and_assoc, UInt8.and_self]

/-- masked arrays are equal when they agree on the bits set in the mask -/
theorem Bytes.mask_eq_mask {n : ℕ} {a b m : Bytes n} :
    a.mask m = b.mask m ↔ ∀ k, a.get k &&& m.get k = b.get k &&& m.get k := by
  constructor
  · intro h k
    rw [← Bytes.get_mask, ← Bytes.get_mask, h]
  · intro h
    apply Bytes.ext_get
    intro k
    rw [Bytes.get_mask, Bytes.get_mask]; exact h k

/-! ## Addresses -/

/-- `sockaddr_in`, with port and address as stored -/
structure SockAddrIn where
  port : Bytes 2
  addr : Bytes 4
deriving DecidableEq

/-- `sockaddr`: an address of family AF_INET, AF_INET6, or another family of which only the number is looked at -/
inductive SockAddr where
  | in4 (sin : SockAddrIn)
  | in6 (port : Bytes 2) (addr : Bytes 16)
  | other (family : ℕ)
deriving DecidableEq

/-- `sockaddr_match`. With `portcmp` the code compares the port of the first address with itself. -/
def sockaddrMatch (addr1 addr2 : SockAddr) (portcmp : Bool) : Option Bool :=
  match addr1, addr2 with
  | .in4 a, .in4 b => if portcmp && a.port != a.port then some false else some (a.addr == b.addr)
  | .in6 p a, .in6 _ b => if portcmp && p != p then some false else some (a == b)
  | _, _ => none

/-- `sockaddr_mask`: the first address after the call -/
def sockaddrMask (addr1 netmask : SockAddr) : Option SockAddr :=
  match addr1, netmask with
  | .in4 a, .in4 m => some (.in4 { a with addr := a.addr.mask m.addr })
  | .in6 p a, .in6 _ m => some (.in6 p (a.mask m))
  | _, _ => none

/-- `inet_ntoa` -/
def inetNtoa (a : Bytes 4) : String := ".".intercalate (a.1.map toString)

/-! ## check_source -/

/-- an entry of the list of `getifaddrs` -/
structure Ifaddrs where
  name : String
  addr : Option SockAddr
  netmask : Option SockAddr
deriving DecidableEq

/-- the debug line for one entry -/
def matchLog (debugLevel : ℕ) (name : String) (addr1 ifaAddr : SockAddr) : List String :=
  match addr1, ifaAddr with
  | .in4 a, .in4 b =>
    if debugLevel ≠ 0 then
      ["check_source: matching " ++ inetNtoa a.addr ++ " against " ++ name ++ " -> " ++ inetNtoa b.addr ++ "\n"]
    else []
  | _, _ => []

/-- the loop of `check_source` over the interfaces, with its log lines; `none` when an assertion fails -/
def checkSource (debugLevel : ℕ) (addr : SockAddrIn) (subnet : Bool) : List Ifaddrs → Option (Bool × List String)
  | [] => some (false, ["check_source: no match\n"])
  | ifp :: rest =>
    match ifp.addr, ifp.netmask with
    | some (.in4 ifaAddr), some netmask => do
      let addr1 := SockAddr.in4 addr
      -- both sides are masked in place; the list is a fresh copy, so nothing is kept for the next call
      let addr1 ← if subnet then sockaddrMask addr1 netmask else some addr1
      let ifaAddr' ← if subnet then sockaddrMask (.in4 ifaAddr) netmask else some (SockAddr.in4 ifaAddr)
      let log := matchLog debugLevel ifp.name addr1 ifaAddr'
      if ← sockaddrMatch addr1 ifaAddr' false then
        some (true,
          log ++ ["check_source: connecting " ++ inetNtoa addr.addr ++ " matched against " ++ ifp.name ++ "\n"])
      else
        let r ← checkSource debugLevel addr subnet rest
        some (r.1, log ++ r.2)
    -- a missing address or netmask, or another family
    | _, _ => checkSource debugLevel addr subnet rest

/-! ## Settings -/

/-- what the process is after the forks of `main`: a SERVER or a CLIENT -/
inductive Mode where
  | server
  | client
deriving DecidableEq

/-- the settings the handling of connections reads: `mode`, `globals::net_access` (the number of -N options),
`globals::debug_level`, `globals::is_rendezvous`, and the addresses `pPeeraddr` and `pPeerRzvLocal` -/
structure Globals where
  mode : Mode
  netAccess : ℕ
  debugLevel : ℕ
  isRendezvous : Bool
  peeraddr : SockAddrIn
  peerRzvLocal : SockAddrIn
deriving DecidableEq

/-! ## What the check is for -/

/-- an AF_INET interface with a netmask has the address `a` -/
def OwnAddress (ifap : List Ifaddrs) (a : Bytes 4) : Prop :=
  ∃ ifp ∈ ifap, ∃ b m, ifp.addr = some (.in4 b) ∧ ifp.netmask = some m ∧ ∀ k, b.addr.get k = a.get k

/-- an AF_INET interface's address and `a` agree on the bits of its netmask -/
def OnSubnet (ifap : List Ifaddrs) (a : Bytes 4) : Prop :=
  ∃ ifp ∈ ifap, ∃ b m, ifp.addr = some (.in4 b) ∧ ifp.netmask = some (.in4 m) ∧
    ∀ k, b.addr.get k &&& m.addr.get k = a.get k &&& m.addr.get k

/-- a netmask has the family of its address -/
def Ifaddrs.SameFamily (ifp : Ifaddrs) : Prop :=
  ∀ b m, ifp.addr = some (.in4 b) → ifp.netmask = some m → ∃ q, m = .in4 q

/-- the entry `ifp` lets `a` pass -/
def Passes (subnet : Bool) (a : Bytes 4) (ifp : Ifaddrs) : Prop :=
  ∃ b m, ifp.addr = some (.in4 b) ∧ ifp.netmask = some (.in4 m) ∧
    if subnet then a.mask m.addr = b.addr.mask m.addr else a = b.addr

/-- **One entry.** The loop stops at an entry that lets the address pass and goes on at every other one. -/
theorem checkSource_cons (debugLevel : ℕ) (addr : SockAddrIn) (subnet : Bool) (ifp : Ifaddrs) (rest : List Ifaddrs)
    (hf : ifp.SameFamily) :
    (Passes subnet addr.addr ifp ∧ ∃ log, checkSource debugLevel addr subnet (ifp :: rest) = some (true, log)) ∨
    (¬ Passes subnet addr.addr ifp ∧ ∃ log, checkSource debugLevel addr subnet (ifp :: rest) =
      (checkSource debugLevel addr subnet rest).map fun r => (r.1, log ++ r.2)) := by
  have hskip : (∀ b m, ifp.addr = some (.in4 b) → ifp.netmask = some m → False) →
      ¬ Passes subnet addr.addr ifp ∧ ∃ log, checkSource debugLevel addr subnet (ifp :: rest) =
        (checkSource debugLevel addr subnet rest).map fun r => (r.1, log ++ r.2) := by
    intro hno
    refine ⟨fun ⟨b, m, hb, hm, _⟩ => hno b _ hb hm, [], ?_⟩
    rw [checkSource]
    · simp
  rcases hfa : ifp.addr with _ | (b | ⟨p, b⟩ | fam)
  · exact Or.inr (hskip (by simp [hfa]))
  · rcases hma : ifp.netmask with _ | m
    · exact Or.inr (hskip (by simp [hma]))
    · obtain ⟨q, rfl⟩ := hf b m hfa hma
      cases subnet with
      | false =>
        by_cases h : addr.addr = b.addr
        · exact Or.inl ⟨⟨b, q, hfa, hma, by simpa using h⟩, _, by simp [checkSource, hfa, hma, sockaddrMatch, h]; rfl⟩
        · refine Or.inr ⟨?_, matchLog debugLevel ifp.name (.in4 addr) (.in4 b), ?_⟩
          · rintro ⟨b', q', hb', -, h'⟩
            rw [hfa] at hb'; cases hb'
            exact h (by simpa using h')
          · have hv : addr.addr.1 ≠ b.addr.1 := fun e => h (Subtype.ext e)
            simp [checkSource, hfa, hma, sockaddrMatch, hv, Option.map_eq_bind]
      | true =>
        by_cases h : addr.addr.mask q.addr = b.addr.mask q.addr
        · exact Or.inl ⟨⟨b, q, hfa, hma, by simpa using h⟩, _,
            by simp [checkSource, hfa, hma, sockaddrMask, sockaddrMatch, h]; rfl⟩
        · refine Or.inr ⟨?_, matchLog debugLevel ifp.name (.in4 { addr with addr := addr.addr.mask q.addr })
            (.in4 { b with addr := b.addr.mask q.addr }), ?_⟩
          · rintro ⟨b', q', hb', hq', h'⟩
            rw [hfa] at hb'; rw [hma] at hq'; cases hb'; cases hq'
            exact h (by simpa using h')
          · have hv : (addr.addr.mask q.addr).1 ≠ (b.addr.mask q.addr).1 := fun e => h (Subtype.ext e)
            simp [checkSource, hfa, hma, sockaddrMask, sockaddrMatch, hv, Option.map_eq_bind]
  · exact Or.inr (hskip (by simp [hfa]))
  · exact Or.inr (hskip (by simp [hfa]))

/-- **The check decides the existence of a matching interface**, over a list of any length and order. -/
theorem checkSource_passes (debugLevel : ℕ) (addr : SockAddrIn) (subnet : Bool) (ifap : List Ifaddrs)
    (hf : ∀ ifp ∈ ifap, ifp.SameFamily) :
    ∃ r log, checkSource debugLevel addr subnet ifap = some (r, log) ∧
      (r = true ↔ ∃ ifp ∈ ifap, Passes subnet addr.addr ifp) := by
  induction ifap with
  | nil => exact ⟨false, _, rfl, by simp⟩
  | cons ifp rest ih =>
    obtain ⟨r, log, hr, hiff⟩ := ih fun i hi => hf i (List.mem_cons_of_mem _ hi)
    rcases checkSource_cons debugLevel addr subnet ifp rest (hf ifp List.mem_cons_self) with
      ⟨hp, l, hl⟩ | ⟨hp, l, hl⟩
    · exact ⟨true, l, hl, by simp [hp]⟩
    · exact ⟨r, l ++ log, by rw [hl, hr]; rfl, by simp [hp, hiff]⟩

theorem exists_passes_own {ifap : List Ifaddrs} (hf : ∀ ifp ∈ ifap, ifp.SameFamily) (a : Bytes 4) :
    (∃ ifp ∈ ifap, Passes false a ifp) ↔ OwnAddress ifap a := by
  constructor
  · rintro ⟨ifp, hi, b, m, hb, hm, h⟩
    simp only [Bool.false_eq_true, if_false] at h
    exact ⟨ifp, hi, b, _, hb, hm, fun k => by rw [h]⟩
  · rintro ⟨ifp, hi, b, m, hb, hm, h⟩
    obtain ⟨q, rfl⟩ := hf ifp hi b m hb hm
    exact ⟨ifp, hi, b, q, hb, hm, by simpa using (Bytes.ext_get h).symm⟩

theorem exists_passes_subnet (ifap : List Ifaddrs) (a : Bytes 4) :
    (∃ ifp ∈ ifap, Passes true a ifp) ↔ OnSubnet ifap a := by
  constructor
  · rintro ⟨ifp, hi, b, m, hb, hm, h⟩
    simp only [if_true, Bytes.mask_eq_mask] at h
    exact ⟨ifp, hi, b, m, hb, hm, fun k => (h k).symm⟩
  · rintro ⟨ifp, hi, b, m, hb, hm, h⟩
    refine ⟨ifp, hi, b, m, hb, hm, ?_⟩
    simp only [if_true, Bytes.mask_eq_mask]
    exact fun k => (h k).symm

/-- **check_source is sound and complete**: with `subnet` it accepts exactly the addresses on an attached subnet,
without it exactly the interfaces' own addresses. The port and the debug level play no part. -/
theorem checkSource_spec (debugLevel : ℕ) (addr : SockAddrIn) (subnet : Bool) (ifap : List Ifaddrs)
    (hf : ∀ ifp ∈ ifap, ifp.SameFamily) :
    ∃ r log, checkSource debugLevel addr subnet ifap = some (r, log) ∧
      (r = true ↔ if subnet then OnSubnet ifap addr.addr else OwnAddress ifap addr.addr) := by
  obtain ⟨r, log, hr, hiff⟩ := checkSource_passes debugLevel addr subnet ifap hf
  refine ⟨r, log, hr, hiff.trans ?_⟩
  cases subnet with
  | false => simpa using exists_passes_own hf addr.addr
  | true => simpa using exists_passes_subnet ifap addr.addr

end UdtGate
