/-
`sockaddr_match` and `sockaddr_mask` of `lib/utils.cpp` on addresses as they lie in memory.

Both functions cast their arguments to the structure of the address's family, whose fields lie at other places for
AF_INET6 than for AF_INET. An address here is its family with the bytes behind `sa_family`; a `Layout` says where the
fields are.

- `view`: the address that `Access` speaks about. `view_sockaddrMask` and `sockaddrMatch_view` say that its functions
  are these ones, seen through it.
- `mask_changes`, `mask_mask`: only address bytes are changed, and only once.
- `subnet_iff`: when the comparison is the one it is meant to be.
-/
import UdtGate.Access
import UdtGate.Core.Memory

namespace UdtGate

open UdtGate.Core

namespace Sockaddr

/-! ## Layouts -/

/-- where the port and the address lie, counted from behind `sa_family` -/
structure Layout where
  size : ℕ
  port : ℕ
  addr : ℕ
  addrLen : ℕ
  port_le : port + 2 ≤ size
  addr_le : addr + addrLen ≤ size

/-- `sockaddr_in`: the port, the address, eight bytes of padding -/
def sockaddrIn : Layout := ⟨14, 0, 2, 4, by decide, by decide⟩

/-- `sockaddr_in6`: the port, `sin6_flowinfo`, the address, `sin6_scope_id` -/
def sockaddrIn6 : Layout := ⟨26, 0, 6, 16, by decide, by decide⟩

namespace Layout

variable (l : Layout)

def portOf (d : Bytes l.size) : Bytes 2 := ⟨load d.1 l.port 2, length_load (d.2.symm ▸ l.port_le)⟩

def addrOf (d : Bytes l.size) : Bytes l.addrLen := ⟨load d.1 l.addr l.addrLen, length_load (d.2.symm ▸ l.addr_le)⟩

/-- `memand` on the address -/
def mask (d m : Bytes l.size) : Bytes l.size :=
  ⟨store d.1 l.addr ((l.addrOf d).mask (l.addrOf m)).1,
    (length_store (by rw [((l.addrOf d).mask (l.addrOf m)).2, d.2]; exact l.addr_le)).trans d.2⟩

/-- the comparison for one family. With `portcmp` the code compares the port of the first address with itself. -/
def matchAt (d1 d2 : Bytes l.size) (portcmp : Bool) : Bool :=
  if portcmp && l.portOf d1 != l.portOf d1 then false else l.addrOf d1 == l.addrOf d2

end Layout

/-! ## Addresses -/

inductive Family where
  | inet
  | inet6
  | other (family : ℕ)
deriving DecidableEq

/-- an address of another family has the `sa_data` of `sockaddr` -/
def Family.layout : Family → Layout
  | .inet => sockaddrIn
  | .inet6 => sockaddrIn6
  | .other _ => ⟨14, 0, 0, 0, by decide, by decide⟩

structure RawAddr where
  family : Family
  data : Bytes family.layout.size

/-- `none` when the assertion fails -/
def sockaddrMatch (addr1 addr2 : RawAddr) (portcmp : Bool) : Option Bool :=
  match addr1, addr2 with
  | ⟨.inet, a⟩, ⟨.inet, b⟩ => some (sockaddrIn.matchAt a b portcmp)
  | ⟨.inet6, a⟩, ⟨.inet6, b⟩ => some (sockaddrIn6.matchAt a b portcmp)
  | _, _ => none

/-- the first address after the call -/
def sockaddrMask (addr1 netmask : RawAddr) : Option RawAddr :=
  match addr1, netmask with
  | ⟨.inet, a⟩, ⟨.inet, m⟩ => some ⟨.inet, sockaddrIn.mask a m⟩
  | ⟨.inet6, a⟩, ⟨.inet6, m⟩ => some ⟨.inet6, sockaddrIn6.mask a m⟩
  | _, _ => none

/-! ## One layout -/

variable {l : Layout} (a b m : Bytes l.size)

/-- the masked address has the length of the address -/
theorem length_masked : ((l.addrOf a).mask (l.addrOf m)).1.length = l.addrLen := ((l.addrOf a).mask (l.addrOf m)).2

/-- and fits where the address is -/
theorem masked_fits : l.addr + ((l.addrOf a).mask (l.addrOf m)).1.length ≤ a.1.length := by
  rw [length_masked, a.2]
  exact l.addr_le

theorem addrOf_mask : l.addrOf (l.mask a m) = (l.addrOf a).mask (l.addrOf m) := by
  have hload := load_store (masked_fits a m)
  rw [length_masked] at hload
  exact Subtype.ext hload

/-- **Frame condition.** The bytes outside the address are left alone. -/
theorem mask_changes {i : ℕ} (h : ¬ (l.addr ≤ i ∧ i < l.addr + l.addrLen)) : (l.mask a m).1[i]? = a.1[i]? := by
  have hstore := getElem?_store (masked_fits a m) i
  rw [length_masked, if_neg h] at hstore
  exact hstore

/-- masking again changes nothing -/
theorem mask_mask : l.mask (l.mask a m) m = l.mask a m := by
  apply Subtype.ext
  calc (l.mask (l.mask a m) m).1
      = store (l.mask a m).1 l.addr ((l.addrOf (l.mask a m)).mask (l.addrOf m)).1 := rfl
    _ = store (l.mask a m).1 l.addr ((l.addrOf a).mask (l.addrOf m)).1 := by rw [addrOf_mask, Bytes.mask_mask]
    _ = store a.1 l.addr ((l.addrOf a).mask (l.addrOf m)).1 :=
      @store_overwrite _ a.1 [] _ _ l.addr (masked_fits a m) le_rfl

/-- the addresses of `a` and `b` agree on the bits set in the netmask -/
def Agree : Prop := ∀ k, (l.addrOf a).get k &&& (l.addrOf m).get k = (l.addrOf b).get k &&& (l.addrOf m).get k

/-- **What the comparison of masked addresses is.** The ports play no part in it. -/
theorem matchAt_mask (portcmp : Bool) : l.matchAt (l.mask a m) (l.mask b m) portcmp = true ↔ Agree a b m := by
  have hself : (portcmp && l.portOf (l.mask a m) != l.portOf (l.mask a m)) = false := by
    rw [bne_self_eq_false, Bool.and_false]
  rw [Layout.matchAt, hself, if_neg Bool.false_ne_true, beq_iff_eq, addrOf_mask, addrOf_mask, Bytes.mask_eq_mask, Agree]

/-! ## Both families -/

variable {f : Family}

theorem sockaddrMask_eq (hf : f = .inet ∨ f = .inet6) (a m : Bytes f.layout.size) :
    sockaddrMask ⟨f, a⟩ ⟨f, m⟩ = some ⟨f, f.layout.mask a m⟩ := by
  rcases hf with rfl | rfl
  · rfl
  · rfl

theorem sockaddrMatch_eq (hf : f = .inet ∨ f = .inet6) (a b : Bytes f.layout.size) (portcmp : Bool) :
    sockaddrMatch ⟨f, a⟩ ⟨f, b⟩ portcmp = some (f.layout.matchAt a b portcmp) := by
  rcases hf with rfl | rfl
  · rfl
  · rfl

/-- what the two functions are for: on masked addresses the comparison is that of the masked bits and, if asked for, of
the ports; a mask is applied to the address alone, and once is enough -/
def Exact (f : Family) (a b m : Bytes f.layout.size) (portcmp : Bool) : Prop :=
  ∃ a' b' r, sockaddrMask ⟨f, a⟩ ⟨f, m⟩ = some ⟨f, a'⟩ ∧ sockaddrMask ⟨f, b⟩ ⟨f, m⟩ = some ⟨f, b'⟩ ∧
    sockaddrMatch ⟨f, a'⟩ ⟨f, b'⟩ portcmp = some r ∧
    (r = true ↔ Agree a b m ∧ (portcmp = true → f.layout.portOf a = f.layout.portOf b)) ∧
    sockaddrMask ⟨f, a'⟩ ⟨f, m⟩ = some ⟨f, a'⟩ ∧
    ∀ i, ¬ (f.layout.addr ≤ i ∧ i < f.layout.addr + f.layout.addrLen) → a'.1[i]? = a.1[i]?

/-- **When the comparison is exact.** It is wrong only about ports: they were to be compared, they differ, and the
masked addresses do not. -/
theorem subnet_iff (hf : f = .inet ∨ f = .inet6) (a b m : Bytes f.layout.size) (portcmp : Bool) :
    Exact f a b m portcmp ↔ portcmp = false ∨ f.layout.portOf a = f.layout.portOf b ∨ ¬ Agree a b m := by
  constructor
  · rintro ⟨a', b', r, ha, hb, hr, hiff, -, -⟩
    rw [sockaddrMask_eq hf] at ha hb
    cases ha
    cases hb
    rw [sockaddrMatch_eq hf] at hr
    cases hr
    rw [matchAt_mask] at hiff
    by_cases hagree : Agree a b m
    · cases portcmp with
      | false => exact Or.inl rfl
      | true => exact Or.inr (Or.inl ((hiff.1 hagree).2 rfl))
    · exact Or.inr (Or.inr hagree)
  · intro h
    refine ⟨_, _, _, sockaddrMask_eq hf a m, sockaddrMask_eq hf b m, sockaddrMatch_eq hf _ _ portcmp, ?_, ?_, ?_⟩
    · rw [matchAt_mask]
      refine ⟨fun hagree => ⟨hagree, ?_⟩, And.left⟩
      intro hport
      rcases h with hno | heq | hne
      · exact absurd hport (by rw [hno]; exact Bool.false_ne_true)
      · exact heq
      · exact absurd hagree hne
    · rw [sockaddrMask_eq hf, mask_mask]
    · exact fun i hi => mask_changes a m hi

/-- 10.0.0.1 port 80, with the eight bytes behind the address -/
def host80 : Bytes Family.inet.layout.size := ⟨[0, 80, 10, 0, 0, 1, 0, 0, 0, 0, 0, 0, 0, 0], rfl⟩

/-- the same address, port 81 -/
def host81 : Bytes Family.inet.layout.size := ⟨[0, 81, 10, 0, 0, 1, 0, 0, 0, 0, 0, 0, 0, 0], rfl⟩

/-- the network of 24 bits -/
def net24 : Bytes Family.inet.layout.size := ⟨[0, 0, 255, 255, 255, 0, 0, 0, 0, 0, 0, 0, 0, 0], rfl⟩

theorem subnet_iff_ports_alike : Exact .inet host80 host81 net24 false :=
  (subnet_iff (Or.inl rfl) host80 host81 net24 false).2 (Or.inl rfl)

/-- **Another port.** The comparison with ports finds that 10.0.0.1:80 is 10.0.0.1:81. -/
theorem other_port_matches :
    sockaddrMatch ⟨.inet, host80⟩ ⟨.inet, host81⟩ true = some true ∧ ¬ Exact .inet host80 host81 net24 true := by
  refine ⟨by decide, ?_⟩
  rintro ⟨a', b', r, ha, hb, hr, hiff, -, -⟩
  rw [sockaddrMask_eq (Or.inl rfl)] at ha hb
  cases ha
  cases hb
  cases hr
  exact absurd ((hiff.1 (by decide)).2 rfl) (by decide)

/-! ## What Access makes of it -/

/-- the address without the bytes that neither function looks at -/
def view (a : RawAddr) : SockAddr :=
  match a with
  | ⟨.inet, d⟩ => .in4 ⟨sockaddrIn.portOf d, sockaddrIn.addrOf d⟩
  | ⟨.inet6, d⟩ => .in6 (sockaddrIn6.portOf d) (sockaddrIn6.addrOf d)
  | ⟨.other family, _⟩ => .other family

/-- a port in front of the address is not masked -/
theorem portOf_mask (h : l.port + 2 ≤ l.addr) : l.portOf (l.mask a m) = l.portOf a := by
  apply Subtype.ext
  apply List.ext_getElem?
  intro i
  simp only [Layout.portOf, load, List.getElem?_take, List.getElem?_drop]
  split_ifs with hi
  · exact mask_changes a m (by omega)
  · rfl

theorem view_sockaddrMask (a m : RawAddr) :
    (sockaddrMask a m).map view = UdtGate.sockaddrMask (view a) (view m) := by
  obtain ⟨fa, a⟩ := a
  obtain ⟨fm, m⟩ := m
  cases fa <;> cases fm <;> try rfl
  · have hport := portOf_mask (l := sockaddrIn) a m (by decide)
    have haddr := addrOf_mask (l := sockaddrIn) a m
    exact congrArg some (congrArg₂ (fun p d => SockAddr.in4 ⟨p, d⟩) hport haddr)
  · have hport := portOf_mask (l := sockaddrIn6) a m (by decide)
    have haddr := addrOf_mask (l := sockaddrIn6) a m
    exact congrArg some (congrArg₂ (fun p d => SockAddr.in6 p d) hport haddr)

theorem sockaddrMatch_view (a b : RawAddr) (portcmp : Bool) :
    sockaddrMatch a b portcmp = UdtGate.sockaddrMatch (view a) (view b) portcmp := by
  obtain ⟨fa, a⟩ := a
  obtain ⟨fb, b⟩ := b
  cases fa <;> cases fb <;> try rfl
  · simp only [sockaddrMatch, view, UdtGate.sockaddrMatch, Layout.matchAt]
    split_ifs <;> rfl
  · simp only [sockaddrMatch, view, UdtGate.sockaddrMatch, Layout.matchAt]
    split_ifs <;> rfl

end Sockaddr

end UdtGate
