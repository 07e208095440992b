/-
`getifaddrs` and `freeifaddrs` of `lib/getifaddrs.cpp`, for platforms whose C library has none.

`getifaddrs` asks the kernel for its interfaces and builds a linked list of them, from the last one to the first. Each
entry is a struct and up to three blocks behind its pointers. Memory may run out at any request, and any of the `ioctl`s
may fail. `freeifaddrs` takes the list apart again, recursively.

- `freeifaddrs_blocks`: it frees exactly the blocks of the list;
- `listed_or_failed`: what is allocated and open behind `getifaddrs`, whatever the kernel and the allocator do;
- `faults_iff`: when it reads outside of its buffer.
-/
import UdtGate.Access
import UdtGate.Core.Heap
import UdtGate.Core.Cstring

namespace UdtGate

open UdtGate.Core UdtGate.Core.Heap

namespace Getifaddrs

/-! ## Model -/

/-- `struct ifaddrs`, its pointers as addresses -/
structure Node where
  next : ℕ
  name : ℕ
  flags : ℕ
  addr : ℕ
  netmask : ℕ
  dstaddr : ℕ
deriving DecidableEq

inductive Block where
  | node (n : Node)
  | name (s : String)
  | sockaddr (a : SockAddr)
deriving DecidableEq

/-- the platform, and what its calls answer; `none` is a call that fails -/
structure Kernel where
  /-- `sizeof(struct ifreq)`, and the offset of `ifr_addr` in it -/
  ifreqSize : ℕ
  addrOffset : ℕ
  /-- what `sockaddr_dup` copies -/
  socklen : SockAddr → ℕ
  /-- the descriptor that `socket` returns -/
  socket : Option ℤ
  /-- SIOCGIFCONF: the names of the interfaces -/
  conf : Option (List String)
  /-- SIOCGIFFLAGS, SIOCGIFADDR and SIOCGIFNETMASK, for the interface at an index -/
  flags : ℕ → Option ℕ
  addr : ℕ → Option SockAddr
  netmask : ℕ → Option SockAddr

/-- `sizeof(buff)` -/
def BUFF_SIZE : ℕ := 8192

/-- `memcpy` from `&ifr[i].ifr_addr` stays inside of `buff` -/
def Kernel.Inside (K : Kernel) (i : ℕ) (a : SockAddr) : Prop := i * K.ifreqSize + K.addrOffset + K.socklen a ≤ BUFF_SIZE

instance (K : Kernel) (i : ℕ) (a : SockAddr) : Decidable (K.Inside i a) := inferInstanceAs (Decidable (_ ≤ _))

def node (h : Heap Block) (p : ℕ) : Except Fault Node :=
  match h.lookup p with
  | some (.node n) => .ok n
  | _ => .error .read

def release (h : Heap Block) (p : ℕ) : Except Fault (Heap Block) :=
  match h.free p with
  | some h => .ok h
  | none => .error .write

/-- `freeifaddrs`, for a list of less than `fuel` entries -/
def freeifaddrs : ℕ → Heap Block → ℕ → Except Fault (Heap Block)
  | 0, _, _ => .error .read
  | fuel + 1, h, ifp =>
    if ifp = 0 then .ok h
    else do
      let h ← release h (← node h ifp).name
      let h ← release h (← node h ifp).addr
      let h ← release h (← node h ifp).netmask
      let h ← release h (← node h ifp).dstaddr
      let h ← freeifaddrs fuel h (← node h ifp).next
      release h ifp

/-- the memory, and the variables of `getifaddrs` -/
structure State where
  heap : Heap Block
  /-- requests for memory so far -/
  requests : ℕ
  ifap : ℕ
  lastif : ℕ

def State.alloc (A : Allocator Block) (s : State) (b : Block) : ℕ × State :=
  ((A.alloc s.requests s.heap b).1, { s with heap := (A.alloc s.requests s.heap b).2, requests := s.requests + 1 })

/-- `sockaddr_dup`, behind an `ioctl` that may have failed -/
def sockaddrDup (K : Kernel) (A : Allocator Block) (i : ℕ) (s : State) : Option SockAddr → Except Fault (ℕ × State)
  | none => .ok (0, s)
  | some sa =>
    let r := s.alloc A (.sockaddr sa)
    if r.1 = 0 then .ok r else if K.Inside i sa then .ok r else .error .read

/-- the entry of one interface. Its struct is written when the rest is there; nothing looks at it before -/
def entry (K : Kernel) (A : Allocator Block) (name : String) (flags i : ℕ) (s : State) : Except Fault (ℕ × State) := do
  let curif := s.alloc A (.node ⟨0, 0, 0, 0, 0, 0⟩)
  if curif.1 = 0 then .error .write
  else
    let ifaName := curif.2.alloc A (.name name)
    let ifaAddr ← sockaddrDup K A i ifaName.2 (K.addr i)
    let ifaNetmask ← sockaddrDup K A i ifaAddr.2 (K.netmask i)
    let n : Node := ⟨0, ifaName.1, flags, ifaAddr.1, ifaNetmask.1, 0⟩
    return (curif.1, { ifaNetmask.2 with heap := ifaNetmask.2.heap.insert curif.1 (.node n) })

/-- `lastif->ifa_next = curif` -/
def link (curif : ℕ) (s : State) : Except Fault State :=
  if s.lastif = 0 then .ok { s with ifap := curif, lastif := curif }
  else do
    let n ← node s.heap s.lastif
    return { s with heap := s.heap.insert s.lastif (.node { n with next := curif }), lastif := curif }

/-- the loop, with `i` interfaces still to go, and what the function returns -/
def loop (K : Kernel) (A : Allocator Block) (names : List String) : ℕ → State → Except Fault (State × ℤ)
  | 0, s => .ok (s, 0)
  | i + 1, s =>
    match K.flags i with
    | none => do
      let heap ← freeifaddrs (names.length + 1) s.heap s.ifap
      return ({ s with heap := heap }, -1)
    | some flags => do
      let r ← entry K A (names.getD i "") flags i s
      let s ← link r.1 r.2
      loop K A names i s

/-- behind `getifaddrs`: `fd` is the descriptor it has left open -/
structure Result where
  rc : ℤ
  ifap : ℕ
  heap : Heap Block
  requests : ℕ
  fd : Option ℤ

def getifaddrs (K : Kernel) (A : Allocator Block) (h : Heap Block) (requests : ℕ) : Except Fault Result :=
  match K.socket, K.conf with
  | none, _ => .ok ⟨-1, 0, h, requests, none⟩
  | some _, none => .ok ⟨-1, 0, h, requests, none⟩
  | some fd, some names => do
    let r ← loop K A names names.length ⟨h, requests, 0, 0⟩
    -- `close(fd)` stands behind the loop, and the `return` in it goes past it
    return ⟨r.2, r.1.ifap, r.1.heap, r.1.requests, if r.2 = 0 then none else some fd⟩

/-! ## Entries -/

/-- an entry of the list, with what its pointers point to -/
structure Cell where
  ptr : ℕ
  flags : ℕ
  name : Option (ℕ × String)
  addr : Option (ℕ × SockAddr)
  netmask : Option (ℕ × SockAddr)

/-- its struct, when it links to `next` -/
def Cell.node (c : Cell) (next : ℕ) : Node := ⟨next, ref c.name, c.flags, ref c.addr, ref c.netmask, 0⟩

/-- its blocks, the last one allocated first -/
def Cell.blocks (c : Cell) (next : ℕ) : List (ℕ × Block) :=
  owned .sockaddr c.netmask ++ (owned .sockaddr c.addr ++ (owned .name c.name ++ [(c.ptr, .node (c.node next))]))

/-- the blocks of a list that ends at `e` -/
abbrev blocks (e : ℕ) (cells : List Cell) : List (ℕ × Block) := chain Cell.ptr Cell.blocks e cells

/-- its address -/
abbrev first (cells : List Cell) : ℕ := headOr Cell.ptr 0 cells

variable {K : Kernel} {A : Allocator Block} {h h₀ : Heap Block} {s t : State} {c : Cell} {cells : List Cell}
  {bs cs : List (ℕ × Block)}

/-! ## freeifaddrs -/

theorem node_of_mem {p : ℕ} {n : Node} (ha : Adds h₀ bs h) (hmem : (p, Block.node n) ∈ bs) : node h p = .ok n := by
  have hp : h.lookup p = some (.node n) := ha.holds (p, .node n) hmem
  rw [node, hp]

theorem release_owned {α : Type} {f : α → Block} {x : Option (ℕ × α)} (ha : Adds h₀ (bs ++ (owned f x ++ cs)) h) :
    ∃ h', release h (ref x) = .ok h' ∧ Adds h₀ (bs ++ cs) h' := by
  obtain ⟨h', hfree, ha'⟩ := ha.free_owned
  exact ⟨h', by rw [release, hfree], ha'⟩

/-- the blocks behind the pointers of an entry are freed, and its struct is still there in between -/
theorem release_fields {next : ℕ} (ha : Adds h₀ (c.blocks next ++ bs) h) :
    ∃ h1 h2 h3, release h (ref c.name) = .ok h1 ∧ release h1 (ref c.addr) = .ok h2 ∧
      release h2 (ref c.netmask) = .ok h3 ∧ node h c.ptr = .ok (c.node next) ∧ node h1 c.ptr = .ok (c.node next) ∧
      node h2 c.ptr = .ok (c.node next) ∧ Adds h₀ ((c.ptr, .node (c.node next)) :: bs) h3 := by
  have ha0 : Adds h₀ ((owned .sockaddr c.netmask ++ owned .sockaddr c.addr) ++ (owned .name c.name ++
      (c.ptr, .node (c.node next)) :: bs)) h := by
    simpa only [Cell.blocks, List.append_assoc, List.singleton_append] using ha
  obtain ⟨h1, hr1, ha1⟩ := release_owned ha0
  have hn1 := node_of_mem ha1 (List.mem_append_right _ List.mem_cons_self)
  rw [List.append_assoc] at ha1
  obtain ⟨h2, hr2, ha2⟩ := release_owned ha1
  have hn2 := node_of_mem ha2 (List.mem_append_right _ List.mem_cons_self)
  have ha2' : Adds h₀ ([] ++ (owned .sockaddr c.netmask ++ (c.ptr, .node (c.node next)) :: bs)) h2 := ha2
  obtain ⟨h3, hr3, ha3⟩ := release_owned ha2'
  have hn0 := node_of_mem ha0 (List.mem_append_right _ (List.mem_append_right _ List.mem_cons_self))
  exact ⟨h1, h2, h3, hr1, hr2, hr3, hn0, hn1, hn2, ha3⟩

/-- **freeifaddrs frees the blocks of the list and no others.** -/
theorem freeifaddrs_blocks {fuel : ℕ} (ha : Adds h₀ (blocks 0 cells ++ bs) h) (hfuel : cells.length < fuel) :
    ∃ h', freeifaddrs fuel h (first cells) = .ok h' ∧ Adds h₀ bs h' := by
  induction cells generalizing fuel h bs with
  | nil =>
    obtain ⟨fuel, rfl⟩ := Nat.exists_eq_succ_of_ne_zero (Nat.ne_of_gt hfuel)
    exact ⟨h, if_pos rfl, ha⟩
  | cons c cells ih =>
    obtain ⟨fuel, rfl⟩ := Nat.exists_eq_succ_of_ne_zero (Nat.ne_of_gt (Nat.zero_lt_of_lt hfuel))
    have hcell : Adds h₀ (c.blocks (first cells) ++ (blocks 0 cells ++ bs)) h := by
      rw [← List.append_assoc]
      exact ha
    obtain ⟨h1, h2, h3, hr1, hr2, hr3, hn0, hn1, hn2, ha3⟩ := release_fields hcell
    have hn3 := node_of_mem ha3 List.mem_cons_self
    have hptr : c.ptr ≠ 0 := (ha3.fresh _ List.mem_cons_self).1
    -- the rest of the list, behind which only the struct is left
    obtain ⟨h4, hfree, ha4⟩ := ih (ha3.perm List.perm_middle.symm) (Nat.lt_of_succ_lt_succ hfuel)
    rw [← List.nil_append (_ :: bs)] at ha4
    obtain ⟨h5, hlast, ha5⟩ := ha4.free
    refine ⟨h5, ?_, ha5⟩
    have hdst : release h3 0 = .ok h3 := rfl
    have hrel : release h4 c.ptr = .ok h5 := by rw [release, hlast]
    simp only [freeifaddrs, first, headOr, if_neg hptr, hn0, hn1, hn2, hn3, hr1, hr2, hr3, hdst, Cell.node, bind,
      Except.bind] at hfree ⊢
    rw [hfree]
    exact hrel

/-! ## The list that is built -/

/-- the entry shows the interface at `i`, as far as there was memory for it -/
structure Shows (K : Kernel) (A : Allocator Block) (names : List String) (i : ℕ) (c : Cell) : Prop where
  flags : K.flags i = some c.flags
  name : ∀ x, c.name = some x → x.2 = names.getD i ""
  addr : ∀ x, c.addr = some x → K.addr i = some x.2
  netmask : ∀ x, c.netmask = some x → K.netmask i = some x.2
  full : A.Reliable → c.name ≠ none ∧ (c.addr = none → K.addr i = none) ∧ (c.netmask = none → K.netmask i = none)

theorem adds_alloc {α : Type} (ha : Adds h₀ bs s.heap) (A : Allocator Block) (f : α → Block) (a : α) :
    ∃ x : Option (ℕ × α), (s.alloc A (f a)).1 = ref x ∧ (∀ y, x = some y → y.2 = a) ∧ (A.Reliable → x ≠ none) ∧
      Adds h₀ (owned f x ++ bs) (s.alloc A (f a)).2.heap := ha.request A s.requests f a

/-- `sockaddr_dup` -/
theorem adds_sockaddrDup {i p : ℕ} {sa : Option SockAddr} (ha : Adds h₀ bs s.heap)
    (hs : sockaddrDup K A i s sa = .ok (p, t)) :
    ∃ x, p = ref x ∧ (∀ y, x = some y → sa = some y.2) ∧ (A.Reliable → x = none → sa = none) ∧
      Adds h₀ (owned .sockaddr x ++ bs) t.heap ∧ t.ifap = s.ifap ∧ t.lastif = s.lastif := by
  cases sa with
  | none =>
    obtain ⟨rfl, rfl⟩ := Prod.mk.inj (Except.ok.inj hs)
    exact ⟨none, rfl, nofun, fun _ _ => rfl, ha, rfl, rfl⟩
  | some a =>
    have hr : s.alloc A (.sockaddr a) = (p, t) := by
      simp only [sockaddrDup] at hs
      split_ifs at hs
      · exact Except.ok.inj hs
      · exact Except.ok.inj hs
    obtain ⟨rfl, rfl⟩ := Prod.mk.inj hr
    obtain ⟨x, hx, hval, hfull, ha'⟩ := adds_alloc ha A .sockaddr a
    refine ⟨x, hx, ?_, ?_, ha', rfl, rfl⟩
    · intro y hy
      rw [hval y hy]
    · intro hA hnone
      exact absurd hnone (hfull hA)

/-- **One entry.** -/
theorem adds_entry {names : List String} {flags i p : ℕ} (ha : Adds h₀ bs s.heap) (hflags : K.flags i = some flags)
    (hs : entry K A (names.getD i "") flags i s = .ok (p, t)) :
    ∃ c, c.ptr = p ∧ Shows K A names i c ∧ Adds h₀ (c.blocks 0 ++ bs) t.heap ∧ t.ifap = s.ifap ∧
      t.lastif = s.lastif := by
  unfold entry at hs
  dsimp only at hs
  split_ifs at hs with hcurif
  obtain ⟨⟨a, s1⟩, haddr, hs⟩ := bind_eq_ok.1 hs
  obtain ⟨⟨m, s2⟩, hmask, hs⟩ := bind_eq_ok.1 hs
  obtain ⟨rfl, rfl⟩ := Prod.mk.inj (Except.ok.inj hs)
  obtain ⟨x0, hx0, hval0, -, ha0⟩ := adds_alloc ha A .node ⟨0, 0, 0, 0, 0, 0⟩
  obtain ⟨x1, hx1, hval1, hfull1, ha1⟩ := adds_alloc ha0 A .name (names.getD i "")
  obtain ⟨x2, hx2, hval2, hfull2, ha2, hi2, hl2⟩ := adds_sockaddrDup ha1 haddr
  obtain ⟨x3, hx3, hval3, hfull3, ha3, hi3, hl3⟩ := adds_sockaddrDup ha2 hmask
  cases x0 with
  | none => exact absurd hx0 hcurif
  | some y =>
    have hptr : y.1 = (s.alloc A (.node ⟨0, 0, 0, 0, 0, 0⟩)).1 := hx0.symm
    refine ⟨⟨y.1, flags, x1, x2, x3⟩, hptr, ?_, ?_, hi3.trans hi2, hl3.trans hl2⟩
    · exact ⟨hflags, hval1, hval2, hval3, fun hA => ⟨hfull1 hA, hfull2 hA, hfull3 hA⟩⟩
    · -- the struct is written where it was allocated
      have hput : Adds h₀ ((owned .sockaddr x3 ++ (owned .sockaddr x2 ++ owned .name x1)) ++ (y.1, .node y.2) :: bs)
          s2.heap := by
        rw [List.append_assoc, List.append_assoc]
        exact ha3
      have hstored := hput.store (.node ⟨0, ref x1, flags, ref x2, ref x3, 0⟩)
      rw [← hx1, ← hx2, ← hx3, hptr] at hstored
      simpa only [Cell.blocks, Cell.node, List.append_assoc, List.singleton_append, hptr, ← hx1, ← hx2, ← hx3] using
        hstored

/-- behind the interfaces `is` -/
structure Built (K : Kernel) (A : Allocator Block) (names : List String) (h₀ : Heap Block) (is : List ℕ)
    (cells : List Cell) (s : State) : Prop where
  adds : Adds h₀ (blocks 0 cells) s.heap
  ifap : s.ifap = first cells
  lastif : s.lastif = cells.getLast?.elim 0 Cell.ptr
  shows : List.Forall₂ (Shows K A names) is cells

/-- the blocks of an entry without its struct -/
def Cell.fields (c : Cell) : List (ℕ × Block) :=
  owned .sockaddr c.netmask ++ (owned .sockaddr c.addr ++ owned .name c.name)

theorem Cell.blocks_eq (c : Cell) (next : ℕ) : c.blocks next = c.fields ++ [(c.ptr, .node (c.node next))] := by
  simp only [blocks, fields, List.append_assoc]

theorem blocks_snoc (e : ℕ) (cells : List Cell) (c : Cell) :
    blocks e (cells ++ [c]) = blocks c.ptr cells ++ c.blocks e := by
  rw [blocks, chain_append]
  exact congrArg _ (List.append_nil _)

/-- **Linking.** A new entry goes behind the last one, and nothing else changes. -/
theorem link_spec (ha : Adds h₀ (c.blocks 0 ++ blocks 0 cells) s.heap) (hifap : s.ifap = first cells)
    (hlast : s.lastif = cells.getLast?.elim 0 Cell.ptr) :
    ∃ t, link c.ptr s = .ok t ∧ Adds h₀ (blocks 0 (cells ++ [c])) t.heap ∧ t.ifap = first (cells ++ [c]) ∧
      t.lastif = c.ptr := by
  rcases List.eq_nil_or_concat' cells with rfl | ⟨ds, d, rfl⟩
  · exact ⟨{ s with ifap := c.ptr, lastif := c.ptr }, if_pos hlast, ha, rfl, rfl⟩
  · rw [List.getLast?_concat] at hlast
    rw [blocks_snoc, Cell.blocks_eq d, ← List.append_assoc, ← List.append_assoc] at ha
    have hptr := ha.ne_zero
    have hread := node_of_mem ha (List.mem_append_right _ List.mem_cons_self)
    have hnext := ha.store (.node (d.node c.ptr))
    refine ⟨{ s with heap := s.heap.insert d.ptr (.node (d.node c.ptr)), lastif := c.ptr }, ?_, ?_, ?_,
      rfl⟩
    · have hlast' : s.lastif = d.ptr := hlast
      simp only [link, if_neg hptr, hlast', hread, bind, Except.bind, pure, Except.pure]
      rfl
    · rw [blocks_snoc, blocks_snoc, Cell.blocks_eq d]
      refine hnext.perm ?_
      rw [List.append_assoc, List.append_assoc]
      exact List.perm_append_comm
    · show s.ifap = _
      rw [hifap, first, first, headOr_append, headOr_append]
      cases ds with
      | nil => rfl
      | cons d ds => rfl

/-- one round -/
theorem Built.round {names : List String} {is : List ℕ} {flags i : ℕ} {r : ℕ × State}
    (hb : Built K A names h₀ is cells s) (hflags : K.flags i = some flags)
    (hentry : entry K A (names.getD i "") flags i s = .ok r) :
    ∃ c t, link r.1 r.2 = .ok t ∧ Built K A names h₀ (is ++ [i]) (cells ++ [c]) t := by
  obtain ⟨p, s1⟩ := r
  obtain ⟨c, rfl, hshows, ha, hi, hl⟩ := adds_entry hb.adds hflags hentry
  obtain ⟨t, hlink, ha2, hi2, hl2⟩ := link_spec ha (hi.trans hb.ifap) (hl.trans hb.lastif)
  exact ⟨c, t, hlink, ha2, hi2, by rw [List.getLast?_concat, hl2]; rfl, List.rel_append hb.shows (.cons hshows .nil)⟩

/-- **The loop.** Behind it is the list of all interfaces, from the last one to the first; or SIOCGIFFLAGS has failed,
and nothing is left of it. -/
theorem loop_spec {names : List String} {is : List ℕ} {i : ℕ} {rc : ℤ} (hlen : is.length + i = names.length)
    (hb : Built K A names h₀ is cells s) (hs : loop K A names i s = .ok (t, rc)) :
    rc = 0 ∧ (∃ cells', Built K A names h₀ (is ++ (List.range i).reverse) cells' t) ∨ 
      rc = -1 ∧ t.heap = h₀ ∧ ∃ j < i, K.flags j = none := by
  induction i generalizing is cells s with
  | zero =>
    obtain ⟨rfl, rfl⟩ := Prod.mk.inj (Except.ok.inj hs)
    exact Or.inl ⟨rfl, cells, by rwa [List.range_zero, List.reverse_nil, List.append_nil]⟩
  | succ i ih =>
    rw [loop] at hs
    cases hflags : K.flags i with
    | none =>
      rw [hflags] at hs
      obtain ⟨h, hfree, hs⟩ := bind_eq_ok.1 hs
      obtain ⟨rfl, rfl⟩ := Prod.mk.inj (Except.ok.inj hs)
      have hfuel : cells.length < names.length + 1 := by
        rw [← hb.shows.length_eq]
        omega
      have ha : Adds h₀ (blocks 0 cells ++ []) s.heap := by
        rw [List.append_nil]
        exact hb.adds
      obtain ⟨h', hfree', ha'⟩ := freeifaddrs_blocks ha hfuel
      rw [hb.ifap, hfree'] at hfree
      obtain rfl := Except.ok.inj hfree
      exact Or.inr ⟨rfl, ha'.base_eq, i, i.lt_succ_self, hflags⟩
    | some flags =>
      rw [hflags] at hs
      obtain ⟨r, hentry, hs1⟩ := bind_eq_ok.1 hs
      obtain ⟨s2, hlink, hs2⟩ := bind_eq_ok.1 hs1
      obtain ⟨c, t2, hlink', hb2⟩ := hb.round hflags hentry
      obtain rfl := Except.ok.inj (hlink.symm.trans hlink')
      rcases ih (by rw [List.length_append, List.length_singleton]; omega) hb2 hs2 with ⟨hrc, cells', hb'⟩ |
        ⟨hrc, hheap, j, hj, hnone⟩
      · refine Or.inl ⟨hrc, cells', ?_⟩
        rwa [List.range_succ, List.reverse_append, List.reverse_singleton, ← List.append_assoc]
      · exact Or.inr ⟨hrc, hheap, j, hj.trans i.lt_succ_self, hnone⟩

/-! ## Main results -/

/-- a whole list, from the last interface to the first, that can be freed again -/
structure Listed (K : Kernel) (A : Allocator Block) (h : Heap Block) (names : List String) (r : Result) : Prop where
  cells : ∃ cells, Adds h (blocks 0 cells) r.heap ∧ r.ifap = first cells ∧
    List.Forall₂ (Shows K A names) (List.range names.length).reverse cells
  frees : freeifaddrs (names.length + 1) r.heap r.ifap = .ok h
  closed : r.fd = none

/-- nothing but the failure; the descriptor is left open exactly when SIOCGIFFLAGS has failed -/
structure Failed (K : Kernel) (h : Heap Block) (r : Result) : Prop where
  heap : r.heap = h
  cause : K.socket = none ∨ K.conf = none ∨ r.fd ≠ none
  leaks : r.fd ≠ none ↔ ∃ names, K.socket ≠ none ∧ K.conf = some names ∧ ∃ j < names.length, K.flags j = none

/-- **The outcome of getifaddrs**, whatever the kernel answers and wherever the memory runs out, as long as nothing is
read or written outside: a whole list that `freeifaddrs` takes apart without a rest, or a failure that leaves no block
behind, but sometimes its descriptor. -/
theorem listed_or_failed {requests : ℕ} {r : Result} (hr : getifaddrs K A h requests = .ok r) :
    (r.rc = 0 ∧ ∃ names, K.conf = some names ∧ Listed K A h names r) ∨ (r.rc = -1 ∧ Failed K h r) := by
  unfold getifaddrs at hr
  split at hr
  · rename_i hsocket
    obtain rfl := Except.ok.inj hr
    refine Or.inr ⟨rfl, rfl, Or.inl hsocket, ?_⟩
    simp [hsocket]
  · rename_i hsocket hconf
    obtain rfl := Except.ok.inj hr
    refine Or.inr ⟨rfl, rfl, Or.inr (Or.inl hconf), ?_⟩
    simp [hconf]
  · rename_i fd names hsocket hconf
    obtain ⟨⟨t, rc⟩, hloop, hr'⟩ := bind_eq_ok.1 hr
    obtain rfl := Except.ok.inj hr'
    have hstart : Built K A names h [] [] ⟨h, requests, 0, 0⟩ := ⟨adds_nil h, rfl, rfl, .nil⟩
    rcases loop_spec (by simp) hstart hloop with ⟨rfl, cells, hb⟩ | ⟨rfl, hheap, j, hj, hnone⟩
    · refine Or.inl ⟨rfl, names, hconf, ⟨cells, hb.adds, hb.ifap, hb.shows⟩, ?_, rfl⟩
      have ha : Adds h (blocks 0 cells ++ []) t.heap := by
        rw [List.append_nil]
        exact hb.adds
      have hfuel : cells.length < names.length + 1 := by
        rw [← hb.shows.length_eq, List.nil_append, List.length_reverse, List.length_range]
        exact Nat.lt_succ_self _
      obtain ⟨h', hfree, ha'⟩ := freeifaddrs_blocks ha hfuel
      obtain rfl := ha'.base_eq
      rw [← hb.ifap] at hfree
      exact hfree
    · refine Or.inr ⟨rfl, hheap, Or.inr (Or.inr (Option.some_ne_none fd)), ?_⟩
      refine ⟨fun _ => ⟨names, ?_, hconf, j, hj, hnone⟩, fun _ => Option.some_ne_none fd⟩
      rw [hsocket]
      exact Option.some_ne_none fd

/-- 172.16.0.1, with a netmask of 255.255.0.0 -/
def hostAddr : SockAddrIn := ⟨⟨[0, 0], rfl⟩, ⟨[172, 16, 0, 1], rfl⟩⟩

def hostMask : SockAddrIn := ⟨⟨[0, 0], rfl⟩, ⟨[255, 255, 0, 0], rfl⟩⟩

/-- the sizes of a 64-bit Linux -/
def linux (names : List String) (flags : ℕ → Option ℕ) : Kernel where
  ifreqSize := 40
  addrOffset := 16
  socklen _ := 128
  socket := some 5
  conf := some names
  flags := flags
  addr _ := some (.in4 hostAddr)
  netmask _ := some (.in4 hostMask)

/-- the flags of the first of two interfaces cannot be read, behind the entry of the second -/
theorem listed_or_failed_half_built :
    ∃ r, getifaddrs (linux ["lo", "eth0"] fun i => if i = 0 then none else some 1) .bump ∅ 0 = .ok r ∧
      r.fd = some 5 ∧ Failed (linux ["lo", "eth0"] fun i => if i = 0 then none else some 1) ∅ r := by
  have hfd : (getifaddrs (linux ["lo", "eth0"] fun i => if i = 0 then none else some 1) .bump ∅ 0).toOption.map
      (fun r => (r.rc, r.fd)) = some (-1, some 5) := by decide
  cases hr : getifaddrs (linux ["lo", "eth0"] fun i => if i = 0 then none else some 1) .bump ∅ 0 with
  | error f =>
    rw [hr] at hfd
    cases hfd
  | ok r =>
    rw [hr] at hfd
    obtain ⟨hrc, hopen⟩ := Prod.mk.inj (Option.some.inj hfd)
    rcases listed_or_failed hr with ⟨h0, -⟩ | ⟨-, hfailed⟩
    · cases hrc.symm.trans h0
    · exact ⟨r, rfl, hopen, hfailed⟩

/-- an address of the interface at `i` is copied from beyond the buffer -/
def Kernel.Overreads (K : Kernel) (i : ℕ) : Prop :=
  ∃ a, (K.addr i = some a ∨ K.netmask i = some a) ∧ ¬ K.Inside i a

theorem sockaddrDup_error (hA : A.Reliable) {i : ℕ} (s : State) (sa : Option SockAddr) :
    (∃ f, sockaddrDup K A i s sa = .error f) ↔ ∃ a, sa = some a ∧ ¬ K.Inside i a := by
  cases sa with
  | none => simp [sockaddrDup]
  | some a =>
    have hne : (s.alloc A (.sockaddr a)).1 ≠ 0 := by
      simp only [State.alloc, Allocator.alloc, if_neg (hA s.requests s.heap)]
      exact hA s.requests s.heap
    by_cases hin : K.Inside i a
    · simp [sockaddrDup, hin]
    · simp [sockaddrDup, if_neg hne, hin]

theorem entry_error (hA : A.Reliable) (name : String) (flags i : ℕ) (s : State) :
    (∃ f, entry K A name flags i s = .error f) ↔ K.Overreads i := by
  have hne : (s.alloc A (.node ⟨0, 0, 0, 0, 0, 0⟩)).1 ≠ 0 := by
    simp only [State.alloc, Allocator.alloc, if_neg (hA s.requests s.heap)]
    exact hA s.requests s.heap
  unfold entry
  dsimp only
  rw [if_neg hne, bind_eq_error, sockaddrDup_error hA]
  constructor
  · rintro (⟨a, ha, hout⟩ | ⟨r, -, hmask⟩)
    · exact ⟨a, Or.inl ha, hout⟩
    · rcases bind_eq_error.1 hmask with hmask | ⟨r', -, f, hf⟩
      · obtain ⟨a, ha, hout⟩ := (sockaddrDup_error hA r.2 _).1 hmask
        exact ⟨a, Or.inr ha, hout⟩
      · cases hf
  · rintro ⟨a, ha | ha, hout⟩
    · exact Or.inl ⟨a, ha, hout⟩
    · by_cases haddr : ∃ b, K.addr i = some b ∧ ¬ K.Inside i b
      · exact Or.inl haddr
      · rw [← sockaddrDup_error hA ((s.alloc A (.node ⟨0, 0, 0, 0, 0, 0⟩)).2.alloc A (.name name)).2] at haddr
        cases hr : sockaddrDup K A i ((s.alloc A (.node ⟨0, 0, 0, 0, 0, 0⟩)).2.alloc A (.name name)).2 (K.addr i) with
        | error f => exact absurd ⟨f, hr⟩ haddr
        | ok r =>
          exact Or.inr ⟨r, rfl, bind_eq_error.2 (Or.inl ((sockaddrDup_error hA r.2 _).2 ⟨a, ha, hout⟩))⟩

theorem loop_error (hA : A.Reliable) {names : List String} {is : List ℕ} {i : ℕ} (hlen : is.length + i = names.length)
    (hb : Built K A names h₀ is cells s) :
    (∃ f, loop K A names i s = .error f) ↔ ∃ j < i, K.Overreads j ∧ ∀ k, j ≤ k → k < i → K.flags k ≠ none := by
  induction i generalizing is cells s with
  | zero =>
    constructor
    · rintro ⟨f, hf⟩
      cases hf
    · rintro ⟨j, hj, -⟩
      exact absurd hj (Nat.not_lt_zero j)
  | succ i ih =>
    rw [loop]
    cases hflags : K.flags i with
    | none =>
      -- the list is freed without a fault
      have ha : Adds h₀ (blocks 0 cells ++ []) s.heap := by
        rw [List.append_nil]
        exact hb.adds
      have hfuel : cells.length < names.length + 1 := by
        rw [← hb.shows.length_eq]
        omega
      obtain ⟨h', hfree, -⟩ := freeifaddrs_blocks ha hfuel
      rw [← hb.ifap] at hfree
      constructor
      · rintro ⟨f, hf⟩
        simp only [hfree, bind, Except.bind, pure, Except.pure] at hf
        cases hf
      · rintro ⟨j, hj, -, hall⟩
        exact absurd hflags (hall i (Nat.le_of_lt_succ hj) i.lt_succ_self)
    | some flags =>
      dsimp only
      rw [bind_eq_error, entry_error hA]
      have hlen' : (is ++ [i]).length + i = names.length := by
        rw [List.length_append, List.length_singleton]
        omega
      constructor
      · rintro (hover | ⟨r, hentry, hrest⟩)
        · refine ⟨i, i.lt_succ_self, hover, ?_⟩
          intro k hk hk'
          rw [Nat.le_antisymm (Nat.le_of_lt_succ hk') hk, hflags]
          exact Option.some_ne_none flags
        · obtain ⟨c, t, hlink, hb'⟩ := hb.round hflags hentry
          obtain ⟨f, hf⟩ := hrest
          rw [hlink] at hf
          obtain ⟨j, hj, hover, hall⟩ := (ih hlen' hb').1 ⟨f, hf⟩
          refine ⟨j, hj.trans i.lt_succ_self, hover, ?_⟩
          intro k hk hk'
          rcases Nat.lt_succ_iff_lt_or_eq.1 hk' with hlt | rfl
          · exact hall k hk hlt
          · rw [hflags]
            exact Option.some_ne_none flags
      · rintro ⟨j, hj, hover, hall⟩
        cases hentry : entry K A (names.getD i "") flags i s with
        | error f => exact Or.inl ((entry_error hA _ flags i s).1 ⟨f, hentry⟩)
        | ok r =>
          obtain ⟨c, t, hlink, hb'⟩ := hb.round hflags hentry
          refine Or.inr ⟨r, rfl, ?_⟩
          rw [hlink]
          refine (ih hlen' hb').2 ⟨j, ?_, hover, fun k hk hk' => hall k hk (hk'.trans i.lt_succ_self)⟩
          -- the entry at `i` did not fault, so it is another one
          refine lt_of_le_of_ne (Nat.le_of_lt_succ hj) ?_
          rintro rfl
          obtain ⟨f, hf⟩ := (entry_error hA (names.getD j "") flags j s).2 hover
          cases hentry.symm.trans hf

/-- **When getifaddrs reads outside of its buffer**, with enough memory: exactly when it comes to an interface that lies
so far behind that a whole `sockaddr_storage` from its address on is not in the buffer any more. -/
theorem faults_iff (hA : A.Reliable) (h : Heap Block) (requests : ℕ) {fd : ℤ} {names : List String}
    (hsocket : K.socket = some fd) (hconf : K.conf = some names) :
    (∃ f, getifaddrs K A h requests = .error f) ↔
      ∃ j < names.length, K.Overreads j ∧ ∀ k, j ≤ k → k < names.length → K.flags k ≠ none := by
  have hstart : Built K A names h [] [] ⟨h, requests, 0, 0⟩ := ⟨adds_nil h, rfl, rfl, .nil⟩
  rw [← loop_error hA (by simp) hstart]
  unfold getifaddrs
  rw [hsocket, hconf]
  dsimp only
  rw [bind_eq_error]
  constructor
  · rintro (hf | ⟨r, -, f, hf⟩)
    · exact hf
    · cases hf
  · exact Or.inl

/-- 203 interfaces are one too many -/
theorem faults_iff_many : ∃ f, getifaddrs (linux (List.replicate 203 "eth") fun _ => some 1) .bump ∅ 0 = .error f :=
  (faults_iff Allocator.bump_reliable ∅ 0 rfl rfl).2
    ⟨202, by rw [List.length_replicate]; decide, ⟨_, Or.inl rfl, by decide⟩, fun _ _ _ => Option.some_ne_none 1⟩

end Getifaddrs

end UdtGate
