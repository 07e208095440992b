/-
`check_source` of `lib/utils.cpp` on the list that `getifaddrs` builds in the heap.

The function walks along the `ifa_next` pointers. With `subnet` it masks the address of an entry where it stands, in the
list; it leaves its loop at the first entry that matches, and frees the list on both ways out. Here it runs on the heap;
in `Access` it runs on a list of values.

- `round_spec`: what the body of the loop does to the heap;
- `checkSource_refines`: the answer is that of the list of values, and no block is left.
-/
import UdtGate.Getifaddrs

namespace UdtGate

open UdtGate.Core UdtGate.Core.Heap

namespace Getifaddrs

/-! ## Model -/

/-- how `check_source` can end the process -/
inductive Stop where
  | fault (f : Fault)
  | assertion
  /-- `log_die` -/
  | died
deriving DecidableEq

def orFault {α : Type} : Except Fault α → Except Stop α
  | .ok a => .ok a
  | .error f => .error (.fault f)

def sockaddr (h : Heap Block) (p : ℕ) : Except Stop SockAddr :=
  match h.lookup p with
  | some (.sockaddr a) => .ok a
  | _ => .error (.fault .read)

/-- a name for `%s` -/
def text (h : Heap Block) (p : ℕ) : Except Stop String :=
  if p = 0 then .ok "(null)"
  else
    match h.lookup p with
    | some (.name s) => .ok s
    | _ => .error (.fault .read)

def orAssert {α : Type} : Option α → Except Stop α
  | some a => .ok a
  | none => .error .assertion

/-- both addresses are compared, and the lines logged -/
def compareOf (debugLevel : ℕ) (addr : SockAddrIn) (name : String) (addr1 ifaAddr : SockAddr) :
    Option (Bool × List String) :=
  (sockaddrMatch addr1 ifaAddr false).map fun found =>
    if found then
      (true, matchLog debugLevel name addr1 ifaAddr ++
        ["check_source: connecting " ++ inetNtoa addr.addr ++ " matched against " ++ name ++ "\n"])
    else (false, matchLog debugLevel name addr1 ifaAddr)

/-- both addresses with the mask on them, and the heap with the one in the list -/
def maskBoth (addr : SockAddrIn) (subnet : Bool) (h : Heap Block) (ifp : Node) (a : SockAddr) :
    Except Stop (SockAddr × SockAddr × Heap Block) :=
  if subnet then do
    let netmask ← sockaddr h ifp.netmask
    let addr1 ← orAssert (sockaddrMask (.in4 addr) netmask)
    let ifaAddr ← orAssert (sockaddrMask a netmask)
    return (addr1, ifaAddr, h.insert ifp.addr (.sockaddr ifaAddr))
  else return (.in4 addr, a, h)

/-- the body of the loop: whether the entry matches, the lines it logs and the heap behind it -/
def round (debugLevel : ℕ) (addr : SockAddrIn) (subnet : Bool) (h : Heap Block) (ifp : Node) :
    Except Stop (Bool × List String × Heap Block) :=
  if ifp.addr = 0 ∨ ifp.netmask = 0 then .ok (false, [], h)
  else do
    let ifaAddr ← sockaddr h ifp.addr
    match ifaAddr with
    | .in4 _ => do
      let m ← maskBoth addr subnet h ifp ifaAddr
      let name ← text m.2.2 ifp.name
      let r ← orAssert (compareOf debugLevel addr name m.1 m.2.1)
      return (r.1, r.2, m.2.2)
    | _ => return (false, [], h)

/-- the loop, over a list of less than `fuel` entries -/
def walk (debugLevel : ℕ) (addr : SockAddrIn) (subnet : Bool) :
    ℕ → Heap Block → ℕ → Except Stop (Bool × List String × Heap Block)
  | 0, _, _ => .error (.fault .read)
  | fuel + 1, h, ifp =>
    if ifp = 0 then .ok (false, ["check_source: no match\n"], h)
    else do
      let r ← round debugLevel addr subnet h (← orFault (node h ifp))
      if r.1 then return r
      else do
        let next := (← orFault (node r.2.2 ifp)).next
        let t ← walk debugLevel addr subnet fuel r.2.2 next
        return (t.1, r.2.1 ++ t.2.1, t.2.2)

/-- `check_source`, in a heap `h` -/
def checkSource (K : Kernel) (A : Allocator Block) (debugLevel : ℕ) (addr : SockAddrIn) (subnet : Bool) (h : Heap Block)
    (requests : ℕ) : Except Stop (Bool × List String × Heap Block) := do
  let fuel := (K.conf.elim 0 List.length) + 1
  let r ← orFault (getifaddrs K A h requests)
  if r.rc < 0 then .error .died
  else do
    let t ← walk debugLevel addr subnet fuel r.heap r.ifap
    let h ← orFault (freeifaddrs fuel t.2.2 r.ifap)
    return (t.1, t.2.1, h)

/-! ## One entry -/

/-- what an entry shows -/
def Cell.value (c : Cell) : Ifaddrs := ⟨c.name.elim "(null)" Prod.snd, c.addr.map Prod.snd, c.netmask.map Prod.snd⟩

variable {K : Kernel} {A : Allocator Block} {h h₀ : Heap Block} {c : Cell} {cells : List Cell} {bs : List (ℕ × Block)}
  {debugLevel : ℕ} {addr : SockAddrIn} {subnet : Bool}

/-- one round of the loop over values -/
def roundOf (debugLevel : ℕ) (addr : SockAddrIn) (subnet : Bool) (ifp : Ifaddrs) : Option (Bool × List String) :=
  match ifp.addr, ifp.netmask with
  | some (.in4 a), some netmask =>
    if subnet then
      (sockaddrMask (.in4 addr) netmask).bind fun addr1 =>
        (sockaddrMask (.in4 a) netmask).bind fun ifaAddr => compareOf debugLevel addr ifp.name addr1 ifaAddr
    else compareOf debugLevel addr ifp.name (.in4 addr) (.in4 a)
  | _, _ => some (false, [])

/-- an entry that is passed over -/
theorem checkSource_skip (ifp : Ifaddrs) (rest : List Ifaddrs)
    (h : ∀ a m, ifp.addr = some (.in4 a) → ifp.netmask = some m → False) :
    UdtGate.checkSource debugLevel addr subnet (ifp :: rest) = UdtGate.checkSource debugLevel addr subnet rest ∧
      roundOf debugLevel addr subnet ifp = some (false, []) := by
  constructor
  · rw [UdtGate.checkSource]
    split
    · exact (h _ _ ‹_› ‹_›).elim
    · rfl
  · rw [roundOf]
    split
    · exact (h _ _ ‹_› ‹_›).elim
    · rfl

/-- where a round and the loop part -/
theorem compareOf_bind (name : String) (addr1 ifaAddr : SockAddr) (rest : Option (Bool × List String)) :
    ((sockaddrMatch addr1 ifaAddr false).bind fun found =>
      if found = true then
        some (true, matchLog debugLevel name addr1 ifaAddr ++
          ["check_source: connecting " ++ inetNtoa addr.addr ++ " matched against " ++ name ++ "\n"])
      else rest.bind fun r => some (r.1, matchLog debugLevel name addr1 ifaAddr ++ r.2)) =
      (compareOf debugLevel addr name addr1 ifaAddr).bind fun r =>
        if r.1 then some r else rest.map fun t => (t.1, r.2 ++ t.2) := by
  unfold compareOf
  cases sockaddrMatch addr1 ifaAddr false with
  | none => rfl
  | some found =>
    cases found with
    | true => rfl
    | false =>
      cases rest with
      | none => rfl
      | some t => rfl

theorem checkSource_round (ifp : Ifaddrs) (rest : List Ifaddrs) :
    UdtGate.checkSource debugLevel addr subnet (ifp :: rest) =
      (roundOf debugLevel addr subnet ifp).bind fun r =>
        if r.1 then some r
        else (UdtGate.checkSource debugLevel addr subnet rest).map fun t => (t.1, r.2 ++ t.2) := by
  by_cases h : ∃ a m, ifp.addr = some (.in4 a) ∧ ifp.netmask = some m
  · obtain ⟨a, m, ha, hm⟩ := h
    cases subnet with
    | false =>
      simp only [UdtGate.checkSource, roundOf, ha, hm, Bool.false_eq_true, if_false, Option.bind_eq_bind,
        Option.bind_some]
      exact compareOf_bind _ _ _ _
    | true =>
      simp only [UdtGate.checkSource, roundOf, ha, hm, if_true]
      cases sockaddrMask (.in4 addr) m with
      | none => rfl
      | some addr1 =>
        cases sockaddrMask (.in4 a) m with
        | none => rfl
        | some ifaAddr' => exact compareOf_bind _ _ _ _
  · have hno : ∀ a m, ifp.addr = some (.in4 a) → ifp.netmask = some m → False := fun a m ha hm => h ⟨a, m, ha, hm⟩
    obtain ⟨hskip, hround⟩ := @checkSource_skip debugLevel addr subnet ifp rest hno
    rw [hskip, hround]
    cases UdtGate.checkSource debugLevel addr subnet rest with
    | none => rfl
    | some t => rfl

theorem mem_blocks_name (c : Cell) (next : ℕ) {y : ℕ × String} (hy : c.name = some y) :
    (y.1, Block.name y.2) ∈ c.blocks next := by
  simp [Cell.blocks, hy]

theorem mem_blocks_addr (c : Cell) (next : ℕ) {y : ℕ × SockAddr} (hy : c.addr = some y) :
    (y.1, Block.sockaddr y.2) ∈ c.blocks next := by
  simp [Cell.blocks, hy]

theorem mem_blocks_netmask (c : Cell) (next : ℕ) {y : ℕ × SockAddr} (hy : c.netmask = some y) :
    (y.1, Block.sockaddr y.2) ∈ c.blocks next := by
  simp [Cell.blocks, hy]

theorem text_name {next : ℕ} (ha : Adds h₀ (c.blocks next ++ bs) h) : text h (ref c.name) = .ok c.value.name := by
  unfold Cell.value
  cases hname : c.name with
  | none => rfl
  | some y =>
    have hmem := List.mem_append_left bs (mem_blocks_name c next hname)
    have hread : h.lookup y.1 = some (.name y.2) := ha.holds _ hmem
    simp only [text, ref, Option.elim, if_neg (ha.fresh _ hmem).1, hread]

theorem sockaddr_of_mem (ha : Adds h₀ bs h) {p : ℕ} {a : SockAddr} (hmem : (p, Block.sockaddr a) ∈ bs) :
    p ≠ 0 ∧ sockaddr h p = .ok a := by
  refine ⟨(ha.fresh _ hmem).1, ?_⟩
  have hread : h.lookup p = some (.sockaddr a) := ha.holds _ hmem
  rw [sockaddr, hread]

/-- the address of an entry is masked where it stands -/
theorem adds_masked {next p : ℕ} {a : SockAddr} (ha : Adds h₀ (c.blocks next ++ bs) h) (haddr : c.addr = some (p, a))
    (b : SockAddr) : Adds h₀ (Cell.blocks { c with addr := some (p, b) } next ++ bs) (h.insert p (.sockaddr b)) := by
  have hput : Adds h₀ (owned .sockaddr c.netmask ++ (p, .sockaddr a) ::
      (owned .name c.name ++ (c.ptr, .node (c.node next)) :: bs)) h := by
    simpa only [Cell.blocks, haddr, owned_some, List.append_assoc, List.cons_append, List.nil_append] using ha
  have hstored := hput.store (.sockaddr b)
  simpa only [Cell.blocks, Cell.node, haddr, owned_some, ref_some, List.append_assoc, List.cons_append,
    List.nil_append] using hstored

/-- an entry with another address than an IPv4 one is passed over -/
theorem round_other {n : Node} {ifaAddr : SockAddr} (hread : sockaddr h n.addr = .ok ifaAddr)
    (h4 : ∀ a, ifaAddr ≠ .in4 a) : round debugLevel addr subnet h n = .ok (false, [], h) := by
  unfold round
  split_ifs with hnull
  · rfl
  · simp only [hread, bind, Except.bind]
    cases ifaAddr with
    | in4 a => exact absurd rfl (h4 a)
    | in6 port b => rfl
    | other family => rfl

/-- an entry with an IPv4 address -/
theorem round_in4 {n : Node} {a : SockAddrIn} (hnull : ¬ (n.addr = 0 ∨ n.netmask = 0))
    (hread : sockaddr h n.addr = .ok (.in4 a)) : round debugLevel addr subnet h n = (do
      let m ← maskBoth addr subnet h n (.in4 a)
      let name ← text m.2.2 n.name
      let r ← orAssert (compareOf debugLevel addr name m.1 m.2.1)
      return (r.1, r.2, m.2.2)) := by
  rw [round, if_neg hnull, hread]
  rfl

/-- the round on the heap does what the round on the value of the entry `c` does, and leaves the blocks of an entry -/
def Follows (debugLevel : ℕ) (addr : SockAddrIn) (subnet : Bool) (h₀ h : Heap Block) (c : Cell) (next : ℕ)
    (bs : List (ℕ × Block)) : Prop :=
  match roundOf debugLevel addr subnet c.value with
  | none => round debugLevel addr subnet h (c.node next) = .error .assertion
  | some (found, log) =>
    ∃ c' h', round debugLevel addr subnet h (c.node next) = .ok (found, log, h') ∧ c'.ptr = c.ptr ∧
      Adds h₀ (Cell.blocks c' next ++ bs) h'

/-- an entry that is passed over -/
theorem follows_skip {next : ℕ} (ha : Adds h₀ (c.blocks next ++ bs) h)
    (hof : roundOf debugLevel addr subnet c.value = some (false, []))
    (hround : round debugLevel addr subnet h (c.node next) = .ok (false, [], h)) :
    Follows debugLevel addr subnet h₀ h c next bs := by
  rw [Follows, hof]
  exact ⟨c, h, hround, rfl, ha⟩

variable {next p q : ℕ} {a : SockAddrIn} {netmask : SockAddr}

theorem follows_whole (ha : Adds h₀ (c.blocks next ++ bs) h) (haddr : c.addr = some (p, .in4 a))
    (hmask : c.netmask = some (q, netmask)) (hround : round debugLevel addr false h (c.node next) = (do
      let m ← maskBoth addr false h (c.node next) (.in4 a)
      let name ← text m.2.2 (c.node next).name
      let r ← orAssert (compareOf debugLevel addr name m.1 m.2.1)
      return (r.1, r.2, m.2.2))) : Follows debugLevel addr false h₀ h c next bs := by
  have hof : roundOf debugLevel addr false c.value = compareOf debugLevel addr c.value.name (.in4 addr) (.in4 a) := by
    simp only [roundOf, Cell.value, haddr, hmask, Option.map_some, Bool.false_eq_true, if_false]
  have hmasked : maskBoth addr false h (c.node next) (.in4 a) = .ok (.in4 addr, .in4 a, h) := rfl
  have hname : text h (c.node next).name = .ok c.value.name := text_name ha
  rw [Follows, hof, hround]
  cases hcmp : compareOf debugLevel addr c.value.name (.in4 addr) (.in4 a) with
  | none => simp only [hmasked, hname, hcmp, orAssert, bind, Except.bind]
  | some r =>
    refine ⟨c, h, ?_, rfl, ha⟩
    simp only [hmasked, hname, hcmp, orAssert, bind, Except.bind, pure, Except.pure]

theorem follows_subnet (ha : Adds h₀ (c.blocks next ++ bs) h) (haddr : c.addr = some (p, .in4 a))
    (hmask : c.netmask = some (q, netmask)) (hread : sockaddr h (c.node next).netmask = .ok netmask)
    (hround : round debugLevel addr true h (c.node next) = (do
      let m ← maskBoth addr true h (c.node next) (.in4 a)
      let name ← text m.2.2 (c.node next).name
      let r ← orAssert (compareOf debugLevel addr name m.1 m.2.1)
      return (r.1, r.2, m.2.2))) : Follows debugLevel addr true h₀ h c next bs := by
  have hof : roundOf debugLevel addr true c.value = (sockaddrMask (.in4 addr) netmask).bind fun addr1 =>
      (sockaddrMask (.in4 a) netmask).bind fun b => compareOf debugLevel addr c.value.name addr1 b := by
    simp only [roundOf, Cell.value, haddr, hmask, Option.map_some, if_true]
  have hptr : (c.node next).addr = p := by rw [Cell.node, haddr, ref_some]
  rw [Follows, hof, hround]
  cases h1 : sockaddrMask (.in4 addr) netmask with
  | none => simp only [maskBoth, if_true, hread, h1, orAssert, bind, Except.bind, Option.bind_none]
  | some addr1 =>
    cases h2 : sockaddrMask (.in4 a) netmask with
    | none =>
      simp only [maskBoth, if_true, hread, h1, h2, orAssert, bind, Except.bind, Option.bind_some, Option.bind_none]
    | some b =>
      have hmasked : maskBoth addr true h (c.node next) (.in4 a) = .ok (addr1, b, h.insert p (.sockaddr b)) := by
        simp only [maskBoth, if_true, hread, h1, h2, hptr, orAssert, bind, Except.bind, pure, Except.pure]
      -- the name is still where it was
      have ha' := adds_masked ha haddr b
      have hname : text (h.insert p (.sockaddr b)) (c.node next).name = .ok c.value.name := by
        have htext := text_name ha'
        exact htext
      simp only [Option.bind_some]
      cases hcmp : compareOf debugLevel addr c.value.name addr1 b with
      | none => simp only [hmasked, hname, hcmp, orAssert, bind, Except.bind]
      | some r =>
        refine ⟨{ c with addr := some (p, b) }, _, ?_, rfl, ha'⟩
        simp only [hmasked, hname, hcmp, orAssert, bind, Except.bind, pure, Except.pure]

/-- **One round.** It matches, logs or fails as the loop over values does, and changes no more than one address. -/
theorem round_spec (ha : Adds h₀ (c.blocks next ++ bs) h) : Follows debugLevel addr subnet h₀ h c next bs := by
  cases haddr : c.addr with
  | none =>
    apply follows_skip ha
    · simp [roundOf, Cell.value, haddr]
    · simp [round, Cell.node, haddr]
  | some x =>
    cases hmask : c.netmask with
    | none =>
      apply follows_skip ha
      · simp [roundOf, Cell.value, hmask]
      · simp [round, Cell.node, hmask]
    | some y =>
      obtain ⟨p, ifaAddr⟩ := x
      obtain ⟨q, netmask⟩ := y
      obtain ⟨hp, hreadp⟩ := sockaddr_of_mem ha (List.mem_append_left bs (mem_blocks_addr c next haddr))
      obtain ⟨hq, hreadq⟩ := sockaddr_of_mem ha (List.mem_append_left bs (mem_blocks_netmask c next hmask))
      have hpa : (c.node next).addr = p := by rw [Cell.node, haddr, ref_some]
      have hqm : (c.node next).netmask = q := by rw [Cell.node, hmask, ref_some]
      rw [← hpa] at hp hreadp
      rw [← hqm] at hq hreadq
      by_cases h4 : ∃ a, ifaAddr = .in4 a
      · obtain ⟨a, rfl⟩ := h4
        have hround {subnet : Bool} := @round_in4 h debugLevel addr subnet _ a (not_or.2 ⟨hp, hq⟩) hreadp
        cases subnet with
        | false => exact follows_whole ha haddr hmask hround
        | true => exact follows_subnet ha haddr hmask hreadq hround
      · have hno : ∀ a, ifaAddr ≠ .in4 a := fun a ha4 => h4 ⟨a, ha4⟩
        refine follows_skip ha ?_ (round_other hreadp hno)
        simp only [roundOf, Cell.value, haddr, hmask, Option.map_some]
        split
        · rename_i ha4 _
          exact absurd (Option.some.inj ha4) (hno _)
        · rfl

/-! ## The whole loop -/

/-- the loop on the heap does what the loop on the values of the entries does, and leaves a list at the same place -/
theorem walk_spec {fuel : ℕ} (ha : Adds h₀ (blocks 0 cells ++ bs) h) (hfuel : cells.length < fuel) :
    match UdtGate.checkSource debugLevel addr subnet (cells.map Cell.value) with
    | none => walk debugLevel addr subnet fuel h (first cells) = .error .assertion
    | some (found, log) =>
      ∃ cells' h', walk debugLevel addr subnet fuel h (first cells) = .ok (found, log, h') ∧
        first cells' = first cells ∧ cells'.length = cells.length ∧ Adds h₀ (blocks 0 cells' ++ bs) h' := by
  induction cells generalizing fuel h bs with
  | nil =>
    obtain ⟨fuel, rfl⟩ := Nat.exists_eq_succ_of_ne_zero (Nat.ne_of_gt hfuel)
    exact ⟨[], h, if_pos rfl, rfl, rfl, ha⟩
  | cons c cells ih =>
    obtain ⟨fuel, rfl⟩ := Nat.exists_eq_succ_of_ne_zero (Nat.ne_of_gt (Nat.zero_lt_of_lt hfuel))
    have hcell : Adds h₀ (c.blocks (first cells) ++ (blocks 0 cells ++ bs)) h := by
      rw [← List.append_assoc]
      exact ha
    have hmem {d : Cell} : (d.ptr, Block.node (d.node (first cells))) ∈ d.blocks (first cells) := by
      simp [Cell.blocks]
    have hread := node_of_mem hcell (List.mem_append_left _ hmem)
    have hptr : c.ptr ≠ 0 := (hcell.fresh _ (List.mem_append_left _ hmem)).1
    have hstart : first (c :: cells) = c.ptr := rfl
    have hfollows := @round_spec h h₀ c (blocks 0 cells ++ bs) debugLevel addr subnet (first cells) hcell
    rw [List.map_cons, checkSource_round]
    unfold Follows at hfollows
    cases hof : roundOf debugLevel addr subnet c.value with
    | none =>
      simp only [hof] at hfollows
      simp only [walk, hstart, if_neg hptr, hread, orFault, hfollows, bind, Except.bind, Option.bind_none]
    | some r =>
      obtain ⟨found, log⟩ := r
      simp only [hof] at hfollows
      obtain ⟨c', h', hround, hptr', ha'⟩ := hfollows
      cases found with
      | true =>
        refine ⟨c' :: cells, h', ?_, hptr', rfl, ?_⟩
        · simp only [walk, hstart, if_neg hptr, hread, orFault, hround, bind, Except.bind, if_true, pure, Except.pure]
        · rw [← List.append_assoc] at ha'
          exact ha'
      | false =>
        -- the link is read after the masking
        have hread' := node_of_mem ha' (List.mem_append_left _ hmem)
        rw [hptr'] at hread'
        have hnext : (c'.node (first cells)).next = first cells := rfl
        have hrest := ih (ha'.perm (List.perm_append_comm_assoc _ _ _)) (Nat.lt_of_succ_lt_succ hfuel)
        cases hof' : UdtGate.checkSource debugLevel addr subnet (cells.map Cell.value) with
        | none =>
          simp only [hof'] at hrest
          simp only [walk, hstart, if_neg hptr, hread, hread', orFault, hround, bind, Except.bind, Bool.false_eq_true,
            if_false, hnext, hrest, Option.bind_some, Option.map_none]
        | some t =>
          simp only [hof'] at hrest
          obtain ⟨cells', h'', hwalk, hfirst, hlen, ha''⟩ := hrest
          refine ⟨c' :: cells', h'', ?_, hptr', ?_, ?_⟩
          · simp only [walk, hstart, if_neg hptr, hread, hread', orFault, hround, bind, Except.bind, Bool.false_eq_true,
              if_false, hnext, hwalk, pure, Except.pure]
          · rw [List.length_cons, List.length_cons, hlen]
          · have hperm := ha''.perm (List.perm_append_comm_assoc _ _ _)
            rw [← hfirst, ← List.append_assoc] at hperm
            exact hperm

/-! ## Main result -/

/-- the interfaces of the kernel, in the order of the list -/
def Kernel.interfaces (K : Kernel) (names : List String) : List Ifaddrs :=
  (List.range names.length).reverse.map fun i => ⟨names.getD i "", K.addr i, K.netmask i⟩

/-- with enough memory, an entry shows its interface as it is -/
theorem Shows.value_eq (hA : A.Reliable) {names : List String} {i : ℕ} (hs : Shows K A names i c) :
    c.value = ⟨names.getD i "", K.addr i, K.netmask i⟩ := by
  obtain ⟨hname, haddr, hmask⟩ := hs.full hA
  obtain ⟨x, hx⟩ := Option.ne_none_iff_exists'.1 hname
  have h1 : c.name.elim "(null)" Prod.snd = names.getD i "" := by
    rw [hx]
    exact hs.name x hx
  have h2 : c.addr.map Prod.snd = K.addr i := by
    cases hc : c.addr with
    | none => exact (haddr hc).symm
    | some y => exact (hs.addr y hc).symm
  have h3 : c.netmask.map Prod.snd = K.netmask i := by
    cases hc : c.netmask with
    | none => exact (hmask hc).symm
    | some y => exact (hs.netmask y hc).symm
  rw [Cell.value, h1, h2, h3]

theorem values_eq (hA : A.Reliable) {names : List String} {is : List ℕ}
    (hs : List.Forall₂ (Shows K A names) is cells) :
    cells.map Cell.value = is.map fun i => ⟨names.getD i "", K.addr i, K.netmask i⟩ := by
  induction hs with
  | nil => rfl
  | cons h _ ih => rw [List.map_cons, List.map_cons, h.value_eq hA, ih]

/-- **check_source keeps to its values and leaves no block.** Whatever the interfaces are, on the list that `getifaddrs`
builds, with addresses masked where they stand, `check_source` gives the answer and logs the lines that it gives and logs
for the kernel's interfaces as values, and behind it the heap is what it was. -/
theorem checkSource_refines (hA : A.Reliable) {fd : ℤ} {names : List String} (hsocket : K.socket = some fd)
    (hconf : K.conf = some names) (hflags : ∀ j < names.length, K.flags j ≠ none)
    (hinside : ∀ j < names.length, ¬ K.Overreads j) (debugLevel : ℕ) (addr : SockAddrIn) (subnet : Bool)
    (h : Heap Block) (requests : ℕ) :
    checkSource K A debugLevel addr subnet h requests =
      match UdtGate.checkSource debugLevel addr subnet (K.interfaces names) with
      | none => .error .assertion
      | some (found, log) => .ok (found, log, h) := by
  have hnofault : ¬ ∃ f, getifaddrs K A h requests = .error f := by
    rw [faults_iff hA h requests hsocket hconf]
    rintro ⟨j, hj, hover, -⟩
    exact hinside j hj hover
  cases hr : getifaddrs K A h requests with
  | error f => exact absurd ⟨f, hr⟩ hnofault
  | ok r =>
    rcases listed_or_failed hr with ⟨hrc, names', hconf', ⟨cells, hadds, hifap, hshows⟩, -, -⟩ | ⟨-, hfailed⟩
    · obtain rfl := Option.some.inj (hconf.symm.trans hconf')
      have hadds' : Adds h (blocks 0 cells ++ []) r.heap := by
        rw [List.append_nil]
        exact hadds
      have hfuel : cells.length < names.length + 1 := by
        rw [← hshows.length_eq, List.length_reverse, List.length_range]
        exact Nat.lt_succ_self _
      have hwalk := @walk_spec r.heap h cells [] debugLevel addr subnet _ hadds' hfuel
      rw [values_eq hA hshows] at hwalk
      have hrc' : ¬ r.rc < 0 := by
        rw [hrc]
        exact lt_irrefl 0
      unfold checkSource
      simp only [hconf, Option.elim, hr, orFault, bind, Except.bind, if_neg hrc', hifap]
      unfold Kernel.interfaces
      cases hof : UdtGate.checkSource debugLevel addr subnet
          ((List.range names.length).reverse.map fun i => ⟨names.getD i "", K.addr i, K.netmask i⟩) with
      | none =>
        simp only [hof] at hwalk
        simp only [hwalk]
      | some t =>
        simp only [hof] at hwalk
        obtain ⟨cells', h', hw, hfirst, hlen, hleft⟩ := hwalk
        obtain ⟨h'', hfree, hnone⟩ := freeifaddrs_blocks hleft (by rw [hlen]; exact hfuel)
        obtain rfl := hnone.base_eq
        rw [hfirst] at hfree
        simp only [hw, hfree]
        rfl
    · rcases hfailed.cause with hnone | hnone | hfd
      · cases hsocket.symm.trans hnone
      · cases hconf.symm.trans hnone
      · obtain ⟨names', -, hconf', j, hj, hnone⟩ := hfailed.leaks.1 hfd
        obtain rfl := Option.some.inj (hconf.symm.trans hconf')
        exact absurd hnone (hflags j hj)

/-- 172.16.9.9 is on the subnet of both interfaces -/
theorem checkSource_refines_subnet :
    ∃ log, checkSource (linux ["lo", "eth0"] fun _ => some 1) .bump 0 ⟨⟨[0, 0], rfl⟩, ⟨[172, 16, 9, 9], rfl⟩⟩ true ∅ 0 =
      .ok (true, log, ∅) := by
  have hinside : ∀ j < ["lo", "eth0"].length, ¬ (linux ["lo", "eth0"] fun _ => some 1).Overreads j := by
    rintro j hj ⟨a, -, hout⟩
    apply hout
    have hlt : j < 2 := hj
    show j * 40 + 16 + 128 ≤ 8192
    omega
  exact ⟨_, (checkSource_refines Allocator.bump_reliable rfl rfl (fun _ _ => Option.some_ne_none 1) hinside 0 _ true ∅
    0).trans rfl⟩

end Getifaddrs

end UdtGate
