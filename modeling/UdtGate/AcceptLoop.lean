/-
The accept loop of `main` and the threads it starts, and the slot between them.

The loop accepts a connection into one local variable (`audtsock` or `atcpsock`, here `slot`), tests its source, and
starts `start_child` with the ADDRESS of that variable. The thread reads the variable twice, for `getpeername` and then
for the socket it serves, whenever it is scheduled; the loop meanwhile goes on and overwrites the variable. Connections
are numbered as they are accepted. In the rendezvous mode of the server a fresh socket is put into the slot first and
connected after that.

- `hand_over`: as long as the slot is never overwritten while a started thread has still to read it, no connection is
  served twice, every connection served has passed its test, and when all threads have read the slot every connection
  that passed is served. In runs that end so, this condition is also necessary.
- `hand_over_fails`: a connection that never passed the test is served, and the one that passed is not.
-/
import UdtGate.Access
import UdtGate.Core.System

namespace UdtGate

open UdtGate.Core

/-! ## Model -/

/-- a thread that runs `start_child(&slot)` -/
inductive Handler where
  | started
  /-- after `getpeername(*servsock)` -/
  | looked
  /-- after the second read of `*servsock` -/
  | serving (conn : ℕ)
deriving DecidableEq

def Handler.conn : Handler → Option ℕ
  | .serving c => some c
  | _ => none

inductive AcceptLoop.Pc where
  | accepting
  /-- rendezvous mode: the socket in the slot is being connected -/
  | connecting
  | checking (clientaddr : SockAddrIn)
  | spawning
  /-- the process has ended -/
  | stopped
deriving DecidableEq

structure AcceptLoop where
  pc : AcceptLoop.Pc
  /-- the number of the connection in the variable, 0 when it is uninitialised or -1 -/
  slot : ℕ
  /-- the number of the next connection -/
  next : ℕ
  /-- connections that passed the test, in order -/
  vetted : List ℕ
  /-- threads, in the order they were started -/
  handlers : List Handler
deriving DecidableEq

namespace AcceptLoop

inductive Label where
  | accept (clientaddr : SockAddrIn)
  | acceptFails
  | socket
  | connected (clientaddr : SockAddrIn)
  /-- the test, with what `getifaddrs` returns to it -/
  | check (ifap : Option (List Ifaddrs))
  | spawn
  | handler (i : ℕ)
deriving DecidableEq

/-- the test of the source: `sockaddr_match` on the server, `check_source` on the client. `none` is the end of the
process, by an assertion or by `log_die` -/
def sourceCheck (g : Globals) (clientaddr : SockAddrIn) (ifap : Option (List Ifaddrs)) : Option Bool :=
  match g.mode with
  | .server => sockaddrMatch (.in4 clientaddr) (.in4 g.peeraddr) false
  | .client =>
    if g.netAccess < 2 then
      let subnet : Bool := g.netAccess > 0
      ifap.bind fun l => (checkSource g.debugLevel clientaddr subnet l).map Prod.fst
    else some true

/-- connections come from sockets that this process connects -/
def connects (g : Globals) : Bool := g.mode = .server && g.isRendezvous

def step (g : Globals) (s : AcceptLoop) : Label → Option AcceptLoop
  | .accept clientaddr =>
    if s.pc = .accepting ∧ connects g = false then
      some { s with pc := .checking clientaddr, slot := s.next, next := s.next + 1 }
    else none
  | .acceptFails =>
    -- -1 or INVALID_SOCK goes into the slot, and `main` returns; a socket that cannot be connected stays in it
    if s.pc = .accepting then some { s with pc := .stopped, slot := 0 }
    else if s.pc = .connecting then some { s with pc := .stopped }
    else none
  | .socket =>
    if s.pc = .accepting ∧ connects g = true then
      some { s with pc := .connecting, slot := s.next, next := s.next + 1 }
    else none
  | .connected clientaddr => if s.pc = .connecting then some { s with pc := .checking clientaddr } else none
  | .check ifap =>
    match s.pc with
    | .checking clientaddr =>
      match sourceCheck g clientaddr ifap with
      | none => some { s with pc := .stopped }
      | some true => some { s with pc := .spawning, vetted := s.vetted ++ [s.slot] }
      -- the connection is closed, its number stays in the slot
      | some false => some { s with pc := .accepting }
    | _ => none
  | .spawn =>
    if s.pc = .spawning then some { s with pc := .accepting, handlers := s.handlers ++ [.started] } else none
  | .handler i =>
    if s.pc = .stopped then none
    else
      match s.handlers[i]? with
      | some .started => some { s with handlers := s.handlers.set i .looked }
      | some .looked => some { s with handlers := s.handlers.set i (.serving s.slot) }
      | _ => none

def start : AcceptLoop := ⟨.accepting, 0, 1, [], []⟩

/-- all runs of the loop and its threads under the settings `g` -/
def system (g : Globals) : System AcceptLoop Label := ⟨fun s => s = start, step g⟩

/-- the connections that threads serve, in the order of the threads -/
def served (s : AcceptLoop) : List ℕ := s.handlers.filterMap Handler.conn

/-- the loop is back at its accept and every thread has read the slot -/
def Quiet (s : AcceptLoop) : Prop := s.pc = .accepting ∧ ∀ h ∈ s.handlers, h.conn.isSome = true

instance (s : AcceptLoop) : Decidable s.Quiet := inferInstanceAs (Decidable (_ ∧ _))

/-- the hand-over works: nothing is served twice or untested, and in the end nothing tested is left out -/
structure Exact (s : AcceptLoop) : Prop where
  nodup : s.served.Nodup
  tested : ∀ c ∈ s.served, c ∈ s.vetted
  complete : s.Quiet → ∀ c ∈ s.vetted, c ∈ s.served

/-- the step does not overwrite the slot while a thread has still to read it -/
def Settled (s : AcceptLoop) : Label → Prop
  | .accept _ | .socket => ∀ h ∈ s.handlers, h.conn.isSome = true
  | _ => True

instance (s : AcceptLoop) (l : Label) : Decidable (s.Settled l) := by
  cases l <;> unfold Settled <;> infer_instance

/-! ## The invariant -/

/-- threads that serve the connections `cs` -/
def serve (cs : List ℕ) : List Handler := cs.map .serving

theorem conn_serve (cs : List ℕ) : (serve cs).filterMap Handler.conn = cs := by
  induction cs with
  | nil => rfl
  | cons c cs ih => exact congrArg (c :: ·) ih

/-- where the loop is decides which threads there are: all serve their connection, in order, and the last one started
may have still to read the slot, which then holds its connection -/
def Shape (s : AcceptLoop) : Prop :=
  match s.pc with
  | .accepting =>
    s.handlers = serve s.vetted ∨
      ∃ vs h, s.vetted = vs ++ [s.slot] ∧ s.handlers = serve vs ++ [h] ∧ h.conn = none
  | .connecting | .checking _ => s.handlers = serve s.vetted ∧ (∀ v ∈ s.vetted, v < s.slot)
  | .spawning => ∃ vs, s.vetted = vs ++ [s.slot] ∧ s.handlers = serve vs
  | .stopped => s.served <+: s.vetted

structure Inv (s : AcceptLoop) : Prop where
  slot_lt : s.slot < s.next
  vetted_lt : ∀ v ∈ s.vetted, v < s.next
  sorted : s.vetted.Pairwise (· < ·)
  shape : s.Shape

theorem served_of_shape {s : AcceptLoop} (h : s.Shape) : s.served <+: s.vetted := by
  unfold Shape at h
  unfold served
  split at h
  · rcases h with h | ⟨vs, hd, hv, h, hn⟩
    · rw [h, conn_serve]
    · rw [h, hv, List.filterMap_append, conn_serve, List.filterMap_cons_none hn]
      exact ⟨[s.slot], by simp⟩
  · rw [h.1, conn_serve]
  · rw [h.1, conn_serve]
  · obtain ⟨vs, hv, h⟩ := h
    rw [h, hv, conn_serve]
    exact List.prefix_append _ _
  · exact h

theorem inv_start : Inv start := ⟨Nat.zero_lt_one, nofun, List.Pairwise.nil, Or.inl rfl⟩

theorem conn_of_mem_serve {cs : List ℕ} {h : Handler} (hm : h ∈ serve cs) : h.conn.isSome = true := by
  obtain ⟨c, -, rfl⟩ := List.mem_map.1 hm
  rfl

/-- a new number goes into the slot, when every thread has read it -/
theorem inv_fresh_slot {s : AcceptLoop} (h : s.Inv) (hpc : s.pc = .accepting)
    (hset : ∀ h ∈ s.handlers, h.conn.isSome = true) (pc : Pc) (hnew : pc = .connecting ∨ ∃ a, pc = .checking a) :
    Inv { s with pc := pc, slot := s.next, next := s.next + 1 } := by
  obtain ⟨hslot, hlt, hsorted, hshape⟩ := h
  have hall : s.handlers = serve s.vetted := by
    simp only [Shape, hpc] at hshape
    rcases hshape with h | ⟨vs, hd, -, h, hn⟩
    · exact h
    · have hsome := hset hd (by rw [h]; simp)
      rw [hn] at hsome
      cases hsome
  refine ⟨Nat.lt_succ_self _, fun v hv => Nat.lt_succ_of_lt (hlt v hv), hsorted, ?_⟩
  rcases hnew with rfl | ⟨a, rfl⟩ <;> exact ⟨hall, hlt⟩

/-- a thread takes its next read of the slot -/
theorem inv_handler {s t : AcceptLoop} {i : ℕ} (h : s.Inv) (g : Globals) (hs : step g s (.handler i) = some t) :
    t.Inv := by
  obtain ⟨hslot, hlt, hsorted, hshape⟩ := h
  simp only [step] at hs
  split_ifs at hs with hpc
  -- a thread that has still to read is the last one started, and the loop is at its accept
  have hlast : ∀ hd, s.handlers[i]? = some hd → hd.conn = none →
      s.pc = .accepting ∧ ∃ vs, s.vetted = vs ++ [s.slot] ∧ s.handlers = serve vs ++ [hd] ∧ i = (serve vs).length := by
    intro hd hget hn
    have hmem := List.mem_of_getElem? hget
    have hno : ∀ cs, s.handlers ≠ serve cs := by
      intro cs hcs
      have hsome := conn_of_mem_serve (hcs ▸ hmem)
      rw [hn] at hsome
      cases hsome
    unfold Shape at hshape
    split at hshape
    · rename_i hacc
      rcases hshape with h | ⟨vs, hd', hv, h, -⟩
      · exact absurd h (hno _)
      · refine ⟨hacc, vs, hv, ?_⟩
        rw [h] at hget
        by_cases hi : i < (serve vs).length
        · rw [List.getElem?_append_left hi] at hget
          have hsome := conn_of_mem_serve (List.mem_of_getElem? hget)
          rw [hn] at hsome
          cases hsome
        · rw [List.getElem?_append_right (not_lt.1 hi)] at hget
          have h0 : i - (serve vs).length = 0 := by
            by_contra hne
            rw [List.getElem?_eq_none (by simp; omega)] at hget
            cases hget
          rw [h0, List.getElem?_cons_zero, Option.some.injEq] at hget
          exact ⟨by rw [h, hget], by omega⟩
    · exact absurd hshape.1 (hno _)
    · exact absurd hshape.1 (hno _)
    · obtain ⟨vs, -, h⟩ := hshape
      exact absurd h (hno _)
    · rename_i hst; exact absurd hst hpc
  split at hs
  · rename_i hget
    obtain ⟨hacc, vs, hv, hh, rfl⟩ := hlast _ hget rfl
    simp only [Option.some.injEq] at hs
    subst hs
    refine ⟨hslot, hlt, hsorted, ?_⟩
    simp only [Shape, hacc]
    exact Or.inr ⟨vs, .looked, hv, by simp [hh], rfl⟩
  · rename_i hget
    obtain ⟨hacc, vs, hv, hh, rfl⟩ := hlast _ hget rfl
    simp only [Option.some.injEq] at hs
    subst hs
    refine ⟨hslot, hlt, hsorted, ?_⟩
    simp only [Shape, hacc]
    exact Or.inl (by simp [hh, hv, serve])
  · cases hs

/-- **What one step keeps** that does not overwrite the slot too early. -/
theorem step_inv (g : Globals) (s : AcceptLoop) (l : Label) (t : AcceptLoop) (h : s.Inv) (hG : s.Settled l)
    (hs : step g s l = some t) : t.Inv := by
  cases l with
  | accept a =>
    simp only [step] at hs
    split_ifs at hs with hc
    cases hs
    exact inv_fresh_slot h hc.1 hG _ (Or.inr ⟨a, rfl⟩)
  | socket =>
    simp only [step] at hs
    split_ifs at hs with hc
    cases hs
    exact inv_fresh_slot h hc.1 hG _ (Or.inl rfl)
  | acceptFails =>
    have hfront := served_of_shape h.shape
    simp only [step] at hs
    split_ifs at hs with hacc hconn
    · cases hs
      exact ⟨(Nat.zero_le _).trans_lt h.slot_lt, h.vetted_lt, h.sorted, hfront⟩
    · cases hs
      exact ⟨h.slot_lt, h.vetted_lt, h.sorted, hfront⟩
  | connected a =>
    simp only [step] at hs
    split_ifs at hs with hc
    cases hs
    have hshape := h.shape
    simp only [Shape, hc] at hshape
    exact ⟨h.slot_lt, h.vetted_lt, h.sorted, hshape⟩
  | check ifap =>
    have hshape := h.shape
    cases hpc : s.pc with
    | checking a =>
      simp only [Shape, hpc] at hshape
      simp only [step, hpc] at hs
      split at hs
      · cases hs
        have hfront := served_of_shape h.shape
        exact ⟨h.slot_lt, h.vetted_lt, h.sorted, hfront⟩
      · cases hs
        refine ⟨h.slot_lt, ?_, ?_, s.vetted, rfl, hshape.1⟩
        · intro v hv
          rcases List.mem_append.1 hv with hv | hv
          · exact h.vetted_lt v hv
          · rw [List.mem_singleton.1 hv]; exact h.slot_lt
        · rw [List.pairwise_append]
          refine ⟨h.sorted, List.pairwise_singleton _ _, ?_⟩
          intro v hv w hw
          rw [List.mem_singleton.1 hw]
          exact hshape.2 v hv
      · cases hs
        exact ⟨h.slot_lt, h.vetted_lt, h.sorted, Or.inl hshape.1⟩
    | _ => simp [step, hpc] at hs
  | spawn =>
    simp only [step] at hs
    split_ifs at hs with hc
    cases hs
    have hshape := h.shape
    simp only [Shape, hc] at hshape
    obtain ⟨vs, hv, hh⟩ := hshape
    exact ⟨h.slot_lt, h.vetted_lt, h.sorted, Or.inr ⟨vs, .started, hv, by rw [hh], rfl⟩⟩
  | handler i => exact inv_handler h g hs

theorem exact_of_inv {s : AcceptLoop} (h : s.Inv) : s.Exact := by
  have hpre := served_of_shape h.shape
  have hnodup : s.vetted.Nodup := h.sorted.imp fun hlt => hlt.ne
  refine ⟨hpre.sublist.nodup hnodup, fun c hc => hpre.subset hc, ?_⟩
  intro hq c hc
  have hshape := h.shape
  simp only [Shape, hq.1] at hshape
  rcases hshape with hh | ⟨vs, hd, -, hh, hn⟩
  · rw [served, hh, conn_serve]; exact hc
  · have hsome := hq.2 hd (by rw [hh]; simp)
    rw [hn] at hsome
    cases hsome

/-! ## A connection whose slot was overwritten is never served -/

/-- the connection `c` passed its test, no thread serves it, and its number is in the slot no more, or the process has
ended -/
structure Lost (c : ℕ) (s : AcceptLoop) : Prop where
  vetted : c ∈ s.vetted
  unserved : c ∉ s.served
  slot : s.pc = .stopped ∨ s.slot ≠ c
  old : c < s.next

theorem lost_step (g : Globals) {c : ℕ} (s : AcceptLoop) (l : Label) (t : AcceptLoop) (h : Lost c s)
    (hs : step g s l = some t) : Lost c t := by
  obtain ⟨hv, hu, hslot, hold⟩ := h
  cases l with
  | accept a =>
    simp only [step] at hs
    split_ifs at hs
    cases hs
    exact ⟨hv, hu, Or.inr hold.ne', Nat.lt_succ_of_lt hold⟩
  | socket =>
    simp only [step] at hs
    split_ifs at hs
    cases hs
    exact ⟨hv, hu, Or.inr hold.ne', Nat.lt_succ_of_lt hold⟩
  | acceptFails =>
    simp only [step] at hs
    split_ifs at hs
    · cases hs; exact ⟨hv, hu, Or.inl rfl, hold⟩
    · cases hs; exact ⟨hv, hu, Or.inl rfl, hold⟩
  | connected a =>
    simp only [step] at hs
    split_ifs at hs with hpc
    cases hs
    exact ⟨hv, hu, Or.inr (hslot.resolve_left (by simp [hpc])), hold⟩
  | check ifap =>
    simp only [step] at hs
    split at hs
    · rename_i hpc
      have hne : s.slot ≠ c := hslot.resolve_left (by simp [hpc])
      split at hs
      · cases hs; exact ⟨hv, hu, Or.inl rfl, hold⟩
      · cases hs; exact ⟨List.mem_append_left _ hv, hu, Or.inr hne, hold⟩
      · cases hs; exact ⟨hv, hu, Or.inr hne, hold⟩
    · cases hs
  | spawn =>
    simp only [step] at hs
    split_ifs at hs with hpc
    cases hs
    refine ⟨hv, ?_, Or.inr (hslot.resolve_left (by simp [hpc])), hold⟩
    intro hc
    simp only [served, List.filterMap_append, List.mem_append] at hc
    rcases hc with hc | hc
    · exact hu hc
    · simp [Handler.conn] at hc
  | handler i =>
    have hset : ∀ hd : Handler, hd.conn ≠ some c → c ∉ (s.handlers.set i hd).filterMap Handler.conn := by
      intro hd hne hc
      obtain ⟨x, hx, hxc⟩ := List.mem_filterMap.1 hc
      rcases List.mem_or_eq_of_mem_set hx with hx | rfl
      · exact hu (List.mem_filterMap.2 ⟨x, hx, hxc⟩)
      · exact hne hxc
    simp only [step] at hs
    split_ifs at hs with hpc
    have hne : s.slot ≠ c := hslot.resolve_left hpc
    split at hs
    · cases hs; exact ⟨hv, hset _ nofun, Or.inr hne, hold⟩
    · cases hs; exact ⟨hv, hset _ fun he => hne (Option.some.inj he), Or.inr hne, hold⟩
    · cases hs

/-- overwriting the slot while a thread has still to read it loses the connection of that thread -/
theorem lost_of_not_settled (g : Globals) {s t : AcceptLoop} {l : Label} (h : s.Inv) (hG : ¬ s.Settled l)
    (hs : step g s l = some t) : ∃ c, Lost c t := by
  have key : s.pc = .accepting → (¬ ∀ h ∈ s.handlers, h.conn.isSome = true) →
      ∀ pc, Lost s.slot { s with pc := pc, slot := s.next, next := s.next + 1 } := by
    intro hpc hset pc
    have hshape := h.shape
    simp only [Shape, hpc] at hshape
    rcases hshape with hh | ⟨vs, hd, hv, hh, hn⟩
    · exact absurd (fun x hx => conn_of_mem_serve (hh ▸ hx)) hset
    · have hnodup : s.vetted.Nodup := h.sorted.imp fun hlt => hlt.ne
      rw [hv, List.nodup_append] at hnodup
      refine ⟨by rw [hv]; simp, ?_, Or.inr h.slot_lt.ne', Nat.lt_succ_of_lt h.slot_lt⟩
      intro hc
      simp only [served, hh, List.filterMap_append, conn_serve, List.filterMap_cons_none hn, List.filterMap_nil,
        List.append_nil] at hc
      exact hnodup.2.2 _ hc _ (List.mem_singleton_self _) rfl
  cases l with
  | accept a =>
    simp only [step] at hs
    split_ifs at hs with hc
    cases hs
    exact ⟨_, key hc.1 hG _⟩
  | socket =>
    simp only [step] at hs
    split_ifs at hs with hc
    cases hs
    exact ⟨_, key hc.1 hG _⟩
  | _ => exact absurd trivial hG

/-! ## Main result -/

/-- **Hand-over.** In every run in which the slot is never overwritten while a started thread has still to read it, no
connection is served twice, every connection served has passed its test, and once all threads have read the slot every
connection that passed is served. In a run that ends with all threads past their reads, the hand-over works only if that
condition holds. -/
theorem hand_over {g : Globals} {ls : List Label} {s : AcceptLoop} (h : (system g).exec start ls = some s) :
    ((system g).Meets Settled start ls → s.Exact) ∧ (s.Quiet → s.Exact → (system g).Meets Settled start ls) := by
  constructor
  · intro hG
    exact exact_of_inv (System.exec_inv_meets Inv Settled (step_inv g) h hG inv_start)
  · intro hq hex
    by_contra hG
    obtain ⟨pre, l, post, u, v, -, hu, hpre, hl, hv, hpost⟩ := System.exists_of_not_meets h hG
    have hinv := System.exec_inv_meets Inv Settled (step_inv g) hu hpre inv_start
    obtain ⟨c, hc⟩ := lost_of_not_settled g hinv hl hv
    have hend := System.exec_inv (Lost c) (lost_step g) hpost hc
    exact hend.unserved (hex.complete hq c hend.vetted)

/-- a client without -N on a host with the address 127.0.0.1 -/
def localClient : Globals where
  mode := .client
  netAccess := 0
  debugLevel := 0
  isRendezvous := false
  peeraddr := ⟨Bytes.zero 2, ⟨[10, 0, 0, 1], rfl⟩⟩
  peerRzvLocal := ⟨Bytes.zero 2, Bytes.zero 4⟩

def loopback : SockAddrIn := ⟨⟨[0x9C, 0x40], rfl⟩, ⟨[127, 0, 0, 1], rfl⟩⟩

def stranger : SockAddrIn := ⟨⟨[0x9C, 0x41], rfl⟩, ⟨[10, 0, 0, 9], rfl⟩⟩

def loInterface : Ifaddrs :=
  ⟨"lo", some (.in4 ⟨Bytes.zero 2, ⟨[127, 0, 0, 1], rfl⟩⟩), some (.in4 ⟨Bytes.zero 2, ⟨[255, 0, 0, 0], rfl⟩⟩)⟩

/-- the thread of the first connection reads the slot before the second is accepted -/
def oneByOne : List Label :=
  [.accept loopback, .check (some [loInterface]), .spawn, .handler 0, .handler 0, .accept stranger,
    .check (some [loInterface])]

theorem hand_over_one_by_one :
    ∃ s, (system localClient).exec start oneByOne = some s ∧ s.Quiet ∧ s.vetted = [1] ∧ s.Exact := by
  obtain ⟨s, hs, hq, hv⟩ : ∃ s, (system localClient).exec start oneByOne = some s ∧ s.Quiet ∧ s.vetted = [1] :=
    System.exec_of_any (by decide)
  exact ⟨s, hs, hq, hv, (hand_over hs).1 (by decide)⟩

/-- **The hand-over fails.** The thread of the first connection runs after the second was accepted into the slot: it
serves the second, which does not pass the test, and nobody serves the first. -/
theorem hand_over_fails :
    ¬ ∀ (g : Globals) (ls : List Label) (s : AcceptLoop), (system g).exec start ls = some s → s.Exact := by
  intro h
  obtain ⟨s, hs, hserved, hvetted⟩ : ∃ s, (system localClient).exec start
      [.accept loopback, .check (some [loInterface]), .spawn, .accept stranger, .check (some [loInterface]),
        .handler 0, .handler 0] = some s ∧ s.served = [2] ∧ s.vetted = [1] := System.exec_of_any (by decide)
  have htested := (h _ _ s hs).tested 2 (by rw [hserved]; exact List.mem_cons_self)
  rw [hvetted] at htested
  exact absurd htested (by decide)

end AcceptLoop

end UdtGate
