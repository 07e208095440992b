/-
The access policy of the tunnel, and the two places that enforce it.

`globals::net_access` counts the -N options: without one only the device's own addresses may use the tunnel, with one
also the attached subnets, with two everybody. The accept loop of the client applies this to the source of a connection,
`start_child` on the server to the requested destination, each in its own lines around `check_source`.

- `Admitted` is the policy, byte by byte, and knows nothing of the loops and helpers of `lib/utils.cpp`;
- `same_policy`: both places decide it, for every list of interfaces, whatever the port and the debug level.
-/
import UdtGate.AcceptLoop
import UdtGate.StartChild

namespace UdtGate

/-- who is let through at the level `n`, on a device with the interfaces `ifap` -/
def Admitted (n : ℕ) (a : Bytes 4) (ifap : List Ifaddrs) : Prop :=
  2 ≤ n ∨ (n = 0 ∧ OwnAddress ifap a) ∨ (n = 1 ∧ OnSubnet ifap a)

/-! ## The policy itself -/

theorem admitted_perm {n : ℕ} {a : Bytes 4} {ifap ifap' : List Ifaddrs} (h : ifap.Perm ifap') :
    Admitted n a ifap ↔ Admitted n a ifap' := by
  unfold Admitted OwnAddress OnSubnet
  simp only [h.mem_iff]

/-- a device is on its own subnets -/
theorem onSubnet_of_own {a : Bytes 4} {ifap : List Ifaddrs} (hf : ∀ ifp ∈ ifap, ifp.SameFamily)
    (h : OwnAddress ifap a) : OnSubnet ifap a := by
  obtain ⟨ifp, hi, b, m, hb, hm, heq⟩ := h
  obtain ⟨q, rfl⟩ := hf ifp hi b m hb hm
  exact ⟨ifp, hi, b, q, hb, hm, fun k => by rw [heq k]⟩

theorem admitted_mono {n m : ℕ} {a : Bytes 4} {ifap : List Ifaddrs} (hf : ∀ ifp ∈ ifap, ifp.SameFamily) (hnm : n ≤ m)
    (h : Admitted n a ifap) : Admitted m a ifap := by
  rcases h with h2 | ⟨rfl, hown⟩ | ⟨rfl, hsub⟩
  · exact Or.inl (le_trans h2 hnm)
  · rcases m with _ | _ | m
    · exact Or.inr (Or.inl ⟨rfl, hown⟩)
    · exact Or.inr (Or.inr ⟨rfl, onSubnet_of_own hf hown⟩)
    · exact Or.inl (Nat.le_add_left 2 m)
  · rcases m with _ | _ | m
    · exact absurd hnm (by decide)
    · exact Or.inr (Or.inr ⟨rfl, hsub⟩)
    · exact Or.inl (Nat.le_add_left 2 m)

/-- below level 2 the policy is what `check_source` decides -/
theorem checkSource_admitted {g : Globals} (hn : g.netAccess < 2) {ifap : List Ifaddrs}
    (hf : ∀ ifp ∈ ifap, ifp.SameFamily) (addr : SockAddrIn) :
    ∃ r log, checkSource g.debugLevel addr (g.netAccess > 0) ifap = some (r, log) ∧
      (r = true ↔ Admitted g.netAccess addr.addr ifap) := by
  obtain ⟨r, log, hr, hiff⟩ := checkSource_spec g.debugLevel addr (g.netAccess > 0) ifap hf
  refine ⟨r, log, hr, hiff.trans ?_⟩
  unfold Admitted
  have hcases : g.netAccess = 0 ∨ g.netAccess = 1 := by omega
  rcases hcases with h | h <;> simp [h]

/-! ## The two places -/

/-- the accept loop of the client admits the source it is testing -/
theorem accept_admits {g : Globals} (hmode : g.mode = .client) {ifap : List Ifaddrs}
    (hf : ∀ ifp ∈ ifap, ifp.SameFamily) {s : AcceptLoop} {addr : SockAddrIn} (hpc : s.pc = .checking addr) :
    ∃ t, AcceptLoop.step g s (.check (some ifap)) = some t ∧
      ((Admitted g.netAccess addr.addr ifap ∧ t.pc = .spawning) ∨
        (¬ Admitted g.netAccess addr.addr ifap ∧ t.pc = .accepting)) := by
  by_cases hn : g.netAccess < 2
  · obtain ⟨r, log, hr, hiff⟩ := checkSource_admitted hn hf addr
    have hcheck : AcceptLoop.sourceCheck g addr (some ifap) = some r := by
      simp [AcceptLoop.sourceCheck, hmode, hn, hr]
    cases r with
    | true =>
      exact ⟨{ s with pc := .spawning, vetted := s.vetted ++ [s.slot] }, by simp [AcceptLoop.step, hpc, hcheck],
        Or.inl ⟨hiff.1 rfl, rfl⟩⟩
    | false =>
      refine ⟨{ s with pc := .accepting }, by simp [AcceptLoop.step, hpc, hcheck], Or.inr ⟨?_, rfl⟩⟩
      intro hadm
      exact absurd (hiff.2 hadm) Bool.false_ne_true
  · have hcheck : AcceptLoop.sourceCheck g addr (some ifap) = some true := by
      simp [AcceptLoop.sourceCheck, hmode, hn]
    exact ⟨{ s with pc := .spawning, vetted := s.vetted ++ [s.slot] }, by simp [AcceptLoop.step, hpc, hcheck],
      Or.inl ⟨Or.inl (not_lt.1 hn), rfl⟩⟩

/-- one more step, if the thread asks for the interfaces -/
def StartChild.answerIfaddrs (g : Globals) (s : StartChild) (b : Ans) : StartChild :=
  if call g s = some .getifaddrs then resume g s b else s

/-- the server goes on from the end of the request to the connect, or to the refusal -/
theorem server_admits {g : Globals} {ifap : List Ifaddrs} (hf : ∀ ifp ∈ ifap, ifp.SameFamily) {s : StartChild}
    {a b : Ans} (hpc : s.pc = .server .userId) (hz : StartChild.recvChar s.c a.data = 0) (hb : 0 ≤ b.rc)
    (hi : b.ifap = ifap) :
    (Admitted g.netAccess s.spkt.dstip ifap ∧
        (StartChild.answerIfaddrs g (StartChild.resume g s a) b).pc = .server .connect ∧
        (StartChild.answerIfaddrs g (StartChild.resume g s a) b).spkt = s.spkt) ∨
      (¬ Admitted g.netAccess s.spkt.dstip ifap ∧
        (StartChild.answerIfaddrs g (StartChild.resume g s a) b).pc = .server .refuse ∧
        (StartChild.answerIfaddrs g (StartChild.resume g s a) b).spkt.cd = 92) := by
  by_cases hn : g.netAccess < 2
  · have hs : StartChild.resume g s a = { s with c := 0, pc := .server .check } := by
      simp [StartChild.resume, hpc, StartChild.srvResume, StartChild.userId, hz, hn]
    obtain ⟨r, log, hr, hiff⟩ := checkSource_admitted hn hf s.spkt.dst
    have hrc : ¬ b.rc < 0 := not_lt.2 hb
    rw [hs]
    cases r with
    | true =>
      refine Or.inl ⟨hiff.1 rfl, ?_, ?_⟩ <;>
        simp [StartChild.answerIfaddrs, StartChild.call, StartChild.srvCall, StartChild.resume, StartChild.srvResume,
          hrc, hi, hr]
    | false =>
      refine Or.inr ⟨fun hadm => absurd (hiff.2 hadm) Bool.false_ne_true, ?_, ?_⟩ <;>
        simp [StartChild.answerIfaddrs, StartChild.call, StartChild.srvCall, StartChild.resume, StartChild.srvResume,
          hrc, hi, hr]
  · have hs : StartChild.resume g s a = { s with c := 0, pc := .server .connect } := by
      simp [StartChild.resume, hpc, StartChild.srvResume, StartChild.userId, hz, hn]
    rw [hs]
    refine Or.inl ⟨Or.inl (not_lt.1 hn), ?_, ?_⟩ <;>
      simp [StartChild.answerIfaddrs, StartChild.call, StartChild.srvCall]

/-! ## Main result -/

/-- **One policy at both ends.** For every level, every list of interfaces whose netmasks have the family of their
addresses, every port and every debug level: the accept loop of the client admits the source `addr` exactly when `addr`
is admitted, and rejects it otherwise; the server goes on to connect to the destination `addr` exactly when it is
admitted, and refuses it otherwise. Neither ends the process. The policy does not depend on the order of the interfaces
and is monotone in the level. -/
theorem same_policy {ifap : List Ifaddrs} (hf : ∀ ifp ∈ ifap, ifp.SameFamily) (g : Globals) (addr : SockAddrIn) :
    (∀ s : AcceptLoop, g.mode = .client → s.pc = .checking addr →
      ∃ t, AcceptLoop.step g s (.check (some ifap)) = some t ∧
        ((Admitted g.netAccess addr.addr ifap ∧ t.pc = .spawning) ∨
          (¬ Admitted g.netAccess addr.addr ifap ∧ t.pc = .accepting))) ∧
    (∀ (s : StartChild) (a b : Ans), s.pc = .server .userId → s.spkt.dst = addr →
      StartChild.recvChar s.c a.data = 0 → 0 ≤ b.rc → b.ifap = ifap →
        (Admitted g.netAccess addr.addr ifap ∧
          StartChild.call g (StartChild.answerIfaddrs g (StartChild.resume g s a) b) =
            some (.connect (StartChild.answerIfaddrs g (StartChild.resume g s a) b).cargs.tcpsock addr)) ∨
        (¬ Admitted g.netAccess addr.addr ifap ∧
          (StartChild.answerIfaddrs g (StartChild.resume g s a) b).pc = .server .refuse)) ∧
    (∀ (n : ℕ) (ifap' : List Ifaddrs), ifap.Perm ifap' → (Admitted n addr.addr ifap ↔ Admitted n addr.addr ifap')) ∧
    (∀ n m : ℕ, n ≤ m → Admitted n addr.addr ifap → Admitted m addr.addr ifap) := by
  refine ⟨?_, ?_, ?_, ?_⟩
  · intro s hmode hpc
    exact accept_admits hmode hf hpc
  · intro s a b hpc hdst hz hb hi
    have hip : s.spkt.dstip = addr.addr := by rw [← hdst]; rfl
    rcases server_admits (g := g) hf hpc hz hb hi with ⟨hadm, hgo, hpkt⟩ | ⟨hadm, hno, -⟩
    · rw [hip] at hadm
      refine Or.inl ⟨hadm, ?_⟩
      simp only [StartChild.call, hgo, StartChild.srvCall, hpkt, hdst]
    · rw [hip] at hadm
      exact Or.inr ⟨hadm, hno⟩
  · intro n ifap' hperm
    exact admitted_perm hperm
  · intro n m hnm
    exact admitted_mono hf hnm

/-- the neighbour 127.3.2.1 of the interface `lo`, with one -N option -/
theorem same_policy_subnet :
    ∃ t, AcceptLoop.step { AcceptLoop.localClient with netAccess := 1 }
        { AcceptLoop.start with pc := .checking ⟨⟨[1, 2], rfl⟩, ⟨[127, 3, 2, 1], rfl⟩⟩ }
        (.check (some [⟨"eth0", none, none⟩, AcceptLoop.loInterface])) = some t ∧ t.pc = .spawning := by
  have hf : ∀ ifp ∈ [⟨"eth0", none, none⟩, AcceptLoop.loInterface], ifp.SameFamily := by
    intro ifp hi b m hb hm
    simp only [List.mem_cons, List.not_mem_nil, or_false] at hi
    rcases hi with rfl | rfl
    · cases hb
    · cases hm; exact ⟨_, rfl⟩
  obtain ⟨haccept, -⟩ :=
    same_policy hf { AcceptLoop.localClient with netAccess := 1 } ⟨⟨[1, 2], rfl⟩, ⟨[127, 3, 2, 1], rfl⟩⟩
  obtain ⟨t, ht, h⟩ := haccept
    { AcceptLoop.start with pc := .checking ⟨⟨[1, 2], rfl⟩, ⟨[127, 3, 2, 1], rfl⟩⟩ } rfl rfl
  rcases h with ⟨-, hpc⟩ | ⟨hno, -⟩
  · exact ⟨t, ht, hpc⟩
  · refine absurd (Or.inr (Or.inr ⟨rfl, AcceptLoop.loInterface, by simp, _, _, rfl, rfl, ?_⟩)) hno
    decide

end UdtGate
