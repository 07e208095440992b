/-
The header loop of the server: it receives into `spkt` until its eight bytes are there.

The loop adds what `UDT::recv` returns to its pointer, and UDT::ERROR is -1. The pointer is the offset `p` of
`SrvPc.header`, so the packet is the range from 0 to 8.

- `stays_in_packet`: in a run of the server branch, the pointer stays in the packet, each receive asks for the bytes
  still missing and none follows an ERROR, in every state, if and only if no receive of the loop returns ERROR.
- `leaves_packet`: one ERROR at the start of the header puts the pointer in front of the packet.
-/
import UdtGate.Client

namespace UdtGate

open UdtGate.Core

namespace HeaderLoop

open StartChild

/-- no receive from the UDT socket returned ERROR -/
def NoError (l : Log) : Prop := ∀ e ∈ l, e.1.isUdtRecv = true → e.2.rc ≠ -1

theorem NoError.snoc {l : Log} (h : NoError l) {e : Call × Ans} (he : e.1.isUdtRecv = true → e.2.rc ≠ -1) :
    NoError (l ++ [e]) := by
  intro x hx
  rcases List.mem_append.1 hx with hx | hx
  · exact h x hx
  · rw [List.mem_singleton.1 hx]; exact he

/-- the loop with its pointer at `p`: it is in the packet and stays there whatever the next receive returns above it,
that receive asks for the bytes that are still missing, and no receive before it returned ERROR -/
structure At (g : Globals) (s : Machine.Logged StartChild Call Ans) (p : ℤ) : Prop where
  low : 0 ≤ p
  high : p ≤ 8
  next : ∀ a, permitted (.udtRecv s.st.cargs.udtsock (8 - p)) a = true → p + a.rc ≤ 8
  asked : call g s.st = some (.udtRecv s.st.cargs.udtsock (8 - (udtIn s.log).length))
  noError : NoError s.log

/-- the header loop, when the thread is in it, is in its packet; nothing was stored outside -/
structure InPacket (g : Globals) (s : Machine.Logged StartChild Call Ans) : Prop where
  header : ∀ p, s.st.pc = .server (.header p) → At g s p
  stored : s.st.pc ≠ .undefined

/-- the receive of the header loop does not return ERROR -/
def Returns (s : Machine.Logged StartChild Call Ans) (a : Ans) : Prop :=
  match s.st.pc with
  | .server (.header _) => a.rc ≠ -1
  | _ => True

instance (s : Machine.Logged StartChild Call Ans) (a : Ans) : Decidable (Returns s a) := by
  unfold Returns; split <;> infer_instance

/-! ## The invariant -/

/-- the pointer is the number of bytes received -/
def Inv (s : StartChild) (l : Log) : Prop :=
  match s.pc with
  | .server .peername | .server .socket => udtIn l = [] ∧ NoError l
  | .server (.header p) => p < 8 ∧ ((udtIn l).length : ℤ) = p ∧ NoError l
  | .undefined => False
  | _ => True

/-- a point that is neither before nor in the loop -/
def past : Pc → Bool
  | .server .peername | .server .socket | .server (.header _) | .undefined => false
  | _ => true

theorem inv_of_past {s : StartChild} (h : past s.pc = true) (l : Log) : Inv s l := by
  obtain ⟨pc, sd, spkt, ch, k⟩ := s
  cases pc with
  | server pc =>
    cases pc with
    | peername | socket | header p => cases h
    | _ => trivial
  | undefined => cases h
  | _ => trivial

theorem past_userId {s : StartChild} {pc : Pc} (hs : past s.pc = true) (hpc : past pc = true) :
    past (userId s pc).pc = true := by
  unfold userId
  split_ifs
  · exact hs
  · exact hpc

/-- the thread does not come back to the loop -/
theorem past_resume {s : StartChild} (g : Globals) (a : Ans) (h : past s.pc = true) :
    past (resume g s a).pc = true := by
  obtain ⟨pc, sd, spkt, ch, k⟩ := s
  cases pc with
  | server pc =>
    cases pc with
    | peername | socket | header p => cases h
    | userId => exact past_userId rfl (by split_ifs <;> rfl)
    | check =>
      simp only [resume, srvResume]
      split_ifs
      · rfl
      · split <;> rfl
    | connect =>
      simp only [resume, srvResume]
      split_ifs <;> rfl
    | _ => rfl
  | client pc =>
    cases pc with
    | request =>
      simp only [resume, cliResume, request]
      split_ifs <;> rfl
    | userId => exact past_userId rfl rfl
    | options | bind | connect | reply | answer =>
      simp only [resume, cliResume]
      split_ifs <;> rfl
    | _ => rfl
  | undefined => cases h
  | _ => rfl

/-- where the loop goes with its pointer at `p` -/
theorem inv_header (s : StartChild) {p : ℤ} {l : Log} (hp : ((udtIn l).length : ℤ) = p) (hne : NoError l) :
    Inv (header s p) l := by
  unfold header
  split_ifs with hlt
  · exact ⟨hlt, hp, hne⟩
  all_goals trivial

theorem step_inv {g : Globals} {s : StartChild} {l : Log} {c : Call} {a : Ans} (h : Inv s l) (hG : Returns ⟨s, l⟩ a)
    (hc : call g s = some c) (hok : permitted c a = true) : Inv (resume g s a) (l ++ [(c, a)]) := by
  by_cases hpast : past s.pc = true
  · exact inv_of_past (past_resume g a hpast) _
  obtain ⟨pc, sd, spkt, ch, k⟩ := s
  cases pc with
  | server pc =>
    cases pc with
    | peername =>
      obtain rfl : Call.udtGetpeername sd = c := Option.some.inj hc
      obtain ⟨hin, hne⟩ := h
      exact ⟨by rw [udtIn_append, hin]; rfl, hne.snoc fun h => by cases h⟩
    | socket =>
      obtain rfl : Call.socket = c := Option.some.inj hc
      obtain ⟨hin, hne⟩ := h
      simp only [resume, srvResume]
      apply inv_header
      · rw [udtIn_append, hin]; rfl
      · exact hne.snoc (fun h => by cases h)
    | header p =>
      obtain rfl : Call.udtRecv k.udtsock (8 - p) = c := Option.some.inj hc
      obtain ⟨hp, hlen, hne⟩ := h
      have hrc : a.rc = a.data.length := by
        rcases permitted_udtRecv hok with ⟨hl, -⟩ | ⟨hl, -⟩
        · exact hl
        · exact absurd hl hG
      have hp0 : ¬ (p < 0 ∧ a.data ≠ []) := by rintro ⟨hneg, -⟩; omega
      simp only [resume, srvResume, if_neg hp0]
      apply inv_header
      · calc ((udtIn (l ++ [(.udtRecv k.udtsock (8 - p), a)])).length : ℤ)
            = (udtIn l).length + a.data.length := by rw [udtIn_append]; simp [udtIn]
          _ = p + a.rc := by rw [hlen, hrc]
      · exact hne.snoc fun _ => hG
    | _ => exact absurd rfl hpast
  | undefined => exact h.elim
  | _ => exact absurd rfl hpast

theorem inPacket_of_inv {g : Globals} {s : Machine.Logged StartChild Call Ans} (h : Inv s.st s.log) : InPacket g s := by
  obtain ⟨⟨pc, sd, spkt, ch, k⟩, l⟩ := s
  constructor
  · intro p hpc
    simp only at hpc
    subst hpc
    obtain ⟨hp, hlen, hne⟩ := h
    refine ⟨by omega, by omega, ?_, ?_, hne⟩
    · intro a ha
      rcases permitted_udtRecv ha with ⟨-, hle⟩ | ⟨hl, -⟩
      · linarith
      · omega
    · simp only [call, srvCall, ← hlen]
  · intro hpc
    simp only at hpc
    subst hpc
    exact h

/-! ## Main result -/

/-- after an ERROR the loop goes on: its next receive follows an ERROR -/
theorem not_inPacket_of_error {g : Globals} {s t : Machine.Logged StartChild Call Ans} {a : Ans} (h : InPacket g s)
    (hG : ¬ Returns s a) (hs : (machine g).logged.step permitted s a = some t) : ¬ InPacket g t := by
  obtain ⟨⟨pc, sd, spkt, ch, k⟩, l⟩ := s
  obtain ⟨c, hc, hok, rfl⟩ := Machine.logged_cases hs
  unfold Returns at hG
  split at hG
  · rename_i p hpc
    simp only at hpc
    subst hpc
    obtain rfl : Call.udtRecv k.udtsock (8 - p) = c := Option.some.inj hc
    have herr : a.rc = -1 := not_not.1 hG
    have hp := (h.header p rfl).high
    have hdata : a.data = [] := (length_of_permitted (permitted_udtRecv hok)).2.2 (by omega)
    have hpc : ((machine g).resume ⟨.server (.header p), sd, spkt, ch, k⟩ a).pc = .server (.header (p + a.rc)) := by
      have hdef : ¬ (p < 0 ∧ a.data ≠ []) := fun hd => hd.2 hdata
      have hlt : p + a.rc < 8 := by omega
      simp only [machine, resume, srvResume, if_neg hdef, header, if_pos hlt]
    intro hin
    exact (hin.header _ hpc).noError (.udtRecv k.udtsock (8 - p), a) (by simp) rfl herr
  · exact absurd trivial hG

/-- **The header loop and its packet.** Along a run of the server branch, whatever the socket calls return: the pointer
is in the packet, every receive asks for exactly the bytes still missing and none follows an ERROR, in every state of
the run, if and only if no receive of the loop returns ERROR. -/
theorem stays_in_packet {g : Globals} {sd : ℤ} {spkt : SockPkt} {ch : UInt8} {k : Cargs} {as : List Ans}
    {s : Machine.Logged StartChild Call Ans}
    (h : (system g (start .server sd spkt ch k)).exec ⟨start .server sd spkt ch k, []⟩ as = some s) :
    (∀ pre post t, as = pre ++ post →
        (system g (start .server sd spkt ch k)).exec ⟨start .server sd spkt ch k, []⟩ pre = some t → InPacket g t) ↔
      (system g (start .server sd spkt ch k)).Meets Returns ⟨start .server sd spkt ch k, []⟩ as := by
  have hstart : Inv (start .server sd spkt ch k) [] := ⟨rfl, nofun⟩
  have hstep : ∀ (u : Machine.Logged StartChild Call Ans) a v, Inv u.st u.log → Returns u a →
      (system g (start .server sd spkt ch k)).step u a = some v → Inv v.st v.log := by
    intro u a v hu hG hv
    obtain ⟨c, hc, hok, rfl⟩ := Machine.logged_cases hv
    exact step_inv hu hG hc hok
  constructor
  · intro hin
    by_contra hG
    obtain ⟨pre, a, post, u, v, rfl, hu, -, ha, hv, -⟩ := System.exists_of_not_meets h hG
    have hbefore := hin pre (a :: post) u rfl hu
    have hafter := hin (pre ++ [a]) post v (by simp) (System.exec_snoc.2 ⟨u, hu, hv⟩)
    exact not_inPacket_of_error hbefore ha hv hafter
  · rintro hG pre post t rfl ht
    have hpre := System.meets_of_append hG
    exact inPacket_of_inv (System.exec_inv_meets (fun u => Inv u.st u.log) Returns hstep ht hpre hstart)

/-- the relay at the far end of the tunnel, without -N -/
def farEnd : Globals := ⟨.server, 0, 0, false, ⟨Bytes.zero 2, Bytes.zero 4⟩, ⟨Bytes.zero 2, Bytes.zero 4⟩⟩

/-- a thread for the connection 9; what is left on its stack is zero -/
def thread : StartChild := start .server 9 ⟨0, 0, Bytes.zero 2, Bytes.zero 4⟩ 0 ⟨0, 0⟩

/-- the eight bytes of a request, in two parts -/
def inParts : List Ans :=
  [{ rc := 0 }, { rc := 7 }, { rc := 3, data := [4, 1, 0] }, { rc := 5, data := [80, 10, 0, 0, 5] }]

theorem stays_in_packet_two_parts :
    ∃ s, (system farEnd thread).exec ⟨thread, []⟩ inParts = some s ∧ s.st.pc = .server .userId ∧
      ∀ pre post t, inParts = pre ++ post → (system farEnd thread).exec ⟨thread, []⟩ pre = some t →
        InPacket farEnd t := by
  obtain ⟨s, hs, hpc⟩ : ∃ s, (system farEnd thread).exec ⟨thread, []⟩ inParts = some s ∧ s.st.pc = .server .userId :=
    System.exec_of_any (by decide)
  exact ⟨s, hs, hpc, (stays_in_packet hs).2 (by decide)⟩

/-- **The pointer leaves the packet.** An ERROR as the first result puts it in front of the packet. -/
theorem leaves_packet :
    ¬ ∀ (g : Globals) (sd : ℤ) (spkt : SockPkt) (ch : UInt8) (k : Cargs) (as : List Ans)
      (s : Machine.Logged StartChild Call Ans),
      (system g (start .server sd spkt ch k)).exec ⟨start .server sd spkt ch k, []⟩ as = some s → InPacket g s := by
  intro h
  obtain ⟨s, hs, hpc⟩ : ∃ s,
      (system farEnd thread).exec ⟨thread, []⟩ [{ rc := 0 }, { rc := 7 }, { rc := -1 }] = some s ∧
      s.st.pc = .server (.header (-1)) := System.exec_of_any (by decide)
  have hlow := ((h farEnd 9 _ 0 _ _ s hs).header (-1) hpc).low
  exact absurd hlow (by decide)

end HeaderLoop

end UdtGate
