/-
Does the handshake of `start_child` come to an end? The receive loops over streams that end.

What the application sends and what comes through the tunnel are two finite byte strings, each followed for ever by 0
(the end of the stream) or by -1 (an error). A `Peer` is such an environment. The data come in any fragmentation, only
the request of the client is received with MSG_WAITALL, which delivers its eight bytes, or fewer when it is cut short.

- `handshake_ends_iff`: all runs of the handshake end if and only if the loops find what they wait for: on the server
  eight bytes, and a zero byte behind them unless they are refused; on the client a zero byte behind what was taken for
  a request, unless that is refused, and at least one byte of a reply, or an error in its place.
- `handshake_spins`: a tunnel that closes after the first byte of the header keeps the thread in its loop.
-/
import UdtGate.HeaderLoop
import UdtGate.Server

namespace UdtGate

open UdtGate.Core

/-! ## Streams that end -/

/-- what every receive returns after the last byte -/
inductive Ending where
  | eof
  | error
deriving DecidableEq

def Ending.rc : Ending → ℤ
  | .eof => 0
  | .error => -1

/-- what the two sockets deliver during the handshake -/
structure Peer where
  app : List UInt8
  appEnd : Ending
  tunnel : List UInt8
  tunnelEnd : Ending
  /-- how many bytes the MSG_WAITALL receive delivers when there are so many -/
  cut : ℕ

/-- a receive of `n` bytes from the stream `rest`: at least one byte while there is one, then the ending -/
def delivers (rest : List UInt8) (e : Ending) (n : ℤ) (a : Ans) : Bool :=
  if rest = [] then a.rc = e.rc && a.data = []
  else 1 ≤ a.rc && a.rc ≤ n && a.data = rest.take a.rc.toNat && a.rc = a.data.length

/-- a thread with the bytes it has still to receive -/
structure Fed where
  st : StartChild
  app : List UInt8
  tunnel : List UInt8
deriving DecidableEq

namespace Fed

/-- the answers that the streams of `e` give -/
def gives (e : Peer) (s : Fed) (c : Call) (a : Ans) : Bool :=
  match c with
  | .recv _ n true => delivers (s.app.take e.cut) e.appEnd n a && (s.app = [] || a.rc = (s.app.take e.cut).length)
  | .recv _ n false => delivers s.app e.appEnd n a
  | .udtRecv _ n => delivers s.tunnel e.tunnelEnd n a
  | _ => true

/-- the state after the answer `a` to the call `c` -/
def next (g : Globals) (s : Fed) (c : Call) (a : Ans) : Fed where
  st := StartChild.resume g s.st a
  app := s.app.drop (tcpIn [(c, a)]).length
  tunnel := s.tunnel.drop (udtIn [(c, a)]).length

def step (g : Globals) (e : Peer) (s : Fed) (a : Ans) : Option Fed :=
  match StartChild.call g s.st with
  | none => none
  | some c => if permitted c a && gives e s c a then some (next g s c a) else none

def start (e : Peer) (s : StartChild) : Fed := ⟨s, e.app, e.tunnel⟩

/-- all runs of the thread `s` over the streams of `e` -/
def system (g : Globals) (e : Peer) (s : StartChild) : System Fed Ans := ⟨fun t => t = start e s, step g e⟩

theorem step_cases {g : Globals} {e : Peer} {s t : Fed} {a : Ans} (h : step g e s a = some t) :
    ∃ c, StartChild.call g s.st = some c ∧ permitted c a = true ∧ gives e s c a = true ∧ t = next g s c a := by
  unfold step at h
  cases hc : StartChild.call g s.st with
  | none => rw [hc] at h; cases h
  | some c =>
    rw [hc] at h
    simp only at h
    split_ifs at h with hok
    obtain ⟨hp, hg⟩ := (Bool.and_eq_true _ _).mp hok
    exact ⟨c, rfl, hp, hg, (Option.some.inj h).symm⟩

theorem step_of {g : Globals} {e : Peer} {s : Fed} {c : Call} {a : Ans} (hc : StartChild.call g s.st = some c)
    (hp : permitted c a = true) (hg : gives e s c a = true) : step g e s a = some (next g s c a) := by
  simp only [step, hc, hp, hg, Bool.and_self, if_true]

end Fed

/-- what a receive from a stream returns -/
theorem delivers_cases {rest : List UInt8} {e : Ending} {n : ℤ} {a : Ans} (h : delivers rest e n a = true) :
    (rest = [] ∧ a.rc = e.rc ∧ a.data = []) ∨
      (rest ≠ [] ∧ 1 ≤ a.rc ∧ a.rc ≤ n ∧ a.data = rest.take a.rc.toNat ∧ a.rc = a.data.length) := by
  unfold delivers at h
  split_ifs at h with hr
  · simp only [Bool.and_eq_true, decide_eq_true_eq] at h
    exact Or.inl ⟨hr, h.1, h.2⟩
  · simp only [Bool.and_eq_true, decide_eq_true_eq] at h
    obtain ⟨⟨⟨h1, h2⟩, h3⟩, h4⟩ := h
    exact Or.inr ⟨hr, h1, h2, h3, h4⟩

/-- every receive of at least one byte has an answer -/
theorem exists_delivers (rest : List UInt8) (e : Ending) (sd : ℤ) {n : ℤ} (hn : 1 ≤ n) :
    ∃ a : Ans, delivers rest e n a = true ∧ permitted (.udtRecv sd n) a = true ∧
      permitted (.recv sd n false) a = true := by
  have hok : ∀ a : Ans, (a.rc = a.data.length ∧ a.rc ≤ n) ∨ (a.rc = -1 ∧ a.data = []) →
      permitted (.udtRecv sd n) a = true ∧ permitted (.recv sd n false) a = true := by
    intro a ha
    simpa [permitted] using ha
  cases rest with
  | nil =>
    refine ⟨{ rc := e.rc }, by simp [delivers], hok _ ?_⟩
    cases e with
    | eof => exact Or.inl ⟨rfl, le_trans (by decide) hn⟩
    | error => exact Or.inr ⟨rfl, rfl⟩
  | cons b rest => exact ⟨{ rc := 1, data := [b] }, by simp [delivers, hn], hok _ (Or.inl ⟨rfl, hn⟩)⟩

/-! ## The scan of the user id -/

/-- a zero byte is to come, or nothing is to come and `c` is zero already -/
def Terminated (rest : List UInt8) (c : UInt8) : Prop := 0 ∈ rest ∨ (rest = [] ∧ c = 0)

instance (rest : List UInt8) (c : UInt8) : Decidable (Terminated rest c) := inferInstanceAs (Decidable (_ ∨ _))

/-- one receive of the scan: `c` becomes zero only if the id was terminated, and otherwise nothing is decided -/
theorem terminated_iff {rest : List UInt8} {e : Ending} {a : Ans} (h : delivers rest e 1 a = true) (c : UInt8) :
    (StartChild.recvChar c a.data = 0 → Terminated rest c) ∧
      (StartChild.recvChar c a.data ≠ 0 →
        (Terminated rest c ↔ Terminated (rest.drop a.data.length) (StartChild.recvChar c a.data)) ∧
          (Terminated rest c → a.data.length = 1 ∧ rest ≠ [])) := by
  rcases delivers_cases h with ⟨rfl, -, hdata⟩ | ⟨hr, h1, hn, hdata, hlen⟩
  · rw [hdata]
    refine ⟨fun h0 => Or.inr ⟨rfl, h0⟩, fun hne => ⟨Iff.rfl, ?_⟩⟩
    rintro (h0 | ⟨-, h0⟩)
    · cases h0
    · exact absurd h0 hne
  · obtain ⟨b, rest, rfl⟩ := List.exists_cons_of_ne_nil hr
    have hrc : a.rc = 1 := by omega
    have hb : a.data = [b] := by rw [hdata, hrc]; rfl
    rw [hb]
    refine ⟨fun h0 => Or.inl (by rw [← show b = 0 from h0]; exact List.mem_cons_self), ?_⟩
    intro hne
    have hb0 : b ≠ 0 := hne
    refine ⟨?_, fun _ => ⟨rfl, List.cons_ne_nil _ _⟩⟩
    constructor
    · rintro (h0 | ⟨h0, -⟩)
      · rcases List.mem_cons.1 h0 with h0 | h0
        · exact absurd h0.symm hb0
        · exact Or.inl h0
      · cases h0
    · rintro (h0 | ⟨-, h0⟩)
      · exact Or.inl (List.mem_cons_of_mem _ h0)
      · exact absurd h0 hne

/-! ## The order of the handshake -/

namespace StartChild

/-- the handshake has ended: the data threads, the closes, the return, or the end of the process -/
def Over (s : StartChild) : Prop :=
  match s.pc with
  | .server _ | .client _ | .undefined => False
  | _ => True

instance (s : StartChild) : Decidable s.Over := by unfold Over; split <;> infer_instance

/-- the number of points still ahead in the handshake -/
def phase : Pc → ℕ
  | .server .peername => 7
  | .server .socket => 6
  | .server (.header _) => 5
  | .server .userId => 4
  | .server .check => 3
  | .server .connect => 2
  | .server .reject | .server .refuse | .server .granted => 1
  | .client .peername => 12
  | .client .socket => 11
  | .client .request => 10
  | .client .userId => 9
  | .client .options => 8
  | .client .bind => 7
  | .client .connect => 6
  | .client .forward => 5
  | .client .forwardNul => 4
  | .client .reply => 3
  | .client .answer => 2
  | .client .refuse => 1
  | _ => 0

/-- the receive loops -/
def loops : Pc → Bool
  | .server (.header _) | .server .userId | .client .userId | .client .reply => true
  | _ => false

theorem phase_header (s : StartChild) (p : ℤ) : phase (header s p).pc ≤ 5 := by
  unfold header
  split_ifs <;> simp [phase]

theorem phase_userId {s : StartChild} {pc : Pc} (h : phase pc ≤ phase s.pc) :
    phase (userId s pc).pc ≤ phase s.pc := by
  unfold userId
  split_ifs
  · exact le_refl _
  · exact h

/-- no point comes back, and only the loops stay -/
theorem phase_resume (g : Globals) (s : StartChild) (a : Ans) (hs : ¬ s.Over) (hpc : s.pc ≠ .undefined) :
    phase (resume g s a).pc ≤ phase s.pc ∧ (loops s.pc = false → phase (resume g s a).pc < phase s.pc) := by
  obtain ⟨pc, sd, spkt, ch, k⟩ := s
  cases pc with
  | server pc =>
    cases pc with
    | peername => exact ⟨by simp [resume, srvResume, phase], fun _ => by simp [resume, srvResume, phase]⟩
    | socket =>
      have hle := phase_header ⟨.server .socket, sd, spkt, ch, ⟨sd, a.rc⟩⟩ 0
      simp only [resume, srvResume]
      exact ⟨le_trans hle (by decide), fun _ => lt_of_le_of_lt hle (by decide)⟩
    | header p =>
      refine ⟨?_, fun h => by cases h⟩
      simp only [resume, srvResume]
      split_ifs
      · exact Nat.zero_le _
      · exact phase_header _ _
    | userId =>
      refine ⟨?_, fun h => by cases h⟩
      simp only [resume, srvResume]
      split_ifs
      · exact phase_userId (s := ⟨.server .userId, sd, spkt, recvChar ch a.data, k⟩) (by simp [phase])
      · exact phase_userId (s := ⟨.server .userId, sd, spkt, recvChar ch a.data, k⟩) (by simp [phase])
    | check =>
      have hlt : phase (resume g ⟨.server .check, sd, spkt, ch, k⟩ a).pc < 3 := by
        simp only [resume, srvResume]
        split_ifs
        · simp [phase]
        · split <;> simp [phase]
      exact ⟨hlt.le, fun _ => hlt⟩
    | connect =>
      have hlt : phase (resume g ⟨.server .connect, sd, spkt, ch, k⟩ a).pc < 2 := by
        simp only [resume, srvResume]
        split_ifs <;> simp [phase]
      exact ⟨hlt.le, fun _ => hlt⟩
    | reject | refuse | granted => exact ⟨Nat.zero_le _, fun _ => Nat.one_pos⟩
  | client pc =>
    cases pc with
    | peername | socket | forward | forwardNul =>
      exact ⟨by simp [resume, cliResume, phase], fun _ => by simp [resume, cliResume, phase]⟩
    | request =>
      have hlt : phase (resume g ⟨.client .request, sd, spkt, ch, k⟩ a).pc < 10 := by
        simp only [resume, cliResume, request]
        split_ifs <;> simp [phase]
      exact ⟨hlt.le, fun _ => hlt⟩
    | refuse => exact ⟨Nat.zero_le _, fun _ => Nat.one_pos⟩
    | userId =>
      refine ⟨?_, fun h => by cases h⟩
      exact phase_userId (s := ⟨.client .userId, sd, spkt, recvChar ch a.data, k⟩) (by simp [phase])
    | options | bind | connect | answer =>
      refine ⟨?_, fun _ => ?_⟩ <;> (simp only [resume, cliResume]; split_ifs <;> simp [phase])
    | reply =>
      refine ⟨?_, fun h => by cases h⟩
      simp only [resume, cliResume]
      split_ifs <;> simp [phase]
  | undefined => exact absurd rfl hpc
  | _ => exact absurd trivial hs

/-- after the handshake there is no way back -/
theorem over_resume {s : StartChild} (g : Globals) (a : Ans) (h : s.Over) : (resume g s a).Over := by
  obtain ⟨pc, sd, spkt, ch, k⟩ := s
  cases pc with
  | server pc | client pc | undefined => exact h.elim
  | _ => trivial

end StartChild

/-! ## Which streams end the handshake -/

/-- the server's loops end on the bytes `b`: a packet that is refused, or a packet and a terminated user id -/
def serverEnds (b : List UInt8) (c : UInt8) : Prop :=
  8 ≤ b.length ∧ (b[0]? ≠ some 4 ∨ b[1]? ≠ some 1 ∨ Terminated (b.drop 8) c)

/-- the client's wait for the reply ends -/
def replyEnds (b : List UInt8) (e : Ending) : Prop := b ≠ [] ∨ e = .error

/-- the client's loops end: what it takes for the request is refused, or the user id is terminated and a reply comes -/
def clientEnds (e : Peer) (spkt : SockPkt) (c : UInt8) : Prop :=
  (spkt.recvAt 0 (e.app.take e.cut)).vn ≠ 4 ∨ (spkt.recvAt 0 (e.app.take e.cut)).cd ≠ 1 ∨
    (Terminated (e.app.drop e.cut) c ∧ replyEnds e.tunnel e.tunnelEnd)

instance (b : List UInt8) (c : UInt8) : Decidable (serverEnds b c) := inferInstanceAs (Decidable (_ ∧ _))

instance (b : List UInt8) (e : Ending) : Decidable (replyEnds b e) := inferInstanceAs (Decidable (_ ∨ _))

instance (e : Peer) (spkt : SockPkt) (c : UInt8) : Decidable (clientEnds e spkt c) :=
  inferInstanceAs (Decidable (_ ∨ _))

theorem serverEnds_packet (q : SockPkt) (rest : List UInt8) (c : UInt8) :
    serverEnds (q.bytes ++ rest) c ↔ q.vn ≠ 4 ∨ q.cd ≠ 1 ∨ Terminated rest c := by
  have h0 : (q.bytes ++ rest)[0]? = some q.vn := rfl
  have h1 : (q.bytes ++ rest)[1]? = some q.cd := rfl
  have h8 : (q.bytes ++ rest).drop 8 = rest := List.drop_left' q.length_bytes
  have hlen : 8 ≤ (q.bytes ++ rest).length := by rw [List.length_append, q.length_bytes]; omega
  simp only [serverEnds, h0, h1, h8, hlen, true_and, ne_eq, Option.some.injEq]

namespace Fed

open StartChild

/-- from here the handshake ends -/
def Good (e : Peer) (s : Fed) : Prop :=
  match s.st.pc with
  | .server .peername | .server .socket => serverEnds s.tunnel s.st.c
  | .server (.header p) => 0 ≤ p ∧ serverEnds (s.st.spkt.bytes.take p.toNat ++ s.tunnel) s.st.c
  | .server .userId => Terminated s.tunnel s.st.c
  | .client .peername | .client .socket | .client .request =>
    clientEnds { e with app := s.app, tunnel := s.tunnel } s.st.spkt s.st.c
  | .client .userId => Terminated s.app s.st.c ∧ replyEnds s.tunnel e.tunnelEnd
  | .client .options | .client .bind | .client .connect | .client .forward | .client .forwardNul | .client .reply =>
    replyEnds s.tunnel e.tunnelEnd
  | .undefined => False
  | _ => True

/-- what holds in every run: the pointer of the header loop leaves the packet only when nothing more comes -/
def Sane (s : Fed) : Prop :=
  match s.st.pc with
  | .server (.header p) => p < 8 ∧ (p < 0 → s.tunnel = [])
  | .undefined => False
  | _ => True

/-- the condition of the header loop, with its pointer inside the packet or at its end -/
theorem good_header (e : Peer) (s : StartChild) {p : ℤ} (h0 : 0 ≤ p) (h8 : p ≤ 8) (app tunnel : List UInt8) :
    Good e ⟨header s p, app, tunnel⟩ ↔ serverEnds (s.spkt.bytes.take p.toNat ++ tunnel) s.c := by
  unfold header
  split_ifs with hlt hv hc
  · exact ⟨fun h => h.2, fun h => ⟨h0, h⟩⟩
  all_goals
    have hp : p.toNat = 8 := by omega
    rw [hp, List.take_of_length_le (by rw [SockPkt.length_bytes]), serverEnds_packet]
  · exact ⟨fun _ => Or.inl hv, fun _ => trivial⟩
  · exact ⟨fun _ => Or.inr (Or.inl hc), fun _ => trivial⟩
  · refine ⟨fun h => Or.inr (Or.inr h), ?_⟩
    rintro (h | h | h)
    · exact absurd h hv
    · exact absurd h hc
    · exact h

theorem sane_header (s : StartChild) {p : ℤ} (app : List UInt8) {tunnel : List UInt8} (h : p < 0 → tunnel = []) :
    Sane ⟨header s p, app, tunnel⟩ := by
  unfold header
  split_ifs with hlt
  · exact ⟨hlt, h⟩
  all_goals trivial

/-- a receive of the header loop, with its pointer in the packet -/
theorem good_recv {e : Peer} {s : Fed} {p : ℤ} {a : Ans} (h0 : 0 ≤ p) (h8 : p < 8)
    (h : delivers s.tunnel e.tunnelEnd (8 - p) a = true) (hne : s.tunnel ≠ []) :
    (Good e ⟨header { s.st with spkt := s.st.spkt.recvAt p.toNat a.data } (p + a.rc), s.app,
        s.tunnel.drop a.data.length⟩ ↔ serverEnds (s.st.spkt.bytes.take p.toNat ++ s.tunnel) s.st.c) ∧
      0 ≤ p + a.rc ∧ 0 < a.data.length := by
  rcases delivers_cases h with ⟨hnil, -, -⟩ | ⟨-, h1, hn, hdata, hlen⟩
  · exact absurd hnil hne
  · refine ⟨?_, by omega, by omega⟩
    rw [good_header e _ (by omega) (by omega)]
    have hnat : (p + a.rc).toNat = p.toNat + a.data.length := by omega
    have hrc : a.rc.toNat = a.data.length := by omega
    have hsplit : a.data ++ s.tunnel.drop a.data.length = s.tunnel := by
      conv_rhs => rw [← List.take_append_drop a.data.length s.tunnel]
      rw [← hrc, ← hdata]
    simp only
    rw [hnat, Server.take_recvAt (by omega), List.append_assoc, hsplit]

/-! ## Each step keeps what is known of the end -/

/-- the bytes to come and the points ahead -/
def rank (s : Fed) : ℕ := s.app.length + s.tunnel.length + phase s.st.pc

theorem rank_of_phase {g : Globals} {s : Fed} (c : Call) {a : Ans}
    (h : phase (resume g s.st a).pc < phase s.st.pc) : rank (next g s c a) < rank s := by
  simp only [rank, next, List.length_drop]
  omega

theorem rank_of_bytes {g : Globals} {s : Fed} {c : Call} {a : Ans}
    (h : phase (resume g s.st a).pc ≤ phase s.st.pc)
    (hin : (0 < (udtIn [(c, a)]).length ∧ s.tunnel ≠ []) ∨ (0 < (tcpIn [(c, a)]).length ∧ s.app ≠ [])) :
    rank (next g s c a) < rank s := by
  simp only [rank, next, List.length_drop]
  rcases hin with ⟨hlen, hne⟩ | ⟨hlen, hne⟩
  · have hpos := List.length_pos_iff.2 hne
    omega
  · have hpos := List.length_pos_iff.2 hne
    omega

/-- a step away from a point that is no loop -/
theorem rank_of_point {g : Globals} {s : Fed} (c : Call) {a : Ans} (hs : ¬ s.st.Over) (hpc : s.st.pc ≠ .undefined)
    (hl : loops s.st.pc = false) : rank (next g s c a) < rank s :=
  rank_of_phase c ((phase_resume g s.st a hs hpc).2 hl)

/-- one receive of a user id -/
theorem userId_cases {e : Ending} {rest : List UInt8} {s : StartChild} {a : Ans} (pc : Pc)
    (h : delivers rest e 1 a = true) :
    (recvChar s.c a.data = 0 ∧ Terminated rest s.c ∧
        userId { s with c := recvChar s.c a.data } pc = { s with c := recvChar s.c a.data, pc := pc }) ∨
      (userId { s with c := recvChar s.c a.data } pc = { s with c := recvChar s.c a.data } ∧
        (Terminated rest s.c ↔ Terminated (rest.drop a.data.length) (recvChar s.c a.data)) ∧
        (Terminated rest s.c → a.data.length = 1 ∧ rest ≠ [])) := by
  obtain ⟨h0, h1⟩ := terminated_iff h s.c
  unfold userId
  split_ifs with hc
  · obtain ⟨hiff, hone⟩ := h1 hc
    exact Or.inr ⟨rfl, hiff, hone⟩
  · have hz : recvChar s.c a.data = 0 := not_not.1 hc
    exact Or.inl ⟨hz, h0 hz, rfl⟩

/-- what the MSG_WAITALL receive delivers -/
theorem request_data {e : Peer} {s : Fed} {sd : ℤ} {a : Ans}
    (h : gives e s (.recv sd 8 true) a = true) :
    a.data = s.app.take e.cut ∧ s.app.drop a.data.length = s.app.drop e.cut := by
  obtain ⟨hd, hall⟩ := (Bool.and_eq_true _ _).mp h
  have hdata : a.data = s.app.take e.cut := by
    rcases delivers_cases hd with ⟨hnil, -, hdata⟩ | ⟨hne, -, -, hdata, -⟩
    · rw [hdata, hnil]
    · have happ : s.app ≠ [] := by
        intro hnil
        rw [hnil, List.take_nil] at hne
        exact hne rfl
      have hrc : a.rc = (s.app.take e.cut).length := by simpa [happ] using hall
      rw [hdata, hrc, Int.toNat_natCast, List.take_length]
  refine ⟨hdata, ?_⟩
  rw [hdata, List.length_take]
  rcases Nat.le_total e.cut s.app.length with hle | hle
  · rw [Nat.min_eq_left hle]
  · rw [Nat.min_eq_right hle, List.drop_length, List.drop_of_length_le hle]

/-- the MSG_WAITALL receive has an answer -/
theorem exists_request {e : Peer} {s : Fed} (h1 : 1 ≤ e.cut) (h8 : e.cut ≤ 8) (sd : ℤ) :
    ∃ a, permitted (.recv sd 8 true) a = true ∧ gives e s (.recv sd 8 true) a = true := by
  by_cases happ : s.app = []
  · refine ⟨{ rc := e.appEnd.rc }, ?_, by simp [gives, delivers, happ]⟩
    cases e.appEnd <;> rfl
  · have hlen := List.length_pos_iff.2 happ
    have hle : ((s.app.take e.cut).length : ℤ) ≤ 8 := by rw [List.length_take]; omega
    have hpos : (1 : ℤ) ≤ (s.app.take e.cut).length := by rw [List.length_take]; omega
    have hne : s.app.take e.cut ≠ [] := List.length_pos_iff.1 (by omega)
    refine ⟨{ rc := (s.app.take e.cut).length, data := s.app.take e.cut }, ?_, ?_⟩
    · simp only [permitted, decide_true, Bool.true_and, Bool.or_eq_true, decide_eq_true_eq]
      exact Or.inl hle
    · simp only [gives, delivers, if_neg hne, Int.toNat_natCast, List.take_length, decide_true, Bool.and_true,
        Bool.or_true, Bool.and_eq_true, decide_eq_true_eq]
      exact ⟨hpos, hle⟩

/-- the test of the request -/
theorem good_request (e : Peer) (s : StartChild) (app tunnel : List UInt8) :
    Good e ⟨request s, app, tunnel⟩ ↔
      s.spkt.vn ≠ 4 ∨ s.spkt.cd ≠ 1 ∨ (Terminated app s.c ∧ replyEnds tunnel e.tunnelEnd) := by
  unfold request
  split_ifs with hv hc
  · exact ⟨fun _ => Or.inl hv, fun _ => trivial⟩
  · exact ⟨fun _ => Or.inr (Or.inl hc), fun _ => trivial⟩
  · refine ⟨fun h => Or.inr (Or.inr h), ?_⟩
    rintro (h | h | h)
    · exact absurd h hv
    · exact absurd h hc
    · exact h

theorem sane_request (s : StartChild) (app tunnel : List UInt8) : Sane ⟨request s, app, tunnel⟩ := by
  unfold request
  split_ifs <;> trivial

theorem good_step_server {g : Globals} {e : Peer} {pc : SrvPc} {sd : ℤ} {spkt : SockPkt} {ch : UInt8} {k : Cargs}
    {app tunnel : List UInt8} {c : Call} {a : Ans} (hs : Good e ⟨⟨.server pc, sd, spkt, ch, k⟩, app, tunnel⟩)
    (hsane : Sane ⟨⟨.server pc, sd, spkt, ch, k⟩, app, tunnel⟩)
    (hc : call g ⟨.server pc, sd, spkt, ch, k⟩ = some c)
    (hg : gives e ⟨⟨.server pc, sd, spkt, ch, k⟩, app, tunnel⟩ c a = true) :
    Good e (next g ⟨⟨.server pc, sd, spkt, ch, k⟩, app, tunnel⟩ c a) ∧
      Sane (next g ⟨⟨.server pc, sd, spkt, ch, k⟩, app, tunnel⟩ c a) ∧
      rank (next g ⟨⟨.server pc, sd, spkt, ch, k⟩, app, tunnel⟩ c a) <
        rank ⟨⟨.server pc, sd, spkt, ch, k⟩, app, tunnel⟩ := by
  have hover : ¬ Over ⟨.server pc, sd, spkt, ch, k⟩ := id
  have hundef : Pc.server pc ≠ .undefined := nofun
  have hpoint := rank_of_point (s := ⟨⟨.server pc, sd, spkt, ch, k⟩, app, tunnel⟩) (g := g) c (a := a) hover hundef
  cases pc with
  | peername =>
    obtain rfl : Call.udtGetpeername sd = c := Option.some.inj hc
    exact ⟨hs, trivial, hpoint rfl⟩
  | socket =>
    obtain rfl : Call.socket = c := Option.some.inj hc
    refine ⟨?_, ?_, hpoint rfl⟩
    · simp only [next, resume, srvResume]
      exact (good_header e _ (le_refl 0) (by decide) app tunnel).2 hs
    · simp only [next, resume, srvResume]
      exact sane_header _ _ fun hneg => absurd hneg (lt_irrefl 0)
  | header p =>
    obtain rfl : Call.udtRecv k.udtsock (8 - p) = c := Option.some.inj hc
    obtain ⟨h0, hends⟩ := hs
    obtain ⟨h8, -⟩ := hsane
    have hne : tunnel ≠ [] := by
      rintro rfl
      have hlen := hends.1
      rw [List.append_nil, List.length_take, SockPkt.length_bytes] at hlen
      omega
    obtain ⟨hiff, hnext, hpos⟩ := good_recv (e := e) (s := ⟨⟨.server (.header p), sd, spkt, ch, k⟩, app, tunnel⟩)
      h0 h8 hg hne
    have hin : udtIn [(Call.udtRecv k.udtsock (8 - p), a)] = a.data := by simp [udtIn]
    have hrun : resume g ⟨.server (.header p), sd, spkt, ch, k⟩ a =
        header ⟨.server (.header p), sd, spkt.recvAt p.toNat a.data, ch, k⟩ (p + a.rc) := by
      have hdef : ¬ (p < 0 ∧ a.data ≠ []) := fun hd => absurd hd.1 (not_lt.2 h0)
      simp only [resume, srvResume, if_neg hdef]
    refine ⟨?_, ?_, ?_⟩
    · simp only [next, hrun, hin]
      exact hiff.2 hends
    · simp only [next, hrun]
      exact sane_header _ _ fun hneg => absurd hneg (not_lt.2 hnext)
    · apply rank_of_bytes
      · exact (phase_resume g _ a hover hundef).1
      · exact Or.inl ⟨by rw [hin]; exact hpos, hne⟩
  | userId =>
    obtain rfl : Call.udtRecv k.udtsock 1 = c := Option.some.inj hc
    have hin : udtIn [(Call.udtRecv k.udtsock 1, a)] = a.data := by simp [udtIn]
    rcases userId_cases (s := ⟨.server .userId, sd, spkt, ch, k⟩)
      (if g.netAccess < 2 then .server .check else .server .connect) hg with ⟨-, -, hrun⟩ | ⟨hrun, hiff, hone⟩
    · have hrun' : (resume g ⟨.server .userId, sd, spkt, ch, k⟩ a).pc =
          if g.netAccess < 2 then .server .check else .server .connect := congrArg StartChild.pc hrun
      refine ⟨?_, ?_, ?_⟩
      · unfold Good
        rw [next, hrun']
        split_ifs <;> trivial
      · unfold Sane
        rw [next, hrun']
        split_ifs <;> trivial
      · apply rank_of_phase
        rw [hrun']
        split_ifs <;> simp [phase]
    · have hrun' : resume g ⟨.server .userId, sd, spkt, ch, k⟩ a =
          ⟨.server .userId, sd, spkt, recvChar ch a.data, k⟩ := hrun
      obtain ⟨hlen, hne⟩ := hone hs
      refine ⟨?_, ?_, ?_⟩
      · simp only [next, hrun', hin]
        exact hiff.1 hs
      · simp only [next, hrun']
        trivial
      · apply rank_of_bytes
        · exact (phase_resume g _ a hover hundef).1
        · exact Or.inl ⟨by rw [hin, hlen]; exact Nat.one_pos, hne⟩
  | check =>
    refine ⟨?_, ?_, hpoint rfl⟩
    · simp only [next, resume, srvResume]
      split_ifs
      · trivial
      · split <;> trivial
    · simp only [next, resume, srvResume]
      split_ifs
      · trivial
      · split <;> trivial
  | connect =>
    refine ⟨?_, ?_, hpoint rfl⟩
    · simp only [next, resume, srvResume]
      split_ifs <;> trivial
    · simp only [next, resume, srvResume]
      split_ifs <;> trivial
  | reject | refuse | granted => exact ⟨trivial, trivial, hpoint rfl⟩

theorem good_step_client {g : Globals} {e : Peer} {pc : CliPc} {sd : ℤ} {spkt : SockPkt} {ch : UInt8} {k : Cargs}
    {app tunnel : List UInt8} {c : Call} {a : Ans} (hs : Good e ⟨⟨.client pc, sd, spkt, ch, k⟩, app, tunnel⟩)
    (hc : call g ⟨.client pc, sd, spkt, ch, k⟩ = some c)
    (hg : gives e ⟨⟨.client pc, sd, spkt, ch, k⟩, app, tunnel⟩ c a = true) :
    Good e (next g ⟨⟨.client pc, sd, spkt, ch, k⟩, app, tunnel⟩ c a) ∧
      Sane (next g ⟨⟨.client pc, sd, spkt, ch, k⟩, app, tunnel⟩ c a) ∧
      rank (next g ⟨⟨.client pc, sd, spkt, ch, k⟩, app, tunnel⟩ c a) <
        rank ⟨⟨.client pc, sd, spkt, ch, k⟩, app, tunnel⟩ := by
  have hover : ¬ Over ⟨.client pc, sd, spkt, ch, k⟩ := id
  have hundef : Pc.client pc ≠ .undefined := nofun
  have hpoint := rank_of_point (s := ⟨⟨.client pc, sd, spkt, ch, k⟩, app, tunnel⟩) (g := g) c (a := a) hover hundef
  cases pc with
  | peername | socket | forward | forwardNul =>
    obtain rfl := Option.some.inj hc
    exact ⟨hs, trivial, hpoint rfl⟩
  | request =>
    obtain rfl : Call.recv k.tcpsock 8 true = c := Option.some.inj hc
    obtain ⟨hdata, hdrop⟩ := request_data hg
    have hin : tcpIn [(Call.recv k.tcpsock 8 true, a)] = a.data := by simp [tcpIn]
    refine ⟨?_, sane_request _ _ _, hpoint rfl⟩
    simp only [next, resume, cliResume, hin]
    rw [good_request, hdrop, hdata]
    exact hs
  | userId =>
    obtain rfl : Call.recv k.tcpsock 1 false = c := Option.some.inj hc
    have hin : tcpIn [(Call.recv k.tcpsock 1 false, a)] = a.data := by simp [tcpIn]
    obtain ⟨hterm, hreply⟩ := hs
    rcases userId_cases (s := ⟨.client .userId, sd, spkt, ch, k⟩) (.client .options) hg with
      ⟨-, -, hrun⟩ | ⟨hrun, hiff, hone⟩
    · have hrun' : resume g ⟨.client .userId, sd, spkt, ch, k⟩ a =
          ⟨.client .options, sd, spkt, recvChar ch a.data, k⟩ := hrun
      refine ⟨?_, ?_, ?_⟩
      · simp only [next, hrun']
        exact hreply
      · simp only [next, hrun']
        trivial
      · apply rank_of_phase
        rw [hrun']
        simp [phase]
    · have hrun' : resume g ⟨.client .userId, sd, spkt, ch, k⟩ a =
          ⟨.client .userId, sd, spkt, recvChar ch a.data, k⟩ := hrun
      obtain ⟨hlen, hne⟩ := hone hterm
      refine ⟨?_, ?_, ?_⟩
      · simp only [next, hrun', hin]
        exact ⟨hiff.1 hterm, hreply⟩
      · simp only [next, hrun']
        trivial
      · apply rank_of_bytes
        · exact (phase_resume g _ a hover hundef).1
        · exact Or.inr ⟨by rw [hin, hlen]; exact Nat.one_pos, hne⟩
  | options | bind | connect =>
    obtain rfl := Option.some.inj hc
    refine ⟨?_, ?_, hpoint rfl⟩
    · simp only [next, resume, cliResume]
      split_ifs
      · trivial
      · exact hs
    · simp only [next, resume, cliResume]
      split_ifs <;> trivial
  | reply =>
    obtain rfl : Call.udtRecv k.udtsock 8 = c := Option.some.inj hc
    have hrc : a.rc ≠ 0 := by
      rcases delivers_cases hg with ⟨hnil, hrc, -⟩ | ⟨-, h1, -⟩
      · have herr : e.tunnelEnd = .error := hs.resolve_left fun hne => hne hnil
        rw [hrc, herr]
        decide
      · omega
    have hrun : resume g ⟨.client .reply, sd, spkt, ch, k⟩ a =
        ⟨.client .answer, sd, spkt.recvAt 0 a.data, ch, k⟩ := by
      simp only [resume, cliResume, if_neg hrc]
    refine ⟨?_, ?_, ?_⟩
    · simp only [next, hrun]
      trivial
    · simp only [next, hrun]
      trivial
    · apply rank_of_phase
      rw [hrun]
      simp [phase]
  | answer =>
    refine ⟨?_, ?_, hpoint rfl⟩
    · simp only [next, resume, cliResume]
      split_ifs <;> trivial
    · simp only [next, resume, cliResume]
      split_ifs <;> trivial
  | refuse => exact ⟨trivial, trivial, hpoint rfl⟩

/-- **Towards the end.** A step from a state from which the handshake ends leads to such a state, and lowers the
rank. -/
theorem good_step {g : Globals} {e : Peer} {s : Fed} {c : Call} {a : Ans} (hs : Good e s) (hsane : Sane s)
    (hover : ¬ s.st.Over) (hc : call g s.st = some c) (hg : gives e s c a = true) :
    Good e (next g s c a) ∧ Sane (next g s c a) ∧ rank (next g s c a) < rank s := by
  obtain ⟨⟨pc, sd, spkt, ch, k⟩, app, tunnel⟩ := s
  cases pc with
  | server pc => exact good_step_server hs hsane hc hg
  | client pc => exact good_step_client hs hc hg
  | undefined => exact hs.elim
  | _ => exact absurd trivial hover

/-- on the way to a bind of the client, `UDT::socket` has returned an id -/
def Dialing (s : Fed) : Prop :=
  match s.st.pc with
  | .client .request | .client .userId | .client .options | .client .bind => 0 ≤ s.st.cargs.udtsock
  | _ => True

/-- the handshake can go on for ever from here -/
structure Bad (e : Peer) (s : Fed) : Prop where
  good : ¬ Good e s
  sane : Sane s
  dialing : Dialing s

theorem bad_step_server {g : Globals} {e : Peer} {pc : SrvPc} {sd : ℤ} {spkt : SockPkt} {ch : UInt8} {k : Cargs}
    {app tunnel : List UInt8} (h : Bad e ⟨⟨.server pc, sd, spkt, ch, k⟩, app, tunnel⟩) :
    ∃ a t, step g e ⟨⟨.server pc, sd, spkt, ch, k⟩, app, tunnel⟩ a = some t ∧ Bad e t := by
  obtain ⟨hbad, hsane, -⟩ := h
  cases pc with
  | peername =>
    refine ⟨{ rc := 0 }, _, step_of rfl rfl rfl, ?_⟩
    exact ⟨hbad, trivial, trivial⟩
  | socket =>
    refine ⟨{ rc := 0 }, _, step_of rfl rfl rfl, ?_, ?_, ?_⟩
    · intro hgood
      simp only [next, resume, srvResume] at hgood
      exact hbad ((good_header e _ (le_refl 0) (by decide) app tunnel).1 hgood)
    · simp only [next, resume, srvResume]
      exact sane_header _ _ fun hneg => absurd hneg (lt_irrefl 0)
    · simp only [next, resume, srvResume, header]
      split_ifs <;> trivial
  | header p =>
    obtain ⟨h8, hneg⟩ := hsane
    obtain ⟨a, hd, hp, -⟩ := exists_delivers tunnel e.tunnelEnd k.udtsock (show 1 ≤ 8 - p by omega)
    have hin : udtIn [(Call.udtRecv k.udtsock (8 - p), a)] = a.data := by simp [udtIn]
    have hrun : resume g ⟨.server (.header p), sd, spkt, ch, k⟩ a =
        header ⟨.server (.header p), sd, spkt.recvAt p.toNat a.data, ch, k⟩ (p + a.rc) := by
      have hdef : ¬ (p < 0 ∧ a.data ≠ []) := by
        rintro ⟨hlt, hdata⟩
        rcases delivers_cases hd with ⟨-, -, hnil⟩ | ⟨hne, -⟩
        · exact hdata hnil
        · exact hne (hneg hlt)
      simp only [resume, srvResume, if_neg hdef]
    refine ⟨a, _, step_of (c := .udtRecv k.udtsock (8 - p)) rfl hp hd, ?_, ?_, ?_⟩
    · simp only [next, hrun, hin]
      rcases delivers_cases hd with ⟨rfl, hrc, hnil⟩ | ⟨hne, -⟩
      · -- nothing comes any more: the packet stays short
        have hle : a.rc ≤ 0 := by rw [hrc]; cases e.tunnelEnd <;> decide
        have hlt : p + a.rc < 8 := by omega
        rw [header, if_pos hlt]
        rintro ⟨h0, hlen, -⟩
        simp only [List.drop_nil, List.append_nil, List.length_take, SockPkt.length_bytes] at hlen
        omega
      · have h0 : 0 ≤ p := not_lt.1 fun hlt => hne (hneg hlt)
        intro hgood
        obtain ⟨hiff, -, -⟩ :=
          good_recv (s := ⟨⟨.server (.header p), sd, spkt, ch, k⟩, app, tunnel⟩) h0 h8 hd hne
        exact hbad ⟨h0, hiff.1 hgood⟩
    · simp only [next, hrun, hin]
      apply sane_header
      intro hlt
      rcases delivers_cases hd with ⟨rfl, -, -⟩ | ⟨hne, h1, -⟩
      · exact List.drop_nil
      · have h0 : 0 ≤ p := not_lt.1 fun hlt => hne (hneg hlt)
        omega
    · simp only [next, hrun, header]
      split_ifs <;> trivial
  | userId =>
    obtain ⟨a, hd, hp, -⟩ := exists_delivers tunnel e.tunnelEnd k.udtsock (le_refl (1 : ℤ))
    have hin : udtIn [(Call.udtRecv k.udtsock 1, a)] = a.data := by simp [udtIn]
    refine ⟨a, _, step_of (c := .udtRecv k.udtsock 1) rfl hp hd, ?_⟩
    rcases userId_cases (s := ⟨.server .userId, sd, spkt, ch, k⟩)
      (if g.netAccess < 2 then .server .check else .server .connect) hd with ⟨-, hterm, -⟩ | ⟨hrun, hiff, -⟩
    · exact absurd hterm hbad
    · have hrun' : resume g ⟨.server .userId, sd, spkt, ch, k⟩ a =
          ⟨.server .userId, sd, spkt, recvChar ch a.data, k⟩ := hrun
      simp only [next, hrun', hin]
      exact ⟨fun hgood => hbad (hiff.2 hgood), trivial, trivial⟩
  | _ => exact absurd trivial hbad

theorem bad_step_client {g : Globals} {e : Peer} {pc : CliPc} {sd : ℤ} {spkt : SockPkt} {ch : UInt8} {k : Cargs}
    {app tunnel : List UInt8} (h1 : 1 ≤ e.cut) (h8 : e.cut ≤ 8)
    (h : Bad e ⟨⟨.client pc, sd, spkt, ch, k⟩, app, tunnel⟩) :
    ∃ a t, step g e ⟨⟨.client pc, sd, spkt, ch, k⟩, app, tunnel⟩ a = some t ∧ Bad e t := by
  obtain ⟨hbad, -, hdial⟩ := h
  cases pc with
  | peername =>
    refine ⟨{ rc := 0 }, _, step_of rfl rfl rfl, ?_⟩
    exact ⟨hbad, trivial, trivial⟩
  | socket =>
    refine ⟨{ rc := 0 }, _, step_of rfl rfl rfl, ?_⟩
    exact ⟨hbad, trivial, le_refl (0 : ℤ)⟩
  | request =>
    obtain ⟨a, hp, hg⟩ := exists_request (s := ⟨⟨.client .request, sd, spkt, ch, k⟩, app, tunnel⟩) h1 h8 k.tcpsock
    obtain ⟨hdata, hdrop⟩ := request_data hg
    have hin : tcpIn [(Call.recv k.tcpsock 8 true, a)] = a.data := by simp [tcpIn]
    refine ⟨a, _, step_of (c := .recv k.tcpsock 8 true) rfl hp hg, ?_, sane_request _ _ _, ?_⟩
    · intro hgood
      simp only [next, resume, cliResume, hin] at hgood
      rw [good_request, hdrop, hdata] at hgood
      exact hbad hgood
    · simp only [next, resume, cliResume, request]
      split_ifs
      · trivial
      · trivial
      · exact hdial
  | userId =>
    obtain ⟨a, hd, -, hp⟩ := exists_delivers app e.appEnd k.tcpsock (le_refl (1 : ℤ))
    have hin : tcpIn [(Call.recv k.tcpsock 1 false, a)] = a.data := by simp [tcpIn]
    refine ⟨a, _, step_of (c := .recv k.tcpsock 1 false) rfl hp hd, ?_⟩
    rcases userId_cases (s := ⟨.client .userId, sd, spkt, ch, k⟩) (.client .options) hd with
      ⟨-, hterm, hrun⟩ | ⟨hrun, hiff, -⟩
    · have hrun' : resume g ⟨.client .userId, sd, spkt, ch, k⟩ a =
          ⟨.client .options, sd, spkt, recvChar ch a.data, k⟩ := hrun
      simp only [next, hrun']
      exact ⟨fun hreply => hbad ⟨hterm, hreply⟩, trivial, hdial⟩
    · have hrun' : resume g ⟨.client .userId, sd, spkt, ch, k⟩ a =
          ⟨.client .userId, sd, spkt, recvChar ch a.data, k⟩ := hrun
      simp only [next, hrun', hin]
      exact ⟨fun hgood => hbad ⟨hiff.2 hgood.1, hgood.2⟩, trivial, hdial⟩
  | options =>
    refine ⟨{ rc := 0 }, _, step_of rfl rfl rfl, ?_⟩
    exact ⟨hbad, trivial, hdial⟩
  | bind =>
    have hok : permitted (.udtBind k.udtsock (bindAddr g)) { rc := 0 } = true := by
      simpa [permitted, Dialing] using hdial
    refine ⟨{ rc := 0 }, _, step_of rfl hok rfl, ?_⟩
    exact ⟨hbad, trivial, trivial⟩
  | connect =>
    refine ⟨{ rc := 0 }, _, step_of rfl rfl rfl, ?_⟩
    exact ⟨hbad, trivial, trivial⟩
  | forward =>
    have hok : permitted (.udtSend k.udtsock spkt.bytes) { rc := 0 } = true := by simp [permitted]
    refine ⟨{ rc := 0 }, _, step_of rfl hok rfl, ?_⟩
    exact ⟨hbad, trivial, trivial⟩
  | forwardNul =>
    refine ⟨{ rc := 0 }, _, step_of rfl rfl rfl, ?_⟩
    exact ⟨hbad, trivial, trivial⟩
  | reply =>
    have hno : ¬ replyEnds tunnel e.tunnelEnd := hbad
    have hnil : tunnel = [] := not_not.1 fun hne => hno (Or.inl hne)
    have heof : e.tunnelEnd.rc = 0 := by
      cases hend : e.tunnelEnd with
      | eof => rfl
      | error => exact absurd (Or.inr hend) hno
    refine ⟨{ rc := 0 }, _, step_of (c := .udtRecv k.udtsock 8) rfl rfl ?_, ?_⟩
    · simp [gives, delivers, hnil, heof]
    · exact ⟨hno, trivial, trivial⟩
  | _ => exact absurd trivial hbad

/-- **No end.** From a state from which the handshake does not end it can go on to another one. -/
theorem bad_step {g : Globals} {e : Peer} (h1 : 1 ≤ e.cut) (h8 : e.cut ≤ 8) {s : Fed} (h : Bad e s) :
    ∃ a t, step g e s a = some t ∧ Bad e t := by
  obtain ⟨⟨pc, sd, spkt, ch, k⟩, app, tunnel⟩ := s
  cases pc with
  | server pc => exact bad_step_server h
  | client pc => exact bad_step_client h1 h8 h
  | undefined => exact h.sane.elim
  | _ => exact absurd trivial h.good

/-- before the end there is always an answer -/
theorem live_step {g : Globals} {e : Peer} (h1 : 1 ≤ e.cut) (h8 : e.cut ≤ 8) {s : Fed} (hsane : Sane s)
    (hover : ¬ s.st.Over) : ∃ a t, step g e s a = some t := by
  obtain ⟨⟨pc, sd, spkt, ch, k⟩, app, tunnel⟩ := s
  cases pc with
  | server pc =>
    cases pc with
    | header p =>
      obtain ⟨a, hd, hp, -⟩ := exists_delivers tunnel e.tunnelEnd k.udtsock (show 1 ≤ 8 - p by have := hsane.1; omega)
      exact ⟨a, _, step_of (c := .udtRecv k.udtsock (8 - p)) rfl hp hd⟩
    | userId =>
      obtain ⟨a, hd, hp, -⟩ := exists_delivers tunnel e.tunnelEnd k.udtsock (le_refl (1 : ℤ))
      exact ⟨a, _, step_of (c := .udtRecv k.udtsock 1) rfl hp hd⟩
    | _ => exact ⟨{ rc := -1 }, _, step_of rfl (by simp [srvCall, permitted, UDT_FD_BASE]) rfl⟩
  | client pc =>
    cases pc with
    | request =>
      obtain ⟨a, hp, hg⟩ := exists_request (s := ⟨⟨.client .request, sd, spkt, ch, k⟩, app, tunnel⟩) h1 h8 k.tcpsock
      exact ⟨a, _, step_of (c := .recv k.tcpsock 8 true) rfl hp hg⟩
    | userId =>
      obtain ⟨a, hd, -, hp⟩ := exists_delivers app e.appEnd k.tcpsock (le_refl (1 : ℤ))
      exact ⟨a, _, step_of (c := .recv k.tcpsock 1 false) rfl hp hd⟩
    | reply =>
      obtain ⟨a, hd, hp, -⟩ := exists_delivers tunnel e.tunnelEnd k.udtsock (show (1 : ℤ) ≤ 8 by decide)
      exact ⟨a, _, step_of (c := .udtRecv k.udtsock 8) rfl hp hd⟩
    | _ => exact ⟨{ rc := -1 }, _, step_of rfl (by simp [cliCall, permitted]) rfl⟩
  | undefined => exact hsane.elim
  | _ => exact absurd trivial hover

/-! ## Main result -/

theorem over_step {g : Globals} {e : Peer} (s : Fed) (a : Ans) (t : Fed) (h : s.st.Over)
    (hs : step g e s a = some t) : t.st.Over := by
  obtain ⟨c, -, -, -, rfl⟩ := step_cases hs
  exact over_resume g a h

/-- the handshake ends from a state exactly when the streams let it -/
theorem ends_iff_good {g : Globals} {e : Peer} {s : StartChild} (h1 : 1 ≤ e.cut) (h8 : e.cut ≤ 8) {u : Fed}
    (hsane : Sane u) (hdial : Dialing u) :
    (system g e s).Ends (fun t => t.st.Over) u ↔ Good e u := by
  constructor
  · intro hends
    by_contra hbad
    refine System.not_ends_of_loop (Bad e) ?_ (fun t ht => bad_step h1 h8 ht) ⟨hbad, hsane, hdial⟩ hends
    intro t ht hover
    apply ht.good
    obtain ⟨⟨pc, sd, spkt, ch, k⟩, app, tunnel⟩ := t
    cases pc with
    | server pc | client pc | undefined => exact hover.elim
    | _ => trivial
  · intro hgood
    refine System.ends_of_rank (fun t => Good e t ∧ Sane t) rank over_step ?_ ?_ ⟨hgood, hsane⟩
    · rintro t a v ⟨ht, hst⟩ hover hv -
      obtain ⟨c, hc, -, hg, rfl⟩ := step_cases hv
      obtain ⟨hgood, hsane, hlt⟩ := good_step ht hst hover hc hg
      exact ⟨⟨hgood, hsane⟩, hlt⟩
    · rintro t ⟨-, hst⟩ hover
      exact live_step h1 h8 hst hover

/-- what the handshake needs in order to end -/
def Suffices (mode : Mode) (e : Peer) (spkt : SockPkt) (c : UInt8) : Prop :=
  match mode with
  | .server => serverEnds e.tunnel c
  | .client => clientEnds e spkt c

instance (mode : Mode) (e : Peer) (spkt : SockPkt) (c : UInt8) : Decidable (Suffices mode e spkt c) := by
  unfold Suffices; split <;> infer_instance

/-- **When the handshake ends.** For either mode, every two byte streams and their endings, and every point at which the
MSG_WAITALL receive may be cut: the handshake is over after finitely many calls in all runs if and only if the streams
hold what its loops wait for. -/
theorem handshake_ends_iff (g : Globals) (mode : Mode) (sd : ℤ) (spkt : SockPkt) (c : UInt8) (k : Cargs) {e : Peer}
    (h1 : 1 ≤ e.cut) (h8 : e.cut ≤ 8) :
    (system g e (StartChild.start mode sd spkt c k)).Ends (fun t => t.st.Over)
        (start e (StartChild.start mode sd spkt c k)) ↔ Suffices mode e spkt c := by
  cases mode with
  | server => exact ends_iff_good h1 h8 trivial trivial
  | client => exact ends_iff_good h1 h8 trivial trivial

/-- a request with the user id of one byte, and a tunnel that breaks after it -/
def wholeRequest : Peer where
  app := []
  appEnd := .eof
  tunnel := [4, 1, 0, 80, 10, 0, 0, 5, 117, 0]
  tunnelEnd := .error
  cut := 8

theorem handshake_ends_iff_whole :
    (system HeaderLoop.farEnd wholeRequest HeaderLoop.thread).Ends (fun t => t.st.Over)
      (start wholeRequest HeaderLoop.thread) :=
  (handshake_ends_iff HeaderLoop.farEnd .server 9 _ 0 _ (by decide : 1 ≤ wholeRequest.cut) (by decide)).2 (by decide)

/-- a tunnel that is closed after the first byte of the header -/
def oneByte : Peer := { wholeRequest with tunnel := [4], tunnelEnd := .eof }

/-- **The handshake spins.** A tunnel that is closed after one byte keeps the server in its header loop for ever. -/
theorem handshake_spins :
    ¬ ∀ (g : Globals) (mode : Mode) (sd : ℤ) (spkt : SockPkt) (c : UInt8) (k : Cargs) (e : Peer), 1 ≤ e.cut →
      e.cut ≤ 8 → (system g e (StartChild.start mode sd spkt c k)).Ends (fun t => t.st.Over)
        (start e (StartChild.start mode sd spkt c k)) := by
  intro h
  have hends :=
    h HeaderLoop.farEnd .server 9 ⟨0, 0, Bytes.zero 2, Bytes.zero 4⟩ 0 ⟨0, 0⟩ oneByte (by decide) (by decide)
  have hsane : Sane (start oneByte HeaderLoop.thread) := trivial
  have hdial : Dialing (start oneByte HeaderLoop.thread) := trivial
  have hgood : Good oneByte (start oneByte HeaderLoop.thread) :=
    (ends_iff_good (by decide) (by decide) hsane hdial).1 hends
  have hlen : 8 ≤ oneByte.tunnel.length := hgood.1
  exact absurd hlen (by decide)

end Fed

end UdtGate
