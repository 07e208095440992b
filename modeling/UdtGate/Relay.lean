/-
One relay process at work on one connection: the thread of `start_child` and the two data threads it creates.

The data threads are those of `Workers`; before `pthread_create` they are stopped, with nothing in their log. The relay
sees two byte streams in each direction, and what has crossed them is read off both logs: first the handshake, made by
`start_child` alone, and then the data.

- `Relay.Inv`: the descriptors the data threads get are valid, and as long as the threads have not been created their
  log is empty;
- `step_streams`: each step adds the bytes of its one call at the end of the four streams.
-/
import UdtGate.Handshake

namespace UdtGate

open UdtGate.Core

/-! ## Model -/

/-- `start_child` and the data threads, each with its log -/
structure Relay where
  child : Machine.Logged StartChild Call Ans
  work : Workers
deriving DecidableEq

inductive Thread where
  | child
  | sock2peer
  | peer2sock
deriving DecidableEq

namespace Relay

/-- no data threads -/
def idle : Workers := ⟨⟨⟨0, 0⟩, .stopped⟩, ⟨⟨0, 0⟩, .stopped⟩, []⟩

/-- one answer to one thread; `pthread_create` starts the data threads, `pthread_join` waits for their end -/
def step (g : Globals) (r : Relay) (w : Thread) (a : Ans) : Option Relay :=
  match w with
  | .child =>
    match StartChild.call g r.child.st with
    | none => none
    | some c =>
      if permitted c a = true ∧ (c = .joinWorkers → r.work.fst.pc = .stopped ∧ r.work.snd.pc = .stopped) then
        some {
          child := ⟨StartChild.resume g r.child.st a, r.child.log ++ [(c, a)]⟩
          work := if c = .createWorkers then Workers.start r.child.st.cargs else r.work }
      else none
  | .sock2peer => (Workers.step r.work (.inl a)).map fun w => { r with work := w }
  | .peer2sock => (Workers.step r.work (.inr a)).map fun w => { r with work := w }

/-- bytes received from the TCP side, in the handshake and after it -/
def fromTcp (r : Relay) : List UInt8 := tcpIn r.child.log ++ tcpIn r.work.log

def toTcp (r : Relay) : List UInt8 := tcpOut r.child.log ++ tcpOut r.work.log

/-- bytes received from the UDT side, in the handshake and after it -/
def fromUdt (r : Relay) : List UInt8 := udtIn r.child.log ++ udtIn r.work.log

def toUdt (r : Relay) : List UInt8 := udtOut r.child.log ++ udtOut r.work.log

/-- what a step can do -/
theorem step_cases {g : Globals} {r t : Relay} {w : Thread} {a : Ans} (h : step g r w a = some t) :
    (∃ c, w = .child ∧ StartChild.call g r.child.st = some c ∧ permitted c a = true ∧
      t = ⟨⟨StartChild.resume g r.child.st a, r.child.log ++ [(c, a)]⟩,
        if c = .createWorkers then Workers.start r.child.st.cargs else r.work⟩) ∨
    (∃ l x, w ≠ .child ∧ Workers.step r.work l = some x ∧ t = ⟨r.child, x⟩) := by
  cases w with
  | child =>
    simp only [step] at h
    split at h
    · cases h
    · rename_i c hc
      by_cases hp : permitted c a = true ∧
          (c = .joinWorkers → r.work.fst.pc = .stopped ∧ r.work.snd.pc = .stopped)
      · rw [if_pos hp] at h
        exact Or.inl ⟨c, rfl, hc, hp.1, (Option.some.inj h).symm⟩
      · rw [if_neg hp] at h
        cases h
  | sock2peer =>
    simp only [step, Option.map_eq_some_iff] at h
    obtain ⟨x, hx, rfl⟩ := h
    exact Or.inr ⟨_, x, nofun, hx, rfl⟩
  | peer2sock =>
    simp only [step, Option.map_eq_some_iff] at h
    obtain ⟨x, hx, rfl⟩ := h
    exact Or.inr ⟨_, x, nofun, hx, rfl⟩

/-- what a step of the thread `w` adds to the log of `start_child` -/
def entry (g : Globals) (r : Relay) (w : Thread) (a : Ans) : Log :=
  match w with
  | .child => (StartChild.call g r.child.st).toList.map fun c => (c, a)
  | _ => []

theorem log_step {g : Globals} {r t : Relay} {w : Thread} {a : Ans} (h : step g r w a = some t) :
    t.child.log = r.child.log ++ entry g r w a := by
  rcases step_cases h with ⟨c, rfl, hc, -, rfl⟩ | ⟨l, x, hw, -, rfl⟩
  · simp [entry, hc]
  · cases w with
    | child => exact absurd rfl hw
    | _ => exact (List.append_nil _).symm

/-! ## The invariant -/

/-- in the handshake, or about to create the data threads -/
def Early (s : StartChild) : Prop :=
  match s.pc with
  | .server _ | .client _ | .createWorkers => True
  | _ => False

/-- the descriptors the thread has by now are valid -/
def Socks (s : StartChild) : Prop :=
  match s.pc with
  | .server .peername | .server .socket => 0 ≤ s.servsock
  | .server _ | .createWorkers => s.cargs.tcpsock < UDT_FD_BASE ∧ 0 ≤ s.cargs.udtsock
  | .client .peername | .client .socket => s.servsock < UDT_FD_BASE
  | .client .connect | .client .forward | .client .forwardNul | .client .reply | .client .answer =>
    s.cargs.tcpsock < UDT_FD_BASE ∧ 0 ≤ s.cargs.udtsock
  | .client _ => s.cargs.tcpsock < UDT_FD_BASE
  | _ => True

structure Inv (r : Relay) : Prop where
  socks : Socks r.child.st
  early : Early r.child.st → NotStarted r.child.log
  idle : NotStarted r.child.log → r.work = Relay.idle
  work : ∃ c : Cargs, c.tcpsock < UDT_FD_BASE ∧ 0 ≤ c.udtsock ∧ Workers.Inv c r.work

theorem workers_inv_idle : Workers.Inv ⟨0, 0⟩ idle := ⟨rfl, rfl, List.nil_prefix, List.nil_prefix⟩

open StartChild in
theorem socks_resume {g : Globals} {s : StartChild} {c : Call} {a : Ans} (h : Socks s) (hc : call g s = some c)
    (hok : permitted c a = true) : Socks (resume g s a) := by
  obtain ⟨pc, sd, spkt, ch, k⟩ := s
  cases pc with
  | server pc =>
    simp only [call, Option.some.injEq] at hc
    subst hc
    cases pc with
    | peername => exact h
    | socket =>
      have hlt : a.rc < UDT_FD_BASE := by simpa [permitted, srvCall] using hok
      simp only [resume, srvResume, header]
      split_ifs <;> exact ⟨hlt, h⟩
    | header p =>
      simp only [resume, srvResume, header]
      split_ifs <;> first | exact h | trivial
    | userId =>
      simp only [resume, srvResume, userId]
      split_ifs <;> exact h
    | check =>
      simp only [resume, srvResume]
      split_ifs
      · trivial
      · split <;> first | exact h | trivial
    | connect =>
      simp only [resume, srvResume]
      split_ifs <;> exact h
    | granted => exact h
    | reject => trivial
    | refuse => trivial
  | client pc =>
    simp only [call, Option.some.injEq] at hc
    subst hc
    cases pc with
    | peername => exact h
    | socket => exact h
    | request =>
      simp only [resume, cliResume, request]
      split_ifs <;> exact h
    | refuse => trivial
    | userId =>
      simp only [resume, cliResume, userId]
      split_ifs <;> exact h
    | options =>
      simp only [resume, cliResume]
      split_ifs <;> first | exact h | trivial
    | bind =>
      simp only [permitted, cliCall, Bool.or_eq_true, decide_eq_true_eq] at hok
      simp only [resume, cliResume]
      split_ifs with hrc
      · trivial
      · exact ⟨h, hok.resolve_right hrc⟩
    | connect =>
      simp only [resume, cliResume]
      split_ifs
      · exact h.1
      · exact h
    | forward => exact h
    | forwardNul => exact h
    | reply =>
      simp only [resume, cliResume]
      split_ifs <;> exact h
    | answer =>
      simp only [resume, cliResume]
      split_ifs <;> first | exact h | trivial
  | _ => trivial

open StartChild in
/-- a thread that is early after a call was early before it, and did not create the data threads -/
theorem early_of_resume {g : Globals} {s : StartChild} {c : Call} {a : Ans} (hc : call g s = some c)
    (h : Early (resume g s a)) : Early s ∧ c ≠ .createWorkers := by
  obtain ⟨pc, sd, spkt, ch, k⟩ := s
  cases pc with
  | server pc =>
    simp only [call, Option.some.injEq] at hc
    subst hc
    refine ⟨trivial, ?_⟩
    cases pc <;> exact nofun
  | client pc =>
    simp only [call, Option.some.injEq] at hc
    subst hc
    refine ⟨trivial, ?_⟩
    cases pc <;> exact nofun
  | _ => exact h.elim

/-- a late thread calls nothing that moves bytes -/
theorem silent_of_late {g : Globals} {s : StartChild} {c : Call} (a : Ans) (hc : StartChild.call g s = some c)
    (h : ¬ Early s) :
    tcpIn [(c, a)] = [] ∧ tcpOut [(c, a)] = [] ∧ udtIn [(c, a)] = [] ∧ udtOut [(c, a)] = [] ∧ c ≠ .createWorkers := by
  obtain ⟨pc, sd, spkt, ch, k⟩ := s
  cases pc with
  | server pc => exact absurd trivial h
  | client pc => exact absurd trivial h
  | createWorkers => exact absurd trivial h
  | joinWorkers => cases hc; exact ⟨rfl, rfl, rfl, rfl, nofun⟩
  | closeUdt => cases hc; exact ⟨rfl, rfl, rfl, rfl, nofun⟩
  | closeTcp => cases hc; exact ⟨rfl, rfl, rfl, rfl, nofun⟩
  | _ => cases hc

/-- stopped threads stay stopped -/
theorem idle_step (l : Ans ⊕ Ans) : Workers.step idle l = none := by cases l <;> rfl

theorem step_inv {g : Globals} {r t : Relay} {w : Thread} {a : Ans} (h : r.Inv) (hs : step g r w a = some t) :
    t.Inv := by
  obtain ⟨hsocks, hearly, hidle, c0, htcp, hudt, hwork⟩ := h
  rcases step_cases hs with ⟨c, -, hc, hok, rfl⟩ | ⟨l, x, -, hx, rfl⟩
  · refine ⟨socks_resume hsocks hc hok, ?_, ?_, ?_⟩
    · intro he
      obtain ⟨he', hne⟩ := early_of_resume hc he
      exact (hearly he').snoc (Call.isCreateWorkers_eq_false.2 hne)
    · intro hns
      have hne : c ≠ .createWorkers := hns _ (List.mem_append_right _ List.mem_cons_self)
      simp only [hne, if_false]
      exact hidle fun e he => hns e (List.mem_append_left _ he)
    · split_ifs with hcw
      · subst hcw
        have hpc : r.child.st.pc = .createWorkers := by
          unfold StartChild.call at hc
          split at hc
          · rename_i pc _; cases pc <;> cases hc
          · rename_i pc _; cases pc <;> cases hc
          · rename_i h; exact h
          all_goals cases hc
        simp only [Socks, hpc] at hsocks
        exact ⟨_, hsocks.1, hsocks.2, Workers.inv_start _⟩
      · exact ⟨c0, htcp, hudt, hwork⟩
  · refine ⟨hsocks, hearly, ?_, c0, htcp, hudt, Workers.step_inv htcp hudt _ _ _ hwork hx⟩
    intro hns
    have hid := hidle hns
    rw [hid, idle_step] at hx
    cases hx

/-- **What a step adds to the streams.** -/
theorem step_streams {g : Globals} {r t : Relay} {w : Thread} {a : Ans} (h : r.Inv) (hs : step g r w a = some t) :
    ∃ e, t.fromTcp = r.fromTcp ++ tcpIn [e] ∧ t.toTcp = r.toTcp ++ tcpOut [e] ∧ t.fromUdt = r.fromUdt ++ udtIn [e] ∧
      t.toUdt = r.toUdt ++ udtOut [e] := by
  rcases step_cases hs with ⟨c, -, hc, hok, rfl⟩ | ⟨l, x, -, hx, rfl⟩
  · refine ⟨(c, a), ?_⟩
    by_cases he : Early r.child.st
    · -- no data threads yet
      have hid : r.work.log = [] := by rw [h.idle (h.early he)]; rfl
      have hlog : (if c = .createWorkers then Workers.start r.child.st.cargs else r.work).log = [] := by
        split_ifs
        · rfl
        · exact hid
      simp [fromTcp, toTcp, fromUdt, toUdt, hlog, hid]
    · obtain ⟨h1, h2, h3, h4, hne⟩ := silent_of_late a hc he
      simp [fromTcp, toTcp, fromUdt, toUdt, hne, h1, h2, h3, h4]
  · rcases Machine.Shared.step_cases hx with ⟨k, b, -, -, -, rfl⟩ | ⟨k, b, -, -, -, rfl⟩
    · exact ⟨(k, b), by simp [fromTcp], by simp [toTcp], by simp [fromUdt], by simp [toUdt]⟩
    · exact ⟨(k, b), by simp [fromTcp], by simp [toTcp], by simp [fromUdt], by simp [toUdt]⟩

/-- the data threads hand on what they received, in order -/
theorem Inv.data {r : Relay} (h : r.Inv) :
    udtOut r.work.log <+: tcpIn r.work.log ∧ tcpOut r.work.log <+: udtIn r.work.log := by
  obtain ⟨c, -, -, hw⟩ := h.work
  constructor
  · rw [← flatten_tcpBlocks]; exact S2p.inv_front hw.fst_inv
  · rw [← flatten_udtBlocks]; exact P2s.inv_front hw.snd_inv

end Relay

end UdtGate
