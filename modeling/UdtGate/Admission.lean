/-
Who is served, from the command line on.

The number of -N options is the level of the access policy, -C and -S say which of the two children there are. The child
for the client starts a thread for a connection, the child for the server lets its threads connect to destinations. Both
run any number of threads side by side, with any answers of the system and of UDT.

- `Watched`: a child, with the calls of each thread and the check that was made before it was started;
- `Guarded`: its invariant. A connect comes behind a check of its own destination, a thread behind a check of a source;
- `Staffed`: the children that there are;
- `who_is_served`: all of it in terms of the options. The source is that of the connection in the slot; which connection
  the thread then finds there is another matter, see `AcceptLoop`.
-/
import UdtGate.CommandLine
import UdtGate.Ownership
import UdtGate.Policy
import UdtGate.Server

namespace UdtGate

open UdtGate.Core

/-! ## Model -/

/-- a check of a source, with what `getifaddrs` returned to it -/
structure Watched.Vetting where
  source : SockAddrIn
  ifap : Option (List Ifaddrs)

/-- a process; `checked` is the last check that `main` has made -/
structure Watched where
  gate : Gate
  logs : List Log
  checked : Option Watched.Vetting
  vettings : List (Option Watched.Vetting)

namespace Watched

/-- what a step of the thread `t` adds to its log -/
def entry (g : Globals) (slot : ℤ) (a : Ans) (t : ChildThread) : Log :=
  match t.opts with
  | some _ => []
  | none =>
    match StartChild.call g (Gate.look slot t.child) with
    | none | some (.setUdtOptions _) => []
    | some c => [(c, a)]

def observe (g : Globals) (w : Watched) (v : Gate) : Gate.Label → Watched
  | .main a =>
    match w.gate.pc with
    | .checking clientaddr => { w with gate := v, checked := some ⟨clientaddr, if a.rc < 0 then none else some a.ifap⟩ }
    | _ => { w with gate := v }
  | .spawn .. => { w with gate := v, logs := w.logs ++ [[]], vettings := w.vettings ++ [w.checked] }
  | .thread i a =>
    match w.gate.threads[i]?, w.logs[i]? with
    | some t, some l => { w with gate := v, logs := w.logs.set i (l ++ entry g w.gate.slot a t) }
    | _, _ => { w with gate := v }
  | _ => { w with gate := v }

def step (g : Globals) (options : UdtOptions) (w : Watched) (l : Gate.Label) : Option Watched :=
  (Gate.step g options w.gate l).map fun v => w.observe g v l

def start (g : Globals) (options : UdtOptions) (ludtsock : ℤ) : Watched := ⟨Gate.start g options ludtsock, [], none, []⟩

def system (g : Globals) (options : UdtOptions) : System Watched Gate.Label :=
  ⟨fun w => ∃ ludtsock, w = start g options ludtsock, step g options⟩

end Watched

/-! ## The threads of the server -/

/-- the destination of a request, let pass by the access check -/
structure Vetted (g : Globals) (dst : SockAddrIn) (l : Log) : Prop where
  requested : ∃ req, Parsed .udt req l ∧ dst = req.dst
  checked : Checked g dst l

/-- a connect comes behind the check of its destination -/
def Sanctioned (g : Globals) (l : Log) : Prop :=
  ∀ pre sd dst a post, l = pre ++ (Call.connect sd dst, a) :: post → Vetted g dst pre

theorem sanctioned_nil (g : Globals) : Sanctioned g [] := by
  intro pre sd dst a post h
  cases pre with
  | nil => cases h
  | cons e pre => cases h

variable {g : Globals} {l : Log} {e : Call × Ans}

theorem Sanctioned.snoc (h : Sanctioned g l) (he : ∀ sd dst, e.1 = .connect sd dst → Vetted g dst l) :
    Sanctioned g (l ++ [e]) := by
  intro pre sd dst a post heq
  rcases List.eq_nil_or_concat post with rfl | ⟨front, last, rfl⟩
  · obtain ⟨rfl, hlast⟩ := List.append_inj' heq rfl
    have hcall : e = (Call.connect sd dst, a) := List.head_eq_of_cons_eq hlast
    exact he sd dst (congrArg Prod.fst hcall)
  · have hsplit : l ++ [e] = (pre ++ (Call.connect sd dst, a) :: front) ++ [last] := by
      rw [heq, List.concat_eq_append, List.append_assoc, List.cons_append]
    obtain ⟨hl, -⟩ := List.append_inj' hsplit rfl
    exact h pre sd dst a front hl

/-- the check of the policy -/
theorem Checked.admitted {dst : SockAddrIn} (h : Checked g dst l) :
    2 ≤ g.netAccess ∨ ∃ a, (Call.getifaddrs, a) ∈ l ∧
      ((∀ ifp ∈ a.ifap, ifp.SameFamily) → Admitted g.netAccess dst.addr a.ifap) := by
  by_cases hn : g.netAccess < 2
  · obtain ⟨a, log, hmem, hcheck⟩ := h hn
    refine Or.inr ⟨a, hmem, fun hf => ?_⟩
    obtain ⟨r, log', hr, hiff⟩ := checkSource_admitted hn hf dst
    obtain ⟨rfl, -⟩ := Prod.mk.inj (Option.some.inj (hr.symm.trans hcheck))
    exact hiff.1 rfl
  · exact Or.inl (not_lt.1 hn)

theorem inv_look (slot : ℤ) (s : StartChild) : Server.Inv g (Gate.look slot s) l ↔ Server.Inv g s l := by
  unfold Gate.look
  split_ifs
  · exact Iff.rfl
  · exact Iff.rfl

/-- a thread of the server makes one step -/
theorem sanctioned_step {s : StartChild} {c : Call} {a : Ans} (h : Server.Inv g s l) (hs : Sanctioned g l)
    (hc : StartChild.call g s = some c) (hok : permitted c a = true) :
    Server.Inv g (StartChild.resume g s a) (l ++ [(c, a)]) ∧ Sanctioned g (l ++ [(c, a)]) := by
  refine ⟨Server.step_inv h hc hok, hs.snoc ?_⟩
  intro sd dst hdst
  obtain rfl : c = .connect sd dst := hdst
  obtain ⟨pc, servsock, spkt, ch, k⟩ := s
  cases pc with
  | client pc => exact h.elim
  | server pc =>
    cases pc with
    | connect =>
      obtain ⟨-, -, -, hparsed, hchecked⟩ := h
      obtain ⟨-, rfl⟩ := Call.connect.inj (Option.some.inj hc)
      exact ⟨⟨spkt, hparsed, rfl⟩, hchecked⟩
    | peername | socket | header | reject | userId | check | refuse | granted => cases hc
  | createWorkers | joinWorkers | closeUdt | closeTcp | returned | exited | aborted | undefined => cases hc

/-! ## The steps of the process -/

namespace Watched

variable {options : UdtOptions} {w v : Gate} {i : ℕ} {t : ChildThread} {a : Ans}

/-- behind the check, and before the thread is started -/
def PastCheck : Gate.Pc → Prop
  | .spawning | .options _ .spawn => True
  | _ => False

theorem main_threads (h : Gate.mainStep g options w a = some v) : v.threads = w.threads := by
  unfold Gate.mainStep at h
  split at h
  · obtain ⟨k, -, rfl⟩ := Option.map_eq_some_iff.1 h
    rfl
  · obtain rfl := Option.some.inj h
    rfl
  · split at h
    · obtain rfl := Option.some.inj h
      rfl
    · obtain ⟨k, -, rfl⟩ := Option.map_eq_some_iff.1 h
      rfl
  · split_ifs at h
    obtain rfl := Option.some.inj h
    rfl
  · obtain rfl := Option.some.inj h
    rfl
  · obtain rfl := Option.some.inj h
    rfl
  · split at h
    · obtain rfl := Option.some.inj h
      rfl
    · obtain rfl := Option.some.inj h
      rfl
    · split at h
      · obtain rfl := Option.some.inj h
        rfl
      · obtain rfl := Option.some.inj h
        rfl
  · obtain rfl := Option.some.inj h
    rfl
  · cases h
  · cases h

/-- `main` gets past the check by the check alone -/
theorem main_past (h : Gate.mainStep g options w a = some v) (hpast : PastCheck v.pc) :
    (PastCheck w.pc ∧ ∀ addr, w.pc ≠ .checking addr) ∨
      ∃ addr, w.pc = .checking addr ∧
        AcceptLoop.sourceCheck g addr (if a.rc < 0 then none else some a.ifap) = some true := by
  unfold Gate.mainStep at h
  split at h
  · obtain ⟨k, -, rfl⟩ := Option.map_eq_some_iff.1 h
    simp only at hpast
    split_ifs at hpast <;> exact hpast.elim
  · obtain rfl := Option.some.inj h
    simp only at hpast
    split_ifs at hpast <;> exact hpast.elim
  · rename_i o next hpc
    have hnext : next = .spawn := by
      split at h
      · obtain rfl := Option.some.inj h
        simp only at hpast
        split_ifs at hpast
        · exact hpast.elim
        · cases next with
          | spawn => rfl
          | listen | rendezvous => exact hpast.elim
      · obtain ⟨k, -, rfl⟩ := Option.map_eq_some_iff.1 h
        cases next with
        | spawn => rfl
        | listen | rendezvous => exact hpast.elim
    rw [hpc, hnext]
    exact Or.inl ⟨trivial, fun _ => Gate.Pc.noConfusion⟩
  · split_ifs at h
    obtain rfl := Option.some.inj h
    exact hpast.elim
  · obtain rfl := Option.some.inj h
    simp only at hpast
    split_ifs at hpast <;> exact hpast.elim
  · rename_i hpc
    obtain rfl := Option.some.inj h
    rw [hpc] at hpast
    exact hpast.elim
  · rename_i addr hpc
    refine Or.inr ⟨addr, hpc, ?_⟩
    split at h
    · obtain rfl := Option.some.inj h
      exact hpast.elim
    · obtain rfl := Option.some.inj h
      exact hpast.elim
    · assumption
  · obtain rfl := Option.some.inj h
    exact hpast.elim
  · cases h
  · cases h

/-- a thread goes on, or ends the process -/
theorem thread_frame (h : Gate.threadStep g options w i t a = some v) :
    (PastCheck v.pc → PastCheck w.pc) ∧ v.threads.length = w.threads.length := by
  unfold Gate.threadStep at h
  split at h
  · split at h
    · split_ifs at h
      · obtain rfl := Option.some.inj h
        exact ⟨False.elim, rfl⟩
      · obtain rfl := Option.some.inj h
        exact ⟨id, List.length_set⟩
    · obtain ⟨r, -, rfl⟩ := Option.map_eq_some_iff.1 h
      exact ⟨id, List.length_set⟩
  · split at h
    · cases h
    · obtain rfl := Option.some.inj h
      exact ⟨id, List.length_set⟩
    · split_ifs at h
      obtain ⟨k, -, rfl⟩ := Option.map_eq_some_iff.1 h
      refine ⟨?_, List.length_set⟩
      intro hpast
      simp only [Gate.setThread] at hpast
      split_ifs at hpast
      · exact hpast.elim
      · exact hpast

/-- the options of a UDT socket are set by the client -/
theorem ne_setUdtOptions {s : StartChild} {l : Log} {sock : ℤ} (h : Server.Inv g s l) :
    StartChild.call g s ≠ some (.setUdtOptions sock) := by
  intro hc
  obtain ⟨pc, servsock, spkt, ch, k⟩ := s
  cases pc with
  | client pc => exact h.elim
  | server pc => cases pc <;> cases hc
  | createWorkers | joinWorkers | closeUdt | closeTcp | returned | exited | aborted | undefined => cases hc

theorem entry_of_call {slot : ℤ} {c : Call} (ht : t.opts = none)
    (hc : StartChild.call g (Gate.look slot t.child) = some c) (hne : ∀ sock, c ≠ .setUdtOptions sock) :
    entry g slot a t = [(c, a)] := by
  unfold entry
  rw [ht, hc]
  cases c with
  | setUdtOptions sock => exact absurd rfl (hne sock)
  | _ => rfl

/-- a thread of the server makes its calls one by one -/
theorem thread_serves {l : Log} (h : Gate.threadStep g options w i t a = some v) (ht : t.opts = none)
    (hinv : Server.Inv g t.child l) : ∃ c, entry g w.slot a t = [(c, a)] ∧
      StartChild.call g (Gate.look w.slot t.child) = some c ∧ permitted c a = true ∧
        v.threads = w.threads.set i ⟨StartChild.resume g (Gate.look w.slot t.child) a, none⟩ := by
  have hlook := (inv_look w.slot t.child).2 hinv
  unfold Gate.threadStep at h
  rw [ht] at h
  simp only at h
  split at h
  · cases h
  · rename_i sock hc
    exact absurd hc (ne_setUdtOptions hlook)
  · rename_i c hne hc
    have hok : permitted c a = true := by
      by_contra hno
      rw [if_neg hno] at h
      cases h
    rw [if_pos hok] at h
    obtain ⟨k, -, rfl⟩ := Option.map_eq_some_iff.1 h
    exact ⟨c, entry_of_call ht hc fun sock hset => hne sock hset, hc, hok, rfl⟩

theorem gate_main (h : Gate.step g options w (.main a) = some v) : Gate.mainStep g options w a = some v := by
  simp only [Gate.step] at h
  split_ifs at h
  exact h

theorem gate_accept {rc : ℤ} {clientaddr : SockAddrIn} (h : Gate.step g options w (.accept rc clientaddr) = some v) :
    v.threads = w.threads ∧ ¬ PastCheck v.pc := by
  simp only [Gate.step] at h
  split_ifs at h with hstop hpc hrc
  · obtain rfl := Option.some.inj h
    exact ⟨rfl, id⟩
  · split at h
    · obtain rfl := Option.some.inj h
      exact ⟨rfl, id⟩
    · obtain ⟨k, -, rfl⟩ := Option.map_eq_some_iff.1 h
      exact ⟨rfl, id⟩

theorem gate_connected {clientaddr : SockAddrIn} (h : Gate.step g options w (.connected clientaddr) = some v) :
    v.threads = w.threads ∧ ¬ PastCheck v.pc := by
  simp only [Gate.step] at h
  split_ifs at h
  obtain rfl := Option.some.inj h
  exact ⟨rfl, id⟩

theorem gate_spawn {spkt : SockPkt} {c : UInt8} {cargs : Cargs}
    (h : Gate.step g options w (.spawn spkt c cargs) = some v) : PastCheck w.pc ∧ ¬ PastCheck v.pc ∧
      v.threads = w.threads ++ [⟨StartChild.start g.mode w.slot spkt c cargs, none⟩] := by
  simp only [Gate.step] at h
  split_ifs at h with hstop hpc
  obtain rfl := Option.some.inj h
  rw [hpc]
  exact ⟨trivial, id, rfl⟩

theorem gate_thread (h : Gate.step g options w (.thread i a) = some v) :
    ∃ t, w.threads[i]? = some t ∧ Gate.threadStep g options w i t a = some v := by
  simp only [Gate.step] at h
  split_ifs at h
  cases ht : w.threads[i]? with
  | none =>
    rw [ht] at h
    cases h
  | some t =>
    rw [ht] at h
    exact ⟨t, rfl, h⟩

/-! ## The invariant -/

/-- the check was made, and let the source pass -/
def Passed (g : Globals) (checked : Option Vetting) : Prop :=
  ∃ u, checked = some u ∧ AcceptLoop.sourceCheck g u.source u.ifap = some true

structure Guarded (g : Globals) (w : Watched) : Prop where
  logs : w.logs.length = w.gate.threads.length
  vettings : w.vettings.length = w.gate.threads.length
  passed : PastCheck w.gate.pc → Passed g w.checked
  sources : ∀ c ∈ w.vettings, Passed g c
  destinations : g.mode = .server → ∀ (i : ℕ) (t : ChildThread) (l : Log), w.gate.threads[i]? = some t →
    w.logs[i]? = some l → t.opts = none ∧ Server.Inv g t.child l ∧ Sanctioned g l

theorem guarded_start (g : Globals) (options : UdtOptions) (ludtsock : ℤ) : Guarded g (start g options ludtsock) where
  logs := rfl
  vettings := rfl
  passed := by
    intro h
    unfold start Gate.start at h
    simp only at h
    split at h
    · exact h.elim
    · split_ifs at h <;> exact h.elim
  sources := by
    intro c hc
    cases hc
  destinations := by
    intro _ i t l ht
    cases ht

/-- a step that starts no thread and lets none go on -/
theorem Guarded.aside {w w' : Watched} (h : Guarded g w) (hthreads : w'.gate.threads = w.gate.threads)
    (hlogs : w'.logs = w.logs) (hvettings : w'.vettings = w.vettings)
    (hpassed : PastCheck w'.gate.pc → Passed g w'.checked) : Guarded g w' where
  logs := by
    rw [hlogs, hthreads]
    exact h.logs
  vettings := by
    rw [hvettings, hthreads]
    exact h.vettings
  passed := hpassed
  sources := by
    rw [hvettings]
    exact h.sources
  destinations := by
    rw [hlogs, hthreads]
    exact h.destinations

theorem Guarded.main {w : Watched} (h : Guarded g w) (hs : Gate.mainStep g options w.gate a = some v) :
    Guarded g (w.observe g v (.main a)) := by
  have hthreads := main_threads hs
  unfold observe
  simp only
  split
  · rename_i addr hpc
    refine h.aside hthreads rfl rfl ?_
    intro hpast
    rcases main_past hs hpast with ⟨-, hne⟩ | ⟨addr', hpc', hcheck⟩
    · exact absurd hpc (hne addr)
    · obtain rfl := Gate.Pc.checking.inj (hpc.symm.trans hpc')
      exact ⟨_, rfl, hcheck⟩
  · rename_i hne
    refine h.aside hthreads rfl rfl ?_
    intro hpast
    rcases main_past hs hpast with ⟨hbefore, -⟩ | ⟨addr, hpc, -⟩
    · exact h.passed hbefore
    · exact absurd hpc (hne addr)

theorem Guarded.spawn {w : Watched} {spkt : SockPkt} {c : UInt8} {cargs : Cargs} (h : Guarded g w)
    (hs : Gate.step g options w.gate (.spawn spkt c cargs) = some v) :
    Guarded g (w.observe g v (.spawn spkt c cargs)) := by
  obtain ⟨hbefore, hafter, hthreads⟩ := gate_spawn hs
  refine ⟨?_, ?_, fun hpast => absurd hpast hafter, ?_, ?_⟩
  · simp only [observe, hthreads, List.length_append, h.logs]
    rfl
  · simp only [observe, hthreads, List.length_append, h.vettings]
    rfl
  · intro c hc
    rcases List.mem_append.1 hc with hc | hc
    · exact h.sources c hc
    · rw [List.mem_singleton.1 hc]
      exact h.passed hbefore
  · intro hmode i t l ht hl
    simp only [observe, hthreads] at ht hl
    by_cases hi : i < w.gate.threads.length
    · rw [List.getElem?_append_left hi] at ht
      rw [List.getElem?_append_left (by rw [h.logs]; exact hi)] at hl
      exact h.destinations hmode i t l ht hl
    · obtain rfl : i = w.gate.threads.length := by
        have hlt := (List.getElem?_eq_some_iff.1 ht).1
        rw [List.length_append, List.length_singleton] at hlt
        omega
      rw [List.getElem?_append_right le_rfl, Nat.sub_self] at ht
      rw [← h.logs, List.getElem?_append_right le_rfl, Nat.sub_self] at hl
      obtain rfl := Option.some.inj ht
      obtain rfl := Option.some.inj hl
      rw [hmode]
      exact ⟨rfl, Server.inv_start g _ _ _ _, sanctioned_nil g⟩

theorem Guarded.thread {w : Watched} (h : Guarded g w) (hs : Gate.step g options w.gate (.thread i a) = some v) :
    Guarded g (w.observe g v (.thread i a)) := by
  obtain ⟨t, ht, hs⟩ := gate_thread hs
  obtain ⟨hpast, hlen⟩ := thread_frame hs
  obtain ⟨l, hl⟩ : ∃ l, w.logs[i]? = some l := by
    have hlt := (List.getElem?_eq_some_iff.1 ht).1
    exact ⟨_, List.getElem?_eq_getElem (by rw [h.logs]; exact hlt)⟩
  simp only [observe, ht, hl]
  refine ⟨?_, h.vettings.trans hlen.symm, fun hp => h.passed (hpast hp), h.sources, ?_⟩
  · rw [List.length_set, hlen]
    exact h.logs
  · intro hmode j t' l' ht' hl'
    obtain ⟨hnone, hinv, hsanctioned⟩ := h.destinations hmode i t l ht hl
    obtain ⟨c, hentry, hc, hok, hthreads⟩ := thread_serves hs hnone hinv
    rw [hentry] at hl'
    simp only [hthreads] at ht'
    by_cases hij : i = j
    · subst hij
      rw [List.getElem?_set_self (List.getElem?_eq_some_iff.1 ht).1] at ht'
      rw [List.getElem?_set_self (List.getElem?_eq_some_iff.1 hl).1] at hl'
      obtain rfl := Option.some.inj ht'
      obtain rfl := Option.some.inj hl'
      exact ⟨rfl, sanctioned_step ((inv_look _ _).2 hinv) hsanctioned hc hok⟩
    · rw [List.getElem?_set_ne hij] at ht' hl'
      exact h.destinations hmode j t' l' ht' hl'

theorem Guarded.step {w w' : Watched} {l : Gate.Label} (h : Guarded g w) (hs : step g options w l = some w') :
    Guarded g w' := by
  obtain ⟨v, hv, rfl⟩ := Option.map_eq_some_iff.1 hs
  cases l with
  | main a => exact h.main (gate_main hv)
  | accept rc clientaddr =>
    obtain ⟨hthreads, hpast⟩ := gate_accept hv
    exact h.aside hthreads rfl rfl fun hp => absurd hp hpast
  | connected clientaddr =>
    obtain ⟨hthreads, hpast⟩ := gate_connected hv
    exact h.aside hthreads rfl rfl fun hp => absurd hp hpast
  | spawn spkt c cargs => exact h.spawn hv
  | thread i a => exact h.thread hv

theorem guarded_run {ludtsock : ℤ} {w : Watched} {ls : List Gate.Label}
    (h : (system g options).exec (start g options ludtsock) ls = some w) : Guarded g w :=
  System.exec_inv (Guarded g) (fun _ _ _ hi hs => hi.step hs) h (guarded_start g options ludtsock)

theorem observe_gate (g : Globals) (w : Watched) (v : Gate) (l : Gate.Label) : (w.observe g v l).gate = v := by
  unfold observe
  split
  · split
    · rfl
    · rfl
  · rfl
  · split
    · rfl
    · rfl
  · rfl

/-- watching does not keep the process from anything -/
theorem exec_watched {ludtsock : ℤ} {ls : List Gate.Label}
    (h : (Gate.system g options).exec (Gate.start g options ludtsock) ls = some v) :
    ∃ w, (system g options).exec (start g options ludtsock) ls = some w ∧ w.gate = v := by
  have hsim : System.Simulation (Gate.system g options) (system g options) (fun v w => w.gate = v) id := by
    refine ⟨?_, ?_⟩
    · rintro _ ⟨ludtsock, rfl⟩
      exact ⟨_, ⟨ludtsock, rfl⟩, rfl⟩
    · rintro _ w l v rfl hv
      exact ⟨w.observe g v l, Option.map_eq_some_iff.2 ⟨v, hv, rfl⟩, observe_gate g w v l⟩
  have hstart : (start g options ludtsock).gate = Gate.start g options ludtsock := rfl
  obtain ⟨w, hw, hgate⟩ := hsim.exec hstart h
  rw [List.map_id] at hw
  exact ⟨w, hw, hgate⟩

/-- a source that passed is admitted -/
theorem Passed.admitted {c : Option Vetting} (h : Passed g c) (hmode : g.mode = .client) : ∃ u, c = some u ∧
    (2 ≤ g.netAccess ∨ ∃ ifap, u.ifap = some ifap ∧
      ((∀ ifp ∈ ifap, ifp.SameFamily) → Admitted g.netAccess u.source.addr ifap)) := by
  obtain ⟨u, rfl, hcheck⟩ := h
  refine ⟨u, rfl, ?_⟩
  by_cases hn : g.netAccess < 2
  · refine Or.inr ?_
    simp only [AcceptLoop.sourceCheck, hmode, if_pos hn] at hcheck
    obtain ⟨ifap, hifap, hcheck⟩ := Option.bind_eq_some_iff.1 hcheck
    obtain ⟨r, hr, htrue⟩ := Option.map_eq_some_iff.1 hcheck
    refine ⟨ifap, hifap, fun hf => ?_⟩
    obtain ⟨b, log, hb, hiff⟩ := checkSource_admitted hn hf u.source
    obtain rfl := Option.some.inj (hb.symm.trans hr)
    exact hiff.1 htrue
  · exact Or.inl (not_lt.1 hn)

end Watched

/-! ## The children -/

/-- the parent has a child for `m` -/
def RunMode.has : RunMode → Mode → Bool
  | .dual, _ => true
  | .server, m => decide (m = .server)
  | .client, m => decide (m = .client)

/-- the children that were forked are the ones of the mode -/
structure Supervisor.Staffed (mode : RunMode) (s : Supervisor) : Prop where
  mode_eq : s.mode = mode
  server : s.pc = .forkServer → mode.has .server = true
  client : s.pc = .forkClient → mode.has .client = true
  present : ∀ m, s.proc m ≠ .absent → mode.has m = true

namespace Supervisor

theorem staffed_start (mode : RunMode) : Staffed mode (start mode) where
  mode_eq := rfl
  server := by
    intro h
    cases mode with
    | dual | server => rfl
    | client => cases h
  client := by
    intro h
    cases mode with
    | client => rfl
    | dual | server => cases h
  present := by
    intro m h
    cases m with
    | server | client => exact absurd rfl h

/-- a step without a fork -/
theorem Staffed.keep {mode : RunMode} {s t : Supervisor} (h : Staffed mode s) (hmode : t.mode = s.mode)
    (hserver : t.pc = .forkServer → s.pc = .forkServer) (hclient : t.pc = .forkClient → s.pc = .forkClient)
    (hprocs : ∀ m, t.proc m ≠ .absent → s.proc m ≠ .absent) : Staffed mode t where
  mode_eq := hmode.trans h.mode_eq
  server := fun hpc => h.server (hserver hpc)
  client := fun hpc => h.client (hclient hpc)
  present := fun m hm => h.present m (hprocs m hm)

theorem setProc_present {s : Supervisor} {m : Mode} {p : Proc} (h : s.proc m ≠ .absent) (m' : Mode)
    (hm' : (s.setProc m p).proc m' ≠ .absent) : s.proc m' ≠ .absent := by
  cases m with
  | server =>
    cases m' with
    | server => exact h
    | client => exact hm'
  | client =>
    cases m' with
    | server => exact hm'
    | client => exact h

theorem setProc_mode (s : Supervisor) (m : Mode) (p : Proc) : (s.setProc m p).mode = s.mode := by cases m <;> rfl

theorem Staffed.setProc {mode : RunMode} {s : Supervisor} {m : Mode} {p : Proc} (h : Staffed mode s)
    (hp : s.proc m ≠ .absent) : Staffed mode (s.setProc m p) :=
  h.keep (setProc_mode s m p) (fun hpc => (setProc_pc s m p).symm.trans hpc)
    (fun hpc => (setProc_pc s m p).symm.trans hpc) (setProc_present hp)

theorem doom_present {s : Supervisor} {sig : Option Sig} {rest : List (Option Sig × Point)} (m : Mode)
    (h : { s with
        server := s.server.doom
        client := s.client.doom
        pending := addPending s.pending .term
        frames := (sig, .wait) :: rest }.proc m ≠ .absent) : s.proc m ≠ .absent := by
  intro habsent
  cases m with
  | server => exact h (congrArg Proc.doom habsent)
  | client => exact h (congrArg Proc.doom habsent)

theorem staffed_step {mode : RunMode} {s t : Supervisor} {l : Label} (h : Staffed mode s) (hs : step s l = some t) :
    Staffed mode t := by
  cases move_of_step hs with
  | forkServer hf hpc =>
    have hserver := h.server hpc
    refine ⟨h.mode_eq, ?_, ?_, ?_⟩
    · intro hnext
      simp only at hnext
      split_ifs at hnext
    · intro hnext
      simp only at hnext
      split_ifs at hnext with hdual
      rw [← h.mode_eq, hdual]
      rfl
    · intro m hm
      cases m with
      | server => exact hserver
      | client => exact h.present .client hm
  | forkClient hf hpc =>
    have hclient := h.client hpc
    refine ⟨h.mode_eq, nofun, nofun, ?_⟩
    intro m hm
    cases m with
    | server => exact h.present .server hm
    | client => exact hclient
  | forkFails hpc => exact h.keep rfl Pc.noConfusion Pc.noConfusion fun _ => id
  | signal hf hpc =>
    refine h.keep rfl ?_ ?_ fun _ => id
    · intro hnext
      simp only at hnext
      split_ifs at hnext
    · intro hnext
      simp only at hnext
      split_ifs at hnext
  | @wait m hf hpc hz => exact (h.setProc (by rw [hz]; decide)).keep rfl id id fun _ => id
  | @handlerWait m _ _ ho hf hz => exact h.setProc (by rw [hz]; decide)
  | @childEnds m hr =>
    apply h.setProc
    rcases hr with hr | hr
    · rw [hr]
      decide
    · rw [hr]
      decide
  | waitNone => exact h.keep rfl id id fun _ => id
  | handlerEnds => exact h.keep rfl Pc.noConfusion Pc.noConfusion fun _ => id
  | again => exact h
  | handlerInterrupted => exact h.keep rfl Pc.noConfusion Pc.noConfusion fun _ => id
  | kill => exact h.keep rfl id id doom_present
  | raise => exact h.keep rfl id id fun _ => id
  | raiseKills => exact h.keep rfl Pc.noConfusion Pc.noConfusion fun _ => id
  | uncaught => exact h.keep rfl Pc.noConfusion Pc.noConfusion fun _ => id
  | deliver => exact h.keep rfl id id fun _ => id

theorem staffed_run {mode : RunMode} {s : Supervisor} {ls : List Label}
    (h : (system mode).exec (start mode) ls = some s) : Staffed mode s :=
  System.exec_inv (Staffed mode) (fun _ _ _ hi hs => staffed_step hi hs) h (staffed_start mode)

end Supervisor

/-! ## Main result -/

/-- a connect was to the destination of the request, which was admitted at the level `n` -/
def DestinationsAdmitted (n : ℕ) (w : Watched) : Prop :=
  ∀ l ∈ w.logs, ∀ pre sd dst a post, l = pre ++ (Call.connect sd dst, a) :: post →
    (∃ req, Parsed .udt req pre ∧ dst = req.dst) ∧
      (2 ≤ n ∨ ∃ a, (Call.getifaddrs, a) ∈ pre ∧
        ((∀ ifp ∈ a.ifap, ifp.SameFamily) → Admitted n dst.addr a.ifap))

/-- each thread was started behind a check of its own, of a source that was admitted at the level `n` -/
def SourcesAdmitted (n : ℕ) (w : Watched) : Prop :=
  w.vettings.length = w.gate.threads.length ∧
    ∀ c ∈ w.vettings, ∃ u, c = some u ∧
      (2 ≤ n ∨ ∃ ifap, u.ifap = some ifap ∧
        ((∀ ifp ∈ ifap, ifp.SameFamily) → Admitted n u.source.addr ifap))

theorem destinationsAdmitted {w : Watched} (h : w.Guarded g) (hmode : g.mode = .server) :
    DestinationsAdmitted g.netAccess w := by
  intro l hl pre sd dst a post heq
  obtain ⟨i, hi, rfl⟩ := List.mem_iff_getElem.1 hl
  have hlt : i < w.gate.threads.length := h.logs ▸ hi
  obtain ⟨-, -, hsanctioned⟩ :=
    h.destinations hmode i _ _ (List.getElem?_eq_getElem hlt) (List.getElem?_eq_getElem hi)
  obtain ⟨hrequested, hchecked⟩ := hsanctioned pre sd dst a post heq
  exact ⟨hrequested, hchecked.admitted⟩

theorem sourcesAdmitted {w : Watched} (h : w.Guarded g) (hmode : g.mode = .client) :
    SourcesAdmitted g.netAccess w :=
  ⟨h.vettings, fun c hc => (h.sources c hc).admitted hmode⟩

/-- -C or -S on the command line -/
theorem mode_of_mem {ls : List CommandLine.Label} {c : CommandLine} {o : CommandLine.Label} {m : RunMode}
    (hone : (ls.filterMap CommandLine.Label.mode).length ≤ 1) (hconf : CommandLine.Configured ls c) (ho : o ∈ ls)
    (hm : o.mode = some m) : c.mode = m := by
  have hmem : m ∈ ls.filterMap CommandLine.Label.mode := List.mem_filterMap.2 ⟨o, ho, hm⟩
  rw [hconf.mode]
  cases hmodes : ls.filterMap CommandLine.Label.mode with
  | nil =>
    rw [hmodes] at hmem
    cases hmem
  | cons m' ms =>
    rw [hmodes] at hmem hone
    obtain rfl : ms = [] := List.length_eq_zero_iff.1 (Nat.le_zero.1 (Nat.le_of_succ_le_succ hone))
    exact (List.mem_singleton.1 hmem).symm

/-- `-C 1 2 h` -/
def clientOnly : List CommandLine.Label :=
  [.client, .setpgid 0, .text (.operands [DumpStr.ascii ['1'], DumpStr.ascii ['2'], DumpStr.ascii ['h']])]

/-- a connection from the device itself -/
def arrival : List Gate.Label :=
  [.main ⟨3, 0, [], []⟩, .main ⟨0, 0, [], []⟩, .accept 4 AcceptLoop.loopback,
    .main ⟨0, 0, [], [AcceptLoop.loInterface]⟩, .spawn ⟨0, 0, Bytes.zero 2, Bytes.zero 4⟩ 0 ⟨0, 0⟩]

end UdtGate
