/-
The descriptors that `SOCK_API` hands out, over whole runs.

`socket` and `accept` hand out what a layer has created, `embedsockfd` makes a descriptor of an id that a caller has
from its layer, and `close` gives a descriptor back; the layers reuse numbers as they like. A `Handed` descriptor is
kept with the transport and the native number behind it.

- `descriptors_iff`: after any run every descriptor stands for the transport and the number it was made from, no two
  sockets share one, and calls on it reach that socket, if and only if no `accept` on a UDT listener succeeded.
- `accept_shares`: an accepted UDT id that is handed out as a TCP descriptor.
-/
import UdtGate.SockApi
import UdtGate.Core.System

namespace UdtGate

open UdtGate.Core

/-! ## Model -/

/-- a descriptor in the hands of a caller, and what it was made from -/
structure Handed where
  proto : Proto
  id : ℤ
  fd : ℤ
deriving DecidableEq

namespace Provenance

/-- a call of the interface, with the answer of the layer below -/
inductive Label where
  | socket (domain type : ℤ) (proto : Proto) (k : ℤ)
  | accept (sd k : ℤ)
  | embedsockfd (k : ℤ) (proto : Proto)
  | close (sd k : ℤ)
deriving DecidableEq

structure State where
  handed : List Handed
  /-- the calls made below, oldest first -/
  calls : List Native
deriving DecidableEq

def start : State := ⟨[], []⟩

/-- the numbers a layer gives to its sockets -/
def native (proto : Proto) (k : ℤ) : Bool :=
  match proto with
  | .tcp => 0 ≤ k && k < UDT_FD_BASE
  | .udt => 1 ≤ k && k ≤ 2 ^ 30

/-- what a layer answers to a call that creates a socket: a number of its own, or -1 -/
def creates (proto : Proto) (k : ℤ) : Bool := native proto k || k = -1

/-- the calls of a program on the answer `k`, and its result -/
def run (k : ℤ) : SockProg → List Native × Option ℤ
  | .ret r => ([], r.rc)
  | .call c next => (c :: (run k (next k)).1, (run k (next k)).2)

/-- a socket created below: the result is handed out unless it is an error -/
def create (s : State) (proto : Proto) (k : ℤ) (p : SockProg) : State where
  handed := if k = -1 then s.handed else s.handed ++ ((run k p).2.toList.map fun fd => ⟨proto, k, fd⟩)
  calls := s.calls ++ (run k p).1

def step (s : State) : Label → Option State
  | .socket domain type proto k =>
    if creates proto k then some (create s proto k (SockApi.socket domain type proto)) else none
  | .accept sd k => if creates (getsocktype sd) k then some (create s (getsocktype sd) k (SockApi.accept sd)) else none
  | .embedsockfd k proto =>
    if native proto k then some { s with handed := s.handed ++ [⟨proto, k, embedsockfd k proto⟩] } else none
  | .close sd k => some { s with calls := s.calls ++ (run k (SockApi.close sd)).1 }

/-- all runs of calls to the interface -/
def system : System State Label := ⟨fun s => s = start, step⟩

/-- the descriptor stands for what it was made from: its transport and number are found again, and calls on it go to
that socket -/
structure Handed.Sound (h : Handed) : Prop where
  proto : getsocktype h.fd = h.proto
  id : getsockfd h.fd = h.id
  accept : (SockApi.accept h.fd).Only (· = ⟨h.proto, h.id, .accept⟩)
  close : (SockApi.close h.fd).Only (· = ⟨h.proto, h.id, .close⟩)

/-- every descriptor handed out stands for its socket, and no two sockets share one -/
structure Sound (s : State) : Prop where
  each : ∀ h ∈ s.handed, Handed.Sound h
  apart : ∀ h ∈ s.handed, ∀ h' ∈ s.handed, h.fd = h'.fd → h.proto = h'.proto ∧ h.id = h'.id

/-- the call is no `accept` on a UDT listener that succeeds -/
def NotAccepted (_ : State) : Label → Prop
  | .accept sd k => sd < UDT_FD_BASE ∨ k = -1
  | _ => True

instance (s : State) (l : Label) : Decidable (NotAccepted s l) := by cases l <;> unfold NotAccepted <;> infer_instance

/-! ## One descriptor -/

/-- a number of its layer, embedded -/
theorem sound_embed {proto : Proto} {k : ℤ} (h : native proto k = true) :
    Handed.Sound ⟨proto, k, embedsockfd k proto⟩ := by
  cases proto with
  | tcp =>
    obtain ⟨-, hlt⟩ : 0 ≤ k ∧ k < UDT_FD_BASE := by simpa [native] using h
    have hfd : embedsockfd k .tcp = k := rfl
    obtain ⟨ht, hk⟩ := SockApi.getsocktype_tcp hlt
    refine ⟨by rw [hfd]; exact ht, by rw [hfd]; exact hk, ?_, ?_⟩
    · simp only [hfd, SockApi.accept, if_pos hlt]
      exact ⟨rfl, fun _ => trivial⟩
    · simp only [hfd, SockApi.close, if_pos hlt]
      exact ⟨rfl, fun _ => trivial⟩
  | udt =>
    obtain ⟨hpos, -⟩ : 1 ≤ k ∧ k ≤ 2 ^ 30 := by simpa [native] using h
    have hfd : embedsockfd k .udt = k + UDT_FD_BASE := rfl
    have hge : ¬ k + UDT_FD_BASE < UDT_FD_BASE := by omega
    obtain ⟨ht, hk⟩ := SockApi.getsocktype_udt hge
    rw [add_sub_cancel_right] at hk
    refine ⟨by rw [hfd]; exact ht, by rw [hfd]; exact hk, ?_, ?_⟩
    · simp only [hfd, SockApi.accept, if_neg hge, add_sub_cancel_right]
      exact ⟨rfl, fun _ => trivial⟩
    · simp only [hfd, SockApi.close, if_neg hge, add_sub_cancel_right]
      exact ⟨rfl, fun _ => trivial⟩

/-- a UDT id as it is: a TCP descriptor, or the descriptor of another id -/
theorem not_sound_id (k : ℤ) : ¬ Handed.Sound ⟨.udt, k, k⟩ := by
  rintro ⟨hproto, hid, -, -⟩
  by_cases hlt : k < UDT_FD_BASE
  · rw [show (Handed.mk .udt k k).fd = k from rfl, (SockApi.getsocktype_tcp hlt).1] at hproto
    cases hproto
  · have hbase : (0 : ℤ) < UDT_FD_BASE := by decide
    rw [show (Handed.mk .udt k k).fd = k from rfl, (SockApi.getsocktype_udt hlt).2] at hid
    simp only at hid
    omega

/-- descriptors that stand for their sockets are apart -/
theorem apart_of_sound {h h' : Handed} (hs : Handed.Sound h) (hs' : Handed.Sound h') (hfd : h.fd = h'.fd) :
    h.proto = h'.proto ∧ h.id = h'.id :=
  ⟨by rw [← hs.proto, ← hs'.proto, hfd], by rw [← hs.id, ← hs'.id, hfd]⟩

theorem sound_of_each {s : State} (h : ∀ x ∈ s.handed, Handed.Sound x) : Sound s :=
  ⟨h, fun x hx y hy hfd => apart_of_sound (h x hx) (h y hy) hfd⟩

/-! ## What a step hands out -/

/-- the descriptors a step adds: none, an embedded number, or an accepted UDT id as it is -/
theorem step_cases {s t : State} {l : Label} (h : step s l = some t) :
    (t.handed = s.handed ∧ NotAccepted s l) ∨
      (∃ proto k, native proto k = true ∧ t.handed = s.handed ++ [⟨proto, k, embedsockfd k proto⟩] ∧
        NotAccepted s l) ∨
      (∃ k, native .udt k = true ∧ t.handed = s.handed ++ [⟨.udt, k, k⟩] ∧ ¬ NotAccepted s l) := by
  cases l with
  | socket domain type proto k =>
    simp only [step] at h
    split_ifs at h with hc
    cases h
    by_cases hk : k = -1
    · exact Or.inl ⟨by simp [create, hk], trivial⟩
    · have hn : native proto k = true := by simpa [creates, hk] using hc
      refine Or.inr (Or.inl ⟨proto, k, hn, ?_, trivial⟩)
      cases proto with
      | tcp => simp [create, hk, SockApi.socket, run, ret, embedsockfd]
      | udt =>
        have hpos : k > 0 := by
          obtain ⟨h1, -⟩ : 1 ≤ k ∧ k ≤ 2 ^ 30 := by simpa [native] using hn
          omega
        simp [create, hk, SockApi.socket, run, ret, embedsockfd, hpos]
  | accept sd k =>
    simp only [step] at h
    split_ifs at h with hc
    cases h
    by_cases hk : k = -1
    · exact Or.inl ⟨by simp [create, hk], Or.inr hk⟩
    · have hn : native (getsocktype sd) k = true := by simpa [creates, hk] using hc
      by_cases hsd : sd < UDT_FD_BASE
      · rw [(SockApi.getsocktype_tcp hsd).1] at hn ⊢
        exact Or.inr (Or.inl
          ⟨.tcp, k, hn, by simp [create, hk, SockApi.accept, hsd, run, ret, embedsockfd], Or.inl hsd⟩)
      · rw [(SockApi.getsocktype_udt hsd).1] at hn ⊢
        refine Or.inr (Or.inr ⟨k, hn, by simp [create, hk, SockApi.accept, hsd, run, ret], ?_⟩)
        rintro (hlt | hk')
        · exact hsd hlt
        · exact hk hk'
  | embedsockfd k proto =>
    simp only [step] at h
    split_ifs at h with hn
    cases h
    exact Or.inr (Or.inl ⟨proto, k, hn, rfl, trivial⟩)
  | close sd k =>
    cases h
    exact Or.inl ⟨rfl, trivial⟩

theorem sound_step (s : State) (l : Label) (t : State) (h : ∀ x ∈ s.handed, Handed.Sound x) (hG : NotAccepted s l)
    (hs : step s l = some t) : ∀ x ∈ t.handed, Handed.Sound x := by
  intro x hx
  rcases step_cases hs with ⟨hsame, -⟩ | ⟨proto, k, hn, hadd, -⟩ | ⟨-, -, -, hno⟩
  · exact h x (hsame ▸ hx)
  · rw [hadd] at hx
    rcases List.mem_append.1 hx with hx | hx
    · exact h x hx
    · rw [List.mem_singleton.1 hx]
      exact sound_embed hn
  · exact absurd hG hno

/-- descriptors stay handed out -/
theorem mem_step (h : Handed) (s : State) (l : Label) (t : State) (hm : h ∈ s.handed) (hs : step s l = some t) :
    h ∈ t.handed := by
  rcases step_cases hs with ⟨hsame, -⟩ | ⟨proto, k, -, hadd, -⟩ | ⟨k, -, hadd, -⟩
  · rw [hsame]; exact hm
  · rw [hadd]; exact List.mem_append_left _ hm
  · rw [hadd]; exact List.mem_append_left _ hm

/-! ## Main result -/

/-- **Provenance.** After every run of calls of `socket`, `accept`, `embedsockfd` and `close` over both transports, with
any numbers of theirs from the layers below: every descriptor handed out stands for the transport and the number it was
made from, so that no two sockets share a descriptor and calls on it reach the socket behind it, if and only if no
`accept` on a UDT listener has succeeded. -/
theorem descriptors_iff {ls : List Label} {s : State} (h : system.exec start ls = some s) :
    Sound s ↔ system.Meets NotAccepted start ls := by
  constructor
  · intro hsound
    by_contra hG
    obtain ⟨pre, l, post, u, v, -, -, -, hl, hv, hpost⟩ := System.exists_of_not_meets h hG
    rcases step_cases hv with ⟨-, hok⟩ | ⟨-, -, -, -, hok⟩ | ⟨k, -, hadd, -⟩
    · exact hl hok
    · exact hl hok
    · have hm : (⟨.udt, k, k⟩ : Handed) ∈ v.handed := by rw [hadd]; simp
      have hend := System.exec_inv (fun t => (⟨.udt, k, k⟩ : Handed) ∈ t.handed) (mem_step _) hpost hm
      exact not_sound_id k (hsound.each _ hend)
  · intro hG
    exact sound_of_each
      (System.exec_inv_meets (fun t => ∀ x ∈ t.handed, Handed.Sound x) NotAccepted sound_step h hG (by simp [start]))

/-- a TCP listener accepts while the relay embeds a UDT id of the same number -/
def bothTransports : List Label := [.accept 3 5, .embedsockfd 5 .udt, .socket 2 1 .udt 6, .close (embedsockfd 5 .udt) 0]

theorem descriptors_iff_both :
    ∃ s, system.exec start bothTransports = some s ∧ s.handed.map Handed.fd = [5, 16777220, 16777221] ∧ Sound s := by
  obtain ⟨s, hs, hfd⟩ : ∃ s, system.exec start bothTransports = some s ∧
      s.handed.map Handed.fd = [5, 16777220, 16777221] := System.exec_of_any (by decide)
  exact ⟨s, hs, hfd, (descriptors_iff hs).2 (by decide)⟩

/-- **A shared descriptor.** The first connection accepted on a UDT listener gets the descriptor of a TCP socket. -/
theorem accept_shares : ¬ ∀ (ls : List Label) (s : State), system.exec start ls = some s → Sound s := by
  intro h
  obtain ⟨s, hs, hfd⟩ : ∃ s, system.exec start [.accept 3 5, .accept (embedsockfd 1 .udt) 5] = some s ∧
      s.handed = [⟨.tcp, 5, 5⟩, ⟨.udt, 5, 5⟩] := System.exec_of_any (by decide)
  have hproto := ((h _ s hs).each ⟨.udt, 5, 5⟩ (by rw [hfd]; simp)).proto
  exact absurd hproto (by decide)

end Provenance

end UdtGate
