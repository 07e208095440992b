/-
What the gate is for: a SOCKS4 proxy for one connection, as its two ends see it.

The application has sent some bytes and been sent some, and so has the destination. An ideal proxy connects where the
application asks, once it has asked; it answers once, and grants only what it has connected; after that it carries the
payload of the application to the destination, and the bytes of the destination to the application, in order.

- `Sound`: what can be said of each moment of such a connection;
- `exists_run`: from one sound moment every later one is reached;
- `reachable_iff_sound`: the moments of the runs are the sound ones, no others.
-/
import UdtGate.Handshake

namespace UdtGate

open UdtGate.Core

/-! ## Model -/

structure Proxy where
  appSent : List UInt8
  destSent : List UInt8
  /-- the request that the proxy is connected for, with its user id -/
  request : Option (SockPkt × List UInt8)
  toDest : List UInt8
  toApp : List UInt8

namespace Proxy

/-- a request for a connect -/
def Asks (r : SockPkt × List UInt8) : Prop := r.1.vn = 4 ∧ r.1.cd = 1 ∧ NulFree r.2

/-- what comes before the payload -/
def head (r : SockPkt × List UInt8) : List UInt8 := r.1.bytes ++ r.2 ++ [0]

/-- the reply of a connect that succeeded -/
def grant (r : SockPkt × List UInt8) : List UInt8 := (r.1.reply 90).bytes

inductive Label where
  | appSend (bs : List UInt8)
  | connect (r : SockPkt × List UInt8)
  | destSend (bs : List UInt8)
  | answer (p : SockPkt)
  | up (bs : List UInt8)
  | down (bs : List UInt8)

/-- the step is possible -/
def Enabled (x : Proxy) : Label → Prop
  | .appSend _ => True
  | .connect r => x.request = none ∧ Asks r ∧ head r <+: x.appSent
  | .destSend _ => x.request ≠ none
  | .answer p => x.toApp = [] ∧ (p.cd = 90 → ∃ r, x.request = some r ∧ p = r.1.reply 90)
  | .up bs => ∃ r, x.request = some r ∧ grant r <+: x.toApp ∧ head r ++ (x.toDest ++ bs) <+: x.appSent
  | .down bs => ∃ r, x.request = some r ∧ grant r <+: x.toApp ∧ x.toApp ++ bs <+: grant r ++ x.destSent

/-- and what it does -/
def next (x : Proxy) : Label → Proxy
  | .appSend bs => { x with appSent := x.appSent ++ bs }
  | .connect r => { x with request := some r }
  | .destSend bs => { x with destSent := x.destSent ++ bs }
  | .answer p => { x with toApp := p.bytes }
  | .up bs => { x with toDest := x.toDest ++ bs }
  | .down bs => { x with toApp := x.toApp ++ bs }

def fresh : Proxy := ⟨[], [], none, [], []⟩

open Classical in
noncomputable def system : System Proxy Label :=
  ⟨fun x => x = fresh, fun x l => if x.Enabled l then some (x.next l) else none⟩

theorem step_iff {x y : Proxy} {l : Label} : system.step x l = some y ↔ x.Enabled l ∧ y = x.next l := by
  simp only [system]
  split_ifs with h
  · simp [h, eq_comm]
  · simp [h]

/-! ## Sound states -/

structure Sound (x : Proxy) : Prop where
  /-- the payload comes after the request, and the destination gets it from the front -/
  asked : ∀ r, x.request = some r → Asks r ∧ head r ++ x.toDest <+: x.appSent
  unasked : x.request = none → x.destSent = []
  /-- no answer yet, one of refusal and nothing more, or a grant and bytes of the destination -/
  answered : x.toApp = [] ∨ (∃ p : SockPkt, p.cd ≠ 90 ∧ x.toApp = p.bytes) ∨
    ∃ r, x.request = some r ∧ grant r <+: x.toApp ∧ x.toApp <+: grant r ++ x.destSent
  /-- the payload goes out behind the grant -/
  granted : x.toDest ≠ [] → ∃ r, x.request = some r ∧ grant r <+: x.toApp

theorem sound_fresh : Sound fresh := ⟨nofun, fun _ => rfl, Or.inl rfl, fun h => absurd rfl h⟩

theorem grant_ne_nil (r : SockPkt × List UInt8) : grant r ≠ [] := List.cons_ne_nil _ _

theorem length_grant (r : SockPkt × List UInt8) : (grant r).length = 8 := SockPkt.length_bytes _

/-- a refusal is no grant -/
theorem not_granted {r : SockPkt × List UInt8} {p : SockPkt} (hcd : p.cd ≠ 90) {bs : List UInt8}
    (hp : p.bytes <+: bs) : ¬ grant r <+: bs := by
  intro hg
  have heq : grant r = p.bytes :=
    (List.prefix_of_prefix_length_le hg hp (by rw [length_grant, SockPkt.length_bytes])).eq_of_length
      (by rw [length_grant, SockPkt.length_bytes])
  exact hcd (congrArg SockPkt.cd (SockPkt.bytes_injective heq)).symm

theorem Sound.next {x : Proxy} {l : Label} (h : x.Sound) (hl : x.Enabled l) : (x.next l).Sound := by
  cases l with
  | appSend bs =>
    refine ⟨?_, h.unasked, h.answered, h.granted⟩
    intro r hr
    exact ⟨(h.asked r hr).1, (h.asked r hr).2.trans (List.prefix_append _ _)⟩
  | connect r =>
    obtain ⟨hnone, hasks, hhead⟩ := hl
    have hdest : x.toDest = [] := by
      by_contra hne
      obtain ⟨q, hq, -⟩ := h.granted hne
      rw [hnone] at hq
      cases hq
    refine ⟨?_, nofun, ?_, fun hne => absurd hdest hne⟩
    · intro q hq
      obtain rfl := Option.some.inj hq
      exact ⟨hasks, by rw [Proxy.next, hdest, List.append_nil]; exact hhead⟩
    · rcases h.answered with h0 | h0 | ⟨q, hq, -⟩
      · exact Or.inl h0
      · exact Or.inr (Or.inl h0)
      · rw [hnone] at hq
        cases hq
  | destSend bs =>
    refine ⟨h.asked, fun hnone => absurd hnone hl, ?_, h.granted⟩
    rcases h.answered with h0 | h0 | ⟨q, hq, hg, hto⟩
    · exact Or.inl h0
    · exact Or.inr (Or.inl h0)
    · refine Or.inr (Or.inr ⟨q, hq, hg, hto.trans ?_⟩)
      rw [Proxy.next, List.prefix_append_right_inj]
      exact List.prefix_append _ _
  | answer p =>
    obtain ⟨hnil, hp⟩ := hl
    refine ⟨h.asked, h.unasked, ?_, ?_⟩
    · by_cases hcd : p.cd = 90
      · obtain ⟨r, hr, rfl⟩ := hp hcd
        exact Or.inr (Or.inr ⟨r, hr, List.prefix_refl _, List.prefix_append _ _⟩)
      · exact Or.inr (Or.inl ⟨p, hcd, rfl⟩)
    · intro hne
      obtain ⟨r, -, hg⟩ := h.granted hne
      rw [hnil] at hg
      exact absurd (List.prefix_nil.1 hg) (grant_ne_nil r)
  | up bs =>
    obtain ⟨r, hr, hg, hup⟩ := hl
    refine ⟨?_, h.unasked, h.answered, fun _ => ⟨r, hr, hg⟩⟩
    intro q hq
    obtain rfl := Option.some.inj (hr.symm.trans hq)
    exact ⟨(h.asked r hr).1, hup⟩
  | down bs =>
    obtain ⟨r, hr, hg, hdown⟩ := hl
    have hg' : grant r <+: x.toApp ++ bs := hg.trans (List.prefix_append _ _)
    refine ⟨h.asked, h.unasked, Or.inr (Or.inr ⟨r, hr, hg', hdown⟩), ?_⟩
    intro hne
    obtain ⟨q, hq, hgq⟩ := h.granted hne
    exact ⟨q, hq, hgq.trans (List.prefix_append _ _)⟩

theorem sound_step (x : Proxy) (l : Label) (y : Proxy) (h : x.Sound) (hs : system.step x l = some y) : y.Sound := by
  obtain ⟨hl, rfl⟩ := step_iff.1 hs
  exact h.next hl

/-! ## Every later sound state is reached -/

/-- `y` is a later moment of the connection of `x` -/
structure Le (x y : Proxy) : Prop where
  appSent : x.appSent <+: y.appSent
  destSent : x.destSent <+: y.destSent
  request : x.request ≠ none → y.request = x.request
  toDest : x.toDest <+: y.toDest
  toApp : x.toApp <+: y.toApp

theorem exec_one {x : Proxy} {l : Label} (h : x.Enabled l) : system.exec x [l] = some (x.next l) :=
  System.exec_cons.2 ⟨_, step_iff.2 ⟨h, rfl⟩, rfl⟩

theorem run_connect {x : Proxy} {q : Option (SockPkt × List UInt8)} (hkeep : x.request ≠ none → q = x.request)
    (hask : ∀ r, q = some r → Asks r ∧ head r <+: x.appSent) :
    ∃ ms, system.exec x ms = some { x with request := q } := by
  cases hx : x.request with
  | some r =>
    refine ⟨[], ?_⟩
    rw [hkeep (by rw [hx]; nofun)]
    rfl
  | none =>
    cases q with
    | none => exact ⟨[], by rw [← hx]; rfl⟩
    | some r => exact ⟨[.connect r], exec_one ⟨hx, hask r rfl⟩⟩

theorem run_destSend {x : Proxy} {bs : List UInt8} (h : x.request = none → bs = []) :
    ∃ ms, system.exec x ms = some { x with destSent := x.destSent ++ bs } := by
  by_cases hx : x.request = none
  · exact ⟨[], by rw [h hx, List.append_nil]; rfl⟩
  · exact ⟨[.destSend bs], exec_one hx⟩

/-- the first bytes to the application -/
theorem run_answer {x y : Proxy} (hy : y.Sound) (hx : x.toApp = []) (hreq : y.request = x.request)
    (hdest : y.destSent = x.destSent) : ∃ ms, system.exec x ms = some { x with toApp := y.toApp } := by
  rcases hy.answered with hnil | ⟨p, hcd, hp⟩ | ⟨r, hr, ⟨d, hd⟩, hto⟩
  · exact ⟨[], by rw [hnil, ← hx]; rfl⟩
  · refine ⟨[.answer p], ?_⟩
    rw [hp]
    exact exec_one ⟨hx, fun h90 => absurd h90 hcd⟩
  · have hr' : x.request = some r := hreq.symm.trans hr
    have hfst : system.exec x [.answer (r.1.reply 90)] = some { x with toApp := grant r } :=
      exec_one ⟨hx, fun _ => ⟨r, hr', rfl⟩⟩
    have hdown : Enabled { x with toApp := grant r } (.down d) := by
      refine ⟨r, hr', List.prefix_refl _, ?_⟩
      rw [← hdest, hd]
      exact hto
    refine ⟨[.answer (r.1.reply 90), .down d], System.exec_append.2 ⟨_, hfst, ?_⟩⟩
    rw [exec_one hdown, Proxy.next, hd]

/-- more bytes to the application -/
theorem run_down {x y : Proxy} (hx : x.Sound) (hy : y.Sound) (hne : x.toApp ≠ []) (hreq : y.request = x.request)
    (hdest : y.destSent = x.destSent) {bs : List UInt8} (hbs : x.toApp ++ bs = y.toApp) (hgrow : bs ≠ []) :
    x.Enabled (.down bs) := by
  have hpre : x.toApp <+: y.toApp := ⟨bs, hbs⟩
  have hlong : x.toApp.length < y.toApp.length := by
    rw [← hbs, List.length_append]
    exact Nat.lt_add_of_pos_right (List.length_pos_iff.2 hgrow)
  -- an answer that goes on is a grant, and was one
  rcases hy.answered with hnil | ⟨p, -, hp⟩ | ⟨r, hr, hgr, hto⟩
  · exact absurd (List.append_eq_nil_iff.1 (hbs.trans hnil)).1 hne
  · rcases hx.answered with hnil | ⟨q, -, hq⟩ | ⟨q, -, hgq, -⟩
    · exact absurd hnil hne
    · rw [hp, hq, SockPkt.length_bytes, SockPkt.length_bytes] at hlong
      exact absurd hlong (lt_irrefl _)
    · have h8 := hgq.length_le
      rw [length_grant] at h8
      rw [hp, SockPkt.length_bytes] at hlong
      omega
  · rcases hx.answered with hnil | ⟨q, hcd, hq⟩ | ⟨q, hq, hgq, -⟩
    · exact absurd hnil hne
    · exact absurd hgr (not_granted hcd (hq ▸ hpre))
    · obtain rfl := Option.some.inj (hr.symm.trans (hreq.trans hq))
      exact ⟨r, hq, hgq, by rw [hbs, ← hdest]; exact hto⟩

theorem run_toApp {x y : Proxy} (hx : x.Sound) (hy : y.Sound) (hreq : y.request = x.request)
    (hdest : y.destSent = x.destSent) (hpre : x.toApp <+: y.toApp) :
    ∃ ms, system.exec x ms = some { x with toApp := y.toApp } := by
  obtain ⟨bs, hbs⟩ := hpre
  by_cases hnil : x.toApp = []
  · exact run_answer hy hnil hreq hdest
  · by_cases hgrow : bs = []
    · exact ⟨[], by rw [← hbs, hgrow, List.append_nil]; rfl⟩
    · refine ⟨[.down bs], ?_⟩
      rw [← hbs]
      exact exec_one (run_down hx hy hnil hreq hdest hbs hgrow)

theorem run_toDest {x y : Proxy} (hy : y.Sound) (happ : y.appSent = x.appSent) (hreq : y.request = x.request)
    (hto : y.toApp = x.toApp) (hpre : x.toDest <+: y.toDest) :
    ∃ ms, system.exec x ms = some { x with toDest := y.toDest } := by
  obtain ⟨bs, hbs⟩ := hpre
  by_cases hgrow : y.toDest = []
  · obtain ⟨hnil, -⟩ := List.append_eq_nil_iff.1 (hbs.trans hgrow)
    exact ⟨[], by rw [hgrow, ← hnil]; rfl⟩
  · obtain ⟨r, hr, hg⟩ := hy.granted hgrow
    refine ⟨[.up bs], ?_⟩
    rw [← hbs]
    exact exec_one ⟨r, hreq ▸ hr, hto ▸ hg, by rw [hbs, ← happ]; exact (hy.asked r hr).2⟩

/-- **Every later sound state is reached.** -/
theorem exists_run {x y : Proxy} (hx : x.Sound) (hy : y.Sound) (h : x.Le y) : ∃ ms, system.exec x ms = some y := by
  obtain ⟨bs, hbs⟩ := h.appSent
  obtain ⟨ds, hds⟩ := h.destSent
  -- the bytes of the two ends and the connect come first, then those that are handed on
  have h1 : system.exec x [.appSend bs] = some { x with appSent := y.appSent } := by
    rw [← hbs]
    exact exec_one trivial
  obtain ⟨m2, h2⟩ : ∃ ms, system.exec { x with appSent := y.appSent } ms =
      some { x with appSent := y.appSent, request := y.request } := by
    refine run_connect h.request ?_
    intro r hr
    exact ⟨(hy.asked r hr).1, (List.prefix_append _ _).trans (hy.asked r hr).2⟩
  obtain ⟨m3, h3⟩ : ∃ ms, system.exec { x with appSent := y.appSent, request := y.request } ms =
      some { x with appSent := y.appSent, request := y.request, destSent := y.destSent } := by
    rw [← hds]
    refine run_destSend ?_
    intro hnone
    exact (List.append_eq_nil_iff.1 (hds.trans (hy.unasked hnone))).2
  have h123 := System.exec_append.2 ⟨_, System.exec_append.2 ⟨_, h1, h2⟩, h3⟩
  have hmid := System.exec_inv Sound sound_step h123 hx
  obtain ⟨m4, h4⟩ := run_toApp hmid hy rfl rfl h.toApp
  obtain ⟨m5, h5⟩ := @run_toDest { x with
    appSent := y.appSent, request := y.request, destSent := y.destSent, toApp := y.toApp } y hy rfl rfl rfl h.toDest
  exact ⟨_, System.exec_append.2 ⟨_, System.exec_append.2 ⟨_, h123, h4⟩, h5⟩⟩

/-- **Exactly the sound states are reached.** -/
theorem reachable_iff_sound {x : Proxy} : system.Reachable x ↔ x.Sound := by
  constructor
  · intro h
    refine System.reachable_inv Sound ?_ sound_step h
    rintro y rfl
    exact sound_fresh
  · intro h
    obtain ⟨ms, hms⟩ := exists_run sound_fresh h
      ⟨List.nil_prefix, List.nil_prefix, fun hne => absurd rfl hne, List.nil_prefix, List.nil_prefix⟩
    exact ⟨fresh, ms, rfl, hms⟩

end Proxy

end UdtGate
