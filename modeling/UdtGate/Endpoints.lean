/-
The three places that take a host and a port apart: the -R option and the last operand of `main`, and `init` of
minisocks.

Each has its own format and its own sign of a port that was not given: the -R option and `init` count what was assigned,
`main` looks into the buffer. What all of them are for is `Parses`, with a default of their own.

- `peer_parses`, `server_parses`: the operand and the environment keep to it;
- `rzv_pair`: the -R option makes two equal ports of anything;
- `parses_alike_iff`: when all three keep to it.
-/
import Mathlib.Data.Bool.AllAny
import UdtGate.Arguments

namespace UdtGate

open UdtGate.Core UdtGate.Core.Scanf UdtGate.UdtOption
open DumpStr (ascii)

namespace Arguments

/-! ## The pairs -/

/-- a host and a port, or two ports -/
abbrev Pair := List UInt8 × List UInt8

def rzvPair (w : Arguments) (optarg : List UInt8) : Except Fault (Option Pair) := do
  let t ← w.rendezvous optarg
  let lport ← cstr t.peerRzvLport
  let rport ← cstr t.peerRzvRport
  return if t.pc = .died then none else some (lport, rport)

def peerPair (w : Arguments) (socks listen peer : List UInt8) : Except Fault (Option Pair) := do
  let t ← w.operands [socks, listen, peer]
  let addr ← cstr t.peerAddr
  let port ← cstr t.peerRemotePort
  return some (addr, port)

def serverPair (hostHeap portHeap : ℕ → UInt8) (servEnvVal : List UInt8) : Except Fault (Option Pair) := do
  match ← init hostHeap portHeap servEnvVal with
  | none => return none
  | some (host, port) => do
    let host ← cstr host
    let port ← cstr port
    return some (host, port)

/-- a host or a port as it can be given -/
structure Field (h : List UInt8) : Prop where
  ne_nil : h ≠ []
  length_le : h.length ≤ MAX_NAME_SZ
  chars : ∀ c ∈ h, c ≠ 0 ∧ c ≠ 58 ∧ isSpace c = false

instance (h : List UInt8) : Decidable (Field h) :=
  decidable_of_iff (h ≠ [] ∧ h.length ≤ MAX_NAME_SZ ∧ (h.all fun c => c ≠ 0 ∧ c ≠ 58 ∧ isSpace c = false) = true)
    ⟨fun hall => ⟨hall.1, hall.2.1, List.all_iff_forall_prop.1 hall.2.2⟩,
      fun hh => ⟨hh.ne_nil, hh.length_le, List.all_iff_forall_prop.2 hh.chars⟩⟩

/-- what `host[:port]` is for -/
structure Parses (parse : List UInt8 → Except Fault (Option Pair)) (default h p : List UInt8) : Prop where
  both : parse (h ++ 58 :: p) = .ok (some (h, p))
  alone : parse h = .ok (some (h, default))

/-! ## Fields -/

variable {w : Arguments} {h p listen : List UInt8}

theorem Field.zero_not_mem (hh : Field h) : 0 ∉ h := fun h0 => (hh.chars 0 h0).1 rfl

theorem Field.notColon (hh : Field h) : ∀ c ∈ h, notColon c = true := fun c hc => bne_iff_ne.2 (hh.chars c hc).2.1

theorem colon_stops (p : List UInt8) : ∀ x, (58 :: p).head? = some x → notColon x = false := by
  intro x hx
  obtain rfl := Option.some.inj hx
  rfl

theorem Field.firstField (hh : Field h) (p : List UInt8) : firstField (h ++ 58 :: p) = h :=
  takeWhile_stop hh.notColon (colon_stops p)

theorem Field.secondField (hh : Field h) (hp : Field p) : secondField (h ++ 58 :: p) = p := by
  rw [Arguments.secondField, dropWhile_stop hh.notColon (colon_stops p), List.drop_succ_cons, List.drop_zero]
  exact List.takeWhile_eq_self_iff.2 hp.notColon

theorem Field.firstField_alone (hh : Field h) : Arguments.firstField h = h := List.takeWhile_eq_self_iff.2 hh.notColon

theorem Field.secondField_alone (hh : Field h) : Arguments.secondField h = [] := by
  rw [Arguments.secondField, List.dropWhile_eq_nil_iff.2 hh.notColon]
  rfl

/-! ## -R -/

/-- **The -R option makes two equal ports of anything.** -/
theorem rzv_pair {s : List UInt8} (hl : Terminated MAX_NAME_SZ w.peerRzvLport)
    (hr : Terminated MAX_NAME_SZ w.peerRzvRport) (hpc : w.pc = .options) (hfirst : Field (Arguments.firstField s))
    (hsecond : (Arguments.secondField s).length ≤ MAX_NAME_SZ) :
    w.rzvPair s = .ok (some (Arguments.firstField s, Arguments.firstField s)) := by
  obtain ⟨lport, rport, heq, -, -, hread⟩ := rendezvous_of_fits hl hr hfirst.ne_nil hfirst.length_le hsecond
  obtain ⟨hlport, hrport⟩ := hread hfirst.zero_not_mem
  have hno : ¬ w.pc = .died := by
    rw [hpc]
    decide
  simp only [rzvPair, heq, hlport, hrport, if_neg hno, bind, Except.bind, pure, Except.pure]

/-! ## The peer operand -/

theorem Field.scan_peer (hh : Field h) (hp : Field p) : sscanf peerFormat (h ++ 58 :: p) = [.text h, .text p] := by
  have hwidth {u : List UInt8} (hu : Field u) : ∀ n, some MAX_NAME_SZ = some n → u.length ≤ n := by
    rintro n ⟨⟩
    exact hu.length_le
  rw [peerFormat, sscanf_set hh.ne_nil hh.notColon (colon_stops p) (hwidth hh), sscanf_lit,
    sscanf_str hp.ne_nil (fun c hc => (hp.chars c hc).2.2) (hwidth hp)]

theorem Field.scan_peer_alone (hh : Field h) : sscanf peerFormat h = [.text h] := by
  have hwidth : ∀ n, some MAX_NAME_SZ = some n → h.length ≤ n := by
    rintro n ⟨⟩
    exact hh.length_le
  have hset : sscanf peerFormat (h ++ []) = .text h :: sscanf [.lit 58, .str (some MAX_NAME_SZ)] [] :=
    sscanf_set hh.ne_nil hh.notColon (by rintro x ⟨⟩) hwidth
  rwa [List.append_nil] at hset

/-- a field is stored and read back -/
theorem Field.put {b : List UInt8} (hh : Field h) (hb : Terminated MAX_NAME_SZ b) :
    ∃ b', storeText b (some (.text h)) = .ok b' ∧ cstr b' = .ok h := by
  obtain ⟨b', hput, -, hread⟩ := hb.putStr_fits hh.length_le
  exact ⟨b', hput, hread hh.zero_not_mem⟩

/-- the remote port that was given -/
theorem defaultRemote_given {b : List UInt8} (hp : Field p) (hb : cstr b = .ok p) (listenPort : List UInt8) :
    defaultRemote b listenPort = .ok b := by
  have hhead : ¬ b.head? = some 0 := by
    intro hzero
    exact hp.ne_nil (Except.ok.inj (hb.symm.trans (cstr_of_head hzero)))
  rw [defaultRemote, if_neg hhead]

/-- the remote port that was not given -/
theorem defaultRemote_empty {listenPort text : List UInt8} (h0 : 0 ∉ text) (hl : cstr listenPort = .ok text) :
    ∃ b, defaultRemote emptyName listenPort = .ok b ∧ cstr b = .ok (text.take MAX_NAME_SZ) := by
  have hempty : Terminated MAX_NAME_SZ emptyName := terminated_replicate MAX_NAME_SZ
  obtain ⟨b, hb, -⟩ := strncpy_terminated hempty text
  refine ⟨b, ?_, cstr_strncpy hempty h0 hb⟩
  have hhead : emptyName.head? = some 0 := rfl
  simp only [defaultRemote, if_pos hhead, hl, bind, Except.bind]
  exact hb

/-- **The peer operand keeps to it**, with the listen port as the default. -/
theorem peer_parses (hw : system.Reachable w) (hpc : w.pc = .options) (socks : List UInt8) (hlisten : 0 ∉ listen)
    (hh : Field h) (hp : Field p) : Parses (w.peerPair socks listen) (listen.take MAX_NAME_SZ) h p := by
  obtain ⟨hsafe, hempty⟩ := reachable_ready hw hpc
  obtain ⟨socksPort, h1, -⟩ := strncpy_terminated hsafe.socksPort socks
  obtain ⟨listenPort, h2, -⟩ := strncpy_terminated hsafe.peerListenPort listen
  have hport := cstr_strncpy hsafe.peerListenPort hlisten h2
  obtain ⟨addr, h3, haddr⟩ := hh.put hsafe.peerAddr
  constructor
  · obtain ⟨r, h4, hr⟩ := hp.put hsafe.peerRemotePort
    have hscan := hh.scan_peer hp
    have hops : w.operands [socks, listen, h ++ 58 :: p] = .ok _ :=
      operands_eq h1 h2 (by rw [hscan]; exact h3) (by rw [hscan]; exact h4) (defaultRemote_given hp hr listenPort)
    simp only [peerPair, hops, haddr, hr, bind, Except.bind, pure, Except.pure]
  · have htake : 0 ∉ listen.take MAX_NAME_SZ := fun h0 => hlisten (List.mem_of_mem_take h0)
    obtain ⟨r, h5, hr⟩ := defaultRemote_empty htake hport
    rw [← hempty] at h5
    have hscan := hh.scan_peer_alone
    have hops : w.operands [socks, listen, h] = .ok _ :=
      operands_eq h1 h2 (by rw [hscan]; exact h3) (by rw [hscan]; rfl) h5
    rw [List.take_take, min_self] at hr
    simp only [peerPair, hops, haddr, hr, bind, Except.bind, pure, Except.pure]

/-! ## The environment of minisocks -/

/-- **`init` keeps to it**, with 1080 as the default. -/
theorem server_parses (hostHeap portHeap : ℕ → UInt8) (hh : Field h) (hp : Field p) :
    Parses (serverPair hostHeap portHeap) (ascii ['1', '0', '8', '0']) h p := by
  constructor
  · obtain ⟨host, port, heq, -, -, hread⟩ := init_of_first (s := h ++ 58 :: p) hostHeap portHeap
      (by rw [hh.firstField]; exact hh.ne_nil)
    have h0 : 0 ∉ h ++ 58 :: p := by
      intro hmem
      rcases List.mem_append.1 hmem with hmem | hmem
      · exact hh.zero_not_mem hmem
      · rcases List.mem_cons.1 hmem with heq | hmem
        · cases heq
        · exact hp.zero_not_mem hmem
    obtain ⟨hhost, hport⟩ := hread h0
    rw [hh.firstField] at hhost
    rw [hh.secondField hp, if_neg hp.ne_nil] at hport
    simp only [serverPair, heq, hhost, hport, bind, Except.bind, pure, Except.pure]
  · obtain ⟨host, port, heq, -, -, hread⟩ := init_of_first (s := h) hostHeap portHeap
      (by rw [hh.firstField_alone]; exact hh.ne_nil)
    obtain ⟨hhost, hport⟩ := hread hh.zero_not_mem
    rw [hh.firstField_alone] at hhost
    rw [hh.secondField_alone, if_pos rfl] at hport
    simp only [serverPair, heq, hhost, hport, bind, Except.bind, pure, Except.pure]

/-! ## All three -/

/-- **When the three parsers are alike**: when the two parts are, as the -R option forgets its second one. -/
theorem parses_alike_iff (hw : system.Reachable w) (hpc : w.pc = .options) (socks : List UInt8) (hlisten : 0 ∉ listen)
    (hostHeap portHeap : ℕ → UInt8) (hh : Field h) (hp : Field p) :
    (Parses w.rzvPair h h p ∧ Parses (w.peerPair socks listen) (listen.take MAX_NAME_SZ) h p ∧
      Parses (serverPair hostHeap portHeap) (ascii ['1', '0', '8', '0']) h p) ↔ h = p := by
  rw [and_iff_left ⟨peer_parses hw hpc socks hlisten hh hp, server_parses hostHeap portHeap hh hp⟩]
  obtain ⟨hsafe, -⟩ := reachable_ready hw hpc
  have hboth : w.rzvPair (h ++ 58 :: p) = .ok (some (h, h)) := by
    have hpair := rzv_pair (s := h ++ 58 :: p) hsafe.peerRzvLport hsafe.peerRzvRport hpc
      (by rw [hh.firstField]; exact hh) (by rw [hh.secondField hp]; exact hp.length_le)
    rwa [hh.firstField] at hpair
  have halone : w.rzvPair h = .ok (some (h, h)) := by
    have hpair := rzv_pair (s := h) hsafe.peerRzvLport hsafe.peerRzvRport hpc (by rw [hh.firstField_alone]; exact hh)
      (by rw [hh.secondField_alone]; exact Nat.zero_le _)
    rwa [hh.firstField_alone] at hpair
  constructor
  · intro hparses
    exact (Prod.mk.inj (Option.some.inj (Except.ok.inj (hboth.symm.trans hparses.both)))).2
  · rintro rfl
    exact ⟨hboth, halone⟩

/-- a host that is a port too, before any option and with 9000 as the listen port -/
theorem parses_alike_iff_equal :
    Parses start.rzvPair (ascii ['9', '1']) (ascii ['9', '1']) (ascii ['9', '1']) ∧
      Parses (start.peerPair (ascii ['1', '0', '8', '1']) (ascii ['9', '0', '0', '0']))
        ((ascii ['9', '0', '0', '0']).take MAX_NAME_SZ) (ascii ['9', '1']) (ascii ['9', '1']) ∧
      Parses (serverPair (fun _ => 7) fun _ => 0) (ascii ['1', '0', '8', '0'])
        (ascii ['9', '1']) (ascii ['9', '1']) := by
  have hfield : Field (ascii ['9', '1']) := by decide
  have hstart : system.Reachable start := ⟨start, [], rfl, rfl⟩
  have hlisten : 0 ∉ ascii ['9', '0', '0', '0'] := by decide
  exact (parses_alike_iff hstart rfl _ hlisten (fun _ => 7) (fun _ => 0) hfield hfield).2 rfl

/-- **A port that is forgotten.** `-R 5:6` leaves 5 in both buffers. -/
theorem second_port_forgotten :
    Field (ascii ['5']) ∧ Field (ascii ['6']) ∧
      start.rzvPair (ascii ['5', ':', '6']) = .ok (some (ascii ['5'], ascii ['5'])) ∧
      ¬ Parses start.rzvPair (ascii ['5']) (ascii ['5']) (ascii ['6']) := by
  have hpair : start.rzvPair (ascii ['5', ':', '6']) = .ok (some (ascii ['5'], ascii ['5'])) :=
    rzv_pair (terminated_replicate MAX_NAME_SZ) (terminated_replicate MAX_NAME_SZ) rfl (by decide) (by decide)
  refine ⟨by decide, by decide, hpair, ?_⟩
  intro h
  cases hpair.symm.trans h.both

end Arguments

end UdtGate
