/-
What the log of a `start_child` thread says about the SOCKS4 handshake, on either side.

A request is read in two loops, eight bytes and then a user id up to a zero byte; the server reads it from UDT, the
client from TCP. `Received p l`: none of these receives failed. `Scanning p req l` and `Parsed p req l`: as long as
none failed, the bytes received are the request `req` with a part of its user id, or with all of it and the zero byte.
-/
import UdtGate.StartChild

namespace UdtGate

open UdtGate.Core

def NulFree (uid : List UInt8) : Prop := ∀ b ∈ uid, b ≠ 0

theorem nulFree_nil : NulFree [] := nofun

theorem NulFree.snoc {uid : List UInt8} (h : NulFree uid) {b : UInt8} (hb : b ≠ 0) : NulFree (uid ++ [b]) := by
  intro x hx
  rcases List.mem_append.1 hx with hx | hx
  · exact h x hx
  · rw [List.mem_singleton.1 hx]; exact hb

/-- up to its first zero byte a user id is determined by any stream it begins -/
theorem nulFree_append_inj {u v s t : List UInt8} (hu : NulFree u) (hv : NulFree v)
    (h : u ++ 0 :: s = v ++ 0 :: t) : u = v ∧ s = t := by
  induction u generalizing v with
  | nil =>
    cases v with
    | nil => exact ⟨rfl, (List.cons.inj h).2⟩
    | cons b v => exact absurd (List.cons.inj h).1.symm (hv b List.mem_cons_self)
  | cons a u ih =>
    cases v with
    | nil => exact absurd (List.cons.inj h).1 (hu a List.mem_cons_self)
    | cons b v =>
      obtain ⟨rfl, h'⟩ := List.cons.inj h
      obtain ⟨rfl, hst⟩ :=
        ih (fun x hx => hu x (List.mem_cons_of_mem _ hx)) (fun x hx => hv x (List.mem_cons_of_mem _ hx)) h'
      exact ⟨rfl, hst⟩

/-! ## Receives -/

/-- a receive of the handshake did not fail: with MSG_WAITALL it returned all, otherwise at least one byte -/
def received (p : Proto) (e : Call × Ans) : Bool :=
  match p, e.1 with
  | .tcp, .recv _ n true => e.2.rc = n
  | .tcp, .recv _ _ false => 1 ≤ e.2.rc
  | .udt, .udtRecv .. => 1 ≤ e.2.rc
  | _, _ => true

/-- no receive from the socket failed -/
def Received (p : Proto) (l : Log) : Prop := ∀ e ∈ l, received p e = true

instance (p : Proto) (l : Log) : Decidable (Received p l) := inferInstanceAs (Decidable (∀ e ∈ l, received p e = true))

theorem received_append {p : Proto} {l m : Log} : Received p (l ++ m) ↔ Received p l ∧ Received p m :=
  List.forall_mem_append

theorem received_singleton {p : Proto} {e : Call × Ans} : Received p [e] ↔ received p e = true := by simp [Received]

/-- the bytes received from the socket -/
def bytesIn (p : Proto) (l : Log) : List UInt8 :=
  match p with
  | .tcp => tcpIn l
  | .udt => udtIn l

theorem bytesIn_append (p : Proto) (l m : Log) : bytesIn p (l ++ m) = bytesIn p l ++ bytesIn p m := by
  cases p <;> simp [bytesIn]

/-- what a permitted receive of `n` bytes stored -/
theorem length_of_permitted {n : ℤ} {a : Ans} (h : (a.rc = a.data.length ∧ a.rc ≤ n) ∨ (a.rc = -1 ∧ a.data = [])) :
    (a.data.length : ℤ) ≤ max n 0 ∧ (1 ≤ a.rc → a.rc = a.data.length) ∧ (a.rc ≤ 0 → a.data = []) := by
  rcases h with ⟨hl, hle⟩ | ⟨hl, hnil⟩
  · refine ⟨by omega, fun _ => hl, ?_⟩
    intro h0
    exact List.length_eq_zero_iff.1 (by omega)
  · rw [hnil]
    refine ⟨by simp, by omega, fun _ => rfl⟩

theorem length_one_of_permitted {a : Ans} (h : (a.rc = a.data.length ∧ a.rc ≤ 1) ∨ (a.rc = -1 ∧ a.data = []))
    (h1 : 1 ≤ a.rc) : a.data.length = 1 := by
  rcases h with ⟨hl, hle⟩ | ⟨hl, -⟩
  · omega
  · omega

theorem permitted_recv {sd n : ℤ} {w : Bool} {a : Ans} (h : permitted (.recv sd n w) a = true) :
    (a.rc = a.data.length ∧ a.rc ≤ n) ∨ (a.rc = -1 ∧ a.data = []) := by
  simpa [permitted] using h

theorem permitted_udtRecv {sd n : ℤ} {a : Ans} (h : permitted (.udtRecv sd n) a = true) :
    (a.rc = a.data.length ∧ a.rc ≤ n) ∨ (a.rc = -1 ∧ a.data = []) := by
  simpa [permitted] using h

/-- with MSG_WAITALL a request comes whole -/
theorem length_of_waitall {sd : ℤ} {a : Ans} (hok : permitted (.recv sd 8 true) a = true)
    (hr : received .tcp (.recv sd 8 true, a) = true) : a.data.length = 8 := by
  have hrc : a.rc = 8 := by simpa [received] using hr
  rcases permitted_recv hok with ⟨hl, -⟩ | ⟨hl, -⟩
  · omega
  · omega

/-! ## The request -/

/-- the request `req` asks for a connect, and it is what came, followed by the user id so far -/
structure Scanning (p : Proto) (req : SockPkt) (l : Log) : Prop where
  vn : req.vn = 4
  cd : req.cd = 1
  bytes : Received p l → ∃ uid, NulFree uid ∧ bytesIn p l = req.bytes ++ uid

/-- the request `req` asks for a connect, and it is what came, followed by its user id and the zero byte -/
structure Parsed (p : Proto) (req : SockPkt) (l : Log) : Prop where
  vn : req.vn = 4
  cd : req.cd = 1
  bytes : Received p l → ∃ uid, NulFree uid ∧ bytesIn p l = req.bytes ++ uid ++ [0]

theorem Parsed.snoc {p : Proto} {req : SockPkt} {l : Log} (h : Parsed p req l) {e : Call × Ans}
    (hin : bytesIn p [e] = []) : Parsed p req (l ++ [e]) := by
  refine ⟨h.vn, h.cd, ?_⟩
  intro hr
  obtain ⟨uid, hu, hb⟩ := h.bytes (received_append.1 hr).1
  exact ⟨uid, hu, by rw [bytesIn_append, hin, hb, List.append_nil]⟩

/-- **One byte of the user id.** A byte other than zero goes on, a zero byte ends the request. -/
theorem Scanning.snoc {p : Proto} {req : SockPkt} {l : Log} (h : Scanning p req l) (c : UInt8) {e : Call × Ans}
    (hin : bytesIn p [e] = e.2.data) (hone : received p e = true → e.2.data.length = 1) :
    (StartChild.recvChar c e.2.data ≠ 0 → Scanning p req (l ++ [e])) ∧
      (StartChild.recvChar c e.2.data = 0 → Parsed p req (l ++ [e])) := by
  have hbyte : Received p (l ++ [e]) → ∃ uid, NulFree uid ∧
      bytesIn p (l ++ [e]) = req.bytes ++ uid ++ [StartChild.recvChar c e.2.data] := by
    intro hr
    obtain ⟨hr1, hr2⟩ := received_append.1 hr
    obtain ⟨b, hb⟩ := List.length_eq_one_iff.1 (hone (received_singleton.1 hr2))
    obtain ⟨uid, hu, hbytes⟩ := h.bytes hr1
    refine ⟨uid, hu, ?_⟩
    rw [bytesIn_append, hin, hbytes, hb]
    rfl
  constructor
  · intro hne
    refine ⟨h.vn, h.cd, ?_⟩
    intro hr
    obtain ⟨uid, hu, hb⟩ := hbyte hr
    exact ⟨_, hu.snoc hne, by rw [hb, List.append_assoc]⟩
  · intro h0
    refine ⟨h.vn, h.cd, ?_⟩
    intro hr
    obtain ⟨uid, hu, hb⟩ := hbyte hr
    exact ⟨uid, hu, by rw [hb, h0]⟩

/-- a parser has ended: what came is a request with its user id, or a packet with a wrong version or command -/
def Decided (p : Proto) (l : Log) : Prop :=
  Received p l → (∃ req, Parsed p req l) ∨ ∃ q : SockPkt, (q.vn ≠ 4 ∨ q.cd ≠ 1) ∧ bytesIn p l = q.bytes

theorem Decided.snoc {p : Proto} {l : Log} (h : Decided p l) {e : Call × Ans} (hin : bytesIn p [e] = []) :
    Decided p (l ++ [e]) := by
  intro hr
  rcases h (received_append.1 hr).1 with ⟨req, hp⟩ | ⟨q, hq, hb⟩
  · exact Or.inl ⟨req, hp.snoc hin⟩
  · exact Or.inr ⟨q, hq, by rw [bytesIn_append, hin, hb, List.append_nil]⟩

/-! ## The end of the handshake -/

/-- the data threads were not created -/
def NotStarted (l : Log) : Prop := ∀ e ∈ l, e.1 ≠ .createWorkers

def Call.isCreateWorkers : Call → Bool
  | .createWorkers => true
  | _ => false

theorem Call.isCreateWorkers_eq_false {c : Call} : c.isCreateWorkers = false ↔ c ≠ .createWorkers := by
  cases c <;> simp [isCreateWorkers]

theorem NotStarted.snoc {l : Log} (h : NotStarted l) {e : Call × Ans} (he : e.1.isCreateWorkers = false) :
    NotStarted (l ++ [e]) := by
  intro x hx
  rcases List.mem_append.1 hx with hx | hx
  · exact h x hx
  · intro hc
    rw [← List.mem_singleton.1 hx, hc] at he
    cases he

/-- the reply to the request `req` -/
def SockPkt.reply (req : SockPkt) (cd : UInt8) : SockPkt := { req with cd := cd }

end UdtGate
