/-
What `utl::worker` delivers: bytes that know where they come from.

The run is made over `Tok`s. The environment answers a read with bytes, and each byte is kept with the descriptor it was
read from and its place in the order of the reads, so that what is written can be followed to where it was read.

- `Conserved`: what was written and what the two buffers hold are together what was read, each buffer in order. All of
  it was read from `fd_in` and written to `sd`, whichever half did it.
- `Delivered`: what the worker is for. Each sink gets the front of what its source gave, and nothing else.
- `delivers_iff_in_turn`: a run delivers exactly when no write overtakes a byte that the other half holds, and `sd` is
  not also `fd_out` with a source of its own.
- `second_half_overtakes`: a run that swaps two bytes.
-/
import UdtGate.WorkerExits
import UdtGate.Core.Merge

namespace UdtGate

open UdtGate.Core

open scoped List

namespace Worker

/-- a byte that was read -/
structure Tok where
  src : ℤ
  /-- how many bytes had been read before -/
  pos : ℕ
  val : UInt8
deriving DecidableEq

/-- read before -/
def Older (x y : Tok) : Prop := x.pos < y.pos

instance (x y : Tok) : Decidable (Older x y) := inferInstanceAs (Decidable (_ < _))

/-- the bytes `bs`, read from `src` after `k` others -/
def marked (src : ℤ) (k : ℕ) : List UInt8 → List Tok
  | [] => []
  | b :: bs => ⟨src, k, b⟩ :: marked src (k + 1) bs

abbrev Log := List (Call Tok × Ans Tok)

/-- everything read, in order -/
def reads (log : Log) : List Tok :=
  log.flatMap fun e =>
    match e.1 with
    | .read _ _ _ => e.2.data
    | _ => []

/-- everything written, in order -/
def writes (log : Log) : List Tok :=
  log.flatMap fun e =>
    match e.1 with
    | .write _ _ bs => bs.take e.2.rc.toNat
    | _ => []

/-- what was read from `fd` -/
def readFrom (fd : ℤ) (log : Log) : List Tok :=
  log.flatMap fun e =>
    match e.1 with
    | .read _ src _ => if src = fd then e.2.data else []
    | _ => []

/-- what was written to `fd` -/
def writtenTo (fd : ℤ) (log : Log) : List Tok :=
  log.flatMap fun e =>
    match e.1 with
    | .write _ sink bs => if sink = fd then bs.take e.2.rc.toNat else []
    | _ => []

/-- an answer with its bytes marked -/
def mark (s : Run Tok) (a : Ans UInt8) : Ans Tok :=
  match s.st.call with
  | some (.read _ fd _) => ⟨a.rc, marked fd (reads s.log).length a.data, a.ready⟩
  | _ => ⟨a.rc, [], a.ready⟩

/-- the worker in the environment that answers with bytes -/
def tracing : System (Run Tok) (Ans UInt8) where
  init t := ∃ e : Entry, t = ⟨e.start, []⟩
  step s a := (machine Tok).logged.step permitted s (mark s a)

/-- each sink gets the front of what its source gave, and nothing from elsewhere -/
structure Delivered (s : Run Tok) : Prop where
  toSd : writtenTo s.st.args.sd s.log <+: readFrom s.st.args.fdIn s.log
  toOut : writtenTo s.st.args.fdOut s.log <+: readFrom s.st.args.sd s.log
  routed : ∀ fd, ∀ x ∈ writtenTo fd s.log,
    (x.src = s.st.args.fdIn ∧ fd = s.st.args.sd) ∨ (x.src = s.st.args.sd ∧ fd = s.st.args.fdOut)

/-- the other half -/
def Side.other : Side → Side
  | .fwd => .rev
  | .rev => .fwd

/-- when a write succeeds, the bytes it takes are older than all that the other half holds, and `sd` is not also the
sink of a source that is not `fd_in` -/
def InTurn (s : Run Tok) (a : Ans UInt8) : Prop :=
  match s.st.pc with
  | .writing d _ =>
    0 < a.rc →
      (∀ x ∈ (s.st.half d).buf.items.take a.rc.toNat, ∀ y ∈ (s.st.half d.other).buf.items, Older x y) ∧
        (s.st.args.fdOut = s.st.args.sd → s.st.args.fdIn = s.st.args.sd)
  | _ => True

instance (s : Run Tok) (a : Ans UInt8) : Decidable (InTurn s a) := by
  unfold InTurn
  split
  · infer_instance
  · infer_instance

/-! ## Everything read is written or held -/

/-- what was read and not yet written -/
def inside (s : Worker Tok) : List Tok := s.fwd.buf.items ++ s.rev.buf.items

/-- where the bytes are -/
structure Conserved (s : Run Tok) : Prop where
  split : (writes s.log ++ inside s.st).Perm (reads s.log)
  order : (reads s.log).Pairwise Older
  early : ∀ x ∈ reads s.log, x.pos < (reads s.log).length
  held : ∀ d, (s.st.half d).buf.items.Pairwise Older
  /-- both halves read from `fd_in` -/
  origin : ∀ x ∈ reads s.log, x.src = s.st.args.fdIn
  source : ∀ fd, readFrom fd s.log = if s.st.args.fdIn = fd then reads s.log else []
  /-- both halves write to `sd` -/
  sink : ∀ fd, writtenTo fd s.log = if s.st.args.sd = fd then writes s.log else []

theorem older_asymm (a b : Tok) (h : Older a b) : ¬ Older b a := Nat.lt_asymm h

theorem mem_marked {src : ℤ} {k : ℕ} {bs : List UInt8} {x : Tok} (h : x ∈ marked src k bs) :
    x.src = src ∧ k ≤ x.pos ∧ x.pos < k + bs.length := by
  induction bs generalizing k with
  | nil => cases h
  | cons b bs ih =>
    rcases List.mem_cons.1 h with rfl | h
    · exact ⟨rfl, le_refl k, by simp⟩
    · obtain ⟨hs, hle, hlt⟩ := ih h
      exact ⟨hs, by omega, by simp only [List.length_cons]; omega⟩

theorem length_marked (src : ℤ) (k : ℕ) (bs : List UInt8) : (marked src k bs).length = bs.length := by
  induction bs generalizing k with
  | nil => rfl
  | cons b bs ih => simp only [marked, List.length_cons, ih]

theorem pairwise_marked (src : ℤ) (k : ℕ) (bs : List UInt8) : (marked src k bs).Pairwise Older := by
  induction bs generalizing k with
  | nil => exact List.Pairwise.nil
  | cons b bs ih =>
    refine List.Pairwise.cons ?_ (ih (k + 1))
    intro x hx
    exact (mem_marked hx).2.1

@[simp] theorem reads_append (l m : Log) : reads (l ++ m) = reads l ++ reads m := List.flatMap_append

@[simp] theorem writes_append (l m : Log) : writes (l ++ m) = writes l ++ writes m := List.flatMap_append

@[simp] theorem readFrom_append (fd : ℤ) (l m : Log) : readFrom fd (l ++ m) = readFrom fd l ++ readFrom fd m :=
  List.flatMap_append

@[simp] theorem writtenTo_append (fd : ℤ) (l m : Log) :
    writtenTo fd (l ++ m) = writtenTo fd l ++ writtenTo fd m := List.flatMap_append

@[simp] theorem reads_read (d : Side) (fd : ℤ) (n : ℕ) (a : Ans Tok) : reads [(.read d fd n, a)] = a.data :=
  List.append_nil _

@[simp] theorem readFrom_read (d : Side) (fd src : ℤ) (n : ℕ) (a : Ans Tok) :
    readFrom fd [(.read d src n, a)] = if src = fd then a.data else [] := List.append_nil _

@[simp] theorem writtenTo_write (d : Side) (fd sink : ℤ) (bs : List Tok) (a : Ans Tok) :
    writtenTo fd [(.write d sink bs, a)] = if sink = fd then bs.take a.rc.toNat else [] := List.append_nil _

@[simp] theorem writes_write (d : Side) (fd : ℤ) (bs : List Tok) (a : Ans Tok) :
    writes [(.write d fd bs, a)] = bs.take a.rc.toNat := List.append_nil _

/-- a call that is no transfer adds nothing -/
theorem streams_aside {c : Call Tok} {a : Ans Tok} (h : c.aside = true) (fd : ℤ) :
    reads [(c, a)] = [] ∧ writes [(c, a)] = [] ∧ readFrom fd [(c, a)] = [] ∧ writtenTo fd [(c, a)] = [] := by
  cases c with
  | read d src n => cases h
  | write d sink bs => cases h
  | _ => exact ⟨rfl, rfl, rfl, rfl⟩

theorem rfd_eq (args : Args) (d : Side) : (args.copy d).rfd = args.fdIn := by
  cases d with
  | fwd => rfl
  | rev => rfl

theorem wfd_eq (args : Args) (d : Side) : (args.copy d).wfd = args.sd := by
  cases d with
  | fwd => rfl
  | rev => rfl

theorem hasRead_items {eof : Bool} {h : Half Tok} {a : Ans Tok} (hlen : a.data.length = a.rc.toNat)
    (hroom : a.data.length ≤ bfsize - h.buf.items.length) :
    (hasRead eof h a).buf.items = h.buf.items ++ a.data := by
  unfold hasRead
  split_ifs with hpos hzero
  · exact Fifo.push_items hroom
  · have hnil : a.data = [] := List.eq_nil_of_length_eq_zero (by rw [hlen, hzero]; rfl)
    rw [hnil, List.append_nil]
  · have hnil : a.data = [] := List.eq_nil_of_length_eq_zero (by rw [hlen]; exact Int.toNat_of_nonpos (not_lt.1 hpos))
    rw [hnil, List.append_nil]
    rfl

theorem hasWritten_items (h : Half Tok) (a : Ans Tok) :
    (hasWritten h a).buf.items = h.buf.items.drop a.rc.toNat := by
  unfold hasWritten
  split_ifs with hpos
  · rfl
  · rw [Int.toNat_of_nonpos (not_lt.1 hpos), List.drop_zero]
    rfl

theorem other_ne (d : Side) : d.other ≠ d := by
  cases d with
  | fwd => decide
  | rev => decide

/-- what a half takes in (`r`) or hands on (`w`) in one step -/
def Moves (s t : Run Tok) (a : Ans UInt8) (r w : List Tok) : Prop :=
  ((∀ d n, s.st.pc ≠ .writing d n) ∧ w = [] ∧ ∃ d bs, r = marked s.st.args.fdIn (reads s.log).length bs ∧
    (t.st.half d).buf.items = (s.st.half d).buf.items ++ r ∧
    (t.st.half d.other).buf.items = (s.st.half d.other).buf.items) ∨
  (∃ d n, s.st.pc = .writing d n ∧ r = [] ∧ w = (s.st.half d).buf.items.take a.rc.toNat ∧
    (t.st.half d).buf.items = (s.st.half d).buf.items.drop a.rc.toNat ∧
    (t.st.half d.other).buf.items = (s.st.half d.other).buf.items)

/-- **What one step moves.** -/
theorem step_cases {s t : Run Tok} {a : Ans UInt8} (hp : Placed s.st) (h : tracing.step s a = some t) :
    t.st.args = s.st.args ∧ ∃ r w, reads t.log = reads s.log ++ r ∧ writes t.log = writes s.log ++ w ∧
      (∀ fd, readFrom fd t.log = readFrom fd s.log ++ if s.st.args.fdIn = fd then r else []) ∧
      (∀ fd, writtenTo fd t.log = writtenTo fd s.log ++ if s.st.args.sd = fd then w else []) ∧ Moves s t a r w := by
  obtain ⟨c, hc, hok, rfl⟩ := Machine.logged_cases h
  change s.st.call = some c at hc
  have hst : (machine Tok).resume s.st (mark s a) = s.st.resume (mark s a) := rfl
  simp only [hst, reads_append, writes_append, readFrom_append, writtenTo_append]
  rcases resume_cases (a := mark s a) hc with
    ⟨haside, st, -, -, hflow⟩ | ⟨d, n, hpc, rfl, hway⟩ | ⟨d, n, hpc, rfl, hway⟩
  · refine ⟨hflow.args, [], [], ?_⟩
    have hstreams (fd : ℤ) := streams_aside (a := mark s a) haside fd
    simp only [(hstreams 0).1, (hstreams 0).2.1, (hstreams _).2.2.1, (hstreams _).2.2.2, ite_self]
    refine ⟨trivial, trivial, fun _ => trivial, fun _ => trivial, Or.inl ⟨?_, rfl, .fwd, [], rfl, ?_, ?_⟩⟩
    · intro d n hpc
      unfold call at hc
      rw [hpc] at hc
      obtain rfl := Option.some.inj hc
      cases haside
    · rw [List.append_nil, (hflow.half .fwd).buf]
      rfl
    · exact congrArg Fifo.items (hflow.half .rev).buf
  · have hm : mark s a = ⟨a.rc, marked s.st.args.fdIn (reads s.log).length a.data, a.ready⟩ := by
      unfold mark
      rw [hc]
      simp only [rfd_eq]
    simp only [Placed, hpc] at hp
    simp only [permitted, Bool.and_eq_true, decide_eq_true_eq] at hok
    have hroom : (mark s a).data.length ≤ bfsize - (s.st.half d).buf.items.length :=
      calc (mark s a).data.length = (mark s a).rc.toNat := hok.2
        _ ≤ n := Int.toNat_le.2 hok.1
        _ ≤ bfsize - (s.st.half d).buf.items.length := hp.2.2.2
    refine ⟨hway.flow.args.trans (setHalf_args ..), (mark s a).data, [], ?_, ?_, ?_, ?_,
      Or.inl ⟨?_, rfl, d, a.data, ?_⟩⟩
    · rw [reads_read]
    · rfl
    · intro fd
      rw [rfd_eq, readFrom_read]
    · intro fd
      rw [ite_self]
      rfl
    · intro e m he
      cases hpc.symm.trans he
    · refine ⟨by rw [hm], ?_, ?_⟩
      · rw [(hway.flow.half d).buf, half_setHalf, hasRead_items hok.2 hroom]
      · rw [(hway.flow.half d.other).buf, half_setHalf_ne _ _ (other_ne d)]
  · have hrc : (mark s a).rc = a.rc := by
      unfold mark
      rw [hc]
    simp only [permitted, decide_eq_true_eq, hrc] at hok
    have hle : a.rc.toNat ≤ n := by
      rw [List.length_take] at hok
      omega
    have htake : ((s.st.half d).buf.items.take n).take (mark s a).rc.toNat =
        (s.st.half d).buf.items.take a.rc.toNat := by
      rw [hrc, List.take_take, min_eq_left hle]
    refine ⟨hway.flow.args.trans (setHalf_args ..), [], (s.st.half d).buf.items.take a.rc.toNat, ?_, ?_, ?_, ?_,
      Or.inr ⟨d, n, hpc, rfl, rfl, ?_, ?_⟩⟩
    · rfl
    · rw [writes_write, htake]
    · intro fd
      rw [ite_self]
      rfl
    · intro fd
      rw [wfd_eq, writtenTo_write, htake]
    · rw [(hway.flow.half d).buf, half_setHalf, hasWritten_items, hrc]
    · rw [(hway.flow.half d.other).buf, half_setHalf_ne _ _ (other_ne d)]

theorem inside_perm (s : Worker Tok) (d : Side) :
    (inside s).Perm ((s.half d).buf.items ++ (s.half d.other).buf.items) := by
  cases d with
  | fwd => exact List.Perm.refl _
  | rev => exact List.perm_append_comm

theorem mem_inside {s : Worker Tok} {x : Tok} : x ∈ inside s ↔ ∃ d, x ∈ (s.half d).buf.items := by
  rw [inside, List.mem_append]
  constructor
  · rintro (h | h)
    · exact ⟨.fwd, h⟩
    · exact ⟨.rev, h⟩
  · rintro ⟨d, h⟩
    cases d with
    | fwd => exact Or.inl h
    | rev => exact Or.inr h

/-- what the halves hold after a step, given what the half `d` holds -/
theorem held_of {s t : Worker Tok} {d : Side} {p : List Tok → Prop} (h : ∀ e, p (s.half e).buf.items)
    (hd : p (t.half d).buf.items) (hother : (t.half d.other).buf.items = (s.half d.other).buf.items) (e : Side) :
    p (t.half e).buf.items := by
  have hcase : e = d ∨ e = d.other := by
    cases d with
    | fwd => cases e with
      | fwd => exact Or.inl rfl
      | rev => exact Or.inr rfl
    | rev => cases e with
      | fwd => exact Or.inr rfl
      | rev => exact Or.inl rfl
  rcases hcase with rfl | rfl
  · exact hd
  · rw [hother]
    exact h _

/-- every byte that a half holds was read -/
theorem Conserved.mem_reads {s : Run Tok} (h : Conserved s) {d : Side} {x : Tok}
    (hx : x ∈ (s.st.half d).buf.items) : x ∈ reads s.log :=
  h.split.subset (List.mem_append_right _ (mem_inside.2 ⟨d, hx⟩))

theorem conserved_step {s t : Run Tok} {a : Ans UInt8} (hp : Placed s.st) (h : Conserved s)
    (hst : tracing.step s a = some t) : Conserved t := by
  obtain ⟨hargs, r, w, hr, hw, hfrom, hto, hmoves⟩ := step_cases hp hst
  rcases hmoves with ⟨-, rfl, d, bs, hmark, hd, hother⟩ | ⟨d, n, -, rfl, hwd, hd, hother⟩
  · have hnew : ∀ x ∈ r, x.src = s.st.args.fdIn ∧ (reads s.log).length ≤ x.pos ∧
        x.pos < (reads s.log).length + r.length := by
      intro x hx
      rw [hmark, length_marked]
      exact mem_marked (hmark ▸ hx)
    have hsorted : r.Pairwise Older := hmark ▸ pairwise_marked _ _ _
    constructor
    case split =>
      rw [hr, hw, List.append_nil]
      calc writes s.log ++ inside t.st
          _ ~ writes s.log ++ (((s.st.half d).buf.items ++ r) ++ (s.st.half d.other).buf.items) := by
            rw [← hd, ← hother]
            exact (inside_perm t.st d).append_left _
          _ ~ writes s.log ++ (((s.st.half d).buf.items ++ (s.st.half d.other).buf.items) ++ r) := by
            rw [List.append_assoc, List.append_assoc]
            exact (List.perm_append_comm.append_left _).append_left _
          _ ~ writes s.log ++ inside s.st ++ r := by
            rw [← List.append_assoc]
            exact ((inside_perm s.st d).symm.append_left _).append_right _
          _ ~ reads s.log ++ r := h.split.append_right _
    case order =>
      rw [hr, List.pairwise_append]
      exact ⟨h.order, hsorted, fun x hx y hy => lt_of_lt_of_le (h.early x hx) (hnew y hy).2.1⟩
    case early =>
      rw [hr, List.length_append]
      intro x hx
      rcases List.mem_append.1 hx with hx | hx
      · exact lt_of_lt_of_le (h.early x hx) (Nat.le_add_right _ _)
      · exact (hnew x hx).2.2
    case held =>
      refine held_of (p := List.Pairwise Older) h.held ?_ hother
      rw [hd, List.pairwise_append]
      exact ⟨h.held d, hsorted, fun x hx y hy => lt_of_lt_of_le (h.early x (h.mem_reads hx)) (hnew y hy).2.1⟩
    case origin =>
      rw [hr, hargs]
      intro x hx
      rcases List.mem_append.1 hx with hx | hx
      · exact h.origin x hx
      · exact (hnew x hx).1
    case source =>
      intro fd
      rw [hfrom, h.source, hargs, hr]
      split_ifs
      · rfl
      · rfl
    case sink =>
      intro fd
      rw [hto, h.sink, hargs, hw]
      split_ifs
      · rfl
      · rfl
  · have hsplit : w ++ (t.st.half d).buf.items = (s.st.half d).buf.items := by
      rw [hwd, hd]
      exact List.take_append_drop _ _
    have hsub : ((t.st.half d).buf.items).Sublist (s.st.half d).buf.items := hsplit ▸ List.sublist_append_right _ _
    rw [List.append_nil] at hr
    constructor
    case split =>
      rw [hr, hw]
      calc writes s.log ++ w ++ inside t.st
          _ ~ writes s.log ++ (w ++ ((t.st.half d).buf.items ++ (t.st.half d.other).buf.items)) := by
            rw [List.append_assoc]
            exact ((inside_perm t.st d).append_left _).append_left _
          _ = writes s.log ++ ((s.st.half d).buf.items ++ (s.st.half d.other).buf.items) := by
            rw [← List.append_assoc w, hsplit, hother]
          _ ~ writes s.log ++ inside s.st := (inside_perm s.st d).symm.append_left _
          _ ~ reads s.log := h.split
    case order =>
      rw [hr]
      exact h.order
    case early =>
      rw [hr]
      exact h.early
    case held =>
      exact held_of (p := List.Pairwise Older) h.held ((h.held d).sublist hsub) hother
    case origin =>
      rw [hr, hargs]
      exact h.origin
    case source =>
      intro fd
      rw [hfrom, h.source, hargs, hr]
      split_ifs
      · exact List.append_nil _
      · rfl
    case sink =>
      intro fd
      rw [hto, h.sink, hargs, hw]
      split_ifs
      · rfl
      · rfl

/-! ## When a run delivers -/

/-- the writes so far are in order, nothing older is still held, and they did not also go to a sink of another source -/
def InOrder (s : Run Tok) : Prop :=
  ((writes s.log).Pairwise Older ∧ ∀ x ∈ writes s.log, ∀ y ∈ inside s.st, Older x y) ∧
    (s.st.args.fdOut = s.st.args.sd → s.st.args.fdIn = s.st.args.sd ∨ writes s.log = [])

theorem delivered_iff_inOrder {s : Run Tok} (h : Conserved s) : Delivered s ↔ InOrder s := by
  have hfront := prefix_iff older_asymm h.order h.split
  constructor
  · intro hd
    have hsd := hd.toSd
    have hout := hd.toOut
    rw [h.sink, h.source, if_pos rfl, if_pos rfl] at hsd
    refine ⟨hfront.1 hsd, ?_⟩
    intro hfd
    rw [h.sink, h.source, if_pos hfd.symm] at hout
    by_cases hin : s.st.args.fdIn = s.st.args.sd
    · exact Or.inl hin
    · rw [if_neg hin] at hout
      exact Or.inr (List.prefix_nil.1 hout)
  · rintro ⟨horder, hout⟩
    refine ⟨?_, ?_, ?_⟩
    · rw [h.sink, h.source, if_pos rfl, if_pos rfl]
      exact hfront.2 horder
    · rw [h.sink]
      split_ifs with hfd
      · rcases hout hfd.symm with hin | hnil
        · rw [h.source, if_pos hin]
          exact hfront.2 horder
        · rw [hnil]
          exact List.nil_prefix
      · exact List.nil_prefix
    · intro fd x hx
      rw [h.sink] at hx
      split_ifs at hx with hfd
      · exact Or.inl ⟨h.origin x (h.split.subset (List.mem_append_left _ hx)), hfd.symm⟩
      · cases hx

theorem held_ne_nil {s : Worker Tok} {d : Side} {n : ℕ} (hp : Placed s) (hpc : s.pc = .writing d n) :
    (s.half d).buf.items ≠ [] := by
  rw [Placed, hpc] at hp
  exact hp.2.2.1

/-- **A step keeps the order exactly when it writes in turn.** -/
theorem inOrder_step {s t : Run Tok} {a : Ans UInt8} (hp : Placed s.st) (h : Conserved s)
    (hst : tracing.step s a = some t) : InOrder t ↔ InOrder s ∧ InTurn s a := by
  obtain ⟨hargs, r, w, hr, hw, -, -, hmoves⟩ := step_cases hp hst
  have hreads : ∀ x ∈ writes s.log, x ∈ reads s.log := fun x hx => h.split.subset (List.mem_append_left _ hx)
  unfold InOrder
  rw [hargs, hw]
  rcases hmoves with ⟨hpc, rfl, d, bs, hmark, hd, hother⟩ | ⟨d, n, hpc, rfl, hwd, hd, hother⟩
  · have hturn : InTurn s a := by
      unfold InTurn
      split
      · next e m he => exact absurd he (hpc e m)
      · exact trivial
    have hinside (x : Tok) (hx : x ∈ writes s.log) :
        (∀ y ∈ inside t.st, Older x y) ↔ ∀ y ∈ inside s.st, Older x y := by
      have hperm := (inside_perm t.st d).mem_iff (a := x)
      constructor
      · intro hy y hmem
        apply hy
        rw [(inside_perm t.st d).mem_iff, hd, hother, List.mem_append, List.mem_append]
        rcases List.mem_append.1 ((inside_perm s.st d).mem_iff.1 hmem) with hmem | hmem
        · exact Or.inl (Or.inl hmem)
        · exact Or.inr hmem
      · intro hy y hmem
        rw [(inside_perm t.st d).mem_iff, hd, hother, List.mem_append, List.mem_append] at hmem
        rcases hmem with (hmem | hmem) | hmem
        · exact hy y ((inside_perm s.st d).mem_iff.2 (List.mem_append_left _ hmem))
        · exact lt_of_lt_of_le (h.early x (hreads x hx)) (mem_marked (hmark ▸ hmem)).2.1
        · exact hy y ((inside_perm s.st d).mem_iff.2 (List.mem_append_right _ hmem))
    rw [List.append_nil, and_iff_left hturn]
    exact and_congr_left' (and_congr_right' (forall₂_congr hinside))
  · have hsplit : w ++ (t.st.half d).buf.items = (s.st.half d).buf.items := by
      rw [hwd, hd]
      exact List.take_append_drop _ _
    have hmemS (y : Tok) : y ∈ inside s.st ↔
        y ∈ w ∨ y ∈ (t.st.half d).buf.items ∨ y ∈ (s.st.half d.other).buf.items := by
      rw [(inside_perm s.st d).mem_iff, ← hsplit, List.mem_append, List.mem_append, or_assoc]
    have hmemT (y : Tok) : y ∈ inside t.st ↔
        y ∈ (t.st.half d).buf.items ∨ y ∈ (s.st.half d.other).buf.items := by
      rw [(inside_perm t.st d).mem_iff, hother, List.mem_append]
    have hheld := h.held d
    rw [← hsplit, List.pairwise_append] at hheld
    obtain ⟨hwsorted, -, hwrest⟩ := hheld
    have hwnil : ¬ 0 < a.rc → w = [] := by
      intro hrc
      rw [hwd, Int.toNat_of_nonpos (not_lt.1 hrc), List.take_zero]
    have hwpos : w ≠ [] → 0 < a.rc := fun hne => by_contra fun hrc => hne (hwnil hrc)
    have hturn : InTurn s a ↔ (0 < a.rc → (∀ x ∈ w, ∀ y ∈ (s.st.half d.other).buf.items, Older x y) ∧
        (s.st.args.fdOut = s.st.args.sd → s.st.args.fdIn = s.st.args.sd)) := by
      unfold InTurn
      rw [hpc, hwd]
    rw [hturn, List.pairwise_append]
    constructor
    · rintro ⟨⟨⟨hws, -, hbefore⟩, hold⟩, hout⟩
      refine ⟨⟨⟨hws, ?_⟩, ?_⟩, ?_⟩
      · intro x hx y hy
        rcases (hmemS y).1 hy with hy | hy
        · exact hbefore x hx y hy
        · exact hold x (List.mem_append_left _ hx) y ((hmemT y).2 hy)
      · intro hfd
        exact (hout hfd).imp_right fun hnil => (List.append_eq_nil_iff.1 hnil).1
      · intro hrc
        refine ⟨fun x hx y hy => hold x (List.mem_append_right _ hx) y ((hmemT y).2 (Or.inr hy)), ?_⟩
        intro hfd
        refine (hout hfd).resolve_right fun hnil => ?_
        have hw0 := (List.append_eq_nil_iff.1 hnil).2
        rw [hwd, List.take_eq_nil_iff] at hw0
        rcases hw0 with hzero | hnone
        · exact absurd hrc (not_lt.2 (Int.toNat_eq_zero.1 hzero))
        · exact held_ne_nil hp hpc hnone
    · rintro ⟨⟨⟨hws, hold⟩, hout⟩, hG⟩
      refine ⟨⟨⟨hws, hwsorted, fun x hx y hy => hold x hx y ((hmemS y).2 (Or.inl hy))⟩, ?_⟩, ?_⟩
      · intro x hx y hy
        rcases List.mem_append.1 hx with hx | hx
        · exact hold x hx y ((hmemS y).2 (Or.inr ((hmemT y).1 hy)))
        · rcases (hmemT y).1 hy with hy | hy
          · exact hwrest x hx y hy
          · exact (hG (hwpos (List.ne_nil_of_mem hx))).1 x hx y hy
      · intro hfd
        by_cases hne : w = []
        · rw [hne, List.append_nil]
          exact hout hfd
        · exact Or.inl ((hG (hwpos hne)).2 hfd)

/-- what every run keeps -/
def Sound (s : Run Tok) : Prop := Placed s.st ∧ Conserved s

theorem sound_start (e : Entry) : Sound (⟨e.start, []⟩ : Run Tok) := by
  have hnil (d : Side) : (half (α := Tok) e.start d).buf.items = [] := by
    cases e with
    | three fdIn fdOut sd timeout => cases d <;> rfl
    | two sd1 sd2 timeout => cases d <;> rfl
  refine ⟨(inv_start e).1, ?_⟩
  refine ⟨?_, List.Pairwise.nil, nofun, ?_, nofun, fun fd => (ite_self _).symm, fun fd => (ite_self _).symm⟩
  · have hinside : inside (e.start : Worker Tok) = [] := by
      show (half (α := Tok) e.start .fwd).buf.items ++ (half (α := Tok) e.start .rev).buf.items = []
      rw [hnil, hnil, List.nil_append]
    show ([] ++ inside (e.start : Worker Tok)).Perm []
    rw [hinside, List.nil_append]
  · intro d
    rw [hnil]
    exact List.Pairwise.nil

theorem sound_step {s t : Run Tok} {a : Ans UInt8} (h : Sound s) (hst : tracing.step s a = some t) : Sound t := by
  refine ⟨?_, conserved_step h.1 h.2 hst⟩
  obtain ⟨c, hc, hok, rfl⟩ := Machine.logged_cases hst
  exact placed_resume h.1 hc hok

theorem inOrder_start (e : Entry) : InOrder (⟨e.start, []⟩ : Run Tok) :=
  ⟨⟨List.Pairwise.nil, nofun⟩, fun _ => Or.inr rfl⟩

/-- **Delivery.** In every run of either overload, `sd` has got the front of what was read from `fd_in`, `fd_out` the
front of what was read from `sd`, and no sink anything else, if and only if every write of the run was in turn. -/
theorem delivers_iff_in_turn (e : Entry) {as : List (Ans UInt8)} {s : Run Tok}
    (h : tracing.exec ⟨e.start, []⟩ as = some s) :
    Delivered s ↔ tracing.Meets InTurn ⟨e.start, []⟩ as := by
  have hsound := System.exec_inv Sound (fun _ _ _ => sound_step) h (sound_start e)
  rw [delivered_iff_inOrder hsound.2, System.meets_iff Sound InOrder InTurn (fun _ _ _ => sound_step)
    (fun _ _ _ hs hst => inOrder_step hs.1 hs.2 hst) h (sound_start e)]
  exact and_iff_right (inOrder_start e)

/-- four calls before the loop, which answer with 0 -/
def begun : List (Ans UInt8) := [⟨0, [], []⟩, ⟨0, [], []⟩, ⟨0, [], []⟩, ⟨0, [], []⟩]

/-- two bytes are read from 3 in one iteration and written to 4 in two -/
def twoWrites : List (Ans UInt8) :=
  begun ++ [⟨0, [], []⟩, ⟨1, [], [3]⟩, ⟨1, [], [4]⟩, ⟨8, [], []⟩, ⟨2, [7, 9], []⟩, ⟨2, [], []⟩, ⟨1, [], []⟩] ++
    [⟨0, [], []⟩, ⟨1, [], [3]⟩, ⟨1, [], [4]⟩, ⟨8, [], []⟩, ⟨0, [], []⟩, ⟨1, [], []⟩, ⟨1, [], []⟩]

theorem delivers_iff_in_turn_two_writes :
    ∃ s, tracing.exec ⟨(Entry.two 3 4 none).start, []⟩ twoWrites = some s ∧ Delivered s ∧
      (writtenTo 4 s.log).map Tok.val = [7, 9] := by
  obtain ⟨s, hs, hw⟩ : ∃ s, tracing.exec ⟨(Entry.two 3 4 none).start, []⟩ twoWrites = some s ∧
      (writtenTo 4 s.log).map Tok.val = [7, 9] := System.exec_of_any (by decide)
  exact ⟨s, hs, (delivers_iff_in_turn (.two 3 4 none) hs).2 (by decide), hw⟩

/-- one iteration reads 7 and 8 from 3 for the first half; in the next one 4 and 5 are ready, and the second half reads
9, from 3, and writes it, to 4 -/
def overtaken : List (Ans UInt8) :=
  begun ++ [⟨0, [], []⟩, ⟨1, [], [3]⟩, ⟨0, [], []⟩, ⟨8, [], []⟩, ⟨2, [7, 8], []⟩] ++
    [⟨0, [], []⟩, ⟨1, [], [4]⟩, ⟨1, [], [5]⟩, ⟨8, [], []⟩, ⟨1, [9], []⟩, ⟨1, [], []⟩, ⟨1, [], []⟩]

/-- **The second half overtakes the first.** The first byte written to `sd` is not the first byte read from `fd_in`. -/
theorem second_half_overtakes :
    ¬ ∀ (e : Entry) (as : List (Ans UInt8)) (s : Run Tok), tracing.exec ⟨e.start, []⟩ as = some s →
      (writtenTo s.st.args.sd s.log).map Tok.val <+: (readFrom s.st.args.fdIn s.log).map Tok.val := by
  intro h
  obtain ⟨s, hs, hin, hout⟩ : ∃ s, tracing.exec ⟨(Entry.three 3 5 4 none).start, []⟩ overtaken = some s ∧
      (readFrom s.st.args.fdIn s.log).map Tok.val = [7, 8, 9] ∧
      (writtenTo s.st.args.sd s.log).map Tok.val = [9] := System.exec_of_any (by decide)
  have hfront := h _ _ s hs
  rw [hin, hout] at hfront
  exact absurd hfront (by decide)

end Worker

end UdtGate
