/-
When `utl::worker` shuts the ends of its halves, and when it leaves its loop.

- `Placed`: what is known at each point of the loop. A half that has gone by with nothing held and nothing to come has
  told its sink.
- `Flags`: the two flags of a half, in terms of the answers that half has got.
- `Timely`: the readings of the clock, when there is a timeout.
- `exits`: for both overloads. An error of either call shuts both ends of a half, whatever the buffer holds.
- `write_shut_with_data`: a half that gives up with a byte in its buffer although no write failed.
-/
import UdtGate.Worker
import UdtGate.Core.System

namespace UdtGate

open UdtGate.Core

namespace Worker

variable {α : Type*}

/-- a worker with the calls it has made -/
abbrev Run (α : Type*) := Machine.Logged (Worker α) (Call α) (Ans α)

/-- the overloads -/
inductive Entry where
  | three (fdIn fdOut sd : ℤ) (timeout : Option ℤ)
  | two (sd1 sd2 : ℤ) (timeout : Option ℤ)

def Entry.start : Entry → Worker α
  | .three fdIn fdOut sd timeout => worker fdIn fdOut sd timeout
  | .two sd1 sd2 timeout => worker2 sd1 sd2 timeout

def system (α : Type*) : System (Run α) (Ans α) :=
  (machine α).logged.system (fun t => ∃ e : Entry, t = ⟨e.start, []⟩) permitted

/-! ## Where the loop is -/

/-- nothing held and nothing to come: the sink has been told -/
def Shed (h : Half α) : Prop := h.buf.items = [] → h.rshut = true → h.wshut = true

def Placed (s : Worker α) : Prop :=
  match s.pc with
  | .opt _ _ | .stamping => ∀ d, Shed (s.half d)
  | .clock | .sleeping | .rselect | .wselect => (∀ d, Shed (s.half d)) ∧ ¬ (s.fwd.wshut = true ∧ s.rev.wshut = true)
  | .space d => (s.half d).rshut = false ∧ (d = .rev → Shed s.fwd)
  | .reading d n =>
    (s.half d).rshut = false ∧ (d = .rev → Shed s.fwd) ∧ 0 < n ∧ n ≤ bfsize - (s.half d).buf.items.length
  | .held d => (s.half d).wshut = false ∧ (d = .rev → Shed s.fwd) ∧ (s.half d).buf.items ≠ []
  | .writing d n =>
    (s.half d).wshut = false ∧ (d = .rev → Shed s.fwd) ∧ (s.half d).buf.items ≠ [] ∧
      n ≤ (s.half d).buf.items.length
  | .closing _ _ | .returned | .died => True

/-- from the guard of an iteration to its end -/
def Looping (s : Worker α) : Prop :=
  match s.pc with
  | .opt _ _ | .stamping | .closing _ _ | .returned | .died => False
  | _ => True

theorem isempty_eq_true {h : Half α} : isempty h = true ↔ h.buf.items = [] := List.isEmpty_iff

theorem items_ne_nil {h : Half α} (he : isempty h = false) : h.buf.items ≠ [] := fun hnil =>
  Bool.false_ne_true (he.symm.trans (isempty_eq_true.2 hnil))

theorem shed_drain (s : Worker α) (d : Side) : Shed ((s.drain d).half d) := by
  unfold drain
  split_ifs with h
  · intro _ _
    rw [half_setHalf]
  · intro he hr
    exact absurd ⟨isempty_eq_true.2 he, hr⟩ h

theorem half_drain_ne (s : Worker α) {d e : Side} (h : e ≠ d) : (s.drain d).half e = s.half e := by
  unfold drain
  split_ifs
  · exact half_setHalf_ne s _ h
  · rfl

theorem placed_guard {s : Worker α} (h : ∀ d, Shed (s.half d)) : Placed s.guard := by
  unfold guard
  split_ifs with hw
  · exact trivial
  · split
    · exact ⟨fun d => by rw [half_pc]; exact h d, hw⟩
    · exact ⟨fun d => by rw [half_pc]; exact h d, hw⟩

/-- the end of the second half -/
theorem placed_end {s : Worker α} (h : Shed s.fwd) : Placed (s.drain .rev).guard := by
  apply placed_guard
  intro d
  cases d with
  | fwd =>
    rw [half_drain_ne s (show Side.fwd ≠ .rev by decide)]
    exact h
  | rev => exact shed_drain s .rev

theorem placed_revWrite {s : Worker α} (h : Shed s.fwd) : Placed s.revWrite := by
  unfold revWrite
  split_ifs with hw
  · simp only [mayWrite, Bool.and_eq_true, Bool.not_eq_true'] at hw
    exact ⟨hw.2, fun _ => h, items_ne_nil hw.1.2⟩
  · exact placed_end h

theorem placed_revRead {s : Worker α} (h : Shed s.fwd) : Placed s.revRead := by
  unfold revRead
  split_ifs with hr
  · simp only [mayRead, Bool.and_eq_true, Bool.not_eq_true'] at hr
    exact ⟨hr.2, fun _ => h⟩
  · exact placed_revWrite h

theorem placed_fwdWrite (s : Worker α) : Placed s.fwdWrite := by
  unfold fwdWrite
  split_ifs with hw
  · simp only [mayWrite, Bool.and_eq_true, Bool.not_eq_true'] at hw
    exact ⟨hw.2, nofun, items_ne_nil hw.1.2⟩
  · exact placed_revRead (shed_drain s .fwd)

theorem placed_fwdRead (s : Worker α) : Placed s.fwdRead := by
  unfold fwdRead
  split_ifs with hr
  · simp only [mayRead, Bool.and_eq_true, Bool.not_eq_true'] at hr
    exact ⟨hr.2, nofun⟩
  · exact placed_fwdWrite s

theorem placed_resume {s : Worker α} {c : Call α} {a : Ans α} (h : Placed s) (hc : s.call = some c)
    (hok : permitted c a = true) : Placed (s.resume a) := by
  obtain ⟨args, timeout, pc, stamp, ractive, wactive, rset, wset, fwd, rev⟩ := s
  cases pc with
  | opt sd rest =>
    simp only [resume]
    split_ifs
    · exact trivial
    · cases rest with
      | nil => exact h
      | cons sd rest => exact h
  | stamping => exact placed_guard h
  | clock =>
    cases timeout with
    | none => exact h
    | some tv =>
      simp only [resume]
      split_ifs
      · exact h
      · exact trivial
  | sleeping => exact h
  | rselect =>
    simp only [resume]
    split_ifs
    · exact h
    · exact h
  | wselect => exact placed_fwdRead _
  | space d =>
    obtain rfl := Option.some.inj hc
    simp only [permitted, Bool.and_eq_true, decide_eq_true_eq] at hok
    refine ⟨?_, h.2, ?_, ?_⟩
    · cases d with
      | fwd => exact h.1
      | rev => exact h.1
    · show 0 < a.rc.toNat
      omega
    · have hle : a.rc.toNat ≤ bfsize - (half ⟨args, timeout, Pc.space d, stamp, ractive, wactive, rset, wset, fwd,
          rev⟩ d).buf.items.length := by omega
      cases d with
      | fwd => exact hle
      | rev => exact hle
  | reading d n =>
    cases d with
    | fwd => exact placed_fwdWrite _
    | rev => exact placed_revWrite (h.2.1 rfl)
  | held d =>
    obtain rfl := Option.some.inj hc
    simp only [permitted, Bool.and_eq_true, decide_eq_true_eq] at hok
    have hle := Int.toNat_le.2 hok.2
    cases d with
    | fwd => exact ⟨h.1, (fun h => by cases h), h.2.2, hle⟩
    | rev => exact ⟨h.1, h.2.1, h.2.2, hle⟩
  | writing d n =>
    cases d with
    | fwd => exact placed_revRead (shed_drain _ .fwd)
    | rev => exact placed_end (h.2.1 rfl)
  | closing sd rest =>
    cases rest with
    | nil => exact trivial
    | cons sd rest => exact trivial
  | returned => cases hc
  | died => cases hc

/-- **The loop is over** at the latest when both sources have ended and nothing is held. -/
theorem not_looping {s : Worker α} (h : Placed s) (hend : ∀ d, (s.half d).rshut = true ∧ (s.half d).buf.items = []) :
    ¬ Looping s := by
  have hguard (hs : ∀ d, Shed (s.half d)) : s.fwd.wshut = true ∧ s.rev.wshut = true :=
    ⟨hs .fwd (hend .fwd).2 (hend .fwd).1, hs .rev (hend .rev).2 (hend .rev).1⟩
  intro hl
  unfold Placed at h
  unfold Looping at hl
  cases hpc : s.pc with
  | opt sd rest => rw [hpc] at hl; exact hl
  | stamping => rw [hpc] at hl; exact hl
  | clock => rw [hpc] at h; exact h.2 (hguard h.1)
  | sleeping => rw [hpc] at h; exact h.2 (hguard h.1)
  | rselect => rw [hpc] at h; exact h.2 (hguard h.1)
  | wselect => rw [hpc] at h; exact h.2 (hguard h.1)
  | space d => rw [hpc] at h; exact absurd (hend d).1 (by rw [h.1]; exact Bool.false_ne_true)
  | reading d n => rw [hpc] at h; exact absurd (hend d).1 (by rw [h.1]; exact Bool.false_ne_true)
  | held d => rw [hpc] at h; exact h.2.2 (hend d).2
  | writing d n => rw [hpc] at h; exact h.2.2.1 (hend d).2
  | closing sd rest => rw [hpc] at hl; exact hl
  | returned => rw [hpc] at hl; exact hl
  | died => rw [hpc] at hl; exact hl

/-! ## The flags of a half -/

/-- a read of a positive number of bytes returned 0 or an error -/
def ReadEnded (d : Side) (e : Call α × Ans α) : Prop := ∃ fd n, e.1 = .read d fd n ∧ 0 < n ∧ e.2.rc ≤ 0

/-- a read of a positive number of bytes returned an error -/
def ReadFailed (d : Side) (e : Call α × Ans α) : Prop := ∃ fd n, e.1 = .read d fd n ∧ 0 < n ∧ e.2.rc < 0

def WriteFailed (d : Side) (e : Call α × Ans α) : Prop := ∃ fd bs, e.1 = .write d fd bs ∧ e.2.rc ≤ 0

def Fails (d : Side) (e : Call α × Ans α) : Prop := ReadFailed d e ∨ WriteFailed d e

/-- what sets the read-shut flag of a half that notes the end of its stream, or does not -/
def Stops (eof : Bool) (d : Side) (e : Call α × Ans α) : Prop := Fails d e ∨ (eof = true ∧ ReadEnded d e)

/-- the flags of the half `h`, after the calls in `log` -/
structure Flags (eof : Bool) (d : Side) (h : Half α) (log : List (Call α × Ans α)) : Prop where
  rshut : h.rshut = true ↔ ∃ e ∈ log, Stops eof d e
  wshut : h.wshut = true → h.rshut = true ∧ (h.buf.items = [] ∨ ∃ e ∈ log, Fails d e)

theorem Flags.drains {eof : Bool} {d : Side} {h h' : Half α} {log : List (Call α × Ans α)} (hf : Flags eof d h log)
    (hd : Drains h h') : Flags eof d h' log := by
  rcases hd with rfl | ⟨he, hr, rfl⟩
  · exact hf
  · exact ⟨hf.rshut, fun _ => ⟨hr, Or.inl (isempty_eq_true.1 he)⟩⟩

/-- a call that says nothing about the half -/
theorem Flags.quiet {eof : Bool} {d : Side} {h : Half α} {log : List (Call α × Ans α)} {e : Call α × Ans α}
    (hf : Flags eof d h log) (he : ¬ Stops eof d e) : Flags eof d h (log ++ [e]) where
  rshut := by rw [hf.rshut, Machine.exists_mem_snoc, or_iff_left he]
  wshut hw := by
    obtain ⟨hr, hb⟩ := hf.wshut hw
    refine ⟨hr, hb.imp_right ?_⟩
    rintro ⟨x, hx, hp⟩
    exact ⟨x, List.mem_append_left _ hx, hp⟩

/-- a call after which the half gives up -/
theorem Flags.fail {eof : Bool} {d : Side} (h : Half α) {log : List (Call α × Ans α)} {e : Call α × Ans α}
    (he : Fails d e) : Flags eof d h.fail (log ++ [e]) where
  rshut := ⟨fun _ => Machine.exists_mem_snoc.2 (Or.inr (Or.inl he)), fun _ => rfl⟩
  wshut _ := ⟨rfl, Or.inr (Machine.exists_mem_snoc.2 (Or.inr he))⟩

theorem not_stops_aside {eof : Bool} {d : Side} {c : Call α} {a : Ans α} (hc : c.aside = true) :
    ¬ Stops eof d (c, a) := by
  rintro ((⟨fd, n, rfl, -⟩ | ⟨fd, bs, rfl, -⟩) | ⟨-, fd, n, rfl, -⟩)
  · cases hc
  · cases hc
  · cases hc

theorem Flags.read {eof : Bool} {d : Side} {h : Half α} {log : List (Call α × Ans α)} {fd : ℤ} {n : ℕ} {a : Ans α}
    (hf : Flags eof d h log) (hr : h.rshut = false) (hn : 0 < n) :
    Flags eof d (hasRead eof h a) (log ++ [(.read d fd n, a)]) := by
  have hw : h.wshut = false := by
    by_contra hw
    exact Bool.false_ne_true (hr.symm.trans (hf.wshut (Bool.not_eq_false _ ▸ hw)).1)
  unfold hasRead
  split_ifs with hpos hzero
  · have hq : ¬ Stops eof d (Call.read d fd n, a) := by
      rintro ((⟨_, _, heq, -, hneg⟩ | ⟨_, _, heq, -⟩) | ⟨-, _, _, heq, -, hle⟩)
      · exact absurd hpos (by simp only at hneg; omega)
      · cases heq
      · exact absurd hpos (by simp only at hle; omega)
    exact ⟨(hf.quiet hq).rshut, fun h => absurd h (by rw [hw]; exact Bool.false_ne_true)⟩
  · cases eof with
    | true =>
      refine ⟨⟨fun _ => Machine.exists_mem_snoc.2 (Or.inr (Or.inr ⟨rfl, fd, n, rfl, hn, le_of_eq hzero⟩)), fun _ => ?_⟩, ?_⟩
      · exact Bool.or_true _
      · exact fun h => absurd h (by rw [hw]; exact Bool.false_ne_true)
    | false =>
      have hq : ¬ Stops false d (Call.read d fd n, a) := by
        rintro ((⟨_, _, heq, -, hneg⟩ | ⟨_, _, heq, -⟩) | ⟨he, -⟩)
        · exact absurd hzero (ne_of_lt hneg)
        · cases heq
        · cases he
      simp only [Bool.or_false]
      exact hf.quiet hq
  · exact Flags.fail h (Or.inl ⟨fd, n, rfl, hn, by simp only; omega⟩)

theorem Flags.write {eof : Bool} {d : Side} {h : Half α} {log : List (Call α × Ans α)} {fd : ℤ} {bs : List α}
    {a : Ans α} (hf : Flags eof d h log) (hw : h.wshut = false) :
    Flags eof d (hasWritten h a) (log ++ [(.write d fd bs, a)]) := by
  unfold hasWritten
  split_ifs with hpos
  · have hq : ¬ Stops eof d (Call.write d fd bs, a) := by
      rintro ((⟨_, _, heq, -⟩ | ⟨_, _, heq, hle⟩) | ⟨-, _, _, heq, -⟩)
      · cases heq
      · exact absurd hpos (not_lt.2 hle)
      · cases heq
    exact ⟨(hf.quiet hq).rshut, fun h => absurd h (by rw [hw]; exact Bool.false_ne_true)⟩
  · exact Flags.fail h (Or.inr ⟨fd, bs, rfl, not_lt.1 hpos⟩)

/-- the calls of the other half -/
theorem not_stops_other {eof : Bool} {d e : Side} (hne : e ≠ d) {c : Call α} {a : Ans α}
    (hc : (∃ fd n, c = .read d fd n) ∨ ∃ fd bs, c = .write d fd bs) : ¬ Stops eof e (c, a) := by
  rintro ((⟨_, _, heq, -⟩ | ⟨_, _, heq, -⟩) | ⟨-, _, _, heq, -⟩)
  · rcases hc with ⟨fd, n, rfl⟩ | ⟨fd, bs, rfl⟩
    · exact hne (Call.read.inj heq).1.symm
    · cases heq
  · rcases hc with ⟨fd, n, rfl⟩ | ⟨fd, bs, rfl⟩
    · cases heq
    · exact hne (Call.write.inj heq).1.symm
  · rcases hc with ⟨fd, n, rfl⟩ | ⟨fd, bs, rfl⟩
    · exact hne (Call.read.inj heq).1.symm
    · cases heq

/-- the flags of both halves -/
def AllFlags (s : Worker α) (log : List (Call α × Ans α)) : Prop :=
  ∀ d, Flags (s.args.copy d).eof d (s.half d) log

theorem flags_resume {s : Worker α} {log : List (Call α × Ans α)} {c : Call α} {a : Ans α} (hp : Placed s)
    (hf : AllFlags s log) (hc : s.call = some c) : AllFlags (s.resume a) (log ++ [(c, a)]) := by
  intro e
  rcases resume_cases (a := a) hc with ⟨haside, st, -, -, hflow⟩ | ⟨d, n, hpc, rfl, hway⟩ | ⟨d, n, hpc, rfl, hway⟩
  · rw [hflow.args]
    have hd := hflow.half e
    rw [show half { s with stamp := st } e = s.half e by cases e <;> rfl] at hd
    exact ((hf e).quiet (not_stops_aside haside)).drains hd
  · rw [hway.flow.args, setHalf_args]
    refine Flags.drains ?_ (hway.flow.half e)
    by_cases hne : e = d
    · subst hne
      simp only [Placed, hpc] at hp
      rw [half_setHalf]
      exact (hf e).read hp.1 hp.2.2.1
    · rw [half_setHalf_ne s _ hne]
      exact (hf e).quiet (not_stops_other hne (Or.inl ⟨_, _, rfl⟩))
  · rw [hway.flow.args, setHalf_args]
    refine Flags.drains ?_ (hway.flow.half e)
    by_cases hne : e = d
    · subst hne
      simp only [Placed, hpc] at hp
      rw [half_setHalf]
      exact (hf e).write hp.1
    · rw [half_setHalf_ne s _ hne]
      exact (hf e).quiet (not_stops_other hne (Or.inr ⟨_, _, rfl⟩))

/-! ## The clock -/

/-- what the clock has shown -/
def readings (log : List (Call α × Ans α)) : List ℤ :=
  log.filterMap fun e =>
    match e.1 with
    | .time => some e.2.rc
    | _ => none

/-- the first reading is kept, and with a timeout an iteration starts after a reading that is near enough to it -/
def Timely (s : Worker α) (log : List (Call α × Ans α)) : Prop :=
  match s.pc with
  | .opt _ _ | .stamping => readings log = []
  | .died => True
  | .sleeping =>
    (readings log).head? = some s.stamp ∧
      ∀ tv, s.timeout = some tv → ∃ pre b, log = pre ++ [(.time, b)] ∧ b.rc - s.stamp < tv
  | _ => (readings log).head? = some s.stamp

theorem readings_snoc (log : List (Call α × Ans α)) (c : Call α) (a : Ans α) :
    readings (log ++ [(c, a)]) = readings log ++ readings [(c, a)] := List.filterMap_append

theorem head_snoc {log : List (Call α × Ans α)} {st : ℤ} (h : (readings log).head? = some st) (e : Call α × Ans α) :
    (readings (log ++ [e])).head? = some st := by
  rw [readings_snoc, List.head?_append, h]
  rfl

theorem timely_ahead {s t : Worker α} {log : List (Call α × Ans α)} (h : Ahead s t)
    (hr : (readings log).head? = some s.stamp) : Timely t log := by
  obtain ⟨u, hu, rfl | ⟨d, rfl | rfl⟩⟩ := h
  · rw [← hu.stamp] at hr
    unfold guard
    split_ifs
    · exact hr
    · split
      · next hn => exact ⟨hr, fun tv htv => by cases hn.symm.trans htv⟩
      · exact hr
  · rw [← hu.stamp] at hr
    exact hr
  · rw [← hu.stamp] at hr
    exact hr

theorem timely_resume {s : Worker α} {log : List (Call α × Ans α)} {c : Call α} {a : Ans α} (h : Timely s log)
    (hc : s.call = some c) : Timely (s.resume a) (log ++ [(c, a)]) := by
  obtain ⟨args, timeout, pc, stamp, ractive, wactive, rset, wset, fwd, rev⟩ := s
  cases pc with
  | opt sd rest =>
    obtain rfl := Option.some.inj hc
    have hnil : readings (log ++ [(Call.setsockopt sd, a)]) = [] := by
      rw [readings_snoc, show readings log = [] from h]
      rfl
    simp only [resume]
    split_ifs
    · exact trivial
    · cases rest with
      | nil => exact hnil
      | cons sd rest => exact hnil
  | stamping =>
    obtain rfl := Option.some.inj hc
    refine timely_ahead (ahead_guard _) ?_
    rw [readings_snoc, show readings log = [] from h]
    rfl
  | clock =>
    obtain rfl := Option.some.inj hc
    have hhead : (readings (log ++ [(Call.time, a)])).head? = some stamp := head_snoc h _
    cases timeout with
    | none => exact hhead
    | some tv =>
      simp only [resume]
      split_ifs with hlt
      · refine ⟨hhead, ?_⟩
        intro tv' htv
        obtain rfl := Option.some.inj htv
        exact ⟨log, a, rfl, hlt⟩
      · exact hhead
  | sleeping => exact head_snoc h.1 _
  | rselect =>
    simp only [resume]
    split_ifs
    · exact head_snoc h _
    · exact head_snoc h _
  | wselect => exact timely_ahead (ahead_fwdRead _) (head_snoc h _)
  | space d => exact head_snoc h _
  | held d => exact head_snoc h _
  | reading d n =>
    refine timely_ahead (ahead_afterRead _ d) (head_snoc ?_ _)
    rw [setHalf_stamp]
    exact h
  | writing d n =>
    refine timely_ahead (ahead_afterWrite _ d) (head_snoc ?_ _)
    rw [setHalf_stamp]
    exact h
  | closing sd rest =>
    cases rest with
    | nil => exact head_snoc h _
    | cons sd rest => exact head_snoc h _
  | returned => cases hc
  | died => cases hc

/-! ## Whole runs -/

/-- the flags of one half, with what the loop does by design -/
structure Exits (s : Run α) (d : Side) : Prop where
  /-- the read-shut flag is set only after the source has ended, or a call of the half has failed -/
  read_shut : (s.st.half d).rshut = true → ∃ e ∈ s.log, ReadEnded d e ∨ WriteFailed d e
  /-- a failed call of the half sets it -/
  failed : (∃ e ∈ s.log, Fails d e) → (s.st.half d).rshut = true
  /-- the write-shut flag is set only with the read-shut flag, when the buffer is empty or a call has failed -/
  write_shut : (s.st.half d).wshut = true →
    (s.st.half d).rshut = true ∧ ((s.st.half d).buf.items = [] ∨ ∃ e ∈ s.log, Fails d e)

/-- an iteration that starts, starts less than `tv` seconds after the first reading of the clock -/
def InTime (tv : ℤ) (s : Run α) : Prop :=
  s.st.pc = .sleeping → ∃ pre b t0, s.log = pre ++ [(.time, b)] ∧ (readings s.log).head? = some t0 ∧ b.rc - t0 < tv

def Inv (s : Run α) : Prop := Placed s.st ∧ AllFlags s.st s.log ∧ Timely s.st s.log

theorem inv_start (e : Entry) : Inv (⟨e.start, []⟩ : Run α) := by
  have hnil (d : Side) : half (α := α) e.start d = ⟨⟨[], Nat.zero_le _⟩, false, false⟩ := by
    cases e with
    | three fdIn fdOut sd timeout => cases d <;> rfl
    | two sd1 sd2 timeout => cases d <;> rfl
  refine ⟨?_, ?_, ?_⟩
  · have hshed : ∀ d, Shed (half (α := α) e.start d) := by
      intro d
      rw [hnil]
      exact fun _ h => h
    cases e with
    | three fdIn fdOut sd timeout => exact hshed
    | two sd1 sd2 timeout => exact hshed
  · intro d
    rw [hnil]
    exact ⟨⟨nofun, by simp⟩, nofun⟩
  · cases e with
    | three fdIn fdOut sd timeout => rfl
    | two sd1 sd2 timeout => rfl

theorem inv_step {s t : Run α} {a : Ans α} (h : Inv s) (hst : (system α).step s a = some t) : Inv t := by
  obtain ⟨c, hc, hok, rfl⟩ := Machine.logged_cases hst
  exact ⟨placed_resume h.1 hc hok, flags_resume h.1 h.2.1 hc, timely_resume h.2.2 hc⟩

theorem timeout_step {tv : Option ℤ} {s t : Run α} {a : Ans α} (h : s.st.timeout = tv)
    (hst : (system α).step s a = some t) : t.st.timeout = tv := by
  obtain ⟨c, hc, -, rfl⟩ := Machine.logged_cases hst
  exact (resume_kept hc).2.trans h

theorem exits_of_flags {s : Run α} {eof : Bool} {d : Side} (h : Flags eof d (s.st.half d) s.log) : Exits s d where
  read_shut hr := by
    obtain ⟨e, he, (⟨fd, n, hc, hn, hneg⟩ | hw) | ⟨-, hend⟩⟩ := h.rshut.1 hr
    · exact ⟨e, he, Or.inl ⟨fd, n, hc, hn, le_of_lt hneg⟩⟩
    · exact ⟨e, he, Or.inr hw⟩
    · exact ⟨e, he, Or.inl hend⟩
  failed := by
    rintro ⟨e, he, hf⟩
    exact h.rshut.2 ⟨e, he, Or.inl hf⟩
  write_shut := h.wshut

/-- **When the ends are shut and the loop is left.** In every run of either overload, for both halves: the read-shut
flag is set only after the source has ended or a call of the half has failed, and after a failed call it is; the
write-shut flag is set only with it, when the buffer is empty or a call has failed. In the second half the end of the
source sets the flag. The loop is over once both read-shut flags are set and both buffers are empty, and with a timeout
for the three descriptors no iteration starts when that time has passed. -/
theorem exits (e : Entry) {as : List (Ans α)} {s : Run α} (h : (system α).exec ⟨e.start, []⟩ as = some s) :
    (∀ d, Exits s d) ∧ ((∃ x ∈ s.log, ReadEnded .rev x) → s.st.rev.rshut = true) ∧
      ((∀ d, (s.st.half d).rshut = true ∧ (s.st.half d).buf.items = []) → ¬ Looping s.st) ∧
      ∀ fdIn fdOut sd tv, e = .three fdIn fdOut sd (some tv) → InTime tv s := by
  obtain ⟨hplaced, hflags, htimely⟩ := System.exec_inv Inv (fun _ _ _ => inv_step) h (inv_start e)
  refine ⟨fun d => exits_of_flags (hflags d), ?_, not_looping hplaced, ?_⟩
  · rintro ⟨x, hx, hend⟩
    exact (hflags .rev).rshut.2 ⟨x, hx, Or.inr ⟨rfl, hend⟩⟩
  · rintro fdIn fdOut sd tv rfl hpc
    have htv := System.exec_inv (fun t : Run α => t.st.timeout = some tv) (fun _ _ _ => timeout_step) h rfl
    rw [Timely, hpc] at htimely
    obtain ⟨hhead, hlast⟩ := htimely
    obtain ⟨pre, b, hlog, hlt⟩ := hlast tv htv
    exact ⟨pre, b, s.st.stamp, hlog, hhead, hlt⟩

/-- three options set, the clock at 0, and one iteration in which a byte was read from 3 -/
def oneRead : List (Ans UInt8) :=
  [⟨0, [], []⟩, ⟨0, [], []⟩, ⟨0, [], []⟩, ⟨0, [], []⟩, ⟨1, [], []⟩, ⟨0, [], []⟩, ⟨1, [], [3]⟩, ⟨0, [], []⟩,
    ⟨8, [], []⟩, ⟨1, [7], []⟩]

/-- the byte is not written, and in the second iteration the next read from 3 is an error -/
def readError : List (Ans UInt8) :=
  oneRead ++ [⟨1, [], []⟩, ⟨0, [], []⟩, ⟨1, [], [3]⟩, ⟨0, [], []⟩, ⟨8, [], []⟩, ⟨-1, [], []⟩]

/-- the error shuts the forward half, and a third iteration starts within the two seconds of the timeout -/
theorem exits_two_seconds :
    ∃ s, (system UInt8).exec ⟨(Entry.three 3 3 4 (some 2)).start, []⟩ (readError ++ [⟨1, [], []⟩]) = some s ∧
      s.st.fwd.rshut = true ∧ s.st.fwd.wshut = true ∧ (∃ x ∈ s.log, ReadEnded .fwd x ∨ WriteFailed .fwd x) ∧
      (∀ d, Exits s d) ∧ InTime 2 s ∧ s.st.pc = .sleeping := by
  obtain ⟨s, hs, hr, hw, hpc⟩ : ∃ s, (system UInt8).exec ⟨(Entry.three 3 3 4 (some 2)).start, []⟩
      (readError ++ [⟨1, [], []⟩]) = some s ∧ s.st.fwd.rshut = true ∧ s.st.fwd.wshut = true ∧ s.st.pc = .sleeping :=
    System.exec_of_any (by decide)
  obtain ⟨hexits, -, -, htime⟩ := exits (.three 3 3 4 (some 2)) hs
  exact ⟨s, hs, hr, hw, (hexits .fwd).read_shut hr, hexits, htime 3 3 4 2 rfl, hpc⟩

/-- **A half that gives up with data.** A byte was read and not written, and the next read is an error: the write-shut
flag is set although the buffer is not empty and no write has failed. -/
theorem write_shut_with_data :
    ¬ ∀ (e : Entry) (as : List (Ans UInt8)) (s : Run UInt8), (system UInt8).exec ⟨e.start, []⟩ as = some s →
      ∀ d, (s.st.half d).wshut = true →
        ((s.st.half d).rshut = true ∧ (s.st.half d).buf.items = []) ∨ ∃ x ∈ s.log, WriteFailed d x := by
  intro h
  obtain ⟨s, hs, hw, hheld, hlog⟩ : ∃ s, (system UInt8).exec ⟨(Entry.three 3 3 4 (some 2)).start, []⟩
      readError = some s ∧ s.st.fwd.wshut = true ∧ s.st.fwd.buf.items = [7] ∧
        (s.log.all fun x => match x.1 with | .write _ _ _ => false | _ => true) = true :=
    System.exec_of_any (by decide)
  rcases h _ _ s hs .fwd hw with ⟨-, hnil⟩ | ⟨x, hx, fd, bs, hc, -⟩
  · cases hheld.symm.trans hnil
  · have hall := List.all_eq_true.1 hlog x hx
    rw [hc] at hall
    cases hall

end Worker

end UdtGate
