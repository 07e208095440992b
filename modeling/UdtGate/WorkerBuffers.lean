/-
`utl::worker` with the buffers that it constructs itself.

The worker asks its buffers how much it may read into them and how much it may write out of them. Here `Loopbuffer`
answers, as the constructor leaves it behind: empty, with a chunk size of 0. An empty buffer has no room to its getter,
so each read is for 0 bytes, nothing ever gets into a buffer, and nothing out of it.

- `Dry`: both buffers are as constructed, and what is known at each point of the loop.
- `Ended`: the answers that shut a half. A read of 0 bytes that returns 0 is the end of the stream to the second half.
- `never_copies`: what the worker does in every run, and when it leaves its loop.
-/
import UdtGate.WorkerExits
import UdtGate.Loopbuffer

namespace UdtGate

open UdtGate.Core

namespace Worker

/-! ## Model -/

/-- the worker, the calls it has made, and `fwd_buf` and `rev_buf` -/
structure Buffered where
  run : Run UInt8
  bufs : Side → Loopbuffer

namespace Buffered

/-- what the getters return, and what a caller may rely on of the other calls -/
def answers (s : Buffered) : Call UInt8 → Ans UInt8 → Bool
  | .getWriteSpace d _, a => a.rc = (s.bufs d).getWriteSpace
  | .getReadSpace d _, a => a.rc = (s.bufs d).getReadSpace
  | c, a => permitted c a

/-- `writen` behind a read, `readn` behind a write; `none` when the assertion fails -/
def transfer (bufs : Side → Loopbuffer) : Call UInt8 → Ans UInt8 → Option (Side → Loopbuffer)
  | .read d _ _, a =>
    if a.rc > 0 then ((bufs d).step (.put a.data)).map (Function.update bufs d) else some bufs
  | .write d _ bs, a =>
    if a.rc > 0 then ((bufs d).step (.take (bs.take a.rc.toNat))).map (Function.update bufs d) else some bufs
  | _, _ => some bufs

def step (s : Buffered) (a : Ans UInt8) : Option Buffered :=
  match s.run.st.call with
  | none => none
  | some c =>
    if s.answers c a then
      (transfer s.bufs c a).map fun bufs => ⟨⟨s.run.st.resume a, s.run.log ++ [(c, a)]⟩, bufs⟩
    else none

/-- `Loopbuffer fwd_buf(bfsize,blsize)` and `rev_buf(bfsize,blsize)` -/
def start (e : Entry) (mem : Side → List UInt8) : Buffered :=
  ⟨⟨e.start, []⟩, fun d => .new bfsize blsize (mem d)⟩

def system (mem : Side → List UInt8) : System Buffered (Ans UInt8) := ⟨fun s => ∃ e, s = start e mem, step⟩

end Buffered

/-! ## Buffers that have nothing to offer -/

/-- **No room.** In a buffer as constructed both offsets are 0, and the getter takes it for full. -/
theorem getWriteSpace_new (mem : List UInt8) : (Loopbuffer.new bfsize blsize mem).getWriteSpace = 0 := by
  have hlen : (0 : ℤ) ≠ bfsize := by decide
  simp [Loopbuffer.getWriteSpace, Loopbuffer.new, hlen]

/-! ## The way with empty buffers -/

variable {s : Worker UInt8} {d e : Side} {h : Half UInt8}

/-- the flags of a half, but that the sink is not told yet -/
def Told (h : Half UInt8) : Prop := h.wshut = true → h.rshut = true

/-- both flags are alike -/
def Alike (h : Half UInt8) : Prop := h.wshut = h.rshut

theorem Alike.told (he : Alike h) : Told h := fun hw => he.symm.trans hw

theorem half_guard (s : Worker UInt8) (d : Side) : s.guard.half d = s.half d := by
  unfold guard
  split_ifs
  · exact half_pc s _ d
  · split
    · exact half_pc s _ d
    · exact half_pc s _ d

/-- with nothing held the sink is told as soon as nothing more comes -/
theorem alike_drain (hnil : (s.half d).buf.items = []) (ht : Told (s.half d)) : Alike ((s.drain d).half d) := by
  unfold drain
  split_ifs with hend
  · rw [half_setHalf]
    exact hend.2.symm
  · have hr : (s.half d).rshut = false := by
      by_contra hr
      exact hend ⟨isempty_eq_true.2 hnil, Bool.not_eq_false _ ▸ hr⟩
    have hw : (s.half d).wshut = false := by
      by_contra hw
      exact Bool.false_ne_true (hr.symm.trans (ht (Bool.not_eq_false _ ▸ hw)))
    exact hw.trans hr.symm

/-- the points between the calls of a half that moves no byte -/
def Resting : Pc → Prop
  | .reading _ _ | .held _ | .writing _ _ => False
  | _ => True

/-- what the way to the next call comes to -/
structure Arrives (s t : Worker UInt8) : Prop where
  resting : Resting t.pc
  alike : ∀ d, Alike (t.half d)
  flow : Flow s t

theorem resting_guard (s : Worker UInt8) : Resting s.guard.pc := by
  unfold guard
  split_ifs
  · trivial
  · split
    · trivial
    · trivial

theorem not_mayWrite (hnil : (s.half d).buf.items = []) : ¬ s.mayWrite d = true := by
  simp [mayWrite, isempty, hnil]

/-- the end of the second half -/
theorem arrives_revWrite (hnil : s.rev.buf.items = []) (hf : Alike s.fwd) (hr : Told s.rev) : Arrives s s.revWrite := by
  unfold revWrite
  rw [if_neg (not_mayWrite (d := .rev) hnil)]
  refine ⟨resting_guard _, ?_, (flow_drain s .rev).trans (flow_guard _)⟩
  intro d
  rw [half_guard]
  cases d with
  | fwd =>
    rw [half_drain_ne s (show Side.fwd ≠ .rev by decide)]
    exact hf
  | rev => exact alike_drain hnil hr

theorem arrives_revRead (hnil : s.rev.buf.items = []) (hf : Alike s.fwd) (hr : Alike s.rev) : Arrives s s.revRead := by
  unfold revRead
  split_ifs
  · refine ⟨trivial, ?_, flow_pc s _⟩
    intro d
    rw [half_pc]
    cases d with
    | fwd => exact hf
    | rev => exact hr
  · exact arrives_revWrite hnil hf hr.told

theorem arrives_fwdWrite (hnil : ∀ d, (s.half d).buf.items = []) (hf : Told s.fwd) (hr : Alike s.rev) :
    Arrives s s.fwdWrite := by
  unfold fwdWrite
  rw [if_neg (not_mayWrite (hnil .fwd))]
  have hrev : (s.drain .fwd).rev = s.rev := half_drain_ne s (show Side.rev ≠ .fwd by decide)
  obtain ⟨hrest, halike, hflow⟩ := arrives_revRead (s := s.drain .fwd) (hrev ▸ hnil .rev) (alike_drain (hnil .fwd) hf)
    (hrev ▸ hr)
  exact ⟨hrest, halike, (flow_drain s .fwd).trans hflow⟩

theorem arrives_fwdRead (hnil : ∀ d, (s.half d).buf.items = []) (he : ∀ d, Alike (s.half d)) : Arrives s s.fwdRead := by
  unfold fwdRead
  split_ifs
  · refine ⟨trivial, ?_, flow_pc s _⟩
    intro d
    rw [half_pc]
    exact he d
  · exact arrives_fwdWrite hnil (he .fwd).told (he .rev)

/-! ## The invariant -/

/-- an answer that shuts a half: an error, or in the half that notes the end of its stream any answer -/
def Ended (eof : Bool) (d : Side) (x : Call UInt8 × Ans UInt8) : Prop :=
  ∃ fd n, x.1 = .read d fd n ∧ (x.2.rc < 0 ∨ eof = true)

/-- the loop was left -/
def Left : Pc → Prop
  | .closing _ _ | .returned => True
  | _ => False

/-- nothing is held, and the point is one that a worker gets to that holds nothing -/
structure Dry (mem : Side → List UInt8) (s : Buffered) : Prop where
  bufs : s.bufs = fun d => .new bfsize blsize (mem d)
  items : ∀ d, (s.run.st.half d).buf.items = []
  point : Resting s.run.st.pc ∨ ∃ d, s.run.st.pc = .reading d 0
  alike : ∀ d, Alike (s.run.st.half d)
  shut : ∀ d, (s.run.st.half d).rshut = true ↔ ∃ x ∈ s.run.log, Ended (s.run.st.args.copy d).eof d x
  reads : ∀ x ∈ s.run.log, ∀ d fd n, x.1 = .read d fd n → fd = s.run.st.args.fdIn ∧ n = 0
  writes : ∀ x ∈ s.run.log, ∀ d fd bs, x.1 ≠ .write d fd bs
  left : Left s.run.st.pc → (s.run.st.fwd.wshut = true ∧ s.run.st.rev.wshut = true) ∨
    ∃ tv x, s.run.st.timeout = some tv ∧ x ∈ s.run.log ∧ x.1 = .time ∧ tv ≤ x.2.rc - s.run.st.stamp

variable {mem : Side → List UInt8} {b t : Buffered} {c : Call UInt8} {a : Ans UInt8}

/-- the loop is left at its guard when both halves are shut -/
theorem left_guard (hl : Left s.guard.pc) : s.guard.fwd.wshut = true ∧ s.guard.rev.wshut = true := by
  unfold guard at hl ⊢
  split_ifs at hl ⊢ with hw
  · exact hw
  · split at hl
    · exact hl.elim
    · exact hl.elim

theorem left_ahead {u v : Worker UInt8} (h : Ahead u v) (hl : Left v.pc) : v.fwd.wshut = true ∧ v.rev.wshut = true := by
  obtain ⟨w, -, rfl | ⟨d, rfl | rfl⟩⟩ := h
  · exact left_guard hl
  · exact hl.elim
  · exact hl.elim

/-- the end of a step that is no transfer -/
theorem Dry.aside (hd : Dry mem b) (hc : c.aside = true) {u : Worker UInt8}
    (hflow : ∃ st, Flow { b.run.st with stamp := st } u) (hrest : Resting u.pc ∨ ∃ d, u.pc = .reading d 0)
    (halike : ∀ d, Alike (u.half d)) (hleft : Left u.pc → (u.fwd.wshut = true ∧ u.rev.wshut = true) ∨
      ∃ tv x, u.timeout = some tv ∧ x ∈ b.run.log ++ [(c, a)] ∧ x.1 = .time ∧ tv ≤ x.2.rc - u.stamp) :
    Dry mem ⟨⟨u, b.run.log ++ [(c, a)]⟩, b.bufs⟩ := by
  obtain ⟨st, hflow⟩ := hflow
  have hhalf : ∀ d, half { b.run.st with stamp := st } d = b.run.st.half d := by
    intro d
    cases d with
    | fwd => rfl
    | rev => rfl
  have hdrains : ∀ d, Drains (b.run.st.half d) (u.half d) := fun d => hhalf d ▸ hflow.half d
  have hargs : u.args = b.run.st.args := hflow.args
  have hno : ∀ eof d, ¬ Ended eof d (c, a) := by
    rintro eof d ⟨fd, n, rfl, -⟩
    cases hc
  refine ⟨hd.bufs, ?_, hrest, halike, ?_, ?_, ?_, hleft⟩
  · intro d
    rw [(hdrains d).buf]
    exact hd.items d
  · intro d
    show (u.half d).rshut = true ↔ _
    rw [(hdrains d).rshut, hargs, hd.shut d, Machine.exists_mem_snoc, or_iff_left (hno _ d)]
  · intro x hx d fd n hread
    rw [hargs]
    rcases List.mem_append.1 hx with hx | hx
    · exact hd.reads x hx d fd n hread
    · obtain rfl := List.mem_singleton.1 hx
      obtain rfl : c = .read d fd n := hread
      cases hc
  · intro x hx d fd bs hwrite
    rcases List.mem_append.1 hx with hx | hx
    · exact hd.writes x hx d fd bs hwrite
    · obtain rfl := List.mem_singleton.1 hx
      obtain rfl : c = .write d fd bs := hwrite
      cases hc

/-- the half that has read, before the way to the next call -/
theorem told_hasRead (eof : Bool) (h : Half UInt8) (halike : Alike h) (hrc : a.rc ≤ 0) :
    Told (hasRead eof h a) ∧ (hasRead eof h a).buf = h.buf ∧
      ((hasRead eof h a).rshut = true ↔ h.rshut = true ∨ a.rc < 0 ∨ eof = true) := by
  unfold hasRead
  rw [if_neg (not_lt.2 hrc)]
  split_ifs with hzero
  · refine ⟨?_, rfl, ?_⟩
    · intro hw
      show (h.rshut || eof) = true
      rw [halike.told hw, Bool.true_or]
    · rw [Bool.or_eq_true, hzero]
      simp
  · refine ⟨fun _ => rfl, rfl, ?_⟩
    have hneg : a.rc < 0 := lt_of_le_of_ne hrc hzero
    exact ⟨fun _ => Or.inr (Or.inl hneg), fun _ => rfl⟩

/-- **A read** of 0 bytes -/
theorem Dry.read (hd : Dry mem b) {d : Side} (hpc : b.run.st.pc = .reading d 0) (hrc : a.rc ≤ 0) :
    Dry mem ⟨⟨b.run.st.resume a, b.run.log ++ [(.read d (b.run.st.args.copy d).rfd 0, a)]⟩, b.bufs⟩ := by
  obtain ⟨htold, hbuf, hshut⟩ := told_hasRead (b.run.st.args.copy d).eof (b.run.st.half d) (hd.alike d) hrc
  obtain ⟨h', hh'⟩ : ∃ h', hasRead (b.run.st.args.copy d).eof (b.run.st.half d) a = h' := ⟨_, rfl⟩
  have hresume : b.run.st.resume a = (b.run.st.setHalf d h').afterRead d := by
    simp only [resume, hpc, hh']
  rw [hh'] at htold hbuf hshut
  have hitems : ∀ e, ((b.run.st.setHalf d h').half e).buf.items = [] := by
    intro e
    by_cases he : e = d
    · subst he
      rw [half_setHalf, hbuf]
      exact hd.items e
    · rw [half_setHalf_ne _ _ he]
      exact hd.items e
  have hother : ∀ e, e ≠ d → Alike ((b.run.st.setHalf d h').half e) := by
    intro e he
    rw [half_setHalf_ne _ _ he]
    exact hd.alike e
  have harr : Arrives (b.run.st.setHalf d h') (b.run.st.resume a) := by
    rw [hresume]
    cases d with
    | fwd => exact arrives_fwdWrite hitems htold (hother .rev (by decide))
    | rev => exact arrives_revWrite (hitems .rev) (hother .fwd (by decide)) htold
  have hahead : Ahead (b.run.st.setHalf d h') (b.run.st.resume a) := by
    rw [hresume]
    exact ahead_afterRead _ d
  have hargs : (b.run.st.resume a).args = b.run.st.args := harr.flow.args.trans (setHalf_args ..)
  refine ⟨hd.bufs, ?_, Or.inl harr.resting, harr.alike, ?_, ?_, ?_, fun hl => Or.inl (left_ahead hahead hl)⟩
  · intro e
    rw [(harr.flow.half e).buf]
    exact hitems e
  · intro e
    show ((b.run.st.resume a).half e).rshut = true ↔ _
    rw [(harr.flow.half e).rshut, hargs, Machine.exists_mem_snoc]
    by_cases he : e = d
    · subst he
      rw [half_setHalf, hshut, hd.shut e]
      refine or_congr_right ?_
      constructor
      · intro hend
        exact ⟨_, _, rfl, hend⟩
      · rintro ⟨fd, n, -, hend⟩
        exact hend
    · rw [half_setHalf_ne _ _ he, hd.shut e]
      refine (or_iff_left ?_).symm
      rintro ⟨fd, n, heq, -⟩
      exact he (Call.read.inj heq).1.symm
  · intro x hx e fd n hread
    rw [hargs]
    rcases List.mem_append.1 hx with hx | hx
    · exact hd.reads x hx e fd n hread
    · obtain rfl := List.mem_singleton.1 hx
      obtain ⟨rfl, rfl, rfl⟩ := Call.read.inj hread
      cases d with
      | fwd => exact ⟨rfl, rfl⟩
      | rev => exact ⟨rfl, rfl⟩
  · intro x hx e fd bs hwrite
    rcases List.mem_append.1 hx with hx | hx
    · exact hd.writes x hx e fd bs hwrite
    · obtain rfl := List.mem_singleton.1 hx
      cases hwrite

theorem Buffered.step_cases (h : b.step a = some t) : ∃ c bufs, b.run.st.call = some c ∧ b.answers c a = true ∧
    Buffered.transfer b.bufs c a = some bufs ∧ t = ⟨⟨b.run.st.resume a, b.run.log ++ [(c, a)]⟩, bufs⟩ := by
  unfold Buffered.step at h
  split at h
  · cases h
  · next c hc =>
    split_ifs at h with hok
    obtain ⟨bufs, hbufs, rfl⟩ := Option.map_eq_some_iff.1 h
    exact ⟨c, bufs, hc, hok, hbufs, rfl⟩

/-- the guard, the options and the clock move no byte -/
theorem arrives_aside (hd : Dry mem b) (hc : b.run.st.call = some c) (hok : b.answers c a = true)
    (haside : c.aside = true) :
    (Resting (b.run.st.resume a).pc ∨ ∃ d, (b.run.st.resume a).pc = .reading d 0) ∧
      (∀ d, Alike ((b.run.st.resume a).half d)) ∧
      (Left (b.run.st.resume a).pc →
        ((b.run.st.resume a).fwd.wshut = true ∧ (b.run.st.resume a).rev.wshut = true) ∨
        ∃ tv x, (b.run.st.resume a).timeout = some tv ∧ x ∈ b.run.log ++ [(c, a)] ∧ x.1 = .time ∧
          tv ≤ x.2.rc - (b.run.st.resume a).stamp) := by
  obtain ⟨hbufs, hitems, hpoint, halike, -, -, -, hleft⟩ := hd
  obtain ⟨⟨⟨args, timeout, pc, stamp, ractive, wactive, rset, wset, fwd, rev⟩, log⟩, bufs⟩ := b
  have hself (pc' : Pc) (r w : Bool) (rs ws : List ℤ) (st : ℤ) (d : Side) :
      Alike (half (α := UInt8) ⟨args, timeout, pc', st, r, w, rs, ws, fwd, rev⟩ d) := by
    cases d with
    | fwd => exact halike .fwd
    | rev => exact halike .rev
  cases pc with
  | opt sd rest =>
    simp only [resume]
    split_ifs
    · exact ⟨Or.inl trivial, hself _ _ _ _ _ _, False.elim⟩
    · cases rest with
      | nil => exact ⟨Or.inl trivial, hself _ _ _ _ _ _, False.elim⟩
      | cons sd' rest => exact ⟨Or.inl trivial, hself _ _ _ _ _ _, False.elim⟩
  | stamping =>
    refine ⟨Or.inl (resting_guard _), ?_, fun hl => Or.inl (left_guard hl)⟩
    intro d
    simp only [resume]
    rw [half_guard]
    exact hself _ _ _ _ _ _ d
  | clock =>
    obtain rfl := Option.some.inj hc
    cases timeout with
    | none => exact ⟨hpoint, halike, False.elim⟩
    | some tv =>
      simp only [resume]
      split_ifs with htime
      · exact ⟨Or.inl trivial, hself _ _ _ _ _ _, False.elim⟩
      · refine ⟨Or.inl trivial, hself _ _ _ _ _ _, fun _ => Or.inr ⟨tv, (.time, a), rfl, ?_, rfl, not_lt.1 htime⟩⟩
        exact List.mem_append_right _ List.mem_cons_self
  | sleeping => exact ⟨Or.inl trivial, hself _ _ _ _ _ _, False.elim⟩
  | rselect =>
    simp only [resume]
    split_ifs
    · exact ⟨Or.inl trivial, hself _ _ _ _ _ _, False.elim⟩
    · exact ⟨Or.inl trivial, hself _ _ _ _ _ _, False.elim⟩
  | wselect =>
    have hnil : ∀ d, (half (α := UInt8) ⟨args, timeout, .wselect, stamp, false, false, rset,
        if a.rc > 0 then a.ready else [], fwd, rev⟩ d).buf.items = [] := by
      intro d
      cases d with
      | fwd => exact hitems .fwd
      | rev => exact hitems .rev
    obtain ⟨hrest, halike', -⟩ := arrives_fwdRead hnil (hself _ _ _ _ _ _)
    exact ⟨Or.inl hrest, halike', fun hl => Or.inl (left_ahead (ahead_fwdRead _) hl)⟩
  | space d =>
    obtain rfl := Option.some.inj hc
    -- the buffer is as constructed, so the answer is 0
    have hrc : a.rc = 0 := by
      have hspace : a.rc = (bufs d).getWriteSpace := of_decide_eq_true hok
      rw [hspace, show bufs = _ from hbufs, getWriteSpace_new]
    refine ⟨Or.inr ⟨d, ?_⟩, hself _ _ _ _ _ _, False.elim⟩
    simp only [resume, hrc, Int.toNat_zero]
  | closing sd rest =>
    have hlog : ∀ {u : Worker UInt8}, u.timeout = timeout → u.stamp = stamp → u.fwd = fwd → u.rev = rev →
        (u.fwd.wshut = true ∧ u.rev.wshut = true) ∨
          ∃ tv x, u.timeout = some tv ∧ x ∈ log ++ [(c, a)] ∧ x.1 = .time ∧ tv ≤ x.2.rc - u.stamp := by
      intro u ht hst hf hr
      rw [ht, hst, hf, hr]
      refine (hleft trivial).imp_right ?_
      rintro ⟨tv, x, htv, hx, htime, hle⟩
      exact ⟨tv, x, htv, List.mem_append_left _ hx, htime, hle⟩
    cases rest with
    | nil => exact ⟨Or.inl trivial, hself _ _ _ _ _ _, fun _ => hlog rfl rfl rfl rfl⟩
    | cons sd' rest => exact ⟨Or.inl trivial, hself _ _ _ _ _ _, fun _ => hlog rfl rfl rfl rfl⟩
  | reading d n =>
    obtain rfl := Option.some.inj hc
    cases haside
  | held d =>
    rcases hpoint with hrest | ⟨d', heq⟩
    · exact hrest.elim
    · cases heq
  | writing d n =>
    obtain rfl := Option.some.inj hc
    cases haside
  | returned => cases hc
  | died => cases hc

/-- the buffers are only touched when bytes were moved -/
theorem transfer_aside (bufs : Side → Loopbuffer) (haside : c.aside = true) :
    Buffered.transfer bufs c a = some bufs := by
  cases c with
  | read d fd n => cases haside
  | write d fd bs => cases haside
  | setsockopt _ | time | sleep _ | select _ _ _ _ _ | getWriteSpace _ _ | getReadSpace _ _ | close _ => rfl

theorem transfer_read (bufs : Side → Loopbuffer) {d : Side} {fd : ℤ} {n : ℕ} (hrc : a.rc ≤ 0) :
    Buffered.transfer bufs (.read d fd n) a = some bufs := if_neg (not_lt.2 hrc)

/-- the calls of a worker that holds nothing: a read of 0 bytes, or no transfer -/
theorem Dry.call_cases (hd : Dry mem b) (hc : b.run.st.call = some c) (hok : b.answers c a = true) :
    c.aside = true ∨ ∃ d, b.run.st.pc = .reading d 0 ∧ c = .read d (b.run.st.args.copy d).rfd 0 ∧ a.rc ≤ 0 := by
  rcases hd.point with hrest | ⟨d, hpc⟩
  · rcases resume_cases (a := a) hc with ⟨haside, -⟩ | ⟨d, n, hpc, -⟩ | ⟨d, n, hpc, -⟩
    · exact Or.inl haside
    · rw [hpc] at hrest
      exact hrest.elim
    · rw [hpc] at hrest
      exact hrest.elim
  · simp only [call, hpc, Option.some.injEq] at hc
    subst hc
    simp only [Buffered.answers, permitted, Bool.and_eq_true, decide_eq_true_eq] at hok
    exact Or.inr ⟨d, hpc, rfl, hok.1⟩

/-- **Step lemma.** -/
theorem Dry.step (hd : Dry mem b) (h : b.step a = some t) : Dry mem t := by
  obtain ⟨c, bufs, hc, hok, hbufs, rfl⟩ := Buffered.step_cases h
  rcases hd.call_cases hc hok with haside | ⟨d, hpc, rfl, hrc⟩
  · obtain rfl := Option.some.inj ((transfer_aside b.bufs haside).symm.trans hbufs)
    obtain ⟨hrest, halike, hleft⟩ := arrives_aside hd hc hok haside
    refine hd.aside haside ?_ hrest halike hleft
    rcases resume_cases (a := a) hc with ⟨-, st, -, -, hflow⟩ | ⟨d, n, -, rfl, -⟩ | ⟨d, n, -, rfl, -⟩
    · exact ⟨st, hflow⟩
    · cases haside
    · cases haside
  · obtain rfl := Option.some.inj ((transfer_read b.bufs hrc).symm.trans hbufs)
    exact hd.read hpc hrc

theorem dry_start (e : Entry) (mem : Side → List UInt8) : Dry mem (Buffered.start e mem) := by
  have hhalf (d : Side) : half (α := UInt8) e.start d = ⟨⟨[], Nat.zero_le _⟩, false, false⟩ := by
    cases e with
    | three fdIn fdOut sd timeout => cases d <;> rfl
    | two sd1 sd2 timeout => cases d <;> rfl
  have hpc : Resting (Entry.start (α := UInt8) e).pc ∧ ¬ Left (Entry.start (α := UInt8) e).pc := by
    cases e with
    | three fdIn fdOut sd timeout => exact ⟨trivial, id⟩
    | two sd1 sd2 timeout => exact ⟨trivial, id⟩
  refine ⟨rfl, ?_, Or.inl hpc.1, ?_, ?_, List.forall_mem_nil _, List.forall_mem_nil _, fun hl => absurd hl hpc.2⟩
  · intro d
    show (half e.start d).buf.items = []
    rw [hhalf]
  · intro d
    show Alike (half e.start d)
    rw [hhalf]
    rfl
  · intro d
    show (half e.start d).rshut = true ↔ _
    rw [hhalf]
    simp [Buffered.start]

/-! ## Main result -/

/-- no byte moves, and what is left of the loop -/
structure Idle (s : Buffered) : Prop where
  empty : ∀ d, (s.run.st.half d).buf.items = [] ∧ (s.bufs d).isempty = true
  reads : ∀ x ∈ s.run.log, ∀ d fd n, x.1 = .read d fd n → fd = s.run.st.args.fdIn ∧ n = 0
  writes : ∀ x ∈ s.run.log, ∀ d fd bs, x.1 ≠ .write d fd bs
  /-- no assertion of a buffer fails -/
  goes_on : ∀ c a, s.run.st.call = some c → s.answers c a = true → ∃ t, s.step a = some t
  /-- the first half gives up with a read that fails, the second with any read -/
  fwd_shut : s.run.st.fwd.wshut = true ↔ ∃ x ∈ s.run.log, ∃ fd n, x.1 = .read .fwd fd n ∧ x.2.rc < 0
  rev_shut : s.run.st.rev.wshut = true ↔ ∃ x ∈ s.run.log, ∃ fd n, x.1 = .read .rev fd n
  /-- the loop is left when both have given up, or when the time is over -/
  left : Left s.run.st.pc → (s.run.st.fwd.wshut = true ∧ s.run.st.rev.wshut = true) ∨
    ∃ tv x, s.run.st.timeout = some tv ∧ x ∈ s.run.log ∧ x.1 = .time ∧ tv ≤ x.2.rc - s.run.st.stamp

/-- **The worker never copies a byte.** In every run of either overload over the buffers that it constructs, whatever
its calls return: all reads are of 0 bytes, all from `fd_in`, and there is no write. The loop only ends when a read of
0 bytes has failed in the first half and there was one in the second, or by the timeout. -/
theorem never_copies (e : Entry) (mem : Side → List UInt8) {as : List (Ans UInt8)} {s : Buffered}
    (h : (Buffered.system mem).exec (Buffered.start e mem) as = some s) : Idle s := by
  have hd : Dry mem s := System.exec_inv (Dry mem) (fun _ _ _ hd hs => hd.step hs) h (dry_start e mem)
  refine ⟨?_, hd.reads, hd.writes, ?_, ?_, ?_, hd.left⟩
  · intro d
    refine ⟨hd.items d, ?_⟩
    rw [hd.bufs]
    rfl
  · intro c a hc hok
    have htransfer : Buffered.transfer s.bufs c a = some s.bufs := by
      rcases hd.call_cases hc hok with haside | ⟨d, -, rfl, hrc⟩
      · exact transfer_aside s.bufs haside
      · exact transfer_read s.bufs hrc
    refine ⟨⟨⟨s.run.st.resume a, s.run.log ++ [(c, a)]⟩, s.bufs⟩, ?_⟩
    simp only [Buffered.step, hc, hok, htransfer, if_true, Option.map_some]
  · have hiff := hd.shut .fwd
    rw [← hd.alike .fwd] at hiff
    simpa [Ended, Args.copy, half] using hiff
  · have hiff := hd.shut .rev
    rw [← hd.alike .rev] at hiff
    simpa [Ended, Args.copy, half] using hiff

/-- the sources are ready at once; the first half reads 0 bytes, the second then takes the same for the end -/
def zeroBytes : List (Ans UInt8) :=
  [⟨0, [], []⟩, ⟨0, [], []⟩, ⟨0, [], []⟩, ⟨0, [], []⟩, ⟨1, [], []⟩, ⟨0, [], []⟩, ⟨2, [], [3, 4]⟩, ⟨0, [], []⟩,
    ⟨0, [], []⟩, ⟨0, [], []⟩, ⟨0, [], []⟩, ⟨0, [], []⟩]

theorem never_copies_zeroBytes :
    ∃ s, (Buffered.system fun _ => []).exec (Buffered.start (.three 3 3 4 (some 2)) fun _ => []) zeroBytes = some s ∧
      s.run.st.rev.wshut = true ∧ Idle s := by
  obtain ⟨s, hs, hshut⟩ : ∃ s, (Buffered.system fun _ => []).exec (Buffered.start (.three 3 3 4 (some 2)) fun _ => [])
      zeroBytes = some s ∧ s.run.st.rev.wshut = true := System.exec_of_any (by decide)
  exact ⟨s, hs, hshut, never_copies _ _ hs⟩

end Worker

end UdtGate
