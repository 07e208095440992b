/-
`utl::worker`, the loop over three descriptors that was replaced by the two data threads of a connection.

One iteration looks at the guard, sleeps, asks which descriptors can be read and then which of the sinks can be written,
and goes through two halves: `fd_in` to `sd` and `sd` to `fd_out`. Each half has a buffer and two flags, one for each
end; it reads when its source is ready, writes when its sink is, and passes the end of its source on when it has nothing
left to write.

- The buffers are bounded queues. How much of a buffer is contiguous is not known to the queue, so `getWriteSpace` and
  `getReadSpace` are calls that answer any positive number up to the free (used) part.
- `Args.copy` is what a half passes to its calls. The two halves are one text with the names changed, and `Args.copy`
  shows the names that were not, and the end of the stream that only one of them notes.
- `worker` and `worker2` are the two overloads.
- `resume_cases`: what one step does to the halves; the rest of the loop only moves the point and drains (`Flow`).

The bytes are of any type, so that a run can also be made over bytes that know where they come from.
-/
import UdtGate.SockApi
import UdtGate.Core.Ring

namespace UdtGate

open UdtGate.Core

namespace Worker

/-! ## Model -/

/-- the descriptors of a call of `utl::worker` -/
structure Args where
  fdIn : ℤ
  fdOut : ℤ
  sd : ℤ
deriving DecidableEq

/-- the halves of an iteration -/
inductive Side where
  | fwd
  | rev
deriving DecidableEq

/-- the descriptors a half uses -/
structure Copy where
  /-- tested in `rset` before the read -/
  rready : ℤ
  /-- tested in `wset` before the write -/
  wready : ℤ
  /-- passed to `read` -/
  rfd : ℤ
  /-- passed to `write` -/
  wfd : ℤ
  /-- the read-shut flag is set at the end of the stream -/
  eof : Bool
deriving DecidableEq

def Args.copy (a : Args) : Side → Copy
  -- `status |= R_FWD_SHUT` is commented out
  | .fwd => ⟨a.fdIn, a.sd, a.fdIn, a.sd, false⟩
  -- the tests have the names of this half, the calls still those of the other
  | .rev => ⟨a.sd, a.fdOut, a.fdIn, a.sd, true⟩

def blsize : ℕ := 32 * 1024

def bfsize : ℕ := 32 * blsize

variable {α : Type*}

/-- a buffer and the flags `R_..._SHUT` and `W_..._SHUT` -/
structure Half (α : Type*) where
  buf : Fifo α bfsize
  rshut : Bool
  wshut : Bool

/-- both flags, as an error sets them -/
def Half.fail (h : Half α) : Half α := { h with rshut := true, wshut := true }

inductive Call (α : Type*) where
  /-- UDT_SNDSYN to false -/
  | setsockopt (sd : ℤ)
  | time
  /-- `::select` with no sets -/
  | sleep (usec : ℕ)
  | select (nfds : ℤ) (rset wset eset : List ℤ) (usec : ℕ)
  | getWriteSpace (d : Side) (room : ℕ)
  | read (d : Side) (fd : ℤ) (n : ℕ)
  | getReadSpace (d : Side) (held : ℕ)
  | write (d : Side) (fd : ℤ) (bs : List α)
  | close (sd : ℤ)
deriving DecidableEq

/-- what a call returns, with the bytes that were read and the descriptors that are left in the sets -/
structure Ans (α : Type*) where
  rc : ℤ
  data : List α := []
  ready : List ℤ := []
deriving DecidableEq

/-- what a caller may rely on -/
def permitted : Call α → Ans α → Bool
  | .select _ rset wset _ _, a => a.ready.all fun fd => fd ∈ rset ++ wset
  | .getWriteSpace _ room, a => 0 < a.rc && a.rc ≤ room
  | .read _ _ n, a => a.rc ≤ n && a.data.length = a.rc.toNat
  | .getReadSpace _ held, a => 0 < a.rc && a.rc ≤ held
  | .write _ _ bs, a => a.rc ≤ bs.length
  | _, _ => true

inductive Pc where
  | opt (sd : ℤ) (rest : List ℤ)
  /-- at `start = stamp = time(0)` -/
  | stamping
  /-- at the clock of the guard -/
  | clock
  | sleeping
  | rselect
  | wselect
  | space (d : Side)
  | reading (d : Side) (n : ℕ)
  | held (d : Side)
  | writing (d : Side) (n : ℕ)
  | closing (sd : ℤ) (rest : List ℤ)
  | returned
  /-- `log_die` -/
  | died
deriving DecidableEq

end Worker

structure Worker (α : Type*) where
  args : Worker.Args
  /-- `timeout->tv_sec`, unless `timeout` is NULL -/
  timeout : Option ℤ
  pc : Worker.Pc
  stamp : ℤ := 0
  /-- R_ACTIVE -/
  ractive : Bool := true
  /-- W_ACTIVE -/
  wactive : Bool := true
  rset : List ℤ := []
  wset : List ℤ := []
  fwd : Worker.Half α := ⟨⟨[], Nat.zero_le _⟩, false, false⟩
  rev : Worker.Half α := ⟨⟨[], Nat.zero_le _⟩, false, false⟩

namespace Worker

variable {α : Type*}

def worker (fdIn fdOut sd : ℤ) (timeout : Option ℤ) : Worker α :=
  { args := ⟨fdIn, fdOut, sd⟩, timeout := timeout, pc := .opt fdIn [fdOut, sd] }

/-- the overload with two descriptors; it does not pass its timeout on -/
def worker2 (sd1 sd2 : ℤ) (_to : Option ℤ) : Worker α := worker sd1 sd1 sd2 none

def half (s : Worker α) : Side → Half α
  | .fwd => s.fwd
  | .rev => s.rev

def setHalf (s : Worker α) (d : Side) (h : Half α) : Worker α :=
  match d with
  | .fwd => { s with fwd := h }
  | .rev => { s with rev := h }

/-- SOCK_API::maxfdn -/
def maxfdn (sd1 sd2 : ℤ) : ℤ :=
  let mfdn := if sd1 < UDT_FD_BASE then sd1 + 1 else 1
  if sd2 < UDT_FD_BASE ∧ sd2 > sd1 then sd2 + 1 else mfdn

/-- `thz` when the flag is set, else `thp`, in microseconds -/
def wait (active : Bool) : ℕ := if active then 0 else 10

/-- the sinks of the sources that can be read -/
def sinks (s : Worker α) : List ℤ :=
  (if s.args.fdIn ∈ s.rset then [s.args.sd] else []) ++ (if s.args.sd ∈ s.rset then [s.args.fdOut] else [])

def eset (s : Worker α) : List ℤ := [s.args.fdIn, s.args.fdOut, s.args.sd]

def call (s : Worker α) : Option (Call α) :=
  match s.pc with
  | .opt sd _ => some (.setsockopt sd)
  | .stamping => some .time
  | .clock => some .time
  | .sleeping => some (.sleep 500000)
  | .rselect =>
    some (.select (maxfdn s.args.fdOut s.args.sd) [s.args.fdIn, s.args.sd] [] s.eset (wait s.ractive))
  | .wselect => some (.select (maxfdn s.args.fdOut s.args.sd) [] s.sinks s.eset (wait s.wactive))
  | .space d => some (.getWriteSpace d (bfsize - (s.half d).buf.items.length))
  | .reading d n => some (.read d (s.args.copy d).rfd n)
  | .held d => some (.getReadSpace d (s.half d).buf.items.length)
  | .writing d n => some (.write d (s.args.copy d).wfd ((s.half d).buf.items.take n))
  | .closing sd _ => some (.close sd)
  | .returned => none
  | .died => none

/-! The way from one call to the next -/

def isful (h : Half α) : Bool := h.buf.items.length = bfsize

def isempty (h : Half α) : Bool := h.buf.items.isEmpty

/-- after the loop -/
def leave (s : Worker α) : Worker α :=
  { s with pc := .closing s.args.fdIn (if s.args.fdIn ≠ s.args.fdOut then [s.args.fdOut, s.args.sd] else [s.args.sd]) }

/-- the guard, up to its clock -/
def guard (s : Worker α) : Worker α :=
  if s.fwd.wshut ∧ s.rev.wshut then s.leave
  else
    match s.timeout with
    | none => { s with pc := .sleeping }
    | some _ => { s with pc := .clock }

/-- nothing to write and nothing more to come -/
def drain (s : Worker α) (d : Side) : Worker α :=
  if isempty (s.half d) ∧ (s.half d).rshut then s.setHalf d { s.half d with wshut := true } else s

def mayRead (s : Worker α) (d : Side) : Bool :=
  (s.args.copy d).rready ∈ s.rset && !isful (s.half d) && !(s.half d).rshut

def mayWrite (s : Worker α) (d : Side) : Bool :=
  (s.args.copy d).wready ∈ s.wset && !isempty (s.half d) && !(s.half d).wshut

def revWrite (s : Worker α) : Worker α :=
  if s.mayWrite .rev then { s with pc := .held .rev } else (s.drain .rev).guard

def revRead (s : Worker α) : Worker α := if s.mayRead .rev then { s with pc := .space .rev } else s.revWrite

def fwdWrite (s : Worker α) : Worker α :=
  if s.mayWrite .fwd then { s with pc := .held .fwd } else (s.drain .fwd).revRead

def fwdRead (s : Worker α) : Worker α := if s.mayRead .fwd then { s with pc := .space .fwd } else s.fwdWrite

def afterRead (s : Worker α) : Side → Worker α
  | .fwd => s.fwdWrite
  | .rev => s.revWrite

def afterWrite (s : Worker α) : Side → Worker α
  | .fwd => (s.drain .fwd).revRead
  | .rev => (s.drain .rev).guard

/-- a half after its read -/
def hasRead (eof : Bool) (h : Half α) (a : Ans α) : Half α :=
  if a.rc > 0 then { h with buf := h.buf.push a.data }
  else if a.rc = 0 then { h with rshut := h.rshut || eof }
  else h.fail

/-- a half after its write -/
def hasWritten (h : Half α) (a : Ans α) : Half α :=
  if a.rc > 0 then { h with buf := h.buf.pop a.rc.toNat } else h.fail

def resume (s : Worker α) (a : Ans α) : Worker α :=
  match s.pc with
  | .opt _ rest =>
    if a.rc ≠ 0 then { s with pc := .died }
    else
      match rest with
      | [] => { s with pc := .stamping }
      | sd :: rest => { s with pc := .opt sd rest }
  | .stamping => guard { s with stamp := a.rc }
  | .clock =>
    match s.timeout with
    | none => s
    | some tv => if a.rc - s.stamp < tv then { s with pc := .sleeping } else s.leave
  | .sleeping => { s with pc := .rselect }
  | .rselect =>
    if a.rc > 0 then { s with ractive := true, rset := a.ready, pc := .wselect }
    else { s with ractive := false, rset := [], pc := .wselect }
  | .wselect => fwdRead { s with ractive := false, wactive := false, wset := if a.rc > 0 then a.ready else [] }
  | .space d => { s with pc := .reading d a.rc.toNat }
  | .reading d _ => (s.setHalf d (hasRead (s.args.copy d).eof (s.half d) a)).afterRead d
  | .held d => { s with pc := .writing d a.rc.toNat }
  | .writing d _ => (s.setHalf d (hasWritten (s.half d) a)).afterWrite d
  | .closing _ rest =>
    match rest with
    | [] => { s with pc := .returned }
    | sd :: rest => { s with pc := .closing sd rest }
  | .returned => s
  | .died => s

def machine (α : Type*) : Machine (Worker α) (Call α) (Ans α) := ⟨call, resume⟩

/-! ## What one step does to the halves -/

@[simp] theorem half_setHalf (s : Worker α) (d : Side) (h : Half α) : (s.setHalf d h).half d = h := by
  cases d with
  | fwd => rfl
  | rev => rfl

theorem half_setHalf_ne (s : Worker α) {d e : Side} (h : Half α) (hne : e ≠ d) :
    (s.setHalf d h).half e = s.half e := by
  cases d with
  | fwd => cases e with
    | fwd => exact absurd rfl hne
    | rev => rfl
  | rev => cases e with
    | fwd => rfl
    | rev => exact absurd rfl hne

@[simp] theorem setHalf_args (s : Worker α) (d : Side) (h : Half α) : (s.setHalf d h).args = s.args := by
  cases d with
  | fwd => rfl
  | rev => rfl

@[simp] theorem setHalf_timeout (s : Worker α) (d : Side) (h : Half α) : (s.setHalf d h).timeout = s.timeout := by
  cases d with
  | fwd => rfl
  | rev => rfl

@[simp] theorem setHalf_stamp (s : Worker α) (d : Side) (h : Half α) : (s.setHalf d h).stamp = s.stamp := by
  cases d with
  | fwd => rfl
  | rev => rfl

@[simp] theorem half_pc (s : Worker α) (pc : Pc) (d : Side) : half { s with pc := pc } d = s.half d := by
  cases d with
  | fwd => rfl
  | rev => rfl

/-- a half that the way to the next call leaves as it is, or drained: nothing held, nothing to come, the sink told -/
def Drains (h h' : Half α) : Prop := h' = h ∨ (isempty h ∧ h.rshut ∧ h' = { h with wshut := true })

theorem Drains.trans {h h' h'' : Half α} (h1 : Drains h h') (h2 : Drains h' h'') : Drains h h'' := by
  rcases h1 with rfl | ⟨he, hr, rfl⟩
  · exact h2
  · rcases h2 with rfl | ⟨-, -, rfl⟩
    · exact Or.inr ⟨he, hr, rfl⟩
    · exact Or.inr ⟨he, hr, rfl⟩

theorem Drains.buf {h h' : Half α} (hd : Drains h h') : h'.buf = h.buf := by
  rcases hd with rfl | ⟨-, -, rfl⟩
  · rfl
  · rfl

theorem Drains.rshut {h h' : Half α} (hd : Drains h h') : h'.rshut = h.rshut := by
  rcases hd with rfl | ⟨-, -, rfl⟩
  · rfl
  · rfl

/-- the way from one call to the next -/
structure Flow (s t : Worker α) : Prop where
  args : t.args = s.args
  timeout : t.timeout = s.timeout
  stamp : t.stamp = s.stamp
  half : ∀ d, Drains (s.half d) (t.half d)

theorem Flow.refl (s : Worker α) : Flow s s := ⟨rfl, rfl, rfl, fun _ => Or.inl rfl⟩

theorem Flow.trans {s t u : Worker α} (h1 : Flow s t) (h2 : Flow t u) : Flow s u where
  args := h2.args.trans h1.args
  timeout := h2.timeout.trans h1.timeout
  stamp := h2.stamp.trans h1.stamp
  half d := (h1.half d).trans (h2.half d)

/-- a step of the way that only moves the point -/
theorem flow_pc (s : Worker α) (pc : Pc) : Flow s { s with pc := pc } :=
  ⟨rfl, rfl, rfl, fun d => Or.inl (half_pc s pc d)⟩

theorem flow_guard (s : Worker α) : Flow s s.guard := by
  unfold guard
  split_ifs
  · exact flow_pc s _
  · split
    · exact flow_pc s _
    · exact flow_pc s _

theorem flow_drain (s : Worker α) (d : Side) : Flow s (s.drain d) := by
  unfold drain
  split_ifs with h
  · refine ⟨setHalf_args .., setHalf_timeout .., setHalf_stamp .., fun e => ?_⟩
    by_cases he : e = d
    · subst he
      exact Or.inr ⟨h.1, h.2, half_setHalf ..⟩
    · exact Or.inl (half_setHalf_ne s _ he)
  · exact Flow.refl s

/-- where the way from one call to the next can lead -/
def Ahead (s t : Worker α) : Prop :=
  ∃ u, Flow s u ∧ (t = u.guard ∨ ∃ d, t = { u with pc := .held d } ∨ t = { u with pc := .space d })

theorem Ahead.flow {s t : Worker α} (h : Ahead s t) : Flow s t := by
  obtain ⟨u, hu, rfl | ⟨d, rfl | rfl⟩⟩ := h
  · exact hu.trans (flow_guard u)
  · exact hu.trans (flow_pc u _)
  · exact hu.trans (flow_pc u _)

theorem Flow.ahead {s t u : Worker α} (h1 : Flow s t) (h2 : Ahead t u) : Ahead s u := by
  obtain ⟨v, hv, h⟩ := h2
  exact ⟨v, h1.trans hv, h⟩

theorem ahead_guard (s : Worker α) : Ahead s s.guard := ⟨s, Flow.refl s, Or.inl rfl⟩

theorem ahead_held (s : Worker α) (d : Side) : Ahead s { s with pc := .held d } :=
  ⟨s, Flow.refl s, Or.inr ⟨d, Or.inl rfl⟩⟩

theorem ahead_space (s : Worker α) (d : Side) : Ahead s { s with pc := .space d } :=
  ⟨s, Flow.refl s, Or.inr ⟨d, Or.inr rfl⟩⟩

theorem ahead_revWrite (s : Worker α) : Ahead s s.revWrite := by
  unfold revWrite
  split_ifs
  · exact ahead_held s .rev
  · exact (flow_drain s .rev).ahead (ahead_guard _)

theorem ahead_revRead (s : Worker α) : Ahead s s.revRead := by
  unfold revRead
  split_ifs
  · exact ahead_space s .rev
  · exact ahead_revWrite s

theorem ahead_fwdWrite (s : Worker α) : Ahead s s.fwdWrite := by
  unfold fwdWrite
  split_ifs
  · exact ahead_held s .fwd
  · exact (flow_drain s .fwd).ahead (ahead_revRead _)

theorem ahead_fwdRead (s : Worker α) : Ahead s s.fwdRead := by
  unfold fwdRead
  split_ifs
  · exact ahead_space s .fwd
  · exact ahead_fwdWrite s

theorem ahead_afterRead (s : Worker α) (d : Side) : Ahead s (s.afterRead d) := by
  cases d with
  | fwd => exact ahead_fwdWrite s
  | rev => exact ahead_revWrite s

theorem ahead_afterWrite (s : Worker α) (d : Side) : Ahead s (s.afterWrite d) := by
  cases d with
  | fwd => exact (flow_drain s .fwd).ahead (ahead_revRead _)
  | rev => exact (flow_drain s .rev).ahead (ahead_guard _)

/-- a call that is neither a read nor a write of a half -/
def Call.aside : Call α → Bool
  | .read _ _ _ => false
  | .write _ _ _ => false
  | _ => true

/-- **What one step does.** Each call but the two transfers leaves the halves to the way to the next call, and the
first reading of the clock is kept. -/
theorem resume_cases {s : Worker α} {c : Call α} {a : Ans α} (hc : s.call = some c) :
    (c.aside = true ∧ ∃ st, (s.pc ≠ .stamping → st = s.stamp) ∧ (s.pc = .stamping → st = a.rc) ∧
      Flow { s with stamp := st } (s.resume a)) ∨
    (∃ d n, s.pc = .reading d n ∧ c = .read d (s.args.copy d).rfd n ∧
      Ahead (s.setHalf d (hasRead (s.args.copy d).eof (s.half d) a)) (s.resume a)) ∨
    (∃ d n, s.pc = .writing d n ∧ c = .write d (s.args.copy d).wfd ((s.half d).buf.items.take n) ∧
      Ahead (s.setHalf d (hasWritten (s.half d) a)) (s.resume a)) := by
  obtain ⟨args, timeout, pc, stamp, ractive, wactive, rset, wset, fwd, rev⟩ := s
  have hmove (pc' : Pc) (r w : Bool) (rs ws : List ℤ) :
      Flow (α := α) ⟨args, timeout, pc, stamp, ractive, wactive, rset, wset, fwd, rev⟩
        ⟨args, timeout, pc', stamp, r, w, rs, ws, fwd, rev⟩ :=
    ⟨rfl, rfl, rfl, fun d => Or.inl (by cases d <;> rfl)⟩
  cases pc with
  | reading d n => exact Or.inr (Or.inl ⟨d, n, rfl, (Option.some.inj hc).symm, ahead_afterRead _ d⟩)
  | writing d n => exact Or.inr (Or.inr ⟨d, n, rfl, (Option.some.inj hc).symm, ahead_afterWrite _ d⟩)
  | stamping =>
    obtain rfl := Option.some.inj hc
    exact Or.inl ⟨rfl, a.rc, fun h => absurd rfl h, fun _ => rfl, flow_guard _⟩
  | opt sd rest =>
    obtain rfl := Option.some.inj hc
    refine Or.inl ⟨rfl, stamp, fun _ => rfl, nofun, ?_⟩
    simp only [resume]
    split_ifs
    · exact hmove ..
    · cases rest with
      | nil => exact hmove ..
      | cons sd rest => exact hmove ..
  | clock =>
    obtain rfl := Option.some.inj hc
    refine Or.inl ⟨rfl, stamp, fun _ => rfl, nofun, ?_⟩
    cases timeout with
    | none => exact hmove ..
    | some tv =>
      simp only [resume]
      split_ifs
      · exact hmove ..
      · exact hmove ..
  | sleeping =>
    obtain rfl := Option.some.inj hc
    exact Or.inl ⟨rfl, stamp, fun _ => rfl, nofun, hmove ..⟩
  | rselect =>
    obtain rfl := Option.some.inj hc
    refine Or.inl ⟨rfl, stamp, fun _ => rfl, nofun, ?_⟩
    simp only [resume]
    split_ifs
    · exact hmove ..
    · exact hmove ..
  | wselect =>
    obtain rfl := Option.some.inj hc
    exact Or.inl ⟨rfl, stamp, fun _ => rfl, nofun, (hmove ..).trans (ahead_fwdRead _).flow⟩
  | space d =>
    obtain rfl := Option.some.inj hc
    exact Or.inl ⟨rfl, stamp, fun _ => rfl, nofun, hmove ..⟩
  | held d =>
    obtain rfl := Option.some.inj hc
    exact Or.inl ⟨rfl, stamp, fun _ => rfl, nofun, hmove ..⟩
  | closing sd rest =>
    obtain rfl := Option.some.inj hc
    refine Or.inl ⟨rfl, stamp, fun _ => rfl, nofun, ?_⟩
    cases rest with
    | nil => exact hmove ..
    | cons sd rest => exact hmove ..
  | returned => cases hc
  | died => cases hc

/-- the parameters of the call are never changed -/
theorem resume_kept {s : Worker α} {c : Call α} {a : Ans α} (hc : s.call = some c) :
    (s.resume a).args = s.args ∧ (s.resume a).timeout = s.timeout := by
  rcases resume_cases (a := a) hc with ⟨-, st, -, -, hflow⟩ | ⟨d, n, -, -, hway⟩ | ⟨d, n, -, -, hway⟩
  · exact ⟨hflow.args, hflow.timeout⟩
  · exact ⟨hway.flow.args.trans (setHalf_args ..), hway.flow.timeout.trans (setHalf_timeout ..)⟩
  · exact ⟨hway.flow.args.trans (setHalf_args ..), hway.flow.timeout.trans (setHalf_timeout ..)⟩

end Worker

end UdtGate
