/-
Systems that move by labelled steps, their runs, and the rules for proving things about runs.

A step function is partial: `step s l = none` when label `l` is not possible in state `s`. All nondeterminism (the
scheduler, the answers of an operating system, the other end of a connection) is in the labels, so that one executable
function gives the runs that proofs quantify over and the runs a witness evaluates.

- `exec_inv`, `reachable_inv`: what every step keeps, every run keeps, and so has every reachable state;
- `Meets` and `exec_inv_meets`: the same for the runs whose steps all meet a condition, `meets_iff` and
  `prefixes_iff_meets` for conditions that are exact;
- `Ends`, `ends_of_rank` and `not_ends_of_loop`: all runs reach a state that is done, shown by a rank, refuted by a set
  of states that can be kept to;
- `Simulation.exec`: when each step of one system is matched by a step of another, so is each run.

A `Machine` is a program that asks an environment: `call` is the call it waits on, `resume` goes on with the answer.
`Machine.system` puts it in the environment that may give any answer permitted by `ok`, `Machine.logged` also keeps the
calls and answers, and `Machine.Shared` is two programs that run side by side with one such log.
-/
import Mathlib.Tactic

namespace UdtGate.Core

/-- the states a system may start in and its partial step function -/
structure System (S L : Type*) where
  init : S → Prop
  step : S → L → Option S

namespace System

variable {S L T M : Type*} (sys : System S L)

/-- the state after the steps labelled `ls`, when all of them are possible -/
def exec : S → List L → Option S
  | s, [] => some s
  | s, l :: ls =>
    match sys.step s l with
    | none => none
    | some t => exec t ls

@[simp] theorem exec_nil (s : S) : sys.exec s [] = some s := rfl

variable {sys}

theorem exec_cons {s t : S} {l : L} {ls : List L} :
    sys.exec s (l :: ls) = some t ↔ ∃ u, sys.step s l = some u ∧ sys.exec u ls = some t := by
  simp only [exec]
  cases sys.step s l with
  | none => simp
  | some u => simp

theorem exec_append {s t : S} {ls ms : List L} :
    sys.exec s (ls ++ ms) = some t ↔ ∃ u, sys.exec s ls = some u ∧ sys.exec u ms = some t := by
  induction ls generalizing s with
  | nil => simp
  | cons l ls ih =>
    rw [List.cons_append, exec_cons]
    constructor
    · rintro ⟨v, hv, h⟩
      obtain ⟨u, hu, ht⟩ := ih.1 h
      exact ⟨u, exec_cons.2 ⟨v, hv, hu⟩, ht⟩
    · rintro ⟨u, hu, ht⟩
      obtain ⟨v, hv, hu⟩ := exec_cons.1 hu
      exact ⟨v, hv, ih.2 ⟨u, hu, ht⟩⟩

/-- a run and one more step -/
theorem exec_snoc {s t : S} {ls : List L} {l : L} :
    sys.exec s (ls ++ [l]) = some t ↔ ∃ u, sys.exec s ls = some u ∧ sys.step u l = some t := by
  rw [exec_append]
  simp only [exec_cons, exec_nil, Option.some.injEq, exists_eq_right]

/-- how a run on fixed labels is evaluated: it is possible, and its last state has the property `p` -/
theorem exec_of_any {p : S → Prop} [DecidablePred p] {s : S} {ls : List L}
    (h : (sys.exec s ls).any (fun t => decide (p t)) = true) : ∃ t, sys.exec s ls = some t ∧ p t := by
  cases ht : sys.exec s ls with
  | none => rw [ht] at h; cases h
  | some t => rw [ht] at h; exact ⟨t, rfl, of_decide_eq_true h⟩

/-- **Invariant rule.** What every step keeps, every run keeps. -/
theorem exec_inv (I : S → Prop) (hstep : ∀ s l t, I s → sys.step s l = some t → I t) {s t : S} {ls : List L}
    (h : sys.exec s ls = some t) (hs : I s) : I t := by
  induction ls generalizing s with
  | nil => simp only [exec_nil, Option.some.injEq] at h; exact h ▸ hs
  | cons l ls ih =>
    obtain ⟨u, hu, ht⟩ := exec_cons.1 h
    exact ih ht (hstep s l u hs hu)

variable (sys)

/-- every step of the run from `s` labelled `ls` meets the condition `G` on its state and label -/
def Meets (G : S → L → Prop) : S → List L → Prop
  | _, [] => True
  | s, l :: ls =>
    G s l ∧
      match sys.step s l with
      | none => True
      | some t => Meets G t ls

instance (G : S → L → Prop) [∀ s l, Decidable (G s l)] (s : S) (ls : List L) : Decidable (sys.Meets G s ls) := by
  induction ls generalizing s with
  | nil => exact isTrue trivial
  | cons l ls ih =>
    unfold Meets
    cases sys.step s l with
    | none => infer_instance
    | some t => exact @instDecidableAnd _ _ _ (ih t)

variable {sys}

/-- **Invariant rule for guarded runs.** What every step that meets `G` keeps, every run whose steps all meet `G`
keeps. -/
theorem exec_inv_meets (I : S → Prop) (G : S → L → Prop)
    (hstep : ∀ s l t, I s → G s l → sys.step s l = some t → I t) {s t : S} {ls : List L}
    (h : sys.exec s ls = some t) (hG : sys.Meets G s ls) (hs : I s) : I t := by
  induction ls generalizing s with
  | nil => simp only [exec_nil, Option.some.injEq] at h; exact h ▸ hs
  | cons l ls ih =>
    obtain ⟨u, hu, ht⟩ := exec_cons.1 h
    obtain ⟨hg, hrest⟩ := hG
    rw [hu] at hrest
    exact ih ht hrest (hstep s l u hs hg hu)

/-- a run with a step that does not meet `G`, cut at the first such step -/
theorem exists_of_not_meets {G : S → L → Prop} {s t : S} {ls : List L} (h : sys.exec s ls = some t)
    (hG : ¬ sys.Meets G s ls) :
    ∃ pre l post u v, ls = pre ++ l :: post ∧ sys.exec s pre = some u ∧ sys.Meets G s pre ∧ ¬ G u l ∧
      sys.step u l = some v ∧ sys.exec v post = some t := by
  induction ls generalizing s with
  | nil => exact absurd trivial hG
  | cons l ls ih =>
    obtain ⟨u, hu, ht⟩ := exec_cons.1 h
    simp only [Meets, hu] at hG
    by_cases hg : G s l
    · obtain ⟨pre, m, post, x, v, rfl, hx, hpre, hm, hv, hpost⟩ := ih ht fun hM => hG ⟨hg, hM⟩
      exact ⟨l :: pre, m, post, x, v, rfl, exec_cons.2 ⟨u, hu, hx⟩, ⟨hg, by rw [hu]; exact hpre⟩, hm, hv, hpost⟩
    · exact ⟨[], l, ls, s, u, rfl, rfl, trivial, hg, hu, ht⟩

/-- a condition on the labels alone -/
theorem meets_of_forall {p : L → Prop} {s : S} {ls : List L} (h : ∀ l ∈ ls, p l) : sys.Meets (fun _ l => p l) s ls := by
  induction ls generalizing s with
  | nil => trivial
  | cons l ls ih =>
    refine ⟨h l List.mem_cons_self, ?_⟩
    cases sys.step s l with
    | none => trivial
    | some t => exact ih fun m hm => h m (List.mem_cons_of_mem l hm)

/-- a run that meets a condition on the labels alone -/
theorem forall_of_meets {p : L → Prop} {s t : S} {ls : List L} (h : sys.exec s ls = some t)
    (hM : sys.Meets (fun _ l => p l) s ls) : ∀ l ∈ ls, p l := by
  induction ls generalizing s with
  | nil => exact List.forall_mem_nil p
  | cons l ls ih =>
    obtain ⟨u, hu, ht⟩ := exec_cons.1 h
    obtain ⟨hl, hrest⟩ := hM
    rw [hu] at hrest
    exact List.forall_mem_cons.2 ⟨hl, ih ht hrest⟩

/-- the front of a run meets what the run meets -/
theorem meets_of_append {G : S → L → Prop} {s : S} {ls ms : List L} (h : sys.Meets G s (ls ++ ms)) :
    sys.Meets G s ls := by
  induction ls generalizing s with
  | nil => trivial
  | cons l ls ih =>
    obtain ⟨hg, hrest⟩ := h
    refine ⟨hg, ?_⟩
    cases hs : sys.step s l with
    | none => trivial
    | some t =>
      simp only [hs] at hrest
      exact ih hrest

/-- **Exact conditions.** When a step to `t` has the property `P` of states exactly when it had it before and meets `G`,
then so has a run, exactly when all its steps meet `G`. -/
theorem meets_iff (I P : S → Prop) (G : S → L → Prop) (hinv : ∀ s l t, I s → sys.step s l = some t → I t)
    (hstep : ∀ s l t, I s → sys.step s l = some t → (P t ↔ P s ∧ G s l)) {s t : S} {ls : List L}
    (h : sys.exec s ls = some t) (hs : I s) : P t ↔ P s ∧ sys.Meets G s ls := by
  induction ls generalizing s with
  | nil =>
    simp only [exec_nil, Option.some.injEq] at h
    subst h
    exact ⟨fun hp => ⟨hp, trivial⟩, And.left⟩
  | cons l ls ih =>
    obtain ⟨u, hu, ht⟩ := exec_cons.1 h
    rw [ih ht (hinv s l u hs hu), hstep s l u hs hu, and_assoc]
    simp only [Meets, hu]

/-- **Exact conditions on every state.** When a step from a state with the property `P` leads to one with it exactly
when it meets `G`, a run goes through states with the property only, exactly when all its steps meet `G`. -/
theorem prefixes_iff_meets (P : S → Prop) (G : S → L → Prop)
    (hstep : ∀ s l t, P s → sys.step s l = some t → (P t ↔ G s l)) {s t : S} {ls : List L}
    (h : sys.exec s ls = some t) (hs : P s) :
    (∀ pre post u, ls = pre ++ post → sys.exec s pre = some u → P u) ↔ sys.Meets G s ls := by
  induction ls generalizing s with
  | nil =>
    refine ⟨fun _ => trivial, ?_⟩
    intro _ pre post u hls hu
    obtain ⟨rfl, rfl⟩ := List.append_eq_nil_iff.1 hls.symm
    obtain rfl := Option.some.inj hu
    exact hs
  | cons l ls ih =>
    obtain ⟨u, hu, ht⟩ := exec_cons.1 h
    simp only [Meets, hu]
    constructor
    · intro hall
      have hpu : P u := hall [l] ls u rfl (exec_cons.2 ⟨u, hu, rfl⟩)
      refine ⟨(hstep s l u hs hu).1 hpu, (ih ht hpu).1 ?_⟩
      intro pre post v hls hv
      exact hall (l :: pre) post v (by rw [hls, List.cons_append]) (exec_cons.2 ⟨u, hu, hv⟩)
    · rintro ⟨hg, hrest⟩ pre post v hls hv
      have hpu : P u := (hstep s l u hs hu).2 hg
      cases pre with
      | nil =>
        obtain rfl := Option.some.inj hv
        exact hs
      | cons m pre =>
        obtain ⟨rfl, htail⟩ := List.cons.inj hls
        obtain ⟨w, hw, hv⟩ := exec_cons.1 hv
        obtain rfl := Option.some.inj (hu.symm.trans hw)
        exact (ih ht hpu).2 hrest pre post v htail hv

variable (sys)

/-- the states some run from an initial state ends in -/
def Reachable (s : S) : Prop := ∃ s0 ls, sys.init s0 ∧ sys.exec s0 ls = some s

variable {sys}

theorem Reachable.next {s t : S} {l : L} (h : sys.Reachable s) (hs : sys.step s l = some t) : sys.Reachable t := by
  obtain ⟨s0, ls, h0, hr⟩ := h
  exact ⟨s0, ls ++ [l], h0, exec_snoc.2 ⟨s, hr, hs⟩⟩

theorem reachable_inv (I : S → Prop) (hinit : ∀ s, sys.init s → I s)
    (hstep : ∀ s l t, I s → sys.step s l = some t → I t) {s : S} (h : sys.Reachable s) : I s := by
  obtain ⟨s0, ls, h0, hr⟩ := h
  exact exec_inv I hstep hr (hinit s0 h0)

/-! Termination -/

variable (sys)

/-- every run from `s` is over after finitely many steps: the runs that are not `Done` are bounded, and each of them
goes on -/
structure Ends (Done : S → Prop) (s : S) : Prop where
  bounded : ∃ n, ∀ ls t, sys.exec s ls = some t → ¬ Done t → ls.length ≤ n
  live : ∀ ls t, sys.exec s ls = some t → ¬ Done t → ∃ l u, sys.step t l = some u

variable {sys}

/-- where all runs end, there is one to a state that is done -/
theorem Ends.exists_done {Done : S → Prop} {s : S} (h : sys.Ends Done s) :
    ∃ ls t, sys.exec s ls = some t ∧ Done t := by
  obtain ⟨⟨n, hn⟩, hlive⟩ := h
  by_contra hno
  push Not at hno
  have hrun : ∀ m, ∃ ls t, ls.length = m ∧ sys.exec s ls = some t := by
    intro m
    induction m with
    | zero => exact ⟨[], s, rfl, rfl⟩
    | succ m ih =>
      obtain ⟨ls, t, hlen, ht⟩ := ih
      obtain ⟨l, u, hu⟩ := hlive ls t ht (hno ls t ht)
      exact ⟨ls ++ [l], u, by simp [hlen], exec_snoc.2 ⟨t, ht, hu⟩⟩
  obtain ⟨ls, t, hlen, ht⟩ := hrun (n + 1)
  have hle := hn ls t ht (hno ls t ht)
  omega

/-- what a run that is not done yet has used up of its rank -/
theorem length_le_rank {Done : S → Prop} (I : S → Prop) (r : S → ℕ)
    (hdone : ∀ s l t, Done s → sys.step s l = some t → Done t)
    (hstep : ∀ s l t, I s → ¬ Done s → sys.step s l = some t → ¬ Done t → I t ∧ r t < r s) {s t : S} {ls : List L}
    (h : sys.exec s ls = some t) (hs : I s) (ht : ¬ Done t) : I t ∧ ls.length + r t ≤ r s := by
  induction ls generalizing s with
  | nil =>
    simp only [exec_nil, Option.some.injEq] at h
    subst h
    exact ⟨hs, by simp⟩
  | cons l ls ih =>
    obtain ⟨u, hu, hrest⟩ := exec_cons.1 h
    have hsd : ¬ Done s := fun hd => ht (exec_inv Done hdone h hd)
    have hud : ¬ Done u := fun hd => ht (exec_inv Done hdone hrest hd)
    obtain ⟨hiu, hlt⟩ := hstep s l u hs hsd hu hud
    obtain ⟨hit, hle⟩ := ih hrest hiu
    exact ⟨hit, by rw [List.length_cons]; omega⟩

/-- **Ranking rule.** Runs end when each step before the end lowers a rank and no state before the end is stuck. -/
theorem ends_of_rank {Done : S → Prop} (I : S → Prop) (r : S → ℕ)
    (hdone : ∀ s l t, Done s → sys.step s l = some t → Done t)
    (hstep : ∀ s l t, I s → ¬ Done s → sys.step s l = some t → ¬ Done t → I t ∧ r t < r s)
    (hlive : ∀ s, I s → ¬ Done s → ∃ l t, sys.step s l = some t) {s : S} (hs : I s) : sys.Ends Done s where
  bounded := by
    refine ⟨r s, ?_⟩
    intro ls t h ht
    have hle := (length_le_rank I r hdone hstep h hs ht).2
    omega
  live ls t h ht := hlive t (length_le_rank I r hdone hstep h hs ht).1 ht

/-- **Lasso rule.** Runs do not end when from `s` the states of `P`, none of them done, can be kept to for ever. -/
theorem not_ends_of_loop {Done : S → Prop} (P : S → Prop) (hdone : ∀ s, P s → ¬ Done s)
    (hstep : ∀ s, P s → ∃ l t, sys.step s l = some t ∧ P t) {s : S} (hs : P s) : ¬ sys.Ends Done s := by
  rintro ⟨⟨n, hn⟩, -⟩
  have hrun : ∀ m, ∃ ls t, ls.length = m ∧ sys.exec s ls = some t ∧ P t := by
    intro m
    induction m with
    | zero => exact ⟨[], s, rfl, rfl, hs⟩
    | succ m ih =>
      obtain ⟨ls, t, hlen, ht, hP⟩ := ih
      obtain ⟨l, u, hu, hPu⟩ := hstep t hP
      exact ⟨ls ++ [l], u, by simp [hlen], exec_snoc.2 ⟨t, ht, hu⟩, hPu⟩
  obtain ⟨ls, t, hlen, ht, hP⟩ := hrun (n + 1)
  have hle := hn ls t ht (hdone t hP)
  omega

/-- each step of `a` labelled `l` is matched, across the relation `R`, by a step of `b` labelled `f l` -/
structure Simulation (a : System S L) (b : System T M) (R : S → T → Prop) (f : L → M) : Prop where
  init : ∀ s, a.init s → ∃ t, b.init t ∧ R s t
  step : ∀ s t l s', R s t → a.step s l = some s' → ∃ t', b.step t (f l) = some t' ∧ R s' t'

/-- **Refinement of runs.** A simulation matches every run of `a` by a run of `b` with the same labels under `f`. -/
theorem Simulation.exec {a : System S L} {b : System T M} {R : S → T → Prop} {f : L → M} (h : Simulation a b R f)
    {s s' : S} {t : T} {ls : List L} (hr : R s t) (hs : a.exec s ls = some s') :
    ∃ t', b.exec t (ls.map f) = some t' ∧ R s' t' := by
  induction ls generalizing s t with
  | nil => simp only [exec_nil, Option.some.injEq] at hs; exact ⟨t, rfl, hs ▸ hr⟩
  | cons l ls ih =>
    obtain ⟨u, hu, hs'⟩ := exec_cons.1 hs
    obtain ⟨v, hv, hr'⟩ := h.step s t l u hr hu
    obtain ⟨t', ht', hrt⟩ := ih hr' hs'
    exact ⟨t', exec_cons.2 ⟨v, hv, ht'⟩, hrt⟩

end System

/-! ## Programs that ask an environment -/

/-- a program in states `S` that waits on calls `C` and goes on with answers `A`; `call s = none` when it has ended -/
structure Machine (S C A : Type*) where
  call : S → Option C
  resume : S → A → S

namespace Machine

variable {S C A : Type*} (m : Machine S C A)

/-- one step with answer `a`, when the program waits on a call for which `ok` permits that answer -/
def step (ok : C → A → Bool) (s : S) (a : A) : Option S :=
  match m.call s with
  | none => none
  | some c => if ok c a then some (m.resume s a) else none

/-- the program in the environment that may give every answer `ok` permits -/
def system (init : S → Prop) (ok : C → A → Bool) : System S A := ⟨init, m.step ok⟩

variable {m}

/-- what a step can do -/
theorem step_cases {ok : C → A → Bool} {s t : S} {a : A} (h : m.step ok s a = some t) :
    ∃ c, m.call s = some c ∧ ok c a = true ∧ t = m.resume s a := by
  unfold step at h
  cases hc : m.call s with
  | none => rw [hc] at h; cases h
  | some c =>
    rw [hc] at h
    simp only at h
    split_ifs at h with hok
    exact ⟨c, rfl, hok, (Option.some.inj h).symm⟩

/-- a program together with the calls it has made and their answers, oldest first -/
structure Logged (S C A : Type*) where
  st : S
  log : List (C × A)
deriving DecidableEq

variable (m)

/-- the program that also keeps its log -/
def logged : Machine (Logged S C A) C A where
  call s := m.call s.st
  resume s a :=
    match m.call s.st with
    | none => s
    | some c => ⟨m.resume s.st a, s.log ++ [(c, a)]⟩

variable {m}

/-- what a step of the logging program can do -/
theorem logged_cases {ok : C → A → Bool} {s t : Logged S C A} {a : A} (h : m.logged.step ok s a = some t) :
    ∃ c, m.call s.st = some c ∧ ok c a = true ∧ t = ⟨m.resume s.st a, s.log ++ [(c, a)]⟩ := by
  obtain ⟨c, hc, hok, ht⟩ := step_cases h
  refine ⟨c, hc, hok, ?_⟩
  rw [ht]
  simp only [logged] at hc ⊢
  rw [hc]

/-- a permitted answer to the call it waits on -/
theorem logged_step {ok : C → A → Bool} {s : Logged S C A} {c : C} {a : A} (hc : m.call s.st = some c)
    (hok : ok c a = true) : m.logged.step ok s a = some ⟨m.resume s.st a, s.log ++ [(c, a)]⟩ := by
  simp only [step, logged, hc, hok, if_true]

/-- what holds of some call of a log that has got one more -/
theorem exists_mem_snoc {p : C × A → Prop} {log : List (C × A)} {e : C × A} :
    (∃ x ∈ log ++ [e], p x) ↔ (∃ x ∈ log, p x) ∨ p e := by
  constructor
  · rintro ⟨x, hx, hp⟩
    rcases List.mem_append.1 hx with hx | hx
    · exact Or.inl ⟨x, hx, hp⟩
    · exact Or.inr (List.mem_singleton.1 hx ▸ hp)
  · rintro (⟨x, hx, hp⟩ | hp)
    · exact ⟨x, List.mem_append_left _ hx, hp⟩
    · exact ⟨e, List.mem_append_right _ (List.mem_singleton.2 rfl), hp⟩

/-- every answer of a run is in the log it adds -/
theorem exec_log_length {init : Logged S C A → Prop} {ok : C → A → Bool} {s t : Logged S C A} {as : List A}
    (h : (m.logged.system init ok).exec s as = some t) : t.log.length = s.log.length + as.length := by
  induction as generalizing s with
  | nil => simp only [System.exec_nil, Option.some.injEq] at h; simp [h]
  | cons a as ih =>
    obtain ⟨u, hu, ht⟩ := System.exec_cons.1 h
    obtain ⟨c, -, -, rfl⟩ := logged_cases hu
    rw [ih ht, List.length_append, List.length_singleton, List.length_cons]; omega

/-- two programs that run side by side, with one log of the calls of both -/
structure Shared (S T C A : Type*) where
  fst : S
  snd : T
  log : List (C × A)
deriving DecidableEq

variable {T : Type*}

/-- the next answer goes to the first program (`inl`) or to the second (`inr`) -/
def Shared.step (m : Machine S C A) (n : Machine T C A) (ok : C → A → Bool) (s : Shared S T C A) :
    A ⊕ A → Option (Shared S T C A)
  | .inl a =>
    match m.call s.fst with
    | none => none
    | some c => if ok c a then some { s with fst := m.resume s.fst a, log := s.log ++ [(c, a)] } else none
  | .inr a =>
    match n.call s.snd with
    | none => none
    | some c => if ok c a then some { s with snd := n.resume s.snd a, log := s.log ++ [(c, a)] } else none

/-- what a step of two programs can do -/
theorem Shared.step_cases {n : Machine T C A} {ok : C → A → Bool} {s t : Shared S T C A} {l : A ⊕ A}
    (h : Shared.step m n ok s l = some t) :
    (∃ c a, l = .inl a ∧ m.call s.fst = some c ∧ ok c a = true ∧ t = ⟨m.resume s.fst a, s.snd, s.log ++ [(c, a)]⟩) ∨
    (∃ c a, l = .inr a ∧ n.call s.snd = some c ∧ ok c a = true ∧ t = ⟨s.fst, n.resume s.snd a, s.log ++ [(c, a)]⟩) := by
  cases l with
  | inl a =>
    simp only [Shared.step] at h
    cases hc : m.call s.fst with
    | none => rw [hc] at h; cases h
    | some c =>
      rw [hc] at h
      simp only at h
      split_ifs at h with hok
      exact Or.inl ⟨c, a, rfl, rfl, hok, (Option.some.inj h).symm⟩
  | inr a =>
    simp only [Shared.step] at h
    cases hc : n.call s.snd with
    | none => rw [hc] at h; cases h
    | some c =>
      rw [hc] at h
      simp only at h
      split_ifs at h with hok
      exact Or.inr ⟨c, a, rfl, rfl, hok, (Option.some.inj h).symm⟩

end Machine

end UdtGate.Core
