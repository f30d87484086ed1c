import Mathlib.Data.List.Basic

/-!
# Event-driven machines

A program that takes step after step (a protocol party, a pool of threads, a
library object under a sequence of calls) is a start state and a partial step
function on events: `none` means that the event is not enabled. A *run* is a
list of events all of which were enabled; quantifying over runs quantifies over
every interleaving.

- `Machine.invariant`: what the start state has and every step keeps, every
  reached state has.
- `Machine.restrict`: the runs whose steps all meet a condition on the state
  before the step.
- `Machine.restrict_run_iff`: when such a condition is also necessary.
- `fallible`, `checked`: machines whose steps may go wrong (`Except`); `checked_run`
  turns "the invariant excludes every failure" into "no run fails", and
  `fallible_restrict_run` does so for the runs that meet a condition.
- `checked_runFrom_invariant`, `checked_restrict_runFrom_invariant`: the invariant rule for
  the runs that end well.
-/

namespace NetLib

universe u v w

/-- A start state and a partial step function on events. -/
structure Machine (σ : Type u) (ε : Type v) where
  start : σ
  step : σ → ε → Option σ

namespace Machine

variable {σ : Type u} {ε : Type v}

/-- Run a list of events from a state; `none` if one of them is not enabled. -/
def runFrom (M : Machine σ ε) : σ → List ε → Option σ
  | s, [] => some s
  | s, e :: es => (M.step s e).bind fun s' => M.runFrom s' es

/-- Run a list of events from the start state. -/
def run (M : Machine σ ε) (es : List ε) : Option σ := M.runFrom M.start es

theorem runFrom_cons {M : Machine σ ε} {s t : σ} {e : ε} {es : List ε} :
    M.runFrom s (e :: es) = some t ↔
      ∃ s', M.step s e = some s' ∧ M.runFrom s' es = some t := by
  simp [runFrom, Option.bind_eq_some_iff]

/-- Runs join. -/
theorem runFrom_append {M : Machine σ ε} {s t : σ} {es fs : List ε}
    (h : M.runFrom s es = some t) : M.runFrom s (es ++ fs) = M.runFrom t fs := by
  induction es generalizing s with
  | nil =>
    cases h
    rfl
  | cons e es ih =>
    obtain ⟨s', hs', hrest⟩ := runFrom_cons.mp h
    rw [List.cons_append, runFrom, hs', Option.bind_some, ih hrest]

/-- A run ends with its last step. -/
theorem runFrom_concat {M : Machine σ ε} {s t : σ} {e : ε} {es : List ε}
    (h : M.runFrom s (es ++ [e]) = some t) :
    ∃ s', M.runFrom s es = some s' ∧ M.step s' e = some t := by
  induction es generalizing s with
  | nil =>
    obtain ⟨s', hs', hrest⟩ := runFrom_cons.mp h
    cases hrest
    exact ⟨s, rfl, hs'⟩
  | cons e' es ih =>
    obtain ⟨s', hs', hrest⟩ := runFrom_cons.mp h
    obtain ⟨u, hu, hlast⟩ := ih hrest
    exact ⟨u, runFrom_cons.mpr ⟨s', hs', hu⟩, hlast⟩

/-- What every step keeps, every run keeps. -/
theorem runFrom_invariant {M : Machine σ ε} (Inv : σ → Prop)
    (hstep : ∀ s e s', Inv s → M.step s e = some s' → Inv s')
    {s t : σ} {es : List ε} (hs : Inv s) (hrun : M.runFrom s es = some t) : Inv t := by
  induction es generalizing s with
  | nil =>
    cases hrun
    exact hs
  | cons e es ih =>
    obtain ⟨s', hs', hrest⟩ := runFrom_cons.mp hrun
    exact ih (hstep s e s' hs hs') hrest

/-- **Invariant rule**: what the start state has and every step keeps, every
reached state has. -/
theorem invariant {M : Machine σ ε} (Inv : σ → Prop) (hstart : Inv M.start)
    (hstep : ∀ s e s', Inv s → M.step s e = some s' → Inv s')
    {t : σ} {es : List ε} (hrun : M.run es = some t) : Inv t :=
  runFrom_invariant Inv hstep hstart hrun

/-- The machine with only the steps that meet `ok` on the state before. -/
def restrict (M : Machine σ ε) (ok : σ → ε → Bool) : Machine σ ε where
  start := M.start
  step s e := if ok s e then M.step s e else none

theorem restrict_step {M : Machine σ ε} {ok : σ → ε → Bool} {s s' : σ} {e : ε} :
    (M.restrict ok).step s e = some s' ↔ ok s e = true ∧ M.step s e = some s' := by
  unfold restrict
  by_cases h : ok s e <;> simp [h]

theorem runFrom_of_restrict {M : Machine σ ε} {ok : σ → ε → Bool} {s t : σ} {es : List ε}
    (hrun : (M.restrict ok).runFrom s es = some t) : M.runFrom s es = some t := by
  induction es generalizing s with
  | nil => exact hrun
  | cons e es ih =>
    obtain ⟨s', hstep, hrest⟩ := runFrom_cons.mp hrun
    exact runFrom_cons.mpr ⟨s', (restrict_step.mp hstep).2, ih hrest⟩

/-- A run whose steps all meet a condition is a run. -/
theorem run_of_restrict {M : Machine σ ε} {ok : σ → ε → Bool} {s : σ} {es : List ε}
    (hrun : (M.restrict ok).run es = some s) : M.run es = some s :=
  runFrom_of_restrict hrun

/-- The states on the way of a run meet `Q` exactly if all its steps meet `ok`, when that
is so of each single step from a state that meets `Q`. -/
theorem restrict_runFrom_iff {M : Machine σ ε} {ok : σ → ε → Bool} (Inv Q : σ → Prop)
    (hstep : ∀ s e s', Inv s → ok s e = true → M.step s e = some s' → Inv s')
    (hexact : ∀ s e s', Inv s → Q s → M.step s e = some s' → (Q s' ↔ ok s e = true))
    {s : σ} {es : List ε} (hs : Inv s) (hQ : Q s) (hrun : (M.runFrom s es).isSome) :
    (∀ es' t, es' <+: es → M.runFrom s es' = some t → Q t) ↔
      ((M.restrict ok).runFrom s es).isSome := by
  induction es generalizing s with
  | nil =>
    constructor
    · intro
      rfl
    · intro _ es' t hprefix hrun'
      obtain rfl := List.prefix_nil.mp hprefix
      cases hrun'
      exact hQ
  | cons e es ih =>
    obtain ⟨t, hrun⟩ := Option.isSome_iff_exists.mp hrun
    obtain ⟨s', hs', hrest⟩ := runFrom_cons.mp hrun
    have hnext := hexact s e s' hs hQ hs'
    constructor
    · intro hall
      have hQ' : Q s' := hall [e] s' (by simp) (by simp [runFrom, hs'])
      have hInv' := hstep s e s' hs (hnext.mp hQ') hs'
      have hrest' := (ih hInv' hQ' (by rw [hrest]; rfl)).mp fun es' t hes' hrun' =>
        hall (e :: es') t (List.prefix_cons_inj e |>.mpr hes') (runFrom_cons.mpr ⟨s', hs', hrun'⟩)
      obtain ⟨t', ht'⟩ := Option.isSome_iff_exists.mp hrest'
      rw [runFrom_cons.mpr ⟨s', restrict_step.mpr ⟨hnext.mp hQ', hs'⟩, ht'⟩]
      rfl
    · intro hok es' t' hprefix hrun'
      obtain ⟨t'', ht''⟩ := Option.isSome_iff_exists.mp hok
      obtain ⟨s'', hs'', hrest''⟩ := runFrom_cons.mp ht''
      obtain ⟨hoke, hstep''⟩ := restrict_step.mp hs''
      obtain rfl : s' = s'' := Option.some.inj (hs'.symm.trans hstep'')
      have hQ' := hnext.mpr hoke
      cases es' with
      | nil =>
        cases hrun'
        exact hQ
      | cons e' es' =>
        obtain ⟨rfl, hes'⟩ := List.cons_prefix_cons.mp hprefix
        obtain ⟨u, hu, hrun'⟩ := runFrom_cons.mp hrun'
        obtain rfl : s' = u := Option.some.inj (hs'.symm.trans hu)
        exact (ih (hstep s e' s' hs hoke hs') hQ' (by rw [hrest]; rfl)).mpr
          (by rw [hrest'']; rfl) es' t' hes' hrun'

/-- **Exactness rule**: in every state of a run something holds exactly if the steps of
the run all meet a condition. -/
theorem restrict_run_iff {M : Machine σ ε} {ok : σ → ε → Bool} (Inv Q : σ → Prop)
    (hstart : Inv M.start) (hQ : Q M.start)
    (hstep : ∀ s e s', Inv s → ok s e = true → M.step s e = some s' → Inv s')
    (hexact : ∀ s e s', Inv s → Q s → M.step s e = some s' → (Q s' ↔ ok s e = true))
    {es : List ε} (hrun : (M.run es).isSome) :
    (∀ es' t, es' <+: es → M.run es' = some t → Q t) ↔ ((M.restrict ok).run es).isSome :=
  restrict_runFrom_iff Inv Q hstep hexact hstart hQ hrun

end Machine

/-! ## Machines whose steps may go wrong -/

variable {σ : Type u} {ε : Type v} {φ : Type w}

/-- The machine of a partial step that may fail; a failure is a final state. -/
def fallible (start : σ) (step : σ → ε → Option (Except φ σ)) : Machine (Except φ σ) ε where
  start := .ok start
  step
    | .ok s, e => step s e
    | .error _, _ => none

/-- A condition on the steps of such a machine. -/
def whereOk (ok : σ → ε → Bool) : Except φ σ → ε → Bool
  | .ok s, e => ok s e
  | .error _, _ => true

/-- A run of such a machine never fails, and keeps the invariant, when each step succeeds
and re-establishes it. -/
theorem fallible_run {start : σ} {step : σ → ε → Option (Except φ σ)} (Inv : σ → Prop)
    (hstart : Inv start)
    (hstep : ∀ s e r, Inv s → step s e = some r → ∃ s', r = .ok s' ∧ Inv s')
    {es : List ε} {r : Except φ σ} (hrun : (fallible start step).run es = some r) :
    ∃ s, r = .ok s ∧ Inv s := by
  refine Machine.invariant (fun r => ∃ s, r = .ok s ∧ Inv s) ⟨start, rfl, hstart⟩ ?_ hrun
  rintro r e r' ⟨s, rfl, hs⟩ hr
  exact hstep s e r' hs hr

/-- The runs of such a machine whose steps all meet `ok` never fail, and keep the
invariant, when each such step succeeds and re-establishes it. -/
theorem fallible_restrict_run {start : σ} {step : σ → ε → Option (Except φ σ)}
    {ok : σ → ε → Bool} (Inv : σ → Prop) (hstart : Inv start)
    (hstep : ∀ s e r, Inv s → ok s e = true → step s e = some r → ∃ s', r = .ok s' ∧ Inv s')
    {es : List ε} {r : Except φ σ}
    (hrun : ((fallible start step).restrict (whereOk ok)).run es = some r) :
    ∃ s, r = .ok s ∧ Inv s := by
  refine Machine.invariant (fun r => ∃ s, r = .ok s ∧ Inv s) ⟨start, rfl, hstart⟩ ?_ hrun
  rintro r e r' ⟨s, rfl, hs⟩ hr
  obtain ⟨hok, hr⟩ := Machine.restrict_step.mp hr
  exact hstep s e r' hs hok hr

/-- The exactness rule for such a machine; a failed step has to meet the condition. -/
theorem fallible_restrict_run_iff {start : σ} {step : σ → ε → Option (Except φ σ)}
    {ok : σ → ε → Bool} (Inv Q : σ → Prop) (hstart : Inv start) (hQ : Q start)
    (hstep : ∀ s e s', Inv s → step s e = some (.ok s') → Inv s')
    (hexact : ∀ s e s', Inv s → Q s → step s e = some (.ok s') → (Q s' ↔ ok s e = true))
    (hfail : ∀ s e f, Inv s → Q s → step s e = some (.error f) → ok s e = true)
    {es : List ε} (hrun : ((fallible start step).run es).isSome) :
    (∀ es' s, es' <+: es → (fallible start step).run es' = some (.ok s) → Q s) ↔
      (((fallible start step).restrict (whereOk ok)).run es).isSome := by
  rw [← Machine.restrict_run_iff (fun r : Except φ σ => ∀ s, r = .ok s → Inv s)
    (fun r : Except φ σ => ∀ s, r = .ok s → Q s) ?_ ?_ ?_ ?_ hrun]
  · constructor
    · rintro hall es' r hes' hr s rfl
      exact hall es' s hes' hr
    · intro hall es' s hes' hr
      exact hall es' _ hes' hr s rfl
  · rintro s hs
    cases hs
    exact hstart
  · rintro s hs
    cases hs
    exact hQ
  · rintro (f | s) e r hs - hr s' rfl
    · cases hr
    · exact hstep s e s' (hs s rfl) hr
  · rintro (f | s) e r hs hq hr
    · cases hr
    · cases r with
      | error f => simp [whereOk, hfail s e f (hs s rfl) (hq s rfl) hr]
      | ok s' =>
        rw [whereOk, ← hexact s e s' (hs s rfl) (hq s rfl) hr]
        constructor
        · intro hall
          exact hall s' rfl
        · rintro hq' s'' hs''
          cases hs''
          exact hq'

/-- The machine of a guard and a fallible action; a failure is a final state. -/
def checked (start : σ) (enabled : σ → ε → Bool) (act : σ → ε → Except φ σ) :
    Machine (Except φ σ) ε where
  start := .ok start
  step
    | .ok s, e => if enabled s e then some (act s e) else none
    | .error _, _ => none

/-- A step of a checked machine is an enabled action. -/
theorem checked_step {start s : σ} {enabled : σ → ε → Bool} {act : σ → ε → Except φ σ}
    {e : ε} {r : Except φ σ} (h : (checked start enabled act).step (.ok s) e = some r) :
    enabled s e = true ∧ act s e = r := by
  by_cases hen : enabled s e = true
  · simp only [checked, hen, if_true, Option.some.injEq] at h
    exact ⟨hen, h⟩
  · simp [checked, hen] at h

/-- A run of a checked machine that ends well begins with a step that does. -/
theorem checked_runFrom_cons {start s t : σ} {enabled : σ → ε → Bool} {act : σ → ε → Except φ σ}
    {e : ε} {es : List ε}
    (h : (checked start enabled act).runFrom (.ok s) (e :: es) = some (.ok t)) :
    ∃ s', enabled s e = true ∧ act s e = .ok s' ∧
      (checked start enabled act).runFrom (.ok s') es = some (.ok t) := by
  obtain ⟨r, hstep, hrest⟩ := Machine.runFrom_cons.mp h
  obtain ⟨hen, hact⟩ := checked_step hstep
  cases r with
  | ok s' => exact ⟨s', hen, hact, hrest⟩
  | error f => cases es <;> cases hrest

/-- A run may begin with an enabled action that succeeds. -/
theorem checked_runFrom_of_act {start s s' : σ} {enabled : σ → ε → Bool}
    {act : σ → ε → Except φ σ} {e : ε} {es : List ε} {r : Except φ σ} (hen : enabled s e = true)
    (hact : act s e = .ok s') (hrest : (checked start enabled act).runFrom (.ok s') es = some r) :
    (checked start enabled act).runFrom (.ok s) (e :: es) = some r :=
  Machine.runFrom_cons.mpr ⟨.ok s', by simp [checked, hen, hact], hrest⟩

/-- What every action that succeeds keeps, every run that ends well keeps. -/
theorem checked_runFrom_invariant {start : σ} {enabled : σ → ε → Bool} {act : σ → ε → Except φ σ}
    (Inv : σ → Prop) (hact : ∀ s e s', Inv s → enabled s e = true → act s e = .ok s' → Inv s')
    {es : List ε} {s t : σ} (hs : Inv s)
    (hrun : (checked start enabled act).runFrom (.ok s) es = some (.ok t)) : Inv t := by
  induction es generalizing s with
  | nil =>
    cases hrun
    exact hs
  | cons e es ih =>
    obtain ⟨s', hen, hs', hrest⟩ := checked_runFrom_cons hrun
    exact ih (hact s e s' hs hen hs') hrest

theorem checked_eq_fallible (start : σ) (enabled : σ → ε → Bool) (act : σ → ε → Except φ σ) :
    checked start enabled act =
      fallible start fun s e => if enabled s e then some (act s e) else none := rfl

/-- A run of a checked machine never fails, and keeps the invariant, when each
enabled action succeeds under the invariant and re-establishes it. -/
theorem checked_run {start : σ} {enabled : σ → ε → Bool} {act : σ → ε → Except φ σ}
    (Inv : σ → Prop) (hstart : Inv start)
    (hact : ∀ s e, Inv s → enabled s e = true → ∃ s', act s e = .ok s' ∧ Inv s')
    {es : List ε} {r : Except φ σ} (hrun : (checked start enabled act).run es = some r) :
    ∃ s, r = .ok s ∧ Inv s := by
  rw [checked_eq_fallible] at hrun
  refine fallible_run Inv hstart ?_ hrun
  intro s e r hs hr
  obtain ⟨hen, hr⟩ := Option.ite_none_right_eq_some.mp hr
  obtain ⟨s', hs', hinv⟩ := hact s e hs hen
  exact ⟨s', by rw [← Option.some.inj hr, hs'], hinv⟩

/-- The runs of a checked machine whose steps all meet `ok` never fail, and keep the
invariant, when each such action succeeds and re-establishes it. -/
theorem checked_restrict_run {start : σ} {enabled ok : σ → ε → Bool}
    {act : σ → ε → Except φ σ} (Inv : σ → Prop) (hstart : Inv start)
    (hact : ∀ s e, Inv s → enabled s e = true → ok s e = true → ∃ s', act s e = .ok s' ∧ Inv s')
    {es : List ε} {r : Except φ σ}
    (hrun : ((checked start enabled act).restrict (whereOk ok)).run es = some r) :
    ∃ s, r = .ok s ∧ Inv s := by
  rw [checked_eq_fallible] at hrun
  refine fallible_restrict_run Inv hstart ?_ hrun
  intro s e r hs hok hr
  obtain ⟨hen, hr⟩ := Option.ite_none_right_eq_some.mp hr
  obtain ⟨s', hs', hinv⟩ := hact s e hs hen hok
  exact ⟨s', by rw [← Option.some.inj hr, hs'], hinv⟩

/-- What every action that meets `ok` and succeeds keeps, every run of such actions that
ends well keeps. -/
theorem checked_restrict_runFrom_invariant {start : σ} {enabled ok : σ → ε → Bool}
    {act : σ → ε → Except φ σ} (Inv : σ → Prop)
    (hact : ∀ s e s', Inv s → enabled s e = true → ok s e = true → act s e = .ok s' → Inv s')
    {es : List ε} {s t : σ} (hs : Inv s)
    (hrun : ((checked start enabled act).restrict (whereOk ok)).runFrom (.ok s) es =
      some (.ok t)) : Inv t := by
  refine Machine.runFrom_invariant (fun r => ∀ s, r = .ok s → Inv s) ?_ ?_ hrun t rfl
  · rintro r e r' hr hstep s' rfl
    obtain ⟨hok, hstep⟩ := Machine.restrict_step.mp hstep
    cases r with
    | error f => cases hstep
    | ok s =>
      obtain ⟨hen, hact'⟩ := checked_step hstep
      exact hact s e s' (hr s rfl) hen hok hact'
  · rintro s' hs'
    cases hs'
    exact hs

end NetLib
