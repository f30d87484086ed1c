import ZktlsNet.Lib.Machine

/-!
# Progress of a machine

What a machine *can* do from a state: some steps of a kind lead to another state. A
program whose threads cannot be told how to interleave makes progress if from every
state it could be in there is a way to go on that ends.

- `Machine.Reaches`: some run of steps of a kind.
- `Machine.reaches_done`: where every state that is not done can take some steps after
  which a measure is smaller, a state that is done is reached.
- `Machine.runFrom_length_le`: where every step lowers a measure, no run goes on for ever.
-/

namespace NetLib

namespace Machine

universe u v

variable {σ : Type u} {ε : Type v} {M : Machine σ ε} {ok : ε → Prop}

/-- `t` is reached from `s` by steps of a kind. -/
def Reaches (M : Machine σ ε) (ok : ε → Prop) (s t : σ) : Prop :=
  ∃ es, (∀ e ∈ es, ok e) ∧ M.runFrom s es = some t

namespace Reaches

theorem refl (s : σ) : M.Reaches ok s s := ⟨[], by simp, rfl⟩

theorem step {s t : σ} {e : ε} (he : ok e) (h : M.step s e = some t) : M.Reaches ok s t :=
  ⟨[e], by simpa using he, runFrom_cons.mpr ⟨t, h, rfl⟩⟩

theorem trans {s t u : σ} (h : M.Reaches ok s t) (h' : M.Reaches ok t u) : M.Reaches ok s u := by
  obtain ⟨es, hes, hrun⟩ := h
  obtain ⟨fs, hfs, hrun'⟩ := h'
  refine ⟨es ++ fs, ?_, by rw [runFrom_append hrun, hrun']⟩
  intro e he
  rcases List.mem_append.mp he with he | he
  · exact hes e he
  · exact hfs e he

/-- What every step of the kind keeps, is kept. -/
theorem keeps {Inv : σ → Prop} (hstep : ∀ s e s', Inv s → ok e → M.step s e = some s' → Inv s')
    {s t : σ} (h : M.Reaches ok s t) (hs : Inv s) : Inv t := by
  obtain ⟨es, hes, hrun⟩ := h
  induction es generalizing s with
  | nil =>
    cases hrun
    exact hs
  | cons e es ih =>
    obtain ⟨s', hs', hrest⟩ := runFrom_cons.mp hrun
    exact ih (hstep s e s' hs (hes e (List.mem_cons_self ..)) hs')
      (fun e he => hes e (List.mem_cons_of_mem _ he)) hrest

end Reaches

/-- **Progress rule**: an invariant that the steps of the kind keep, and a measure that can
be made smaller from every state that is not done. -/
theorem reaches_done {Inv Done : σ → Prop} (measure : σ → Nat)
    (hinv : ∀ s e s', Inv s → ok e → M.step s e = some s' → Inv s')
    (hnext : ∀ s, Inv s → ¬ Done s → ∃ t, M.Reaches ok s t ∧ measure t < measure s)
    {s : σ} (hs : Inv s) : ∃ t, M.Reaches ok s t ∧ Inv t ∧ Done t := by
  obtain ⟨bound, hbound⟩ : ∃ n, measure s ≤ n := ⟨_, Nat.le_refl _⟩
  induction bound generalizing s with
  | zero =>
    by_cases hdone : Done s
    · exact ⟨s, .refl s, hs, hdone⟩
    · obtain ⟨t, -, hlt⟩ := hnext s hs hdone
      exact absurd hlt (Nat.not_lt_of_le (Nat.le_trans hbound (Nat.zero_le _)))
  | succ n ih =>
    by_cases hdone : Done s
    · exact ⟨s, .refl s, hs, hdone⟩
    · obtain ⟨t, hreach, hlt⟩ := hnext s hs hdone
      obtain ⟨u, hreach', hu, hdone'⟩ := ih (hreach.keeps hinv hs)
        (Nat.le_of_lt_succ (Nat.lt_of_lt_of_le hlt hbound))
      exact ⟨u, hreach.trans hreach', hu, hdone'⟩

/-- **Termination rule**: steps that all lower a measure are at most so many. -/
theorem runFrom_length_le {Inv : σ → Prop} (measure : σ → Nat)
    (hinv : ∀ s e s', Inv s → ok e → M.step s e = some s' → Inv s')
    (hlt : ∀ s e s', Inv s → ok e → M.step s e = some s' → measure s' < measure s)
    {s t : σ} {es : List ε} (hs : Inv s) (hes : ∀ e ∈ es, ok e)
    (hrun : M.runFrom s es = some t) : es.length + measure t ≤ measure s := by
  induction es generalizing s with
  | nil =>
    cases hrun
    simp
  | cons e es ih =>
    obtain ⟨s', hs', hrest⟩ := runFrom_cons.mp hrun
    have he : ok e := hes e (List.mem_cons_self ..)
    have hle := ih (hinv s e s' hs he hs') (fun e he => hes e (List.mem_cons_of_mem _ he)) hrest
    have hless := hlt s e s' hs he hs'
    rw [List.length_cons]
    omega

end Machine

end NetLib
