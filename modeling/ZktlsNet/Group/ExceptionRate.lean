import Mathlib.Algebra.Group.Nat.Defs
import Mathlib.Data.List.GetD
import ZktlsNet.Lib.Machine
import ZktlsNet.Ws.Failure

/-!
# The rate of exceptions (`io_manager.cpp:46-88`, `io_manager.cpp:173-200`)

The server's loop counts its exceptions, and gives up when there were too many of them in
too short a time. `check_exception_frequency` subtracts the time of the call from that of
the 1000th most recent exception, where the comparison with the duration is meant for the
opposite difference; and it drops old entries on the calls only that it answers with false,
1000 each.

- `checkExceptionFrequency_eq`: what a call returns.
- `rateMachine_iff`: in which runs all answers are right and the entries stay few.
- `rateMachine_run_burst`: exceptions at one time are counted as they should be.
- `rateMachine_wrong`: 1000 exceptions in two seconds are not taken for too many.
-/

namespace ZktlsNet

open NetLib

/-- `EXCEPTION_COUNT`. -/
def exceptionCount : Nat := 1000

/-- `EXCEPTION_DURATION`. -/
def exceptionDuration : Nat := 60

/-- `check_exception_frequency`, at a time: what it returns, and `exception_timestamp`. The
number of entries is kept in a `uint32_t`. -/
def checkExceptionFrequency (exceptionTimestamp : List UInt32) (currentTime : UInt32) :
    Res (Bool × List UInt32) :=
  let exceptionTimestamp := exceptionTimestamp ++ [currentTime]
  let exceptionSize := exceptionTimestamp.length % 2 ^ 32
  if exceptionCount ≤ exceptionSize then
    match exceptionTimestamp[exceptionSize - exceptionCount]? with
    | none => .error (.fault .outOfBounds)
    | some t =>
      if (t - currentTime).toNat < exceptionDuration then .ok (true, exceptionTimestamp)
      else if exceptionCount * 2 ≤ exceptionSize then
        .ok (false, exceptionTimestamp.drop exceptionCount)
      else .ok (false, exceptionTimestamp)
  else .ok (false, exceptionTimestamp)

/-! ## Runs -/

/-- The entries, the times of all exceptions so far, and the last answer. -/
structure RateRun where
  exceptionTimestamp : List UInt32
  history : List UInt32
  answer : Option Bool
  deriving DecidableEq, Repr

/-- The last `exceptionCount` exceptions, if there were so many, have happened in less than
`exceptionDuration` seconds. -/
def TooMuch (history : List UInt32) : Prop :=
  exceptionCount ≤ history.length ∧
    (history.getLastD 0).toNat - (history.getD (history.length - exceptionCount) 0).toNat <
      exceptionDuration

namespace RateRun

/-- A new `IOManager`. -/
def init : RateRun := ⟨[], [], none⟩

/-- A call; time does not run backwards. -/
def step (s : RateRun) (now : UInt32) : Option (Res RateRun) :=
  if s.history.all (· ≤ now) then
    some do
      let (answer, exceptionTimestamp) ← checkExceptionFrequency s.exceptionTimestamp now
      return ⟨exceptionTimestamp, s.history ++ [now], some answer⟩
  else none

/-- The last answer was right, and after an answer of false there are not more than twice
the entries that the answers need. -/
def Right (s : RateRun) : Prop :=
  ∀ answer, s.answer = some answer →
    (answer = true ↔ TooMuch s.history) ∧
      (answer = false → s.exceptionTimestamp.length ≤ 2 * exceptionCount)

/-- The time from entry `i` to the call. -/
def gap (s : RateRun) (now : UInt32) (i : Nat) : Nat :=
  now.toNat - ((s.exceptionTimestamp ++ [now]).getD i now).toNat

/-- A call that is answered as it should be, from the number of entries and their times. With
this one there are fewer than `exceptionCount`; or the one so far back has the time of this
call; or it is far enough away, but not within a minute of the range of the clock, and the
entries have not become too many for dropping `exceptionCount` of them. (The last case is
that of more entries than a `uint32_t` can count.) -/
def Meets (s : RateRun) (now : UInt32) : Prop :=
  let n := s.exceptionTimestamp.length + 1
  n < exceptionCount ∨
    (n < 2 ^ 32 ∧
      (s.gap now (n - exceptionCount) = 0 ∨
        exceptionDuration ≤ s.gap now (n - exceptionCount) ∧
          s.gap now (n - exceptionCount) ≤ 2 ^ 32 - exceptionDuration ∧
          n ≤ 3 * exceptionCount)) ∨
    (2 ^ 32 ≤ n ∧ exceptionCount ≤ n % 2 ^ 32 ∧
      s.gap now (n - exceptionCount) < exceptionDuration ∧
      (s.gap now (n % 2 ^ 32 - exceptionCount) = 0 ∨
        2 ^ 32 - exceptionDuration < s.gap now (n % 2 ^ 32 - exceptionCount)))

instance (s : RateRun) (now : UInt32) : Decidable (s.Meets now) :=
  inferInstanceAs (Decidable (_ ∨ (_ ∧ (_ ∨ _ ∧ _ ∧ _)) ∨ (_ ∧ _ ∧ _ ∧ (_ ∨ _))))

end RateRun

namespace RateRun

/-! ## One call -/

/-- The subtraction wraps around unless the times are the same. -/
theorem toNat_sub_lt_iff {t now : UInt32} (h : t ≤ now) :
    (t - now).toNat < exceptionDuration ↔
      now.toNat - t.toNat = 0 ∨ 2 ^ 32 - exceptionDuration < now.toNat - t.toNat := by
  have hle := UInt32.le_iff_toNat_le.mp h
  have hnow := now.toNat_lt
  rw [UInt32.toNat_sub, exceptionDuration]
  omega

/-- **What a call returns**, and the entries after it. -/
theorem checkExceptionFrequency_eq {s : RateRun} {now : UInt32}
    (hle : ∀ t ∈ s.exceptionTimestamp, t ≤ now) :
    checkExceptionFrequency s.exceptionTimestamp now =
      let m := (s.exceptionTimestamp.length + 1) % 2 ^ 32
      .ok (if exceptionCount ≤ m ∧ (s.gap now (m - exceptionCount) = 0 ∨
            2 ^ 32 - exceptionDuration < s.gap now (m - exceptionCount)) then
          (true, s.exceptionTimestamp ++ [now])
        else (false, if exceptionCount * 2 ≤ m then
            (s.exceptionTimestamp ++ [now]).drop exceptionCount
          else s.exceptionTimestamp ++ [now])) := by
  have hlen : (s.exceptionTimestamp ++ [now]).length = s.exceptionTimestamp.length + 1 := by simp
  simp only [checkExceptionFrequency, hlen]
  generalize hm : (s.exceptionTimestamp.length + 1) % 2 ^ 32 = m
  have hmn : m ≤ s.exceptionTimestamp.length + 1 := hm ▸ Nat.mod_le _ _
  by_cases hcount : exceptionCount ≤ m
  · have hcount' : 1000 ≤ m := hcount
    have hlt : m - exceptionCount < (s.exceptionTimestamp ++ [now]).length := by
      rw [hlen, exceptionCount]
      omega
    have hread := List.getElem?_eq_getElem hlt
    have hgap : s.gap now (m - exceptionCount) =
        now.toNat - ((s.exceptionTimestamp ++ [now])[m - exceptionCount]).toNat := by
      rw [gap, List.getD_eq_getElem?_getD, hread, Option.getD_some]
    have hold : (s.exceptionTimestamp ++ [now])[m - exceptionCount] ≤ now := by
      rcases List.mem_append.mp (List.getElem_mem hlt) with h | h
      · exact hle _ h
      · rw [List.mem_singleton.mp h]
        exact UInt32.le_refl now
    simp only [hcount, if_true, true_and, hread, toNat_sub_lt_iff hold, ← hgap]
    split
    · rfl
    · split <;> rfl
  · have hfew : ¬ exceptionCount * 2 ≤ m := by
      rw [exceptionCount] at hcount ⊢
      omega
    simp only [hcount, if_false, false_and, hfew]

/-! ## The invariant -/

/-- The entries are the end of the history, and as many of it as an answer needs. -/
structure Inv (s : RateRun) : Prop where
  suffix : s.exceptionTimestamp <:+ s.history
  enough : min s.history.length exceptionCount ≤ s.exceptionTimestamp.length

theorem inv_init : init.Inv where
  suffix := List.suffix_rfl
  enough := Nat.zero_le _

/-- **Dropping entries changes no answer**: with what is left one sees as far back. -/
theorem Inv.tooMuch_iff {s : RateRun} (h : s.Inv) (now : UInt32) :
    TooMuch (s.history ++ [now]) ↔
      exceptionCount ≤ s.exceptionTimestamp.length + 1 ∧
        s.gap now (s.exceptionTimestamp.length + 1 - exceptionCount) < exceptionDuration := by
  obtain ⟨before, hbefore⟩ := h.suffix
  have henough := h.enough
  have hlen : s.history.length = before.length + s.exceptionTimestamp.length := by
    rw [← hbefore, List.length_append]
  rw [TooMuch, List.getLastD_concat, List.length_append, List.length_singleton]
  by_cases hcount : exceptionCount ≤ s.exceptionTimestamp.length + 1
  · have hcount' : exceptionCount ≤ s.history.length + 1 := by omega
    have hindex : s.history.length + 1 - exceptionCount =
        before.length + (s.exceptionTimestamp.length + 1 - exceptionCount) := by omega
    have hread : (s.history ++ [now]).getD (s.history.length + 1 - exceptionCount) 0 =
        (s.exceptionTimestamp ++ [now]).getD (s.exceptionTimestamp.length + 1 - exceptionCount)
          now := by
      have hlt : s.exceptionTimestamp.length + 1 - exceptionCount <
          (s.exceptionTimestamp ++ [now]).length := by
        rw [List.length_append, List.length_singleton, exceptionCount]
        omega
      rw [hindex, ← hbefore, List.append_assoc, List.getD_eq_getElem?_getD,
        List.getElem?_append_right (Nat.le_add_right _ _), Nat.add_sub_cancel_left,
        List.getD_eq_getElem?_getD, List.getElem?_eq_getElem hlt, Option.getD_some,
        Option.getD_some]
    rw [hread]
    simp only [hcount, hcount', true_and, gap]
  · have hcount' : ¬ exceptionCount ≤ s.history.length + 1 := by omega
    simp only [hcount, hcount', false_and]

/-- Adding an entry keeps the invariant. -/
theorem Inv.push {s : RateRun} (h : s.Inv) (now : UInt32) (answer : Option Bool) :
    Inv ⟨s.exceptionTimestamp ++ [now], s.history ++ [now], answer⟩ where
  suffix := by
    obtain ⟨before, hbefore⟩ := h.suffix
    exact ⟨before, by rw [← List.append_assoc, hbefore]⟩
  enough := by
    have henough := h.enough
    simp only [List.length_append, List.length_singleton]
    omega

/-- Dropping entries keeps the invariant, if there are enough. -/
theorem Inv.truncate {s : RateRun} (h : s.Inv)
    (hmany : exceptionCount * 2 ≤ s.exceptionTimestamp.length) :
    Inv { s with exceptionTimestamp := s.exceptionTimestamp.drop exceptionCount } where
  suffix := (List.drop_suffix _ _).trans h.suffix
  enough := by
    simp only [List.length_drop]
    omega

/-- An answer of true is right if the exceptions are too many. -/
theorem right_true {entries history : List UInt32} :
    Right ⟨entries, history, some true⟩ ↔ TooMuch history := by
  simp [Right]

/-- An answer of false is right if they are not, and the entries have stayed few. -/
theorem right_false {entries history : List UInt32} :
    Right ⟨entries, history, some false⟩ ↔
      ¬ TooMuch history ∧ entries.length ≤ 2 * exceptionCount := by
  simp [Right]

/-- A call is a call of `check_exception_frequency`, and time has not run backwards. -/
theorem step_cases {s : RateRun} {now : UInt32} {r : Res RateRun} (h : s.step now = some r) :
    (∀ t ∈ s.history, t ≤ now) ∧
      r = (do
        let (answer, exceptionTimestamp) ← checkExceptionFrequency s.exceptionTimestamp now
        return ⟨exceptionTimestamp, s.history ++ [now], some answer⟩) := by
  obtain ⟨hnow, hr⟩ := Option.ite_none_right_eq_some.mp h
  exact ⟨by simpa using hnow, (Option.some.inj hr).symm⟩

/-- **Step lemma**: a call does not fail, keeps the invariant, and is answered as it should
be exactly if it meets the condition. -/
theorem Inv.step {s : RateRun} (h : s.Inv) {now : UInt32} {r : Res RateRun}
    (hstep : s.step now = some r) : ∃ s', r = .ok s' ∧ s'.Inv ∧ (s'.Right ↔ s.Meets now) := by
  obtain ⟨hnow, rfl⟩ := step_cases hstep
  have hle : ∀ t ∈ s.exceptionTimestamp, t ≤ now := fun t ht => hnow t (h.suffix.subset ht)
  have hlen : (s.exceptionTimestamp ++ [now]).length = s.exceptionTimestamp.length + 1 := by simp
  have hmod : s.exceptionTimestamp.length + 1 < 2 ^ 32 →
      (s.exceptionTimestamp.length + 1) % 2 ^ 32 = s.exceptionTimestamp.length + 1 :=
    Nat.mod_eq_of_lt
  have hmodle := Nat.mod_le (s.exceptionTimestamp.length + 1) (2 ^ 32)
  have hmodlt := Nat.mod_lt (s.exceptionTimestamp.length + 1) (Nat.two_pow_pos 32)
  have hcall := checkExceptionFrequency_eq hle
  simp only at hcall
  rw [hcall, Meets]
  generalize hm : (s.exceptionTimestamp.length + 1) % 2 ^ 32 = m at *
  have hgap : s.exceptionTimestamp.length + 1 < 2 ^ 32 → s.gap now (m - exceptionCount) =
      s.gap now (s.exceptionTimestamp.length + 1 - exceptionCount) := fun hn => by rw [hmod hn]
  -- the time to the entry that is read, and to the one that should be
  generalize hseen : s.gap now (m - exceptionCount) = seen at *
  generalize hdue : s.gap now (s.exceptionTimestamp.length + 1 - exceptionCount) = due at *
  by_cases htrue : exceptionCount ≤ m ∧
      (seen = 0 ∨ 2 ^ 32 - exceptionDuration < seen)
  · -- the difference of the times is small: the answer is true
    rw [if_pos htrue]
    refine ⟨_, rfl, h.push now _, right_true.trans ?_⟩
    rw [h.tooMuch_iff, hdue]
    simp only [exceptionCount, exceptionDuration] at *
    omega
  · rw [if_neg htrue]
    by_cases hmany : exceptionCount * 2 ≤ m
    · -- entries are dropped
      rw [if_pos hmany]
      refine ⟨_, rfl, (h.push now (some false)).truncate ?_, right_false.trans ?_⟩
      · simp only [hlen]
        omega
      · rw [h.tooMuch_iff, List.length_drop, hlen, hdue]
        simp only [exceptionCount, exceptionDuration] at *
        omega
    · rw [if_neg hmany]
      refine ⟨_, rfl, h.push now _, right_false.trans ?_⟩
      rw [h.tooMuch_iff, hlen, hdue]
      simp only [exceptionCount, exceptionDuration] at *
      omega

/-! ## A burst of exceptions -/

/-- The time from any entry to the call, when they all have the time of the call. -/
theorem gap_burst (k : Nat) (now : UInt32) (answer : Option Bool) (i : Nat) :
    gap ⟨.replicate k now, .replicate k now, answer⟩ now i = 0 := by
  rw [gap, ← List.replicate_succ', List.getD_eq_getElem?_getD,
    List.getElem?_getD_replicate_default_eq, Nat.sub_self]

/-- One more exception at the same time is noted. The answer to it is true from the
`exceptionCount`-th on. -/
theorem step_burst {k : Nat} (hk : k + 1 < 2 ^ 32) (now : UInt32) (answer : Option Bool) :
    step ⟨.replicate k now, .replicate k now, answer⟩ now =
      some (.ok ⟨.replicate (k + 1) now, .replicate (k + 1) now,
        some (decide (exceptionCount ≤ k + 1))⟩) := by
  have hle : ∀ t ∈ List.replicate k now, t ≤ now := fun t ht => by
    rw [List.eq_of_mem_replicate ht]
    exact UInt32.le_refl now
  have hcall := checkExceptionFrequency_eq (s := ⟨.replicate k now, .replicate k now, answer⟩) hle
  simp only [List.length_replicate, Nat.mod_eq_of_lt hk, gap_burst, true_or, and_true,
    ← List.replicate_succ'] at hcall
  rw [step, if_pos (by simp), hcall, List.replicate_succ']
  by_cases hcount : exceptionCount ≤ k + 1
  · rw [if_pos hcount, decide_eq_true hcount]
    rfl
  · have hfew : ¬ exceptionCount * 2 ≤ k + 1 := by omega
    rw [if_neg hcount, if_neg hfew, decide_eq_false hcount]
    rfl

/-- It is answered as it should be. -/
theorem meets_burst {k : Nat} (hk : k + 1 < 2 ^ 32) (now : UInt32) (answer : Option Bool) :
    Meets ⟨.replicate k now, .replicate k now, answer⟩ now := by
  rw [Meets, List.length_replicate]
  exact .inr (.inl ⟨hk, .inl (gap_burst k now answer _)⟩)

/-- The next exception, within a minute but not at the same time, makes them too many, and
the answer to it is wrong. -/
theorem not_meets_burst {k : Nat} (hk : k + 1 = exceptionCount) (answer : Option Bool)
    {t now : UInt32} (hlt : t < now) (hnear : now.toNat - t.toNat < exceptionDuration) :
    ¬ Meets ⟨.replicate k t, .replicate k t, answer⟩ now := by
  have hlt := UInt32.lt_iff_toNat_lt.mp hlt
  have hfirst : 0 < (List.replicate k t).length := by
    rw [List.length_replicate]
    have : exceptionCount = 1000 := rfl
    omega
  have hgap : gap ⟨.replicate k t, .replicate k t, answer⟩ now 0 = now.toNat - t.toNat := by
    rw [gap, List.getD_eq_getElem?_getD, List.getElem?_append_left hfirst,
      List.getElem?_eq_getElem hfirst, List.getElem_replicate, Option.getD_some]
  rw [Meets, List.length_replicate, hk, Nat.sub_self, hgap]
  simp only [exceptionCount, exceptionDuration] at *
  omega

end RateRun

/-- The runs of calls, from a new `IOManager`. -/
def rateMachine : Machine (Res RateRun) UInt32 := fallible .init RateRun.step

/-- Exceptions at one time are all noted, and answered as they should be, as long as a
`uint32_t` can count them. -/
theorem rateMachine_run_burst {k : Nat} (hk : k < 2 ^ 32) (now : UInt32) :
    ∃ answer, (0 < k → answer = some (decide (exceptionCount ≤ k))) ∧
      (rateMachine.restrict (whereOk fun s now => decide (s.Meets now))).run
        (List.replicate k now) = some (.ok ⟨.replicate k now, .replicate k now, answer⟩) := by
  induction k with
  | zero => exact ⟨none, nofun, rfl⟩
  | succ k ih =>
    obtain ⟨answer, -, hrun⟩ := ih (Nat.lt_of_succ_lt hk)
    refine ⟨some (decide (exceptionCount ≤ k + 1)), fun _ => rfl, ?_⟩
    have hstep : (rateMachine.restrict (whereOk fun s now => decide (s.Meets now))).step
        (.ok ⟨.replicate k now, .replicate k now, answer⟩) now = some _ :=
      Machine.restrict_step.mpr
        ⟨decide_eq_true (RateRun.meets_burst hk now answer), RateRun.step_burst hk now answer⟩
    have hlast : (rateMachine.restrict (whereOk fun s now => decide (s.Meets now))).run
        (List.replicate k now ++ [now]) = some _ :=
      (Machine.runFrom_append hrun).trans (Machine.runFrom_cons.mpr ⟨_, hstep, rfl⟩)
    rwa [← List.replicate_succ'] at hlast

open RateRun in
/-- **The answers of a run.** No call reads outside the entries; and after every call the
answer is right and the entries have stayed few if and only if each call meets the
condition. -/
theorem rateMachine_iff {es : List UInt32} (hrun : (rateMachine.run es).isSome) :
    (∃ s, rateMachine.run es = some (.ok s)) ∧
      ((∀ es' s, es' <+: es → rateMachine.run es' = some (.ok s) → s.Right) ↔
        ((rateMachine.restrict (whereOk fun s now => decide (s.Meets now))).run es).isSome) := by
  have hright : init.Right := fun answer h => nomatch h
  constructor
  · obtain ⟨r, hr⟩ := Option.isSome_iff_exists.mp hrun
    obtain ⟨s, rfl, -⟩ := fallible_run Inv inv_init
      (fun s now r h hstep => by
        obtain ⟨s', hok, h', -⟩ := h.step hstep
        exact ⟨s', hok, h'⟩) hr
    exact ⟨s, hr⟩
  · refine fallible_restrict_run_iff Inv Right inv_init hright ?_ ?_ ?_ hrun
    · intro s now s' h hstep
      obtain ⟨s'', hok, h', -⟩ := h.step hstep
      cases hok
      exact h'
    · intro s now s' h _ hstep
      obtain ⟨s'', hok, -, hiff⟩ := h.step hstep
      cases hok
      rw [hiff, decide_eq_true_iff]
    · intro s now f h _ hstep
      obtain ⟨s', hok, -⟩ := h.step hstep
      cases hok

/-- A thousand exceptions in one second are too many, and are answered so. -/
theorem rateMachine_iff_thousand :
    ∃ s, rateMachine.run (List.replicate exceptionCount 5) = some (.ok s) ∧
      s.Right ∧ s.answer = some true := by
  obtain ⟨answer, htrue, hmeets⟩ := rateMachine_run_burst (by decide : exceptionCount < 2 ^ 32) 5
  have hrun := Machine.run_of_restrict hmeets
  have hright := (rateMachine_iff (Option.isSome_of_eq_some hrun)).2.mpr
    (Option.isSome_of_eq_some hmeets)
  exact ⟨_, hrun, hright _ _ (List.prefix_refl _) hrun, htrue (by decide)⟩

/-- A thousand exceptions, 999 in one second and one in the next, are too many: the answer
is false. -/
theorem rateMachine_wrong :
    ¬ ∀ es s, rateMachine.run es = some (.ok s) → s.Right := by
  intro hall
  obtain ⟨k, hk⟩ : ∃ k, k + 1 = exceptionCount := ⟨999, rfl⟩
  have hlt : k < 2 ^ 32 := by
    rw [exceptionCount] at hk
    omega
  obtain ⟨answer, -, hmeets⟩ := rateMachine_run_burst hlt 0
  have hburst := Machine.run_of_restrict hmeets
  clear hmeets
  generalize hs : RateRun.mk (.replicate k 0) (.replicate k 0) answer = s at hburst
  have hinv : s.Inv := by
    subst hs
    exact ⟨List.suffix_rfl, Nat.min_le_left _ _⟩
  have hlate : s.history.all (· ≤ 1) = true := by
    subst hs
    simp
  obtain ⟨s', hcall, -, hiff⟩ := hinv.step (if_pos hlate)
  have hstep : rateMachine.step (.ok s) 1 = some (.ok s') :=
    (if_pos hlate).trans (congrArg some hcall)
  have hrun : rateMachine.run (List.replicate k 0 ++ [1]) = some (.ok s') := by
    rw [Machine.run, Machine.runFrom_append hburst, Machine.runFrom, hstep, Option.bind_some,
      Machine.runFrom]
  subst hs
  exact RateRun.not_meets_burst hk answer (by decide) (by decide) (hiff.mp (hall _ s' hrun))

end ZktlsNet
