import Mathlib.Data.List.Basic
import Mathlib.Data.List.Infix

/-!
# The first occurrence of a pattern

What `strstr` and `std::string::find` look for, on lists over any type.

- `firstAt`: the offset of the first occurrence; it is none exactly when there is no
  occurrence (`firstAt_eq_none_iff`).
- `infix_snoc_append`: an occurrence that ends with a separator does not reach across one.
- `firstAt_append_cons`, `firstAt_append_self`: how the first occurrence is found in
  what has been put together from parts.
-/

namespace NetLib

universe u

variable {α : Type u} [BEq α] [LawfulBEq α]

/-- The offset of the first occurrence of `needle`. -/
def firstAt (needle : List α) : List α → Option Nat
  | [] => if needle.isEmpty then some 0 else none
  | x :: xs => if needle.isPrefixOf (x :: xs) then some 0 else (firstAt needle xs).map (· + 1)

omit [LawfulBEq α] in
theorem firstAt_cons (needle : List α) (x : α) (xs : List α) :
    firstAt needle (x :: xs) =
      if needle.isPrefixOf (x :: xs) then some 0 else (firstAt needle xs).map (· + 1) := rfl

/-- There is none exactly when there is no occurrence. -/
theorem firstAt_eq_none_iff {needle xs : List α} :
    firstAt needle xs = none ↔ ¬ needle <:+: xs := by
  induction xs with
  | nil =>
    rw [firstAt, List.infix_nil]
    cases needle <;> simp
  | cons x xs ih =>
    rw [firstAt_cons, List.infix_cons_iff, not_or, ← ih, ← List.isPrefixOf_iff_prefix]
    split <;> simp_all

/-- What stands in front of the first occurrence, and that none is in front of it. -/
theorem firstAt_eq_some {needle xs : List α} {i : Nat} (h : firstAt needle xs = some i) :
    ∃ before behind, xs = before ++ needle ++ behind ∧ before.length = i ∧
      ∀ before' behind', xs = before' ++ needle ++ behind' → i ≤ before'.length := by
  induction xs generalizing i with
  | nil =>
    cases needle with
    | nil =>
      cases h
      exact ⟨[], [], rfl, rfl, fun _ _ _ => Nat.zero_le _⟩
    | cons c cs => cases h
  | cons x xs ih =>
    rw [firstAt_cons] at h
    split at h
    · rename_i hmatch
      cases h
      obtain ⟨behind, hb⟩ := List.isPrefixOf_iff_prefix.mp hmatch
      exact ⟨[], behind, hb.symm, rfl, fun _ _ _ => Nat.zero_le _⟩
    · rename_i hno
      obtain ⟨j, hj, rfl⟩ := Option.map_eq_some_iff.mp h
      obtain ⟨before, behind, rfl, rfl, hfirst⟩ := ih hj
      refine ⟨x :: before, behind, rfl, rfl, fun before' behind' heq => ?_⟩
      cases before' with
      | nil =>
        refine absurd (List.isPrefixOf_iff_prefix.mpr ⟨behind', ?_⟩) hno
        rw [heq]
        rfl
      | cons y ys =>
        simp only [List.cons_append, List.cons.injEq] at heq
        exact Nat.succ_le_succ (hfirst ys behind' heq.2)

/-- An occurrence that has none before it is the first. -/
theorem firstAt_of_first {needle before behind : List α}
    (h : ∀ before' behind', before ++ needle ++ behind = before' ++ needle ++ behind' →
      before.length ≤ before'.length) :
    firstAt needle (before ++ needle ++ behind) = some before.length := by
  cases hfirst : firstAt needle (before ++ needle ++ behind) with
  | none => exact absurd ⟨before, behind, rfl⟩ (firstAt_eq_none_iff.mp hfirst)
  | some i =>
    obtain ⟨before', behind', heq, rfl, hleast⟩ := firstAt_eq_some hfirst
    exact congrArg some (Nat.le_antisymm (hleast before behind rfl) (h before' behind' heq))

/-- An occurrence that is first stays first, whatever is put behind. -/
theorem firstAt_append {needle xs : List α} {i : Nat} (more : List α)
    (h : firstAt needle xs = some i) : firstAt needle (xs ++ more) = some i := by
  induction xs generalizing i with
  | nil =>
    cases needle with
    | nil =>
      cases h
      cases more <;> rfl
    | cons c cs => cases h
  | cons x xs ih =>
    rw [firstAt_cons] at h
    rw [List.cons_append, firstAt_cons]
    split at h
    · rename_i hmatch
      cases h
      rw [if_pos]
      exact List.isPrefixOf_iff_prefix.mpr
        ((List.isPrefixOf_iff_prefix.mp hmatch).trans (List.prefix_append (x :: xs) more))
    · rename_i hno
      obtain ⟨j, hj, rfl⟩ := Option.map_eq_some_iff.mp h
      obtain ⟨before, behind, rfl, -, -⟩ := firstAt_eq_some hj
      rw [ih hj, if_neg]
      · rfl
      · -- the pattern is too short to reach behind the list here
        intro hmatch
        refine hno (List.isPrefixOf_iff_prefix.mpr ?_)
        refine List.prefix_of_prefix_length_le (List.isPrefixOf_iff_prefix.mp hmatch)
          (List.prefix_append _ more) ?_
        simp only [List.length_cons, List.length_append]
        omega

/-- A pattern whose first element does not come again in it is found where it was put,
when it does not occur in front of that place. -/
theorem firstAt_append_self {c : α} {cs a : List α} (b : List α) (hc : c ∉ cs)
    (ha : ¬ (c :: cs) <:+: a) : firstAt (c :: cs) (a ++ (c :: cs) ++ b) = some a.length := by
  induction a with
  | nil =>
    rw [List.nil_append, List.cons_append, firstAt_cons, if_pos]
    · rfl
    · exact List.isPrefixOf_iff_prefix.mpr (List.prefix_append (c :: cs) b)
  | cons x a ih =>
    rw [List.infix_cons_iff, not_or] at ha
    rw [List.cons_append, List.cons_append, firstAt_cons, ih ha.2, if_neg]
    · rfl
    · intro hmatch
      obtain ⟨t, ht⟩ := List.isPrefixOf_iff_prefix.mp hmatch
      rw [← List.cons_append, ← List.cons_append, List.append_assoc] at ht
      obtain ⟨l, hl, -⟩ | ⟨l, hl, hb⟩ := List.append_eq_append_iff.mp ht
      · exact ha.1 ⟨l, hl.symm⟩
      · cases l with
        | nil => exact ha.1 ⟨[], by rw [List.append_nil, hl, List.append_nil]⟩
        | cons y l =>
          -- the occurrence would start in front of the place and reach into it
          simp only [List.cons_append, List.cons.injEq] at hl hb
          rw [hl.2, ← hb.1] at hc
          exact hc (List.mem_append_right _ (List.mem_cons_self ..))

/-! ## Separators -/

section

omit [BEq α] [LawfulBEq α]

variable {a b : List α} {sep : α}

/-- A pattern that ends with the separator, and has no other, occurs on one of its sides,
where the left side takes the separator. -/
theorem infix_snoc_append {body : List α} (hsep : sep ∉ body) :
    body ++ [sep] <:+: a ++ sep :: b ↔ body ++ [sep] <:+: a ++ [sep] ∨ body ++ [sep] <:+: b := by
  have happ : a ++ sep :: b = (a ++ [sep]) ++ b := List.append_cons ..
  rw [happ, List.infix_append_iff_ne_nil]
  constructor
  · rintro (h | h | ⟨l₁, l₂, hl₁, hl₂, hl, ⟨t, ht⟩, -⟩)
    · exact .inl h
    · exact .inr h
    · -- its part on the left would end with the separator
      exfalso
      obtain ⟨m₁, y, rfl⟩ := (List.eq_nil_or_concat' l₁).resolve_left hl₁
      obtain ⟨m₂, z, rfl⟩ := (List.eq_nil_or_concat' l₂).resolve_left hl₂
      rw [← List.append_assoc] at ht hl
      obtain ⟨-, hy⟩ := List.append_inj' ht rfl
      obtain ⟨hbody, -⟩ := List.append_inj' hl rfl
      rw [hbody, List.cons.inj hy |>.1] at hsep
      simp at hsep
  · rintro (h | h)
    · exact .inl h
    · exact .inr (.inl h)

end

/-- A pattern without the separator is looked for line by line. -/
theorem firstAt_append_cons {needle a : List α} {sep : α} (b : List α) (hsep : sep ∉ needle)
    (hne : needle ≠ []) (ha : ¬ needle <:+: a) :
    firstAt needle (a ++ sep :: b) = (firstAt needle b).map (· + (a.length + 1)) := by
  induction a with
  | nil =>
    rw [List.nil_append, firstAt_cons, if_neg]
    · rfl
    · intro hmatch
      obtain ⟨t, ht⟩ := List.isPrefixOf_iff_prefix.mp hmatch
      cases needle with
      | nil => exact hne rfl
      | cons c cs =>
        cases ht
        exact hsep (List.mem_cons_self ..)
  | cons x a ih =>
    rw [List.infix_cons_iff, not_or] at ha
    rw [List.cons_append, firstAt_cons, ih ha.2, if_neg]
    · rw [Option.map_map, List.length_cons]
      rfl
    · intro hmatch
      obtain ⟨t, ht⟩ := List.isPrefixOf_iff_prefix.mp hmatch
      rw [← List.cons_append] at ht
      obtain ⟨l, hl, -⟩ | ⟨l, rfl, hb⟩ := List.append_eq_append_iff.mp ht
      · exact ha.1 ⟨l, hl.symm⟩
      · cases l with
        | nil => exact ha.1 ⟨[], by simp⟩
        | cons y l =>
          cases hb
          exact hsep (List.mem_append_right _ (List.mem_cons_self ..))

end NetLib
