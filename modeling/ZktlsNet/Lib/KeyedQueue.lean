import Mathlib.Data.List.Sort
import Mathlib.Data.List.Perm.Basic

/-!
# Queues by key

A multimap that gives the elements of a key back in the order in which they were put in
can be kept as one list: put behind every element whose key is not larger, take the first
with the key. The list is then ordered by key, so that a look-up may stop at the first
larger key.

What the structure stands for is the list of its elements in the order in which they were
put in (`SameQueues`).

- `ordered_insert`, `Ordered.eraseP`: the order is kept.
- `Ordered.takeFirst_eq`: stopping early makes no difference.
- `sameQueues_insert`, `SameQueues.find?_eq`, `SameQueues.eraseP`: putting in and taking
  out, in terms of the elements in order of their arrival.
-/

namespace NetLib

universe u v

namespace KeyedQueue

variable {α : Type u} {κ : Type v} [LinearOrder κ] (key : α → κ)

/-- Put an element behind all whose key is not larger. -/
abbrev insert (a : α) (xs : List α) : List α :=
  xs.orderedInsert (fun x y => key x < key y) a

/-- Take the first element with a key, with no look behind a larger key. -/
def takeFirst (k : κ) : List α → Option α × List α
  | [] => (none, [])
  | x :: xs =>
    if key x = k then (some x, xs)
    else if k < key x then (none, x :: xs)
    else ((takeFirst k xs).1, x :: (takeFirst k xs).2)

/-- The list is ordered by key. -/
def Ordered (xs : List α) : Prop := xs.Pairwise fun x y => key x ≤ key y

/-- Two lists have the same elements of each key, in the same order. -/
def SameQueues (xs ys : List α) : Prop :=
  ∀ k, xs.filter (fun x => decide (key x = k)) = ys.filter (fun x => decide (key x = k))

variable {key}

theorem ordered_cons {x : α} {xs : List α} :
    Ordered key (x :: xs) ↔ (∀ y ∈ xs, key x ≤ key y) ∧ Ordered key xs := List.pairwise_cons

theorem insert_cons_of_lt (key : α → κ) {a x : α} (h : key a < key x) (xs : List α) :
    insert key a (x :: xs) = a :: x :: xs := if_pos h

theorem insert_cons_of_not_lt (key : α → κ) {a x : α} (h : ¬ key a < key x) (xs : List α) :
    insert key a (x :: xs) = x :: insert key a xs := if_neg h

theorem ordered_insert {a : α} {xs : List α} (h : Ordered key xs) :
    Ordered key (insert key a xs) := by
  induction xs with
  | nil => exact List.pairwise_singleton _ _
  | cons x xs ih =>
    obtain ⟨hx, hxs⟩ := ordered_cons.mp h
    by_cases hlt : key a < key x
    · rw [insert_cons_of_lt key hlt]
      refine ordered_cons.mpr ⟨fun y hy => ?_, h⟩
      rcases List.mem_cons.mp hy with rfl | hy
      · exact hlt.le
      · exact hlt.le.trans (hx y hy)
    · rw [insert_cons_of_not_lt key hlt]
      refine ordered_cons.mpr ⟨fun y hy => ?_, ih hxs⟩
      rcases (List.mem_orderedInsert _).mp hy with rfl | hy
      · exact not_lt.mp hlt
      · exact hx y hy

theorem Ordered.eraseP {xs : List α} (h : Ordered key xs) (p : α → Bool) :
    Ordered key (xs.eraseP p) := List.Pairwise.sublist List.eraseP_sublist h

/-- **Stopping early makes no difference.** -/
theorem Ordered.takeFirst_eq {xs : List α} (h : Ordered key xs) (k : κ) :
    takeFirst key k xs =
      (xs.find? fun x => decide (key x = k), xs.eraseP fun x => decide (key x = k)) := by
  induction xs with
  | nil => rfl
  | cons x xs ih =>
    obtain ⟨hx, hxs⟩ := ordered_cons.mp h
    rw [takeFirst]
    by_cases heq : key x = k
    · simp [heq]
    · by_cases hlt : k < key x
      · have hnone : ∀ y ∈ x :: xs, ¬ decide (key y = k) = true := by
          intro y hy
          rw [decide_eq_true_eq]
          rintro rfl
          rcases List.mem_cons.mp hy with rfl | hy
          · exact heq rfl
          · exact absurd (hx y hy) (not_le.mpr hlt)
        rw [if_neg heq, if_pos hlt, List.find?_eq_none.mpr hnone, List.eraseP_of_forall_not hnone]
      · rw [if_neg heq, if_neg hlt, ih hxs]
        simp [heq]

/-- What is found, and what is left when it has been taken out. -/
theorem find?_split {p : α → Bool} {xs : List α} {c : α} (h : xs.find? p = some c) :
    p c = true ∧ ∃ before after, xs = before ++ c :: after ∧ (∀ x ∈ before, p x = false) ∧
      xs.eraseP p = before ++ after := by
  obtain ⟨hc, before, after, rfl, hbefore⟩ := List.find?_eq_some_iff_append.mp h
  have hnone : ∀ x ∈ before, p x = false := fun x hx => by simpa using hbefore x hx
  refine ⟨hc, before, after, rfl, hnone, ?_⟩
  rw [List.eraseP_append_right _ fun x hx => by simp [hnone x hx], List.eraseP_cons_of_pos hc]

/-! ## Arrival order -/

theorem SameQueues.refl (xs : List α) : SameQueues key xs xs := fun _ => rfl

/-- An element that is put in comes behind those of its key. -/
theorem filter_insert {a : α} {xs : List α} (h : Ordered key xs) (k : κ) :
    (insert key a xs).filter (fun x => decide (key x = k)) =
      (xs ++ [a]).filter (fun x => decide (key x = k)) := by
  induction xs with
  | nil => rfl
  | cons x xs ih =>
    obtain ⟨hx, hxs⟩ := ordered_cons.mp h
    by_cases hlt : key a < key x
    · rw [insert_cons_of_lt key hlt]
      by_cases hk : key a = k
      · -- all that follow have larger keys
        have hnone : (x :: xs).filter (fun y => decide (key y = k)) = [] := by
          rw [List.filter_eq_nil_iff]
          intro y hy
          rw [decide_eq_true_eq]
          rintro rfl
          rcases List.mem_cons.mp hy with rfl | hy
          · exact absurd hk hlt.ne
          · exact absurd (hk ▸ hx y hy) (not_le.mpr hlt)
        rw [List.filter_append, hnone, List.nil_append, List.filter_cons, hnone,
          if_pos (by simp [hk])]
        simp [hk]
      · simp [List.filter_cons, List.filter_append, hk]
    · rw [insert_cons_of_not_lt key hlt, List.filter_cons, List.cons_append,
        List.filter_cons, ← ih hxs]

/-- **Putting in.** -/
theorem sameQueues_insert {a : α} {xs ys : List α} (h : Ordered key xs)
    (hsame : SameQueues key xs ys) : SameQueues key (insert key a xs) (ys ++ [a]) := by
  intro k
  rw [filter_insert h, List.filter_append, List.filter_append, hsame k]

/-- **Looking up** finds the first that was put in. -/
theorem SameQueues.find?_eq {xs ys : List α} (h : SameQueues key xs ys) (k : κ) :
    (xs.find? fun x => decide (key x = k)) = ys.find? fun x => decide (key x = k) := by
  rw [← List.head?_filter, ← List.head?_filter, h k]

/-- Taking out the first that meets a condition, as seen by the ones that do. -/
theorem filter_eraseP_self (p : α → Bool) (xs : List α) :
    (xs.eraseP p).filter p = (xs.filter p).tail := by
  induction xs with
  | nil => rfl
  | cons x xs ih =>
    cases hx : p x with
    | true => simp [hx]
    | false => simp [hx, ih]

/-- Those that exclude the condition do not see it. -/
theorem filter_eraseP_of_disjoint {p q : α → Bool} (hpq : ∀ x, p x = true → q x = false)
    (xs : List α) : (xs.eraseP p).filter q = xs.filter q := by
  induction xs with
  | nil => rfl
  | cons x xs ih =>
    cases hx : p x with
    | true => simp [hx, hpq x hx]
    | false => simp [hx, List.filter_cons, ih]

/-- **Taking out.** -/
theorem SameQueues.eraseP {xs ys : List α} (h : SameQueues key xs ys) (k : κ) :
    SameQueues key (xs.eraseP fun x => decide (key x = k))
      (ys.eraseP fun x => decide (key x = k)) := by
  intro j
  by_cases hj : j = k
  · subst hj
    rw [filter_eraseP_self, filter_eraseP_self, h j]
  · have hdisjoint : ∀ x : α, decide (key x = k) = true → decide (key x = j) = false := by
      intro x hx
      rw [decide_eq_true_eq] at hx
      rw [decide_eq_false_iff_not, hx]
      exact Ne.symm hj
    rw [filter_eraseP_of_disjoint hdisjoint, filter_eraseP_of_disjoint hdisjoint, h j]

/-- The same queues hold the same elements. -/
theorem SameQueues.perm [DecidableEq α] {xs ys : List α} (h : SameQueues key xs ys) :
    xs.Perm ys := by
  rw [List.perm_iff_count]
  intro a
  have hcount : ∀ zs : List α, (zs.filter fun x => decide (key x = key a)).count a = zs.count a :=
    fun zs => List.count_filter (by simp)
  rw [← hcount xs, ← hcount ys, h (key a)]

end KeyedQueue

end NetLib
