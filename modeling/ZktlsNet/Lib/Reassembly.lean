import Mathlib.Data.List.Basic

/-!
# In-order delivery of numbered pieces

The purpose of a reassembly queue, with no queue in it: pieces of a stream
arrive under numbers, in any order, and what may be delivered is the
concatenation of the pieces from the first number on, up to the first number
that has not arrived.

- `deliverable get fuel start`: that concatenation, where `get` is what has
  arrived so far.
- `deliverable_eq_append`: pieces present under consecutive numbers split off
  the front.

Who reads piece by piece passes from one to the next when it has read one to its end.

- `readPiece`: one read, which leaves a piece that has nothing in it where it is.
- `passable`, `holding`: whether such pieces are in the way of the next elements, and how
  many pieces hold these.
-/

namespace NetLib

universe u

variable {α : Type u}

/-- The pieces `start, start + 1, …` joined, up to the first one missing (and
at most `fuel` of them). -/
def deliverable (get : Nat → Option (List α)) : Nat → Nat → List α
  | 0, _ => []
  | fuel + 1, start =>
    match get start with
    | none => []
    | some piece => piece ++ deliverable get fuel (start + 1)

/-- Pieces present under consecutive numbers split off the front. -/
theorem deliverable_eq_append {get : Nat → Option (List α)} (pieces : List (List α))
    {fuel start : Nat}
    (h : ∀ i, i < pieces.length → get (start + i) = pieces[i]?) :
    deliverable get (pieces.length + fuel) start =
      pieces.flatten ++ deliverable get fuel (start + pieces.length) := by
  induction pieces generalizing start with
  | nil => simp
  | cons p ps ih =>
    have hhead : get start = some p := by simpa using h 0 (by simp)
    have htail : ∀ i, i < ps.length → get (start + 1 + i) = ps[i]? := by
      intro i hi
      have := h (i + 1) (by simpa using hi)
      simpa [Nat.add_assoc, Nat.add_comm 1 i] using this
    rw [List.length_cons, show ps.length + 1 + fuel = (ps.length + fuel) + 1 by omega,
      deliverable, hhead]
    simp only [List.flatten_cons, List.append_assoc]
    rw [ih htail, show start + 1 + ps.length = start + (ps.length + 1) by omega]

/-! ## Reading piece by piece -/

/-- What one read of at most `n` elements leaves: it takes from the first piece, and
removes it when it takes the last element. -/
def readPiece (n : Nat) : List (List α) → List (List α)
  | [] => []
  | p :: ps => if p ≠ [] ∧ p.length ≤ n then ps else p.drop n :: ps

/-- No piece without elements comes before the end of the next `k` elements. -/
def passable : Nat → List (List α) → Bool
  | 0, _ => true
  | _ + 1, [] => true
  | k + 1, p :: ps => !p.isEmpty && passable (k + 1 - p.length) ps

/-- The number of the pieces that hold the next `k` elements. -/
def holding : Nat → List (List α) → Nat
  | 0, _ => 0
  | _ + 1, [] => 0
  | k + 1, p :: ps => holding (k + 1 - p.length) ps + 1

@[simp] theorem passable_zero (ps : List (List α)) : passable 0 ps = true := by
  cases ps <;> rfl

@[simp] theorem passable_nil (k : Nat) : passable k ([] : List (List α)) = true := by
  cases k <;> rfl

@[simp] theorem holding_zero (ps : List (List α)) : holding 0 ps = 0 := by
  cases ps <;> rfl

theorem passable_cons {k : Nat} (hk : 0 < k) (p : List α) (ps : List (List α)) :
    passable k (p :: ps) = true ↔ p ≠ [] ∧ passable (k - p.length) ps = true := by
  obtain ⟨k, rfl⟩ := Nat.exists_eq_succ_of_ne_zero (Nat.ne_of_gt hk)
  cases p <;> simp [passable]

theorem holding_cons {k : Nat} (hk : 0 < k) (p : List α) (ps : List (List α)) :
    holding k (p :: ps) = holding (k - p.length) ps + 1 := by
  obtain ⟨k, rfl⟩ := Nat.exists_eq_succ_of_ne_zero (Nat.ne_of_gt hk)
  rfl

/-- Pieces that are read to their end are not in the way if they have elements. -/
theorem passable_append {k : Nat} {here : List (List α)} (hne : ∀ p ∈ here, p ≠ [])
    (hle : here.flatten.length ≤ k) (ps : List (List α)) :
    passable k (here ++ ps) = passable (k - here.flatten.length) ps := by
  induction here generalizing k with
  | nil => rfl
  | cons p here ih =>
    have hp := hne p (List.mem_cons_self ..)
    have hpos := List.length_pos_iff.mpr hp
    rw [List.flatten_cons, List.length_append] at hle ⊢
    rw [List.cons_append, Bool.eq_iff_iff, passable_cons (by omega),
      ih (fun q hq => hne q (List.mem_cons_of_mem _ hq)) (by omega), Nat.sub_add_eq]
    exact ⟨fun h => h.2, fun h => ⟨hp, h⟩⟩

/-- A read takes from the front. -/
theorem flatten_readPiece (n : Nat) (p : List α) (ps : List (List α)) :
    p.take n ++ (readPiece n (p :: ps)).flatten = (p :: ps).flatten := by
  rw [readPiece]
  split
  · rename_i h
    rw [List.take_of_length_le h.2, List.flatten_cons]
  · rw [List.flatten_cons, ← List.append_assoc, List.take_append_drop, List.flatten_cons]

/-- The first elements are those of the first pieces, and more. -/
theorem take_flatten_append {k : Nat} {here : List (List α)} (hle : here.flatten.length ≤ k)
    (ps : List (List α)) : (here ++ ps).flatten.take k =
      here.flatten ++ ps.flatten.take (k - here.flatten.length) := by
  rw [List.flatten_append, List.take_append, List.take_of_length_le hle]

theorem drop_flatten_append {k : Nat} {here : List (List α)} (hle : here.flatten.length ≤ k)
    (ps : List (List α)) :
    (here ++ ps).flatten.drop k = ps.flatten.drop (k - here.flatten.length) := by
  rw [List.flatten_append, List.drop_append, List.drop_of_length_le hle, List.nil_append]

end NetLib
