import Mathlib.Data.List.Basic

/-!
# Bitmaps

A set of small numbers, kept as the bits of an array of words: number `i` is bit
`i % w` of word `i / w`.

- `get_insert`, `get_erase`: setting and clearing a bit that the array has changes
  that bit and no other.
-/

namespace NetLib

/-- `k` words of `w` bits. -/
abbrev Bitmap (w k : Nat) := Vector (BitVec w) k

namespace Bitmap

variable {w k : Nat}

/-- No bit set. -/
def empty : Bitmap w k := Vector.replicate k 0#w

/-- The bit of `i`; `false` behind the end. -/
def get (m : Bitmap w k) (i : Nat) : Bool := (m[i / w]?.getD 0#w).getLsbD (i % w)

/-- Set the bit of `i`. -/
def insert (m : Bitmap w k) (i : Nat) : Bitmap w k :=
  m.setIfInBounds (i / w) (m[i / w]?.getD 0#w ||| 1#w <<< (i % w))

/-- Clear the bit of `i`. -/
def erase (m : Bitmap w k) (i : Nat) : Bitmap w k :=
  m.setIfInBounds (i / w) (m[i / w]?.getD 0#w &&& ~~~(1#w <<< (i % w)))

@[simp] theorem get_empty (i : Nat) : (empty : Bitmap w k).get i = false := by
  unfold get empty
  by_cases h : i / w < k <;> simp [h]

/-- The mask of one bit. -/
theorem getLsbD_mask {a b : Nat} (ha : a < w) : (1#w <<< b).getLsbD a = decide (b = a) := by
  rw [BitVec.getLsbD_shiftLeft, BitVec.getLsbD_one]
  by_cases h : b = a
  · subst h
    simp [ha]
    omega
  · have hne : ¬ (b ≤ a ∧ a - b = 0) := by omega
    simp [ha, h]
    omega

/-- A word has no bit in common with the mask of one bit if that bit is not set. -/
theorem and_mask_eq_zero {b : Nat} (hb : b < w) (v : BitVec w) :
    v &&& (1#w <<< b) = 0#w ↔ v.getLsbD b = false := by
  constructor
  · intro h
    have hbit := congrArg (fun u => u.getLsbD b) h
    simpa [getLsbD_mask hb] using hbit
  · intro h
    refine BitVec.eq_of_getLsbD_eq fun a ha => ?_
    rw [BitVec.getLsbD_and, getLsbD_mask ha, BitVec.getLsbD_zero]
    by_cases hab : b = a
    · simp [← hab, h]
    · simp [hab]

/-- Two numbers are the same if word and bit are. -/
theorem eq_iff (i j : Nat) : i = j ↔ i / w = j / w ∧ i % w = j % w := by
  constructor
  · rintro rfl
    exact ⟨rfl, rfl⟩
  · rintro ⟨hd, hm⟩
    rw [← Nat.div_add_mod i w, ← Nat.div_add_mod j w, hd, hm]

theorem div_lt {i : Nat} (hi : i < w * k) : i / w < k := Nat.div_lt_of_lt_mul hi

theorem mod_lt {i : Nat} (hi : i < w * k) (j : Nat) : j % w < w := by
  refine Nat.mod_lt j (Nat.pos_of_ne_zero ?_)
  rintro rfl
  omega

/-- **Setting a bit.** -/
theorem get_insert (m : Bitmap w k) {i : Nat} (hi : i < w * k) (j : Nat) :
    (m.insert i).get j = (decide (i = j) || m.get j) := by
  unfold get insert
  by_cases hword : i / w = j / w
  · rw [hword, Vector.getElem?_setIfInBounds_self, if_pos (hword ▸ div_lt hi), Option.getD_some,
      BitVec.getLsbD_or, getLsbD_mask (mod_lt hi j), Bool.or_comm]
    simp only [eq_iff (w := w) i j, hword, true_and]
  · rw [Vector.getElem?_setIfInBounds_ne hword]
    simp only [eq_iff (w := w) i j, hword, false_and, decide_false, Bool.false_or]

/-- **Clearing a bit.** -/
theorem get_erase (m : Bitmap w k) {i : Nat} (hi : i < w * k) (j : Nat) :
    (m.erase i).get j = (!decide (i = j) && m.get j) := by
  unfold get erase
  by_cases hword : i / w = j / w
  · rw [hword, Vector.getElem?_setIfInBounds_self, if_pos (hword ▸ div_lt hi), Option.getD_some,
      BitVec.getLsbD_and, BitVec.getLsbD_not, getLsbD_mask (mod_lt hi j), Bool.and_comm]
    simp only [eq_iff (w := w) i j, hword, true_and, decide_eq_true (mod_lt hi j), Bool.true_and]
  · rw [Vector.getElem?_setIfInBounds_ne hword]
    simp only [eq_iff (w := w) i j, hword, false_and, decide_false, Bool.not_false, Bool.true_and]

end Bitmap

end NetLib
