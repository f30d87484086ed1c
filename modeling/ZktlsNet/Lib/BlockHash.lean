import Mathlib.Data.List.Basic

/-!
# Hashing block by block

An iterated hash keeps a chaining value and compresses the message block by
block into it. `absorb` takes the whole blocks of a message and hands back the
rest that fills none; a program that is given its message piece by piece keeps
that rest in a buffer.

- `absorb_append`: what a message leaves behind is all that the bytes after it
  can see, so the pieces in which a message arrives do not matter.
- `absorb_snd_length`: how much is left over.
-/

namespace NetLib

universe u v

variable {σ : Type u} {α : Type v}

/-- Compress the whole blocks of `n` in front; the chaining value and the rest. -/
def absorb (n : Nat) (compress : σ → List α → σ) (s : σ) (msg : List α) : σ × List α :=
  if 0 < n ∧ n ≤ msg.length then absorb n compress (compress s (msg.take n)) (msg.drop n)
  else (s, msg)
termination_by msg.length
decreasing_by
  rw [List.length_drop]
  omega

section

variable {n : Nat} {compress : σ → List α → σ}

/-- Less than a block is kept. -/
theorem absorb_of_lt {msg : List α} (s : σ) (h : msg.length < n) :
    absorb n compress s msg = (s, msg) := by
  rw [absorb, if_neg (by omega)]

/-- A block in front is compressed. -/
theorem absorb_block {block : List α} (s : σ) (hn : 0 < n) (h : block.length = n)
    (msg : List α) :
    absorb n compress s (block ++ msg) = absorb n compress (compress s block) msg := by
  subst h
  rw [absorb, if_pos ⟨hn, by rw [List.length_append]; omega⟩, List.take_left, List.drop_left]

/-- Induction on a message block by block. -/
theorem blocks_induction {motive : List α → Prop} (hn : 0 < n)
    (short : ∀ msg, msg.length < n → motive msg)
    (block : ∀ b msg, b.length = n → motive msg → motive (b ++ msg)) (msg : List α) :
    motive msg := by
  induction hlen : msg.length using Nat.strongRecOn generalizing msg with
  | _ k ih =>
    by_cases h : msg.length < n
    · exact short msg h
    · have hrest := ih (msg.drop n).length (by rw [List.length_drop]; omega) (msg.drop n) rfl
      have hblock := block (msg.take n) (msg.drop n) (by rw [List.length_take]; omega) hrest
      rwa [List.take_append_drop] at hblock

/-- **Piece by piece**: after a first piece, the rest it left and the next piece are
absorbed as the two pieces are at once. -/
theorem absorb_append (hn : 0 < n) (s : σ) (xs ys : List α) :
    absorb n compress s (xs ++ ys) =
      absorb n compress (absorb n compress s xs).1 ((absorb n compress s xs).2 ++ ys) := by
  induction xs using blocks_induction hn generalizing s with
  | short xs h => rw [absorb_of_lt s h]
  | block b xs hb ih => rw [List.append_assoc, absorb_block s hn hb, absorb_block s hn hb, ih]

/-- What is left over fills no block. -/
theorem absorb_snd_length (hn : 0 < n) (s : σ) (msg : List α) :
    (absorb n compress s msg).2.length = msg.length % n := by
  induction msg using blocks_induction hn generalizing s with
  | short msg h => rw [absorb_of_lt s h, Nat.mod_eq_of_lt h]
  | block b msg hb ih => rw [absorb_block s hn hb, ih, List.length_append, hb, Nat.add_mod_left]

end

end NetLib
