import Mathlib.Data.List.Basic

/-!
# Flat buffers: slices and stores

A block of memory is a list of cells; a program reads a *slice* and overwrites
one with a *store*. The laws below are the ones pointer-level code is verified
with: a store changes nothing outside its own range (`drop_store_of_le`,
`getD_store`), what was stored is read back (`slice_store_self`, `drop_store`),
and adjacent stores join (`store_store`).
-/

namespace NetLib

universe u

variable {α : Type u}

/-- `len` cells from offset `off`. -/
def slice (m : List α) (off len : Nat) : List α := (m.drop off).take len

/-- Overwrite the cells from offset `off` with `xs`. -/
def store (m : List α) (off : Nat) (xs : List α) : List α :=
  m.take off ++ xs ++ m.drop (off + xs.length)

theorem store_length {m : List α} {off : Nat} {xs : List α}
    (h : off + xs.length ≤ m.length) : (store m off xs).length = m.length := by
  simp only [store, List.length_append, List.length_take, List.length_drop]
  omega

/-- What was stored is read back. -/
theorem slice_store_self {m : List α} {off : Nat} {xs : List α}
    (h : off ≤ m.length) : slice (store m off xs) off xs.length = xs := by
  have htake : (m.take off).length = off := by
    rw [List.length_take]
    omega
  rw [slice, store, List.append_assoc, List.drop_append_of_le_length (by omega),
    List.drop_of_length_le (by omega), List.nil_append, List.take_left]

/-- Behind a store: what was stored, then the memory as it was. -/
theorem drop_store {m : List α} {off : Nat} (xs : List α) (h : off ≤ m.length) :
    (store m off xs).drop off = xs ++ m.drop (off + xs.length) := by
  have htake : (m.take off).length = off := by
    rw [List.length_take]
    omega
  rw [store, List.append_assoc, List.drop_left' htake]

/-- Further behind it, only the memory. -/
theorem drop_store_of_le {m : List α} {off k : Nat} {xs : List α} (h : off ≤ m.length)
    (hle : off + xs.length ≤ k) : (store m off xs).drop k = m.drop k := by
  have hk : (store m off xs).drop k = ((store m off xs).drop off).drop (k - off) := by
    rw [List.drop_drop]
    congr 1
    omega
  rw [hk, drop_store xs h, List.drop_append, List.drop_of_length_le (by omega), List.nil_append,
    List.drop_drop]
  congr 1
  omega

/-- A store behind a prefix that is already there. -/
theorem store_append (m rest xs : List α) :
    store (m ++ rest) m.length xs = m ++ xs ++ rest.drop xs.length := by
  rw [store, List.take_left, ← List.drop_drop, List.drop_left]

theorem slice_length {m : List α} {off len : Nat} (h : off + len ≤ m.length) :
    (slice m off len).length = len := by
  rw [slice, List.length_take, List.length_drop]
  omega

/-- Adjacent stores are one store. -/
theorem store_store (m : List α) (off : Nat) (xs ys : List α)
    (h : off + xs.length ≤ m.length) :
    store (store m off xs) (off + xs.length) ys = store m off (xs ++ ys) := by
  have htake : (m.take off ++ xs).length = off + xs.length := by
    rw [List.length_append, List.length_take]
    omega
  rw [store, drop_store_of_le (by omega) (by omega), store, List.take_left' htake, store,
    List.length_append, Nat.add_assoc, List.append_assoc (m.take off)]

/-- So are adjacent stores from the back. -/
theorem store_store_before (m : List α) (off : Nat) (xs ys : List α)
    (h : off + xs.length ≤ m.length) :
    store (store m (off + xs.length) ys) off xs = store m off (xs ++ ys) := by
  have htake : (store m (off + xs.length) ys).take off = m.take off := by
    rw [store, List.append_assoc, List.take_append_of_le_length (by rw [List.length_take]; omega),
      List.take_take, Nat.min_eq_left (by omega)]
  rw [store, htake, drop_store ys h, store, List.length_append, Nat.add_assoc]
  simp only [List.append_assoc]

/-- A store into what has just been stored. -/
theorem store_inside (m : List α) {off k : Nat} {xs ys : List α} (hm : off + xs.length ≤ m.length)
    (hk : k + ys.length ≤ xs.length) :
    store (store m off xs) (off + k) ys = store m off (store xs k ys) := by
  have htake : (m.take off).length = off := by
    rw [List.length_take]
    omega
  have hlen : (store xs k ys).length = xs.length := store_length hk
  have hfront : (store m off xs).take (off + k) = m.take off ++ xs.take k := by
    rw [store, List.append_assoc, List.take_append, htake, List.take_of_length_le (by omega),
      Nat.add_sub_cancel_left, List.take_append_of_le_length (by omega)]
  have hbehind : (store m off xs).drop (off + k + ys.length) =
      xs.drop (k + ys.length) ++ m.drop (off + xs.length) := by
    rw [Nat.add_assoc, ← List.drop_drop, drop_store xs (by omega),
      List.drop_append_of_le_length hk]
  rw [store, hfront, hbehind, store, hlen, store]
  simp only [List.append_assoc]

/-- A store that begins in the memory behind a prefix. -/
theorem store_append_right (xs m : List α) (off : Nat) (ys : List α) :
    store (xs ++ m) (xs.length + off) ys = xs ++ store m off ys := by
  rw [store, store, List.take_length_add_append, Nat.add_assoc, List.drop_length_add_append]
  simp only [List.append_assoc]

/-- A store leaves the cells before it alone. -/
theorem getD_store {m : List α} {off i : Nat} (xs : List α) (d : α) (hi : i < off)
    (h : off ≤ m.length) : (store m off xs).getD i d = m.getD i d := by
  have hlen : i < (m.take off).length := by
    rw [List.length_take]
    omega
  rw [List.getD_eq_getElem?_getD, List.getD_eq_getElem?_getD, store, List.append_assoc,
    List.getElem?_append_left hlen, List.getElem?_take_of_lt hi]

end NetLib
