import Mathlib.Data.List.ReduceOption
import ZktlsNet.Group.Ports

/-!
# The groups of a server (`io_manager.cpp:50-226`)

An `IOManager` keeps one vector of channels for each group number. The vector starts
with `num` null pointers, each connection of the client fills one, and when none is
left a null pointer behind the last marks the group as complete, so that `accept` can
tell it by its size.

The operations of this file are the critical sections under `io_map_mtx`, read through
`vec`: which vector a number has afterwards.
-/

namespace ZktlsNet

variable {P : Type}

/-- `CHECK_IO_INTERVAL`. -/
def checkIoInterval : BitVec 32 := 600#32

/-- The maps of `IOManager`; `P` stands for the channels, `none` for a null pointer. -/
structure IoManager (P : Type) where
  padoIoMap : Std.TreeMap Nat (List (Option P)) := {}
  createdTimestampMap : Std.TreeMap Nat (BitVec 32) := {}
  previousCheckTimestamp : BitVec 32 := 0#32

namespace IoManager

/-- The vector of a group number, if the map has the number. -/
def vec (io : IoManager P) (number : Nat) : Option (List (Option P)) := io.padoIoMap[number]?

/-- `pado_io_map[number][i]`, if both exist. -/
def slot (io : IoManager P) (number i : Nat) : Option (Option P) := (io.vec number).bind (·[i]?)

/-- The critical section of a client's first connection (`io_manager.cpp:131-138`). -/
def createGroup (io : IoManager P) (num number : Nat) (timestamp : BitVec 32) : IoManager P :=
  { io with
    padoIoMap :=
      io.padoIoMap.insert number ((io.vec number).getD [] ++ List.replicate num none)
    createdTimestampMap := io.createdTimestampMap.insert number timestamp }

/-- `is_some_null`. -/
def isSomeNull (vec : List (Option P)) : Bool := vec.any Option.isNone

/-- The critical section that every connection ends with (`io_manager.cpp:144-163`).
`pado_io_map[number]` makes an empty vector where the map does not have the number. -/
def put (io : IoManager P) (number hasNumber : Nat) (p : P) : Res (IoManager P) :=
  let vec := (io.vec number).getD []
  if hasNumber < vec.length then
    let vec := vec.set hasNumber (some p)
    .ok { io with
      padoIoMap := io.padoIoMap.insert number (if isSomeNull vec then vec else vec ++ [none]) }
  else .error (.fault .outOfBounds)

/-- The group that `accept` finds: the first whose vector has more than `num` elements. -/
def complete (io : IoManager P) (num : Nat) : Option (Nat × List (Option P)) :=
  io.padoIoMap.toList.find? fun entry => num < entry.2.length

/-- Take a number out of both maps. -/
def remove (io : IoManager P) (number : Nat) : IoManager P :=
  { io with
    padoIoMap := io.padoIoMap.erase number
    createdTimestampMap := io.createdTimestampMap.erase number }

/-- One number of `clear_pado_io`, and the channels it deletes. -/
def clearNumber (io : IoManager P) (number : Nat) : IoManager P × List P :=
  (io.remove number, ((io.vec number).getD []).reduceOption)

/-- The loop of `clear_pado_io` over the numbers that it finds to be old. -/
def clearNumbers : List Nat → IoManager P → IoManager P × List P
  | [], io => (io, [])
  | number :: numbers, io =>
    let (io, deleted) := io.clearNumber number
    let (io, rest) := clearNumbers numbers io
    (io, deleted ++ rest)

/-- `force || timestamp - before > CHECK_IO_INTERVAL`, on 32-bit times. -/
def isOld (force : Bool) (timestamp before : BitVec 32) : Bool :=
  force || checkIoInterval < timestamp - before

/-- The numbers that `clear_pado_io` takes out. -/
def oldNumbers (io : IoManager P) (force : Bool) (timestamp : BitVec 32) : List Nat :=
  if isOld force timestamp io.previousCheckTimestamp then
    (io.createdTimestampMap.toList.filter fun entry => isOld force timestamp entry.2).map (·.1)
  else []

/-- `clear_pado_io` at a time, and the channels it deletes. -/
def clearPadoIo (io : IoManager P) (force : Bool) (timestamp : BitVec 32) :
    IoManager P × List P :=
  if isOld force timestamp io.previousCheckTimestamp then
    let (io', deleted) := clearNumbers (io.oldNumbers force timestamp) io
    ({ io' with previousCheckTimestamp := timestamp }, deleted)
  else (io, [])

/-! ## The vectors behind each operation -/

@[simp] theorem vec_empty (n : Nat) : ({} : IoManager P).vec n = none := by
  simp [vec]

theorem vec_createGroup (io : IoManager P) (num number : Nat) (timestamp : BitVec 32) (n : Nat) :
    (io.createGroup num number timestamp).vec n =
      if number = n then some ((io.vec number).getD [] ++ List.replicate num none)
      else io.vec n := by
  simp [vec, createGroup, Std.TreeMap.getElem?_insert]

theorem vec_remove (io : IoManager P) (number n : Nat) :
    (io.remove number).vec n = if number = n then none else io.vec n := by
  simp [vec, remove, Std.TreeMap.getElem?_erase]

theorem timed_createGroup (io : IoManager P) (num number : Nat) (timestamp : BitVec 32) (n : Nat) :
    n ∈ (io.createGroup num number timestamp).createdTimestampMap ↔
      number = n ∨ n ∈ io.createdTimestampMap := by
  simp [createGroup]

theorem timed_remove (io : IoManager P) (number n : Nat) :
    n ∈ (io.remove number).createdTimestampMap ↔ number ≠ n ∧ n ∈ io.createdTimestampMap := by
  simp [remove]

/-- A connection is put into a slot that exists, and no other vector changes. -/
theorem put_eq_ok {io io' : IoManager P} {number hasNumber : Nat} {p : P}
    (h : io.put number hasNumber p = .ok io') :
    ∃ vec, io.vec number = some vec ∧ hasNumber < vec.length ∧
      io'.createdTimestampMap = io.createdTimestampMap ∧
      ∀ n, io'.vec n = if number = n then
        some (let vec := vec.set hasNumber (some p)
          if isSomeNull vec then vec else vec ++ [none]) else io.vec n := by
  unfold put at h
  cases hvec : io.vec number with
  | none =>
    -- the vector that `operator[]` makes is empty
    simp [hvec] at h
  | some vec =>
    simp only [hvec, Option.getD_some] at h
    split at h
    · rename_i hlt
      cases h
      refine ⟨vec, rfl, hlt, rfl, ?_⟩
      intro n
      simp [IoManager.vec, Std.TreeMap.getElem?_insert]
    · cases h

/-- Conversely, a slot that exists can be written. -/
theorem put_ok {io : IoManager P} {number hasNumber : Nat} {vec : List (Option P)} (p : P)
    (hvec : io.vec number = some vec) (hlt : hasNumber < vec.length) :
    ∃ io', io.put number hasNumber p = .ok io' := by
  unfold put
  rw [hvec, Option.getD_some, if_pos hlt]
  exact ⟨_, rfl⟩

/-- What `accept` finds is in the map. -/
theorem complete_eq_some {io : IoManager P} {num number : Nat} {vec : List (Option P)}
    (h : io.complete num = some (number, vec)) :
    io.vec number = some vec ∧ num < vec.length := by
  unfold complete at h
  have hmem := List.mem_of_find?_eq_some h
  have hlen := List.find?_some h
  exact ⟨Std.TreeMap.mem_toList_iff_getElem?_eq_some.mp hmem, by simpa using hlen⟩

/-- A number to be cleared has a time of creation. -/
theorem mem_oldNumbers {io : IoManager P} {force : Bool} {timestamp : BitVec 32} {n : Nat}
    (h : n ∈ io.oldNumbers force timestamp) : n ∈ io.createdTimestampMap := by
  unfold oldNumbers at h
  split at h
  · simp only [List.mem_map, List.mem_filter, Prod.exists, exists_and_right, exists_eq_right] at h
    obtain ⟨t, hmem, -⟩ := h
    have hget := Std.TreeMap.mem_toList_iff_getElem?_eq_some.mp hmem
    rw [Std.TreeMap.mem_iff_isSome_getElem?, hget]
    rfl
  · cases h

/-! ## The slots behind each operation -/

theorem slot_eq {io : IoManager P} {number : Nat} {vec : List (Option P)}
    (h : io.vec number = some vec) (i : Nat) : io.slot number i = vec[i]? := by
  simp [slot, h]

/-- A slot that exists is one of a vector in the map. -/
theorem vec_of_slot {io : IoManager P} {number i : Nat} {x : Option P}
    (h : io.slot number i = some x) : ∃ vec, io.vec number = some vec ∧ vec[i]? = some x :=
  Option.bind_eq_some_iff.mp h

theorem slot_createGroup {io : IoManager P} {num number : Nat} (timestamp : BitVec 32)
    (hnew : io.vec number = none) (n i : Nat) :
    (io.createGroup num number timestamp).slot n i =
      if number = n then (if i < num then some none else none) else io.slot n i := by
  unfold slot
  rw [vec_createGroup, hnew]
  by_cases hn : number = n
  · simp [hn, List.getElem?_replicate]
  · simp [hn]

theorem slot_remove (io : IoManager P) (number n i : Nat) :
    (io.remove number).slot n i = if number = n then none else io.slot n i := by
  unfold slot
  rw [vec_remove]
  by_cases hn : number = n
  · simp [hn]
  · simp [hn]

/-- What a slot holds after a connection has been put into another one. -/
theorem slot_put_ne {io io' : IoManager P} {number hasNumber : Nat} {p : P}
    (h : io.put number hasNumber p = .ok io') {n i : Nat} (hne : ¬ (number = n ∧ hasNumber = i)) :
    io'.slot n i = io.slot n i ∨ (io.slot n i = none ∧ io'.slot n i = some none) := by
  obtain ⟨vec, hvec, hlt, -, hput⟩ := put_eq_ok h
  unfold slot
  rw [hput]
  by_cases hn : number = n
  · subst hn
    have hi : hasNumber ≠ i := fun heq => hne ⟨rfl, heq⟩
    have hset : (vec.set hasNumber (some p))[i]? = vec[i]? := List.getElem?_set_ne hi
    simp only [hvec, if_true, Option.bind_some]
    split
    · exact .inl hset
    · by_cases hlen : i < vec.length
      · rw [List.getElem?_append_left (by simpa using hlen)]
        exact .inl hset
      · -- the null pointer behind the last
        rw [List.getElem?_append_right (by simpa using hlen), List.length_set,
          List.getElem?_singleton]
        split
        · exact .inr ⟨by simpa using hlen, rfl⟩
        · left
          simpa using hlen
  · simp [hn]

theorem slot_put_self {io io' : IoManager P} {number hasNumber : Nat} {p : P}
    (h : io.put number hasNumber p = .ok io') : io'.slot number hasNumber = some (some p) := by
  obtain ⟨vec, hvec, hlt, -, hput⟩ := put_eq_ok h
  have hset : (vec.set hasNumber (some p))[hasNumber]? = some (some p) :=
    List.getElem?_set_self hlt
  unfold slot
  rw [hput, if_pos rfl, Option.bind_some]
  dsimp only
  split
  · exact hset
  · rw [List.getElem?_append_left (by simpa using hlt)]
    exact hset

/-- The channels in the slots after a connection has been put into an empty one. -/
theorem slot_put_iff {io io' : IoManager P} {number hasNumber : Nat} {p : P}
    (h : io.put number hasNumber p = .ok io') (hempty : io.slot number hasNumber = some none)
    (n i : Nat) (q : P) : io'.slot n i = some (some q) ↔
      (number = n ∧ hasNumber = i ∧ p = q) ∨ io.slot n i = some (some q) := by
  by_cases hself : number = n ∧ hasNumber = i
  · obtain ⟨rfl, rfl⟩ := hself
    simp [slot_put_self h, hempty]
  · have hne : ¬ (number = n ∧ hasNumber = i ∧ p = q) := fun hx => hself ⟨hx.1, hx.2.1⟩
    rcases slot_put_ne h hself with heq | ⟨hold, hnew⟩
    · simp [heq, hne]
    · simp [hold, hnew, hne]

/-! ## Clearing several numbers -/

theorem vec_clearNumbers (numbers : List Nat) (io : IoManager P) (n : Nat) :
    (clearNumbers numbers io).1.vec n = if n ∈ numbers then none else io.vec n := by
  induction numbers generalizing io with
  | nil => rfl
  | cons number numbers ih =>
    rw [clearNumbers, ih, clearNumber, vec_remove]
    by_cases hn : n ∈ numbers
    · simp [hn]
    · by_cases heq : number = n
      · simp [heq]
      · simp [hn, heq, Ne.symm heq]

theorem timed_clearNumbers (numbers : List Nat) (io : IoManager P) (n : Nat) :
    n ∈ (clearNumbers numbers io).1.createdTimestampMap ↔
      n ∉ numbers ∧ n ∈ io.createdTimestampMap := by
  induction numbers generalizing io with
  | nil => simp [clearNumbers]
  | cons number numbers ih =>
    rw [clearNumbers, ih, clearNumber, timed_remove, List.mem_cons, not_or]
    constructor
    · rintro ⟨hn, hne, ht⟩
      exact ⟨⟨hne.symm, hn⟩, ht⟩
    · rintro ⟨⟨hne, hn⟩, ht⟩
      exact ⟨hn, Ne.symm hne, ht⟩

/-- `clear_pado_io` clears the old numbers, of which there are none if it is too early. -/
theorem clearPadoIo_eq (io : IoManager P) (force : Bool) (timestamp : BitVec 32) :
    (∀ n, (io.clearPadoIo force timestamp).1.vec n =
      (clearNumbers (io.oldNumbers force timestamp) io).1.vec n) ∧
    (io.clearPadoIo force timestamp).1.createdTimestampMap =
      (clearNumbers (io.oldNumbers force timestamp) io).1.createdTimestampMap ∧
    (io.clearPadoIo force timestamp).2 = (clearNumbers (io.oldNumbers force timestamp) io).2 := by
  unfold clearPadoIo
  split
  · exact ⟨fun n => rfl, rfl, rfl⟩
  · rename_i hearly
    have hnone : io.oldNumbers force timestamp = [] := if_neg hearly
    rw [hnone]
    exact ⟨fun n => rfl, rfl, rfl⟩

theorem vec_clearPadoIo (io : IoManager P) (force : Bool) (timestamp : BitVec 32) (n : Nat) :
    (io.clearPadoIo force timestamp).1.vec n =
      if n ∈ io.oldNumbers force timestamp then none else io.vec n := by
  rw [(io.clearPadoIo_eq force timestamp).1, vec_clearNumbers]

end IoManager

end ZktlsNet
