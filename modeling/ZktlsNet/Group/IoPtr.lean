import Mathlib.Data.List.ReduceOption
import ZktlsNet.Lib.Ledger
import ZktlsNet.Lib.Machine
import ZktlsNet.Ws.Failure

/-!
# The owner of a group of channels (`common/smart_pointer.h:82-149`)

An `IOPtr` owns an array of pointers and the channels they point to: `num` is the size of the
array and `index` how many slots have been filled. `resize` deletes the channels and the
array and makes a new array, but leaves `index` as it was.

- `IoPtrRun.Right`: what a state should be like.
- `IoPtrRun.Tidy`: the invariant; in a tidy state the objects are the owners of a `Ledger`.
- `Tidy.step`: each operation on the objects is the operation on the ledger.
- `ioPtrMachine_iff`: the runs that stay right are those that resize empty objects only.
- `ioPtrMachine_resized`: one channel, and a resize.
-/

namespace ZktlsNet

open NetLib

/-! ## Memory -/

/-- The arrays made by `new IO*[num]`, `none` once deleted, with a slot `none` until it is
written; and the channels that were deleted, in order. -/
structure IoHeap where
  arrays : List (Option (List (Option Nat)))
  deleted : List Nat
  deriving DecidableEq, Repr

namespace IoHeap

/-- The slots of the array at an address, if there is one. -/
def array? (h : IoHeap) (ios : Option Nat) : Option (List (Option Nat)) :=
  ios.bind fun a => h.arrays[a]?.join

/-- The slots that a pointer gives access to. -/
def slots (h : IoHeap) (ios : Option Nat) : List (Option Nat) := (h.array? ios).getD []

/-- The channels in these slots. -/
def pointers (h : IoHeap) (ios : Option Nat) : List Nat := (h.slots ios).reduceOption

/-- The array at an address. -/
def array (h : IoHeap) : Option Nat → Res (Nat × List (Option Nat))
  | none => .error (.fault .nullPointer)
  | some a =>
    match h.arrays[a]?.join with
    | some slots => .ok (a, slots)
    | none => .error (.fault .useAfterFree)

/-- `ios[i]`, of which only a channel can be deleted: a slot that was not written holds an
arbitrary address. -/
def read (h : IoHeap) (ios : Option Nat) (i : Nat) : Res Nat := do
  let (_, slots) ← h.array ios
  match slots[i]? with
  | some (some io) => return io
  | some none => throw (.fault .useAfterFree)
  | none => throw (.fault .outOfBounds)

/-- `ios[i] = io`. -/
def write (h : IoHeap) (ios : Option Nat) (i : Int) (io : Nat) : Res IoHeap := do
  let (a, slots) ← h.array ios
  if 0 ≤ i ∧ i < slots.length then
    return { h with arrays := h.arrays.set a (some (slots.set i.toNat (some io))) }
  else throw (.fault .outOfBounds)

/-- `delete io`. -/
def delete (h : IoHeap) (io : Nat) : Res IoHeap :=
  if io ∈ h.deleted then .error (.fault .useAfterFree)
  else .ok { h with deleted := h.deleted ++ [io] }

/-- `delete []ios`. -/
def deleteArray (h : IoHeap) : Option Nat → Res IoHeap
  | none => .ok h
  | some a => do
    let _ ← h.array (some a)
    return { h with arrays := h.arrays.set a none }

end IoHeap

/-! ## The operations -/

/-- `IOPtr`. -/
structure IoPtr where
  ios : Option Nat := none
  num : Int := 0
  index : Int := 0
  deriving DecidableEq, Repr

namespace IoPtr

/-- `reserve`; `none` when `new` throws, which it does for a negative size. -/
def reserve (p : IoPtr) (num : Int) (h : IoHeap) : Option (IoPtr × IoHeap) :=
  if num < 0 then none
  else some ({ p with ios := some h.arrays.length, num := num },
    { h with arrays := h.arrays ++ [some (.replicate num.toNat none)] })

/-- The loop of `release`, with `n` slots from slot `i` on to go. -/
def releaseLoop (ios : Option Nat) : Nat → Nat → IoHeap → Res IoHeap
  | 0, _, h => .ok h
  | n + 1, i, h => do
    let io ← h.read ios i
    let h ← h.delete io
    releaseLoop ios n (i + 1) h

def release (p : IoPtr) (h : IoHeap) : Res IoHeap :=
  if 0 < p.index then do
    let h ← releaseLoop p.ios p.index.toNat 0 h
    h.deleteArray p.ios
  else .ok h

/-- `IOPtr(int num)`. -/
def construct (num : Int) (h : IoHeap) : IoPtr × IoHeap :=
  if 0 < num then (reserve {} num h).getD ({}, h) else ({}, h)

/-- `IOPtr(IOPtr&& rhs)`: the new object, and what is left of `rhs`. -/
def moveConstruct (rhs : IoPtr) : IoPtr × IoPtr :=
  ({ ios := rhs.ios, num := rhs.num, index := rhs.index },
    { rhs with ios := none, num := 0, index := 0 })

/-- `operator=(IOPtr&& rhs)`, for another object. -/
def moveAssign (p rhs : IoPtr) (h : IoHeap) : Res (IoPtr × IoPtr × IoHeap) := do
  let h ← p.release h
  return ({ p with ios := rhs.ios, num := rhs.num, index := rhs.index },
    { rhs with ios := none, num := 0, index := 0 }, h)

/-- `resize`; when `reserve` throws, the object stays as it is. -/
def resize (p : IoPtr) (num : Int) (h : IoHeap) : Res (IoPtr × IoHeap) := do
  let h ← p.release h
  return (p.reserve num h).getD (p, h)

/-- `operator<<`. -/
def append (p : IoPtr) (io : Nat) (h : IoHeap) : Res (IoPtr × IoHeap) := do
  let h ← h.write p.ios p.index io
  return ({ p with index := p.index + 1 }, h)

end IoPtr

/-! ## Runs -/

/-- An object, with the capacity it was given by the constructor or the last `resize`, and
how many channels have been put into it since. Both go with the array when it is moved. -/
structure IoPtrObject where
  ptr : IoPtr := {}
  capacity : Int := 0
  appends : Int := 0
  deriving DecidableEq, Repr

/-- The objects in the order in which they were made, `none` once destroyed; the memory; and
every channel that was ever put into one of them. -/
structure IoPtrRun where
  objects : List (Option IoPtrObject)
  heap : IoHeap
  appended : List Nat
  deriving DecidableEq, Repr

/-- An operation on the objects. -/
inductive IoPtrOp
  | construct (num : Int)
  | moveConstruct (rhs : Nat)
  | moveAssign (lhs rhs : Nat)
  | append (i io : Nat)
  | resize (i : Nat) (num : Int)
  | destroy (i : Nat)
  deriving DecidableEq, Repr

namespace IoPtrRun

def init : IoPtrRun := ⟨[], ⟨[], []⟩, []⟩

/-- An object that is there. -/
def object (s : IoPtrRun) (i : Nat) : Option IoPtrObject := s.objects[i]?.join

/-- An operation. An object is assigned from another one; the channels are fresh, and no
more than there is capacity for. -/
def step (s : IoPtrRun) : IoPtrOp → Option (Res IoPtrRun)
  | .construct num =>
    let (p, heap) := IoPtr.construct num s.heap
    some (.ok { s with objects := s.objects ++ [some ⟨p, num, 0⟩], heap })
  | .moveConstruct rhs => do
    let o ← s.object rhs
    let (p, q) := IoPtr.moveConstruct o.ptr
    some (.ok { s with
      objects := s.objects.set rhs (some { ptr := q }) ++ [some { o with ptr := p }] })
  | .moveAssign lhs rhs => do
    let o ← s.object lhs
    let o' ← s.object rhs
    if lhs = rhs then none
    else some do
      let (p, q, heap) ← o.ptr.moveAssign o'.ptr s.heap
      return { s with
        objects := (s.objects.set lhs (some { o' with ptr := p })).set rhs (some { ptr := q })
        heap }
  | .append i io => do
    let o ← s.object i
    if o.appends < o.capacity ∧ io ∉ s.appended then
      some do
        let (p, heap) ← o.ptr.append io s.heap
        return ⟨s.objects.set i (some { o with ptr := p, appends := o.appends + 1 }), heap,
          s.appended ++ [io]⟩
    else none
  | .resize i num => do
    let o ← s.object i
    some do
      let (p, heap) ← o.ptr.resize num s.heap
      let o' := if num < 0 then { o with ptr := p } else ⟨p, num, 0⟩
      return { s with objects := s.objects.set i (some o'), heap }
  | .destroy i => do
    let o ← s.object i
    some do
      let heap ← o.ptr.release s.heap
      return { s with objects := s.objects.set i none, heap }

/-- The channels in the slots of all objects. -/
def held (s : IoPtrRun) : List Nat :=
  s.objects.flatMap fun o => (o.map fun o => s.heap.pointers o.ptr.ios).getD []

/-- **What a state should be like.** -/
structure Right (s : IoPtrRun) : Prop where
  bounds : ∀ i o, s.object i = some o → 0 ≤ o.ptr.index ∧ o.ptr.index ≤ o.ptr.num
  /-- as many slots as `num` says, of which just the first `index` have been written -/
  slots : ∀ i o, s.object i = some o → (s.heap.slots o.ptr.ios).length = o.ptr.num ∧
    ∀ k : Nat, (∃ io, (s.heap.slots o.ptr.ios)[k]? = some (some io)) ↔ k < o.ptr.index
  distinct : s.held.Nodup
  live : ∀ io ∈ s.held, io ∈ s.appended ∧ io ∉ s.heap.deleted
  /-- with all objects gone, each channel has been deleted once -/
  deletedOnce : (∀ o ∈ s.objects, o = none) → ∀ io ∈ s.appended, s.heap.deleted.count io = 1

/-- A resize is of an object that holds nothing. -/
def resizesEmpty (s : IoPtrRun) : IoPtrOp → Bool
  | .resize i _ => (s.object i).all fun o => o.ptr.index = 0
  | _ => true

end IoPtrRun

/-- The runs of operations. -/
def ioPtrMachine : Machine (Res IoPtrRun) IoPtrOp := fallible .init IoPtrRun.step

/-! ## The arrays -/

namespace IoHeap

variable {h : IoHeap}

theorem array?_set_ne {ios : Option Nat} {a : Nat} (hne : ios ≠ some a)
    (slots : Option (List (Option Nat))) (deleted : List Nat) :
    (IoHeap.mk (h.arrays.set a slots) deleted).array? ios = h.array? ios := by
  cases ios with
  | none => rfl
  | some b =>
    have hab : a ≠ b := fun hab => hne (congrArg some hab.symm)
    simp only [array?, Option.bind_some, List.getElem?_set_ne hab]

theorem lt_of_array? {a : Nat} {slots : List (Option Nat)} (ha : h.array? (some a) = some slots) :
    a < h.arrays.length := by
  by_contra hlt
  rw [array?, Option.bind_some, List.getElem?_eq_none (Nat.le_of_not_lt hlt)] at ha
  cases ha

theorem array?_set_self {a : Nat} (ha : a < h.arrays.length)
    (slots : Option (List (Option Nat))) (deleted : List Nat) :
    (IoHeap.mk (h.arrays.set a slots) deleted).array? (some a) = slots := by
  rw [array?, Option.bind_some, List.getElem?_set_self ha]
  rfl

theorem array?_push_ne {ios : Option Nat} (hne : ios ≠ some h.arrays.length)
    (slots : Option (List (Option Nat))) (deleted : List Nat) :
    (IoHeap.mk (h.arrays ++ [slots]) deleted).array? ios = h.array? ios := by
  cases ios with
  | none => rfl
  | some b =>
    have hb : h.arrays.length ≠ b := fun hb => hne (congrArg some hb.symm)
    simp only [array?, Option.bind_some, List.getElem?_append, List.getElem?_singleton]
    split
    · rfl
    · rw [if_neg (by omega), List.getElem?_eq_none (by omega)]

theorem array?_push_self (slots : Option (List (Option Nat))) (deleted : List Nat) :
    (IoHeap.mk (h.arrays ++ [slots]) deleted).array? (some h.arrays.length) = slots := by
  rw [array?, Option.bind_some, List.getElem?_concat_length]
  rfl

theorem array_eq {a : Nat} {slots : List (Option Nat)} (ha : h.array? (some a) = some slots) :
    h.array (some a) = .ok (a, slots) := by
  rw [array?, Option.bind_some] at ha
  simp only [array, ha]

end IoHeap

/-! ## What an object holds -/

namespace IoPtr

/-- The object holds these channels, in this order: it has no array, or they are in the first
slots of its array. -/
inductive Holds (h : IoHeap) : IoPtr → List Nat → Prop
  | empty : Holds h {} []
  | array {a : Nat} (xs : List Nat) (room : Nat)
      (ha : h.array? (some a) = some (xs.map some ++ List.replicate room none)) :
      Holds h ⟨some a, xs.length + room, xs.length⟩ xs

variable {p : IoPtr} {h h' : IoHeap} {xs : List Nat}

/-- An object holds the same as long as nobody touches its array. -/
theorem Holds.frame (hp : p.Holds h xs) (heq : h'.array? p.ios = h.array? p.ios) :
    p.Holds h' xs := by
  cases hp with
  | empty => exact .empty
  | array xs room ha => exact .array xs room (heq.trans ha)

theorem Holds.index_eq (hp : p.Holds h xs) : p.index = xs.length := by
  cases hp <;> rfl

theorem Holds.pointers_eq (hp : p.Holds h xs) : h.pointers p.ios = xs := by
  cases hp with
  | empty => rfl
  | array xs room ha =>
    rw [IoHeap.pointers, IoHeap.slots, ha, Option.getD_some, List.reduceOption_append,
      List.reduceOption_replicate_none, List.append_nil, List.reduceOption, List.filterMap_map]
    exact List.filterMap_some

theorem Holds.bounds (hp : p.Holds h xs) : 0 ≤ p.index ∧ p.index ≤ p.num := by
  cases hp with
  | empty => exact ⟨Int.le_refl 0, Int.le_refl 0⟩
  | array xs room ha =>
    exact ⟨Int.natCast_nonneg _, Int.le_add_of_nonneg_right (Int.natCast_nonneg _)⟩

/-- Its array is not the next one to be made. -/
theorem Holds.ios_ne (hp : p.Holds h xs) : p.ios ≠ some h.arrays.length := by
  cases hp with
  | empty => exact nofun
  | array xs room ha =>
    rintro ⟨⟩
    exact absurd (IoHeap.lt_of_array? ha) (Nat.lt_irrefl _)

/-- Its first `index` slots are the ones that have been written. -/
theorem Holds.written (hp : p.Holds h xs) : (h.slots p.ios).length = p.num ∧
    ∀ k : Nat, (∃ io, (h.slots p.ios)[k]? = some (some io)) ↔ k < p.index := by
  cases hp with
  | empty =>
    refine ⟨rfl, fun k => ⟨?_, fun hk => absurd hk (by simp)⟩⟩
    rintro ⟨io, hio⟩
    simp [IoHeap.slots, IoHeap.array?] at hio
  | array xs room ha =>
    rw [IoHeap.slots, ha, Option.getD_some]
    constructor
    · simp
    · intro k
      rw [List.getElem?_append, List.length_map]
      by_cases hk : k < xs.length
      · simp [hk]
      · simp only [hk, if_false, List.getElem?_replicate]
        split <;> simp [hk]

/-! ## What the operations do -/

/-- The loop deletes the channels one after the other. -/
theorem releaseLoop_eq {a i : Nat} {slots rest : List (Option Nat)}
    (ha : h.array? (some a) = some slots) (hslots : slots.drop i = xs.map some ++ rest)
    (hnodup : xs.Nodup) (hlive : ∀ x ∈ xs, x ∉ h.deleted) :
    releaseLoop (some a) xs.length i h = .ok ⟨h.arrays, h.deleted ++ xs⟩ := by
  induction xs generalizing i h with
  | nil => simp [releaseLoop]
  | cons x xs ih =>
    have hread : h.read (some a) i = .ok x := by
      have hget : slots[i]? = some (some x) := by
        rw [← Nat.add_zero i, ← List.getElem?_drop, hslots]
        rfl
      simp only [IoHeap.read, IoHeap.array_eq ha, ok_bind, hget]
      rfl
    have hdelete : h.delete x = .ok ⟨h.arrays, h.deleted ++ [x]⟩ :=
      if_neg (hlive x List.mem_cons_self)
    obtain ⟨hx, hnodup⟩ := List.nodup_cons.mp hnodup
    rw [List.length_cons, releaseLoop, hread, ok_bind, hdelete, ok_bind,
      ih (h := ⟨h.arrays, h.deleted ++ [x]⟩) ha ?_ hnodup ?_, List.append_assoc]
    · rfl
    · rw [← List.drop_drop, hslots]
      rfl
    · intro y hy hdel
      rcases List.mem_append.mp hdel with hdel | hdel
      · exact hlive y (List.mem_cons_of_mem x hy) hdel
      · exact hx (List.mem_singleton.mp hdel ▸ hy)

/-- What `release` does: the channels are deleted, and the array, if there was a channel. -/
theorem Holds.release (hp : p.Holds h xs) (hnodup : xs.Nodup)
    (hlive : ∀ x ∈ xs, x ∉ h.deleted) :
    ∃ h', p.release h = .ok h' ∧ h'.deleted = h.deleted ++ xs ∧
      (∀ ios, ios ≠ p.ios → h'.array? ios = h.array? ios) ∧
      (xs ≠ [] → h'.array? p.ios = none) := by
  rcases Nat.eq_zero_or_pos xs.length with hlen | hlen
  · have hnil : xs = [] := List.length_eq_zero_iff.mp hlen
    refine ⟨h, if_neg (by rw [hp.index_eq]; omega), ?_, fun _ _ => rfl,
      fun hne => absurd hnil hne⟩
    rw [hnil, List.append_nil]
  · cases hp with
    | empty => exact absurd hlen (Nat.lt_irrefl 0)
    | @array a xs room ha =>
      have hloop := releaseLoop_eq (i := 0) ha rfl hnodup hlive
      have harray : (IoHeap.mk h.arrays (h.deleted ++ xs)).array (some a) =
          .ok (a, xs.map some ++ List.replicate room none) := IoHeap.array_eq ha
      refine ⟨⟨h.arrays.set a none, h.deleted ++ xs⟩, ?_, rfl, ?_, ?_⟩
      · rw [IoPtr.release, if_pos (Int.natCast_pos.mpr hlen), Int.toNat_natCast, hloop, ok_bind,
          IoHeap.deleteArray, harray, ok_bind]
        rfl
      · intro ios hne
        exact IoHeap.array?_set_ne hne _ _
      · intro _
        exact IoHeap.array?_set_self (IoHeap.lt_of_array? ha) _ _

/-- What `reserve` makes of an object that holds nothing. -/
theorem reserve_holds (hindex : p.index = 0) {num : Int} (hnum : 0 ≤ num) (h : IoHeap) :
    ∃ p' h', p.reserve num h = some (p', h') ∧ p'.Holds h' [] ∧ p'.num = num ∧
      p'.ios = some h.arrays.length ∧ h'.deleted = h.deleted ∧
      ∀ ios, ios ≠ some h.arrays.length → h'.array? ios = h.array? ios := by
  refine ⟨_, _, if_neg (Int.not_lt.mpr hnum), ?_, rfl, rfl, rfl, ?_⟩
  · have hholds := Holds.array [] num.toNat (IoHeap.array?_push_self
      (h := h) (some (List.replicate num.toNat none)) h.deleted)
    simp only [List.length_nil, Int.toNat_of_nonneg hnum, Int.ofNat_zero, Int.zero_add] at hholds
    rw [hindex]
    exact hholds
  · intro ios hne
    exact IoHeap.array?_push_ne hne _ _

/-- What `operator<<` does when there is room. -/
theorem Holds.append (hp : p.Holds h xs) (hroom : p.index < p.num) (io : Nat) :
    ∃ p' h', p.append io h = .ok (p', h') ∧ p'.Holds h' (xs ++ [io]) ∧ p'.ios = p.ios ∧
      p'.num = p.num ∧ p'.index = p.index + 1 ∧ h'.deleted = h.deleted ∧
      ∀ ios, ios ≠ p.ios → h'.array? ios = h.array? ios := by
  cases hp with
  | empty => exact absurd hroom (Int.lt_irrefl 0)
  | @array a xs room ha =>
    obtain ⟨room, rfl⟩ : ∃ room', room = room' + 1 := ⟨room - 1, by simp only at hroom; omega⟩
    obtain ⟨slots, hslots⟩ : ∃ slots, slots = (xs ++ [io]).map some ++ List.replicate room none :=
      ⟨_, rfl⟩
    have hset : (xs.map some ++ List.replicate (room + 1) none).set xs.length (some io) =
        slots := by
      rw [List.set_append_right _ _ (by simp), List.length_map, Nat.sub_self,
        List.replicate_succ, List.set_cons_zero, hslots, List.map_append, List.append_assoc]
      rfl
    have hwrite : h.write (some a) xs.length io =
        .ok ⟨h.arrays.set a (some slots), h.deleted⟩ := by
      rw [IoHeap.write, IoHeap.array_eq ha, ok_bind]
      simp only [Int.toNat_natCast, hset]
      have hlength : (xs.map some ++ List.replicate (room + 1) none).length =
          xs.length + (room + 1) := by
        rw [List.length_append, List.length_map, List.length_replicate]
      rw [if_pos (by omega)]
      rfl
    have hself := IoHeap.array?_set_self (IoHeap.lt_of_array? ha) (some slots) h.deleted
    have hholds := Holds.array (xs ++ [io]) room (hself.trans (congrArg some hslots))
    have hptr : (⟨some a, xs.length + (room + 1 : Nat), xs.length + 1⟩ : IoPtr) =
        ⟨some a, (xs ++ [io]).length + room, (xs ++ [io]).length⟩ := by
      rw [List.length_append, List.length_singleton]
      congr 1
      omega
    refine ⟨⟨some a, xs.length + (room + 1 : Nat), xs.length + 1⟩,
      ⟨h.arrays.set a (some slots), h.deleted⟩, ?_, hptr ▸ hholds, rfl, rfl, rfl, rfl, ?_⟩
    · rw [IoPtr.append, hwrite, ok_bind]
      rfl
    · intro ios hne
      exact IoHeap.array?_set_ne hne _ _

end IoPtr

/-! ## The objects -/

/-- What is counted of an object is what its array has. -/
structure IoPtrObject.Sound (o : IoPtrObject) (h : IoHeap) : Prop where
  holds : o.ptr.Holds h (h.pointers o.ptr.ios)
  appends : o.appends = o.ptr.index
  capacity : o.capacity ≤ o.ptr.num

/-- Every object has an array of its own, or none. -/
structure Arranged (objects : List (Option IoPtrObject)) (h : IoHeap) : Prop where
  sound : ∀ (i : Nat) (o : IoPtrObject), objects[i]?.join = some o → o.Sound h
  apart : ∀ (i j : Nat) (o o' : IoPtrObject), i ≠ j → objects[i]?.join = some o →
    objects[j]?.join = some o' → o.ptr.ios = o'.ptr.ios → o.ptr.ios = none

/-- What the objects hold. -/
def contents (h : IoHeap) (objects : List (Option IoPtrObject)) : List (Option (List Nat)) :=
  objects.map (Option.map fun o => h.pointers o.ptr.ios)

/-- A step on object `i` leaves the others alone: it keeps their arrays, and does not make
one of them its own. -/
def Spares (objects : List (Option IoPtrObject)) (i : Nat) (h h' : IoHeap)
    (new : Option IoPtrObject) : Prop :=
  ∀ (j : Nat) (o : IoPtrObject), j ≠ i → objects[j]?.join = some o → o.ptr.ios ≠ none →
    h'.array? o.ptr.ios = h.array? o.ptr.ios ∧ ∀ o', new = some o' → o'.ptr.ios ≠ o.ptr.ios

section

variable {objects : List (Option IoPtrObject)} {h h' : IoHeap} {i : Nat}
  {new : Option IoPtrObject}

theorem Spares.array?_eq (hs : Spares objects i h h' new) {j : Nat} {o : IoPtrObject}
    (hj : j ≠ i) (ho : objects[j]?.join = some o) :
    h'.array? o.ptr.ios = h.array? o.ptr.ios := by
  by_cases hnone : o.ptr.ios = none
  · rw [hnone]
    rfl
  · exact (hs j o hj ho hnone).1

theorem IoPtrObject.sound_of_holds {o : IoPtrObject} {xs : List Nat} (ho : o.ptr.Holds h xs)
    (happends : o.appends = o.ptr.index) (hcapacity : o.capacity ≤ o.ptr.num) : o.Sound h where
  holds := by
    rw [ho.pointers_eq]
    exact ho
  appends := happends
  capacity := hcapacity

theorem IoPtrObject.Sound.frame {o : IoPtrObject} (ho : o.Sound h)
    (heq : h'.array? o.ptr.ios = h.array? o.ptr.ios) : o.Sound h' :=
  sound_of_holds (ho.holds.frame heq) ho.appends ho.capacity

theorem join_getElem?_set (hi : i < objects.length) (j : Nat) :
    (objects.set i new)[j]?.join = if j = i then new else objects[j]?.join := by
  by_cases hji : j = i
  · rw [hji, List.getElem?_set_self hi, if_pos rfl, Option.join_some]
  · rw [List.getElem?_set_ne (Ne.symm hji), if_neg hji]

theorem Arranged.set (ha : Arranged objects h) (hi : i < objects.length)
    (hs : Spares objects i h h' new) (hnew : ∀ o', new = some o' → o'.Sound h') :
    Arranged (objects.set i new) h' where
  sound := by
    intro j o hj
    rw [join_getElem?_set hi] at hj
    split at hj
    · exact hnew o hj
    next hji => exact (ha.sound j o hj).frame (hs.array?_eq hji hj)
  apart := by
    intro j k o o' hjk hj hk heq
    rw [join_getElem?_set hi] at hj hk
    by_contra hnone
    split at hj
    · next hji =>
      rw [if_neg fun hki => hjk (hji.trans hki.symm)] at hk
      exact (hs k o' (fun hki => hjk (hji.trans hki.symm)) hk (heq ▸ hnone)).2 o hj heq
    · next hji =>
      split at hk
      · exact (hs j o hji hj hnone).2 o' hk heq.symm
      · exact hnone (ha.apart j k o o' hjk hj hk heq)

theorem contents_set (hs : Spares objects i h h' new) :
    contents h' (objects.set i new) =
      (contents h objects).set i (new.map fun o => h'.pointers o.ptr.ios) := by
  rw [contents, contents, List.map_set]
  refine List.ext_getElem? fun j => ?_
  by_cases hji : j = i
  · subst hji
    simp [List.getElem?_set]
  · rw [List.getElem?_set_ne (Ne.symm hji), List.getElem?_set_ne (Ne.symm hji), List.getElem?_map,
      List.getElem?_map]
    rcases hj : objects[j]? with _ | _ | o
    · rfl
    · rfl
    · have ho : objects[j]?.join = some o := by rw [hj, Option.join_some]
      simp only [Option.map_some, IoHeap.pointers, IoHeap.slots, hs.array?_eq hji ho]

/-- A step that touches one array only, which no other object has, and leaves object `i` with
this array or none. -/
theorem spares_of {own : Option Nat}
    (hother : ∀ (j : Nat) (o : IoPtrObject), j ≠ i → objects[j]?.join = some o →
      o.ptr.ios ≠ none → o.ptr.ios ≠ own)
    (hframe : ∀ ios, ios ≠ own → h'.array? ios = h.array? ios)
    (hnew : ∀ o', new = some o' → o'.ptr.ios = none ∨ o'.ptr.ios = own) :
    Spares objects i h h' new := by
  intro j o hji hj hnone
  have hne := hother j o hji hj hnone
  refine ⟨hframe _ hne, fun o' ho' heq => ?_⟩
  rcases hnew o' ho' with hios | hios
  · exact hnone (heq ▸ hios)
  · exact hne (heq ▸ hios)

/-- Such an array is that of object `i`. -/
theorem spares_own (ha : Arranged objects h) {o : IoPtrObject} (ho : objects[i]?.join = some o)
    (hframe : ∀ ios, ios ≠ o.ptr.ios → h'.array? ios = h.array? ios)
    (hnew : ∀ o', new = some o' → o'.ptr.ios = none ∨ o'.ptr.ios = o.ptr.ios) :
    Spares objects i h h' new :=
  spares_of (fun j o' hji hj hnone heq => hnone (ha.apart j i o' o hji hj ho heq)) hframe hnew

/-- And so is a new one. -/
theorem spares_fresh (ha : Arranged objects h)
    (hframe : ∀ ios, ios ≠ some h.arrays.length → h'.array? ios = h.array? ios)
    (hnew : ∀ o', new = some o' → o'.ptr.ios = none ∨ o'.ptr.ios = some h.arrays.length) :
    Spares objects i h h' new :=
  spares_of (fun j o _ hj _ => (ha.sound j o hj).holds.ios_ne) hframe hnew

/-- A place for a new object. -/
theorem Arranged.push (ha : Arranged objects h) : Arranged (objects ++ [none]) h := by
  have hget (j : Nat) : (objects ++ [none])[j]?.join = objects[j]?.join := by
    rw [List.getElem?_append, List.getElem?_singleton]
    split
    · rfl
    next hj =>
      rw [List.getElem?_eq_none (Nat.le_of_not_lt hj)]
      split <;> rfl
  constructor
  · intro j o hj
    exact ha.sound j o ((hget j).symm.trans hj)
  · intro j k o o' hjk hj hk
    exact ha.apart j k o o' hjk ((hget j).symm.trans hj) ((hget k).symm.trans hk)

theorem sound_empty (h : IoHeap) : IoPtrObject.Sound {} h :=
  ⟨.empty, rfl, Int.le_refl 0⟩

theorem lt_of_object {o : IoPtrObject} (ho : objects[i]?.join = some o) : i < objects.length := by
  by_contra hlt
  rw [List.getElem?_eq_none (Nat.le_of_not_lt hlt)] at ho
  cases ho

/-- An array goes from object `i` to an object that has none. -/
theorem Arranged.move (ha : Arranged objects h) {j : Nat} {o : IoPtrObject} (hij : i ≠ j)
    (ho : objects[i]?.join = some o) (hj : j < objects.length) :
    Arranged ((objects.set j (some o)).set i (some {})) h ∧
      contents h ((objects.set j (some o)).set i (some {})) =
        ((contents h objects).set j (some (h.pointers o.ptr.ios))).set i (some []) := by
  have hi := lt_of_object ho
  have hleave : Spares objects i h h (some {}) := by
    rintro k o' - - hnone
    exact ⟨rfl, by rintro o'' ⟨⟩ heq; exact hnone heq.symm⟩
  have htake : Spares (objects.set i (some {})) j h h (some o) := by
    rintro k o' hkj hk hnone
    refine ⟨rfl, ?_⟩
    rintro o'' ⟨⟩ heq
    rw [join_getElem?_set hi] at hk
    split at hk
    · cases hk
      exact hnone rfl
    next hki => exact hnone (ha.apart k i o' o hki hk ho heq.symm)
  have hleft := ha.set hi hleave (by rintro o' ⟨⟩; exact sound_empty h)
  have htaken := hleft.set (by rwa [List.length_set]) htake
    (by rintro o' ⟨⟩; exact ha.sound i o ho)
  rw [List.set_comm _ _ hij] at htaken
  refine ⟨htaken, ?_⟩
  rw [← List.set_comm _ _ hij, contents_set htake, contents_set hleave, List.set_comm _ _ hij]
  rfl

end

/-- What an operation is for, in terms of owners and what they own. -/
def IoPtrOp.onLedger (l : Ledger Nat) : IoPtrOp → Ledger Nat
  | .construct _ => l.enter
  | .moveConstruct rhs => l.enter.move rhs l.holders.length
  | .moveAssign lhs rhs => (l.release lhs).move rhs lhs
  | .append i io => l.acquire i io
  | .resize i _ => l.release i
  | .destroy i => l.leave i

namespace IoPtrRun

/-- The objects as owners of channels. -/
def ledger (s : IoPtrRun) : Ledger Nat := ⟨contents s.heap s.objects, s.heap.deleted, s.appended⟩

/-- **The invariant.** -/
structure Tidy (s : IoPtrRun) : Prop where
  arranged : Arranged s.objects s.heap
  balanced : s.ledger.Balanced

theorem tidy_init : init.Tidy where
  arranged := ⟨fun _ _ ho => (nomatch ho), fun _ _ _ _ _ ho => (nomatch ho)⟩
  balanced := ⟨.refl _, List.nodup_nil⟩

variable {s : IoPtrRun} {i : Nat} {o : IoPtrObject}

theorem held_ledger (s : IoPtrRun) : s.ledger.held = s.held := List.flatMap_map ..

theorem length_ledger (s : IoPtrRun) : s.ledger.holders.length = s.objects.length :=
  List.length_map ..

theorem holding_ledger (ho : s.object i = some o) :
    s.ledger.holding i = s.heap.pointers o.ptr.ios := by
  refine Ledger.holding_of_get ?_
  rw [ledger, contents, List.getElem?_map, Option.join_eq_some_iff.mp ho]
  rfl

theorem lt_ledger (ho : s.object i = some o) : i < s.ledger.holders.length := by
  rw [length_ledger]
  exact lt_of_object ho

/-- A tidy state is as it should be. -/
theorem Tidy.right (h : s.Tidy) : s.Right where
  bounds i o ho := (h.arranged.sound i o ho).holds.bounds
  slots i o ho := (h.arranged.sound i o ho).holds.written
  distinct := held_ledger s ▸ h.balanced.held_nodup
  live io hio := by
    rw [← held_ledger] at hio
    exact ⟨h.balanced.acquired hio, h.balanced.not_released hio⟩
  deletedOnce hgone io hio := by
    have hperm := h.balanced.released_perm fun holder hholder => by
      obtain ⟨o, ho, rfl⟩ := List.mem_map.mp hholder
      rw [hgone o ho]
      rfl
    have hperm : s.heap.deleted.Perm s.appended := hperm
    have hnodup : s.appended.Nodup := h.balanced.nodup
    rw [hperm.count_eq]
    exact List.count_eq_one_of_mem hnodup hio

/-! ## One operation -/

/-- The channels of an object can be deleted, and the object emptied or destroyed. -/
theorem Tidy.release (h : s.Tidy) (ho : s.object i = some o) :
    ∃ heap, o.ptr.release s.heap = .ok heap ∧
      heap.deleted = s.heap.deleted ++ s.ledger.holding i ∧
      (s.ledger.holding i ≠ [] → heap.array? o.ptr.ios = none) ∧
      ∀ new, (∀ o', new = some o' → o' = {}) →
        Arranged (s.objects.set i new) heap ∧
          contents heap (s.objects.set i new) = s.ledger.holders.set i (new.map fun _ => []) := by
  have hsound := h.arranged.sound i o ho
  have hheld : ∀ x ∈ s.heap.pointers o.ptr.ios, x ∈ s.ledger.held := fun x hx =>
    (s.ledger.holding_sublist i).subset (holding_ledger ho ▸ hx)
  have hnodup : (s.heap.pointers o.ptr.ios).Nodup := by
    rw [← holding_ledger ho]
    exact h.balanced.held_nodup.sublist (s.ledger.holding_sublist i)
  obtain ⟨heap, hrelease, hdeleted, hframe, hfreed⟩ :=
    hsound.holds.release hnodup fun x hx => h.balanced.not_released (hheld x hx)
  rw [holding_ledger ho]
  refine ⟨heap, hrelease, hdeleted, hfreed, fun new hnew => ?_⟩
  have hspares : Spares s.objects i s.heap heap new :=
    spares_own h.arranged ho hframe fun o' ho' => .inl (hnew o' ho' ▸ rfl)
  constructor
  · refine h.arranged.set (lt_of_object ho) hspares fun o' ho' => ?_
    rw [hnew o' ho']
    exact sound_empty heap
  · rw [contents_set hspares]
    congr 1
    cases new with
    | none => rfl
    | some o' =>
      rw [hnew o' rfl]
      rfl

theorem Tidy.destroy (h : s.Tidy) {r : Res IoPtrRun} (hstep : s.step (.destroy i) = some r) :
    ∃ s', r = .ok s' ∧ s'.Tidy ∧ s'.ledger = s.ledger.leave i := by
  obtain ⟨o, ho, hr⟩ := Option.bind_eq_some_iff.mp hstep
  obtain ⟨heap, hrelease, hdeleted, -, hset⟩ := h.release ho
  obtain ⟨harranged, hcontents⟩ := hset none nofun
  rw [hrelease] at hr
  cases hr
  have hledger : ledger ⟨s.objects.set i none, heap, s.appended⟩ = s.ledger.leave i := by
    rw [ledger, hcontents, hdeleted]
    simp only [Ledger.leave, Ledger.release, Ledger.set, List.set_set]
    rfl
  refine ⟨_, rfl, ⟨harranged, ?_⟩, hledger⟩
  rw [hledger]
  exact h.balanced.leave (lt_ledger ho)

/-- There is room for a channel that the caller may put into an object. -/
theorem Tidy.append (h : s.Tidy) {io : Nat} {r : Res IoPtrRun}
    (hstep : s.step (.append i io) = some r) :
    ∃ s', r = .ok s' ∧ s'.Tidy ∧ s'.ledger = s.ledger.acquire i io := by
  obtain ⟨o, ho, hr⟩ := Option.bind_eq_some_iff.mp hstep
  obtain ⟨⟨hcapacity, hfresh⟩, hr⟩ := Option.ite_none_right_eq_some.mp hr
  have hsound := h.arranged.sound i o ho
  have hroom : o.ptr.index < o.ptr.num := by
    have happends := hsound.appends
    have hnum := hsound.capacity
    omega
  obtain ⟨p, heap, happend, hholds, hios, hnum, hindex, hdeleted, hframe⟩ :=
    hsound.holds.append hroom io
  rw [happend] at hr
  cases hr
  have hpointers := hholds.pointers_eq
  have hspares : Spares s.objects i s.heap heap
      (some { o with ptr := p, appends := o.appends + 1 }) :=
    spares_own h.arranged ho hframe (by rintro o' ⟨⟩; exact .inr hios)
  have hledger : ledger ⟨s.objects.set i (some { o with ptr := p, appends := o.appends + 1 }),
      heap, s.appended ++ [io]⟩ = s.ledger.acquire i io := by
    rw [ledger, contents_set hspares, hdeleted]
    simp only [Option.map_some, hpointers, Ledger.acquire, holding_ledger ho]
    rfl
  refine ⟨_, rfl, ⟨?_, ?_⟩, hledger⟩
  · refine h.arranged.set (lt_of_object ho) hspares ?_
    rintro o' ⟨⟩
    refine IoPtrObject.sound_of_holds hholds ?_ ?_
    · rw [hindex, ← hsound.appends]
    · rw [hnum]
      exact hsound.capacity
  · rw [hledger]
    exact h.balanced.acquire (lt_ledger ho) hfresh

/-- An array goes from object `i` to object `j`, which has nothing. -/
theorem Tidy.move (h : s.Tidy) {j : Nat} (hij : i ≠ j) (ho : s.object i = some o)
    (hj : j < s.objects.length) (hempty : s.ledger.holding j = []) :
    let s' := { s with objects := (s.objects.set j (some o)).set i (some {}) }
    s'.Tidy ∧ s'.ledger = s.ledger.move i j := by
  intro s'
  obtain ⟨harranged, hcontents⟩ := h.arranged.move hij ho hj
  have hledger : s'.ledger = s.ledger.move i j := by
    rw [Ledger.move, hempty, List.nil_append, holding_ledger ho]
    exact congrArg (Ledger.mk · s.heap.deleted s.appended) hcontents
  refine ⟨⟨harranged, ?_⟩, hledger⟩
  rw [hledger]
  exact h.balanced.move hij (lt_ledger ho) (by rwa [length_ledger])

theorem Tidy.moveAssign (h : s.Tidy) {lhs rhs : Nat} {r : Res IoPtrRun}
    (hstep : s.step (.moveAssign lhs rhs) = some r) :
    ∃ s', r = .ok s' ∧ s'.Tidy ∧ s'.ledger = (s.ledger.release lhs).move rhs lhs := by
  obtain ⟨o, ho, hr⟩ := Option.bind_eq_some_iff.mp hstep
  obtain ⟨o', ho', hr⟩ := Option.bind_eq_some_iff.mp hr
  by_cases hne : lhs = rhs
  · simp [hne] at hr
  rw [if_neg hne] at hr
  obtain ⟨heap, hrelease, hdeleted, -, hset⟩ := h.release ho
  obtain ⟨harranged, hcontents⟩ := hset (some {}) (by rintro o'' ⟨⟩; rfl)
  -- `lhs` without what it held
  have hledger : ledger ⟨s.objects.set lhs (some {}), heap, s.appended⟩ =
      s.ledger.release lhs := by
    rw [ledger, hcontents, hdeleted]
    rfl
  have htidy : Tidy ⟨s.objects.set lhs (some {}), heap, s.appended⟩ := by
    refine ⟨harranged, ?_⟩
    rw [hledger]
    exact h.balanced.release (lt_ledger ho)
  have hrhs : (s.objects.set lhs (some {}))[rhs]?.join = some o' := by
    rw [List.getElem?_set_ne hne]
    exact ho'
  have hempty : (s.ledger.release lhs).holding lhs = [] :=
    Ledger.holding_set_self (lt_ledger ho) (some [])
  obtain ⟨hmoved, hmovedLedger⟩ := htidy.move (Ne.symm hne) hrhs
    (by rw [List.length_set]; exact lt_of_object ho) (by rw [hledger, hempty])
  rw [IoPtr.moveAssign, hrelease] at hr
  cases hr
  rw [hledger] at hmovedLedger
  simp only [List.set_set] at hmoved hmovedLedger
  exact ⟨_, rfl, hmoved, hmovedLedger⟩

theorem Tidy.enter (h : s.Tidy) {heap : IoHeap} (hsound : o.Sound heap)
    (hempty : heap.pointers o.ptr.ios = [])
    (hnew : o.ptr.ios = none ∨ o.ptr.ios = some s.heap.arrays.length)
    (hdeleted : heap.deleted = s.heap.deleted)
    (hframe : ∀ ios, ios ≠ some s.heap.arrays.length → heap.array? ios = s.heap.array? ios) :
    let s' := { s with objects := s.objects ++ [some o], heap }
    s'.Tidy ∧ s'.ledger = s.ledger.enter := by
  intro s'
  have hpush := h.arranged.push
  have hspares : Spares (s.objects ++ [none]) s.objects.length s.heap heap (some o) :=
    spares_fresh hpush hframe (by rintro o' ⟨⟩; exact hnew)
  have hset : (s.objects ++ [none]).set s.objects.length (some o) = s.objects ++ [some o] := by
    simp
  have hledger : s'.ledger = s.ledger.enter := by
    simp only [ledger, s', hdeleted, ← hset, contents_set hspares]
    simp [contents, Ledger.enter, hempty]
  refine ⟨⟨?_, ?_⟩, hledger⟩
  · simp only [s', ← hset]
    exact hpush.set (by simp) hspares (by rintro o' ⟨⟩; exact hsound)
  · rw [hledger]
    exact h.balanced.enter

theorem Tidy.construct (h : s.Tidy) {num : Int} {r : Res IoPtrRun}
    (hstep : s.step (.construct num) = some r) :
    ∃ s', r = .ok s' ∧ s'.Tidy ∧ s'.ledger = s.ledger.enter := by
  rcases Int.lt_or_le 0 num with hnum | hnum
  · obtain ⟨p, heap, hreserve, hholds, hpnum, hios, hdeleted, hframe⟩ :=
      IoPtr.reserve_holds (p := {}) rfl (Int.le_of_lt hnum) s.heap
    have hconstruct : IoPtr.construct num s.heap = (p, heap) := by
      rw [IoPtr.construct, if_pos hnum, hreserve, Option.getD_some]
    have hsound : IoPtrObject.Sound ⟨p, num, 0⟩ heap :=
      IoPtrObject.sound_of_holds hholds hholds.index_eq.symm (Int.le_of_eq hpnum.symm)
    have henter := h.enter hsound hholds.pointers_eq (.inr hios) hdeleted hframe
    simp only [IoPtrRun.step, hconstruct] at hstep
    cases hstep
    exact ⟨_, rfl, henter⟩
  · have hconstruct : IoPtr.construct num s.heap = ({}, s.heap) := if_neg (Int.not_lt.mpr hnum)
    have hsound : IoPtrObject.Sound ⟨{}, num, 0⟩ s.heap := ⟨.empty, rfl, hnum⟩
    have henter := h.enter hsound rfl (.inl rfl) rfl fun _ _ => rfl
    simp only [IoPtrRun.step, hconstruct] at hstep
    cases hstep
    exact ⟨_, rfl, henter⟩

theorem Tidy.moveConstruct (h : s.Tidy) {rhs : Nat} {r : Res IoPtrRun}
    (hstep : s.step (.moveConstruct rhs) = some r) :
    ∃ s', r = .ok s' ∧ s'.Tidy ∧
      s'.ledger = s.ledger.enter.move rhs s.ledger.holders.length := by
  obtain ⟨o, ho, hr⟩ := Option.bind_eq_some_iff.mp hstep
  cases hr
  have hlt := lt_of_object ho
  obtain ⟨htidy, hledger⟩ := h.enter (sound_empty s.heap) rfl (.inl rfl) rfl fun _ _ => rfl
  have hrhs : (s.objects ++ [some ({} : IoPtrObject)])[rhs]?.join = some o := by
    rw [List.getElem?_append_left hlt]
    exact ho
  have hempty : s.ledger.enter.holding s.objects.length = [] := by
    rw [← length_ledger, Ledger.holding, Ledger.enter, List.getElem?_concat_length]
    rfl
  obtain ⟨hmoved, hmovedLedger⟩ := htidy.move (Nat.ne_of_lt hlt) hrhs (by simp)
    (by rw [hledger, hempty])
  have hset : ((s.objects ++ [some ({} : IoPtrObject)]).set s.objects.length (some o)).set rhs
      (some {}) = s.objects.set rhs (some {}) ++ [some o] := by
    rw [List.set_append_right _ _ (Nat.le_refl _), List.set_append_left _ _ hlt, Nat.sub_self]
    rfl
  rw [hledger] at hmovedLedger
  rw [length_ledger]
  simp only [hset] at hmoved hmovedLedger
  exact ⟨_, rfl, hmoved, hmovedLedger⟩

/-- Where an object holds nothing, there may be another one that holds nothing. -/
theorem Tidy.place (h : s.Tidy) (ho : s.object i = some o)
    (hempty : s.heap.pointers o.ptr.ios = []) {o' : IoPtrObject} {heap : IoHeap}
    (hspares : Spares s.objects i s.heap heap (some o')) (hsound : o'.Sound heap)
    (hempty' : heap.pointers o'.ptr.ios = []) (hdeleted : heap.deleted = s.heap.deleted) :
    let s' : IoPtrRun := ⟨s.objects.set i (some o'), heap, s.appended⟩
    s'.Tidy ∧ s'.ledger = s.ledger.release i := by
  intro s'
  have hledger : s'.ledger = s.ledger.release i := by
    rw [Ledger.release, holding_ledger ho, hempty, List.append_nil, ledger,
      contents_set hspares, hdeleted, Option.map_some, hempty']
    rfl
  refine ⟨⟨h.arranged.set (lt_of_object ho) hspares ?_, ?_⟩, hledger⟩
  · rintro o'' ⟨⟩
    exact hsound
  · rw [hledger]
    exact h.balanced.release (lt_ledger ho)

/-- `reserve` throws or makes a new array; an object that held nothing then holds nothing. -/
theorem Tidy.resize (h : s.Tidy) {num : Int} {r : Res IoPtrRun}
    (hok : s.resizesEmpty (.resize i num) = true) (hstep : s.step (.resize i num) = some r) :
    ∃ s', r = .ok s' ∧ s'.Tidy ∧ s'.ledger = s.ledger.release i := by
  obtain ⟨o, ho, hr⟩ := Option.bind_eq_some_iff.mp hstep
  have hindex : o.ptr.index = 0 := by simpa [resizesEmpty, ho] using hok
  have hsound := h.arranged.sound i o ho
  have hempty : s.heap.pointers o.ptr.ios = [] := by
    have hlength := hsound.holds.index_eq
    rw [hindex] at hlength
    exact List.length_eq_zero_iff.mp (by omega)
  have hrelease : o.ptr.release s.heap = .ok s.heap := if_neg (by omega)
  rcases Int.lt_or_le num 0 with hnum | hnum
  · have hthrows : o.ptr.reserve num s.heap = none := if_pos hnum
    have hresize : o.ptr.resize num s.heap = .ok (o.ptr, s.heap) := by
      rw [IoPtr.resize, hrelease, ok_bind, hthrows]
      rfl
    have hspares : Spares s.objects i s.heap s.heap (some o) :=
      spares_own h.arranged ho (fun _ _ => rfl) (by rintro o' ⟨⟩; exact .inr rfl)
    simp only [hresize, ok_bind, if_pos hnum] at hr
    cases hr
    exact ⟨_, rfl, h.place ho hempty hspares hsound hempty rfl⟩
  · obtain ⟨p, heap, hreserve, hholds, hpnum, hios, hdeleted, hframe⟩ :=
      IoPtr.reserve_holds hindex hnum s.heap
    have hresize : o.ptr.resize num s.heap = .ok (p, heap) := by
      rw [IoPtr.resize, hrelease, ok_bind, hreserve]
      rfl
    have hspares : Spares s.objects i s.heap heap (some ⟨p, num, 0⟩) :=
      spares_fresh h.arranged hframe (by rintro o' ⟨⟩; exact .inr hios)
    simp only [hresize, ok_bind, if_neg (Int.not_lt.mpr hnum)] at hr
    cases hr
    have hsound' : IoPtrObject.Sound ⟨p, num, 0⟩ heap :=
      IoPtrObject.sound_of_holds hholds hholds.index_eq.symm (Int.le_of_eq hpnum.symm)
    exact ⟨_, rfl, h.place ho hempty hspares hsound' hholds.pointers_eq hdeleted⟩

/-- **Step lemma**: each operation, a resize on an object that holds nothing, succeeds, keeps
the invariant and does to the owners what it is for. -/
theorem Tidy.step (h : s.Tidy) {op : IoPtrOp} {r : Res IoPtrRun}
    (hok : s.resizesEmpty op = true) (hstep : s.step op = some r) :
    ∃ s', r = .ok s' ∧ s'.Tidy ∧ s'.ledger = op.onLedger s.ledger := by
  cases op with
  | construct num => exact h.construct hstep
  | moveConstruct rhs => exact h.moveConstruct hstep
  | moveAssign lhs rhs => exact h.moveAssign hstep
  | append i io => exact h.append hstep
  | resize i num => exact h.resize hok hstep
  | destroy i => exact h.destroy hstep

/-- A resize of an object that holds a channel leaves it without an array, or with a first
slot that is not written. -/
theorem Tidy.not_right (h : s.Tidy) {op : IoPtrOp} {r : Res IoPtrRun}
    (hbad : s.resizesEmpty op = false) (hstep : s.step op = some r) :
    ¬ ∃ s', r = .ok s' ∧ s'.Right := by
  cases op with
  | resize i num =>
    obtain ⟨o, ho, hr⟩ := Option.bind_eq_some_iff.mp hstep
    have hholds := (h.arranged.sound i o ho).holds
    have hindex : o.ptr.index ≠ 0 := by simpa [resizesEmpty, ho] using hbad
    have hpos : 0 < o.ptr.index := by
      have hbounds := hholds.bounds
      omega
    obtain ⟨heap, hrelease, -, hfreed, -⟩ := h.release ho
    have hgone : heap.array? o.ptr.ios = none := by
      refine hfreed fun hnil => ?_
      rw [holding_ledger ho] at hnil
      have hlength := hholds.index_eq
      rw [hnil, List.length_nil] at hlength
      exact hindex hlength
    have hget (o' : IoPtrObject) (heap' : IoHeap) :
        object ⟨s.objects.set i (some o'), heap', s.appended⟩ i = some o' := by
      rw [object, List.getElem?_set_self (lt_of_object ho), Option.join_some]
    rintro ⟨s', rfl, hright⟩
    rcases Int.lt_or_le num 0 with hnum | hnum
    · have hresize : o.ptr.resize num s.heap = .ok (o.ptr, heap) := by
        rw [IoPtr.resize, hrelease, ok_bind, IoPtr.reserve, if_pos hnum]
        rfl
      simp only [hresize, ok_bind, if_pos hnum] at hr
      cases hr
      obtain ⟨io, hio⟩ := ((hright.slots i _ (hget _ _)).2 0).mpr hpos
      simp [IoHeap.slots, hgone] at hio
    · have hresize : o.ptr.resize num s.heap =
          .ok ({ o.ptr with ios := some heap.arrays.length, num := num },
            { heap with arrays := heap.arrays ++ [some (.replicate num.toNat none)] }) := by
        rw [IoPtr.resize, hrelease, ok_bind, IoPtr.reserve, if_neg (Int.not_lt.mpr hnum)]
        rfl
      simp only [hresize, ok_bind, if_neg (Int.not_lt.mpr hnum)] at hr
      cases hr
      obtain ⟨io, hio⟩ := ((hright.slots i _ (hget _ _)).2 0).mpr hpos
      simp [IoHeap.slots, IoHeap.array?_push_self, List.getElem?_replicate] at hio
  | _ => cases hbad

end IoPtrRun

open IoPtrRun in
/-- **Every channel is owned once**, in every state of a run, and no operation leaves its
memory, if and only if `resize` is called on objects only that hold nothing. -/
theorem ioPtrMachine_iff {es : List IoPtrOp} (hrun : (ioPtrMachine.run es).isSome) :
    (∀ es' r, es' <+: es → ioPtrMachine.run es' = some r → ∃ s, r = .ok s ∧ s.Right) ↔
      ((ioPtrMachine.restrict (whereOk resizesEmpty)).run es).isSome := by
  refine Machine.restrict_run_iff (fun r : Res IoPtrRun => ∃ s, r = .ok s ∧ s.Tidy)
    (fun r : Res IoPtrRun => ∃ s, r = .ok s ∧ s.Right) ⟨init, rfl, tidy_init⟩
    ⟨init, rfl, tidy_init.right⟩ ?_ ?_ hrun
  · rintro r e r' ⟨s, rfl, hs⟩ hok hstep
    obtain ⟨s', rfl, hs', -⟩ := hs.step hok hstep
    exact ⟨s', rfl, hs'⟩
  · rintro r e r' ⟨s, rfl, hs⟩ - hstep
    constructor
    · intro hright
      by_contra hbad
      exact hs.not_right (Bool.eq_false_iff.mpr hbad) hstep hright
    · intro hok
      obtain ⟨s', rfl, hs', -⟩ := hs.step hok hstep
      exact ⟨s', rfl, hs'.right⟩

/-- A group as `accept` makes it and as it is assigned to the one of the caller. -/
theorem ioPtrMachine_iff_accepted :
    let es : List IoPtrOp := [.construct 0, .construct 2, .append 1 7, .append 1 8,
      .moveAssign 0 1, .destroy 1, .destroy 0]
    ∃ s, ioPtrMachine.run es = some (.ok s) ∧ s.Right ∧ s.heap.deleted = [7, 8] := by
  intro es
  have hall := (ioPtrMachine_iff (by decide : (ioPtrMachine.run es).isSome)).mpr (by decide)
  obtain ⟨s, hs, hright⟩ := hall es _ (List.prefix_refl es) rfl
  cases hs
  exact ⟨_, rfl, hright, rfl⟩

/-- One channel, and a `resize` to the same size: the first of the slots that the object takes
for written is not. -/
theorem ioPtrMachine_resized :
    ¬ ∀ es r, ioPtrMachine.run es = some r → ∃ s, r = .ok s ∧ s.Right := by
  intro hall
  obtain ⟨s, hs, hright⟩ := hall [.construct 1, .append 0 7, .resize 0 1] _ rfl
  cases hs
  obtain ⟨io, hio⟩ := ((hright.slots 0 _ rfl).2 0).mpr (by decide)
  cases hio

end ZktlsNet
