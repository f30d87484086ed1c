import Mathlib.Data.List.Basic
import Mathlib.Data.List.Nodup
import Mathlib.Data.List.Perm.Basic

/-!
# Ledgers of resources

Owners come and go, acquire resources, hand all they hold to another owner, or release it.
`Balanced` is the conservation law of such a system: what is held and what has been released
is what has been acquired, each thing once.

- `Balanced.enter`, `Balanced.acquire`, `Balanced.release`, `Balanced.move`,
  `Balanced.leave`: every operation keeps it.
- `Balanced.held_nodup`, `Balanced.not_released`: nothing is held twice, or held after it
  was released.
- `Balanced.released_perm`: when all owners are gone, everything has been released once.
-/

namespace NetLib

universe u

/-- What each owner holds (`none` once it is gone), and what was released and acquired. -/
structure Ledger (α : Type u) where
  holders : List (Option (List α))
  released : List α
  acquired : List α
  deriving DecidableEq, Repr

namespace Ledger

variable {α : Type u}

/-- What an owner holds; one that is gone holds nothing. -/
def holding (l : Ledger α) (i : Nat) : List α := (l.holders[i]?.join).getD []

/-- What is held. -/
def held (l : Ledger α) : List α := l.holders.flatMap (·.getD [])

def set (l : Ledger α) (i : Nat) (holder : Option (List α)) : Ledger α :=
  { l with holders := l.holders.set i holder }

/-- A new owner. -/
def enter (l : Ledger α) : Ledger α := { l with holders := l.holders ++ [some []] }

/-- An owner acquires something. -/
def acquire (l : Ledger α) (i : Nat) (a : α) : Ledger α :=
  { l.set i (some (l.holding i ++ [a])) with acquired := l.acquired ++ [a] }

/-- An owner releases what it holds. -/
def release (l : Ledger α) (i : Nat) : Ledger α :=
  { l.set i (some []) with released := l.released ++ l.holding i }

/-- Owner `i` hands what it holds to owner `j`. -/
def move (l : Ledger α) (i j : Nat) : Ledger α :=
  (l.set j (some (l.holding j ++ l.holding i))).set i (some [])

/-- An owner releases what it holds, and goes. -/
def leave (l : Ledger α) (i : Nat) : Ledger α := (l.release i).set i none

/-- Each thing that was acquired is held by one owner or has been released, once. -/
structure Balanced (l : Ledger α) : Prop where
  perm : (l.held ++ l.released).Perm l.acquired
  nodup : l.acquired.Nodup

/-! ## What is held -/

theorem holding_of_get {l : Ledger α} {i : Nat} {xs : List α} (h : l.holders[i]? = some (some xs)) :
    l.holding i = xs := by
  rw [holding, h]
  rfl

theorem holding_set_self {l : Ledger α} {i : Nat} (hi : i < l.holders.length)
    (holder : Option (List α)) : (l.set i holder).holding i = holder.getD [] := by
  rw [holding, set, List.getElem?_set_self hi]
  rfl

theorem holding_set_ne {l : Ledger α} {i j : Nat} (hij : i ≠ j) (holder : Option (List α)) :
    (l.set i holder).holding j = l.holding j := by
  rw [holding, set, List.getElem?_set_ne hij, holding]

@[simp] theorem length_set (l : Ledger α) (i : Nat) (holder : Option (List α)) :
    (l.set i holder).holders.length = l.holders.length := List.length_set

/-- Changing what one owner holds changes what is held by as much. -/
theorem held_set_perm {l : Ledger α} {i : Nat} (hi : i < l.holders.length)
    (holder : Option (List α)) :
    (l.holding i ++ (l.set i holder).held).Perm (holder.getD [] ++ l.held) := by
  obtain ⟨holders, released, acquired⟩ := l
  simp only [held, holding, set] at hi ⊢
  induction holders generalizing i with
  | nil => exact absurd hi (Nat.not_lt_zero i)
  | cons x holders ih =>
    cases i with
    | zero =>
      simp only [List.getElem?_cons_zero, Option.join_some, List.set_cons_zero,
        List.flatMap_cons, ← List.append_assoc]
      exact List.perm_append_comm.append_right _
    | succ i =>
      simp only [List.getElem?_cons_succ, List.set_cons_succ, List.flatMap_cons]
      refine (List.perm_append_comm_assoc _ _ _).trans ?_
      refine ((ih (Nat.lt_of_succ_lt_succ hi)).append_left _).trans ?_
      exact List.perm_append_comm_assoc _ _ _

theorem held_enter (l : Ledger α) : l.enter.held = l.held := by
  simp [held, enter]

theorem held_acquire (l : Ledger α) {i : Nat} (hi : i < l.holders.length) (a : α) :
    (l.acquire i a).held.Perm (l.held ++ [a]) := by
  have hset : (l.holding i ++ (l.acquire i a).held).Perm (l.holding i ++ [a] ++ l.held) :=
    held_set_perm hi _
  rw [List.append_assoc, List.perm_append_left_iff] at hset
  exact hset.trans List.perm_append_comm

theorem held_release (l : Ledger α) {i : Nat} (hi : i < l.holders.length) :
    (l.holding i ++ (l.release i).held).Perm l.held :=
  held_set_perm hi _

theorem held_move (l : Ledger α) {i j : Nat} (hij : i ≠ j) (hi : i < l.holders.length)
    (hj : j < l.holders.length) : (l.move i j).held.Perm l.held := by
  have hgive := held_set_perm (l := l.set j (some (l.holding j ++ l.holding i)))
    (i := i) (by rwa [length_set]) (some [])
  rw [holding_set_ne (Ne.symm hij)] at hgive
  have htake := held_set_perm hj (some (l.holding j ++ l.holding i))
  rw [Option.getD_some, List.append_assoc, List.perm_append_left_iff] at htake
  exact (List.perm_append_left_iff _).mp (hgive.trans htake)

theorem held_leave (l : Ledger α) {i : Nat} (hi : i < l.holders.length) :
    (l.leave i).held.Perm (l.release i).held := by
  have hset := held_set_perm (l := l.release i) (i := i) (by simpa [release] using hi) none
  have hnone : (l.release i).holding i = [] := holding_set_self hi (some [])
  rwa [hnone] at hset

/-! ## The operations keep the balance -/

variable {l : Ledger α}

theorem Balanced.enter (h : l.Balanced) : l.enter.Balanced where
  perm := by
    rw [held_enter]
    exact h.perm
  nodup := h.nodup

theorem Balanced.acquire (h : l.Balanced) {i : Nat} (hi : i < l.holders.length) {a : α}
    (ha : a ∉ l.acquired) : (l.acquire i a).Balanced where
  perm := by
    refine ((held_acquire l hi a).append_right _).trans ?_
    rw [List.append_assoc]
    refine (List.perm_append_comm.append_left _).trans ?_
    rw [← List.append_assoc]
    exact h.perm.append_right [a]
  nodup := by
    refine List.nodup_append.mpr ⟨h.nodup, List.nodup_singleton a, ?_⟩
    rintro x hx y hy rfl
    rw [List.mem_singleton.mp hy] at hx
    exact ha hx

theorem Balanced.release (h : l.Balanced) {i : Nat} (hi : i < l.holders.length) :
    (l.release i).Balanced where
  perm := by
    have hheld : ((l.release i).held ++ l.holding i).Perm l.held :=
      List.perm_append_comm.trans (held_release l hi)
    refine (List.perm_append_comm.append_left _).trans ?_
    rw [← List.append_assoc]
    exact (hheld.append_right _).trans h.perm
  nodup := h.nodup

theorem Balanced.move (h : l.Balanced) {i j : Nat} (hij : i ≠ j) (hi : i < l.holders.length)
    (hj : j < l.holders.length) : (l.move i j).Balanced where
  perm := ((held_move l hij hi hj).append_right _).trans h.perm
  nodup := h.nodup

theorem Balanced.leave (h : l.Balanced) {i : Nat} (hi : i < l.holders.length) :
    (l.leave i).Balanced where
  perm := ((held_leave l hi).append_right _).trans (h.release hi).perm
  nodup := h.nodup

/-! ## What the balance says -/

theorem Balanced.nodup_append (h : l.Balanced) : (l.held ++ l.released).Nodup :=
  h.perm.nodup_iff.mpr h.nodup

/-- Nothing is held twice. -/
theorem Balanced.held_nodup (h : l.Balanced) : l.held.Nodup :=
  (List.nodup_append.mp h.nodup_append).1

/-- What is held has not been released. -/
theorem Balanced.not_released (h : l.Balanced) {a : α} (ha : a ∈ l.held) : a ∉ l.released :=
  fun hr => (List.nodup_append.mp h.nodup_append).2.2 a ha a hr rfl

/-- What is held has been acquired. -/
theorem Balanced.acquired (h : l.Balanced) {a : α} (ha : a ∈ l.held) : a ∈ l.acquired :=
  h.perm.subset (List.mem_append_left _ ha)

/-- An owner's part of what is held. -/
theorem holding_sublist (l : Ledger α) (i : Nat) : (l.holding i).Sublist l.held := by
  rw [holding, held]
  cases hi : l.holders[i]? with
  | none => exact List.nil_sublist _
  | some holder =>
    exact List.sublist_flatten_of_mem (List.mem_map_of_mem (List.mem_of_getElem? hi))

/-- **When all owners are gone**, what was acquired has been released, each thing once. -/
theorem Balanced.released_perm (h : l.Balanced) (hgone : ∀ holder ∈ l.holders, holder = none) :
    l.released.Perm l.acquired := by
  have hnone : l.held = [] := by
    rw [held, List.flatMap_eq_nil_iff]
    intro holder hholder
    rw [hgone holder hholder]
    rfl
  have hperm := h.perm
  rwa [hnone] at hperm

end Ledger

end NetLib
