import Mathlib.Data.List.Basic
import Mathlib.Data.List.Perm.Subperm

/-!
# Singly linked lists in a heap

A heap of nodes with a `next` pointer and a payload; allocations are numbered, and a freed
one is gone for good. `Linked h l cells` says that the chain of pointers from `l` visits
the given cells and ends in null.

- `Linked.frame`: a heap that agrees on the cells has the same chain.
- `Linked.nodup`: a chain that ends visits no node twice.
- `Linked.length_le`: so it is no longer than the heap, which bounds a walk along it.
-/

namespace NetLib

universe u v

/-- A pointer: the number of an allocation. -/
abbrev Ptr := Nat

/-- A node; the null pointer is `none`. -/
structure ListNode (α : Type u) where
  next : Option Ptr
  data : α
  deriving DecidableEq, Repr

/-- What each allocation holds; `none` once it has been freed. -/
abbrev ListHeap (α : Type u) := List (Option (ListNode α))

namespace ListHeap

variable {α : Type u}

/-- A node that is allocated. -/
def read (h : ListHeap α) (p : Ptr) : Option (ListNode α) := h[p]?.join

def write (h : ListHeap α) (p : Ptr) (node : ListNode α) : ListHeap α := h.set p (some node)

def free (h : ListHeap α) (p : Ptr) : ListHeap α := h.set p none

/-- A new node; its pointer is `h.length`. -/
def alloc (h : ListHeap α) (node : ListNode α) : ListHeap α := h ++ [some node]

theorem lt_of_read {h : ListHeap α} {p : Ptr} {node : ListNode α} (hp : h.read p = some node) :
    p < h.length := by
  by_contra hlt
  rw [read, List.getElem?_eq_none (Nat.le_of_not_lt hlt)] at hp
  cases hp

theorem read_write_self {h : ListHeap α} {p : Ptr} (hp : p < h.length) (node : ListNode α) :
    (h.write p node).read p = some node := by
  rw [read, write, List.getElem?_set_self hp]
  rfl

theorem read_write_ne {h : ListHeap α} {p q : Ptr} (hpq : p ≠ q) (node : ListNode α) :
    (h.write p node).read q = h.read q := by
  rw [read, write, List.getElem?_set_ne hpq, read]

theorem read_free_ne {h : ListHeap α} {p q : Ptr} (hpq : p ≠ q) :
    (h.free p).read q = h.read q := by
  rw [read, free, List.getElem?_set_ne hpq, read]

theorem read_alloc_self (h : ListHeap α) (node : ListNode α) :
    (h.alloc node).read h.length = some node := by
  rw [read, alloc, List.getElem?_append_right (Nat.le_refl _), Nat.sub_self]
  rfl

theorem read_alloc_of_lt {h : ListHeap α} {p : Ptr} (hp : p < h.length) (node : ListNode α) :
    (h.alloc node).read p = h.read p := by
  rw [read, alloc, List.getElem?_append_left hp, read]

@[simp] theorem length_write (h : ListHeap α) (p : Ptr) (node : ListNode α) :
    (h.write p node).length = h.length := List.length_set

/-- Access through a pointer that may be dangling, which fails with `e`. -/
def deref {ε : Type v} (e : ε) (h : ListHeap α) (p : Ptr) : Except ε (ListNode α) :=
  match h.read p with
  | some node => .ok node
  | none => .error e

/-- `p->next = next`. -/
def setNext {ε : Type v} (e : ε) (h : ListHeap α) (p : Ptr) (next : Option Ptr) :
    Except ε (ListHeap α) :=
  match h.read p with
  | some node => .ok (h.write p { node with next := next })
  | none => .error e

theorem deref_of_read {ε : Type v} (e : ε) {h : ListHeap α} {p : Ptr} {node : ListNode α}
    (hp : h.read p = some node) : h.deref e p = .ok node := by
  rw [deref, hp]

theorem setNext_of_read {ε : Type v} (e : ε) {h : ListHeap α} {p : Ptr} {old : Option Ptr} {a : α}
    (hp : h.read p = some ⟨old, a⟩) (next : Option Ptr) :
    h.setNext e p next = .ok (h.write p ⟨next, a⟩) := by
  rw [setNext, hp]

/-- The chain from a pointer: the nodes it visits, with their payloads. -/
def Linked (h : ListHeap α) : Option Ptr → List (Ptr × α) → Prop
  | l, [] => l = none
  | l, c :: cells => l = some c.1 ∧ ∃ next, h.read c.1 = some ⟨next, c.2⟩ ∧ Linked h next cells

theorem linked_nil {h : ListHeap α} {l : Option Ptr} : Linked h l [] ↔ l = none := Iff.rfl

theorem linked_cons {h : ListHeap α} {l : Option Ptr} {c : Ptr × α} {cells : List (Ptr × α)} :
    Linked h l (c :: cells) ↔
      l = some c.1 ∧ ∃ next, h.read c.1 = some ⟨next, c.2⟩ ∧ Linked h next cells := Iff.rfl

/-- A heap that agrees on the cells has the same chain. -/
theorem Linked.frame {h h' : ListHeap α} {l : Option Ptr} {cells : List (Ptr × α)}
    (hl : Linked h l cells) (hsame : ∀ c ∈ cells, h'.read c.1 = h.read c.1) :
    Linked h' l cells := by
  induction cells generalizing l with
  | nil => exact hl
  | cons c cells ih =>
    obtain ⟨rfl, next, hread, hrest⟩ := hl
    refine ⟨rfl, next, ?_, ih hrest fun d hd => hsame d (List.mem_cons_of_mem _ hd)⟩
    rw [hsame c List.mem_cons_self, hread]

/-- A pointer has one chain. -/
theorem Linked.unique {h : ListHeap α} {l : Option Ptr} {cells cells' : List (Ptr × α)}
    (hl : Linked h l cells) (hl' : Linked h l cells') : cells = cells' := by
  induction cells generalizing l cells' with
  | nil =>
    cases cells' with
    | nil => rfl
    | cons c' cells' =>
      rw [Linked] at hl
      subst hl
      cases hl'.1
  | cons c cells ih =>
    obtain ⟨rfl, next, hread, hrest⟩ := hl
    cases cells' with
    | nil => cases hl'
    | cons c' cells' =>
      obtain ⟨hc, next', hread', hrest'⟩ := hl'
      rw [← Option.some.inj hc, hread, Option.some.injEq, ListNode.mk.injEq] at hread'
      obtain ⟨rfl, hdata⟩ := hread'
      rw [Prod.ext (Option.some.inj hc) hdata, ih hrest hrest']

/-- The chain from a cell that is visited. -/
theorem Linked.suffix {h : ListHeap α} {l : Option Ptr} {before after : List (Ptr × α)}
    {c : Ptr × α} (hl : Linked h l (before ++ c :: after)) :
    Linked h (some c.1) (c :: after) := by
  induction before generalizing l with
  | nil =>
    obtain ⟨rfl, hrest⟩ := hl
    exact ⟨rfl, hrest⟩
  | cons b before ih =>
    obtain ⟨-, next, -, hrest⟩ := hl
    exact ih hrest

/-- **A chain that ends visits no node twice.** -/
theorem Linked.nodup {h : ListHeap α} {l : Option Ptr} {cells : List (Ptr × α)}
    (hl : Linked h l cells) : (cells.map Prod.fst).Nodup := by
  induction cells generalizing l with
  | nil => exact List.nodup_nil
  | cons c cells ih =>
    obtain ⟨rfl, next, -, hnext⟩ := linked_cons.mp hl
    refine List.nodup_cons.mpr ⟨fun hmem => ?_, ih hnext⟩
    -- otherwise the same pointer would have a longer and a shorter chain
    obtain ⟨d, hd, hdc⟩ := List.mem_map.mp hmem
    obtain ⟨before, after, rfl⟩ := List.append_of_mem hd
    have hshort := hnext.suffix
    rw [hdc] at hshort
    have hlen := congrArg List.length (hl.unique hshort)
    simp only [List.length_cons, List.length_append] at hlen
    omega

theorem Linked.read_of_mem {h : ListHeap α} {l : Option Ptr} {cells : List (Ptr × α)}
    (hl : Linked h l cells) {c : Ptr × α} (hc : c ∈ cells) :
    ∃ next, h.read c.1 = some ⟨next, c.2⟩ := by
  obtain ⟨before, after, rfl⟩ := List.append_of_mem hc
  obtain ⟨-, next, hread, -⟩ := hl.suffix
  exact ⟨next, hread⟩

/-- The cells of a chain are allocated. -/
theorem Linked.lt_of_mem {h : ListHeap α} {l : Option Ptr} {cells : List (Ptr × α)}
    (hl : Linked h l cells) {c : Ptr × α} (hc : c ∈ cells) : c.1 < h.length := by
  obtain ⟨next, hread⟩ := hl.read_of_mem hc
  exact lt_of_read hread

/-- **A chain is no longer than the heap.** -/
theorem Linked.length_le {h : ListHeap α} {l : Option Ptr} {cells : List (Ptr × α)}
    (hl : Linked h l cells) : cells.length ≤ h.length := by
  have hsub : cells.map Prod.fst ⊆ List.range h.length := by
    intro p hp
    obtain ⟨c, hc, rfl⟩ := List.mem_map.mp hp
    exact List.mem_range.mpr (hl.lt_of_mem hc)
  have hlen := (List.subperm_of_subset hl.nodup hsub).length_le
  rwa [List.length_map, List.length_range] at hlen

end ListHeap

end NetLib
