import Mathlib.Tactic.TypeStar

/-!
# Threads around a condition variable

Items come and go under a lock. A thread that holds the lock takes an item, or waits if
there is none; whoever adds an item notifies one of those that wait. A notified thread
gets the lock some time later, when another one may have taken its item.

- `Monitor`: how many items there are, and how many threads wait.
- `Monitor.Step.live`: no notification is lost. While a thread waits that has not been
  notified, there are as many notified ones as there are items.
-/

namespace NetLib

/-- The items, the threads that wait and have not been notified, and those that have been
and do not hold the lock yet. -/
structure Monitor where
  items : Nat
  waiting : Nat
  notified : Nat
  deriving DecidableEq, Repr

namespace Monitor

/-- What happens under the lock, or to a thread that waits. -/
inductive Step (m : Monitor) : Monitor → Prop
  /-- items are taken out, or nothing happens -/
  | take {items : Nat} (h : items ≤ m.items) : Step m { m with items }
  /-- an item is added while nobody waits -/
  | add {items : Nat} (h : m.waiting = 0) : Step m { m with items }
  /-- a thread is notified, for an item or without one -/
  | notify {items : Nat} (hwait : 0 < m.waiting) (h : items ≤ m.items + 1) :
    Step m ⟨items, m.waiting - 1, m.notified + 1⟩
  /-- a thread with the lock finds no item -/
  | block (h : m.items = 0) : Step m { m with waiting := m.waiting + 1 }
  /-- a notified thread takes an item -/
  | resume {items : Nat} (hnotified : 0 < m.notified) (h : items < m.items) :
    Step m ⟨items, m.waiting, m.notified - 1⟩
  /-- a notified thread comes too late -/
  | late (hnotified : 0 < m.notified) (h : m.items = 0) :
    Step m ⟨0, m.waiting + 1, m.notified - 1⟩

/-- While a thread waits that has not been notified, each item has one on its way. -/
def Live (m : Monitor) : Prop := m.waiting = 0 ∨ m.items ≤ m.notified

/-- **One step** loses no notification. -/
theorem Step.live {m m' : Monitor} (h : Step m m') (hlive : m.Live) : m'.Live := by
  unfold Live at hlive ⊢
  cases h with
  | take h | add h | notify hwait h | block h | resume hnotified h | late hnotified h =>
    simp only
    omega

/-- With no thread on its way, nobody waits or there is nothing to take. -/
theorem Live.rest {m : Monitor} (h : m.Live) (hnotified : m.notified = 0) :
    m.waiting = 0 ∨ m.items = 0 := by
  rcases h with h | h
  · exact .inl h
  · exact .inr (by omega)

end Monitor

end NetLib
