import ZktlsNet.Lib.Bitmap
import ZktlsNet.Ws.Failure

/-!
# Group numbers (`io_manager.cpp:5-35`)

A group of channels has a number, which all `IOManager`s take from one bitmap. The
search for a free number goes round the bitmap from where the last search ended,
and has no other end than finding one.

- `getUnusedPort_some`: a number that is found was free, and its bit is the only one
  that changes.
- `getUnusedPort_none`: one round without a free number means that there is none.
- `getUnusedPortLoop_stuck`: then the search goes on for ever.
-/

namespace ZktlsNet

open NetLib

/-- `PORT_MAP_SIZE`. -/
def portMapSize : Nat := 16

/-- `MAX_PORT_SEQ`. -/
def maxPortSeq : Nat := portMapSize * 8 * 8

/-- `port_map` and `port_seq`. -/
structure Ports where
  portMap : Bitmap 64 portMapSize
  portSeq : Nat
  deriving DecidableEq, Repr

namespace Ports

/-- At the start of the program. -/
def init : Ports := ⟨.empty, 1⟩

/-- The bit of a number is set. -/
def used (p : Ports) (n : Nat) : Bool := p.portMap.get n

/-- The end of a round of the search. -/
def nextSeq (portSeq : Nat) : Nat := if portSeq + 1 = maxPortSeq then 1 else portSeq + 1

/-- The loop of `get_unused_port`; `none` where it has not found a number yet. -/
def getUnusedPortLoop : Nat → Ports → Option (Nat × Ports)
  | 0, _ => none
  | fuel + 1, p =>
    let port := p.portSeq
    if p.used port then getUnusedPortLoop fuel { p with portSeq := nextSeq port }
    else some (port, ⟨p.portMap.insert port, nextSeq port⟩)

/-- `get_unused_port`, which holds its lock meanwhile; `none` where it never returns. -/
def getUnusedPort (p : Ports) : Option (Nat × Ports) := getUnusedPortLoop (maxPortSeq - 1) p

/-- `free_used_port`. -/
def freeUsedPort (p : Ports) (port : Nat) : Res Ports :=
  if port < maxPortSeq then .ok { p with portMap := p.portMap.erase port }
  else .error (.fault .outOfBounds)

/-- The search stays inside the bitmap, and number 0 is never taken. -/
structure Ok (p : Ports) : Prop where
  seq_pos : 1 ≤ p.portSeq
  seq_lt : p.portSeq < maxPortSeq
  used_pos : ∀ n, p.used n = true → 1 ≤ n ∧ n < maxPortSeq

theorem ok_init : init.Ok where
  seq_pos := Nat.le_refl _
  seq_lt := by decide
  used_pos n h := by simp [init, used] at h

theorem Ok.skip {p : Ports} (h : p.Ok) : Ok { p with portSeq := nextSeq p.portSeq } where
  seq_pos := by
    show 1 ≤ nextSeq p.portSeq
    unfold nextSeq
    split <;> omega
  seq_lt := by
    have := h.seq_lt
    show nextSeq p.portSeq < maxPortSeq
    unfold nextSeq
    split
    · decide
    · omega
  used_pos := h.used_pos

/-- Setting the bit of a number that the bitmap has. -/
theorem used_insert (p : Ports) {n : Nat} (hn : n < maxPortSeq) (seq j : Nat) :
    used ⟨p.portMap.insert n, seq⟩ j = (decide (n = j) || p.used j) :=
  p.portMap.get_insert hn j

theorem getUnusedPortLoop_some {fuel : Nat} {p p' : Ports} {n : Nat} (h : p.Ok)
    (hloop : getUnusedPortLoop fuel p = some (n, p')) :
    p'.Ok ∧ 1 ≤ n ∧ n < maxPortSeq ∧ p.used n = false ∧
      ∀ j, p'.used j = (decide (n = j) || p.used j) := by
  induction fuel generalizing p with
  | zero => cases hloop
  | succ fuel ih =>
    rw [getUnusedPortLoop] at hloop
    split at hloop
    · have hrest := ih h.skip hloop
      exact hrest
    · rename_i hfree
      cases hloop
      have hused := p.used_insert h.seq_lt (nextSeq p.portSeq)
      refine ⟨⟨h.skip.seq_pos, h.skip.seq_lt, ?_⟩, h.seq_pos, h.seq_lt, by simpa using hfree, hused⟩
      intro j hj
      rw [hused j, Bool.or_eq_true, decide_eq_true_eq] at hj
      rcases hj with rfl | hj
      · exact ⟨h.seq_pos, h.seq_lt⟩
      · exact h.used_pos j hj

/-- **A number that is found** was free, and only its bit changes. -/
theorem getUnusedPort_some {p p' : Ports} {n : Nat} (h : p.Ok)
    (hget : p.getUnusedPort = some (n, p')) :
    p'.Ok ∧ 1 ≤ n ∧ n < maxPortSeq ∧ p.used n = false ∧
      ∀ j, p'.used j = (decide (n = j) || p.used j) := getUnusedPortLoop_some h hget

/-! The number that the search looks at in round `i` is
`(portSeq - 1 + i) % (maxPortSeq - 1) + 1`. -/

theorem round_zero {seq : Nat} (hpos : 1 ≤ seq) (hlt : seq < maxPortSeq) :
    (seq - 1 + 0) % (maxPortSeq - 1) + 1 = seq := by
  rw [Nat.add_zero, Nat.mod_eq_of_lt (by omega)]
  omega

theorem round_succ {seq : Nat} (hpos : 1 ≤ seq) (i : Nat) :
    (nextSeq seq - 1 + i) % (maxPortSeq - 1) = (seq - 1 + (i + 1)) % (maxPortSeq - 1) := by
  unfold nextSeq
  split
  · have hwrap : seq - 1 + (i + 1) = i + (maxPortSeq - 1) := by omega
    rw [hwrap, Nat.add_mod_right]
    simp
  · congr 1
    omega

theorem round_reaches {seq n : Nat} (hpos : 1 ≤ seq) (hn : 1 ≤ n) (hlt : n < maxPortSeq) :
    (seq - 1 + (n - 1 + (maxPortSeq - 1) * seq - (seq - 1))) % (maxPortSeq - 1) + 1 = n := by
  have hbig : seq ≤ (maxPortSeq - 1) * seq := Nat.le_mul_of_pos_left seq (by omega)
  have hsum : seq - 1 + (n - 1 + (maxPortSeq - 1) * seq - (seq - 1)) =
      n - 1 + (maxPortSeq - 1) * seq := by omega
  rw [hsum, Nat.add_mul_mod_self_left, Nat.mod_eq_of_lt (by omega)]
  omega

/-- The numbers that the search has passed are in use. -/
theorem getUnusedPortLoop_none {fuel : Nat} {p : Ports} (h : p.Ok)
    (hloop : getUnusedPortLoop fuel p = none) :
    ∀ i < fuel, p.used ((p.portSeq - 1 + i) % (maxPortSeq - 1) + 1) = true := by
  induction fuel generalizing p with
  | zero =>
    intro i hi
    omega
  | succ fuel ih =>
    rw [getUnusedPortLoop] at hloop
    split at hloop
    · rename_i hused
      intro i hi
      cases i with
      | zero => rwa [round_zero h.seq_pos h.seq_lt]
      | succ i =>
        have hnext := ih h.skip hloop i (by omega)
        rw [← round_succ h.seq_pos]
        exact hnext
    · cases hloop

/-- **No number found in a round**: all are in use. -/
theorem getUnusedPort_none {p : Ports} (h : p.Ok) (hget : p.getUnusedPort = none) {n : Nat}
    (hpos : 1 ≤ n) (hlt : n < maxPortSeq) : p.used n = true := by
  have hseq := h.seq_lt
  have hreach := getUnusedPortLoop_none h hget
    ((n - 1 + (maxPortSeq - 1) * p.portSeq - (p.portSeq - 1)) % (maxPortSeq - 1))
    (Nat.mod_lt _ (by omega))
  rwa [Nat.add_mod_mod, round_reaches h.seq_pos hpos hlt] at hreach

/-- Then the search goes on for ever. -/
theorem getUnusedPortLoop_stuck {p : Ports} (h : p.Ok)
    (hall : ∀ n, 1 ≤ n → n < maxPortSeq → p.used n = true) (fuel : Nat) :
    getUnusedPortLoop fuel p = none := by
  induction fuel generalizing p with
  | zero => rfl
  | succ fuel ih =>
    rw [getUnusedPortLoop, if_pos (hall p.portSeq h.seq_pos h.seq_lt)]
    exact ih h.skip hall

/-- Clearing the bit of a number in use. -/
theorem freeUsedPort_ok {p : Ports} (h : p.Ok) {n : Nat} (hn : p.used n = true) :
    ∃ p', p.freeUsedPort n = .ok p' ∧ p'.Ok ∧
      ∀ j, p'.used j = (!decide (n = j) && p.used j) := by
  have hlt := (h.used_pos n hn).2
  have hused : ∀ j, used { p with portMap := p.portMap.erase n } j =
      (!decide (n = j) && p.used j) := p.portMap.get_erase hlt
  refine ⟨{ p with portMap := p.portMap.erase n }, if_pos hlt, ⟨h.seq_pos, h.seq_lt, ?_⟩, hused⟩
  intro j hj
  rw [hused j, Bool.and_eq_true] at hj
  exact h.used_pos j hj.2

end Ports

end ZktlsNet
