import ZktlsNet.Group.Ports
import ZktlsNet.Lib.Machine
import Mathlib.Data.List.Perm.Subperm

/-!
# Runs of the number allocator (`io_manager.cpp:5-35`)

Any sequence of calls of `get_unused_port` and `free_used_port`, the latter with numbers
that the former has returned. The search is kept word by word here, with each index into
`port_map` checked against the array.

- `searchRounds_eq`: the checked search is the search of `Ports`, and its indices are in
  range.
- `PortRun.Inv`: the set bits are the numbers that are out, each of them once.
- `portMachine_run`: the invariant holds in every reachable state, and while a number is
  left a search finds one in a single round through the numbers.
-/

namespace ZktlsNet

open NetLib

namespace Ports

/-- `port_map[i]`. -/
def word (p : Ports) (i : Nat) : Res (BitVec 64) :=
  match p.portMap[i]? with
  | some w => .ok w
  | none => .error (.fault .outOfBounds)

/-- One round of the `do` loop of `get_unused_port`. The number is `none` where `port` stays
-1. -/
def searchRound (p : Ports) : Res (Option Nat × Ports) := do
  let i := p.portSeq / (8 * 8)
  let j := p.portSeq % (8 * 8)
  let w ← p.word i
  if w &&& (1#64 <<< j) = 0#64 then
    return (some p.portSeq,
      ⟨p.portMap.setIfInBounds i (w ||| (1#64 <<< j)), nextSeq p.portSeq⟩)
  else
    return (none, { p with portSeq := nextSeq p.portSeq })

/-- The `do` loop, at most `rounds` times; `none` where it goes on. -/
def searchRounds : Nat → Ports → Res (Option (Nat × Ports))
  | 0, _ => return none
  | rounds + 1, p => do
    match ← p.searchRound with
    | (none, p) => searchRounds rounds p
    | (some port, p) => return some (port, p)

/-- The word of a number that the map has. -/
theorem word_eq {p : Ports} {n : Nat} (hn : n < maxPortSeq) :
    p.word (n / (8 * 8)) = .ok (p.portMap[n / (8 * 8)]?.getD 0#64) := by
  have hword : n / (8 * 8) < portMapSize := Bitmap.div_lt (w := 64) hn
  unfold word
  rw [Vector.getElem?_eq_getElem hword]
  rfl

/-- The test of a round is the bit of the number. -/
theorem and_mask_eq_zero (p : Ports) (n : Nat) :
    (p.portMap[n / (8 * 8)]?.getD 0#64) &&& (1#64 <<< (n % (8 * 8))) = 0#64 ↔
      p.used n = false :=
  Bitmap.and_mask_eq_zero (Nat.mod_lt n (by decide)) _

theorem searchRound_eq {p : Ports} (h : p.Ok) :
    p.searchRound =
      .ok (if p.used p.portSeq then (none, { p with portSeq := nextSeq p.portSeq })
        else (some p.portSeq, ⟨p.portMap.insert p.portSeq, nextSeq p.portSeq⟩)) := by
  simp only [searchRound, word_eq h.seq_lt, ok_bind, and_mask_eq_zero]
  cases hused : p.used p.portSeq
  · rfl
  · rfl

/-- **The checked search** is the search of `Ports`. -/
theorem searchRounds_eq {p : Ports} (h : p.Ok) (rounds : Nat) :
    p.searchRounds rounds = .ok (getUnusedPortLoop rounds p) := by
  induction rounds generalizing p with
  | zero => rfl
  | succ rounds ih =>
    rw [searchRounds, searchRound_eq h, ok_bind, getUnusedPortLoop]
    cases hused : p.used p.portSeq
    · rfl
    · exact ih h.skip

end Ports

/-- The allocator, with what a run has done so far: the numbers that calls have returned,
and those of them that are out. -/
structure PortRun where
  ports : Ports
  returned : List Nat
  outstanding : List Nat
  deriving DecidableEq, Repr

/-- A call of `get_unused_port` that ends after at most `rounds` rounds, and a call of
`free_used_port`. -/
inductive PortEvent where
  | get (rounds : Nat)
  | free (port : Nat)
  deriving DecidableEq, Repr

namespace PortRun

/-- At the start of the program. -/
def init : PortRun := ⟨.init, [], []⟩

/-- What a call does. A number may be given back twice. -/
def step (s : PortRun) : PortEvent → Option (Res PortRun)
  | .get rounds =>
    match s.ports.searchRounds rounds with
    | .ok none => none
    | .ok (some (port, ports)) =>
      some (.ok ⟨ports, port :: s.returned, port :: s.outstanding⟩)
    | .error f => some (.error f)
  | .free port =>
    if port ∈ s.returned then
      some do
        let ports ← s.ports.freeUsedPort port
        return { s with ports, outstanding := s.outstanding.erase port }
    else none

/-- **The invariant**: the set bits are the numbers that are out. -/
structure Inv (s : PortRun) : Prop where
  ports : s.ports.Ok
  used_iff : ∀ n, s.ports.used n = true ↔ n ∈ s.outstanding
  nodup : s.outstanding.Nodup
  returned : ∀ n ∈ s.returned, 1 ≤ n ∧ n < maxPortSeq

theorem inv_init : init.Inv where
  ports := Ports.ok_init
  used_iff n := by simp [init, Ports.init, Ports.used]
  nodup := List.nodup_nil
  returned n hn := by cases hn

/-- A search that ends gives a number that is not out, and sets its bit. -/
theorem Inv.get {s : PortRun} (h : s.Inv) {rounds n : Nat} {ports : Ports}
    (hsearch : s.ports.searchRounds rounds = .ok (some (n, ports))) :
    Inv ⟨ports, n :: s.returned, n :: s.outstanding⟩ ∧ 1 ≤ n ∧ n < maxPortSeq ∧
      n ∉ s.outstanding ∧ ∀ j, ports.used j = (decide (n = j) || s.ports.used j) := by
  rw [Ports.searchRounds_eq h.ports, Except.ok.injEq] at hsearch
  obtain ⟨hok, hpos, hlt, hfree, hused⟩ := Ports.getUnusedPortLoop_some h.ports hsearch
  have hout : n ∉ s.outstanding := by
    rw [← h.used_iff, hfree]
    simp
  refine ⟨⟨hok, ?_, List.nodup_cons.mpr ⟨hout, h.nodup⟩, ?_⟩, hpos, hlt, hout, hused⟩
  · intro j
    rw [hused, Bool.or_eq_true, decide_eq_true_eq, h.used_iff, List.mem_cons, eq_comm]
  · intro j hj
    rcases List.mem_cons.mp hj with rfl | hj
    · exact ⟨hpos, hlt⟩
    · exact h.returned j hj

/-- Clearing the bit of any number that the map has. -/
theorem Inv.free {s : PortRun} (h : s.Inv) {n : Nat} (hn : n < maxPortSeq) :
    ∃ ports, s.ports.freeUsedPort n = .ok ports ∧
      Inv { s with ports, outstanding := s.outstanding.erase n } := by
  have hused : ∀ j, Ports.used { s.ports with portMap := s.ports.portMap.erase n } j =
      (!decide (n = j) && s.ports.used j) := s.ports.portMap.get_erase hn
  refine ⟨_, if_pos hn, ⟨⟨h.ports.seq_pos, h.ports.seq_lt, ?_⟩, ?_, h.nodup.erase n, h.returned⟩⟩
  · intro j hj
    rw [hused, Bool.and_eq_true] at hj
    exact h.ports.used_pos j hj.2
  · intro j
    rw [hused, h.nodup.mem_erase_iff, ← h.used_iff, ne_comm]
    simp

/-- **Step lemma.** -/
theorem Inv.step {s : PortRun} (h : s.Inv) {e : PortEvent} {r : Res PortRun}
    (hstep : s.step e = some r) : ∃ s', r = .ok s' ∧ s'.Inv := by
  cases e with
  | get rounds =>
    rw [PortRun.step] at hstep
    split at hstep
    · cases hstep
    · rename_i n ports hsearch
      cases hstep
      exact ⟨_, rfl, (h.get hsearch).1⟩
    · rename_i f hsearch
      rw [Ports.searchRounds_eq h.ports] at hsearch
      cases hsearch
  | free n =>
    rw [PortRun.step] at hstep
    split at hstep
    · rename_i hn
      obtain ⟨ports, hports, hinv⟩ := h.free (h.returned n hn).2
      rw [hports, Option.some.injEq] at hstep
      exact ⟨_, hstep.symm, hinv⟩
    · cases hstep

/-- While fewer numbers are out than there are, a round through all of them ends the
search. -/
theorem Inv.search_ends {s : PortRun} (h : s.Inv)
    (hfew : s.outstanding.length < maxPortSeq - 1) :
    ∃ n ports, s.ports.searchRounds (maxPortSeq - 1) = .ok (some (n, ports)) := by
  rw [Ports.searchRounds_eq h.ports]
  cases hsearch : Ports.getUnusedPortLoop (maxPortSeq - 1) s.ports with
  | some found => exact ⟨found.1, found.2, rfl⟩
  | none =>
    -- otherwise every number is out, and there are as many numbers out as there are
    have hall : List.range' 1 (maxPortSeq - 1) ⊆ s.outstanding := by
      intro n hn
      obtain ⟨hpos, hlt⟩ := List.mem_range'_1.mp hn
      exact (h.used_iff n).mp (Ports.getUnusedPort_none h.ports hsearch hpos (by omega))
    have hlen := (List.subperm_of_subset List.nodup_range' hall).length_le
    rw [List.length_range'] at hlen
    omega

end PortRun

/-- The runs of the allocator. -/
def portMachine : Machine (Res PortRun) PortEvent := fallible .init PortRun.step

/-- **Every run of the allocator.** No index is out of range, no two numbers that are out
are equal, and the set bits are theirs. While fewer than all numbers are out, the search
of `get_unused_port` ends within one cycle, with a number from 1 to 1023 that is not out,
and sets its bit and no other. -/
theorem portMachine_run {es : List PortEvent} {r : Res PortRun}
    (hrun : portMachine.run es = some r) :
    ∃ s, r = .ok s ∧ s.outstanding.Nodup ∧ (∀ n, s.ports.used n = true ↔ n ∈ s.outstanding) ∧
      1 ≤ s.ports.portSeq ∧ s.ports.portSeq ≤ 1023 ∧
      (∀ rounds, ∃ found, s.ports.searchRounds rounds = .ok found) ∧
      (s.outstanding.length < 1023 →
        ∃ n ports, s.ports.searchRounds 1023 = .ok (some (n, ports)) ∧
          1 ≤ n ∧ n ≤ 1023 ∧ n ∉ s.outstanding ∧
          (∀ j, ports.used j = (decide (n = j) || s.ports.used j)) ∧
          1 ≤ ports.portSeq ∧ ports.portSeq ≤ 1023) := by
  obtain ⟨s, rfl, h⟩ := fallible_run PortRun.Inv PortRun.inv_init
    (fun s e r hs hr => hs.step hr) hrun
  refine ⟨s, rfl, h.nodup, h.used_iff, h.ports.seq_pos, Nat.le_of_lt_succ h.ports.seq_lt, ?_, ?_⟩
  · intro rounds
    exact ⟨_, Ports.searchRounds_eq h.ports rounds⟩
  · intro hfew
    obtain ⟨n, ports, hsearch⟩ := h.search_ends hfew
    obtain ⟨hinv, hpos, hlt, hout, hused⟩ := h.get hsearch
    exact ⟨n, ports, hsearch, hpos, Nat.le_of_lt_succ hlt, hout, hused, hinv.ports.seq_pos,
      Nat.le_of_lt_succ hinv.ports.seq_lt⟩

/-- A run in which a number is given back twice, and the search goes on behind it. -/
theorem portMachine_run_twice :
    ∃ s, portMachine.run [.get 1, .get 1, .free 1, .free 1, .get 1] = some (.ok s) ∧
      s.outstanding = [3, 2] ∧ s.outstanding.Nodup := by
  have hrun : portMachine.run [.get 1, .get 1, .free 1, .free 1, .get 1] =
      some (.ok ⟨⟨(Bitmap.empty.insert 2).insert 3, 4⟩, [3, 2, 1], [3, 2]⟩) := by decide
  obtain ⟨s, hs, hnodup, -⟩ := portMachine_run hrun
  cases hs
  exact ⟨_, hrun, rfl, hnodup⟩

end ZktlsNet
