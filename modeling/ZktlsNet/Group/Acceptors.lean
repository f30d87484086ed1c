import Mathlib.Data.Finset.Card
import Mathlib.Data.List.Count
import ZktlsNet.Group.Ownership
import ZktlsNet.Lib.Monitor
import ZktlsNet.Lib.Progress

/-!
# Calls of `accept` that wait (`io_manager.cpp:202-226`)

Any number of threads call `accept`, on any of the `IOManager`s. A call that finds no
complete group waits on `io_map_cond`; the thread that completes a group notifies one of
those that wait there. A notified call has to get `io_map_mtx` back first, and another
call may take the group meanwhile; a call may also wake up without a notification.

- `Acceptors.step`: one step of the server or of a call.
- `Acceptors.step_monitor`: each `IOManager` with its calls is a `Monitor`.
- `accept_alert`: no notification is lost.
- `accept_progresses`: the notified calls take what there is.
-/

namespace ZktlsNet

open NetLib

variable {P T : Type}

/-- The server, and the calls of `accept` on it with the `IOManager` each was made for. -/
structure Acceptors (P T : Type) where
  server : Server P := {}
  /-- in `io_map_cond.wait` -/
  waiting : List (T × Nat) := []
  /-- woken up, without the lock yet -/
  notified : List (T × Nat) := []
  /-- who has got which of the groups in `server.accepted` -/
  returned : List T := []

/-- One step of the server or of a call. -/
inductive AcceptorEvent (P T : Type)
  /-- a step of the server, and the call that it notifies -/
  | server (e : ServerEvent P) (chosen : Option T)
  | call (t : T) (manager : Nat)
  /-- a notified call gets the lock back -/
  | resume (t : T) (manager : Nat)
  /-- a call wakes up without a notification -/
  | wake (t : T) (manager : Nat)
  deriving DecidableEq, Repr

/-- The `IOManager` whose `io_map_cond` a step notifies: that of a group which the step
has completed. -/
def Server.notifies [DecidableEq P] (s : Server P) : ServerEvent P → Option Nat
  | .insert p =>
    match (s.calls p).pc with
    | .number n h =>
      let vec := (((s.managers (s.calls p).manager).vec n).getD []).set h (some p)
      if IoManager.isSomeNull vec then none else some (s.calls p).manager
    | _ => none
  | _ => none

namespace Acceptors

section

variable [DecidableEq P] [DecidableEq T]

/-- `accept(num)` with the lock, from the top of its loop; `none` where it does not come
back from `free_used_port`. -/
def tryAccept (num : Nat) (s : Acceptors P T) (t : T) (m : Nat) : Option (Res (Acceptors P T)) :=
  match (s.server.managers m).complete num with
  | none => some (.ok { s with waiting := (t, m) :: s.waiting })
  | some _ => (s.server.step num (.accept m num)).map fun r =>
    r.map fun server => { s with server, returned := s.returned ++ [t] }

/-- `io_map_cond.notify_one()`: any one of those that wait. -/
def notifyOne (s : Acceptors P T) (m : Nat) : Option T → Option (Acceptors P T)
  | none => if s.waiting.any (·.2 == m) then none else some s
  | some t =>
    if (t, m) ∈ s.waiting then
      some { s with waiting := s.waiting.erase (t, m), notified := (t, m) :: s.notified }
    else none

/-- A step, for `get_pado_io_num() = num`; a thread makes one call of `accept` at a time. -/
def step (num : Nat) (s : Acceptors P T) : AcceptorEvent P T → Option (Res (Acceptors P T))
  | .server (.accept _ _) _ => none
  | .server e chosen =>
    match s.server.step num e with
    | none => none
    | some (.error f) => some (.error f)
    | some (.ok server) =>
      match s.server.notifies e with
      | none => if chosen.isNone then some (.ok { s with server }) else none
      | some m => (notifyOne { s with server } m chosen).map .ok
  | .call t m =>
    if (s.waiting ++ s.notified).any (·.1 == t) then none else s.tryAccept num t m
  | .resume t m =>
    if (t, m) ∈ s.notified then
      tryAccept num { s with notified := s.notified.erase (t, m) } t m
    else none
  | .wake t m => (s.notifyOne m (some t)).map .ok

variable (P T) in
/-- The server and its calls of `accept`, with every interleaving. -/
def machine (num : Nat) : Machine (Res (Acceptors P T)) (AcceptorEvent P T) :=
  fallible {} (step num)

end

end Acceptors

/-! ## The groups that `accept` can take -/

namespace IoManager

/-- The numbers of the complete groups. -/
def groups (io : IoManager P) (num : Nat) : Finset Nat :=
  ((io.padoIoMap.toList.filter fun entry => num < entry.2.length).map (·.1)).toFinset

theorem mem_groups {io : IoManager P} {num n : Nat} :
    n ∈ io.groups num ↔ ∃ vec, io.vec n = some vec ∧ num < vec.length := by
  simp [groups, vec, Std.TreeMap.mem_toList_iff_getElem?_eq_some]

/-- `accept` waits only if there is none. -/
theorem complete_eq_none {io : IoManager P} {num : Nat} (h : io.complete num = none) :
    io.groups num = ∅ := by
  refine Finset.eq_empty_of_forall_notMem fun n hn => ?_
  obtain ⟨vec, hvec, hlen⟩ := mem_groups.mp hn
  have hmem := Std.TreeMap.mem_toList_iff_getElem?_eq_some.mpr hvec
  simpa [hlen] using List.find?_eq_none.mp h _ hmem

/-- Groups that are the same but for some that are gone. -/
theorem groups_subset {io io' : IoManager P} {num : Nat}
    (h : ∀ n vec, io'.vec n = some vec → num < vec.length → io.vec n = some vec) :
    io'.groups num ⊆ io.groups num := by
  intro n hn
  obtain ⟨vec, hvec, hlen⟩ := mem_groups.mp hn
  exact mem_groups.mpr ⟨vec, h n vec hvec hlen, hlen⟩

/-- A vector that is made is not complete. -/
theorem groups_createGroup (io : IoManager P) {num n : Nat} (hfresh : io.vec n = none)
    (timestamp : BitVec 32) : (io.createGroup num n timestamp).groups num ⊆ io.groups num := by
  refine groups_subset fun k vec hvec hlen => ?_
  rw [vec_createGroup, hfresh] at hvec
  split at hvec
  · cases hvec
    simp at hlen
  · exact hvec

/-- A connection in its slot changes no length while there is an empty slot. -/
theorem groups_put_null {io io' : IoManager P} {num n h : Nat} {p : P}
    (hput : io.put n h p = .ok io') (hnull : isSomeNull (((io.vec n).getD []).set h (some p))) :
    io'.groups num ⊆ io.groups num := by
  obtain ⟨vec, hvec, -, -, hio⟩ := put_eq_ok hput
  rw [hvec, Option.getD_some] at hnull
  intro k hk
  obtain ⟨vec', hvec', hlen⟩ := mem_groups.mp hk
  rw [hio] at hvec'
  simp only [hnull, if_true] at hvec'
  split at hvec'
  · rename_i hk
    subst hk
    cases hvec'
    exact mem_groups.mpr ⟨vec, hvec, by simpa using hlen⟩
  · exact mem_groups.mpr ⟨vec', hvec', hlen⟩

/-- A connection completes at most one group. -/
theorem card_groups_put {io io' : IoManager P} {num n h : Nat} {p : P}
    (hput : io.put n h p = .ok io') : (io'.groups num).card ≤ (io.groups num).card + 1 := by
  obtain ⟨vec, hvec, -, -, hio⟩ := put_eq_ok hput
  refine (Finset.card_le_card (t := insert n (io.groups num)) fun k hk => ?_).trans
    (Finset.card_insert_le n _)
  obtain ⟨vec', hvec', hlen⟩ := mem_groups.mp hk
  by_cases hkn : n = k
  · exact Finset.mem_insert.mpr (.inl hkn.symm)
  · rw [hio, if_neg hkn] at hvec'
    exact Finset.mem_insert_of_mem (mem_groups.mpr ⟨vec', hvec', hlen⟩)

/-- The group that `accept` takes is one less. -/
theorem card_groups_remove {io : IoManager P} {num n : Nat} {vec : List (Option P)}
    (hfound : io.complete num = some (n, vec)) :
    ((io.remove n).groups num).card < (io.groups num).card := by
  obtain ⟨hvec, hlen⟩ := complete_eq_some hfound
  refine Finset.card_lt_card (Finset.ssubset_iff_subset_ne.mpr ⟨?_, fun heq => ?_⟩)
  · refine groups_subset fun k vec' hvec' _ => ?_
    rw [vec_remove] at hvec'
    split at hvec'
    · cases hvec'
    · exact hvec'
  · have hmem : n ∈ (io.remove n).groups num := heq ▸ mem_groups.mpr ⟨vec, hvec, hlen⟩
    obtain ⟨vec', hvec', -⟩ := mem_groups.mp hmem
    simp [vec_remove] at hvec'

end IoManager

namespace Server

variable [DecidableEq P] {num m : Nat} {s s' : Server P}

/-- A step adds a complete group only where it notifies. -/
theorem card_groups_step {e : ServerEvent P} (h : s.Numbers)
    (hstep : s.step num e = some (.ok s')) (m : Nat) :
    ((s'.managers m).groups num).card ≤ ((s.managers m).groups num).card ∨
      s.notifies e = some m ∧
        ((s'.managers m).groups num).card ≤ ((s.managers m).groups num).card + 1 := by
  cases step_moves hstep with
  | listen | recvHasNumber | recvNumber | issue | search | sendNumber | fail =>
    exact .inl (Nat.le_refl _)
  | @create p n hpc =>
    left
    simp only [setPc_managers, setManager_managers]
    split
    · rename_i hm
      rw [hm]
      exact Finset.card_le_card (IoManager.groups_createGroup _ (h.vec_of_issued hpc _) _)
    · exact Nat.le_refl _
  | @insert p n i io hpc hput =>
    simp only [setPc_managers, setManager_managers, notifies, hpc]
    split
    · rename_i hm
      rw [hm]
      split
      · rename_i hnull
        exact .inl (Finset.card_le_card (IoManager.groups_put_null hput hnull))
      · exact .inr ⟨rfl, IoManager.card_groups_put hput⟩
    · exact .inl (Nat.le_refl _)
  | @accept m' num' n vec ports hfound hport =>
    left
    refine Finset.card_le_card (IoManager.groups_subset fun k vec' hvec' _ => ?_)
    simp only [setManager_managers] at hvec'
    split at hvec'
    · rename_i hm
      rw [IoManager.vec_remove] at hvec'
      split at hvec'
      · cases hvec'
      · rwa [hm]
    · exact hvec'
  | @clear m' force timestamp =>
    left
    refine Finset.card_le_card (IoManager.groups_subset fun k vec' hvec' _ => ?_)
    simp only [cleared, setManager_managers] at hvec'
    split at hvec'
    · rename_i hm
      rw [IoManager.vec_clearPadoIo] at hvec'
      split at hvec'
      · cases hvec'
      · rwa [hm]
    · exact hvec'

/-- `accept` takes a complete group. -/
theorem card_groups_accept (hstep : s.step num (.accept m num) = some (.ok s')) :
    ((s'.managers m).groups num).card < ((s.managers m).groups num).card ∧
      s'.accepted.length = s.accepted.length + 1 := by
  cases step_moves hstep with
  | accept hfound hport =>
    refine ⟨?_, by simp⟩
    simp only [setManager_managers, if_true]
    exact IoManager.card_groups_remove hfound

theorem portMtx_accept (hstep : s.step num (.accept m num) = some (.ok s')) :
    s'.portMtx = s.portMtx := by
  cases step_moves hstep with
  | accept => rfl

/-- With `port_mtx` free it waits only where there is none. -/
theorem groups_of_wait (hmtx : s.portMtx = none) (hwait : s.step num (.accept m num) = none) :
    (s.managers m).groups num = ∅ := by
  refine IoManager.complete_eq_none ?_
  cases hfound : (s.managers m).complete num with
  | none => rfl
  | some entry =>
    simp only [step, hfound, hmtx] at hwait
    cases hwait

/-- It does not go wrong. -/
theorem accept_ok (h : s.Numbers) {r : Res (Server P)}
    (hstep : s.step num (.accept m num) = some r) : ∃ s', r = .ok s' := by
  cases r with
  | ok s' => exact ⟨s', rfl⟩
  | error f =>
    obtain ⟨p, n, i, he, -⟩ | ⟨m', num', n, vec, -, hfound, hport⟩ := step_error hstep
    · cases he
    · obtain ⟨hvec, -⟩ := IoManager.complete_eq_some hfound
      have hused := h.used (.manager m') n (by simp [HoldsNumber, hvec])
      obtain ⟨ports, hports, -⟩ := Ports.freeUsedPort_ok h.ports hused
      rw [hports] at hport
      cases hport

/-- Only `accept` returns a group. -/
theorem accepted_step {e : ServerEvent P} (he : ∀ m num, e ≠ .accept m num)
    (hstep : s.step num e = some (.ok s')) : s'.accepted = s.accepted := by
  cases step_moves hstep with
  | accept => exact absurd rfl (he _ _)
  | _ => rfl

end Server

/-! ## Each step is one of a monitor -/

namespace Acceptors

section

variable {num : Nat} {s s' : Acceptors P T}

/-- The calls of `accept` on an `IOManager`, and so many items. -/
def calls (s : Acceptors P T) (m items : Nat) : Monitor :=
  ⟨items, s.waiting.countP (·.2 == m), s.notified.countP (·.2 == m)⟩

/-- An `IOManager`, with its complete groups as the items. -/
def monitor (num : Nat) (s : Acceptors P T) (m : Nat) : Monitor :=
  s.calls m ((s.server.managers m).groups num).card

theorem countP_cons_pair (l : List (T × Nat)) (t : T) (m m' : Nat) :
    ((t, m) :: l).countP (·.2 == m') = l.countP (·.2 == m') + if m = m' then 1 else 0 := by
  simp [List.countP_cons]

/-- A call that goes was one of those of its `IOManager`. -/
theorem countP_erase_pair [DecidableEq T] {l : List (T × Nat)} {t : T} {m : Nat}
    (h : (t, m) ∈ l) (m' : Nat) :
    l.countP (·.2 == m') = (l.erase (t, m)).countP (·.2 == m') + if m = m' then 1 else 0 := by
  rw [(List.perm_cons_erase h).countP_eq, countP_cons_pair]

/-- A notification reaches one of the calls that wait there, if there are any. -/
theorem notifyOne_calls [DecidableEq T] {m : Nat} {chosen : Option T}
    (h : s.notifyOne m chosen = some s') :
    s'.server = s.server ∧ s'.returned = s.returned ∧
      (∀ old items, items ≤ old + 1 → Monitor.Step (s.calls m old) (s'.calls m items)) ∧
      ∀ m' items, m' ≠ m → s'.calls m' items = s.calls m' items := by
  unfold notifyOne at h
  split at h
  · split at h
    · cases h
    · rename_i hnone
      cases h
      have hzero : s.waiting.countP (·.2 == m) = 0 := by
        rw [List.countP_eq_zero]
        intro x hx hxm
        exact hnone (List.any_eq_true.mpr ⟨x, hx, hxm⟩)
      exact ⟨rfl, rfl, fun _ _ _ => .add hzero, fun _ _ _ => rfl⟩
  · rename_i t
    obtain ⟨hmem, h⟩ := Option.ite_none_right_eq_some.mp h
    cases h
    refine ⟨rfl, rfl, fun old items hitems => ?_, fun m' items hm' => ?_⟩
    · have hcount := countP_erase_pair hmem m
      rw [if_pos rfl] at hcount
      have hpos : 0 < (s.calls m old).waiting := by
        show 0 < s.waiting.countP (·.2 == m)
        omega
      have hwait : (s.calls m old).waiting - 1 =
          (s.waiting.erase (t, m)).countP (·.2 == m) := by
        show s.waiting.countP (·.2 == m) - 1 = _
        omega
      have hstep := Monitor.Step.notify hpos hitems
      rw [hwait] at hstep
      simp only [calls, countP_cons_pair, if_true]
      exact hstep
    · have hcount := countP_erase_pair hmem m'
      rw [if_neg (Ne.symm hm'), Nat.add_zero] at hcount
      simp only [calls, countP_cons_pair, if_neg (Ne.symm hm'), Nat.add_zero, hcount]

/-- What a call with the lock does: it waits, or takes a group. -/
theorem tryAccept_cases [DecidableEq P] {t : T} {m : Nat}
    (h : s.tryAccept num t m = some (.ok s')) :
    ((s.server.managers m).groups num = ∅ ∧ s' = { s with waiting := (t, m) :: s.waiting }) ∨
    ∃ server, s.server.step num (.accept m num) = some (.ok server) ∧
      s' = { s with server, returned := s.returned ++ [t] } := by
  unfold tryAccept at h
  split at h
  · rename_i hwait
    cases h
    exact .inl ⟨IoManager.complete_eq_none hwait, rfl⟩
  · obtain ⟨r, hstep, hr⟩ := Option.map_eq_some_iff.mp h
    cases r with
    | error f => cases hr
    | ok server =>
      cases hr
      exact .inr ⟨server, hstep, rfl⟩

variable [DecidableEq P] [DecidableEq T]

/-- The successful steps. -/
inductive Moves (num : Nat) (s : Acceptors P T) : AcceptorEvent P T → Acceptors P T → Prop
  | quiet {e server} (he : ∀ m num', e ≠ .accept m num')
    (hstep : s.server.step num e = some (.ok server)) (hnone : s.server.notifies e = none) :
    Moves num s (.server e none) { s with server }
  | notify {e chosen server m s'} (he : ∀ m num', e ≠ .accept m num')
    (hstep : s.server.step num e = some (.ok server)) (hsome : s.server.notifies e = some m)
    (hnotify : notifyOne { s with server } m chosen = some s') :
    Moves num s (.server e chosen) s'
  | call {t m s'} (htry : s.tryAccept num t m = some (.ok s')) : Moves num s (.call t m) s'
  | resume {t m s'} (hmem : (t, m) ∈ s.notified)
    (htry : tryAccept num { s with notified := s.notified.erase (t, m) } t m = some (.ok s')) :
    Moves num s (.resume t m) s'
  | wake {t m s'} (hnotify : s.notifyOne m (some t) = some s') : Moves num s (.wake t m) s'

/-- **Every successful step** is one of these. -/
theorem step_moves {e : AcceptorEvent P T} (h : s.step num e = some (.ok s')) :
    Moves num s e s' := by
  unfold step at h
  split at h
  · cases h
  · rename_i e chosen he
    split at h
    · cases h
    · cases h
    · rename_i server hstep
      split at h
      · rename_i hnone
        obtain ⟨hchosen, h⟩ := Option.ite_none_right_eq_some.mp h
        cases h
        rw [Option.isNone_iff_eq_none.mp hchosen]
        exact .quiet he hstep hnone
      · rename_i m hsome
        obtain ⟨s'', hnotify, heq⟩ := Option.map_eq_some_iff.mp h
        cases heq
        exact .notify he hstep hsome hnotify
  · rename_i t m
    split at h
    · cases h
    · exact .call h
  · rename_i t m
    obtain ⟨hmem, h⟩ := Option.ite_none_right_eq_some.mp h
    exact .resume hmem h
  · rename_i t m
    obtain ⟨s'', hnotify, heq⟩ := Option.map_eq_some_iff.mp h
    cases heq
    exact .wake hnotify

/-- **Every step**, seen from one `IOManager`. -/
theorem step_monitor (h : s.server.Numbers) {e : AcceptorEvent P T}
    (hmove : s.step num e = some (.ok s')) (m : Nat) :
    (s.monitor num m).Step (s'.monitor num m) := by
  cases step_moves hmove with
  | @quiet e server he hstep hnone =>
    rcases Server.card_groups_step h hstep m with hle | ⟨hsome, -⟩
    · exact .take hle
    · rw [hnone] at hsome
      cases hsome
  | @notify e chosen server m' s' he hstep hsome hnotify =>
    obtain ⟨hserver, -, hcalls, hother⟩ := notifyOne_calls hnotify
    have hcard := Server.card_groups_step h hstep m
    unfold monitor
    rw [hserver]
    by_cases hm : m = m'
    · subst hm
      rcases hcard with hle | ⟨-, hle⟩
      · exact hcalls _ _ (Nat.le_succ_of_le hle)
      · exact hcalls _ _ hle
    · rw [hother _ _ hm]
      refine .take (hcard.resolve_right ?_)
      rintro ⟨hsome', -⟩
      rw [hsome] at hsome'
      exact hm (Option.some.inj hsome').symm
  | @call t m' s' htry =>
    rcases tryAccept_cases htry with ⟨hnone, rfl⟩ | ⟨server, hstep, rfl⟩
    · by_cases hm : m' = m
      · subst hm
        have hzero : (s.monitor num m').items = 0 := Finset.card_eq_zero.mpr hnone
        have hblock := Monitor.Step.block hzero
        simpa [monitor, calls, countP_cons_pair] using hblock
      · have hquiet : (s.monitor num m).Step (s.monitor num m) := .take (Nat.le_refl _)
        simpa [monitor, calls, countP_cons_pair, hm] using hquiet
    · exact .take ((Server.card_groups_step h hstep m).resolve_right (by simp [Server.notifies]))
  | @resume t m' s' hmem htry =>
    have hcount := countP_erase_pair hmem m
    by_cases hm : m' = m
    · subst hm
      rw [if_pos rfl] at hcount
      have hpos : 0 < (s.monitor num m').notified := by
        show 0 < s.notified.countP (·.2 == m')
        omega
      have hleft : (s.monitor num m').notified - 1 =
          (s.notified.erase (t, m')).countP (·.2 == m') := by
        show s.notified.countP (·.2 == m') - 1 = _
        omega
      rcases tryAccept_cases htry with ⟨hnone, rfl⟩ | ⟨server, hstep, rfl⟩
      · have hzero : ((s.server.managers m').groups num).card = 0 := Finset.card_eq_zero.mpr hnone
        have hlate := Monitor.Step.late hpos hzero
        rw [hleft] at hlate
        simpa [monitor, calls, countP_cons_pair, hzero] using hlate
      · have htake := Monitor.Step.resume hpos (Server.card_groups_accept hstep).1
        rw [hleft] at htake
        exact htake
    · rw [if_neg hm, Nat.add_zero] at hcount
      have hquiet : ∀ items, items ≤ (s.monitor num m).items →
          (s.monitor num m).Step (s.calls m items) := fun _ h => .take h
      rcases tryAccept_cases htry with ⟨hnone, rfl⟩ | ⟨server, hstep, rfl⟩
      · simpa [monitor, calls, countP_cons_pair, hm, hcount] using hquiet _ (Nat.le_refl _)
      · have hcard := (Server.card_groups_step h hstep m).resolve_right (by simp [Server.notifies])
        simpa [monitor, calls, hcount] using hquiet _ hcard
  | @wake t m' s' hnotify =>
    obtain ⟨hserver, -, hcalls, hother⟩ := notifyOne_calls hnotify
    unfold monitor
    rw [hserver]
    by_cases hm : m = m'
    · subst hm
      exact hcalls _ _ (Nat.le_succ _)
    · rw [hother _ _ hm]
      exact .take (Nat.le_refl _)

/-! ## Runs -/

variable (num) in
/-- What holds of the server with its calls. -/
structure Sound (s : Acceptors P T) : Prop where
  numbers : s.server.Numbers
  live (m : Nat) : (s.monitor num m).Live
  /-- each group has gone to one call -/
  returned : s.returned.length = s.server.accepted.length

omit [DecidableEq P] [DecidableEq T] in
theorem sound_start : ({} : Acceptors P T).Sound num where
  numbers := Server.numbers_start
  live _ := .inl rfl
  returned := rfl

/-- Between two states the server makes a step or none, and who gets a group is noted. -/
def Follows (num : Nat) (s s' : Acceptors P T) : Prop :=
  (s'.server = s.server ∧ s'.returned = s.returned) ∨
    ∃ e, s.server.step num e = some (.ok s'.server) ∧
      s'.returned.length + s.server.accepted.length =
        s.returned.length + s'.server.accepted.length

omit [DecidableEq T] in
theorem tryAccept_follows {t : T} {m : Nat} (h : s.tryAccept num t m = some (.ok s')) :
    s.Follows num s' := by
  rcases tryAccept_cases h with ⟨-, rfl⟩ | ⟨server, hstep, rfl⟩
  · exact .inl ⟨rfl, rfl⟩
  · refine .inr ⟨_, hstep, ?_⟩
    have hone := (Server.card_groups_accept hstep).2
    rw [List.length_append, List.length_singleton, hone]
    omega

theorem Moves.follows {e : AcceptorEvent P T} (h : Moves num s e s') : s.Follows num s' := by
  cases h with
  | @quiet e server he hstep hnone =>
    refine .inr ⟨e, hstep, ?_⟩
    rw [Server.accepted_step he hstep]
  | @notify e chosen server m s' he hstep hsome hnotify =>
    obtain ⟨hserver, hreturned, -⟩ := notifyOne_calls hnotify
    refine .inr ⟨e, by rw [hserver]; exact hstep, ?_⟩
    rw [hreturned, hserver, Server.accepted_step he hstep]
  | call htry => exact tryAccept_follows htry
  | resume hmem htry =>
    have hfollows := tryAccept_follows htry
    exact hfollows
  | wake hnotify =>
    obtain ⟨hserver, hreturned, -⟩ := notifyOne_calls hnotify
    exact .inl ⟨hserver, hreturned⟩

theorem Sound.step (h : s.Sound num) {e : AcceptorEvent P T}
    (hstep : s.step num e = some (.ok s')) : s'.Sound num := by
  have hlive : ∀ m, (s'.monitor num m).Live := fun m =>
    (step_monitor h.numbers hstep m).live (h.live m)
  rcases (step_moves hstep).follows with ⟨hserver, hreturned⟩ | ⟨e', he', hlength⟩
  · refine ⟨hserver ▸ h.numbers, hlive, ?_⟩
    rw [hreturned, hserver, h.returned]
  · refine ⟨(h.numbers.step he').1, hlive, ?_⟩
    have hbefore := h.returned
    omega

theorem sound_run {es : List (AcceptorEvent P T)} {s : Acceptors P T}
    (hrun : (machine P T num).run es = some (.ok s)) : s.Sound num := by
  refine Machine.invariant (fun r => ∀ s, r = .ok s → Sound num s) ?_ ?_ hrun s rfl
  · rintro s hs
    cases hs
    exact sound_start
  · rintro (f | s) e r hs hr s' rfl
    · cases hr
    · exact (hs s rfl).step hr

/-- A notified call that gets the lock takes a group or waits again. -/
theorem Sound.resume (h : s.Sound num) (hmtx : s.server.portMtx = none) {t : T} {m : Nat}
    (hmem : (t, m) ∈ s.notified) :
    ∃ s', s.step num (.resume t m) = some (.ok s') ∧ s'.server.portMtx = none ∧
      s'.notified.length < s.notified.length := by
  have hlength : (s.notified.erase (t, m)).length < s.notified.length := by
    rw [List.length_erase_of_mem hmem]
    exact Nat.sub_lt (List.length_pos_of_mem hmem) Nat.one_pos
  simp only [Acceptors.step, hmem, if_true, tryAccept]
  split
  · exact ⟨_, rfl, hmtx, hlength⟩
  · rename_i entry hfound
    cases hr : s.server.step num (.accept m num) with
    | none => simp [Server.step, hfound, hmtx] at hr
    | some r =>
      obtain ⟨server, rfl⟩ := Server.accept_ok h.numbers hr
      exact ⟨_, rfl, (Server.portMtx_accept hr).trans hmtx, hlength⟩

omit [DecidableEq P] [DecidableEq T] in
variable (P T) in
/-- How many calls have still to get the lock. -/
def pending : Res (Acceptors P T) → Nat
  | .ok s => s.notified.length
  | .error _ => 0

/-- The notified calls take what there is. -/
theorem Sound.rest (h : s.Sound num) (hmtx : s.server.portMtx = none) : ∃ s',
    (machine P T num).Reaches (fun e => ∃ t m, e = .resume t m) (.ok s) (.ok s') ∧
      s'.Sound num ∧ s'.notified = [] := by
  have hkeeps : ∀ r e r', (∃ s, r = .ok s ∧ Sound num s ∧ s.server.portMtx = none) →
      (∃ t m, e = .resume t m) → (machine P T num).step r e = some r' →
      ∃ s', r' = .ok s' ∧ Sound num s' ∧ s'.server.portMtx = none := by
    rintro _ _ r' ⟨s, rfl, hs, hmtx⟩ ⟨t, m, rfl⟩ hstep
    change s.step num (.resume t m) = some r' at hstep
    by_cases hmem : (t, m) ∈ s.notified
    · obtain ⟨s', hs', hmtx', -⟩ := hs.resume hmtx hmem
      obtain rfl := Option.some.inj (hs'.symm.trans hstep)
      exact ⟨s', rfl, hs.step hs', hmtx'⟩
    · simp [Acceptors.step, hmem] at hstep
  have hnext : ∀ r, (∃ s, r = .ok s ∧ Sound num s ∧ s.server.portMtx = none) →
      ¬ (pending P T r = 0) →
      ∃ r', (machine P T num).Reaches (fun e => ∃ t m, e = .resume t m) r r' ∧
        pending P T r' < pending P T r := by
    rintro _ ⟨s, rfl, hs, hmtx⟩ hpending
    obtain ⟨⟨t, m⟩, hmem⟩ := List.exists_mem_of_length_pos (Nat.pos_of_ne_zero hpending)
    obtain ⟨s', hs', -, hlt⟩ := hs.resume hmtx hmem
    exact ⟨.ok s', .step ⟨t, m, rfl⟩ hs', hlt⟩
  obtain ⟨_, hreach, ⟨s', rfl, hsound, -⟩, hdone⟩ :=
    Machine.reaches_done (pending P T) hkeeps hnext ⟨s, rfl, h, hmtx⟩
  exact ⟨s', hreach, hsound, List.length_eq_zero_iff.mp hdone⟩

end

end Acceptors

/-- **No notification is lost.** In every run of the server under any calls of `accept`,
any peers, any clean-up and any choice of `notify_one`: while a call waits at an
`IOManager`, there are at least as many calls on their way there as complete groups. -/
theorem accept_alert [DecidableEq P] [DecidableEq T] {num : Nat} {es : List (AcceptorEvent P T)}
    {s : Acceptors P T} (hrun : (Acceptors.machine P T num).run es = some (.ok s)) {t : T}
    {m : Nat} (hwait : (t, m) ∈ s.waiting) :
    ((s.server.managers m).groups num).card ≤ s.notified.countP (·.2 == m) := by
  refine ((Acceptors.sound_run hrun).live m).resolve_left fun hzero => ?_
  exact List.countP_eq_zero.mp hzero _ hwait (beq_self_eq_true m)

/-- Two calls wait, and a client's second channel completes its group. -/
theorem accept_alert_two :
    let es : List (AcceptorEvent Nat Nat) := [.call 0 0, .call 1 0, .server (.listen 0 5 0) none,
      .server (.listen 0 6 0) none, .server (.recvHasNumber 5 0) none, .server (.issue 5) none,
      .server (.create 5) none, .server (.sendNumber 5) none, .server (.recvHasNumber 6 1) none,
      .server (.recvNumber 6 1) none, .server (.insert 5) none, .server (.insert 6) (some 1)]
    ∃ s, (Acceptors.machine Nat Nat 2).run es = some (.ok s) ∧
      ((s.server.managers 0).groups 2).card ≤ s.notified.countP (·.2 == 0) := by
  intro es
  have hsteps : ((Acceptors.machine Nat Nat 2).run es).map (fun r => r.toOption.map (·.waiting)) =
      some (some [(0, 0)]) := by
    decide +kernel
  obtain ⟨r, hrun, hstate⟩ := Option.map_eq_some_iff.mp hsteps
  cases r with
  | error f => cases hstate
  | ok s =>
    have hwaiting : s.waiting = [(0, 0)] := Option.some.inj hstate
    exact ⟨s, hrun, accept_alert hrun (t := 0) (by simp [hwaiting])⟩

/-- **No complete group waits for a caller that waits for it.** From every state of every
run in which no call searches for ever with `port_mtx`, the notified calls can go on, and
nothing else has to happen, until at each `IOManager` nobody waits or there is no complete
group; and each group has gone to one call. -/
theorem accept_progresses [DecidableEq P] [DecidableEq T] {num : Nat}
    {es : List (AcceptorEvent P T)} {s : Acceptors P T}
    (hrun : (Acceptors.machine P T num).run es = some (.ok s)) (hmtx : s.server.portMtx = none) :
    ∃ more s', (∀ e ∈ more, ∃ t m, e = .resume t m) ∧
      (Acceptors.machine P T num).run (es ++ more) = some (.ok s') ∧
      s'.returned.length = s'.server.accepted.length ∧
      ∀ m, (∀ t, (t, m) ∉ s'.waiting ++ s'.notified) ∨ (s'.server.managers m).groups num = ∅ := by
  obtain ⟨s', ⟨more, hmore, hrest⟩, hsound, hnone⟩ := (Acceptors.sound_run hrun).rest hmtx
  refine ⟨more, s', hmore, ?_, hsound.returned, fun m => ?_⟩
  · rw [Machine.run, Machine.runFrom_append hrun, hrest]
  · have hquiet : (s'.monitor num m).notified = 0 := by
      show s'.notified.countP (·.2 == m) = 0
      rw [hnone]
      rfl
    rcases (hsound.live m).rest hquiet with hwaiting | hitems
    · refine .inl fun t hmem => ?_
      rw [hnone, List.append_nil] at hmem
      exact List.countP_eq_zero.mp hwaiting _ hmem (beq_self_eq_true m)
    · exact .inr (Finset.card_eq_zero.mp hitems)

/-- Two calls wait and one is woken up; it takes the group, and the other goes on waiting. -/
theorem accept_progresses_two :
    let es : List (AcceptorEvent Nat Nat) := [.call 0 0, .call 1 0, .server (.listen 0 5 0) none,
      .server (.listen 0 6 0) none, .server (.recvHasNumber 5 0) none, .server (.issue 5) none,
      .server (.create 5) none, .server (.sendNumber 5) none, .server (.recvHasNumber 6 1) none,
      .server (.recvNumber 6 1) none, .server (.insert 5) none, .server (.insert 6) (some 1)]
    ∃ more s', (Acceptors.machine Nat Nat 2).run (es ++ more) = some (.ok s') ∧
      ∀ m, (∀ t, (t, m) ∉ s'.waiting ++ s'.notified) ∨ (s'.server.managers m).groups 2 = ∅ := by
  intro es
  have hsteps : ((Acceptors.machine Nat Nat 2).run es).map
      (fun r => r.toOption.map (·.server.portMtx)) = some (some none) := by
    decide +kernel
  obtain ⟨r, hrun, hstate⟩ := Option.map_eq_some_iff.mp hsteps
  cases r with
  | error f => cases hstate
  | ok s =>
    obtain ⟨more, s', -, hmore, -, hrest⟩ := accept_progresses hrun (Option.some.inj hstate)
    exact ⟨more, s', hmore, hrest⟩

end ZktlsNet
