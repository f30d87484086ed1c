import Mathlib.Algebra.Group.Nat.Defs
import Mathlib.Logic.Function.Basic
import ZktlsNet.Group.IoManager
import ZktlsNet.Lib.Machine

/-!
# The server (`io_manager.cpp:118-226`)

Any number of `IOManager`s, the detached `init_pado_io` thread of every connection,
and calls of `accept` and `clear_pado_io`. A thread takes its steps between two
critical sections one by one; `accept` and `clear_pado_io` hold `io_map_mtx` from
the beginning to the end and are one step each.

Where all numbers are out `get_unused_port` goes on searching with `port_mtx`. Then
no call gets another number, and an `accept` that has found a group does not come
back from `free_used_port`. It keeps `io_map_mtx` meanwhile, so what is still done
here to the map of its `IOManager` is more than the program can do.

What a peer writes on its connection (`has_number` and `number`) and the moments at
which a connection fails are events, so that a run stands for any peers.

- `Server.step`: one step of the server.
- `Moves`: what each step does, which `step_moves` proves of every step.
-/

namespace ZktlsNet

open NetLib

variable {P : Type}

/-- Where an `init_pado_io` call stands. -/
inductive InitPc
  /-- `NewPadoIO` has not returned this connection -/
  | absent
  /-- in `io->Init()` or `recv_size(&has_number)` -/
  | start
  /-- in `recv_size(&number)`, or in `get_unused_port` for 0 -/
  | hasNumber (hasNumber : Nat)
  /-- `get_unused_port` has returned -/
  | issued (number : Nat)
  /-- the vector of the number has been made, and the number is to be sent -/
  | created (number : Nat)
  /-- about to put the connection into its slot -/
  | number (number hasNumber : Nat)
  | inserted (number hasNumber : Nat)
  /-- left by an exception -/
  | failed
  deriving DecidableEq, Repr

/-- An `init_pado_io` call: its `IOManager`, its `timestamp`, and where it stands. -/
structure InitCall where
  manager : Nat := 0
  timestamp : BitVec 32 := 0#32
  pc : InitPc := .absent
  deriving DecidableEq, Repr

/-- The state of the server. -/
structure Server (P : Type) where
  ports : Ports := .init
  /-- the call that holds `port_mtx` for ever, in its search for a number -/
  portMtx : Option P := none
  managers : Nat → IoManager P := fun _ => {}
  calls : P → InitCall := fun _ => {}
  /-- the connections with an `init_pado_io` call, the last one first -/
  channels : List P := []
  /-- what the calls of `accept` have returned -/
  accepted : List (List (Option P)) := []
  deleted : List P := []

/-- One step of the server. -/
inductive ServerEvent (P : Type)
  /-- the listen loop of an `IOManager` starts the thread of a new connection -/
  | listen (manager : Nat) (p : P) (timestamp : BitVec 32)
  | recvHasNumber (p : P) (hasNumber : Nat)
  | recvNumber (p : P) (number : Nat)
  /-- `get_unused_port` -/
  | issue (p : P)
  | create (p : P)
  | sendNumber (p : P)
  | insert (p : P)
  /-- an operation on the connection throws -/
  | fail (p : P)
  | accept (manager num : Nat)
  | clear (manager : Nat) (force : Bool) (timestamp : BitVec 32)
  deriving DecidableEq, Repr

namespace Server

def setManager (s : Server P) (m : Nat) (io : IoManager P) : Server P :=
  { s with managers := Function.update s.managers m io }

/-- The result of `clear_pado_io`: its maps, and what it has deleted. -/
def cleared (s : Server P) (m : Nat) (r : IoManager P × List P) : Server P :=
  { s.setManager m r.1 with deleted := s.deleted ++ r.2 }

section

variable (s : Server P) (m : Nat) (io : IoManager P)

@[simp] theorem setManager_managers (m' : Nat) :
    (s.setManager m io).managers m' = if m' = m then io else s.managers m' := by
  unfold setManager
  by_cases h : m' = m
  · subst h
    simp
  · simp [h]

@[simp] theorem setManager_calls : (s.setManager m io).calls = s.calls := rfl
@[simp] theorem setManager_ports : (s.setManager m io).ports = s.ports := rfl
@[simp] theorem setManager_portMtx : (s.setManager m io).portMtx = s.portMtx := rfl
@[simp] theorem setManager_channels : (s.setManager m io).channels = s.channels := rfl
@[simp] theorem setManager_accepted : (s.setManager m io).accepted = s.accepted := rfl
@[simp] theorem setManager_deleted : (s.setManager m io).deleted = s.deleted := rfl

end

variable [DecidableEq P]

def setPc (s : Server P) (p : P) (pc : InitPc) : Server P :=
  { s with calls := Function.update s.calls p { s.calls p with pc } }

/-- Start the call of a new connection. -/
def startCall (s : Server P) (m : Nat) (p : P) (timestamp : BitVec 32) : Server P :=
  { s with
    calls := Function.update s.calls p ⟨m, timestamp, .start⟩
    channels := p :: s.channels }

/-- A step, for `get_pado_io_num() = num`; `none` where the thread waits. -/
def step (num : Nat) (s : Server P) : ServerEvent P → Option (Res (Server P))
  | .listen m p timestamp =>
    match (s.calls p).pc with
    | .absent => some (.ok (s.startCall m p timestamp))
    | _ => none
  | .recvHasNumber p h =>
    match (s.calls p).pc with
    | .start => if h < 2 ^ 8 then some (.ok (s.setPc p (.hasNumber h))) else none
    | _ => none
  | .recvNumber p n =>
    match (s.calls p).pc with
    | .hasNumber h =>
      if h ≠ 0 ∧ n < 2 ^ 32 then some (.ok (s.setPc p (.number n h))) else none
    | _ => none
  | .issue p =>
    match (s.calls p).pc, s.portMtx with
    | .hasNumber 0, none =>
      match s.ports.getUnusedPort with
      | some (n, ports) => some (.ok { s.setPc p (.issued n) with ports })
      | none => some (.ok { s with portMtx := some p })
    | _, _ => none
  | .create p =>
    let call := s.calls p
    match call.pc with
    | .issued n =>
      let io := (s.managers call.manager).createGroup num n call.timestamp
      some (.ok ((s.setManager call.manager io).setPc p (.created n)))
    | _ => none
  | .sendNumber p =>
    match (s.calls p).pc with
    | .created n => some (.ok (s.setPc p (.number n 0)))
    | _ => none
  | .insert p =>
    let call := s.calls p
    match call.pc with
    | .number n h => some do
      let io ← (s.managers call.manager).put n h p
      pure ((s.setManager call.manager io).setPc p (.inserted n h))
    | _ => none
  | .fail p =>
    match (s.calls p).pc with
    | .start | .hasNumber (_ + 1) | .created _ =>
      -- `io` still holds the connection, and deletes it
      some (.ok { s.setPc p .failed with deleted := s.deleted ++ [p] })
    | _ => none
  | .accept m num' =>
    match (s.managers m).complete num', s.portMtx with
    | some (n, vec), none => some do
      let ports ← s.ports.freeUsedPort n
      pure { s.setManager m ((s.managers m).remove n) with
        ports, accepted := s.accepted ++ [vec.take num'] }
    | _, _ => none
  | .clear m force timestamp =>
    some (.ok (s.cleared m ((s.managers m).clearPadoIo force timestamp)))

variable (P) in
/-- The server with every interleaving of its threads. -/
def machine (num : Nat) : Machine (Res (Server P)) (ServerEvent P) := fallible {} (step num)

/-! ## Reading an updated state -/

section

variable (s : Server P) (m : Nat) (p q : P) (pc : InitPc)

@[simp] theorem setPc_pc :
    ((s.setPc p pc).calls q).pc = if q = p then pc else (s.calls q).pc := by
  unfold setPc
  by_cases h : q = p
  · subst h
    simp
  · simp [h]

@[simp] theorem setPc_manager : ((s.setPc p pc).calls q).manager = (s.calls q).manager := by
  unfold setPc
  by_cases h : q = p
  · subst h
    simp
  · simp [h]

@[simp] theorem setPc_managers : (s.setPc p pc).managers = s.managers := rfl
@[simp] theorem setPc_ports : (s.setPc p pc).ports = s.ports := rfl
@[simp] theorem setPc_portMtx : (s.setPc p pc).portMtx = s.portMtx := rfl
@[simp] theorem setPc_channels : (s.setPc p pc).channels = s.channels := rfl
@[simp] theorem setPc_accepted : (s.setPc p pc).accepted = s.accepted := rfl
@[simp] theorem setPc_deleted : (s.setPc p pc).deleted = s.deleted := rfl

@[simp] theorem startCall_pc (timestamp : BitVec 32) :
    ((s.startCall m p timestamp).calls q).pc = if q = p then .start else (s.calls q).pc := by
  unfold startCall
  by_cases h : q = p
  · subst h
    simp
  · simp [h]

@[simp] theorem startCall_managers (timestamp : BitVec 32) :
    (s.startCall m p timestamp).managers = s.managers := rfl
@[simp] theorem startCall_ports (timestamp : BitVec 32) :
    (s.startCall m p timestamp).ports = s.ports := rfl
@[simp] theorem startCall_portMtx (timestamp : BitVec 32) :
    (s.startCall m p timestamp).portMtx = s.portMtx := rfl
@[simp] theorem startCall_channels (timestamp : BitVec 32) :
    (s.startCall m p timestamp).channels = p :: s.channels := rfl
@[simp] theorem startCall_accepted (timestamp : BitVec 32) :
    (s.startCall m p timestamp).accepted = s.accepted := rfl
@[simp] theorem startCall_deleted (timestamp : BitVec 32) :
    (s.startCall m p timestamp).deleted = s.deleted := rfl

end

/-! ## What each step does -/

/-- An operation on the connection may throw. -/
def CanFail : InitPc → Prop
  | .start | .hasNumber (_ + 1) | .created _ => True
  | _ => False

/-- The successful steps. -/
inductive Moves (num : Nat) (s : Server P) : ServerEvent P → Server P → Prop
  | listen {m p timestamp} (hpc : (s.calls p).pc = .absent) :
    Moves num s (.listen m p timestamp) (s.startCall m p timestamp)
  | recvHasNumber {p h} (hpc : (s.calls p).pc = .start) (hlt : h < 2 ^ 8) :
    Moves num s (.recvHasNumber p h) (s.setPc p (.hasNumber h))
  | recvNumber {p n h} (hpc : (s.calls p).pc = .hasNumber h) (hpos : h ≠ 0) (hlt : n < 2 ^ 32) :
    Moves num s (.recvNumber p n) (s.setPc p (.number n h))
  | issue {p n ports} (hpc : (s.calls p).pc = .hasNumber 0)
    (hport : s.ports.getUnusedPort = some (n, ports)) (hmtx : s.portMtx = none) :
    Moves num s (.issue p) { s.setPc p (.issued n) with ports }
  | search {p} (hpc : (s.calls p).pc = .hasNumber 0) (hport : s.ports.getUnusedPort = none)
    (hmtx : s.portMtx = none) : Moves num s (.issue p) { s with portMtx := some p }
  | create {p n} (hpc : (s.calls p).pc = .issued n) :
    Moves num s (.create p) ((s.setManager (s.calls p).manager ((s.managers
      (s.calls p).manager).createGroup num n (s.calls p).timestamp)).setPc p (.created n))
  | sendNumber {p n} (hpc : (s.calls p).pc = .created n) :
    Moves num s (.sendNumber p) (s.setPc p (.number n 0))
  | insert {p n h io} (hpc : (s.calls p).pc = .number n h)
    (hput : (s.managers (s.calls p).manager).put n h p = .ok io) :
    Moves num s (.insert p) ((s.setManager (s.calls p).manager io).setPc p (.inserted n h))
  | fail {p} (hpc : CanFail (s.calls p).pc) :
    Moves num s (.fail p) { s.setPc p .failed with deleted := s.deleted ++ [p] }
  | accept {m num' n vec ports} (hfound : (s.managers m).complete num' = some (n, vec))
    (hport : s.ports.freeUsedPort n = .ok ports) (hmtx : s.portMtx = none) :
    Moves num s (.accept m num') { s.setManager m ((s.managers m).remove n) with
      ports, accepted := s.accepted ++ [vec.take num'] }
  | clear {m force timestamp} :
    Moves num s (.clear m force timestamp)
      (s.cleared m ((s.managers m).clearPadoIo force timestamp))

/-- **Every successful step** is one of these. -/
theorem step_moves {num : Nat} {s s' : Server P} {e : ServerEvent P}
    (h : s.step num e = some (.ok s')) : Moves num s e s' := by
  cases e with
  | listen m p timestamp =>
    simp only [step] at h
    split at h
    · rename_i hpc
      cases h
      exact .listen hpc
    · cases h
  | recvHasNumber p hn =>
    simp only [step] at h
    split at h
    · rename_i hpc
      obtain ⟨hlt, h⟩ := Option.ite_none_right_eq_some.mp h
      cases h
      exact .recvHasNumber hpc hlt
    · cases h
  | recvNumber p n =>
    simp only [step] at h
    split at h
    · rename_i hn hpc
      obtain ⟨⟨hpos, hlt⟩, h⟩ := Option.ite_none_right_eq_some.mp h
      cases h
      exact .recvNumber hpc hpos hlt
    · cases h
  | issue p =>
    simp only [step] at h
    split at h
    · rename_i hpc hmtx
      split at h
      · rename_i n ports hport
        cases h
        exact .issue hpc hport hmtx
      · rename_i hport
        cases h
        exact .search hpc hport hmtx
    · cases h
  | create p =>
    simp only [step] at h
    split at h
    · rename_i n hpc
      cases h
      exact .create hpc
    · cases h
  | sendNumber p =>
    simp only [step] at h
    split at h
    · rename_i n hpc
      cases h
      exact .sendNumber hpc
    · cases h
  | insert p =>
    simp only [step] at h
    split at h
    · rename_i n hn hpc
      obtain ⟨io, hput, h⟩ := bind_eq_ok (Option.some.inj h)
      cases h
      exact .insert hpc hput
    · cases h
  | fail p =>
    simp only [step] at h
    split at h
    · rename_i hpc
      cases h
      exact .fail (by rw [hpc]; trivial)
    · rename_i hpc
      cases h
      exact .fail (by rw [hpc]; trivial)
    · rename_i hpc
      cases h
      exact .fail (by rw [hpc]; trivial)
    · cases h
  | accept m num' =>
    simp only [step] at h
    split at h
    · rename_i n vec hfound hmtx
      obtain ⟨ports, hport, h⟩ := bind_eq_ok (Option.some.inj h)
      cases h
      exact .accept hfound hport hmtx
    · cases h
  | clear m force timestamp =>
    cases h
    exact .clear

/-- What can go wrong: a write to a slot that is not there, and `free_used_port` of a
number outside the bitmap. -/
theorem step_error {num : Nat} {s : Server P} {e : ServerEvent P} {f : Failure}
    (h : s.step num e = some (.error f)) :
    (∃ p n i, e = .insert p ∧ (s.calls p).pc = .number n i ∧
      (s.managers (s.calls p).manager).put n i p = .error f) ∨
    ∃ m num' n vec, e = .accept m num' ∧ (s.managers m).complete num' = some (n, vec) ∧
      s.ports.freeUsedPort n = .error f := by
  cases e with
  | insert p =>
    simp only [step] at h
    split at h
    · rename_i n i hpc
      refine .inl ⟨p, n, i, rfl, hpc, ?_⟩
      cases hput : (s.managers (s.calls p).manager).put n i p with
      | error f' => simpa [hput, bind, Except.bind] using h
      | ok io => simp [hput] at h
    · cases h
  | accept m num' =>
    simp only [step] at h
    split at h
    · rename_i n vec hfound _
      refine .inr ⟨m, num', n, vec, rfl, hfound, ?_⟩
      cases hport : s.ports.freeUsedPort n with
      | error f' => simpa [hport, bind, Except.bind] using h
      | ok ports => simp [hport] at h
    · cases h
  | recvHasNumber p i | recvNumber p n =>
    simp only [step] at h
    split at h
    · split at h <;> cases h
    · cases h
  | issue p =>
    simp only [step] at h
    split at h
    · split at h <;> cases h
    · cases h
  | listen m p timestamp | create p | sendNumber p | fail p =>
    simp only [step] at h
    split at h <;> cases h
  | clear m force timestamp => cases h

end Server

end ZktlsNet
