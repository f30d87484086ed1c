import ZktlsNet.Group.Ownership
import ZktlsNet.Lib.Bytes

/-!
# Clients that connect to the server (`io_manager.cpp:256-327`)

Any number of clients, each in one `connect_pado_io(num)` call with a thread for each of
its channels, against one `IOManager`. A channel is two byte streams that deliver in
order; connections do not fail, and there is no clean-up.

- `Peers.step`: one step of a client or of the server.
- `Line`: what holds of one channel: how far its thread and its `init_pado_io` call are,
  and that between them they account for all bytes in both directions.
- `Line.sendHasNumber` ... `Line.answer`: each step keeps it.
-/

namespace ZktlsNet

open NetLib

/-- A client and the index of one of its channels. -/
abbrev ChannelId := Nat × Nat

/-- `uint8_t has_number = i`, and its copy in the thread. -/
def hasNumber2 (p : ChannelId) : UInt8 := UInt8.ofNat p.2

/-- Where a `do_connect_pado_io` thread stands. -/
inductive ConnectPc
  /-- `NewPadoIO` has not been called -/
  | absent
  /-- before `send_size(&has_number2)` -/
  | start
  /-- in the wait for `number`, or for 0 in `recv_size(&recv_number)` -/
  | exchanging
  /-- the wait is over -/
  | numbered
  /-- the thread is finished, having sent or received this number -/
  | done (number : Nat)
  deriving DecidableEq, Repr

/-- The clients, the server, and the bytes on the way. -/
structure Peers where
  server : Server ChannelId := {}
  /-- how many channels the loop of `connect_pado_io` has made, for each client -/
  connected : Nat → Nat := fun _ => 0
  /-- the variable `number` of `connect_pado_io`, for each client -/
  number : Nat → Nat := fun _ => 0
  threads : ChannelId → ConnectPc := fun _ => .absent
  toServer : ChannelId → Bytes := fun _ => []
  toClient : ChannelId → Bytes := fun _ => []

/-- One step of a client or of the server. -/
inductive PeerEvent
  /-- a round of the loop of `connect_pado_io` -/
  | connect (client : Nat)
  | sendHasNumber (p : ChannelId)
  /-- the wait finds `*number != 0` -/
  | wake (p : ChannelId)
  | sendNumber (p : ChannelId)
  | recvNumber (p : ChannelId)
  /-- the server takes the connection -/
  | listen (p : ChannelId) (timestamp : BitVec 32)
  | serverRecvHasNumber (p : ChannelId)
  | serverRecvNumber (p : ChannelId)
  | issue (p : ChannelId)
  | create (p : ChannelId)
  | serverSendNumber (p : ChannelId)
  | insert (p : ChannelId)
  | accept
  deriving DecidableEq, Repr

namespace Peers

def setThread (s : Peers) (p : ChannelId) (pc : ConnectPc) : Peers :=
  { s with threads := Function.update s.threads p pc }

def setToServer (s : Peers) (p : ChannelId) (bs : Bytes) : Peers :=
  { s with toServer := Function.update s.toServer p bs }

def setToClient (s : Peers) (p : ChannelId) (bs : Bytes) : Peers :=
  { s with toClient := Function.update s.toClient p bs }

/-- A step of the server. -/
def serverStep (num : Nat) (s : Peers) (e : ServerEvent ChannelId) : Option (Res Peers) :=
  (s.server.step num e).map fun r => r.map fun server => { s with server }

/-- A step, of `connect_pado_io(num)` and a server with `get_pado_io_num() = num`;
`none` where the thread waits. -/
def step (num : Nat) (s : Peers) : PeerEvent → Option (Res Peers)
  | .connect c =>
    if s.connected c < num then
      some (.ok { s.setThread (c, s.connected c) .start with
        connected := Function.update s.connected c (s.connected c + 1) })
    else none
  | .sendHasNumber p =>
    match s.threads p with
    | .start =>
      some (.ok ((s.setToServer p (s.toServer p ++ [hasNumber2 p])).setThread p .exchanging))
    | _ => none
  | .wake p =>
    match s.threads p with
    | .exchanging =>
      if hasNumber2 p ≠ 0 ∧ s.number p.1 ≠ 0 then some (.ok (s.setThread p .numbered)) else none
    | _ => none
  | .sendNumber p =>
    match s.threads p with
    | .numbered =>
      some (.ok ((s.setToServer p (s.toServer p ++ toBE 4 (s.number p.1))).setThread p
        (.done (s.number p.1))))
    | _ => none
  | .recvNumber p =>
    match s.threads p with
    | .exchanging =>
      if hasNumber2 p = 0 ∧ 4 ≤ (s.toClient p).length then
        let recvNumber := ofBE ((s.toClient p).take 4)
        some (.ok { (s.setToClient p ((s.toClient p).drop 4)).setThread p (.done recvNumber) with
          number := Function.update s.number p.1 recvNumber })
      else none
    | _ => none
  | .listen p timestamp =>
    match s.threads p with
    | .absent => none
    | _ => s.serverStep num (.listen 0 p timestamp)
  | .serverRecvHasNumber p =>
    match s.toServer p with
    | [] => none
    | b :: rest => (s.setToServer p rest).serverStep num (.recvHasNumber p b.toNat)
  | .serverRecvNumber p =>
    if 4 ≤ (s.toServer p).length then
      (s.setToServer p ((s.toServer p).drop 4)).serverStep num
        (.recvNumber p (ofBE ((s.toServer p).take 4)))
    else none
  | .issue p => s.serverStep num (.issue p)
  | .create p => s.serverStep num (.create p)
  | .serverSendNumber p =>
    match (s.server.calls p).pc with
    | .created n => (s.setToClient p (s.toClient p ++ toBE 4 n)).serverStep num (.sendNumber p)
    | _ => none
  | .insert p => s.serverStep num (.insert p)
  | .accept => s.serverStep num (.accept 0 num)

/-- Clients and server with every interleaving of their threads. -/
def machine (num : Nat) : Machine (Res Peers) PeerEvent := fallible {} (step num)

section

variable (s : Peers) (p q : ChannelId) (pc : ConnectPc) (bs : Bytes)

@[simp] theorem setThread_threads :
    (s.setThread p pc).threads q = if q = p then pc else s.threads q := Function.update_apply ..

@[simp] theorem setToServer_toServer :
    (s.setToServer p bs).toServer q = if q = p then bs else s.toServer q := Function.update_apply ..

@[simp] theorem setToClient_toClient :
    (s.setToClient p bs).toClient q = if q = p then bs else s.toClient q := Function.update_apply ..

@[simp] theorem setThread_server : (s.setThread p pc).server = s.server := rfl
@[simp] theorem setThread_connected : (s.setThread p pc).connected = s.connected := rfl
@[simp] theorem setThread_number : (s.setThread p pc).number = s.number := rfl
@[simp] theorem setThread_toServer : (s.setThread p pc).toServer = s.toServer := rfl
@[simp] theorem setThread_toClient : (s.setThread p pc).toClient = s.toClient := rfl

@[simp] theorem setToServer_server : (s.setToServer p bs).server = s.server := rfl
@[simp] theorem setToServer_connected : (s.setToServer p bs).connected = s.connected := rfl
@[simp] theorem setToServer_number : (s.setToServer p bs).number = s.number := rfl
@[simp] theorem setToServer_threads : (s.setToServer p bs).threads = s.threads := rfl
@[simp] theorem setToServer_toClient : (s.setToServer p bs).toClient = s.toClient := rfl

@[simp] theorem setToClient_server : (s.setToClient p bs).server = s.server := rfl
@[simp] theorem setToClient_connected : (s.setToClient p bs).connected = s.connected := rfl
@[simp] theorem setToClient_number : (s.setToClient p bs).number = s.number := rfl
@[simp] theorem setToClient_threads : (s.setToClient p bs).threads = s.threads := rfl
@[simp] theorem setToClient_toServer : (s.setToClient p bs).toServer = s.toServer := rfl

end

/-- A step of the server, seen from the whole. -/
theorem serverStep_eq_some {num : Nat} {s : Peers} {e : ServerEvent ChannelId} {r : Res Peers}
    (h : s.serverStep num e = some r) :
    ∃ r', s.server.step num e = some r' ∧ r = r'.map fun server => { s with server } := by
  obtain ⟨r', hr', rfl⟩ := Option.map_eq_some_iff.mp h
  exact ⟨r', hr', rfl⟩

end Peers

/-! ## What has been exchanged on a channel -/

/-- What a client thread has sent. -/
def ConnectPc.sent (p : ChannelId) : ConnectPc → Bytes
  | .absent | .start => []
  | .exchanging | .numbered => [hasNumber2 p]
  | .done n => if hasNumber2 p = 0 then [hasNumber2 p] else hasNumber2 p :: toBE 4 n

/-- What a client thread has received. -/
def ConnectPc.received (p : ChannelId) : ConnectPc → Bytes
  | .done n => if hasNumber2 p = 0 then toBE 4 n else []
  | _ => []

/-- What an `init_pado_io` call has received. -/
def InitPc.received (p : ChannelId) : InitPc → Bytes
  | .absent | .start | .failed => []
  | .hasNumber _ | .issued _ | .created _ => [hasNumber2 p]
  | .number n _ | .inserted n _ =>
    if hasNumber2 p = 0 then [hasNumber2 p] else hasNumber2 p :: toBE 4 n

/-- What an `init_pado_io` call has sent. -/
def InitPc.sent (p : ChannelId) : InitPc → Bytes
  | .number n _ | .inserted n _ => if hasNumber2 p = 0 then toBE 4 n else []
  | _ => []

/-- The `has_number` that a call knows. -/
def InitPc.index : InitPc → Option Nat
  | .hasNumber h | .number _ h | .inserted _ h => some h
  | .issued _ | .created _ => some 0
  | .absent | .start | .failed => none

/-- The number of the group that a call belongs to, once the group exists. -/
def InitPc.group : InitPc → Option Nat
  | .created n | .number n _ | .inserted n _ => some n
  | _ => none

/-- What holds of a channel, with `number` the client's variable. -/
structure Line (num : Nat) (p : ChannelId) (thread : ConnectPc) (call : InitPc)
    (toServer toClient : Bytes) (number : Nat) : Prop where
  toServer : thread.sent p = call.received p ++ toServer
  toClient : call.sent p = thread.received p ++ toClient
  exists_lt : thread ≠ .absent → p.2 < num
  listened : call ≠ .absent → thread ≠ .absent
  index : ∀ h, call.index = some h → h = p.2
  numbered : thread = .numbered → number ≠ 0 ∧ p.2 ≠ 0
  done : ∀ n, thread = .done n → number = n ∧ n ≠ 0 ∧ n < 2 ^ 32
  /-- a number that has come from the client is the one that its thread has sent -/
  quoted : ∀ n, call.group = some n → p.2 ≠ 0 → thread = .done n
  /-- a number that the client has got is the one that the call has sent -/
  granted : ∀ n, thread = .done n → p.2 = 0 → call.group = some n
  range : ∀ n, call = .issued n ∨ call.group = some n → 1 ≤ n ∧ n < 2 ^ 32

namespace Line

variable {num number : Nat} {p : ChannelId} {thread : ConnectPc} {call : InitPc} {up down : Bytes}

theorem hasNumber2_toNat {num : Nat} {p : ChannelId} (hlt : p.2 < num) (hnum : num ≤ 256) :
    (hasNumber2 p).toNat = p.2 := by
  rw [hasNumber2, UInt8.toNat_ofNat']
  omega

theorem hasNumber2_eq_zero {num : Nat} {p : ChannelId} (hlt : p.2 < num) (hnum : num ≤ 256) :
    hasNumber2 p = 0 ↔ p.2 = 0 := by
  rw [← UInt8.toNat_inj, hasNumber2_toNat hlt hnum]
  rfl

/-- A channel that has not been made. -/
theorem absent (num : Nat) (p : ChannelId) (number : Nat) :
    Line num p .absent .absent [] [] number where
  toServer := rfl
  toClient := rfl
  exists_lt h := (h rfl).elim
  listened h := (h rfl).elim
  index h hh := by cases hh
  numbered h := by cases h
  done n h := by cases h
  quoted n h := by cases h
  granted n h := by cases h
  range n h := by rcases h with h | h <;> cases h

/-- The client's variable is written while no thread has used it. -/
theorem setNumber (h : Line num p thread call up down 0) (n : Nat) :
    Line num p thread call up down n :=
  { h with
    numbered := fun ht => ((h.numbered ht).1 rfl).elim
    done := fun k ht => ((h.done k ht).2.1 (h.done k ht).1.symm).elim }

/-! ### Steps of the client -/

theorem connect (h : Line num p .absent call up down number) (hlt : p.2 < num) :
    Line num p .start call up down number :=
  { h with
    exists_lt := fun _ => hlt
    listened := fun hc => (h.listened hc rfl).elim
    numbered := fun ht => by cases ht
    done := fun n ht => by cases ht
    quoted := fun n hc hp => by cases h.quoted n hc hp
    granted := fun n ht => by cases ht }

theorem sendHasNumber (h : Line num p .start call up down number) :
    Line num p .exchanging call (up ++ [hasNumber2 p]) down number :=
  { h with
    toServer := by
      rw [← List.append_assoc, ← h.toServer]
      rfl
    exists_lt := fun _ => h.exists_lt (by simp)
    listened := fun _ => by simp
    numbered := fun ht => by cases ht
    done := fun n ht => by cases ht
    quoted := fun n hc hp => by cases h.quoted n hc hp
    granted := fun n ht => by cases ht }

theorem wake (h : Line num p .exchanging call up down number) (hnumber : number ≠ 0)
    (hp : p.2 ≠ 0) : Line num p .numbered call up down number :=
  { h with
    exists_lt := fun _ => h.exists_lt (by simp)
    listened := fun _ => by simp
    numbered := fun _ => ⟨hnumber, hp⟩
    done := fun n ht => by cases ht
    quoted := fun n hc hp => by cases h.quoted n hc hp
    granted := fun n ht => by cases ht }

theorem sendNumber (h : Line num p .numbered call up down number) (hnum : num ≤ 256)
    (hnumber : number < 2 ^ 32) :
    Line num p (.done number) call (up ++ toBE 4 number) down number := by
  obtain ⟨hne, hp⟩ := h.numbered rfl
  have hlt := h.exists_lt (by simp)
  have hzero : hasNumber2 p ≠ 0 := fun hz => hp ((hasNumber2_eq_zero hlt hnum).mp hz)
  exact { h with
    toServer := by
      rw [← List.append_assoc, ← h.toServer]
      simp [ConnectPc.sent, hzero]
    toClient := by
      rw [h.toClient]
      simp [ConnectPc.received, hzero]
    exists_lt := fun _ => hlt
    listened := fun _ => by simp
    numbered := fun ht => by cases ht
    done := fun n ht => by
      cases ht
      exact ⟨rfl, hne, hnumber⟩
    quoted := fun n hc hp => by cases h.quoted n hc hp
    granted := fun n ht hz => (hp hz).elim }

/-- A call that has sent its number. -/
theorem sent_length {call : InitPc} (hlen : 4 ≤ (call.sent p).length) :
    ∃ n, call.group = some n ∧ call.sent p = toBE 4 n := by
  cases call with
  | number n h | inserted n h =>
    refine ⟨n, rfl, ?_⟩
    simp only [InitPc.sent] at hlen ⊢
    split
    · rfl
    · rename_i hne
      simp [hne] at hlen
  | _ => simp [InitPc.sent] at hlen

/-- The thread of the first channel gets the number that the call has sent. -/
theorem recvNumber (h : Line num p .exchanging call up down number) (hp : p.2 = 0)
    (hzero : hasNumber2 p = 0) (hlen : 4 ≤ down.length) :
    ∃ n, call.group = some n ∧ ofBE (down.take 4) = n ∧ 1 ≤ n ∧ n < 2 ^ 32 ∧
      Line num p (.done n) call up (down.drop 4) n := by
  have hsent : call.sent p = down := h.toClient
  obtain ⟨n, hgroup, hbytes⟩ :=
    sent_length (show 4 ≤ (call.sent p).length by rw [hsent]; exact hlen)
  obtain ⟨hpos, hlt⟩ := h.range n (.inr hgroup)
  have hdown : down = toBE 4 n := by rw [← hsent, hbytes]
  refine ⟨n, hgroup, ?_, hpos, hlt, ?_⟩
  · rw [hdown, List.take_of_length_le (by simp), ofBE_toBE_of_lt (by simpa using hlt)]
  · exact { h with
      toServer := by
        rw [← h.toServer]
        simp [ConnectPc.sent, hzero]
      toClient := by
        rw [hsent, hdown, List.drop_of_length_le (by simp)]
        simp [ConnectPc.received, hzero]
      exists_lt := fun _ => h.exists_lt (by simp)
      listened := fun _ => by simp
      numbered := fun ht => by cases ht
      done := fun k ht => by
        cases ht
        exact ⟨rfl, by omega, hlt⟩
      quoted := fun k hc hne => (hne hp).elim
      granted := fun k ht _ => by
        cases ht
        exact hgroup }

/-! ### Steps of the server -/

theorem listen (h : Line num p thread .absent up down number) (ht : thread ≠ .absent) :
    Line num p thread .start up down number :=
  { h with
    listened := fun _ => ht
    index := fun i hi => by cases hi
    quoted := fun n hc => by cases hc
    granted := fun n ht hp => by cases h.granted n ht hp
    range := fun n hc => by rcases hc with hc | hc <;> cases hc }

/-- The first byte that the server receives is the index of the channel. -/
theorem serverRecvHasNumber {b : UInt8} {rest : Bytes} (hnum : num ≤ 256)
    (h : Line num p thread .start (b :: rest) down number) :
    b.toNat = p.2 ∧ Line num p thread (.hasNumber b.toNat) rest down number := by
  have hsent : thread.sent p = b :: rest := h.toServer
  have hlt := h.exists_lt (h.listened (by simp))
  have hb : b = hasNumber2 p ∧ rest = (thread.sent p).tail := by
    rw [hsent]
    refine ⟨?_, rfl⟩
    cases thread with
    | absent | start => cases hsent
    | exchanging | numbered =>
      cases hsent
      rfl
    | done n =>
      simp only [ConnectPc.sent] at hsent
      split at hsent <;> cases hsent <;> rfl
  have hindex : b.toNat = p.2 := by rw [hb.1, hasNumber2_toNat hlt hnum]
  refine ⟨hindex, ?_⟩
  exact { h with
    toServer := by
      rw [hsent, hb.1]
      rfl
    listened := fun _ => h.listened (by simp)
    index := fun i hi => by
      cases hi
      exact hindex
    quoted := fun n hc => by cases hc
    granted := fun n ht hp => by cases h.granted n ht hp
    range := fun n hc => by rcases hc with hc | hc <;> cases hc }

/-- The number that the server receives is the one that the thread has sent. -/
theorem serverRecvNumber {i : Nat} (hnum : num ≤ 256)
    (h : Line num p thread (.hasNumber i) up down number) (hi : i ≠ 0) (hlen : 4 ≤ up.length) :
    ∃ n, thread = .done n ∧ ofBE (up.take 4) = n ∧
      Line num p thread (.number n i) (up.drop 4) down number := by
  have hp : p.2 ≠ 0 := by
    rw [← h.index i rfl]
    exact hi
  have hlt := h.exists_lt (h.listened (by simp))
  have hzero : hasNumber2 p ≠ 0 := fun hz => hp ((hasNumber2_eq_zero hlt hnum).mp hz)
  have hsent : thread.sent p = hasNumber2 p :: up := h.toServer
  have hdone : ∃ n, thread = .done n ∧ up = toBE 4 n := by
    cases thread with
    | absent | start => cases hsent
    | exchanging | numbered =>
      cases hsent
      simp at hlen
    | done n =>
      simp only [ConnectPc.sent, if_neg hzero, List.cons.injEq, true_and] at hsent
      exact ⟨n, rfl, hsent.symm⟩
  obtain ⟨n, rfl, hup⟩ := hdone
  obtain ⟨-, hne, hbound⟩ := h.done n rfl
  refine ⟨n, rfl, ?_, ?_⟩
  · rw [hup, List.take_of_length_le (by simp), ofBE_toBE_of_lt (by simpa using hbound)]
  · exact { h with
      toServer := by
        rw [hsent, hup, List.drop_of_length_le (by simp)]
        simp [InitPc.received, hzero]
      toClient := by
        rw [← h.toClient]
        simp [InitPc.sent, hzero]
      listened := fun _ => by simp
      index := fun j hj => h.index j hj
      quoted := fun k hc _ => by
        cases hc
        rfl
      granted := fun k ht hz => (hp hz).elim
      range := fun k hc => by
        rcases hc with hc | hc
        · cases hc
        · cases hc
          omega }

theorem issue {n : Nat} (h : Line num p thread (.hasNumber 0) up down number)
    (hn : 1 ≤ n ∧ n < 2 ^ 32) : Line num p thread (.issued n) up down number :=
  { h with
    listened := fun _ => h.listened (by simp)
    index := fun j hj => h.index j hj
    quoted := fun k hc => by cases hc
    granted := fun k ht hp => by cases h.granted k ht hp
    range := fun k hc => by
      rcases hc with hc | hc
      · cases hc
        exact hn
      · cases hc }

theorem create {n : Nat} (h : Line num p thread (.issued n) up down number) :
    Line num p thread (.created n) up down number :=
  { h with
    listened := fun _ => h.listened (by simp)
    index := fun j hj => h.index j hj
    quoted := fun k hc hne => (hne (h.index 0 rfl).symm).elim
    granted := fun k ht hp => by cases h.granted k ht hp
    range := fun k hc => by
      rcases hc with hc | hc
      · cases hc
      · cases hc
        exact h.range n (.inl rfl) }

theorem serverSendNumber {n : Nat} (hnum : num ≤ 256)
    (h : Line num p thread (.created n) up down number) :
    Line num p thread (.number n 0) up (down ++ toBE 4 n) number := by
  have hp : p.2 = 0 := (h.index 0 rfl).symm
  have hlt := h.exists_lt (h.listened (by simp))
  have hzero : hasNumber2 p = 0 := (hasNumber2_eq_zero hlt hnum).mpr hp
  exact { h with
    toServer := by
      rw [h.toServer]
      simp [InitPc.received, hzero]
    toClient := by
      rw [← List.append_assoc, ← h.toClient]
      simp [InitPc.sent, hzero]
    listened := fun _ => h.listened (by simp)
    index := fun j hj => h.index j hj
    quoted := fun k hc hne => (hne hp).elim
    granted := fun k ht hz => h.granted k ht hz
    range := fun k hc => by
      rcases hc with hc | hc
      · cases hc
      · exact h.range k (.inr hc) }

theorem insert {n i : Nat} (h : Line num p thread (.number n i) up down number) :
    Line num p thread (.inserted n i) up down number :=
  { h with
    listened := fun _ => h.listened (by simp)
    range := fun k hc => by
      rcases hc with hc | hc
      · cases hc
      · exact h.range k (.inr hc) }

end Line

end ZktlsNet
