import ZktlsNet.Lib.Machine
import ZktlsNet.Proxy.Messages
import ZktlsNet.Ws.Link

/-!
# The table of proxied calls (`proxy_client.cpp:83-279`, `proxy_client.cpp:305-319`)

A call to the proxy has a record, which is shared: the list `callResultHead`
holds it until its answer comes, then the network thread does, and the caller
waits on it all the while. Whoever comes last frees it: the caller if it has got
the answer, the network thread if the caller has given up, and the destructor if
no answer came.

The pointer to the record of the `k`-th call is `k`. An access to a record that
has been freed, and a second `free` of it, are faults. The calls may be made by
any threads; a call of the send thread is one whose record goes through its queue
between `send` and `putCallId`.

- `act`: the steps, each of which is atomic because of the lock it takes or
  because nobody else looks at what it touches.
- `CallOk`: who may hold a record, given how far its call is and what it says.
- `callTable_safe`: no access faults, and a call that has got an answer has got
  the one to its own id.
-/

namespace ZktlsNet

open NetLib

/-! ## The state -/

/-- `PosixSocketCallResult`, without the list pointer. -/
structure PosixSocketCallResult where
  callId : Int
  operationCompleted : Nat
  bytes : Int
  data : Option Bytes
  deriving DecidableEq, Repr

/-- How far a call is. After `returned` the wait has returned true; `used` and `done`
hold the answer that was read, before and after the record is freed. A call may
be left by an exception, or in the queue of the send thread. -/
inductive CallPc
  | allocated
  | sent
  | put
  | returned
  | used (data : Bytes)
  | done (data : Bytes)
  | cancelled
  | abandoned
  deriving DecidableEq, Repr

/-- The answer that a call has read. -/
def CallPc.saw : CallPc → Option Bytes
  | .used data | .done data => some data
  | _ => none

/-- The call does not go on. -/
def CallPc.over : CallPc → Bool
  | .done _ | .cancelled | .abandoned => true
  | _ => false

/-- A call and its record, `none` once that is freed. -/
structure ProxiedCall where
  record : Option PosixSocketCallResult
  pc : CallPc
  deriving DecidableEq, Repr

/-- The wait of the call has returned true. -/
def CallPc.got : CallPc → Bool
  | .returned | .used _ | .done _ => true
  | _ => false

/-- The answer that the call finds, or found, in its record. -/
def ProxiedCall.answer (c : ProxiedCall) : Option Bytes :=
  match c.pc with
  | .returned => c.record.bind PosixSocketCallResult.data
  | pc => pc.saw

/-- What `process_network` is about to do: in `RecvMessage`, to look for a parked
message with the id, or to read one more; in `BridgeSocketOnMessage`, to find the
record of the message, to fill it, or to say that it is complete. -/
inductive NetworkPc
  | start
  | take
  | recv (id : Nat)
  | read (id : Nat)
  | bridge (id : Nat) (chunk : RecvBuffer)
  | fill (b : Nat) (data : Bytes)
  | complete (b : Nat) (data : Bytes)
  | exited
  deriving DecidableEq, Repr

/-- The record that the network thread holds. -/
def NetworkPc.holds : NetworkPc → Option Nat
  | .fill b _ | .complete b _ => some b
  | _ => none

/-- `ProxyClientCtx`, as far as it serves the calls, and the proxy's side: the calls
it was sent, with the sizes they expect, and the answers it has sent. -/
structure CallTable where
  calls : List ProxiedCall
  callResultHead : List Nat
  nextId : Int
  callIdHeader : List Nat
  waitNextCallId : Bool
  waitOperationCompleted : Bool
  networkRecvCtx : RecvCtx
  channelStream : Link
  network : NetworkPc
  requests : List (Int × Int)
  answers : List (Int × Bytes)
  finished : Bool
  deriving DecidableEq, Repr

namespace CallTable

/-- A new context. -/
def new : CallTable where
  calls := []
  callResultHead := []
  nextId := 1
  callIdHeader := []
  waitNextCallId := true
  waitOperationCompleted := true
  networkRecvCtx := { newRecvCtx with isChunk := true }
  channelStream := ⟨[], 0, []⟩
  network := .start
  requests := []
  answers := []
  finished := false

/-! ## Records -/

/-- The record behind a pointer. -/
def recordOf (s : CallTable) (b : Nat) : Option PosixSocketCallResult :=
  (s.calls[b]?).bind ProxiedCall.record

/-- The position of a call. -/
def pcOf (s : CallTable) (b : Nat) : CallPc := ((s.calls[b]?).map ProxiedCall.pc).getD .abandoned

/-- An access to a record. -/
def load (s : CallTable) (b : Nat) : Res PosixSocketCallResult :=
  match s.recordOf b with
  | some r => .ok r
  | none => .error (.fault .useAfterFree)

/-- The record and the position of a call after a step. -/
def setCall (s : CallTable) (b : Nat) (record : Option PosixSocketCallResult) (pc : CallPc) :
    CallTable :=
  { s with calls := s.calls.set b ⟨record, pc⟩ }

/-- `free_call_result`. -/
def freeCallResult (s : CallTable) (b : Nat) : Res CallTable := do
  let _ ← s.load b
  return s.setCall b none (s.pcOf b)

/-- Walking over the whole list. -/
def walk (s : CallTable) : List Nat → Res Unit
  | [] => .ok ()
  | b :: bs => do
    let _ ← s.load b
    walk s bs

/-- `allocate_call_result`. -/
def allocateCallResult (s : CallTable) (expectedBytes : Nat) : Res CallTable := do
  s.walk s.callResultHead
  return { s with
    calls := s.calls ++ [⟨some ⟨s.nextId, 0, expectedBytes, none⟩, .allocated⟩]
    callResultHead := s.callResultHead ++ [s.calls.length]
    nextId := s.nextId + 1 }

/-- The walk of `pop_call_result`: the record with the id, and the list without it. -/
def popFrom (s : CallTable) (callId : Int) : List Nat → Res (Option Nat × List Nat)
  | [] => .ok (none, [])
  | b :: bs => do
    let r ← s.load b
    if r.callId = callId then return (some b, bs)
    else
      let (found, rest) ← popFrom s callId bs
      return (found, b :: rest)

/-- `pop_all_call_results`: every record of the list is left before it is freed. -/
def popAll (s : CallTable) : List Nat → Res CallTable
  | [] => .ok s
  | b :: bs => do
    let s ← s.freeCallResult b
    popAll s bs

/-! ## The network thread -/

/-- `sizeof(SocketCallResultHeader)`. -/
def socketCallResultHeaderSize : Nat := 3 * 4

/-- The conversion of a `size_t` to `int`. -/
def toInt (n : Nat) : Int :=
  if n % 2 ^ 32 < 2 ^ 31 then (n % 2 ^ 32 : Nat) else (n % 2 ^ 32 : Nat) - 2 ^ 32

/-- The first half of `BridgeSocketOnMessage`: the message, or one made up in its place
(of which `errno_` is left unset, `junk`), and its record. -/
def bridgeSocketOnMessage (junk : Bytes) (s : CallTable) (callId : Nat) (chunk : RecvBuffer) :
    Res CallTable := do
  let numBytes ← chunk.readLength
  if chunk.payload.length < numBytes then throw (.fault .outOfBounds)
  let data := if numBytes < socketCallResultHeaderSize then
      toLE 4 callId ++ toLE 4 (2 ^ 32 - 1) ++ junk
    else chunk.payload.take numBytes
  let (found, rest) ← s.popFrom (leadingInt data) s.callResultHead
  match found with
  -- the assertion that there is one does nothing
  | none => return { s with callResultHead := rest, network := .take }
  | some b => return { s with callResultHead := rest, network := .fill b data }

/-- One step of `process_network`; `memdup` tells for which records there is memory for a
copy of the answer, which is made at most once for each. A message that is too short
for its record, and a copy that cannot be made, leave the record to nobody. The
assertions do nothing. -/
def networkStep (junk : Bytes) (memdup : Nat → Bool) (s : CallTable) : Res CallTable :=
  match s.network with
  | .start => return { s with waitNextCallId := true, network := .take }
  | .take =>
    match s.callIdHeader with
    | [] => return { s with network := .exited }
    | id :: ids => return { s with callIdHeader := ids, network := .recv id }
  | .recv id => do
    let (found, ctx) ← recvFromRecvCtxById s.networkRecvCtx id
    let s := { s with networkRecvCtx := ctx }
    match found with
    | some chunk => return { s with network := .bridge id chunk }
    | none => return { s with network := .read id }
  | .read id =>
    match recvChunk s.channelStream with
    | (.error (.thrown _), stream) => return { s with channelStream := stream, network := .exited }
    | (.error e, _) => .error e
    | (.ok chunk, stream) => do
      let ctx ← putToRecvCtx s.networkRecvCtx chunk
      return { s with networkRecvCtx := ctx, channelStream := stream, network := .recv id }
  | .bridge id chunk => bridgeSocketOnMessage junk s id chunk
  | .fill b data => do
    let r ← s.load b
    if toInt data.length < r.bytes then return { s with network := .take }
    else if memdup b then
      return { s.setCall b (some { r with bytes := toInt data.length, data := some data })
        (s.pcOf b) with network := .complete b data }
    else
      return { s.setCall b (some { r with bytes := toInt data.length, data := none })
        (s.pcOf b) with network := .take }
  | .complete b _ => do
    let r ← s.load b
    -- 2 says that the caller has given up and left the record to this thread
    if r.operationCompleted = 0 then
      return { s.setCall b (some { r with operationCompleted := 1 }) (s.pcOf b) with
        network := .take }
    else
      let s ← s.freeCallResult b
      return { s with network := .take }
  | .exited => return s

/-! ## Steps -/

/-- What happens next; the steps of a call carry its record. -/
inductive CallEvent
  | allocate (expectedBytes : Nat)
  | send (b : Nat)
  | putCallId (b : Nat)
  | wait (b : Nat)
  | use (b : Nat)
  | free (b : Nat)
  | abandon (b : Nat)
  | network
  | connectionFails
  | answer (f : Frame)
  | cancel
  | stop
  | popAll
  deriving DecidableEq, Repr

/-- When an event can happen. Call ids are `int`s; the proxy answers a call that it was
sent and has not answered, with a message that begins with its id and has a header
and what the call expects; the network thread waits for ids and for messages; the
destructor frees the list when all threads are joined. -/
def enabled (s : CallTable) (e : CallEvent) : Bool :=
  !s.finished &&
  match e with
  | .allocate _ => decide (s.nextId < 2 ^ 31)
  | .send b => s.pcOf b = .allocated
  | .putCallId b => s.pcOf b = .sent
  | .wait b => s.pcOf b = .put
  | .use b => s.pcOf b = .returned
  | .free b => (s.pcOf b).saw.isSome && !(s.pcOf b).over
  | .abandon b => s.pcOf b = .allocated || s.pcOf b = .sent
  | .network =>
    match s.network with
    | .take => !s.waitNextCallId || !s.callIdHeader.isEmpty
    | .read _ => !s.channelStream.incoming.isEmpty
    | .exited => false
    | _ => true
  | .connectionFails => match s.network with | .read _ => true | _ => false
  | .answer f =>
    s.requests.any (fun q => q.1 = leadingInt f.payload &&
      decide (max (socketCallResultHeaderSize : Int) q.2 ≤ f.payload.length)) &&
    s.answers.all fun a => a.1 ≠ leadingInt f.payload
  | .cancel | .stop => true
  | .popAll => s.network = .exited && s.calls.all fun c => c.pc.over

/-- What an event does. A wait that is not over stays where it is, and may look at its
record again. -/
def act (junk : Bytes) (memdup : Nat → Bool) (s : CallTable) : CallEvent → Res CallTable
  | .allocate expectedBytes => s.allocateCallResult expectedBytes
  | .send b => do
    let r ← s.load b
    return { s.setCall b (some r) .sent with requests := s.requests ++ [(r.callId, r.bytes)] }
  | .putCallId b => do
    let r ← s.load b
    return { s.setCall b (some r) .put with callIdHeader := s.callIdHeader ++ [toUInt64 r.callId] }
  | .wait b => do
    let r ← s.load b
    -- still waiting, or woken for another record
    if s.waitOperationCompleted && r.operationCompleted = 0 then return s
    else if r.operationCompleted ≠ 1 then
      return s.setCall b (some { r with operationCompleted := 2 }) .cancelled
    else return s.setCall b (some r) .returned
  | .use b => do
    let r ← s.load b
    match r.data with
    -- `b->data->ret` of a record that was never filled
    | none => throw (.fault .nullPointer)
    | some data => return s.setCall b (some r) (.used data)
  | .free b => do
    let s ← s.freeCallResult b
    return s.setCall b none (.done ((s.pcOf b).saw.getD []))
  | .abandon b => return s.setCall b (s.recordOf b) .abandoned
  | .network => s.networkStep junk memdup
  | .connectionFails => return { s with network := .exited }
  | .answer f => return { s with
      channelStream := { s.channelStream with incoming := s.channelStream.incoming ++ f.encode }
      answers := s.answers ++ [(leadingInt f.payload, f.payload)] }
  | .cancel => return { s with waitOperationCompleted := false }
  | .stop => return { s with waitNextCallId := false }
  | .popAll => do
    let s ← s.popAll s.callResultHead
    return { s with callResultHead := [], finished := true }

/-- The context under any interleaving. -/
def machine (junk : Bytes) (memdup : Nat → Bool) : Machine (Res CallTable) CallEvent :=
  checked new enabled (act junk memdup)

/-! ## Who holds a record -/

/-- The record is in the list, or in the hands of the network thread. -/
def owned (s : CallTable) (b : Nat) : Prop := b ∈ s.callResultHead ∨ s.network.holds = some b

/-- How far a call is, and what its record says. Once the call has got its answer, or
the record is freed, nobody else holds it; and a record is freed only when the
call is over. -/
structure CallOk (owned : Prop) (answers : List (Int × Bytes)) (b : Nat) (c : ProxiedCall) :
    Prop where
  callId : ∀ r, c.record = some r → r.callId = b + 1
  cancelled : ∀ r, c.record = some r → (r.operationCompleted = 2 ↔ c.pc = .cancelled)
  values : ∀ r, c.record = some r → r.operationCompleted ≤ 2
  completed : ∀ r, c.record = some r → r.operationCompleted = 1 →
    ¬ owned ∧ ∃ m, r.data = some m ∧ ((b : Int) + 1, m) ∈ answers
  returned : ∀ r, c.record = some r → (c.pc = .returned ∨ ∃ m, c.pc = .used m) →
    r.operationCompleted = 1
  done : ∀ m, c.pc = .done m → c.record = none
  freed : c.record = none → ¬ owned ∧ c.pc.over = true
  saw : ∀ m, c.pc.saw = some m → ((b : Int) + 1, m) ∈ answers

namespace CallOk

variable {owned owned' : Prop} {answers answers' : List (Int × Bytes)} {b : Nat}
  {c : ProxiedCall}

/-- Fewer holders, and more answers. -/
theorem mono (h : CallOk owned answers b c) (howned : owned' → owned)
    (hanswers : ∀ a ∈ answers, a ∈ answers') : CallOk owned' answers' b c where
  callId := h.callId
  cancelled := h.cancelled
  values := h.values
  completed r hr hone := by
    obtain ⟨hno, m, hm, hmem⟩ := h.completed r hr hone
    exact ⟨fun ho => hno (howned ho), m, hm, hanswers _ hmem⟩
  returned := h.returned
  done := h.done
  freed hr := by
    obtain ⟨hno, hover⟩ := h.freed hr
    exact ⟨fun ho => hno (howned ho), hover⟩
  saw m hm := hanswers _ (h.saw m hm)

/-- A call that goes on has its record. -/
theorem alive (h : CallOk owned answers b c) (hover : c.pc.over = false) :
    ∃ r, c.record = some r := by
  cases hr : c.record with
  | some r => exact ⟨r, rfl⟩
  | none =>
    rw [(h.freed hr).2] at hover
    cases hover

/-- So has one that somebody holds. -/
theorem alive_of_owned (h : CallOk owned answers b c) (ho : owned) :
    ∃ r, c.record = some r := by
  cases hr : c.record with
  | some r => exact ⟨r, rfl⟩
  | none => exact absurd ho (h.freed hr).1

/-- A call that has its record is not done. -/
theorem not_done (h : CallOk owned answers b c) {r : PosixSocketCallResult}
    (hr : c.record = some r) (m : Bytes) : c.pc ≠ .done m := by
  intro hdone
  rw [h.done m hdone] at hr
  cases hr

/-- A call and its record. -/
theorem ofRecord {r : PosixSocketCallResult} {pc : CallPc} (hcallId : r.callId = b + 1)
    (hcancelled : r.operationCompleted = 2 ↔ pc = .cancelled) (hvalues : r.operationCompleted ≤ 2)
    (hcompleted : r.operationCompleted = 1 →
      ¬ owned ∧ ∃ m, r.data = some m ∧ ((b : Int) + 1, m) ∈ answers)
    (hreturned : (pc = .returned ∨ ∃ m, pc = .used m) → r.operationCompleted = 1)
    (hdone : ∀ m, pc ≠ .done m) (hsaw : ∀ m, pc.saw = some m → ((b : Int) + 1, m) ∈ answers) :
    CallOk owned answers b ⟨some r, pc⟩ where
  callId := by rintro _ ⟨⟩; exact hcallId
  cancelled := by rintro _ ⟨⟩; exact hcancelled
  values := by rintro _ ⟨⟩; exact hvalues
  completed := by rintro _ ⟨⟩; exact hcompleted
  returned := by rintro _ ⟨⟩; exact hreturned
  done m hm := absurd hm (hdone m)
  freed := by rintro ⟨⟩
  saw := hsaw

/-- A call whose record is freed. -/
theorem ofFreed {pc : CallPc} (hno : ¬ owned) (hover : pc.over = true)
    (hsaw : ∀ m, pc.saw = some m → ((b : Int) + 1, m) ∈ answers) :
    CallOk owned answers b ⟨none, pc⟩ where
  callId := by rintro _ ⟨⟩
  cancelled := by rintro _ ⟨⟩
  values := by rintro _ ⟨⟩
  completed := by rintro _ ⟨⟩
  returned := by rintro _ ⟨⟩
  done _ _ := rfl
  freed _ := ⟨hno, hover⟩
  saw := hsaw

/-- The call moves on before it waits, or is left. -/
theorem setPc (h : CallOk owned answers b c) {r : PosixSocketCallResult}
    (hr : c.record = some r) (hcancelled : c.pc ≠ .cancelled) {pc : CallPc}
    (hpc : pc = .sent ∨ pc = .put ∨ pc = .abandoned) : CallOk owned answers b ⟨some r, pc⟩ := by
  have htwo : r.operationCompleted ≠ 2 := fun h2 => hcancelled ((h.cancelled r hr).mp h2)
  have hvalues := h.values r hr
  have hcompleted := h.completed r hr
  rcases hpc with rfl | rfl | rfl <;>
    exact ofRecord (h.callId r hr) (by simp [htwo]) hvalues hcompleted (by simp) (by simp)
      (by simp [CallPc.saw])

end CallOk

/-- A message the proxy has sent as an answer. -/
def Answered (s : CallTable) (m : Bytes) : Prop :=
  (leadingInt m, m) ∈ s.answers ∧ socketCallResultHeaderSize ≤ m.length ∧ m.length < 2 ^ 63

/-- All that holds of a context. -/
structure Inv (s : CallTable) : Prop where
  nextId : s.nextId = s.calls.length + 1
  calls : ∀ b c, s.calls[b]? = some c → CallOk (s.owned b) s.answers b c
  listed : ∀ b ∈ s.callResultHead, b < s.calls.length
  nodup : s.callResultHead.Nodup
  held : ∀ b, s.network.holds = some b → b < s.calls.length ∧ b ∉ s.callResultHead
  fill : ∀ b m, s.network = .fill b m → ((b : Int) + 1, m) ∈ s.answers
  complete : ∀ b m, s.network = .complete b m → ((b : Int) + 1, m) ∈ s.answers ∧
    ∀ c r, s.calls[b]? = some c → c.record = some r → r.data = some m
  bridge : ∀ id chunk, s.network = .bridge id chunk → ∃ m, chunk = messageChunk m ∧ s.Answered m
  parked : Parked s.Answered s.networkRecvCtx
  incoming : ∃ fs, s.channelStream.incoming = wire fs ∧ ∀ f ∈ fs, s.Answered f.payload
  answerIds : (s.answers.map Prod.fst).Nodup

theorem inv_new : Inv new where
  nextId := rfl
  calls := by simp [new]
  listed := by simp [new]
  nodup := by simp [new]
  held := by simp [new, NetworkPc.holds]
  fill := by simp [new]
  complete := by simp [new]
  bridge := by simp [new]
  parked := ⟨rfl, by simp [new, newRecvCtx]⟩
  incoming := ⟨[], rfl, by simp⟩
  answerIds := by simp [new]

end CallTable

end ZktlsNet
