import ZktlsNet.Lib.Machine
import ZktlsNet.Ws.Url

/-!
# The threads of a proxy client (`proxy_client.cpp:209-345`,
`proxy_client.cpp:682-716`, `proxy_client.cpp:788-849`)

A `ProxyClientCtx` has an owner, who makes its calls and in the end destroys it,
and up to three threads. The network thread is created when the connection stands,
the other two when a `connect3` has succeeded.

A thread that waits on a condition variable has no step until what it waits for
holds: whatever changes it takes the lock and notifies. The records of the calls
are as far as the threads depend on them: `proxy_client.cpp:83-191` is the subject
of `CallTable`, where the answers find their records by id. A call id stands here
for its record. Writing to the connection succeeds, also after it has failed.

The proxy answers when it likes, or never. The connection may fail, and there may be no
memory for an answer. All this comes from outside, like what the owner does.

- `networkStep`, `senderStep`, `receiverStep`: the threads.
- `ownerStep`: the rest of a call, and the destructor.
- `step`: any of them, and what comes from outside; `ThreadEvent.ofThread` tells them
  apart.
-/

namespace ZktlsNet

open NetLib

/-! ## The state -/

/-- `PosixSocketCallResult`, with what the threads read of its answer. -/
structure CallResult where
  operationCompleted : Nat
  ret : Int
  errno : Int
  deriving DecidableEq, Repr

/-- `SendProxyCtx`. -/
structure SendProxyCtx where
  list : List Nat
  valid : Bool
  deriving DecidableEq, Repr

/-- Where `process_network` is: before its first statement, about to take an id, in
`RecvMessage`, or about to hand over a message. -/
inductive NetworkThread
  | none
  | start
  | take
  | recv (b : Nat)
  | bridge (b : Nat) (ret errno : Int)
  | exited
  deriving DecidableEq, Repr

/-- Where `process_send` is: about to take a send, in `PutCallId`, or waiting. -/
inductive SendThread
  | none
  | get
  | put (b : Nat)
  | wait (b : Nat)
  | exited
  deriving DecidableEq, Repr

/-- Where `process_recv` is: at the top of its loop, in `PutCallId`, or waiting. -/
inductive RecvThread
  | none
  | loop
  | put (b : Nat)
  | wait (b : Nat)
  | exited
  deriving DecidableEq, Repr

/-- Where the owner is: outside, in a call (which may be a `connect3`), or in the
destructor. -/
inductive Owner
  | idle
  | put (b : Nat) (connects : Bool)
  | wait (b : Nat) (connects : Bool)
  | setSend
  | joinSender
  | cancel
  | joinReceiver
  | stopRecv
  | stop
  | joinNetwork
  | close
  | finished
  deriving DecidableEq, Repr

/-- The thread has not been created, or has returned. -/
def NetworkThread.over (t : NetworkThread) : Bool := t = .none || t = .exited

def SendThread.over (t : SendThread) : Bool := t = .none || t = .exited

def RecvThread.over (t : RecvThread) : Bool := t = .none || t = .exited

/-- How far the destructor is; 0 before it begins. -/
def Owner.stage : Owner → Nat
  | .idle | .put _ _ | .wait _ _ => 0
  | .setSend => 1
  | .joinSender => 2
  | .cancel => 3
  | .joinReceiver => 4
  | .stopRecv => 5
  | .stop => 6
  | .joinNetwork => 7
  | .close => 8
  | .finished => 9

/-- `ProxyClientCtx`, as far as its threads wait for each other. `protocol` is that of its
address, and makes `channel_stream` a `WebSocketStream` or an `SSLStream`; `recvAgain`
belongs to the stream, and `errno` to the receive thread. -/
structure ProxyClientCtx where
  records : List CallResult
  callIdHeader : List Nat
  waitNextCallId : Bool
  waitOperationCompleted : Bool
  sendCtx : SendProxyCtx
  protocol : ProtocolType
  recvAgain : Bool
  recvZero : Bool
  errno : Int
  network : NetworkThread
  sender : SendThread
  receiver : RecvThread
  owner : Owner
  deriving DecidableEq, Repr

namespace ProxyClientCtx

/-- A new context. -/
def new : ProxyClientCtx where
  records := []
  callIdHeader := []
  waitNextCallId := true
  waitOperationCompleted := true
  sendCtx := ⟨[], true⟩
  protocol := .ws
  recvAgain := true
  recvZero := false
  errno := 0
  network := .none
  sender := .none
  receiver := .none
  owner := .idle

/-! ## Records -/

/-- `b->operationCompleted`. -/
def operationCompleted (s : ProxyClientCtx) (b : Nat) : Nat :=
  ((s.records[b]?).map CallResult.operationCompleted).getD 0

/-- `b->data->ret` and `b->data->errno_`. -/
def answer (s : ProxyClientCtx) (b : Nat) : Int × Int :=
  ((s.records[b]?).map fun r => (r.ret, r.errno)).getD (0, 0)

/-- `allocate_call_result`. -/
def allocate (s : ProxyClientCtx) : ProxyClientCtx := { s with records := s.records ++ [⟨0, 0, 0⟩] }

/-- The end of `BridgeSocketOnMessage`; the record of a wait that was given up is freed. -/
def complete (s : ProxyClientCtx) (b : Nat) (ret errno : Int) : ProxyClientCtx :=
  { s with records := s.records.modify b fun r =>
      if r.operationCompleted = 0 then ⟨1, ret, errno⟩ else r }

/-- The end of a `wait_for_call_result` that returns false. -/
def giveUp (s : ProxyClientCtx) (b : Nat) : ProxyClientCtx :=
  { s with records := s.records.modify b fun r => { r with operationCompleted := 2 } }

/-- The condition under which `wait_for_call_result` keeps waiting. -/
def blocked (s : ProxyClientCtx) (b : Nat) : Bool :=
  s.waitOperationCompleted && s.operationCompleted b = 0

/-- `PutCallId`. -/
def putCallId (s : ProxyClientCtx) (b : Nat) : ProxyClientCtx :=
  { s with callIdHeader := s.callIdHeader ++ [b] }

/-! ## The threads -/

/-- `process_network`; `RecvMessage` ends from outside. -/
def networkStep (s : ProxyClientCtx) : Option ProxyClientCtx :=
  match s.network with
  | .start => some { s with waitNextCallId := true, network := .take }
  | .take =>
    match s.callIdHeader with
    -- waiting on `callIdCond`, or told to stop
    | [] => if s.waitNextCallId then none else some { s with network := .exited }
    | b :: bs => some { s with callIdHeader := bs, network := .recv b }
  | .bridge b ret errno => some { s.complete b ret errno with network := .take }
  | .none | .recv _ | .exited => none

/-- `process_send`, with `GetFromSendProxyCtx`. -/
def senderStep (s : ProxyClientCtx) : Option ProxyClientCtx :=
  match s.sender with
  | .get =>
    match s.sendCtx.list with
    -- what is still in the list is taken before `valid` counts
    | [] => if s.sendCtx.valid then none else some { s with sender := .exited }
    | b :: bs => some { s with sendCtx := { s.sendCtx with list := bs }, sender := .put b }
  | .put b => some { s.putCallId b with sender := .wait b }
  | .wait b =>
    if s.blocked b then none
    -- the break: what is still in the list stays there
    else if s.operationCompleted b ≠ 1 then some { s.giveUp b with sender := .exited }
    else some { s with sender := .get }
  | .none | .exited => none

/-- `EAGAIN` and `EINTR`. -/
def tryAgain (errno : Int) : Bool := errno = 11 || errno = 4

/-- The rest of a round of `process_recv`, after `do_recv`. -/
def received (s : ProxyClientCtx) (ret : Int) : ProxyClientCtx :=
  if ret ≤ 0 then
    if ret = -1 && tryAgain s.errno then { s with receiver := .loop }
    else { s with receiver := .exited, recvZero := true }
  else { s with receiver := .loop }

/-- `process_recv`, with `do_recv`. -/
def receiverStep (s : ProxyClientCtx) : Option ProxyClientCtx :=
  match s.receiver with
  | .loop =>
    if s.recvZero then some (s.received (-1))
    else some { s.allocate with receiver := .put s.records.length }
  | .put b => some { s.putCallId b with receiver := .wait b }
  | .wait b =>
    if s.blocked b then none
    -- `errno` is what an earlier answer has left there
    else if s.operationCompleted b ≠ 1 then some ((s.giveUp b).received (-1))
    else
      let (ret, errno) := s.answer b
      some ({ s with errno := if ret ≥ 0 then s.errno else errno }.received ret)
  | .none | .exited => none

/-- The rest of a call, and the destructor. A call that returns false is over too. -/
def ownerStep (s : ProxyClientCtx) : Option ProxyClientCtx :=
  match s.owner with
  | .put b connects => some { s.putCallId b with owner := .wait b connects }
  | .wait b connects =>
    if s.blocked b then none
    else if s.operationCompleted b ≠ 1 then some { s.giveUp b with owner := .idle }
    else if connects && (s.answer b).1 = 0 then
      some { s with sender := .get, receiver := .loop, owner := .idle }
    else some { s with owner := .idle }
  | .setSend =>
    -- without a `connect3` there are neither of the two threads
    if s.sender = .none then some { s with owner := .cancel }
    else some { s with sendCtx := { s.sendCtx with valid := false }, owner := .joinSender }
  -- the waits are not cancelled yet
  | .joinSender => if s.sender = .exited then some { s with owner := .cancel } else none
  | .cancel =>
    if s.receiver = .none then some { s with owner := .stopRecv }
    else some { s with waitOperationCompleted := false, owner := .joinReceiver }
  | .joinReceiver => if s.receiver = .exited then some { s with owner := .stopRecv } else none
  | .stopRecv =>
    if s.network = .none then some { s with owner := .close }
    else some { s with recvAgain := false, owner := .stop }
  | .stop => some { s with waitNextCallId := false, owner := .joinNetwork }
  | .joinNetwork => if s.network = .exited then some { s with owner := .close } else none
  | .close => some { s with owner := .finished }
  | .idle | .finished => none

/-! ## Steps -/

/-- What happens next: the owner turns to something new, a thread goes on, `RecvMessage`
ends, or `BridgeSocketOnMessage` cannot copy an answer. -/
inductive ThreadEvent
  | init (protocol : ProtocolType)
  | call (connects : Bool)
  | send
  | destroy
  | owner
  | network
  | sender
  | receiver
  | message (ret errno : Int)
  | connectionFails
  | recvTimeout
  | answerLost
  deriving DecidableEq, Repr

/-- A thread goes on by itself. A receive timeout needs nobody; the other ends of
`RecvMessage` are up to the proxy and the connection. -/
def ThreadEvent.ofThread : ThreadEvent → Bool
  | .owner | .network | .sender | .receiver | .recvTimeout => true
  | _ => false

/-- What an event does; `none` where it cannot happen. The record of a call that
`check_network` refuses stays. A second connection would end the process. A receive
timeout matters once receiving has been stopped; an `SSLStream` has no timeout, and its
`StopRecv` does nothing. -/
def step (s : ProxyClientCtx) : ThreadEvent → Option ProxyClientCtx
  | .init protocol =>
    if s.owner = .idle ∧ s.network = .none then
      some { s with protocol := protocol, network := .start }
    else none
  | .call connects =>
    if s.owner = .idle ∧ (connects = true → s.sender = .none) then
      if s.recvZero then some s.allocate
      else some { s.allocate with owner := .put s.records.length connects }
    else none
  | .send =>
    if s.owner = .idle then
      if s.recvZero then some s.allocate
      else some { s.allocate with
        sendCtx := { s.sendCtx with list := s.sendCtx.list ++ [s.records.length] } }
    else none
  | .destroy => if s.owner = .idle then some { s with owner := .setSend } else none
  | .owner => s.ownerStep
  | .network => s.networkStep
  | .sender => s.senderStep
  | .receiver => s.receiverStep
  | .message ret errno =>
    match s.network with
    | .recv b => some { s with network := .bridge b ret errno }
    | _ => none
  | .connectionFails =>
    match s.network with
    | .recv _ => some { s with network := .exited }
    | _ => none
  | .recvTimeout =>
    match s.network with
    | .recv _ =>
      if s.recvAgain || s.protocol = .wss then none else some { s with network := .exited }
    | _ => none
  | .answerLost =>
    match s.network with
    | .bridge _ _ _ => some { s with network := .take }
    | _ => none

/-- The context under any interleaving. -/
def machine : Machine ProxyClientCtx ThreadEvent := ⟨new, step⟩

/-- The destructor has returned, and no thread runs. -/
def Finished (s : ProxyClientCtx) : Prop :=
  s.owner = .finished ∧ s.network.over ∧ s.sender.over ∧ s.receiver.over

end ProxyClientCtx

end ZktlsNet
