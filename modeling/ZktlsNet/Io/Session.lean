import ZktlsNet.Io.Blocking
import ZktlsNet.Ws.BlockingLink

/-!
# Two parties and their connection

A server and a client exchange data over a connection that does not fail. Each is a
`WebSocketIO` with its flush thread, under any calls of its user; the connection
carries over any number of bytes at any time, and a read waits for what it asked for.
A flush thread that waits for a frame goes on when it is notified, or without that.

- `Session`: the parties, with a history of what their receives returned.
- `Numbered`: the payloads of the frames that a sequence of sends has packed.
- `Flow`: one direction of the session, from the calls of the sender to what the
  receiver has got.
- `session_receives`: every receive returns as many bytes as it asked for, and they
  are the next bytes that the other party has handed over.
-/

namespace ZktlsNet

open NetLib

/-! ## The parties -/

inductive Side
  | server
  | client
  deriving DecidableEq, Repr

namespace Side

def other : Side → Side
  | server => client
  | client => server

@[simp] theorem other_other (side : Side) : side.other.other = side := by
  cases side <;> rfl

@[simp] theorem other_ne (side : Side) : side.other ≠ side := by
  cases side <;> simp [other]

theorem eq_other_of_ne {side side' : Side} (h : side' ≠ side) : side' = side.other := by
  cases side <;> cases side' <;> first | rfl | exact absurd rfl h

end Side

/-- A party: the channel object, whether its flush thread has been notified since it began
to wait, and how each call of `RecvMessage` returned that was made for so many bytes. -/
structure Peer where
  io : WebSocketIo BlockingLink
  notified : Bool
  received : List (Nat × Res Bytes)

/-- The calls of `notify_one`: in `PutToFlushCtx` and in `stop_async_flush`. -/
def WebSocketIo.notifies {σ : Type} (io : WebSocketIo σ) : Event → Bool
  | .caller =>
    !io.puts.isEmpty ||
      decide (io.todo.head? = some .stopAsyncFlush) && io.sendCtx.async
  | _ => false

namespace Peer

/-- What an event adds to the history. -/
def returned (peer : Peer) : Event → List (Nat × Res Bytes)
  | .recvReturn fuel =>
    match peer.io.todo with
    | .recvMessage len :: _ =>
      [(len, (recvMessage fuel peer.io.recvCtx len peer.io.channelStream).1)]
    | _ => []
  | _ => []

/-- The flush thread waits and has not been notified. -/
def asleep (peer : Peer) : Bool := decide (peer.io.flushThread = .waiting) && !peer.notified

/-- One step of the object; `RecvMessage` has not returned while one of its reads waits, and
a flush thread that waits goes on when it has been notified. -/
def step (peer : Peer) (e : Event) : Option Peer :=
  if e = .flusher ∧ peer.asleep then none
  else
    match peer.io.step e with
    | none => none
    | some io =>
      if io.channelStream.starved then none
      else some {
        io := io
        -- the thread that begins to wait has not been notified yet
        notified := decide (peer.io.flushThread = .waiting) &&
          (peer.notified || peer.io.notifies e)
        received := peer.received ++ peer.returned e }

/-- The bytes that the calls have returned. -/
def bytes (peer : Peer) : Bytes := peer.received.flatMap fun r => r.2.toOption.getD []

/-- Every call has returned what it was made for. -/
def Served (peer : Peer) : Prop :=
  ∀ len res, (len, res) ∈ peer.received → ∃ buf, res = .ok buf ∧ buf.length = len

/-- The bytes sent, except for those in the send buffer. -/
def handedOver (peer : Peer) : Bytes :=
  peer.io.sends.flatten.take (peer.io.sends.flatten.length - peer.io.sendCtx.buffer.payload.length)

/-- The calls do not wear out the 64-bit numbers. -/
structure Bounded (peer : Peer) : Prop where
  count : peer.io.sends.length < 2 ^ 63
  sizes : ∀ m ∈ peer.io.sends, m.length + headSize < 2 ^ 63

/-- The connection takes the next bytes. -/
def taken (peer : Peer) (n : Nat) : Peer :=
  { peer with io := { peer.io with channelStream := { peer.io.channelStream with
      delivered := min (peer.io.channelStream.delivered + n)
        peer.io.channelStream.sent.length } } }

/-- The connection brings the next bytes of the other party. -/
def given (peer : Peer) (n : Nat) (other : Peer) : Peer :=
  { peer with io := { peer.io with channelStream := { peer.io.channelStream with
      incoming := peer.io.channelStream.incoming ++
        (other.io.channelStream.sent.drop other.io.channelStream.delivered).take n } } }

end Peer

/-- The two parties. -/
abbrev Session := Side → Peer

/-- A step of one of the two, or up to `n` bytes reach one, or its flush thread wakes up
without having been notified. -/
inductive SessionEvent
  | own (side : Side) (e : Event)
  | deliver (side : Side) (n : Nat)
  | wake (side : Side)
  deriving DecidableEq, Repr

namespace Session

/-- Nothing has been written yet. -/
def start : Session := fun side => ⟨.new (side = .server) ⟨⟨[], 0, []⟩, false⟩, false, []⟩

def step (s : Session) : SessionEvent → Option Session
  | .own side e => ((s side).step e).map (Function.update s side)
  | .deliver side n =>
    some (Function.update (Function.update s side.other ((s side.other).taken n)) side
      ((s side).given n (s side.other)))
  | .wake side => some (Function.update s side { s side with notified := true })

def machine : Machine Session SessionEvent := ⟨start, step⟩

end Session

/-! ## The payloads of a sequence of sends -/

/-- `ps` are the payloads of the frames that the calls have packed. -/
structure Numbered (sends ps : List Bytes) : Prop where
  frames : (packAll newSendCtx.buffer sends).1 = chunkFrames 0 ps
  sendId : (packAll newSendCtx.buffer sends).2.sendId = lastId 0 ps.length
  bytes : ps.flatten ++ (packAll newSendCtx.buffer sends).2.payload = sends.flatten
  sizes : (∀ m ∈ sends, m.length + headSize < 2 ^ 63) →
    ∀ p ∈ ps, p ≠ [] ∧ p.length + headSize < 2 ^ 63
  count : ps.length ≤ 2 * sends.length
  bufferSize : (packAll newSendCtx.buffer sends).2.bufferSize = newSendCtx.buffer.bufferSize

theorem numbered_nil : Numbered [] [] where
  frames := rfl
  sendId := rfl
  bytes := rfl
  sizes := by simp
  count := Nat.le_refl _
  bufferSize := rfl

/-- One more call packs further payloads. -/
theorem Numbered.concat {sends ps : List Bytes} (h : Numbered sends ps) (m : Bytes) :
    ∃ qs, Numbered (sends ++ [m]) (ps ++ qs) := by
  obtain ⟨⟨qs, hputs, hid, hbytes, hqs⟩, hsize⟩ :=
    asyncSendMessage_spec (packAll newSendCtx.buffer sends).2 m
  have hcount : qs.length ≤ 2 := by
    have hle := asyncSendMessage_length_le (packAll newSendCtx.buffer sends).2 m
    rwa [hputs, chunkFrames_length] at hle
  refine ⟨qs, ?_, ?_, ?_, ?_, ?_, ?_⟩
  · rw [packAll_concat, h.frames, hputs, h.sendId, chunkFrames_append]
  · rw [packAll_concat, hid, h.sendId, List.length_append, lastId_add]
  · rw [packAll_concat, List.flatten_append, List.append_assoc, hbytes, ← List.append_assoc,
      h.bytes]
    simp
  · intro hsizes p hp
    rcases List.mem_append.mp hp with hp | hp
    · exact h.sizes (fun n hn => hsizes n (List.mem_append_left _ hn)) p hp
    · obtain ⟨hne, hlen⟩ := hqs p hp
      have hm := hsizes m (by simp)
      have hbuffer := h.bufferSize
      have hfixed : newSendCtx.buffer.bufferSize < 2 ^ 63 := by decide
      exact ⟨hne, by omega⟩
  · have := h.count
    rw [List.length_append, List.length_append, List.length_singleton]
    omega
  · rw [packAll_concat, hsize, h.bufferSize]

/-- While the ids do not wrap around they count. -/
theorem lastId_of_lt {id n : Nat} (h : id + n < 2 ^ 64) : lastId id n = id + n := by
  induction n generalizing id with
  | zero => rfl
  | succ n ih => rw [lastId, Nat.mod_eq_of_lt (by omega), ih (by omega), Nat.succ_add_eq_add_succ]

/-! ## What a step leaves alone -/

section

variable {σ : Type} [ChannelStream σ]

/-- What every write keeps, `SendMessage` keeps. -/
theorem sendMessage_keeps {P : σ → Prop} (hP : ∀ s bs, P s → P (ChannelStream.sendEx s bs).2)
    (ctx : SendCtx) (buf : Bytes) {s : σ} (hs : P s) : P (sendMessage ctx buf s).2.2 := by
  have hpacked : P (sendPacked ctx.buffer s).2.2 := by
    have hwrite := hP s ctx.buffer.pack.data hs
    unfold sendPacked
    split
    · exact hs
    · simp only
      split <;> exact hwrite
  unfold sendMessage
  split
  · exact hs
  · generalize sendPacked ctx.buffer s = packed at hpacked ⊢
    obtain ⟨ret, sendBuffer, s₁⟩ := packed
    simp only
    split
    · exact hpacked
    · split
      · exact hpacked
      · split
        · have hwrite := hP s₁
            (((SendBuffer.newFrom buf.length sendBuffer).1.put buf).pack).data hpacked
          split <;> exact hwrite
        · exact hpacked

/-- What every write and every read keeps, a step keeps. -/
theorem Effect.keeps {P : σ → Prop} (hsend : ∀ s bs, P s → P (ChannelStream.sendEx s bs).2)
    (hrecv : ∀ s n, P s → P (ChannelStream.recvEx s n).2) {d d' : Traffic σ} (h : Effect d d')
    (hd : P d.stream) : P d'.stream := by
  cases h with
  | quiet => exact hd
  | read _ fuel ctx len => exact recvMessage_keeps hrecv fuel ctx len hd
  | send ctx data stream => exact sendMessage_keeps hsend ctx data hd
  | queue => exact hd
  | write _ frame => exact hsend _ frame hd

/-- A step makes one more call of `send_data_internal` or none. -/
theorem Effect.sends {d d' : Traffic σ} (h : Effect d d') :
    d'.sends = d.sends ∨ ∃ m, d'.sends = d.sends ++ [m] := by
  cases h with
  | quiet | read | write => exact .inl rfl
  | send _ data | queue _ data => exact .inr ⟨data, rfl⟩

namespace WebSocketIo

theorem sendDataInternal_keeps {P : σ → Prop}
    (hP : ∀ s bs, P s → P (ChannelStream.sendEx s bs).2) (io : WebSocketIo σ) (data : Bytes)
    (h : P io.channelStream) : P (io.sendDataInternal data).channelStream ∧
      (io.sendDataInternal data).recvCtx = io.recvCtx := by
  unfold sendDataInternal
  split
  · exact ⟨h, rfl⟩
  · exact ⟨sendMessage_keeps hP io.sendCtx data h, rfl⟩

/-- Only the end of `RecvMessage` reads: what every write keeps, the other steps keep, and
they leave the receive queue alone. -/
theorem step_keeps {P : σ → Prop} (hP : ∀ s bs, P s → P (ChannelStream.sendEx s bs).2)
    {io io' : WebSocketIo σ} {e : Event} (hstep : io.step e = some io')
    (he : ∀ fuel, e ≠ .recvReturn fuel) (h : P io.channelStream) :
    P io'.channelStream ∧ io'.recvCtx = io.recvCtx := by
  cases e with
  | call c =>
    simp only [step] at hstep
    split at hstep
    · cases hstep
      exact ⟨h, rfl⟩
    · cases hstep
  | recvReturn fuel => exact absurd rfl (he fuel)
  | flusher =>
    simp only [step, flusherStep] at hstep
    split at hstep
    · cases hstep
    · cases hstep
    · cases hstep
      exact ⟨h, rfl⟩
    · cases hstep
      exact ⟨h, rfl⟩
    · cases hstep
      exact ⟨h, rfl⟩
    · split at hstep
      · cases hstep
        exact ⟨h, rfl⟩
      · split at hstep <;> cases hstep <;> exact ⟨h, rfl⟩
    · cases hstep
      exact ⟨h, rfl⟩
    · cases hstep
      exact ⟨hP _ _ h, rfl⟩
  | caller =>
    simp only [step, callerStep] at hstep
    split at hstep
    · unfold opStep at hstep
      split at hstep
      · cases hstep
      · cases hstep
        exact sendDataInternal_keeps hP { io with todo := _ } _ h
      · cases hstep
        exact sendDataInternal_keeps hP { io with todo := _ } _ h
      · split at hstep <;> cases hstep <;> exact ⟨h, rfl⟩
      · cases hstep
        exact ⟨h, rfl⟩
      · cases hstep
      · split at hstep
        · cases hstep
          exact ⟨h, rfl⟩
        · cases hstep
          exact sendDataInternal_keeps hP { io with todo := _ } [] h
      · split at hstep
        · split at hstep
          · cases hstep
          · cases hstep
            exact ⟨h, rfl⟩
        · cases hstep
          exact ⟨h, rfl⟩
      · split at hstep
        · cases hstep
          exact sendDataInternal_keeps hP { io with todo := _, flushThread := .none } [] h
        · cases hstep
    · split at hstep
      · cases hstep
      · cases hstep
        exact ⟨h, rfl⟩

/-- How `RecvMessage` returns. -/
theorem recvReturn_cases {io io' : WebSocketIo σ} {fuel : Nat}
    (hstep : io.step (.recvReturn fuel) = some io') :
    ∃ len todo res recvCtx stream, io.puts = [] ∧ io.todo = .recvMessage len :: todo ∧
      recvMessage fuel io.recvCtx len io.channelStream = (res, recvCtx, stream) ∧
      res ≠ .error .outOfFuel ∧ io' = { io with
        recvCtx := recvCtx
        channelStream := stream
        tmp := (res.toOption.getD []).headD io.tmp
        todo := if res.isOk then todo else [] } := by
  simp only [step, recvReturn] at hstep
  split at hstep
  · rename_i len todo hputs htodo
    obtain ⟨⟨res, recvCtx, stream⟩, hcall⟩ :
        ∃ r, recvMessage fuel io.recvCtx len io.channelStream = r := ⟨_, rfl⟩
    refine ⟨len, todo, res, recvCtx, stream, hputs, htodo, hcall, ?_⟩
    rw [hcall] at hstep
    cases res with
    | ok buf =>
      cases hstep
      exact ⟨by simp, rfl⟩
    | error e =>
      cases e with
      | outOfFuel => cases hstep
      | thrown | fault =>
        cases hstep
        exact ⟨by simp, rfl⟩
  · cases hstep

end WebSocketIo

end

/-! ## One direction -/

namespace Peer

/-- All that holds of a party by itself. -/
abbrev Sound (peer : Peer) : Prop :=
  WebSocketIo.Sound (fun _ : BlockingLink => True) (fun s => s.sent) ⟨⟨[], 0, []⟩, false⟩ peer.io

/-- The connection changes nothing that a party has written. -/
theorem Sound.stream {peer : Peer} (h : peer.Sound) {s : BlockingLink}
    (hs : s.sent = peer.io.channelStream.sent) :
    Peer.Sound { peer with io := { peer.io with channelStream := s } } where
  threads := ⟨h.threads.join_iff, h.threads.join_tail, h.threads.on, h.threads.off, h.threads.gone⟩
  inStep := ⟨trivial, by
    show s.sent ++ _ = _
    rw [hs]
    exact h.inStep.bytes, h.inStep.buffer⟩
  covered := ⟨h.covered.hasSent, h.covered.todo⟩

theorem step_cases {peer peer' : Peer} {e : Event} (h : peer.step e = some peer') :
    peer.io.step e = some peer'.io ∧ peer'.io.channelStream.starved = false ∧
      peer'.received = peer.received ++ peer.returned e := by
  unfold step at h
  split at h
  · cases h
  · split at h
    · cases h
    · rename_i io hio
      split at h
      · cases h
      · rename_i hstarved
        cases h
        exact ⟨hio, by simpa using hstarved, rfl⟩

/-- A step writes further bytes or none, and leaves what was carried over. -/
theorem step_outgoing {peer peer' : Peer} {e : Event} (hsound : peer.Sound)
    (h : peer.step e = some peer') :
    peer.io.channelStream.sent <+: peer'.io.channelStream.sent ∧
      peer'.io.channelStream.delivered = peer.io.channelStream.delivered ∧
      (peer'.io.sends = peer.io.sends ∨ ∃ m, peer'.io.sends = peer.io.sends ++ [m]) := by
  obtain ⟨hstep, -, -⟩ := step_cases h
  obtain ⟨-, heffect⟩ := WebSocketIo.step_effect hsound.threads hstep
  obtain ⟨hsent, hdelivered⟩ := heffect.keeps
    (P := fun s : BlockingLink => peer.io.channelStream.sent <+: s.sent ∧
      s.delivered = peer.io.channelStream.delivered)
    (fun s bs hs => ⟨hs.1.trans (List.prefix_append _ _), hs.2⟩) (fun s n hs => hs)
    ⟨List.prefix_refl _, rfl⟩
  exact ⟨hsent, hdelivered, heffect.sends⟩

theorem Bounded.of_step {peer peer' : Peer} {e : Event} (hsound : peer.Sound)
    (h : peer.step e = some peer') (hbounded : peer'.Bounded) : peer.Bounded := by
  obtain ⟨-, -, hsends | ⟨m, hsends⟩⟩ := step_outgoing hsound h
  · exact ⟨hsends ▸ hbounded.count, hsends ▸ hbounded.sizes⟩
  · obtain ⟨hcount, hsizes⟩ := hbounded
    rw [hsends] at hcount hsizes
    rw [List.length_append] at hcount
    exact ⟨by omega, fun n hn => hsizes n (List.mem_append_left _ hn)⟩

end Peer

/-- One direction of a session: what the connection has brought is the frames that were
read and what has come in since, and the bytes returned are those of the frames read, but
for what is `left` of the last one. -/
structure Flow (sender receiver : Peer) : Prop where
  delivered : sender.io.channelStream.delivered ≤ sender.io.channelStream.sent.length
  starved : receiver.io.channelStream.starved = false
  served : receiver.Served
  stream : ∃ read rest left, Numbered sender.io.sends (read ++ rest) ∧
    (chunkFrames 0 read).flatten ++ receiver.io.channelStream.incoming =
      sender.io.channelStream.sent.take sender.io.channelStream.delivered ∧
    Reading receiver.io.recvCtx (read.length + 1) left ∧ receiver.bytes ++ left = read.flatten

namespace Flow

variable {sender receiver : Peer}

/-- A step of the sender. -/
theorem send {sender' : Peer} {e : Event} (h : Flow sender receiver) (hsound : sender.Sound)
    (hstep : sender.step e = some sender') : Flow sender' receiver := by
  obtain ⟨hsent, hdelivered, hsends⟩ := Peer.step_outgoing hsound hstep
  obtain ⟨hle, hstarved, hserved, read, rest, left, hnum, hlink, hread, hbytes⟩ := h
  have htake : sender'.io.channelStream.sent.take sender'.io.channelStream.delivered =
      sender.io.channelStream.sent.take sender.io.channelStream.delivered := by
    obtain ⟨more, hmore⟩ := hsent
    rw [hdelivered, ← hmore, List.take_append_of_le_length hle]
  have hle' : sender'.io.channelStream.delivered ≤ sender'.io.channelStream.sent.length := by
    have := hsent.length_le
    omega
  rcases hsends with hsends | ⟨m, hsends⟩
  · exact ⟨hle', hstarved, hserved, read, rest, left, hsends ▸ hnum, hlink.trans htake.symm,
      hread, hbytes⟩
  · obtain ⟨more, hnum'⟩ := hnum.concat m
    rw [List.append_assoc] at hnum'
    exact ⟨hle', hstarved, hserved, read, rest ++ more, left, hsends ▸ hnum',
      hlink.trans htake.symm, hread, hbytes⟩

/-- What the receiver has not read is the frames that follow; of these it still lacks what
is in the connection and on its way there. -/
theorem incoming (hsound : sender.Sound) {read rest : List Bytes}
    (hnum : Numbered sender.io.sends (read ++ rest))
    (hlink : (chunkFrames 0 read).flatten ++ receiver.io.channelStream.incoming =
      sender.io.channelStream.sent.take sender.io.channelStream.delivered) :
    receiver.io.channelStream.incoming ++
        (sender.io.channelStream.sent.drop sender.io.channelStream.delivered ++
          sender.io.outbound.flatten) =
      (chunkFrames (lastId 0 read.length) rest).flatten := by
  have hbytes : sender.io.channelStream.sent ++ sender.io.outbound.flatten =
      [] ++ (packAll newSendCtx.buffer sender.io.sends).1.flatten := hsound.inStep.bytes
  rw [List.nil_append, hnum.frames, chunkFrames_append, List.flatten_append] at hbytes
  refine @List.append_cancel_left _ (chunkFrames 0 read).flatten _ _ ?_
  rw [← hbytes, ← List.append_assoc, hlink, ← List.append_assoc, List.take_append_drop]

/-- The end of a call of the receiver. -/
theorem recvReturn {receiver' : Peer} {fuel : Nat} (h : Flow sender receiver)
    (hsound : sender.Sound) (hbounded : sender.Bounded)
    (hstep : receiver.step (.recvReturn fuel) = some receiver') : Flow sender receiver' := by
  obtain ⟨hio, hstarved', hreceived⟩ := Peer.step_cases hstep
  obtain ⟨len, todo, res, ctx', s', -, htodo, hcall, hfuel, hio'⟩ :=
    WebSocketIo.recvReturn_cases hio
  obtain ⟨hle, hstarved, hserved, read, rest, left, hnum, hlink, hread, hbytes⟩ := h
  have hcount := hnum.count
  have hsends := hbounded.count
  rw [List.length_append] at hcount
  have hid : lastId 0 read.length = read.length := by
    rw [lastId_of_lt (by omega), Nat.zero_add]
  have hin := incoming hsound hnum hlink
  rw [hid] at hin
  have hends : CallEnds len fuel read.length [] left rest _
      (recvMessage fuel receiver.io.recvCtx len receiver.io.channelStream) :=
    recvMessageLoop_waits hread hstarved hin
      (fun q hq => hnum.sizes hbounded.sizes q (List.mem_append_right _ hq)) (by omega)
      (Nat.lt_of_lt_of_le Nat.zero_lt_one (Nat.le_max_right _ _))
  have hreturned : receiver.returned (.recvReturn fuel) = [(len, res)] := by
    rw [Peer.returned, htodo]
    simp only [hcall]
  rw [hcall] at hends
  cases hends with
  | waits hwaiting =>
    rw [hio', hwaiting] at hstarved'
    cases hstarved'
  | outOfFuel => exact absurd rfl hfuel
  | returns more rest' hrest henough hread' hin' =>
    subst hrest
    rw [List.length_nil, Nat.zero_add] at henough
    rw [List.length_nil, Nat.sub_zero] at hread'
    rw [List.length_nil, Nat.sub_zero, List.nil_append] at hreturned
    rw [hreturned] at hreceived
    refine ⟨hle, hstarved', ?_, read ++ more, rest', (left ++ more.flatten).drop len, ?_, ?_, ?_,
      ?_⟩
    · -- the call has got as many bytes as it was made for
      intro n res hmem
      rw [hreceived] at hmem
      rcases List.mem_append.mp hmem with hmem | hmem
      · exact hserved n res hmem
      · obtain ⟨rfl, rfl⟩ := Prod.mk.inj (List.mem_singleton.mp hmem)
        refine ⟨_, rfl, ?_⟩
        rw [List.length_take, List.length_append]
        omega
    · rwa [List.append_assoc]
    · -- the frames read since then were among what had come in
      have hid' : lastId 0 (read ++ more).length = read.length + more.length := by
        rw [List.length_append] at hcount ⊢
        rw [lastId_of_lt (by omega), Nat.zero_add]
      have hframes : chunkFrames 0 (read ++ more) =
          chunkFrames 0 read ++ chunkFrames read.length more := by
        rw [chunkFrames_append, hid]
      have hsplit : chunkFrames read.length (more ++ rest') =
          chunkFrames read.length more ++ chunkFrames (read.length + more.length) rest' := by
        rw [chunkFrames_append, lastId_of_lt (by rw [List.length_append] at hcount; omega)]
      rw [hsplit, List.flatten_append, ← hin'] at hin
      have hread : receiver.io.channelStream.incoming =
          (chunkFrames read.length more).flatten ++ s'.incoming :=
        List.append_cancel_right (hin.trans (List.append_assoc ..).symm)
      rw [← hlink, hread, hframes, List.flatten_append, List.append_assoc, hio']
    · rw [hio', List.length_append]
      exact hread'
    · have hpeer : receiver'.bytes = receiver.bytes ++ (left ++ more.flatten).take len := by
        rw [Peer.bytes, hreceived, List.flatMap_append, List.flatMap_singleton]
        rfl
      rw [hpeer, List.append_assoc, List.take_append_drop, ← List.append_assoc, hbytes,
        List.flatten_append]

/-- A step of the receiver. -/
theorem receive {receiver' : Peer} {e : Event} (h : Flow sender receiver)
    (hsound : sender.Sound) (hbounded : sender.Bounded)
    (hstep : receiver.step e = some receiver') : Flow sender receiver' := by
  by_cases he : ∃ fuel, e = .recvReturn fuel
  · obtain ⟨fuel, rfl⟩ := he
    exact h.recvReturn hsound hbounded hstep
  · have he : ∀ fuel, e ≠ .recvReturn fuel := fun fuel heq => he ⟨fuel, heq⟩
    obtain ⟨hio, hstarved', hreceived⟩ := Peer.step_cases hstep
    obtain ⟨hin, hctx⟩ := WebSocketIo.step_keeps
      (P := fun s : BlockingLink => s.incoming = receiver.io.channelStream.incoming)
      (fun s bs hs => hs) hio he rfl
    have hnone : receiver.returned e = [] := by
      cases e with
      | recvReturn fuel => exact absurd rfl (he fuel)
      | _ => rfl
    rw [hnone, List.append_nil] at hreceived
    obtain ⟨hle, -, hserved, read, rest, left, hnum, hlink, hread, hbytes⟩ := h
    refine ⟨hle, hstarved', ?_, read, rest, left, hnum, ?_, ?_, ?_⟩
    · intro n res hmem
      rw [hreceived] at hmem
      exact hserved n res hmem
    · rw [hin]
      exact hlink
    · rw [hctx]
      exact hread
    · rw [Peer.bytes, hreceived]
      exact hbytes

/-- The connection brings the receiver the next bytes. -/
theorem deliver (h : Flow sender receiver) (n : Nat) :
    Flow (sender.taken n) (receiver.given n sender) := by
  obtain ⟨hle, hstarved, hserved, read, rest, left, hnum, hlink, hread, hbytes⟩ := h
  refine ⟨Nat.min_le_right _ _, hstarved, hserved, read, rest, left, hnum, ?_, hread, hbytes⟩
  show _ ++ (receiver.io.channelStream.incoming ++
      (sender.io.channelStream.sent.drop sender.io.channelStream.delivered).take n) =
    sender.io.channelStream.sent.take (min (sender.io.channelStream.delivered + n)
      sender.io.channelStream.sent.length)
  rw [← List.append_assoc, hlink, ← List.take_add, List.take_eq_take_min]

/-- The bytes of the other direction change nothing. -/
theorem other (h : Flow sender receiver) (n : Nat) :
    Flow (sender.given n receiver) (receiver.taken n) :=
  ⟨h.delivered, h.starved, h.served, h.stream⟩

/-- So does a flush thread that wakes up, on either side. -/
theorem woken (h : Flow sender receiver) : Flow sender { receiver with notified := true } :=
  ⟨h.delivered, h.starved, h.served, h.stream⟩

theorem wakes (h : Flow sender receiver) : Flow { sender with notified := true } receiver :=
  ⟨h.delivered, h.starved, h.served, h.stream⟩

end Flow

/-! ## Both directions -/

namespace Session

/-- What holds of a session: each party by itself, and each direction as long as the calls
of its sender do not wear out the numbers. -/
structure Good (s : Session) : Prop where
  sound (side : Side) : (s side).Sound
  flow (side : Side) : (s side.other).Bounded → Flow (s side.other) (s side)

theorem good_start : Good start where
  sound side := WebSocketIo.sound_new _ trivial
  flow side _ := ⟨Nat.le_refl _, rfl, by simp [Peer.Served, start], [], [], [], numbered_nil, rfl,
    Reading.start, rfl⟩

/-- **One step** of the session. -/
theorem Good.step {s s' : Session} {e : SessionEvent} (h : s.Good) (hstep : s.step e = some s') :
    s'.Good := by
  cases e with
  | own side e =>
    obtain ⟨peer', hpeer, rfl⟩ := Option.map_eq_some_iff.mp hstep
    obtain ⟨hio, -, -⟩ := Peer.step_cases hpeer
    constructor
    · intro side'
      by_cases hside : side' = side
      · subst hside
        rw [Function.update_self]
        exact (h.sound side').step BlockingLink.duplexLaws hio
      · rw [Function.update_of_ne hside]
        exact h.sound side'
    · intro side' hbounded
      by_cases hside : side' = side
      · -- the receiver takes the step
        subst hside
        rw [Function.update_of_ne side'.other_ne] at hbounded ⊢
        rw [Function.update_self]
        exact (h.flow side' hbounded).receive (h.sound side'.other) hbounded hpeer
      · -- the sender does
        have hother : side'.other = side := by rw [Side.eq_other_of_ne hside, Side.other_other]
        rw [hother, Function.update_self] at hbounded ⊢
        rw [Function.update_of_ne hside]
        have hflow := h.flow side'
        rw [hother] at hflow
        exact (hflow (.of_step (h.sound side) hpeer hbounded)).send (h.sound side) hpeer
  | deliver side n =>
    cases hstep
    constructor
    · intro side'
      by_cases hside : side' = side
      · subst hside
        rw [Function.update_self]
        exact (h.sound side').stream rfl
      · rw [Function.update_of_ne hside]
        by_cases hother : side' = side.other
        · subst hother
          rw [Function.update_self]
          exact (h.sound side.other).stream rfl
        · rw [Function.update_of_ne hother]
          exact h.sound side'
    · intro side' hbounded
      by_cases hside : side' = side
      · subst hside
        rw [Function.update_of_ne side'.other_ne, Function.update_self] at hbounded ⊢
        rw [Function.update_self]
        exact (h.flow side' ⟨hbounded.count, hbounded.sizes⟩).deliver n
      · have hother : side' = side.other := Side.eq_other_of_ne hside
        subst hother
        rw [Side.other_other, Function.update_self] at hbounded ⊢
        rw [Function.update_of_ne side.other_ne, Function.update_self]
        have hflow := h.flow side.other
        rw [Side.other_other] at hflow
        exact (hflow ⟨hbounded.count, hbounded.sizes⟩).other n
  | wake side =>
    cases hstep
    constructor
    · intro side'
      by_cases hside : side' = side
      · subst hside
        rw [Function.update_self]
        exact h.sound side'
      · rw [Function.update_of_ne hside]
        exact h.sound side'
    · intro side' hbounded
      by_cases hside : side' = side
      · subst hside
        rw [Function.update_of_ne side'.other_ne] at hbounded ⊢
        rw [Function.update_self]
        exact (h.flow side' hbounded).woken
      · have hother : side'.other = side := by rw [Side.eq_other_of_ne hside, Side.other_other]
        rw [hother, Function.update_self] at hbounded ⊢
        rw [Function.update_of_ne hside]
        have hflow := h.flow side'
        rw [hother] at hflow
        exact (hflow ⟨hbounded.count, hbounded.sizes⟩).wakes

theorem good_run {es : List SessionEvent} {s : Session} (hrun : machine.run es = some s) :
    s.Good :=
  Machine.invariant Good good_start (fun _ _ _ h hstep => h.step hstep) hrun

end Session

/-- What has been handed over is what has been packed. -/
theorem Numbered.handedOver {peer : Peer} {ps : List Bytes} (hnum : Numbered peer.io.sends ps)
    (hsound : peer.Sound) : peer.handedOver = ps.flatten := by
  have hbuffer : peer.io.sendCtx.buffer = (packAll newSendCtx.buffer peer.io.sends).2 :=
    hsound.inStep.buffer
  rw [Peer.handedOver, hbuffer, ← hnum.bytes, List.length_append, Nat.add_sub_cancel,
    List.take_left]

/-- A receive returns only what has been handed over. -/
theorem Flow.bytes_prefix {sender receiver : Peer} (h : Flow sender receiver)
    (hsound : sender.Sound) : receiver.bytes <+: sender.handedOver := by
  obtain ⟨-, -, -, read, rest, left, hnum, -, -, hbytes⟩ := h
  refine ⟨left ++ rest.flatten, ?_⟩
  rw [hnum.handedOver hsound, List.flatten_append, ← List.append_assoc, hbytes]

/-- **Every receive returns the next bytes.** In every run of a session, under any calls of
the two users, any interleaving with the flush threads and any delivery of the connection,
and as long as the numbers do not wear out: every call of `RecvMessage` that has returned
has returned as many bytes as it was made for, and all the bytes a party has received are
the first that the other one has handed over. -/
theorem session_receives {es : List SessionEvent} {s : Session}
    (hrun : Session.machine.run es = some s) (side : Side) (hbounded : (s side.other).Bounded) :
    (s side).Served ∧ (s side).bytes <+: (s side.other).handedOver ∧
      (s side.other).handedOver <+: (s side.other).io.sends.flatten := by
  have hgood := Session.good_run hrun
  have hflow := hgood.flow side hbounded
  exact ⟨hflow.served, hflow.bytes_prefix (hgood.sound side.other), List.take_prefix _ _⟩

/-- The client sends a byte, whose frame reaches the server in two parts. -/
theorem session_receives_byte :
    ∃ s, Session.machine.run [.own .client (.call (.sendData [7])), .own .client .caller,
        .own .client (.call .flush), .own .client .caller, .own .server (.call (.recvData 1)),
        .own .server .caller, .deliver .server 5, .deliver .server 100,
        .own .server (.recvReturn 2)] = some s ∧
      (s .server).bytes = [7] ∧ (s .server).bytes <+: (s .client).handedOver := by
  have hrun : (Session.machine.run [.own .client (.call (.sendData [7])), .own .client .caller,
      .own .client (.call .flush), .own .client .caller, .own .server (.call (.recvData 1)),
      .own .server .caller, .deliver .server 5, .deliver .server 100,
      .own .server (.recvReturn 2)]).map (fun s => ((s .server).bytes, (s .client).io.sends)) =
        some ([7], [[7], []]) := by
    decide +kernel
  obtain ⟨s, hs, hstate⟩ := Option.map_eq_some_iff.mp hrun
  obtain ⟨hbytes, hsends⟩ := Prod.mk.inj hstate
  have hbounded : (s .client).Bounded := by
    constructor
    · rw [hsends]
      decide
    · rw [hsends]
      decide
  exact ⟨s, hs, hbytes, (session_receives hs .server hbounded).2.1⟩

end ZktlsNet
