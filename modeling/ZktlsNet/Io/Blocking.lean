import ZktlsNet.Io.Refinement
import ZktlsNet.Ws.Link

/-!
# No receive waits for its own unsent data

The parties of a protocol answer each other, so a receive must not begin while
bytes of the own side still sit in the send buffer. `has_sent` is there for that:
`recv_data_internal` flushes if it is set.

- `Settled`: what the rest of a call may do, given whether the send buffer is
  known to be empty.
- `Covered`: the buffer is empty where `has_sent` is clear, and the rest of the
  running call is settled.
- `HandedOver`: the buffer is empty, and the frames written, in flight and queued
  carry every byte passed to `send_data_internal`, in order.
- `receiving_handedOver`: where `RecvMessage` is entered, all is handed over; so
  two endpoints joined by links never wait for bytes in each other's buffer.
-/

namespace ZktlsNet

open NetLib

/-! ## The rest of a call -/

/-- The pieces clear `has_sent` and enter `RecvMessage` only where the buffer is
known to be empty: at the start if `p` holds, and after a flush or the beginning of
a receive. -/
def Settled (p : Prop) : List Op → Prop
  | [] => True
  | .sendDataInternal data :: ops => Settled (data = []) ops
  | .sendTmp :: ops => Settled False ops
  | .recvDataInternal _ :: ops => Settled True ops
  | .clearHasSent :: ops => p ∧ Settled p ops
  | .recvMessage _ :: ops => p ∧ Settled p ops
  | .startAsyncFlush :: ops => Settled p ops
  | .stopAsyncFlush :: ops => Settled p ops
  | .join :: ops => Settled p ops

theorem Settled.mono {p q : Prop} (hpq : p → q) {ops : List Op} (h : Settled p ops) :
    Settled q ops := by
  induction ops with
  | nil => trivial
  | cons op ops ih =>
    cases op with
    | sendDataInternal | sendTmp | recvDataInternal => exact h
    | clearHasSent | recvMessage => exact ⟨hpq h.1, ih h.2⟩
    | startAsyncFlush | stopAsyncFlush | join => exact ih h

/-- The calls of the object are settled whatever the buffer holds. -/
theorem settled_body (isServer : Bool) (c : Call) (p : Prop) : Settled p (c.body isServer) := by
  cases c with
  | sync =>
    rw [Call.body]
    split <;> trivial
  | _ => trivial

namespace WebSocketIo

section

variable {σ : Type}

/-- The send buffer is empty where `has_sent` is clear, and where the running call
relies on it. -/
structure Covered (io : WebSocketIo σ) : Prop where
  hasSent : io.hasSent = false → io.sendCtx.buffer.payload = []
  todo : Settled (io.sendCtx.buffer.payload = []) io.todo

theorem covered_new (isServer : Bool) (stream : σ) : Covered (new isServer stream) where
  hasSent _ := rfl
  todo := trivial

variable {ok : σ → Prop} {sent : σ → Bytes}

/-! ## Entering a receive -/

/-- The caller is in `RecvMessage`. -/
def receiving (io : WebSocketIo σ) : Bool :=
  match io.puts, io.todo with
  | [], .recvMessage _ :: _ => true
  | _, _ => false

/-- Nothing is left in the send buffer, and the frames of every byte passed to
`send_data_internal` are written, in flight or queued, in order; with the flush
thread off they are all written. -/
structure HandedOver (sent : σ → Bytes) (s₀ : σ) (io : WebSocketIo σ) : Prop where
  buffer : io.sendCtx.buffer.payload = []
  frames : ∃ ps : List Bytes, ps.flatten = io.sends.flatten ∧
    sent io.channelStream ++ (io.flushThread.inFlight ++ io.sendCtx.flushCtx.list).flatten =
      sent s₀ ++ (chunkFrames 0 ps).flatten
  written : io.sendCtx.async = false → io.flushThread.inFlight ++ io.sendCtx.flushCtx.list = []

/-- All that holds of an endpoint over a stream whose writes never fail. -/
structure Sound (ok : σ → Prop) (sent : σ → Bytes) (s₀ : σ) (io : WebSocketIo σ) : Prop where
  threads : Threads io
  inStep : InStep ok sent s₀ io.traffic
  covered : Covered io

theorem sound_new (isServer : Bool) {s₀ : σ} (h₀ : ok s₀) : Sound ok sent s₀ (new isServer s₀) where
  threads := threads_new isServer s₀
  inStep := inStep_new isServer h₀
  covered := covered_new isServer s₀

/-- Where `RecvMessage` is entered, all is handed over. -/
theorem Sound.handedOver {s₀ : σ} {io : WebSocketIo σ} (h : Sound ok sent s₀ io)
    (hrecv : io.receiving = true) : HandedOver sent s₀ io := by
  unfold receiving at hrecv
  split at hrecv
  · rename_i len todo hputs htodo
    have hsettled := h.covered.todo
    rw [htodo] at hsettled
    have hout : io.outbound = io.flushThread.inFlight ++ io.sendCtx.flushCtx.list := by
      rw [outbound, hputs, List.append_nil]
    refine ⟨hsettled.1, ?_, fun hoff => ?_⟩
    · obtain ⟨ps, hputs, hbytes, -, -⟩ := packAll_spec newSendCtx.buffer io.sends
        (show _ ≤ newSendCtx.buffer.bufferSize + io.sends.flatten.length + headSize by omega)
        fun m hm => by
          have := (List.sublist_flatten_of_mem hm).length_le
          omega
      have hbuffer : io.sendCtx.buffer = (packAll newSendCtx.buffer io.sends).2 := h.inStep.buffer
      rw [← hbuffer, hsettled.1, List.append_nil] at hbytes
      refine ⟨ps, hbytes, ?_⟩
      have hframes : sent io.channelStream ++ io.outbound.flatten =
          sent s₀ ++ (packAll newSendCtx.buffer io.sends).1.flatten := h.inStep.bytes
      rw [← hout, hframes, hputs]
      rfl
    · rw [← hout]
      refine h.threads.outbound_nil hoff (.inl ?_)
      by_contra hfl
      have := h.threads.join_iff.mpr ⟨hoff, hfl⟩
      rw [htodo] at this
      cases this
  · cases hrecv

/-! ## Steps -/

variable [ChannelStream σ]

/-- Over a stream whose writes never fail, either way to send leaves the same buffer. -/
theorem buffer_sendDataInternal (laws : DuplexLaws ok sent) (io : WebSocketIo σ) (data : Bytes)
    (hok : ok io.channelStream) :
    (io.sendDataInternal data).sendCtx.buffer = (asyncSendMessage io.sendCtx.buffer data).2 := by
  unfold sendDataInternal
  split
  · rfl
  · obtain ⟨s', hsend, -, -⟩ := sendMessage_spec laws.toSendLaws io.sendCtx data hok
    rw [hsend]

theorem hasSent_sendDataInternal (io : WebSocketIo σ) (data : Bytes) :
    (io.sendDataInternal data).hasSent = (io.hasSent || decide (0 < data.length)) := by
  unfold sendDataInternal
  split <;> rfl

/-- Sending keeps the buffer covered, and a send of no bytes empties it. -/
theorem Covered.sendDataInternal (laws : DuplexLaws ok sent) (io : WebSocketIo σ)
    (hok : ok io.channelStream) (data : Bytes)
    (htodo : Settled (data = []) io.todo) : Covered (io.sendDataInternal data) := by
  have hempty : data = [] → (io.sendDataInternal data).sendCtx.buffer.payload = [] := by
    rintro rfl
    rw [buffer_sendDataInternal laws io [] hok]
    exact payload_asyncSendMessage_nil _
  refine ⟨fun hclear => hempty ?_, ?_⟩
  · rw [hasSent_sendDataInternal, Bool.or_eq_false_iff] at hclear
    have hlen := of_decide_eq_false hclear.2
    exact List.length_eq_zero_iff.mp (by omega)
  · rw [todo_sendDataInternal]
    exact htodo.mono hempty

/-- One piece of a call keeps the buffer covered. -/
theorem Covered.opStep (laws : DuplexLaws ok sent) {io io' : WebSocketIo σ} (h : Covered io)
    (hok : ok io.channelStream) (hstep : io.opStep = some io') : Covered io' := by
  unfold WebSocketIo.opStep at hstep
  have hsettled := h.todo
  cases htodo : io.todo with
  | nil =>
    rw [htodo] at hstep
    cases hstep
  | cons op todo =>
    rw [htodo] at hstep hsettled
    cases op with
    | sendDataInternal data =>
      cases hstep
      exact .sendDataInternal laws { io with todo := todo } hok data hsettled
    | sendTmp =>
      cases hstep
      have hsettled : Settled False todo := hsettled
      exact .sendDataInternal laws { io with todo := todo } hok [io.tmp]
        (hsettled.mono False.elim)
    | recvDataInternal len =>
      simp only at hstep
      have hsettled : Settled True todo := hsettled
      split at hstep
      · -- the flush comes first
        cases hstep
        exact ⟨h.hasSent, ⟨rfl, rfl, hsettled.mono fun _ => rfl⟩⟩
      · rename_i hclear
        cases hstep
        have hempty := h.hasSent (by simpa using hclear)
        exact ⟨h.hasSent, ⟨hempty, hsettled.mono fun _ => hempty⟩⟩
    | clearHasSent =>
      cases hstep
      exact ⟨fun _ => hsettled.1, hsettled.2⟩
    | recvMessage len => cases hstep
    | startAsyncFlush =>
      simp only at hstep
      split at hstep
      · cases hstep
        exact ⟨h.hasSent, hsettled⟩
      · cases hstep
        have hsettled : Settled (io.sendCtx.buffer.payload = []) todo := hsettled
        have hio := Covered.sendDataInternal laws { io with todo := todo } hok []
          (hsettled.mono fun _ => rfl)
        exact ⟨hio.hasSent, hio.todo⟩
    | stopAsyncFlush =>
      simp only at hstep
      split at hstep
      · split at hstep
        · cases hstep
        · cases hstep
          exact ⟨h.hasSent, hsettled⟩
      · cases hstep
        exact ⟨h.hasSent, hsettled⟩
    | join =>
      simp only at hstep
      split at hstep
      · cases hstep
        have hsettled : Settled (io.sendCtx.buffer.payload = []) todo := hsettled
        exact .sendDataInternal laws { io with todo := todo, flushThread := .none } hok []
          (hsettled.mono fun _ => rfl)
      · cases hstep

/-- **One step** keeps the buffer covered. -/
theorem Covered.step (laws : DuplexLaws ok sent) {io io' : WebSocketIo σ} {e : Event}
    (h : Covered io) (hok : ok io.channelStream) (hstep : io.step e = some io') : Covered io' := by
  cases e with
  | call c =>
    simp only [WebSocketIo.step] at hstep
    split at hstep
    · cases hstep
      exact ⟨h.hasSent, settled_body _ _ _⟩
    · cases hstep
  | caller =>
    simp only [WebSocketIo.step, callerStep] at hstep
    split at hstep
    · exact h.opStep laws hok hstep
    · split at hstep
      · cases hstep
      · cases hstep
        exact ⟨h.hasSent, h.todo⟩
  | recvReturn fuel =>
    simp only [WebSocketIo.step, recvReturn] at hstep
    split at hstep
    · rename_i len todo hputs htodo
      have hsettled := h.todo
      rw [htodo] at hsettled
      split at hstep
      · cases hstep
      · cases hstep
        exact ⟨h.hasSent, trivial⟩
      · cases hstep
        exact ⟨h.hasSent, hsettled.2⟩
    · cases hstep
  | flusher =>
    obtain ⟨-, hhas, -, htodo, -, -, -, hbuffer⟩ := flusherStep_caller hstep
    constructor
    · rw [hhas, hbuffer]
      exact h.hasSent
    · rw [htodo, hbuffer]
      exact h.todo

theorem Sound.step (laws : DuplexLaws ok sent) {s₀ : σ} {io io' : WebSocketIo σ} {e : Event}
    (h : Sound ok sent s₀ io) (hstep : io.step e = some io') : Sound ok sent s₀ io' := by
  obtain ⟨hthreads, heffect⟩ := step_effect h.threads hstep
  exact ⟨hthreads, h.inStep.effect laws heffect, h.covered.step laws h.inStep.ok hstep⟩

end

end WebSocketIo

/-! ## Two endpoints -/

/-- Two channel objects joined by a link. -/
structure Endpoints where
  left : WebSocketIo Link
  right : WebSocketIo Link

/-- A step of one of the two, or up to `n` bytes cross the link. -/
inductive LinkEvent
  | left (e : Event)
  | right (e : Event)
  | toRight (n : Nat)
  | toLeft (n : Nat)
  deriving DecidableEq, Repr

namespace Endpoints

/-- On a link that does not fail `RecvMessage` waits until it has its bytes. -/
def returns (io : WebSocketIo Link) : Event → Bool
  | .recvReturn fuel =>
    match io.todo with
    | .recvMessage len :: _ => (recvMessage fuel io.recvCtx len io.channelStream).1.isOk
    | _ => false
  | _ => true

/-- The link takes its next bytes. -/
def taken (n : Nat) (io : WebSocketIo Link) : WebSocketIo Link :=
  { io with channelStream := { io.channelStream with
      delivered := min (io.channelStream.delivered + n) io.channelStream.sent.length } }

/-- The link delivers the next bytes of the other end. -/
def given (n : Nat) (other io : WebSocketIo Link) : WebSocketIo Link :=
  { io with channelStream := { io.channelStream with
      incoming := io.channelStream.incoming ++
        (other.channelStream.sent.drop other.channelStream.delivered).take n } }

/-- One step of the pair. -/
def step (p : Endpoints) : LinkEvent → Option Endpoints
  | .left e => if returns p.left e then (p.left.step e).map fun io => ⟨io, p.right⟩ else none
  | .right e => if returns p.right e then (p.right.step e).map fun io => ⟨p.left, io⟩ else none
  | .toRight n => some ⟨taken n p.left, given n p.left p.right⟩
  | .toLeft n => some ⟨given n p.right p.left, taken n p.right⟩

/-- A server and a client that have written nothing yet. -/
def machine : Machine Endpoints LinkEvent where
  start := ⟨.new true ⟨[], 0, []⟩, .new false ⟨[], 0, []⟩⟩
  step := step

/-- What holds of an endpoint on a link. -/
abbrev Sound (io : WebSocketIo Link) : Prop :=
  WebSocketIo.Sound (fun _ => True) Link.sent ⟨[], 0, []⟩ io

/-- The link changes nothing that an endpoint has written. -/
theorem sound_stream {io : WebSocketIo Link} (h : Sound io) {s : Link}
    (hs : s.sent = io.channelStream.sent) : Sound { io with channelStream := s } where
  threads := ⟨h.threads.join_iff, h.threads.join_tail, h.threads.on, h.threads.off, h.threads.gone⟩
  inStep := ⟨trivial, by
    show s.sent ++ _ = _
    rw [hs]
    exact h.inStep.bytes, h.inStep.buffer⟩
  covered := ⟨h.covered.hasSent, h.covered.todo⟩

theorem sound_step {p p' : Endpoints} {e : LinkEvent} (hl : Sound p.left) (hr : Sound p.right)
    (hstep : p.step e = some p') : Sound p'.left ∧ Sound p'.right := by
  cases e with
  | left e =>
    simp only [step] at hstep
    split at hstep
    · obtain ⟨io, hio, rfl⟩ := Option.map_eq_some_iff.mp hstep
      exact ⟨hl.step Link.duplexLaws hio, hr⟩
    · cases hstep
  | right e =>
    simp only [step] at hstep
    split at hstep
    · obtain ⟨io, hio, rfl⟩ := Option.map_eq_some_iff.mp hstep
      exact ⟨hl, hr.step Link.duplexLaws hio⟩
    · cases hstep
  | toRight n =>
    cases hstep
    exact ⟨sound_stream hl rfl, sound_stream hr rfl⟩
  | toLeft n =>
    cases hstep
    exact ⟨sound_stream hl rfl, sound_stream hr rfl⟩

/-- Every run of the pair. -/
theorem sound_run {es : List LinkEvent} {p : Endpoints} (hrun : machine.run es = some p) :
    Sound p.left ∧ Sound p.right := by
  refine Machine.invariant (fun p => Sound p.left ∧ Sound p.right) ⟨?_, ?_⟩ ?_ hrun
  · exact WebSocketIo.sound_new true trivial
  · exact WebSocketIo.sound_new false trivial
  · rintro p e p' ⟨hl, hr⟩ hstep
    exact sound_step hl hr hstep

end Endpoints

/-- **No receive waits for its own unsent data.** Over a stream whose writes never
fail, in every run, where `RecvMessage` is entered everything that was passed to
`send_data_internal` is handed over. So two endpoints on a link are never both in
`RecvMessage` with bytes left in the send buffer of one of them. -/
theorem receiving_handedOver :
    (∀ {σ : Type} [ChannelStream σ] {ok : σ → Prop} {sent : σ → Bytes}, DuplexLaws ok sent →
      ∀ (isServer : Bool) (s₀ : σ), ok s₀ → ∀ (es : List Event) (io : WebSocketIo σ),
        (WebSocketIo.machine isServer s₀).run es = some io → io.receiving = true →
        WebSocketIo.HandedOver sent s₀ io) ∧
    ∀ (es : List LinkEvent) (p : Endpoints), Endpoints.machine.run es = some p →
      ¬ (p.left.receiving = true ∧ p.right.receiving = true ∧
        (p.left.sendCtx.buffer.payload ≠ [] ∨ p.right.sendCtx.buffer.payload ≠ [])) := by
  constructor
  · intro σ _ ok sent laws isServer s₀ h₀ es io hrun hrecv
    refine WebSocketIo.Sound.handedOver (Machine.invariant (WebSocketIo.Sound ok sent s₀)
      (WebSocketIo.sound_new isServer h₀) ?_ hrun) hrecv
    intro io e io' h hstep
    exact h.step laws hstep
  · rintro es p hrun ⟨hleft, hright, hunsent⟩
    obtain ⟨hl, hr⟩ := Endpoints.sound_run hrun
    rcases hunsent with h | h
    · exact h (hl.handedOver hleft).buffer
    · exact h (hr.handedOver hright).buffer

/-- The client of a pair sends a byte and waits for an answer, while the server waits
for the byte. -/
theorem receiving_handedOver_exchange :
    let calls : List Event :=
      [.call (.sendData [7]), .caller, .call (.recvData 1), .caller, .caller, .caller]
    (∃ io, (WebSocketIo.machine false (Link.mk [] 0 [])).run calls = some io ∧
        WebSocketIo.HandedOver Link.sent ⟨[], 0, []⟩ io) ∧
      ∃ p, Endpoints.machine.run
          (calls.map .right ++ [.left (.call (.recvData 1)), .left .caller]) = some p ∧
        p.left.receiving = true ∧ p.right.receiving = true ∧
        ¬ (p.left.sendCtx.buffer.payload ≠ [] ∨ p.right.sendCtx.buffer.payload ≠ []) := by
  intro calls
  constructor
  · have hrecv : ((WebSocketIo.machine false (Link.mk [] 0 [])).run calls).map
        WebSocketIo.receiving = some true := by decide +kernel
    obtain ⟨io, hrun, hio⟩ := Option.map_eq_some_iff.mp hrecv
    exact ⟨io, hrun, receiving_handedOver.1 Link.duplexLaws false _ trivial calls io hrun hio⟩
  · have hrecv : (Endpoints.machine.run
        (calls.map .right ++ [.left (.call (.recvData 1)), .left .caller])).map
          (fun p => (p.left.receiving, p.right.receiving)) = some (true, true) := by decide +kernel
    obtain ⟨p, hrun, hp⟩ := Option.map_eq_some_iff.mp hrecv
    obtain ⟨hl, hr⟩ := Prod.mk.inj hp
    exact ⟨p, hrun, hl, hr, fun h => receiving_handedOver.2 _ p hrun ⟨hl, hr, h⟩⟩

end ZktlsNet
