import ZktlsNet.Io.WebSocketIo

/-!
# Asynchronous sending refines synchronous sending

What the purpose of the flush thread is: the stream must not be able to tell
that there is one. The reference is `SendMessage` for the same calls, one after
the other, by a caller that is alone.

- `InStep`: the bytes written with the frames on their way are what the reference
  writes for the calls so far, and the send buffer is the one it leaves.
- `sendsOf`: the calls of the reference for a run of the object; starting and
  stopping count as flushes where they change the mode.
- `async_refines_sync`: a prefix at every moment, and equal whenever the flush
  thread is off and no call is running.
- `redundant_start_is_no_flush`: a start or a stop that finds its mode on flushes
  nothing.
-/

namespace ZktlsNet

open NetLib

namespace WebSocketIo

/-! ## The data in step with the reference -/

section

variable {σ : Type} {ok : σ → Prop} {sent : σ → Bytes}

/-- The bytes written and the frames on their way are those of the reference. -/
structure InStep (ok : σ → Prop) (sent : σ → Bytes) (s₀ : σ) (d : Traffic σ) : Prop where
  ok : ok d.stream
  bytes : sent d.stream ++ d.outbound.flatten =
    sent s₀ ++ (packAll newSendCtx.buffer d.sends).1.flatten
  buffer : d.buffer = (packAll newSendCtx.buffer d.sends).2

theorem inStep_new (isServer : Bool) {s₀ : σ} (h₀ : ok s₀) :
    InStep ok sent s₀ (new isServer s₀).traffic where
  ok := h₀
  bytes := rfl
  buffer := rfl

variable [ChannelStream σ]

/-- Every effect keeps the data in step. -/
theorem InStep.effect (laws : DuplexLaws ok sent) {s₀ : σ} {d d' : Traffic σ}
    (h : InStep ok sent s₀ d) (heffect : Effect d d') : InStep ok sent s₀ d' := by
  cases heffect with
  | quiet => exact h
  | read _ fuel ctx len =>
    have hkeep : ∀ s n, (ok s ∧ sent s = sent d.stream) →
        ok (ChannelStream.recvEx s n).2 ∧ sent (ChannelStream.recvEx s n).2 = sent d.stream :=
      fun s n ⟨hok, hsent⟩ => ⟨laws.ok_recvEx s n hok, (laws.sent_recvEx s n).trans hsent⟩
    obtain ⟨hok, hsent⟩ := recvMessage_keeps hkeep fuel ctx len ⟨h.ok, rfl⟩
    exact ⟨hok, by rw [hsent]; exact h.bytes, h.buffer⟩
  | send ctx data stream sends packed =>
    obtain ⟨hok, hbytes, hbuffer⟩ := h
    obtain ⟨s', hsend, hok', hsent⟩ := sendMessage_spec laws.toSendLaws ctx data hok
    simp only [List.flatten_nil, List.append_nil] at hbytes hbuffer
    refine ⟨?_, ?_, ?_⟩
    · rw [hsend]
      exact hok'
    · simp only [hsend, packAll_concat, List.flatten_append, List.flatten_nil, List.append_nil,
        ← hbuffer]
      rw [hsent, hbytes, List.append_assoc]
    · simp only [hsend, packAll_concat, ← hbuffer]
  | queue _ data =>
    refine ⟨h.ok, ?_, ?_⟩
    · simp only [packAll_concat, ← h.buffer]
      rw [List.flatten_append, ← List.append_assoc, h.bytes, List.append_assoc,
        List.flatten_append]
    · simp only [packAll_concat, ← h.buffer]
  | write _ frame rest hout =>
    refine ⟨laws.ok_sendEx _ _ h.ok, ?_, h.buffer⟩
    rw [laws.sent_sendEx _ _ h.ok, List.append_assoc, ← List.flatten_cons, ← hout]
    exact h.bytes

/-- **Every run** keeps the positions of the threads and the data in step. -/
theorem inStep_run (laws : DuplexLaws ok sent) {isServer : Bool} {s₀ : σ} (h₀ : ok s₀)
    {es : List Event} {io : WebSocketIo σ} (hrun : (machine isServer s₀).run es = some io) :
    Threads io ∧ InStep ok sent s₀ io.traffic := by
  refine Machine.invariant (fun io => Threads io ∧ InStep ok sent s₀ io.traffic)
    ⟨threads_new isServer s₀, inStep_new isServer h₀⟩ ?_ hrun
  rintro io e io' ⟨hthreads, hdata⟩ hstep
  obtain ⟨hthreads', heffect⟩ := step_effect hthreads hstep
  exact ⟨hthreads', hdata.effect laws heffect⟩

end

end WebSocketIo

/-! ## The calls of the reference -/

/-- The pieces that only send, flush, and switch the mode; `sendTmp` is behind a receive. -/
def Op.sends : Op → Bool
  | .sendTmp | .recvDataInternal _ | .clearHasSent | .recvMessage _ => false
  | _ => true

/-- The events of a user that receives nothing. -/
def Event.sends : Event → Bool
  | .call (.recvData _) | .call .sync | .recvReturn _ => false
  | _ => true

/-- The pieces that the calls of a run are made of. -/
def opsOf (isServer : Bool) : List Event → List Op
  | [] => []
  | .call c :: es => c.body isServer ++ opsOf isServer es
  | _ :: es => opsOf isServer es

/-- The calls of the reference, from a mode on: a flush is a send of no bytes, and
to start or to stop is a flush, except where the mode is already the wanted one. -/
def sendsOf : Bool → List Op → List Bytes
  | _, [] => []
  | async, .sendDataInternal data :: ops => data :: sendsOf async ops
  | true, .startAsyncFlush :: ops => sendsOf true ops
  | false, .startAsyncFlush :: ops => [] :: sendsOf true ops
  | true, .stopAsyncFlush :: ops => [] :: sendsOf false ops
  | false, .stopAsyncFlush :: ops => sendsOf false ops
  | async, .join :: ops => [] :: sendsOf async ops
  | async, _ :: ops => sendsOf async ops

namespace WebSocketIo

section

variable {σ : Type} [ChannelStream σ]

/-- A piece of the running call takes its call of the reference. -/
theorem opStep_sendsOf {io io' : WebSocketIo σ} (hstep : io.opStep = some io')
    (htodo : ∀ op ∈ io.todo, op.sends = true) (ops : List Op) :
    io'.isServer = io.isServer ∧ (∀ op ∈ io'.todo, op.sends = true) ∧
      io'.sends ++ sendsOf io'.sendCtx.async (io'.todo ++ ops) =
        io.sends ++ sendsOf io.sendCtx.async (io.todo ++ ops) := by
  unfold opStep at hstep
  cases heq : io.todo with
  | nil =>
    rw [heq] at hstep
    cases hstep
  | cons op todo =>
    rw [heq] at hstep htodo
    have hrest : ∀ op ∈ todo, op.sends = true := fun op hop => htodo op (List.mem_cons_of_mem _ hop)
    have hop := htodo op (List.mem_cons_self ..)
    cases op with
    | sendTmp | recvDataInternal | clearHasSent | recvMessage => cases hop
    | sendDataInternal data =>
      cases hstep
      refine ⟨by simp, by simpa using hrest, ?_⟩
      simp [sendsOf]
    | startAsyncFlush =>
      simp only at hstep
      cases hasync : io.sendCtx.async with
      | true =>
        simp only [hasync, if_true, Option.some.injEq] at hstep
        subst hstep
        refine ⟨rfl, hrest, ?_⟩
        simp [sendsOf, hasync]
      | false =>
        simp only [hasync, Bool.false_eq_true, if_false, Option.some.injEq] at hstep
        subst hstep
        refine ⟨by simp, by simpa using hrest, ?_⟩
        simp [sendsOf]
    | stopAsyncFlush =>
      simp only at hstep
      cases hasync : io.sendCtx.async with
      | true =>
        simp only [hasync, if_true] at hstep
        split at hstep
        · cases hstep
        · cases hstep
          refine ⟨rfl, ?_, ?_⟩
          · simpa [Op.sends] using hrest
          · simp [sendsOf]
      | false =>
        simp only [hasync, Bool.false_eq_true, if_false, Option.some.injEq] at hstep
        subst hstep
        refine ⟨rfl, hrest, ?_⟩
        simp [sendsOf, hasync]
    | join =>
      simp only at hstep
      split at hstep
      · cases hstep
        refine ⟨by simp, by simpa using hrest, ?_⟩
        simp [sendsOf]
      · cases hstep

/-- A step takes the calls of the reference that it has made. -/
theorem step_sendsOf {io io' : WebSocketIo σ} {e : Event} (hstep : io.step e = some io')
    (he : e.sends = true) (htodo : ∀ op ∈ io.todo, op.sends = true) (es : List Event) :
    io'.isServer = io.isServer ∧ (∀ op ∈ io'.todo, op.sends = true) ∧
      io'.sends ++ sendsOf io'.sendCtx.async (io'.todo ++ opsOf io.isServer es) =
        io.sends ++ sendsOf io.sendCtx.async (io.todo ++ opsOf io.isServer (e :: es)) := by
  cases e with
  | call c =>
    simp only [step] at hstep
    split at hstep
    · rename_i hidle
      cases hstep
      refine ⟨rfl, ?_, ?_⟩
      · cases c with
        | recvData | sync => cases he
        | _ => simp [Call.body, Op.sends]
      · simp only [hidle.2, opsOf, List.nil_append]
    · cases hstep
  | recvReturn fuel => cases he
  | flusher =>
    obtain ⟨hserver, -, -, htodo', -, hsends, hasync, -⟩ := flusherStep_caller hstep
    rw [hserver, htodo', hsends, hasync]
    exact ⟨rfl, htodo, rfl⟩
  | caller =>
    simp only [step, callerStep] at hstep
    split at hstep
    · exact opStep_sendsOf hstep htodo _
    · split at hstep
      · cases hstep
      · cases hstep
        exact ⟨rfl, htodo, rfl⟩

/-- A run that receives nothing has made the first calls of the reference; those
left are in the running call. -/
theorem sends_run {io io' : WebSocketIo σ} {isServer : Bool} {s₀ : σ} {es : List Event}
    (hrun : (machine isServer s₀).runFrom io es = some io') (hes : ∀ e ∈ es, e.sends = true)
    (htodo : ∀ op ∈ io.todo, op.sends = true) :
    io'.sends ++ sendsOf io'.sendCtx.async io'.todo =
      io.sends ++ sendsOf io.sendCtx.async (io.todo ++ opsOf io.isServer es) := by
  induction es generalizing io with
  | nil =>
    cases hrun
    simp [opsOf]
  | cons e es ih =>
    obtain ⟨io₁, hstep, hrest⟩ := Machine.runFrom_cons.mp hrun
    obtain ⟨hserver, htodo₁, hsends⟩ := step_sendsOf hstep (hes e (List.mem_cons_self ..)) htodo es
    rw [← hsends, ← hserver]
    exact ih hrest (fun e he => hes e (List.mem_cons_of_mem _ he)) htodo₁

/-! ## The refinement -/

variable {ok : σ → Prop} {sent : σ → Bytes}

/-- **Asynchronous sending refines synchronous sending.** Over a stream whose writes
never fail, under any interleaving: the bytes written are always a prefix of what
`SendMessage` writes for the same calls by a caller that is alone, and all of it
when no call is running and the flush thread is off. -/
theorem async_refines_sync (laws : DuplexLaws ok sent) {isServer : Bool} {s₀ : σ} (h₀ : ok s₀)
    {es : List Event} {io : WebSocketIo σ} (hrun : (machine isServer s₀).run es = some io)
    (hes : ∀ e ∈ es, e.sends = true) :
    let reference := sendAll newSendCtx (sendsOf false (opsOf isServer es)) s₀
    sent io.channelStream <+: sent reference.2 ∧
      (io.todo = [] → io.sendCtx.async = false → sent io.channelStream = sent reference.2) := by
  intro reference
  obtain ⟨hthreads, hdata⟩ := inStep_run laws h₀ hrun
  have hsends : io.sends ++ sendsOf io.sendCtx.async io.todo = sendsOf false (opsOf isServer es) :=
    sends_run hrun hes (by simp [machine, new])
  obtain ⟨s', hall, -, hsent⟩ := sendAll_spec laws.toSendLaws newSendCtx
    (sendsOf false (opsOf isServer es)) h₀
  have hreference : sent reference.2 = sent s₀ ++
      (packAll newSendCtx.buffer (sendsOf false (opsOf isServer es))).1.flatten := by
    show sent (sendAll newSendCtx (sendsOf false (opsOf isServer es)) s₀).2 = _
    rw [hall, hsent]
  have hbytes : sent io.channelStream ++ io.outbound.flatten =
      sent s₀ ++ (packAll newSendCtx.buffer io.sends).1.flatten := hdata.bytes
  rw [hreference]
  constructor
  · -- frames on their way and calls still to be made only add bytes
    rw [← hsends, packAll_append, List.flatten_append, ← List.append_assoc, ← hbytes,
      List.append_assoc]
    exact List.prefix_append _ _
  · intro htodo hoff
    have hout : io.outbound = [] := hthreads.outbound_idle htodo hoff
    rw [hout, List.flatten_nil, List.append_nil] at hbytes
    rw [htodo, sendsOf, List.append_nil] at hsends
    rw [← hsends, ← hbytes]

end

/-- One send; the flush thread is stopped before it has taken anything, and the frame
is written by the last flush. -/
theorem async_refines_sync_stopped :
    let s₀ : SocketStream := .ofSocket ⟨[], false, [], []⟩ .clientToPado
    let es : List Event := [.call .startAsyncFlush, .caller, .call (.sendData [1]), .caller,
      .call .stopAsyncFlush, .caller, .flusher, .flusher, .caller]
    ∃ io, (machine true s₀).run es = some io ∧
      io.channelStream.socket.reached = (sendAll newSendCtx [[], [1], []] s₀).2.socket.reached := by
  intro s₀ es
  have hsome : ((machine true s₀).run es).isSome = true := by decide +kernel
  obtain ⟨io, hrun⟩ := Option.isSome_iff_exists.mp hsome
  have hend : ((machine true s₀).run es).map (fun io => (io.todo, io.sendCtx.async)) =
      some ([], false) := by decide +kernel
  rw [hrun] at hend
  obtain ⟨htodo, hoff⟩ := Prod.mk.inj (Option.some.inj hend)
  exact ⟨io, hrun, (async_refines_sync SocketStream.duplexLaws rfl hrun (by decide)).2 htodo hoff⟩

/-- To start where the flush thread is on, and to stop where it is off, flushes
nothing: two sends with such a call between them share a frame, where a flush
between them makes it two. -/
theorem redundant_start_is_no_flush :
    let s₀ : SocketStream := .ofSocket ⟨[], false, [], []⟩ .clientToPado
    let written (es : List Event) : Option (List Op × Bool × Bytes) :=
      ((machine true s₀).run es).map fun io =>
        (io.todo, io.sendCtx.async, io.channelStream.socket.reached)
    let reference (sends : List Bytes) : Bytes := (sendAll newSendCtx sends s₀).2.socket.reached
    let started : List Event := [.call .startAsyncFlush, .caller, .call (.sendData [1]), .caller,
      .call .startAsyncFlush, .caller, .call (.sendData [2]), .caller,
      .call .stopAsyncFlush, .caller, .flusher, .flusher, .caller]
    let stopped : List Event := [.call (.sendData [1]), .caller, .call .stopAsyncFlush, .caller,
      .call (.sendData [2]), .caller, .call .flush, .caller]
    written started = some ([], false, reference [[], [1, 2], []]) ∧
      reference [[], [1, 2], []] ≠ reference [[], [1], [], [2], []] ∧
      written stopped = some ([], false, reference [[1, 2], []]) ∧
      reference [[1, 2], []] ≠ reference [[1], [], [2], []] := by
  decide +kernel

end WebSocketIo

end ZktlsNet
