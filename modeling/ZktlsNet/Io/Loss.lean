import ZktlsNet.Io.WebSocketIo

/-!
# Failed and short writes

Over a `SocketStream` a write may fail or take only the front of a buffer. No
layer above looks at the result: `SendEx` returns it, `SendMessage` tests only
for `-1`, `send_data_internal` and `async_flush` drop it, and none of them
throws. So the only way for every packed byte to arrive is that every write is
whole.

- `Written`: the writes made between two states of the stream.
- `sendMessage_written`: `SendMessage` makes one write for each frame it packs.
- `packed_reaches_iff`: in every state of every run, what has reached the peer
  and what is on its way are the packed frames exactly if all writes were whole.
- `short_write_is_lost`: a failed or short write that nobody is told of.
-/

namespace ZktlsNet

open NetLib

/-! ## The log of the writes -/

/-- What has reached the peer is no more than what was written. -/
theorem reached_length_le (log : List (Bytes × Int)) :
    (log.flatMap fun w => w.1.take w.2.toNat).length ≤ (log.map Prod.fst).flatten.length := by
  induction log with
  | nil => simp
  | cons w log ih =>
    rw [List.flatMap_cons, List.map_cons, List.flatten_cons, List.length_append,
      List.length_append, List.length_take]
    omega

/-- It is all of it exactly if every write was whole. -/
theorem reached_eq_iff (log : List (Bytes × Int))
    (hlog : ∀ w ∈ log, w.1 ≠ [] ∧ w.2 ≤ w.1.length) :
    (log.flatMap fun w => w.1.take w.2.toNat) = (log.map Prod.fst).flatten ↔
      ∀ w ∈ log, w.2 = w.1.length := by
  induction log with
  | nil => simp
  | cons w log ih =>
    obtain ⟨hne, hle⟩ := hlog w (List.mem_cons_self ..)
    have hpos := List.length_pos_of_ne_nil hne
    have hrest := reached_length_le log
    have htake : (w.1.take w.2.toNat).length = min w.2.toNat w.1.length := List.length_take
    have ih := ih fun w hw => hlog w (List.mem_cons_of_mem _ hw)
    rw [List.flatMap_cons, List.map_cons, List.flatten_cons]
    constructor
    · intro heq
      have hlen := congrArg List.length heq
      rw [List.length_append, List.length_append, htake] at hlen
      have hfull : w.2 = w.1.length := by omega
      rw [hfull, Int.toNat_natCast, List.take_length] at heq
      intro v hv
      rcases List.mem_cons.mp hv with rfl | hv
      · exact hfull
      · exact ih.mp (List.append_cancel_left heq) v hv
    · intro hfull
      rw [hfull w (List.mem_cons_self ..), Int.toNat_natCast, List.take_length,
        ih.mpr fun v hv => hfull v (List.mem_cons_of_mem _ hv)]

/-- Between two states, one write was made for each of the frames. -/
def Written (frames : List Bytes) (s s' : SocketStream) : Prop :=
  ∃ ws : List (Bytes × Int), s'.socket.log = s.socket.log ++ ws ∧ ws.map Prod.fst = frames ∧
    ∀ w ∈ ws, w.1 ≠ [] ∧ w.2 ≤ w.1.length

namespace Written

theorem refl (s : SocketStream) : Written [] s s := ⟨[], by simp, rfl, by simp⟩

theorem trans {xs ys : List Bytes} {s s' s'' : SocketStream} (h : Written xs s s')
    (h' : Written ys s' s'') : Written (xs ++ ys) s s'' := by
  obtain ⟨ws, hlog, rfl, hws⟩ := h
  obtain ⟨vs, hlog', rfl, hvs⟩ := h'
  refine ⟨ws ++ vs, by rw [hlog', hlog, List.append_assoc], by simp, ?_⟩
  intro w hw
  rcases List.mem_append.mp hw with hw | hw
  · exact hws w hw
  · exact hvs w hw

theorem sendEx (s : SocketStream) {x : Bytes} (hx : x ≠ []) :
    Written [x] s (ChannelStream.sendEx s x).2 := by
  refine ⟨[(x, (s.socket.send x).1)], s.socket.send_log x, rfl, ?_⟩
  simp only [List.mem_singleton, forall_eq]
  refine ⟨hx, ?_⟩
  rcases s.socket.send_fst_nonneg_or x with h | ⟨n, h, hn⟩ <;> rw [h] <;> omega

end Written

/-! ## What is packed is written -/

theorem chunkFrame_ne_nil (id : Nat) (payload : Bytes) : chunkFrame id payload ≠ [] := by
  rw [chunkFrame]
  exact List.cons_ne_nil _ _

theorem SendBuffer.data_pack_ne_nil (b : SendBuffer) : b.pack.data ≠ [] := by
  rw [data_pack]
  exact chunkFrame_ne_nil _ _

theorem chunkFrames_ne_nil (id : Nat) (ps : List Bytes) : ∀ x ∈ chunkFrames id ps, x ≠ [] := by
  induction ps generalizing id with
  | nil => simp [chunkFrames]
  | cons p ps ih =>
    intro x hx
    rcases List.mem_cons.mp hx with rfl | hx
    · exact chunkFrame_ne_nil _ _
    · exact ih _ x hx

theorem sendPacked_written (b : SendBuffer) (s : SocketStream) :
    Written (if b.empty then [] else [b.pack.data]) s (sendPacked b s).2.2 := by
  unfold sendPacked
  split
  · exact .refl s
  · have hwrite := Written.sendEx s b.data_pack_ne_nil
    simp only
    split <;> exact hwrite

/-- **`SendMessage`** makes one write for each frame it packs, however they end. -/
theorem sendMessage_written (ctx : SendCtx) (buf : Bytes) (s : SocketStream) :
    Written (packedBySend ctx buf s) s (sendMessage ctx buf s).2.2 := by
  have hfirst := sendPacked_written ctx.buffer s
  unfold packedBySend sendMessage
  split
  · exact .refl s
  · generalize sendPacked ctx.buffer s = result at hfirst ⊢
    obtain ⟨ret, sendBuffer, s₁⟩ := result
    generalize (if ctx.buffer.empty then [] else [ctx.buffer.pack.data]) = first at hfirst ⊢
    simp only at hfirst ⊢
    split
    · exact hfirst
    · split
      · exact hfirst
      · split
        · have hsecond := hfirst.trans (Written.sendEx s₁ (SendBuffer.data_pack_ne_nil
            ((SendBuffer.newFrom buf.length sendBuffer).1.put buf)))
          split <;> exact hsecond
        · exact hfirst

namespace WebSocketIo

/-- The writes so far and the frames on their way are the packed frames. -/
structure Logged (d : Traffic SocketStream) : Prop where
  packed : d.stream.socket.log.map Prod.fst ++ d.outbound = d.packed
  log : ∀ w ∈ d.stream.socket.log, w.1 ≠ [] ∧ w.2 ≤ w.1.length
  outbound : ∀ x ∈ d.outbound, x ≠ []

/-- Writing the next frames. -/
theorem Logged.write {d : Traffic SocketStream} {frames rest : List Bytes} {s' : SocketStream}
    (h : Logged d) (hwritten : Written frames d.stream s') (hrest : ∀ x ∈ rest, x ≠ [])
    {packed : List Bytes} (hpacked : d.packed ++ packed =
      d.stream.socket.log.map Prod.fst ++ (frames ++ rest)) (buffer : SendBuffer)
    (sends : List Bytes) : Logged ⟨s', rest, buffer, sends, d.packed ++ packed⟩ := by
  obtain ⟨ws, hlog, rfl, hws⟩ := hwritten
  refine ⟨?_, ?_, hrest⟩
  · simp only [hlog, List.map_append, List.append_assoc]
    exact hpacked.symm
  · simp only [hlog]
    intro w hw
    rcases List.mem_append.mp hw with hw | hw
    · exact h.log w hw
    · exact hws w hw

theorem logged_new (isServer : Bool) {s₀ : SocketStream} (h₀ : s₀.socket.log = []) :
    Logged (new isServer s₀).traffic where
  packed := by
    show s₀.socket.log.map Prod.fst ++ [] = []
    rw [h₀]
    rfl
  log := by
    show ∀ w ∈ s₀.socket.log, _
    rw [h₀]
    simp
  outbound := by
    show ∀ x ∈ [], _
    simp

/-- Every effect keeps it. -/
theorem Logged.effect {d d' : Traffic SocketStream} (h : Logged d) (heffect : Effect d d') :
    Logged d' := by
  cases heffect with
  | quiet => exact h
  | read _ fuel ctx len =>
    have hlog := recvMessage_keeps (P := fun s : SocketStream => s.socket.log = d.stream.socket.log)
      (fun s n hs => (s.recvEx_writes n).2.trans hs) fuel ctx len rfl
    refine ⟨?_, ?_, h.outbound⟩
    · simp only [hlog]
      exact h.packed
    · simp only [hlog]
      exact h.log
  | send ctx data stream sends packed =>
    have hpacked := h.packed
    simp only [List.append_nil] at hpacked
    exact h.write (sendMessage_written ctx data stream) (by simp)
      (by simp only [List.append_nil, hpacked]) _ _
  | queue _ data =>
    obtain ⟨⟨ps, hputs, -⟩, -⟩ := asyncSendMessage_spec d.buffer data
    refine ⟨?_, h.log, ?_⟩
    · simp only [← h.packed, List.append_assoc]
    · intro x hx
      rcases List.mem_append.mp hx with hx | hx
      · exact h.outbound x hx
      · rw [hputs] at hx
        exact chunkFrames_ne_nil _ _ x hx
  | write _ frame rest hout =>
    have hne := h.outbound
    rw [hout] at hne
    have hpacked : d.packed ++ [] = d.stream.socket.log.map Prod.fst ++ ([frame] ++ rest) := by
      rw [List.append_nil, ← h.packed, hout]
      rfl
    have hnext := h.write (Written.sendEx d.stream (hne frame (List.mem_cons_self ..)))
      (fun x hx => hne x (List.mem_cons_of_mem _ hx)) hpacked d.buffer d.sends
    rwa [List.append_nil] at hnext

/-- **Nobody makes up for a write that is not whole.** In every state of every run,
whatever the kernel does with the writes: what has reached the peer, followed by
the frames on their way, is every packed frame in order if and only if each write
so far took its whole buffer. When no call is running and the flush thread is off,
nothing is on its way. -/
theorem packed_reaches_iff {isServer : Bool} {s₀ : SocketStream} (h₀ : s₀.socket.log = [])
    {es : List Event} {io : WebSocketIo SocketStream}
    (hrun : (machine isServer s₀).run es = some io) :
    (io.channelStream.socket.reached ++ io.outbound.flatten = io.packed.flatten ↔
      ∀ w ∈ io.channelStream.socket.log, w.2 = w.1.length) ∧
    (io.todo = [] → io.sendCtx.async = false → io.outbound = []) := by
  obtain ⟨hthreads, hlogged⟩ : Threads io ∧ Logged io.traffic := by
    refine Machine.invariant (fun io => Threads io ∧ Logged io.traffic)
      ⟨threads_new isServer s₀, logged_new isServer h₀⟩ ?_ hrun
    rintro io e io' ⟨hthreads, hlogged⟩ hstep
    obtain ⟨hthreads', heffect⟩ := step_effect hthreads hstep
    exact ⟨hthreads', hlogged.effect heffect⟩
  constructor
  · have hpacked : io.channelStream.socket.log.map Prod.fst ++ io.outbound = io.packed :=
      hlogged.packed
    rw [← hpacked, List.flatten_append, List.append_cancel_right_eq, Socket.reached]
    exact reached_eq_iff _ hlogged.log
  · exact hthreads.outbound_idle

/-- A send and a flush with whole writes. -/
theorem packed_reaches_iff_whole :
    let s₀ : SocketStream := .ofSocket ⟨[], false, [.accept 100], []⟩ .clientToPado
    ∃ io, (machine true s₀).run [.call (.sendData [1]), .caller, .call .flush, .caller] = some io ∧
      io.channelStream.socket.reached ++ io.outbound.flatten = io.packed.flatten := by
  intro s₀
  have hsome : ((machine true s₀).run
      [.call (.sendData [1]), .caller, .call .flush, .caller]).isSome = true := by decide +kernel
  obtain ⟨io, hrun⟩ := Option.isSome_iff_exists.mp hsome
  have hlog : ((machine true s₀).run
      [.call (.sendData [1]), .caller, .call .flush, .caller]).map
        (fun io => decide (∀ w ∈ io.channelStream.socket.log, w.2 = w.1.length)) = some true := by
    decide +kernel
  rw [hrun] at hlog
  exact ⟨io, hrun, (packed_reaches_iff rfl hrun).1.mpr (of_decide_eq_true (Option.some.inj hlog))⟩

/-- A short write in synchronous mode, and a failed one in asynchronous mode with
another send after it. All calls have returned, without an exception, and the
packed frames have not reached the peer. -/
theorem short_write_is_lost :
    let ended (outcome : WriteOutcome) (es : List Event) :
        Option (List Op × Bool × Bytes × Bytes) :=
      ((machine true (SocketStream.ofSocket ⟨[], false, [outcome], []⟩ .clientToPado)).run es).map
        fun io => (io.todo, io.sendCtx.async, io.channelStream.socket.reached, io.packed.flatten)
    ended (.accept 3) [.call (.sendData [1]), .caller, .call .flush, .caller] =
        some ([], false, (chunkFrame 1 [1]).take 3, chunkFrame 1 [1]) ∧
      ended .fail [.call .startAsyncFlush, .caller, .call (.sendData [1]), .caller,
          .call .flush, .caller, .caller, .call (.sendData [2]), .caller, .call .stopAsyncFlush,
          .caller, .flusher, .flusher, .flusher, .flusher, .flusher, .flusher, .flusher, .caller] =
        some ([], false, chunkFrame 2 [2], chunkFrame 1 [1] ++ chunkFrame 2 [2]) ∧
      (chunkFrame 1 [1]).take 3 ≠ chunkFrame 1 [1] ∧
      chunkFrame 2 [2] ≠ chunkFrame 1 [1] ++ chunkFrame 2 [2] := by
  decide +kernel

end WebSocketIo

end ZktlsNet
