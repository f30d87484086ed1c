import ZktlsNet.Ws.RecvMessage
import ZktlsNet.Ws.SendMessage

/-!
# The message channel

Sending and receiving put together, over any stream that keeps `SendLaws` on the
sender's side and `RecvLaws` on the receiver's.

- `channel_lossless`: between two native endpoints everything handed over before
  the last flush is on the wire, and the received bytes are the sent bytes.
- `recvAll_delivers`: the same for any peer that puts every chunk into a frame of
  its own, masked or not.
- `control_frame_is_data`: the receiver looks at no opcode, so a ping is taken
  for a message.
-/

namespace ZktlsNet

open NetLib

/-! ## A sequence of receives -/

section

variable {σ : Type} [ChannelStream σ] {pending : σ → Bytes}

/-- `RecvMessage` for the lengths one after the other, until one fails. -/
def recvAll (fuel : Nat) : List Nat → RecvCtx → σ → Res (List Bytes) × RecvCtx × σ
  | [], ctx, stream => (.ok [], ctx, stream)
  | len :: lens, ctx, stream =>
    match recvMessage fuel ctx len stream with
    | (.error e, ctx, stream) => (.error e, ctx, stream)
    | (.ok buf, ctx, stream) =>
      match recvAll fuel lens ctx stream with
      | (.error e, ctx, stream) => (.error e, ctx, stream)
      | (.ok bufs, ctx, stream) => (.ok (buf :: bufs), ctx, stream)

theorem recvAll_spec (laws : RecvLaws pending) {tail : Bytes} {fuel n : Nat} (hfuel : n < fuel)
    {lens : List Nat} : ∀ {ctx : RecvCtx} {s : σ} {rest : Bytes},
      Expecting pending tail ctx s n rest → (∀ len ∈ lens, 0 < len) → lens.sum ≤ rest.length →
      ∃ bufs ctx' s', recvAll fuel lens ctx s = (.ok bufs, ctx', s') ∧
        bufs.map List.length = lens ∧ bufs.flatten = rest.take lens.sum := by
  induction lens with
  | nil =>
    intro ctx s rest _ _ _
    exact ⟨[], ctx, s, rfl, rfl, by simp⟩
  | cons len lens ih =>
    intro ctx s rest hexp hpos hsum
    rw [List.sum_cons] at hsum ⊢
    obtain ⟨ctx₁, s₁, hrecv, hexp₁⟩ := recvMessage_spec laws hexp
      (hpos len (List.mem_cons_self ..)) (by omega) hfuel
    obtain ⟨bufs, ctx₂, s₂, hall, hlens, hbytes⟩ := ih hexp₁
      (fun n hn => hpos n (List.mem_cons_of_mem _ hn)) (by rw [List.length_drop]; omega)
    refine ⟨rest.take len :: bufs, ctx₂, s₂, ?_, ?_, ?_⟩
    · rw [recvAll, hrecv]
      simp only [hall]
    · rw [List.map_cons, hlens, List.length_take, Nat.min_eq_left (by omega)]
    · rw [List.flatten_cons, hbytes, List.take_add]

end

/-! ## Native peers -/

/-- A packed chunk is one final, unmasked binary frame. -/
theorem chunkFrame_eq {id : Nat} {p : Bytes}
    (h : (RecvBuffer.build id p.length p).data.length < 2 ^ 63) :
    chunkFrame id p =
      (Frame.mk true .binary none (RecvBuffer.build id p.length p).data h).encode := by
  rw [chunkFrame, Frame.encode, RecvBuffer.data_build_length]
  rfl

/-- Chunks under consecutive ids arrive, each in one frame. -/
theorem chunkFrames_arriving {ps : List Bytes} :
    ∀ (id : Nat), (∀ p ∈ ps, p ≠ [] ∧ p.length + headSize < 2 ^ 63) → id + ps.length < 2 ^ 64 →
      ∃ fs, Arriving (id + 1) ps fs ∧ (chunkFrames id ps).flatten = wire fs ∧
        ∀ f ∈ fs, f.fin = true ∧ f.opcode = .binary ∧ f.maskKey = none := by
  induction ps with
  | nil =>
    intro id _ hid
    exact ⟨[], ⟨⟨rfl, by simp only [List.length_nil] at hid ⊢; omega⟩, by simp⟩, rfl, by simp⟩
  | cons p ps ih =>
    intro id hps hid
    rw [List.length_cons] at hid
    obtain ⟨hp, hlen⟩ := hps p (List.mem_cons_self ..)
    have hmod : (id + 1) % 2 ^ 64 = id + 1 := Nat.mod_eq_of_lt (by omega)
    obtain ⟨fs, ⟨⟨hdata, hids⟩, hne⟩, hwire, hfs⟩ := ih (id + 1)
      (fun q hq => hps q (List.mem_cons_of_mem _ hq)) (by omega)
    have hfits : (RecvBuffer.build (id + 1) p.length p).data.length < 2 ^ 63 := by
      have hsize : headSize = 30 := rfl
      rw [RecvBuffer.data_build_length]
      omega
    refine ⟨⟨true, .binary, none, _, hfits⟩ :: fs, ⟨⟨?_, ?_⟩, ?_⟩, ?_, ?_⟩
    · rw [List.map_cons, hdata, chunkData]
    · rw [List.length_cons]
      omega
    · intro q hq
      exact (hps q hq).1
    · rw [chunkFrames, hmod, List.flatten_cons, hwire, chunkFrame_eq hfits, wire, wire,
        List.map_cons, List.flatten_cons]
    · intro f hf
      rcases List.mem_cons.mp hf with rfl | hf
      · exact ⟨rfl, rfl, rfl⟩
      · exact hfs f hf

/-! ## Both ends -/

section

variable {σ τ : Type} [ChannelStream σ] [ChannelStream τ] {pending : σ → Bytes}
  {ok : τ → Prop} {sent : τ → Bytes}

/-- **The native channel is lossless.** A sequence of sends and flushes on a fresh
context, over a stream that delivers every write, puts chunks numbered 1, 2, 3, …
on the wire, whose payloads are the bytes sent except those still in the send
buffer, and these were all sent behind the last flush. Whatever positive lengths a
fresh receiver then reads, up to the bytes sent before that flush, it gets exactly
the next bytes that were sent. -/
theorem channel_lossless (sendLaws : SendLaws ok sent) (recvLaws : RecvLaws pending)
    (msgs : List Bytes) (hcalls : msgs.length < 2 ^ 63)
    (hsize : ∀ m ∈ msgs, m.length + headSize < 2 ^ 63) {t : τ} (ht : ok t) :
    ∃ ctx t' ps fs, sendAll newSendCtx msgs t = (ctx, t') ∧ sent t' = sent t ++ wire fs ∧
      Arriving 1 ps fs ∧ (∀ f ∈ fs, f.fin = true ∧ f.opcode = .binary ∧ f.maskKey = none) ∧
      ps.flatten ++ ctx.buffer.payload = msgs.flatten ∧ flushed msgs <+: ps.flatten ∧
      ∀ (lens : List Nat) (s : σ) (tail : Bytes) (fuel : Nat), (∀ len ∈ lens, 0 < len) →
        lens.sum ≤ (flushed msgs).length →
        pending s = wire fs ++ tail → ps.length < fuel →
        ∃ bufs ctx' s', recvAll fuel lens newRecvCtx s = (.ok bufs, ctx', s') ∧
          bufs.map List.length = lens ∧ bufs.flatten = msgs.flatten.take lens.sum := by
  obtain ⟨t', hsend, -, hsent⟩ := sendAll_spec sendLaws newSendCtx msgs ht
  obtain ⟨ps, hputs, hbytes, hps, hcount⟩ := packAll_spec newSendCtx.buffer msgs
    (show newSendCtx.buffer.bufferSize ≤ 2 ^ 63 - 1 by decide)
    fun m hm => by have := hsize m hm; omega
  obtain ⟨fs, harr, hwire, hfs⟩ := chunkFrames_arriving newSendCtx.buffer.sendId
    (fun p hp => ⟨(hps p hp).1, by have := (hps p hp).2; omega⟩)
    (show 0 + ps.length < 2 ^ 64 by omega)
  rw [hputs, hwire] at hsent
  have hbytes : ps.flatten ++ (packAll newSendCtx.buffer msgs).2.payload = msgs.flatten := hbytes
  have hflushed : flushed msgs <+: ps.flatten := by
    have hleft := packAll_flushed (show newSendCtx.buffer.payload = [] from rfl) msgs
    have hlen := congrArg List.length hbytes
    rw [List.length_append] at hlen
    exact List.prefix_of_prefix_length_le (flushed_isPrefix msgs) ⟨_, hbytes⟩ (by omega)
  refine ⟨_, t', ps, fs, hsend, hsent, harr, hfs, hbytes, hflushed, ?_⟩
  intro lens s tail fuel hpos hsum hs hfuel
  have hsum' : lens.sum ≤ ps.flatten.length := hsum.trans hflushed.length_le
  obtain ⟨bufs, ctx', s', hall, hlens, hout⟩ :=
    recvAll_spec recvLaws hfuel (expecting_start harr hs) hpos hsum'
  refine ⟨bufs, ctx', s', hall, hlens, ?_⟩
  rw [hout, ← hbytes, List.take_append_of_le_length hsum']

end

/-- Three bytes in two sends and a flush, read as two and one; a fourth byte is not
flushed. -/
theorem channel_lossless_small :
    ∃ (fuel : Nat) (s : SocketStream) (bufs : List Bytes) (ctx : RecvCtx) (s' : SocketStream),
      recvAll fuel [2, 1] newRecvCtx s = (.ok bufs, ctx, s') ∧ bufs.flatten = [1, 2, 3] := by
  obtain ⟨ctx, t, ps, fs, -, -, -, -, -, -, hrecv⟩ :=
    channel_lossless SocketStream.sendLaws SocketStream.recvLaws [[1, 2], [3], [], [4]] (by decide)
      (by decide) (t := .ofSocket ⟨[], false, [], []⟩ .clientToPado) rfl
  obtain ⟨bufs, ctx', s', hall, -, hout⟩ := hrecv [2, 1]
    (.ofSocket (.ofBytes (wire fs)) .clientToPado) [] (ps.length + 1) (by decide)
    (by decide) (by simp) (Nat.lt_succ_self _)
  exact ⟨_, _, bufs, ctx', s', hall, hout⟩

/-! ## Other peers -/

section

variable {σ : Type} [ChannelStream σ] {pending : σ → Bytes}

/-- **Whole messages are delivered.** When every message of the peer is one final
binary frame, masked with any key or not, the receiver gets the payloads in order. -/
theorem recvAll_delivers (laws : RecvLaws pending) (ps : List Bytes) (fs : List Frame)
    (hmsgs : messages fs = some (chunkData 1 ps)) (hps : ∀ p ∈ ps, p ≠ [])
    (hids : ps.length < 2 ^ 64) (hwhole : ∀ f ∈ fs, f.fin = true ∧ f.opcode = .binary)
    {s : σ} {tail : Bytes} (hs : pending s = wire fs ++ tail) (lens : List Nat)
    (hpos : ∀ len ∈ lens, 0 < len) (hsum : lens.sum ≤ ps.flatten.length) (fuel : Nat)
    (hfuel : ps.length < fuel) :
    ∃ bufs ctx s', recvAll fuel lens newRecvCtx s = (.ok bufs, ctx, s') ∧
      bufs.map List.length = lens ∧ bufs.flatten = ps.flatten.take lens.sum := by
  rw [messages_of_whole hwhole, Option.some.injEq] at hmsgs
  exact recvAll_spec laws hfuel (expecting_start ⟨⟨hmsgs, by omega⟩, hps⟩ hs) hpos hsum

end

/-- A masked and an unmasked frame. -/
theorem recvAll_delivers_masked :
    let fs : List Frame :=
      [⟨true, .binary, some ⟨[1, 2, 3, 4], rfl⟩, (RecvBuffer.build 1 2 [5, 6]).data, by decide⟩,
        ⟨true, .binary, none, (RecvBuffer.build 2 1 [7]).data, by decide⟩]
    ∃ (bufs : List Bytes) (ctx : RecvCtx) (s : SocketStream),
      recvAll 3 [3] newRecvCtx (SocketStream.ofSocket (.ofBytes (wire fs)) .clientToPado) =
        (.ok bufs, ctx, s) ∧ bufs.flatten = [5, 6, 7] := by
  intro fs
  obtain ⟨bufs, ctx, s, hall, -, hout⟩ := recvAll_delivers SocketStream.recvLaws
    [[5, 6], [7]] fs (by decide) (by decide) (by decide) (by decide)
    (show (SocketStream.ofSocket (.ofBytes (wire fs)) .clientToPado).pending = wire fs ++ [] by
      simp) [3] (by decide) (by decide) 3 (by decide)
  exact ⟨bufs, ctx, s, hall, hout⟩

/-- A ping before the message, and the message in two fragments: both sequences
conform and carry one message of payload `[1, 2]`. The payload of the ping is
returned as data; the first fragment is taken for the whole message, and reading
it leaves its memory. -/
theorem control_frame_is_data :
    let message := (RecvBuffer.build 1 2 [1, 2]).data
    let ping : List Frame :=
      [⟨true, .ping, none, (RecvBuffer.build 1 2 [8, 9]).data, by decide⟩,
        ⟨true, .binary, none, message, by decide⟩]
    let fragments : List Frame :=
      [⟨false, .binary, none, message.take 17, by decide⟩,
        ⟨true, .continuation, none, message.drop 17, by decide⟩]
    messages ping = some [message] ∧ messages fragments = some [message] ∧
      (recvMessage 2 newRecvCtx 2
        (SocketStream.ofSocket (.ofBytes (wire ping)) .clientToPado)).1 = .ok [8, 9] ∧
      (recvMessage 2 newRecvCtx 2
        (SocketStream.ofSocket (.ofBytes (wire fragments)) .clientToPado)).1 =
          .error (.fault .outOfBounds) := by
  decide

end ZktlsNet
