import ZktlsNet.Ws.RecvMessage

/-!
# Receiving by id (`ws.cpp:591-619`, `ws.cpp:729-768`)

The proxy connection carries messages that answer calls: each begins with the id
of the call it answers, and may come in any order. The second `RecvMessage` takes
a message by its id; those that come before it are parked in a `RecvCtx` whose
list is only searched (`is_chunk`).

The two halves of its loop are separate functions, because they are separate
steps of the network thread: `recvFromRecvCtxById` looks into the list, and
`recvChunk` reads one more message.

- `messageChunk`: a message as it is parked, under the `uint64_t` of its leading
  `int`.
- `recvChunk_spec`: a frame becomes the chunk of its payload.
- `Parked`: the lists such chunks make; `put_parked`, `take_parked`.
-/

namespace ZktlsNet

open NetLib

/-! ## Messages -/

/-- `*(int*)` at the front of a message. -/
def leadingInt (message : Bytes) : Int :=
  let n := ofLE (message.take 4)
  if n < 2 ^ 31 then n else n - 2 ^ 32

/-- The conversion of an `int` to `uint64_t`. -/
def toUInt64 (i : Int) : Nat := (i % 2 ^ 64).toNat

/-- The chunk of a message. -/
def messageChunk (message : Bytes) : RecvBuffer :=
  .build (toUInt64 (leadingInt message)) message.length message

theorem length_messageChunk {message : Bytes} (h : message.length < 2 ^ 64) :
    (messageChunk message).length = message.length := RecvBuffer.length_build _ h _

@[simp] theorem payload_messageChunk (message : Bytes) :
    (messageChunk message).payload = message := RecvBuffer.payload_build _ _ _

theorem words_messageChunk (message : Bytes) : 16 ≤ (messageChunk message).data.length := by
  rw [messageChunk, RecvBuffer.data_build_length]
  omega

/-! ## Reading one more message -/

section

variable {σ : Type} [ChannelStream σ]

/-- The half of `RecvMessage(ctx, id, stream)` that reads a frame into a new chunk: the
id is the leading `int` of the payload, which is behind `RecvList` and `RecvBuffer`. There
is memory for it. -/
def recvChunk (stream : σ) : Res RecvBuffer × σ :=
  match recvPayload (fun _ => true) (recvListSize + 2 * 8) stream with
  | (.error e, stream) => (.error e, stream)
  | (.ok (dataLen, data), stream) =>
    if data.length < 4 then (.error (.fault .outOfBounds), stream)
    else (.ok (.build (toUInt64 (leadingInt data)) dataLen data), stream)

/-- **A whole frame** becomes the chunk of its payload. -/
theorem recvChunk_spec {pending : σ → Bytes} (laws : RecvLaws pending) {s : σ} {f : Frame}
    {rest : Bytes} (hs : pending s = f.encode ++ rest) (hlen : 4 ≤ f.payload.length) :
    ∃ s', recvChunk s = (.ok (messageChunk f.payload), s') ∧ pending s' = rest := by
  obtain ⟨s', hread, hrest⟩ :=
    recvPayload_spec laws (fun _ => true) (show recvListSize + 2 * 8 < 2 ^ 63 by decide) rfl hs
  have hshort : ¬ f.payload.length < 4 := by omega
  refine ⟨s', ?_, hrest⟩
  simp only [recvChunk, hread, hshort, if_false]
  rfl

end

/-! ## The parked messages -/

/-- The list of a context that parks messages, all of which meet `P`. -/
structure Parked (P : Bytes → Prop) (ctx : RecvCtx) : Prop where
  isChunk : ctx.isChunk = true
  list : ∀ b ∈ ctx.list, ∃ message, b = messageChunk message ∧ P message

theorem Parked.words {P : Bytes → Prop} {ctx : RecvCtx} (h : Parked P ctx) :
    ∀ b ∈ ctx.list, 16 ≤ b.data.length := by
  intro b hb
  obtain ⟨message, rfl, -⟩ := h.list b hb
  exact words_messageChunk message

/-- More is true of the messages. -/
theorem Parked.mono {P Q : Bytes → Prop} {ctx : RecvCtx} (h : Parked P ctx)
    (hPQ : ∀ message, P message → Q message) : Parked Q ctx where
  isChunk := h.isChunk
  list b hb := by
    obtain ⟨message, rfl, hm⟩ := h.list b hb
    exact ⟨message, rfl, hPQ message hm⟩

/-- Parking a message. -/
theorem put_parked {P : Bytes → Prop} {ctx : RecvCtx} (h : Parked P ctx) {message : Bytes}
    (hm : P message) :
    ∃ ctx', putToRecvCtx ctx (messageChunk message) = .ok ctx' ∧ Parked P ctx' := by
  refine ⟨{ ctx with list := insertById (messageChunk message) ctx.list }, ?_, h.isChunk, ?_⟩
  · simp [putToRecvCtx, insertRecvList_ok (words_messageChunk message) h.words, h.isChunk]
  · intro b hb
    rcases mem_insertById.mp hb with rfl | hb
    · exact ⟨message, rfl, hm⟩
    · exact h.list b hb

/-- The walk takes out a chunk with the id, and leaves others. -/
theorem takeFromRecvList_ok (id : Nat) {list : List RecvBuffer}
    (hlist : ∀ b ∈ list, 16 ≤ b.data.length) :
    ∃ found rest, takeFromRecvList id list = .ok (found, rest) ∧
      (∀ b, found = some b → b ∈ list ∧ b.id = id) ∧ ∀ b ∈ rest, b ∈ list := by
  induction list with
  | nil => exact ⟨none, [], rfl, by simp, by simp⟩
  | cons a as ih =>
    have ha := hlist a (List.mem_cons_self ..)
    obtain ⟨found, rest, htake, hfound, hrest⟩ :=
      ih fun b hb => hlist b (List.mem_cons_of_mem _ hb)
    by_cases heq : a.id = id
    · refine ⟨some a, as, by simp [takeFromRecvList, RecvBuffer.readId_ok ha, heq], ?_, ?_⟩
      · rintro b ⟨⟩
        exact ⟨List.mem_cons_self .., heq⟩
      · exact fun b hb => List.mem_cons_of_mem _ hb
    · by_cases hlt : id < a.id
      · exact ⟨none, a :: as, by simp [takeFromRecvList, RecvBuffer.readId_ok ha, heq, hlt],
          by simp, fun b hb => hb⟩
      · refine ⟨found, a :: rest,
          by simp [takeFromRecvList, RecvBuffer.readId_ok ha, heq, hlt, htake], ?_, ?_⟩
        · intro b hb
          obtain ⟨hmem, hid⟩ := hfound b hb
          exact ⟨List.mem_cons_of_mem _ hmem, hid⟩
        · intro b hb
          rcases List.mem_cons.mp hb with rfl | hb
          · exact List.mem_cons_self ..
          · exact List.mem_cons_of_mem _ (hrest b hb)

/-- Taking a message by id. -/
theorem take_parked {P : Bytes → Prop} {ctx : RecvCtx} (h : Parked P ctx) (id : Nat) :
    ∃ found ctx', recvFromRecvCtxById ctx id = .ok (found, ctx') ∧ Parked P ctx' ∧
      ∀ b, found = some b → ∃ message, b = messageChunk message ∧ P message := by
  obtain ⟨found, rest, htake, hfound, hrest⟩ := takeFromRecvList_ok id h.words
  refine ⟨found, { ctx with list := rest }, by simp [recvFromRecvCtxById, htake],
    ⟨h.isChunk, fun b hb => h.list b (hrest b hb)⟩, fun b hb => ?_⟩
  exact h.list b (hfound b hb).1

end ZktlsNet
