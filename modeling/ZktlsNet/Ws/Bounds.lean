import ZktlsNet.Lib.Machine
import ZktlsNet.Ws.RecvMessage
import ZktlsNet.Ws.SendBuffer

/-!
# Memory bounds of the receiver

A chunk's memory is as large as its frame's payload, while the id, the length and
the end of the copy come from words *inside* that payload. `RecvMessage` compares
the two nowhere, so what protects the receiver is the peer.

The calls of `RecvMessage` are run half by half, so that a statement about every
reached state is also one about the states inside a call.

- `recvMachine_in_bounds`: as long as every frame that is stored is `Bounded`, no
  access leaves a chunk and the cursor stays inside the chunk it came from.
- `recvMachine_out_of_bounds`: one frame whose length word is too large, or one
  without room for the words, is enough to break that.
-/

namespace ZktlsNet

open NetLib

/-! ## The queue under any ids -/

/-- Chunks that hold what their words promise, and a cursor inside one of them.
Nothing is said about ids: they may repeat and come in any order. -/
structure InBounds (ctx : RecvCtx) (received : List RecvBuffer) : Prop where
  bounded : ∀ b ∈ ctx.list, b.Bounded
  received : ∀ b ∈ ctx.list, b ∈ received
  cursor : ∀ info, ctx.info = some info → info.valid = true →
    ∃ b ∈ ctx.list, info.Describes b ∧ info.offset ≤ info.length

namespace InBounds

theorem start : InBounds newRecvCtx [] where
  bounded := by simp [newRecvCtx]
  received := by simp [newRecvCtx]
  cursor := by simp [newRecvCtx]

/-- Moving the cursor reads two words of the list head and nothing else. -/
theorem armInfo {list : List RecvBuffer} (info : RecvInfo) (hb : ∀ b ∈ list, b.Bounded)
    (hv : info.valid = true → ∃ b ∈ list, info.Describes b ∧ info.offset ≤ info.length) :
    ∃ info', armInfo list info = .ok info' ∧
      (info'.valid = true → ∃ b ∈ list, info'.Describes b ∧ info'.offset ≤ info'.length) := by
  cases hvalid : info.valid with
  | true => exact ⟨info, by simp [ZktlsNet.armInfo, hvalid], hv⟩
  | false =>
    cases list with
    | nil => exact ⟨info, by simp [ZktlsNet.armInfo, hvalid], hv⟩
    | cons b bs =>
      have hwords : 16 ≤ b.data.length := (hb b (List.mem_cons_self ..)).words
      by_cases hid : (info.prevId + 1) % 2 ^ 64 = b.id
      · refine ⟨{ info with
          id := b.id, length := b.length, payload := b.payload, offset := 0, valid := true },
          ?_, fun _ => ⟨b, List.mem_cons_self .., ⟨rfl, rfl, rfl⟩, Nat.zero_le _⟩⟩
        simp only [ZktlsNet.armInfo, hvalid, Bool.false_eq_true, if_false,
          RecvBuffer.readId_ok hwords, RecvBuffer.readLength_ok hwords, ok_bind, hid, if_true,
          pure_eq_ok]
      · refine ⟨info, ?_, hv⟩
        simp only [ZktlsNet.armInfo, hvalid, Bool.false_eq_true, if_false,
          RecvBuffer.readId_ok hwords, ok_bind, hid, pure_eq_ok]

theorem put {ctx : RecvCtx} {received : List RecvBuffer} (h : InBounds ctx received)
    {c : RecvBuffer} (hc : c.Bounded) :
    ∃ ctx', putToRecvCtx ctx c = .ok ctx' ∧ InBounds ctx' (received ++ [c]) := by
  have hmem : ∀ b ∈ insertById c ctx.list, b.Bounded ∧ b ∈ received ++ [c] := by
    intro b hb
    rcases mem_insertById.mp hb with rfl | hb
    · exact ⟨hc, List.mem_append_right _ (List.mem_singleton_self b)⟩
    · exact ⟨h.bounded b hb, List.mem_append_left _ (h.received b hb)⟩
  have hins := insertRecvList_ok hc.words fun b hb => (h.bounded b hb).words
  rw [putToRecvCtx, hins, ok_bind]
  -- the chunk of a valid cursor is still in the list
  have hcur : ∀ info, ctx.info = some info → info.valid = true →
      ∃ b ∈ insertById c ctx.list, info.Describes b ∧ info.offset ≤ info.length := by
    intro info hinfo hv
    obtain ⟨b, hb, hdesc⟩ := h.cursor info hinfo hv
    exact ⟨b, mem_insertById.mpr (.inr hb), hdesc⟩
  cases hk : ctx.isChunk with
  | true => exact ⟨_, rfl, fun b hb => (hmem b hb).1, fun b hb => (hmem b hb).2, hcur⟩
  | false =>
    obtain ⟨info', harm, hcur'⟩ := armInfo (ctx.info.getD RecvInfo.fresh)
      (fun b hb => (hmem b hb).1) fun hv => by
        cases hinfo : ctx.info with
        | none =>
          rw [hinfo] at hv
          cases hv
        | some info =>
          rw [hinfo] at hv
          exact hcur info hinfo hv
    refine ⟨{ ctx with list := insertById c ctx.list, info := some info' }, ?_,
      fun b hb => (hmem b hb).1, fun b hb => (hmem b hb).2, ?_⟩
    · simp only [Bool.false_eq_true, if_false, harm, ok_bind, pure_eq_ok]
      rw [← hk]
    · rintro info heq hv
      cases heq
      exact hcur' hv

/-- Copying stays inside the chunk: `offset + min_len` is at most the length word,
and that is at most the chunk's payload. -/
theorem recv {ctx : RecvCtx} {received : List RecvBuffer} (h : InBounds ctx received)
    {info : RecvInfo} (hinfo : ctx.info = some info) (hv : info.valid = true) (len : Nat) :
    ∃ copied ctx', recvFromRecvCtx ctx len = .ok (copied, ctx') ∧ InBounds ctx' received := by
  obtain ⟨b, hb, hdesc, hoff⟩ := h.cursor info hinfo hv
  have hle : info.length ≤ info.payload.length := by
    rw [hdesc.length_eq, hdesc.payload_eq]
    exact (h.bounded b hb).length_le
  obtain ⟨copied, list, info₁, hcopy, hsub, hcur⟩ : ∃ copied list info₁,
      copyFromChunk ctx.list info len = .ok (copied, list, info₁) ∧ (∀ c ∈ list, c ∈ ctx.list) ∧
      (info₁.valid = true →
        ∃ b ∈ list, info₁.Describes b ∧ info₁.offset ≤ info₁.length) := by
    by_cases hlt : info.offset < info.length
    · by_cases hfit : info.offset + len < info.length
      · exact ⟨_, _, _, copyFromChunk_inside ctx.list hfit hle, fun c hc => hc,
          fun _ => ⟨b, hb, ⟨hdesc.id_eq, hdesc.length_eq, hdesc.payload_eq⟩, Nat.le_of_lt hfit⟩⟩
      · cases hl : ctx.list with
        | nil =>
          rw [hl] at hb
          cases hb
        | cons tmp rest =>
          have hw := (h.bounded tmp (by rw [hl]; exact List.mem_cons_self ..)).words
          exact ⟨_, _, _, copyFromChunk_finish rest hlt (by omega) hle hw,
            fun c hc => List.mem_cons_of_mem _ hc, fun hc => (by cases hc)⟩
    · exact ⟨[], ctx.list, info, by simp [copyFromChunk, hlt], fun c hc => hc,
        fun _ => ⟨b, hb, hdesc, hoff⟩⟩
  obtain ⟨info₂, harm, hcur₂⟩ := armInfo info₁ (fun c hc => h.bounded c (hsub c hc)) hcur
  refine ⟨copied, { ctx with list := list, info := some info₂ }, ?_,
    fun c hc => h.bounded c (hsub c hc), fun c hc => h.received c (hsub c hc), ?_⟩
  · simp only [recvFromRecvCtx, hinfo, hcopy, ok_bind, harm, pure_eq_ok]
  · rintro info' heq hv'
    cases heq
    exact hcur₂ hv'

end InBounds

/-! ## Calls, half by half -/

/-- Where a call of `RecvMessage` is. -/
inductive RecvPc
  | idle
  | drain (len : Nat) (got : Bytes)
  | frame (len : Nat) (got : Bytes)
  deriving DecidableEq, Repr

/-- A receiver; `received` records every chunk it has stored. -/
structure Receiver (σ : Type) where
  ctx : RecvCtx
  stream : σ
  pc : RecvPc
  received : List RecvBuffer
  deriving DecidableEq, Repr

/-- A call is made, or the current one goes on. -/
inductive RecvStep
  | call (len : Nat)
  | next
  deriving DecidableEq, Repr

namespace Receiver

variable {σ : Type} [ChannelStream σ]

def init (stream : σ) : Receiver σ := ⟨newRecvCtx, stream, .idle, []⟩

def enabled (r : Receiver σ) : RecvStep → Bool
  | .call _ => decide (r.pc = .idle)
  | .next => decide (r.pc ≠ .idle)

/-- An exception ends the call, and the receiver may be used again; a fault ends
everything. -/
def act (r : Receiver σ) : RecvStep → Res (Receiver σ)
  | .call len => .ok { r with pc := .drain len [] }
  | .next =>
    match r.pc with
    | .idle => .ok r
    | .drain len got => do
      let (got, returns, ctx) ← drainRecvCtx r.ctx len got
      return { r with ctx := ctx, pc := if returns then .idle else .frame len got }
    | .frame len got =>
      match recvFrame r.stream with
      | (.error (.thrown _), stream) => .ok { r with stream := stream, pc := .idle }
      | (.error e, _) => .error e
      | (.ok chunk, stream) => do
        let ctx ← putToRecvCtx r.ctx chunk
        return ⟨ctx, stream, .drain len got, r.received ++ [chunk]⟩

/-- Every sequence of calls on a stream. -/
def machine (stream : σ) : Machine (Res (Receiver σ)) RecvStep := checked (init stream) enabled act

/-- The loop of `RecvMessage` is a run of its halves. -/
theorem runFrom_recvMessageLoop (start : σ) {len : Nat} {buf : Bytes} {ctx' : RecvCtx}
    {stream' : σ} : ∀ {fuel : Nat} {got : Bytes} {ctx : RecvCtx} {stream : σ}
      (received : List RecvBuffer),
      recvMessageLoop len fuel got ctx stream = (.ok buf, ctx', stream') →
      ∃ n received', (machine start).runFrom (.ok ⟨ctx, stream, .drain len got, received⟩)
        (List.replicate n .next) = some (.ok ⟨ctx', stream', .idle, received'⟩) := by
  intro fuel
  induction fuel with
  | zero =>
    intro got ctx stream received h
    cases h
  | succ fuel ih =>
    intro got ctx stream received h
    rw [recvMessageLoop] at h
    cases hdrain : drainRecvCtx ctx len got with
    | error e =>
      rw [hdrain] at h
      cases h
    | ok drained =>
      obtain ⟨got', returns, ctx₁⟩ := drained
      rw [hdrain] at h
      have hstep : ∀ pc, pc = (if returns then RecvPc.idle else .frame len got') →
          (machine start).step (.ok ⟨ctx, stream, .drain len got, received⟩) .next =
            some (.ok ⟨ctx₁, stream, pc, received⟩) := by
        rintro pc rfl
        simp [machine, checked, enabled, act, hdrain]
      cases returns with
      | true =>
        cases h
        exact ⟨1, received, Machine.runFrom_cons.mpr ⟨_, hstep _ rfl, rfl⟩⟩
      | false =>
        simp only at h
        rcases hframe : recvFrame stream with ⟨e | chunk, stream₁⟩ <;> rw [hframe] at h
        · cases h
        · simp only at h
          cases hput : putToRecvCtx ctx₁ chunk with
          | error e =>
            rw [hput] at h
            cases h
          | ok ctx₂ =>
            rw [hput] at h
            obtain ⟨n, received', hrest⟩ := ih (received ++ [chunk]) h
            have hstep' : (machine start).step (.ok ⟨ctx₁, stream, .frame len got', received⟩)
                .next = some (.ok ⟨ctx₂, stream₁, .drain len got', received ++ [chunk]⟩) := by
              simp [machine, checked, enabled, act, hframe, hput]
            exact ⟨n + 2, received', Machine.runFrom_cons.mpr ⟨_, hstep _ rfl,
              Machine.runFrom_cons.mpr ⟨_, hstep', hrest⟩⟩⟩

/-! ## The peers that are safe -/

/-- The frame at the front of the stream is no danger: its size does not wrap the
allocation, and it is either cut short, so that it is not stored, or a chunk
whose length word its payload bears out. -/
def frontBounded (stream : σ) : Bool :=
  match recvMessageHeader stream with
  | (.error _, _) => true
  | (.ok header, stream) =>
    let body := (ChannelStream.recvEx stream header.dataLen).1
    let chunk : RecvBuffer :=
      ⟨if header.isMasked then unMaskData body header.maskData else body⟩
    decide (recvListSize + (if header.isMasked then header.dataLen else body.length) ≤
        (recvListSize + header.dataLen) % 2 ^ 64) &&
      (decide (body.length % 2 ^ 32 ≠ header.dataLen % 2 ^ 32) ||
        decide (16 ≤ chunk.data.length) && decide (chunk.length ≤ chunk.payload.length))

/-- The steps that read no dangerous frame. -/
def stepBounded (r : Receiver σ) : RecvStep → Bool
  | .call _ => true
  | .next =>
    match r.pc with
    | .frame _ _ => frontBounded r.stream
    | _ => true

/-- A frame that is no danger is refused with an exception or is bounded. -/
theorem recvFrame_of_frontBounded {stream : σ} (h : frontBounded stream = true) :
    (∃ e stream', recvFrame stream = (.error (.thrown e), stream')) ∨
      ∃ chunk stream', recvFrame stream = (.ok chunk, stream') ∧ chunk.Bounded := by
  unfold frontBounded at h
  unfold recvFrame recvPayload
  rcases hh : recvMessageHeader stream with ⟨e | header, s₁⟩
  · obtain ⟨x, rfl⟩ := recvMessageHeader_error hh
    exact .inl ⟨x, s₁, rfl⟩
  · simp only [hh, Bool.and_eq_true, Bool.or_eq_true, decide_eq_true_eq] at h
    obtain ⟨hroom, hcut⟩ := h
    have hnode := (Nat.le_add_right recvListSize _).trans hroom
    simp only [if_true, Nat.not_lt.mpr hroom, and_false, if_false, Nat.not_lt.mpr hnode]
    by_cases hlen : (ChannelStream.recvEx s₁ header.dataLen).1.length % 2 ^ 32 =
        header.dataLen % 2 ^ 32
    · rcases hcut with hcut | ⟨hwords, hle⟩
      · exact absurd hlen hcut
      · exact .inr ⟨⟨if header.isMasked then
            unMaskData (ChannelStream.recvEx s₁ header.dataLen).1 header.maskData
          else (ChannelStream.recvEx s₁ header.dataLen).1⟩,
          (ChannelStream.recvEx s₁ header.dataLen).2,
          by rw [if_neg (not_not_intro hlen)], hwords, hle⟩
    · exact .inl ⟨throwConnectionError (ChannelStream.connectionType
          (ChannelStream.recvEx s₁ header.dataLen).2) "recv websocket payload error",
          (ChannelStream.recvEx s₁ header.dataLen).2, by rw [if_pos hlen]; rfl⟩

theorem inBounds_act {r : Receiver σ} (h : InBounds r.ctx r.received) {e : RecvStep}
    (hok : r.stepBounded e = true) : ∃ r', r.act e = .ok r' ∧ InBounds r'.ctx r'.received := by
  cases e with
  | call len => exact ⟨_, rfl, h⟩
  | next =>
    cases hpc : r.pc with
    | idle => exact ⟨r, by simp only [act, hpc], h⟩
    | drain len got =>
      obtain ⟨got', returns, ctx', hdrain, h'⟩ : ∃ got' returns ctx',
          drainRecvCtx r.ctx len got = .ok (got', returns, ctx') ∧ InBounds ctx' r.received := by
        unfold drainRecvCtx
        cases hinfo : r.ctx.info with
        | none => exact ⟨_, _, _, rfl, h⟩
        | some info =>
          cases hv : info.valid with
          | false => exact ⟨got, false, r.ctx, by simp only [hv, Bool.false_eq_true, if_false], h⟩
          | true =>
            obtain ⟨copied, ctx', hrecv, h'⟩ := h.recv hinfo hv (len - got.length)
            exact ⟨got ++ copied, decide ((got ++ copied).length = len), ctx',
              by simp only [hv, if_true, hrecv, ok_bind, pure_eq_ok], h'⟩
      exact ⟨{ r with ctx := ctx', pc := if returns then .idle else .frame len got' },
        by simp only [act, hpc, hdrain, ok_bind, pure_eq_ok], h'⟩
    | frame len got =>
      simp only [stepBounded, hpc] at hok
      rcases recvFrame_of_frontBounded hok with ⟨x, s', hframe⟩ | ⟨chunk, s', hframe, hb⟩
      · exact ⟨{ r with stream := s', pc := .idle }, by simp only [act, hpc, hframe], h⟩
      · obtain ⟨ctx', hput, h'⟩ := h.put hb
        exact ⟨⟨ctx', s', .drain len got, r.received ++ [chunk]⟩,
          by simp only [act, hpc, hframe, hput, ok_bind, pure_eq_ok], h'⟩

end Receiver

section

variable {σ : Type} [ChannelStream σ]

/-- **In bounds with a bounded peer.** In every run of calls in which no dangerous
frame is read, no access faults, and a valid cursor is inside the chunk of a
received frame: its length with the two words is at most the frame's size, and
its offset at most its length. -/
theorem recvMachine_in_bounds {stream : σ} {es : List RecvStep} {r : Res (Receiver σ)}
    (hrun : ((Receiver.machine stream).restrict (whereOk Receiver.stepBounded)).run es =
      some r) :
    ∃ rec, r = .ok rec ∧ ∀ info, rec.ctx.info = some info → info.valid = true →
      ∃ b ∈ rec.received, info.Describes b ∧ 16 + info.length ≤ b.data.length ∧
        info.offset ≤ info.length := by
  obtain ⟨rec, rfl, hinv⟩ := checked_restrict_run (fun rec => InBounds rec.ctx rec.received)
    InBounds.start (fun rec e hrec _ hok => Receiver.inBounds_act hrec hok) hrun
  refine ⟨rec, rfl, fun info hinfo hv => ?_⟩
  obtain ⟨b, hb, hdesc, hoff⟩ := hinv.cursor info hinfo hv
  have hbound := hinv.bounded b hb
  have hlen := hbound.length_le
  rw [RecvBuffer.payload_length] at hlen
  have hwords := hbound.words
  refine ⟨b, hinv.received b hb, hdesc, ?_, hoff⟩
  rw [hdesc.length_eq]
  omega

end

/-- One byte of a chunk of two, read from a frame that bears its words out. -/
theorem recvMachine_in_bounds_one :
    let stream : SocketStream :=
      .ofSocket (.ofBytes (chunkFrame 1 [5, 6])) .clientToPado
    ∃ rec, ((Receiver.machine stream).restrict (whereOk Receiver.stepBounded)).run
        [.call 1, .next, .next, .next] = some (.ok rec) ∧
      ∀ info, rec.ctx.info = some info → info.valid = true →
        ∃ b ∈ rec.received, 16 + info.length ≤ b.data.length := by
  intro stream
  obtain ⟨r, hr⟩ := Option.isSome_iff_exists.mp (show (((Receiver.machine stream).restrict
    (whereOk Receiver.stepBounded)).run [.call 1, .next, .next, .next]).isSome = true by decide)
  obtain ⟨rec, rfl, h⟩ := recvMachine_in_bounds hr
  refine ⟨rec, hr, fun info hinfo hv => ?_⟩
  obtain ⟨b, hb, -, hlen, -⟩ := h info hinfo hv
  exact ⟨b, hb, hlen⟩

/-- A frame of 20 bytes whose length word is 100: the cursor promises 100 bytes of a
payload of 4, and the next read leaves the chunk. A frame of 3 bytes has no room for
the id, which is read all the same. -/
theorem recvMachine_out_of_bounds :
    let frame (payload : Bytes) : SocketStream :=
      .ofSocket (.ofBytes (0x82 :: lengthAndKey none payload.length ++ payload)) .clientToPado
    let long : Bytes := toLE 8 1 ++ toLE 8 100 ++ [7, 7, 7, 7]
    (∃ rec info b, (Receiver.machine (frame long)).run [.call 10, .next, .next] =
        some (.ok rec) ∧ rec.ctx.info = some info ∧ info.valid = true ∧ rec.received = [b] ∧
      info.Describes b ∧ b.data.length < 16 + info.length) ∧
    (Receiver.machine (frame long)).run [.call 10, .next, .next, .next] =
      some (.error (.fault .outOfBounds)) ∧
    (Receiver.machine (frame [1, 2, 3])).run [.call 10, .next, .next] =
      some (.error (.fault .outOfBounds)) :=
  ⟨⟨_, _, _, rfl, rfl, rfl, rfl, ⟨rfl, rfl, rfl⟩, by decide⟩, by decide, by decide⟩

end ZktlsNet
