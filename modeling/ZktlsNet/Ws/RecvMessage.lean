import ZktlsNet.Ws.Header
import ZktlsNet.Ws.Reassembly

/-!
# Receiving (`ws.cpp:729-827`, native build)

`RecvMessage` alternates two halves: it copies what the receive queue can give
(`drainRecvCtx`), and it reads one more frame into the queue (`recvFrame`).

The loop stops when the caller's length is reached or the stream ends, so on an
endless stream of useless frames it need not stop; the model's `fuel` bounds the
number of frames.

- `recvPayload`: reading one frame, the same in both `RecvMessage` functions, for
  any `malloc`; `recvPayload_spec`: a whole frame for which there is memory yields
  its payload, the mask removed. The rest of this file is about calls for which
  there is memory.
- `Reading`: the queue between in-order frames: what is left of the chunk being
  read, and the id that comes next.
- `recvMessageLoop_spec`: one call on a stream of chunks in order returns the
  next bytes and leaves the rest to be read.
-/

namespace ZktlsNet

open NetLib

/-! ## The two halves of the loop -/

/-- `sizeof(RecvList)`. -/
def recvListSize : Nat := 8

section

variable {σ : Type} [ChannelStream σ]

/-- Both functions read a frame into memory of their own, behind `head` bytes for
the list node: the announced length and the payload. The allocation is
`head + data_len` bytes in 64-bit arithmetic; `malloc` tells which sizes it serves,
and its result is used as it is, also where it is null. The completeness test
compares the low 32 bits of the two lengths. Of memory that was not filled only the
received bytes are kept: the others belong to no frame, and reading them is a
fault. -/
def recvPayload (malloc : Nat → Bool) (head : Nat) (stream : σ) : Res (Nat × Bytes) × σ :=
  match recvMessageHeader stream with
  | (.error e, stream) => (.error e, stream)
  | (.ok header, stream) =>
    let allocated := (head + header.dataLen) % 2 ^ 64
    -- there are no bytes behind a null pointer
    let room := if malloc allocated then allocated else 0
    let (received, stream) := ChannelStream.recvEx stream header.dataLen
    -- `RecvEx` writes what it received, `UnMaskData` all of `data_len`
    let touched := if header.isMasked then header.dataLen else received.length
    if 0 < touched ∧ room < head + touched then (.error (.fault .outOfBounds), stream)
    else
      let data := if header.isMasked then unMaskData received header.maskData else received
      if received.length % 2 ^ 32 ≠ header.dataLen % 2 ^ 32 then
        (.error (ChannelStream.throwConnectionError stream "recv websocket payload error"), stream)
      -- `recv_chunk->next = nullptr`
      else if room < head then (.error (.fault .outOfBounds), stream)
      else (.ok (header.dataLen, data), stream)

/-- The half that reads a frame into a new chunk: the two words of the chunk are the
first of the payload. There is memory for it. -/
def recvFrame (stream : σ) : Res RecvBuffer × σ :=
  match recvPayload (fun _ => true) recvListSize stream with
  | (.error e, stream) => (.error e, stream)
  | (.ok (_, data), stream) => (.ok ⟨data⟩, stream)

/-- The half that copies from a valid cursor: the bytes copied so far, and whether
the call returns with them. -/
def drainRecvCtx (ctx : RecvCtx) (len : Nat) (got : Bytes) : Res (Bytes × Bool × RecvCtx) :=
  match ctx.info with
  | none => .ok (got, false, ctx)
  | some info =>
    if info.valid then do
      let (copied, ctx) ← recvFromRecvCtx ctx (len - got.length)
      return (got ++ copied, decide ((got ++ copied).length = len), ctx)
    else .ok (got, false, ctx)

/-- The loop of `RecvMessage`: `got` is what `buf` holds so far. -/
def recvMessageLoop (len : Nat) : Nat → Bytes → RecvCtx → σ → Res Bytes × RecvCtx × σ
  | 0, _, ctx, stream => (.error .outOfFuel, ctx, stream)
  | fuel + 1, got, ctx, stream =>
    match drainRecvCtx ctx len got with
    | .error e => (.error e, ctx, stream)
    | .ok (got, true, ctx) => (.ok got, ctx, stream)
    | .ok (got, false, ctx) =>
      match recvFrame stream with
      | (.error e, stream) => (.error e, ctx, stream)
      | (.ok chunk, stream) =>
        match putToRecvCtx ctx chunk with
        | .error e => (.error e, ctx, stream)
        | .ok ctx => recvMessageLoop len fuel got ctx stream

/-- `RecvMessage(ctx, buf, len, stream)`. -/
def recvMessage (fuel : Nat) (ctx : RecvCtx) (len : Nat) (stream : σ) : Res Bytes × RecvCtx × σ :=
  recvMessageLoop len fuel [] ctx stream

/-! ## What reading leaves alone -/

/-- What every read keeps, reading a frame keeps. -/
theorem recvPayload_keeps {P : σ → Prop} (hP : ∀ s n, P s → P (ChannelStream.recvEx s n).2)
    (malloc : Nat → Bool) (head : Nat) {s : σ} (hs : P s) : P (recvPayload malloc head s).2 := by
  have hhead := recvMessageHeader_keeps hP hs
  unfold recvPayload
  generalize recvMessageHeader s = read at hhead ⊢
  obtain ⟨_ | header, stream⟩ := read
  · exact hhead
  · have hbody := hP stream header.dataLen hhead
    simp only [apply_ite Prod.snd, ite_self]
    exact hbody

theorem recvFrame_keeps {P : σ → Prop} (hP : ∀ s n, P s → P (ChannelStream.recvEx s n).2)
    {s : σ} (hs : P s) : P (recvFrame s).2 := by
  have hbody := recvPayload_keeps hP (fun _ => true) recvListSize hs
  unfold recvFrame
  generalize recvPayload _ recvListSize s = read at hbody ⊢
  obtain ⟨_ | data, stream⟩ := read <;> exact hbody

/-- What every read keeps, a call keeps. -/
theorem recvMessage_keeps {P : σ → Prop} (hP : ∀ s n, P s → P (ChannelStream.recvEx s n).2)
    (fuel : Nat) (ctx : RecvCtx) (len : Nat) {s : σ} (hs : P s) :
    P (recvMessage fuel ctx len s).2.2 := by
  have hloop : ∀ (got : Bytes) (ctx : RecvCtx) (s : σ), P s →
      P (recvMessageLoop len fuel got ctx s).2.2 := by
    induction fuel with
    | zero =>
      intro _ _ _ hs
      exact hs
    | succ fuel ih =>
      intro got ctx s hs
      have hframe := recvFrame_keeps hP hs
      unfold recvMessageLoop
      split
      · exact hs
      · exact hs
      · generalize recvFrame s = read at hframe ⊢
        obtain ⟨_ | chunk, stream⟩ := read
        · exact hframe
        · simp only
          split
          · exact hframe
          · exact ih _ _ _ hframe
  exact hloop [] ctx s hs

/-! ## Whole frames -/

variable {pending : σ → Bytes}

/-- **A whole frame** is read with its payload as it was before masking, and nothing
behind it is consumed. -/
theorem recvPayload_spec (laws : RecvLaws pending) (malloc : Nat → Bool) {head : Nat}
    (hhead : head < 2 ^ 63) {s : σ} {f : Frame} {rest : Bytes}
    (hmalloc : malloc (head + f.payload.length) = true) (hs : pending s = f.encode ++ rest) :
    ∃ s', recvPayload malloc head s = (.ok (f.payload.length, f.payload), s') ∧
      pending s' = rest := by
  have hfits := f.fits
  obtain ⟨s₁, hread, hp₁⟩ := recvMessageHeader_spec laws (show f.payload.length < 2 ^ 64 by omega)
    (show pending s = f.first :: lengthAndKey f.maskKey f.payload.length ++ (f.masked ++ rest) by
      rw [hs, Frame.encode, List.append_assoc])
  obtain ⟨s₂, hbody, hp₂⟩ := laws.recvEx_append hp₁ f.masked_length
  have hroom : (head + f.payload.length) % 2 ^ 64 = head + f.payload.length :=
    Nat.mod_eq_of_lt (by omega)
  have hunmask : (if f.maskKey.isSome then
      unMaskData f.masked ((f.maskKey.map fun k => ofLE k.val).getD 0) else f.masked) =
      f.payload := by
    unfold Frame.masked
    cases f.maskKey with
    | none => rfl
    | some key =>
      simp only [Option.isSome_some, if_true, Option.map_some, Option.getD_some]
      rw [unMaskData_eq, applyMask_applyMask]
  have hnode : ¬ head + f.payload.length < head := by omega
  refine ⟨s₂, ?_, hp₂⟩
  simp only [recvPayload, hread, hbody, hroom, hmalloc, if_true, hunmask, Frame.masked_length,
    ite_self, Nat.lt_irrefl, and_false, if_false, ne_eq, not_true, hnode]

/-- It becomes one chunk. -/
theorem recvFrame_spec (laws : RecvLaws pending) {s : σ} {f : Frame} {rest : Bytes}
    (hs : pending s = f.encode ++ rest) :
    ∃ s', recvFrame s = (.ok ⟨f.payload⟩, s') ∧ pending s' = rest := by
  obtain ⟨s', hread, hrest⟩ :=
    recvPayload_spec laws (fun _ => true) (show recvListSize < 2 ^ 63 by decide) rfl hs
  exact ⟨s', by simp only [recvFrame, hread], hrest⟩

end

/-! ## The queue between in-order frames -/

/-- The queue of an in-order stream: at most one chunk, which is being read;
`next` is the id of the next one and `left` what is still to be copied. -/
structure Reading (ctx : RecvCtx) (next : Nat) (left : Bytes) : Prop where
  notChunk : ctx.isChunk = false
  listOk : ListOk ctx.prevId ctx.list
  cursor : CursorOk ctx.list (ctx.info.getD RecvInfo.fresh)
  current : (ctx.list = [] ∧ ctx.prevId + 1 = next ∧ left = []) ∨
    ∃ c, ctx.list = [c] ∧ ctx.prevId + 2 = next ∧ (ctx.info.getD RecvInfo.fresh).valid = true ∧
      left = c.payload.drop (ctx.info.getD RecvInfo.fresh).offset

namespace Reading

theorem start : Reading newRecvCtx 1 [] where
  notChunk := rfl
  listOk := RecvQueue.inOrder_init.listOk
  cursor := RecvQueue.inOrder_init.cursor
  current := .inl ⟨rfl, rfl, rfl⟩

theorem info_of_valid {ctx : RecvCtx} (h : (ctx.info.getD RecvInfo.fresh).valid = true) :
    ∃ info, ctx.info = some info ∧ info.valid = true := by
  cases hinfo : ctx.info with
  | none =>
    rw [hinfo] at h
    cases h
  | some info =>
    rw [hinfo] at h
    exact ⟨info, rfl, h⟩

/-- Copying takes from what is left and says whether that was enough. -/
theorem drain {ctx : RecvCtx} {next : Nat} {left : Bytes} (h : Reading ctx next left)
    {len : Nat} {got : Bytes} (hgot : got.length < len) :
    ∃ ctx', drainRecvCtx ctx len got = .ok (got ++ left.take (len - got.length),
        decide (len - got.length ≤ left.length), ctx') ∧
      Reading ctx' next (left.drop (len - got.length)) := by
  rcases h.current with ⟨hlist, hnext, hleft⟩ | ⟨c, hlist, hnext, hvalid, hleft⟩
  · -- nothing is buffered
    subst hleft
    have hinvalid : (ctx.info.getD RecvInfo.fresh).valid = false := by
      by_contra hv
      obtain ⟨c, tl, hc, -⟩ := h.cursor.valid (by simpa using hv)
      rw [hlist] at hc
      cases hc
    refine ⟨ctx, ?_, by rwa [List.drop_nil]⟩
    have hnot : ¬ len - got.length ≤ 0 := by omega
    unfold drainRecvCtx
    cases hinfo : ctx.info with
    | none => simp [hnot]
    | some info =>
      rw [hinfo] at hinvalid
      simp only [Option.getD_some] at hinvalid
      simp [hinvalid, hnot]
  · obtain ⟨info, hinfo, hv⟩ := info_of_valid hvalid
    have hprev : info.prevId = ctx.prevId := by
      rw [← RecvQueue.prevId_eq, hinfo, Option.getD_some]
    have hcur := h.cursor
    have hok := h.listOk
    rw [hinfo, Option.getD_some] at hcur hleft
    rw [← hprev] at hok hnext
    obtain ⟨b, tl, hl, hid, -, hoff, hcase⟩ :=
      recvFromRecvCtx_ok hinfo hv hok hcur (len - got.length)
    rw [hlist] at hl
    obtain ⟨rfl, rfl⟩ := List.cons.inj hl
    have hlen : left.length = c.payload.length - info.offset := by rw [hleft, List.length_drop]
    rcases hcase with ⟨hfit, hrecv, hcur'⟩ | ⟨hfit, info', hrecv, hcur', hprev', -⟩
    · -- the chunk has more than was asked for
      have hcopied : slice c.payload info.offset (len - got.length) =
          left.take (len - got.length) := by rw [hleft, slice]
      refine ⟨{ ctx with info := some { info with offset := info.offset + (len - got.length) } },
        ?_, h.notChunk, hok, hcur', .inr ⟨c, hlist, hnext, hv, ?_⟩⟩
      · have hdone : (got ++ left.take (len - got.length)).length = len := by
          rw [List.length_append, List.length_take]
          omega
        have hle : len - got.length ≤ left.length := by omega
        simp only [drainRecvCtx, hinfo, hv, if_true, hrecv, ok_bind, pure_eq_ok, hcopied, hdone,
          hle, decide_true]
      · rw [hleft, List.drop_drop]
        rfl
    · -- the chunk is finished and leaves the list
      have hcopied : c.payload.drop info.offset = left.take (len - got.length) := by
        rw [← hleft, List.take_of_length_le (by omega)]
      refine ⟨{ ctx with list := [], info := some info' }, ?_, h.notChunk, ?_, hcur',
        .inl ⟨rfl, ?_, ?_⟩⟩
      · have hdone : ((got ++ left.take (len - got.length)).length = len) =
            (len - got.length ≤ left.length) := by
          rw [List.length_append, List.length_take]
          exact propext ⟨fun _ => by omega, fun _ => by omega⟩
        simp only [drainRecvCtx, hinfo, hv, if_true, hrecv, ok_bind, pure_eq_ok, hcopied, hdone]
      · show ListOk info'.prevId []
        exact ⟨by simp, by simp, .nil, by simp⟩
      · show info'.prevId + 1 = next
        omega
      · rw [List.drop_of_length_le (by omega)]

/-- The next chunk is put under the cursor. -/
theorem put {ctx : RecvCtx} {next : Nat} (h : Reading ctx next []) {c : RecvBuffer}
    (hf : c.Framed) (hne : c.payload ≠ []) (hid : c.id = next) :
    ∃ ctx', putToRecvCtx ctx c = .ok ctx' ∧ Reading ctx' (next + 1) c.payload := by
  rcases h.current with ⟨hlist, hnext, -⟩ | ⟨b, hlist, hnext, hvalid, hleft⟩
  · obtain ⟨info, hput, hcur, hprev, hfl⟩ := putToRecvCtx_ok h.notChunk h.listOk h.cursor hf hne
      (by omega) (by simp [hlist])
    rw [hlist, insertById] at hcur hput
    -- the only chunk is the one after `prevId`, so the cursor is on it
    have hvalid : info.valid = true := by
      by_contra hv
      exact hcur.invalid (by simpa using hv) c (List.mem_singleton_self c) (by omega)
    obtain ⟨b, tl, hl, -, hdesc, -⟩ := hcur.valid hvalid
    obtain ⟨rfl, -⟩ := List.cons.inj hl
    have hoff : info.offset = 0 := by
      have hfresh : (ctx.info.getD RecvInfo.fresh).inFlight = [] := by
        rw [RecvInfo.inFlight, if_neg]
        intro hv
        obtain ⟨b, tl, hb, -⟩ := h.cursor.valid hv
        rw [hlist] at hb
        cases hb
      rw [hfresh, RecvInfo.inFlight, if_pos hvalid, List.take_eq_nil_iff, hdesc.payload_eq] at hfl
      exact hfl.resolve_right hne
    refine ⟨_, hput, h.notChunk, ?_, hcur, .inr ⟨c, rfl, ?_, hvalid, ?_⟩⟩
    · show ListOk info.prevId [c]
      exact ⟨by simpa using hf, by simpa using hne, List.pairwise_singleton _ _, by
        simp only [List.mem_singleton, forall_eq]
        omega⟩
    · show info.prevId + 2 = next + 1
      omega
    · show c.payload = c.payload.drop info.offset
      rw [hoff, List.drop_zero]
  · -- a chunk that is being read has bytes left
    obtain ⟨c', tl, hl, -, hdesc, hoff⟩ := h.cursor.valid hvalid
    rw [hlist] at hl
    obtain ⟨rfl, -⟩ := List.cons.inj hl
    have hlen := (h.listOk.framed b (by rw [hlist]; exact List.mem_singleton_self b)).length_eq
    have hnil := congrArg List.length hleft
    rw [List.length_drop, List.length_nil] at hnil
    have := hdesc.length_eq
    omega

end Reading

/-! ## Runs of frames -/

/-- The payloads of the frames that carry chunks numbered from `next` on. -/
def chunkData (next : Nat) : List Bytes → List Bytes
  | [] => []
  | p :: ps => (RecvBuffer.build next p.length p).data :: chunkData (next + 1) ps

/-- Frames on the wire. -/
def wire (fs : List Frame) : Bytes := (fs.map Frame.encode).flatten

/-- Chunks `next, next + 1, …` are on their way, each in one frame of its own; `ps` are their
payloads. -/
structure Carrying (next : Nat) (ps : List Bytes) (fs : List Frame) : Prop where
  data : fs.map Frame.payload = chunkData next ps
  ids : next + ps.length ≤ 2 ^ 64

theorem chunkData_length (next : Nat) (ps : List Bytes) :
    (chunkData next ps).length = ps.length := by
  induction ps generalizing next with
  | nil => rfl
  | cons p ps ih => rw [chunkData, List.length_cons, ih, List.length_cons]

theorem Carrying.length_eq {next : Nat} {ps : List Bytes} {fs : List Frame}
    (h : Carrying next ps fs) : fs.length = ps.length := by
  have hlen := congrArg List.length h.data
  rwa [List.length_map, chunkData_length] at hlen

theorem Carrying.cons_inv {next : Nat} {p : Bytes} {ps : List Bytes} {fs : List Frame}
    (h : Carrying next (p :: ps) fs) : ∃ f fs', fs = f :: fs' ∧
      f.payload = (RecvBuffer.build next p.length p).data ∧
      (RecvBuffer.build next p.length p).Framed ∧
      (RecvBuffer.build next p.length p).id = next ∧ Carrying (next + 1) ps fs' := by
  obtain ⟨hdata, hids⟩ := h
  rw [List.length_cons] at hids
  cases fs with
  | nil => cases hdata
  | cons f fs' =>
    obtain ⟨hf, hrest⟩ := List.cons.inj hdata
    have hfits := f.fits
    rw [hf] at hfits
    have hplen : (RecvBuffer.build next p.length p).payload.length = p.length := by
      rw [RecvBuffer.payload_build]
    rw [RecvBuffer.payload_length] at hplen
    exact ⟨f, fs', rfl, hf, RecvBuffer.framed_build (by omega),
      RecvBuffer.id_build (by omega) _ _, hrest, by omega⟩

/-- So are chunks that have bytes. -/
structure Arriving (next : Nat) (ps : List Bytes) (fs : List Frame) : Prop extends
    Carrying next ps fs where
  nonempty : ∀ p ∈ ps, p ≠ []

theorem Arriving.cons_inv {next : Nat} {p : Bytes} {ps : List Bytes} {fs : List Frame}
    (h : Arriving next (p :: ps) fs) : ∃ f fs', fs = f :: fs' ∧
      f.payload = (RecvBuffer.build next p.length p).data ∧
      (RecvBuffer.build next p.length p).Framed ∧
      (RecvBuffer.build next p.length p).id = next ∧ p ≠ [] ∧ Arriving (next + 1) ps fs' := by
  obtain ⟨f, fs', hfs, hf, hframed, hid, hrest⟩ := h.toCarrying.cons_inv
  exact ⟨f, fs', hfs, hf, hframed, hid, h.nonempty p (List.mem_cons_self ..), hrest,
    fun q hq => h.nonempty q (List.mem_cons_of_mem _ hq)⟩

section

variable {σ : Type} {pending : σ → Bytes}

/-- What is to be delivered: `rest` is what the queue and at most `n` more frames
hold, and `tail` is behind them. -/
def Expecting (pending : σ → Bytes) (tail : Bytes) (ctx : RecvCtx) (s : σ) (n : Nat)
    (rest : Bytes) : Prop :=
  ∃ next left ps fs, Reading ctx next left ∧ Arriving next ps fs ∧ pending s = wire fs ++ tail ∧
    rest = left ++ ps.flatten ∧ ps.length ≤ n

theorem Expecting.mono {tail : Bytes} {ctx : RecvCtx} {s : σ} {m n : Nat} {rest : Bytes}
    (h : Expecting pending tail ctx s m rest) (hmn : m ≤ n) :
    Expecting pending tail ctx s n rest := by
  obtain ⟨next, left, ps, fs, hread, harr, hs, hrest, hm⟩ := h
  exact ⟨next, left, ps, fs, hread, harr, hs, hrest, by omega⟩

/-- A fresh queue in front of chunks numbered from 1 on expects their payloads. -/
theorem expecting_start {s : σ} {ps : List Bytes} {fs : List Frame} {tail : Bytes}
    (harr : Arriving 1 ps fs) (hs : pending s = wire fs ++ tail) :
    Expecting pending tail newRecvCtx s ps.length ps.flatten :=
  ⟨1, [], ps, fs, Reading.start, harr, hs, rfl, Nat.le_refl _⟩

variable [ChannelStream σ]

/-- **The loop** on chunks in order delivers the next bytes; what is behind them
is still to be delivered. -/
theorem recvMessageLoop_spec (laws : RecvLaws pending) {tail : Bytes} {len fuel : Nat} :
    ∀ {n : Nat} {ctx : RecvCtx} {s : σ} {got rest : Bytes},
      Expecting pending tail ctx s n rest → got.length < len → len ≤ got.length + rest.length →
      n < fuel →
      ∃ ctx' s', recvMessageLoop len fuel got ctx s =
          (.ok (got ++ rest.take (len - got.length)), ctx', s') ∧
        Expecting pending tail ctx' s' n (rest.drop (len - got.length)) := by
  induction fuel with
  | zero =>
    intro n _ _ _ _ _ _ _ hfuel
    omega
  | succ fuel ih =>
    rintro n ctx s got rest ⟨next, left, ps, fs, hread, harr, hs, rfl, hn⟩ hgot hlen hfuel
    obtain ⟨ctx₁, hdrain, hread₁⟩ := hread.drain hgot
    rw [recvMessageLoop, hdrain]
    by_cases hfull : len - got.length ≤ left.length
    · -- the queue had enough
      refine ⟨ctx₁, s, ?_, next, _, ps, fs, hread₁, harr, hs, ?_, hn⟩
      · simp only [hfull, decide_true, List.take_append_of_le_length hfull]
      · rw [List.drop_append_of_le_length hfull]
    · -- it is used up, and the next frame is read
      have htake : left.take (len - got.length) = left := List.take_of_length_le (by omega)
      have hdrop : left.drop (len - got.length) = [] := List.drop_of_length_le (by omega)
      rw [hdrop] at hread₁
      rw [List.length_append] at hlen
      cases ps with
      | nil =>
        rw [List.flatten_nil, List.length_nil] at hlen
        omega
      | cons p ps =>
        obtain ⟨f, fs', rfl, hf, hframed, hid, hp, harr'⟩ := harr.cons_inv
        have hfront : pending s = f.encode ++ (wire fs' ++ tail) := by
          rw [hs, wire, wire, List.map_cons, List.flatten_cons, List.append_assoc]
        obtain ⟨s₂, hframe, hs₂⟩ := recvFrame_spec laws hfront
        obtain ⟨ctx₂, hput, hread₂⟩ := hread₁.put (c := .build next p.length p) hframed
          (by rwa [RecvBuffer.payload_build]) hid
        rw [RecvBuffer.payload_build] at hread₂
        have hchunk : (⟨f.payload⟩ : RecvBuffer) = .build next p.length p := by rw [hf]
        have hgot' : (got ++ left).length = got.length + left.length := List.length_append
        rw [List.length_cons] at hn
        rw [List.flatten_cons] at hlen ⊢
        obtain ⟨ctx₃, s₃, hloop, hexp⟩ := ih (n := n - 1)
          ⟨next + 1, p, ps, fs', hread₂, harr', hs₂, rfl, by omega⟩
          (show (got ++ left).length < len by omega) (by omega) (by omega)
        have hleft : len - (got ++ left).length = len - got.length - left.length := by omega
        refine ⟨ctx₃, s₃, ?_, ?_⟩
        · have hsplit : (left ++ (p ++ ps.flatten)).take (len - got.length) =
              left ++ (p ++ ps.flatten).take (len - (got ++ left).length) := by
            rw [List.take_append, htake, hleft]
          simp only [hfull, decide_false, htake, hframe, hchunk, hput, hloop]
          rw [hsplit, List.append_assoc]
        · rw [List.drop_append, hdrop, List.nil_append, ← hleft]
          exact hexp.mono (by omega)

/-- **One call** on chunks in order returns the next `len` bytes. -/
theorem recvMessage_spec (laws : RecvLaws pending) {tail : Bytes} {len fuel n : Nat}
    {ctx : RecvCtx} {s : σ} {rest : Bytes} (h : Expecting pending tail ctx s n rest)
    (hpos : 0 < len) (hlen : len ≤ rest.length) (hfuel : n < fuel) :
    ∃ ctx' s', recvMessage fuel ctx len s = (.ok (rest.take len), ctx', s') ∧
      Expecting pending tail ctx' s' n (rest.drop len) := by
  obtain ⟨ctx', s', hloop, hexp⟩ := recvMessageLoop_spec laws h
    (show ([] : Bytes).length < len from hpos) (by simpa using hlen) hfuel
  exact ⟨ctx', s', hloop, hexp⟩

end

end ZktlsNet
