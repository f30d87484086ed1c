import ZktlsNet.Ws.Bounds

/-!
# When the receiver waits for the network

A pass of the loop of `RecvMessage` copies from one chunk. If that is not enough it
reads the next frame, whether or not the queue has the following chunks already.

- `RecvCtx.buffered`: what the queue could still deliver without another frame.
- `WaitsOnly`: a frame is read only if that is not enough.
- `recvMessage_waits_iff`: it is so in a run exactly if in each of its passes the chunk
  that is being read is enough, or all that is buffered is not. The frames of the run have
  distinct ids from 1 on: a chunk 0 would stay in front of all others.
-/

namespace ZktlsNet

open NetLib

/-- The payloads of the chunks with consecutive ids from `next` on. -/
def contiguous : Nat → List RecvBuffer → Bytes
  | _, [] => []
  | next, b :: bs => if b.id = next then b.payload ++ contiguous (next + 1) bs else []

namespace RecvCtx

/-- The bytes of the chunk that is being read which have been copied already. -/
def inFlight (ctx : RecvCtx) : Bytes := (ctx.info.getD RecvInfo.fresh).inFlight

/-- The in-order bytes that are buffered and have not been copied. -/
def buffered (ctx : RecvCtx) : Bytes :=
  (contiguous (ctx.prevId + 1) ctx.list).drop ctx.inFlight.length

/-- What is left of the chunk that the cursor is in; `none` if it is in none. -/
def left (ctx : RecvCtx) : Option Nat :=
  match ctx.info with
  | none => none
  | some info => if info.valid then some (info.length - info.offset) else none

end RecvCtx

namespace Receiver

section

variable {σ : Type} [ChannelStream σ]

/-- The next frame is a whole non-empty chunk with a new positive id, or it is refused. -/
def distinctFrames (r : Receiver σ) : RecvStep → Bool
  | .call _ => true
  | .next =>
    match r.pc with
    | .frame _ _ =>
      match recvFrame r.stream with
      | (.ok c, _) => decide (16 ≤ c.data.length) && decide (c.length = c.payload.length) &&
          decide (c.payload ≠ []) && decide (1 ≤ c.id) && r.received.all fun d => d.id != c.id
      | (.error (.thrown _), _) => true
      | (.error _, _) => false
    | _ => true

/-- Calls with any length, on a stream whose frames have distinct ids; the sender numbers
them from 1 on. -/
def distinctMachine (stream : σ) : Machine (Res (Receiver σ)) RecvStep :=
  checked (init stream) (fun r e => r.enabled e && r.distinctFrames e) act

end

section

variable {σ : Type}

/-- A frame is about to be read only if what has been copied and what is buffered are
fewer than what has been asked for. -/
def WaitsOnly (r : Receiver σ) : Prop :=
  ∀ len got, r.pc = .frame len got → got.length + r.ctx.buffered.length < len

/-- A pass of the loop is about to find enough in one chunk, or not enough in all. -/
def drainsEnough (r : Receiver σ) : RecvStep → Bool
  | .call _ => true
  | .next =>
    match r.pc with
    | .drain len got =>
      (match r.ctx.left with
        | none => false
        | some left => decide (len ≤ got.length + left)) ||
        decide (got.length + r.ctx.buffered.length < len)
    | _ => true

/-- The queue is in order, and no more has been copied than asked for. -/
structure Waiting (r : Receiver σ) : Prop where
  inOrder : ∃ out, RecvQueue.InOrder ⟨r.ctx, r.received, out⟩
  got_le : ∀ len got, r.pc = .drain len got ∨ r.pc = .frame len got → got.length ≤ len

theorem waiting_init (stream : σ) : Waiting (⟨newRecvCtx, stream, .idle, []⟩ : Receiver σ) where
  inOrder := ⟨[], RecvQueue.inOrder_init⟩
  got_le len got h := by rcases h with h | h <;> cases h

/-! ## What is buffered -/

theorem contiguous_cons {b : RecvBuffer} {bs : List RecvBuffer} :
    contiguous b.id (b :: bs) = b.payload ++ contiguous (b.id + 1) bs := if_pos rfl

/-- Where it is in a chunk, the rest of this chunk and those behind it are. -/
theorem buffered_of_valid {ctx : RecvCtx} {info : RecvInfo} {b : RecvBuffer} {bs : List RecvBuffer}
    (hinfo : ctx.info = some info) (hv : info.valid = true) (hl : ctx.list = b :: bs)
    (hid : b.id = ctx.prevId + 1) (hpayload : info.payload = b.payload)
    (hoff : info.offset ≤ b.payload.length) :
    ctx.buffered = b.payload.drop info.offset ++ contiguous (b.id + 1) bs := by
  have hflight : ctx.inFlight.length = info.offset := by
    rw [RecvCtx.inFlight, hinfo, Option.getD_some, RecvInfo.inFlight, if_pos hv, hpayload,
      List.length_take]
    omega
  rw [RecvCtx.buffered, hl, ← hid, contiguous_cons, hflight, List.drop_append_of_le_length hoff]

/-! ## One pass of the loop -/

/-- **Copying** takes from one chunk: either that is enough, or the rest of the chunk is
copied and buffered no more. -/
theorem drain_spec {ctx : RecvCtx} {received : List RecvBuffer} {out : Bytes}
    (h : RecvQueue.InOrder ⟨ctx, received, out⟩) {len : Nat} {got : Bytes}
    (hgot : got.length ≤ len) :
    ∃ got' returns ctx' out', drainRecvCtx ctx len got = .ok (got', returns, ctx') ∧
      RecvQueue.InOrder ⟨ctx', received, out'⟩ ∧ got'.length ≤ len ∧
      (returns = true ↔ ∃ left, ctx.left = some left ∧ len ≤ got.length + left) ∧
      (returns = false →
        got'.length + ctx'.buffered.length = got.length + ctx.buffered.length) := by
  cases hinfo : ctx.info with
  | none =>
    refine ⟨got, false, ctx, out, by simp [drainRecvCtx, hinfo], h, hgot, ?_, fun _ => rfl⟩
    simp [RecvCtx.left, hinfo]
  | some info =>
    cases hv : info.valid with
    | false =>
      refine ⟨got, false, ctx, out, by simp [drainRecvCtx, hinfo, hv], h, hgot, ?_, fun _ => rfl⟩
      simp [RecvCtx.left, hinfo, hv]
    | true =>
      have hprev : ctx.prevId = info.prevId := by simp [RecvCtx.prevId, hinfo]
      have hlist := h.listOk
      have hcur := h.cursor
      rw [hprev] at hlist
      simp only [hinfo, Option.getD_some] at hcur
      obtain ⟨b, bs, hl, hid, hpayload, hoff, hcase⟩ :=
        recvFromRecvCtx_ok hinfo hv hlist hcur (len - got.length)
      obtain ⟨q', hread, hq'⟩ := h.read (len - got.length) (by simp [RecvQueue.readable, hinfo, hv])
      have hlength : info.length = b.payload.length := by
        obtain ⟨b', bs', hl', -, hdesc, -⟩ := hcur.valid hv
        rw [hl] at hl'
        cases hl'
        rw [hdesc.length_eq, (hlist.framed b (by rw [hl]; exact List.mem_cons_self)).length_eq]
      have hbuffered := buffered_of_valid hinfo hv hl (by rw [hprev]; exact hid) hpayload hoff.le
      have hleft : ctx.left = some (b.payload.length - info.offset) := by
        simp [RecvCtx.left, hinfo, hv, hlength]
      have hdone : (∃ left, ctx.left = some left ∧ len ≤ got.length + left) ↔
          len ≤ got.length + (b.payload.length - info.offset) := by simp [hleft]
      rw [hdone]
      rcases hcase with ⟨hfit, hrecv, -⟩ | ⟨hfit, info', hrecv, hcur', hprev', hflight'⟩
      · -- the chunk has more than was asked for
        simp only [RecvQueue.act, hrecv, ok_bind, pure_eq_ok, Except.ok.injEq] at hread
        subst hread
        have hcopied : (slice b.payload info.offset (len - got.length)).length =
            len - got.length := by
          rw [slice, List.length_take, List.length_drop]
          omega
        have hfull : (got ++ slice b.payload info.offset (len - got.length)).length = len := by
          rw [List.length_append, hcopied]
          omega
        refine ⟨_, true, _, _, ?_, hq', hfull.le, ?_, fun hf => by cases hf⟩
        · simp only [drainRecvCtx, hinfo, hv, if_true, hrecv, ok_bind, pure_eq_ok, hfull,
            decide_true]
        · simp only [true_iff]
          omega
      · -- the chunk is copied to its end
        simp only [RecvQueue.act, hrecv, ok_bind, pure_eq_ok, Except.ok.injEq] at hread
        subst hread
        have hlen : (got ++ b.payload.drop info.offset).length =
            got.length + (b.payload.length - info.offset) := by
          rw [List.length_append, List.length_drop]
        have hbuffered' : RecvCtx.buffered { ctx with list := bs, info := some info' } =
            contiguous (b.id + 1) bs := by
          have hprevId : RecvCtx.prevId { ctx with list := bs, info := some info' } = b.id := hprev'
          have hinFlight : RecvCtx.inFlight { ctx with list := bs, info := some info' } = [] :=
            hflight'
          rw [RecvCtx.buffered, hprevId, hinFlight]
          rfl
        refine ⟨got ++ b.payload.drop info.offset,
          decide ((got ++ b.payload.drop info.offset).length = len), _, _, ?_, hq', ?_, ?_, ?_⟩
        · simp only [drainRecvCtx, hinfo, hv, if_true, hrecv, ok_bind, pure_eq_ok]
        · rw [hlen]
          omega
        · rw [decide_eq_true_iff, hlen]
          omega
        · intro _
          rw [hlen, hbuffered', hbuffered, List.length_append, List.length_drop]
          omega

end

section

variable {σ : Type} [ChannelStream σ]

/-- **One step**: it does not go wrong, and a frame is about to be read only if not
enough is buffered exactly if the pass meets the condition. -/
theorem Waiting.act {r : Receiver σ} (h : r.Waiting) {e : RecvStep}
    (hen : (r.enabled e && r.distinctFrames e) = true) :
    ∃ r', r.act e = .ok r' ∧ r'.Waiting ∧ (r'.WaitsOnly ↔ r.drainsEnough e = true) := by
  obtain ⟨out, hq⟩ := h.inOrder
  cases e with
  | call len =>
    refine ⟨_, rfl, ⟨⟨out, hq⟩, ?_⟩, ?_⟩
    · rintro len' got' (heq | heq)
      · cases heq
        exact Nat.zero_le _
      · cases heq
    · simp [WaitsOnly, drainsEnough]
  | next =>
    obtain ⟨hidle, hframes⟩ := Bool.and_eq_true_iff.mp hen
    cases hpc : r.pc with
    | idle => simp [enabled, hpc] at hidle
    | drain len got =>
      obtain ⟨got', returns, ctx', out', hdrain, hq', hle, hreturns, hkept⟩ :=
        drain_spec hq (h.got_le len got (.inl hpc))
      refine ⟨{ r with ctx := ctx', pc := if returns then .idle else .frame len got' },
        by simp only [Receiver.act, hpc, hdrain, ok_bind, pure_eq_ok], ⟨⟨out', hq'⟩, ?_⟩, ?_⟩
      · intro len₁ got₁ heq
        cases returns with
        | true => rcases heq with heq | heq <;> cases heq
        | false =>
          rcases heq with heq | heq
          · cases heq
          · cases heq
            exact hle
      · have henough : (match r.ctx.left with
            | none => false
            | some left => decide (len ≤ got.length + left)) = returns := by
          rw [Bool.eq_iff_iff, hreturns]
          cases r.ctx.left <;> simp
        simp only [drainsEnough, hpc, henough]
        cases returns with
        | true => simp [WaitsOnly]
        | false =>
          simp only [WaitsOnly, Bool.false_eq_true, if_false, Bool.false_or, decide_eq_true_eq,
            ← hkept rfl]
          constructor
          · intro hall
            exact hall len got' rfl
          · intro hlt len₁ got₁ heq
            cases heq
            exact hlt
    | frame len got =>
      have hcond : r.drainsEnough .next = true := by simp [drainsEnough, hpc]
      rw [hcond]
      simp only [distinctFrames, hpc] at hframes
      rcases hread : recvFrame r.stream with ⟨e | c, stream⟩
      · cases e with
        | thrown x =>
          refine ⟨{ r with stream := stream, pc := .idle },
            by simp only [Receiver.act, hpc, hread], ⟨⟨out, hq⟩, ?_⟩, by simp [WaitsOnly]⟩
          rintro len' got' (heq | heq) <;> cases heq
        | _ => simp [hread] at hframes
      · simp only [hread, Bool.and_eq_true, decide_eq_true_eq, List.all_eq_true, bne_iff_ne]
          at hframes
        obtain ⟨⟨⟨⟨hwords, hlen⟩, hne⟩, hpos⟩, hnew⟩ := hframes
        obtain ⟨q', hput, hq'⟩ := hq.put ⟨hwords, hlen⟩ hne hpos hnew
        obtain ⟨ctx', hctx, hq''⟩ := bind_eq_ok hput
        cases hq''
        refine ⟨⟨ctx', stream, .drain len got, r.received ++ [c]⟩,
          by simp only [Receiver.act, hpc, hread, hctx, ok_bind, pure_eq_ok], ⟨⟨out, hq'⟩, ?_⟩,
          by simp [WaitsOnly]⟩
        rintro len' got' (heq | heq)
        · cases heq
          exact h.got_le len got (.inr hpc)
        · cases heq

end

end Receiver

section

variable {σ : Type} [ChannelStream σ]

open Receiver in
/-- **No needless waiting**, in every state of a run on frames with distinct positive ids, if
and only if in each pass of the loop the chunk that is being read has all that was asked for,
or all chunks that are buffered in order have too little. -/
theorem recvMessage_waits_iff (stream : σ) (es : List RecvStep)
    (hrun : ((distinctMachine stream).run es).isSome) :
    (∀ es' r, es' <+: es → (distinctMachine stream).run es' = some (.ok r) → r.WaitsOnly) ↔
      (((distinctMachine stream).restrict (whereOk drainsEnough)).run es).isSome := by
  rw [distinctMachine, checked_eq_fallible] at hrun ⊢
  refine fallible_restrict_run_iff Waiting WaitsOnly (waiting_init stream)
    (by simp [WaitsOnly]) ?_ ?_ ?_ hrun
  · intro r e r' h hstep
    obtain ⟨hen, hact⟩ := Option.ite_none_right_eq_some.mp hstep
    obtain ⟨r'', hok, h', -⟩ := h.act hen
    rw [hok] at hact
    cases hact
    exact h'
  · intro r e r' h _ hstep
    obtain ⟨hen, hact⟩ := Option.ite_none_right_eq_some.mp hstep
    obtain ⟨r'', hok, -, hiff⟩ := h.act hen
    rw [hok] at hact
    cases hact
    exact hiff
  · intro r e f h _ hstep
    obtain ⟨hen, hact⟩ := Option.ite_none_right_eq_some.mp hstep
    obtain ⟨r'', hok, -⟩ := h.act hen
    rw [hok] at hact
    cases hact

end

/-- A chunk that has what was asked for. -/
theorem recvMessage_waits_iff_single :
    let stream := SocketStream.ofSocket (.ofBytes (chunkFrame 1 [5, 6])) .clientToPado
    let es : List RecvStep := [.call 1, .next, .next, .next]
    ∃ r, (Receiver.distinctMachine stream).run es = some (.ok r) ∧ r.WaitsOnly := by
  intro stream es
  have hall := (recvMessage_waits_iff stream es (by decide)).mpr (by decide)
  obtain ⟨r, hrun⟩ : ∃ r, (Receiver.distinctMachine stream).run es = some (.ok r) := by
    simp only [stream, es]
    exact ⟨_, rfl⟩
  exact ⟨r, hrun, hall es r (List.prefix_refl es) hrun⟩

/-- Chunk 2 before chunk 1, and a request that spans both: the third frame is read although
both chunks are there. And a request for nothing on a fresh receiver. -/
theorem recvMessage_waits_needlessly :
    (¬ ∀ es r, (Receiver.distinctMachine (SocketStream.ofSocket
      (.ofBytes (chunkFrame 2 [6] ++ chunkFrame 1 [5])) .clientToPado)).run es =
        some (.ok r) → r.WaitsOnly) ∧
    ¬ ∀ es r, (Receiver.distinctMachine (SocketStream.ofSocket
      (.ofBytes []) .clientToPado)).run es = some (.ok r) → r.WaitsOnly := by
  constructor
  · intro hall
    have hwaits := hall [.call 2, .next, .next, .next, .next, .next] _ rfl
    exact absurd (hwaits 2 [5] rfl) (by decide)
  · intro hall
    have hwaits := hall [.call 0, .next] _ rfl
    exact absurd (hwaits 0 [] rfl) (by decide)

end ZktlsNet
