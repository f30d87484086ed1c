import Mathlib.Data.List.DropRight
import ZktlsNet.Ws.SendBuffer

/-!
# Sending (`ws.cpp:312-437`, `ws.cpp:636-675`)

`SendMessage` writes full send buffers to the stream, `AsyncSendMessage` puts
them in the flush queue instead. A message that does not fit even an empty
buffer goes out in a buffer of its own, which takes its id from the shared
counter.

- `chunkFrames`: a sequence of payloads under consecutive ids.
- `asyncSendMessage_spec`: what one call packs is such a sequence, and its bytes
  are the bytes handed in; a call with no bytes leaves nothing behind.
- `flushed`: the bytes handed in before the last call with no bytes; none of them
  stays behind (`packAll_flushed`).
- `sendMessage_spec`: on a stream that takes every write, the synchronous call
  writes what the asynchronous call would have queued.
-/

namespace ZktlsNet

open NetLib

/-! ## The flush queue -/

/-- `FlushCtx`: the payloads in the order of the `next` pointers. -/
structure FlushCtx where
  list : List Bytes
  deriving DecidableEq, Repr

/-- `PutToFlushCtx`. -/
def putToFlushCtx (ctx : FlushCtx) (buf : Bytes) : FlushCtx := ⟨ctx.list ++ [buf]⟩

/-- `GetFromFlushCtx`. -/
def getFromFlushCtx (ctx : FlushCtx) : Option Bytes × FlushCtx :=
  match ctx.list with
  | [] => (none, ctx)
  | tmp :: rest => (some tmp, ⟨rest⟩)

/-- `EmptyFlushCtx`. -/
def emptyFlushCtx (ctx : FlushCtx) : Bool := ctx.list.isEmpty

/-- `SendCtx`. -/
structure SendCtx where
  buffer : SendBuffer
  flushCtx : FlushCtx
  async : Bool
  deriving DecidableEq, Repr

/-- `NewSendCtx`. -/
def newSendCtx : SendCtx := ⟨.new (32 * 1024), ⟨[]⟩, false⟩

/-! ## The two ways to send -/

section

variable {σ : Type} [ChannelStream σ]

/-- The block of `SendMessage` that writes out a buffer that is not empty. After
a failed write the buffer keeps its bytes. -/
def sendPacked (sendBuffer : SendBuffer) (stream : σ) : Int × SendBuffer × σ :=
  if sendBuffer.empty then (0, sendBuffer, stream)
  else
    let sendBuffer := sendBuffer.pack
    let (ret, stream) := ChannelStream.sendEx stream sendBuffer.data
    if ret < 0 then (-1, sendBuffer, stream) else (0, sendBuffer.reset, stream)

/-- `SendMessage`; a message of no bytes is a flush. -/
def sendMessage (ctx : SendCtx) (buf : Bytes) (stream : σ) : Int × SendCtx × σ :=
  if 0 < buf.length && ctx.buffer.canPut buf.length then
    (buf.length, { ctx with buffer := ctx.buffer.put buf }, stream)
  else
    let (ret, sendBuffer, stream) := sendPacked ctx.buffer stream
    if ret < 0 then (-1, { ctx with buffer := sendBuffer }, stream)
    else if 0 < buf.length && sendBuffer.canPut buf.length then
      (buf.length, { ctx with buffer := sendBuffer.put buf }, stream)
    else if 0 < buf.length then
      let (tmp, sendBuffer) := SendBuffer.newFrom buf.length sendBuffer
      let (ret, stream) := ChannelStream.sendEx stream (tmp.put buf).pack.data
      if ret < 0 then (-1, { ctx with buffer := sendBuffer }, stream)
      else (buf.length, { ctx with buffer := sendBuffer }, stream)
    else (buf.length, { ctx with buffer := sendBuffer }, stream)

end

/-- The block of `AsyncSendMessage` that puts a buffer that is not empty into the
flush queue. -/
def putPacked (sendBuffer : SendBuffer) : List Bytes × SendBuffer :=
  if sendBuffer.empty then ([], sendBuffer)
  else ([sendBuffer.pack.data], sendBuffer.pack.reset)

/-- `AsyncSendMessage`: what it passes to `PutToFlushCtx`, in order, and the send
buffer after it. Every put takes the queue's lock on its own, so the queue is
not part of this function. -/
def asyncSendMessage (sendBuffer : SendBuffer) (buf : Bytes) : List Bytes × SendBuffer :=
  if buf.length = 0 then putPacked sendBuffer
  else if 0 < buf.length && sendBuffer.canPut buf.length then ([], sendBuffer.put buf)
  else
    let (puts, sendBuffer) := putPacked sendBuffer
    if 0 < buf.length && sendBuffer.canPut buf.length then (puts, sendBuffer.put buf)
    else if 0 < buf.length then
      let (tmp, sendBuffer) := SendBuffer.newFrom buf.length sendBuffer
      (puts ++ [(tmp.put buf).pack.data], sendBuffer)
    else (puts, sendBuffer)

/-! ## Chunks under consecutive ids -/

/-- The id after `n` further ones. -/
def lastId (id : Nat) : Nat → Nat
  | 0 => id
  | n + 1 => lastId ((id + 1) % 2 ^ 64) n

/-- The frames of payloads numbered from the id after `id` on. -/
def chunkFrames (id : Nat) : List Bytes → List Bytes
  | [] => []
  | p :: ps => chunkFrame ((id + 1) % 2 ^ 64) p :: chunkFrames ((id + 1) % 2 ^ 64) ps

theorem lastId_add (id m n : Nat) : lastId id (m + n) = lastId (lastId id m) n := by
  induction m generalizing id with
  | zero => simp [lastId]
  | succ m ih => rw [Nat.succ_add, lastId, lastId, ih]

theorem chunkFrames_append (id : Nat) (ps qs : List Bytes) :
    chunkFrames id (ps ++ qs) = chunkFrames id ps ++ chunkFrames (lastId id ps.length) qs := by
  induction ps generalizing id with
  | nil => rfl
  | cons p ps ih => rw [List.cons_append, chunkFrames, chunkFrames, ih, List.cons_append]; rfl

@[simp] theorem chunkFrames_length (id : Nat) (ps : List Bytes) :
    (chunkFrames id ps).length = ps.length := by
  induction ps generalizing id with
  | nil => rfl
  | cons p ps ih => rw [chunkFrames, List.length_cons, ih, List.length_cons]

/-! ## What a call packs -/

/-- `puts` and the send buffer after them account for everything handed in: the
puts are whole chunks under the next ids, and the payloads with what stays in
the buffer are the bytes that were there and `buf`. -/
structure Packs (b : SendBuffer) (buf : Bytes) (puts : List Bytes) (b' : SendBuffer) : Prop where
  chunks : ∃ ps : List Bytes, puts = chunkFrames b.sendId ps ∧
    b'.sendId = lastId b.sendId ps.length ∧ ps.flatten ++ b'.payload = b.payload ++ buf ∧
    ∀ p ∈ ps, p ≠ [] ∧ p.length + headSize ≤ max b.bufferSize (buf.length + headSize)
  size_eq : b'.bufferSize = b.bufferSize

namespace Packs

theorem put {b : SendBuffer} {buf : Bytes} (h : b.canPut buf.length = true) :
    Packs b buf [] (b.put buf) where
  chunks := ⟨[], rfl, rfl, by simp, by simp⟩
  size_eq := if_pos h

/-- A buffer that is not empty is one chunk. -/
theorem putPacked (b : SendBuffer) : Packs b [] (putPacked b).1 (putPacked b).2 := by
  unfold ZktlsNet.putPacked
  split
  · exact ⟨⟨[], rfl, rfl, by simp, by simp⟩, rfl⟩
  · rename_i he
    have hne : b.payload ≠ [] := fun h => he (b.empty_iff.mpr h)
    have hlen : b.payload.length + headSize ≤ b.bufferSize := by
      have hfits : b.offset ≤ b.bufferSize := b.fits
      rw [b.offset_eq] at hfits
      omega
    refine ⟨⟨[b.payload], by simp [chunkFrames, b.data_pack], by simp [lastId], by simp, ?_⟩,
      by simp⟩
    simp only [List.mem_singleton, forall_eq]
    exact ⟨hne, by omega⟩

/-- A message in a buffer of its own. -/
theorem alone (b : SendBuffer) {buf : Bytes} (hbuf : buf ≠ []) (hb : b.payload = []) :
    Packs b buf [(((SendBuffer.newFrom buf.length b).1.put buf).pack).data]
      (SendBuffer.newFrom buf.length b).2 where
  chunks := by
    refine ⟨[buf], ?_, by simp [lastId], by simp [hb], ?_⟩
    · rw [SendBuffer.data_pack, SendBuffer.payload_put]
      rfl
    · simp only [List.mem_singleton, forall_eq]
      exact ⟨hbuf, by omega⟩
  size_eq := rfl

theorem trans {b b' b'' : SendBuffer} {buf : Bytes} {puts puts' : List Bytes}
    (h : Packs b [] puts b') (h' : Packs b' buf puts' b'') :
    Packs b buf (puts ++ puts') b'' := by
  obtain ⟨⟨ps, rfl, hid, hbytes, hps⟩, hsize⟩ := h
  obtain ⟨⟨qs, rfl, hid', hbytes', hqs⟩, hsize'⟩ := h'
  rw [List.append_nil] at hbytes
  refine ⟨⟨ps ++ qs, ?_, ?_, ?_, ?_⟩, by rw [hsize', hsize]⟩
  · rw [chunkFrames_append, hid]
  · rw [hid', hid, List.length_append, lastId_add]
  · rw [List.flatten_append, List.append_assoc, hbytes', ← List.append_assoc, hbytes]
  · intro p hp
    rcases List.mem_append.mp hp with hp | hp
    · obtain ⟨hne, hlen⟩ := hps p hp
      exact ⟨hne, by rw [List.length_nil] at hlen; omega⟩
    · rw [← hsize]
      exact hqs p hp

end Packs

@[simp] theorem payload_putPacked (b : SendBuffer) : (putPacked b).2.payload = [] := by
  unfold putPacked
  split
  · rename_i he
    exact b.empty_iff.mp he
  · rfl

/-- **One asynchronous call** packs whole chunks. -/
theorem asyncSendMessage_spec (b : SendBuffer) (buf : Bytes) :
    Packs b buf (asyncSendMessage b buf).1 (asyncSendMessage b buf).2 := by
  unfold asyncSendMessage
  by_cases hlen : buf.length = 0
  · have hnil : buf = [] := List.length_eq_zero_iff.mp hlen
    subst hnil
    exact Packs.putPacked b
  · have hpos : 0 < buf.length := by omega
    have hne : buf ≠ [] := fun h => by simp [h] at hlen
    have hdrain := Packs.putPacked b
    simp only [hlen, if_false, hpos, decide_true, Bool.true_and, if_true]
    split
    · exact .put (by assumption)
    · split
      · have := hdrain.trans (.put (by assumption))
        rwa [List.append_nil] at this
      · exact hdrain.trans (.alone _ hne (payload_putPacked b))

/-- A call without bytes is a flush: nothing stays behind. -/
theorem payload_asyncSendMessage_nil (b : SendBuffer) :
    (asyncSendMessage b []).2.payload = [] := payload_putPacked b

theorem asyncSendMessage_length_le (b : SendBuffer) (buf : Bytes) :
    (asyncSendMessage b buf).1.length ≤ 2 := by
  have h : (putPacked b).1.length ≤ 1 := by
    unfold putPacked
    split <;> simp
  unfold asyncSendMessage
  generalize putPacked b = packed at h ⊢
  obtain ⟨puts, sendBuffer⟩ := packed
  simp only at h ⊢
  split
  · show puts.length ≤ 2
    omega
  · split
    · simp
    · split
      · show puts.length ≤ 2
        omega
      · split <;> simp <;> omega

/-- The calls for `msgs` one after the other. -/
def packAll (b : SendBuffer) : List Bytes → List Bytes × SendBuffer
  | [] => ([], b)
  | m :: msgs =>
    let (puts, b) := asyncSendMessage b m
    let (puts', b) := packAll b msgs
    (puts ++ puts', b)

theorem packAll_append (b : SendBuffer) (ms ns : List Bytes) :
    packAll b (ms ++ ns) = ((packAll b ms).1 ++ (packAll (packAll b ms).2 ns).1,
      (packAll (packAll b ms).2 ns).2) := by
  induction ms generalizing b with
  | nil => rfl
  | cons m ms ih => simp [packAll, ih, List.append_assoc]

theorem packAll_concat (b : SendBuffer) (ms : List Bytes) (m : Bytes) :
    packAll b (ms ++ [m]) = ((packAll b ms).1 ++ (asyncSendMessage (packAll b ms).2 m).1,
      (asyncSendMessage (packAll b ms).2 m).2) := by
  rw [packAll_append]
  simp [packAll]

/-- **A sequence of calls** packs chunks under consecutive ids, and loses no byte. -/
theorem packAll_spec (b : SendBuffer) (msgs : List Bytes) {bound : Nat}
    (hb : b.bufferSize ≤ bound) (hmsgs : ∀ m ∈ msgs, m.length + headSize ≤ bound) :
    ∃ ps : List Bytes, (packAll b msgs).1 = chunkFrames b.sendId ps ∧
      ps.flatten ++ (packAll b msgs).2.payload = b.payload ++ msgs.flatten ∧
      (∀ p ∈ ps, p ≠ [] ∧ p.length + headSize ≤ bound) ∧ ps.length ≤ 2 * msgs.length := by
  induction msgs generalizing b with
  | nil => exact ⟨[], rfl, by simp [packAll], by simp, by simp⟩
  | cons m msgs ih =>
    obtain ⟨⟨ps, hputs, hid, hbytes, hps⟩, hsize⟩ := asyncSendMessage_spec b m
    obtain ⟨qs, hputs', hbytes', hqs, hcount'⟩ := ih (asyncSendMessage b m).2
      (by omega) fun n hn => hmsgs n (List.mem_cons_of_mem _ hn)
    have hm := hmsgs m (List.mem_cons_self ..)
    have hcount : ps.length ≤ 2 := by
      have h := asyncSendMessage_length_le b m
      rwa [hputs, chunkFrames_length] at h
    refine ⟨ps ++ qs, ?_, ?_, ?_, ?_⟩
    · show (asyncSendMessage b m).1 ++ (packAll (asyncSendMessage b m).2 msgs).1 = _
      rw [hputs, hputs', hid, chunkFrames_append]
    · show (ps ++ qs).flatten ++ (packAll (asyncSendMessage b m).2 msgs).2.payload = _
      rw [List.flatten_append, List.append_assoc, hbytes', ← List.append_assoc, hbytes,
        List.flatten_cons, List.append_assoc]
    · intro p hp
      rcases List.mem_append.mp hp with hp | hp
      · obtain ⟨hne, hlen⟩ := hps p hp
        exact ⟨hne, by omega⟩
      · exact hqs p hp
    · rw [List.length_append, List.length_cons]
      omega

/-! ## What has been flushed -/

/-- The bytes handed over before the last flush, which is a call without bytes. -/
def flushed (msgs : List Bytes) : Bytes := (msgs.rdropWhile (· ≠ [])).flatten

theorem flushed_concat (msgs : List Bytes) (m : Bytes) :
    flushed (msgs ++ [m]) = if m = [] then msgs.flatten else flushed msgs := by
  rw [flushed, List.rdropWhile_concat]
  by_cases hm : m = []
  · simp [hm]
  · simp [hm, flushed]

theorem flushed_isPrefix (msgs : List Bytes) : flushed msgs <+: msgs.flatten := by
  obtain ⟨rest, hrest⟩ := List.rdropWhile_prefix (· ≠ []) msgs
  exact ⟨rest.flatten, by rw [flushed, ← List.flatten_append, hrest]⟩

/-- What stays in the send buffer was handed over behind the last flush. -/
theorem packAll_flushed {b : SendBuffer} (hb : b.payload = []) (msgs : List Bytes) :
    (packAll b msgs).2.payload.length + (flushed msgs).length ≤ msgs.flatten.length := by
  induction msgs using List.reverseRecOn with
  | nil => simp [packAll, flushed, hb]
  | append_singleton msgs m ih =>
    rw [packAll_concat, flushed_concat, List.flatten_concat, List.length_append]
    by_cases hm : m = []
    · subst hm
      simp [payload_asyncSendMessage_nil]
    · obtain ⟨⟨ps, -, -, hbytes, -⟩, -⟩ := asyncSendMessage_spec (packAll b msgs).2 m
      have hlen := congrArg List.length hbytes
      rw [List.length_append, List.length_append] at hlen
      rw [if_neg hm]
      dsimp only
      omega

/-! ## The synchronous call -/

section

variable {σ : Type} [ChannelStream σ] {ok : σ → Prop} {sent : σ → Bytes}

/-- **The synchronous call**, over a stream that takes every write, writes what the
asynchronous call puts into the queue and leaves the same send buffer. -/
theorem sendMessage_spec (laws : SendLaws ok sent) (ctx : SendCtx) (buf : Bytes) {s : σ}
    (hs : ok s) :
    ∃ s', sendMessage ctx buf s = ((buf.length : Int),
        { ctx with buffer := (asyncSendMessage ctx.buffer buf).2 }, s') ∧
      ok s' ∧ sent s' = sent s ++ (asyncSendMessage ctx.buffer buf).1.flatten := by
  -- the block that empties the buffer writes the one put
  obtain ⟨s₁, hpack, hok, hsent⟩ : ∃ s₁,
      sendPacked ctx.buffer s = (0, (putPacked ctx.buffer).2, s₁) ∧ ok s₁ ∧
        sent s₁ = sent s ++ (putPacked ctx.buffer).1.flatten := by
    unfold sendPacked putPacked
    split
    · exact ⟨s, rfl, hs, by simp⟩
    · have hret := laws.sendEx_fst s ctx.buffer.pack.data hs
      refine ⟨(ChannelStream.sendEx s ctx.buffer.pack.data).2, ?_, laws.ok_sendEx _ _ hs, ?_⟩
      · simp [hret]
      · simp [laws.sent_sendEx _ _ hs]
  unfold sendMessage asyncSendMessage
  rw [hpack]
  by_cases hlen : buf.length = 0
  · refine ⟨s₁, by simp [hlen], hok, by simpa [hlen] using hsent⟩
  · have hpos : 0 < buf.length := by omega
    simp only [hlen, if_false, hpos, decide_true, Bool.true_and, if_true, Int.lt_irrefl]
    by_cases hfit : ctx.buffer.canPut buf.length = true
    · simp only [hfit, if_true]
      exact ⟨s, rfl, hs, by simp⟩
    · by_cases hfit' : (putPacked ctx.buffer).2.canPut buf.length = true
      · simp only [hfit, hfit', Bool.false_eq_true, if_false, if_true]
        exact ⟨s₁, rfl, hok, hsent⟩
      · -- the message goes out in a buffer of its own
        simp only [hfit, hfit', Bool.false_eq_true, if_false]
        obtain ⟨tmp, rest⟩ := SendBuffer.newFrom buf.length (putPacked ctx.buffer).2
        generalize (tmp.put buf).pack.data = frame
        have hret := laws.sendEx_fst s₁ frame hok
        have hwrote := laws.sent_sendEx s₁ frame hok
        have hok' := laws.ok_sendEx s₁ frame hok
        generalize ChannelStream.sendEx s₁ frame = wrote at hret hwrote hok'
        obtain ⟨ret, s₂⟩ := wrote
        have hret : ret = frame.length := hret
        refine ⟨s₂, ?_, hok', ?_⟩
        · simp [hret]
        · rw [hwrote, hsent]
          simp

/-- On any stream, the synchronous call changes nothing of the context but the buffer. -/
theorem sendMessage_ctx (ctx : SendCtx) (buf : Bytes) (s : σ) :
    (sendMessage ctx buf s).2.1.async = ctx.async ∧
      (sendMessage ctx buf s).2.1.flushCtx = ctx.flushCtx := by
  unfold sendMessage
  split
  · exact ⟨rfl, rfl⟩
  · obtain ⟨ret, sendBuffer, stream⟩ := sendPacked ctx.buffer s
    simp only
    split
    · exact ⟨rfl, rfl⟩
    · split
      · exact ⟨rfl, rfl⟩
      · split
        · split <;> exact ⟨rfl, rfl⟩
        · exact ⟨rfl, rfl⟩

/-- `SendMessage` for `msgs` one after the other. -/
def sendAll (ctx : SendCtx) : List Bytes → σ → SendCtx × σ
  | [], stream => (ctx, stream)
  | m :: msgs, stream =>
    let (_, ctx, stream) := sendMessage ctx m stream
    sendAll ctx msgs stream

theorem sendAll_spec (laws : SendLaws ok sent) (ctx : SendCtx) (msgs : List Bytes) {s : σ}
    (hs : ok s) :
    ∃ s', sendAll ctx msgs s = ({ ctx with buffer := (packAll ctx.buffer msgs).2 }, s') ∧
      ok s' ∧ sent s' = sent s ++ (packAll ctx.buffer msgs).1.flatten := by
  induction msgs generalizing ctx s with
  | nil => exact ⟨s, rfl, hs, by simp [packAll]⟩
  | cons m msgs ih =>
    obtain ⟨s₁, hsend, hok, hsent⟩ := sendMessage_spec laws ctx m hs
    obtain ⟨s₂, hall, hok', hsent'⟩ :=
      ih { ctx with buffer := (asyncSendMessage ctx.buffer m).2 } hok
    refine ⟨s₂, ?_, hok', ?_⟩
    · rw [sendAll, hsend]
      exact hall
    · rw [hsent', hsent, List.append_assoc, ← List.flatten_append]
      rfl

end

end ZktlsNet
