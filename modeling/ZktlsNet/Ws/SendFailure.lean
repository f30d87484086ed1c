import ZktlsNet.Ws.SendMessage

/-!
# Writes that fail (`ws.cpp:350-380`, `ws.h:67-150`)

`pack` and the constructor for an oversize message count the id up before the
write is attempted, and the error returns of `SendMessage` do not count it down
again. So it is the attempts that are numbered, not the frames that arrive.

- `sendMessage_attempts`: one call, on any stream. No byte is lost or sent twice,
  and the id goes up with every attempt.
- `taken_written_iff`: the frames that were taken are numbered without a gap
  exactly when no write succeeds behind a failed one (modulo the wrap of the id).
- `sendMessage_failure`: a failed call never leaves the id it found; and what
  becomes of a run.
-/

namespace ZktlsNet

open NetLib

/-! ## Attempts -/

/-- `log` is the record of the writes a stream was asked for, with their results. -/
structure LogLaws {σ : Type} [ChannelStream σ] (log : σ → List (Bytes × Int)) : Prop where
  log_sendEx (s : σ) (bs : Bytes) :
    log (ChannelStream.sendEx s bs).2 = log s ++ [(bs, (ChannelStream.sendEx s bs).1)]

theorem SocketStream.logLaws : LogLaws fun s : SocketStream => s.socket.log where
  log_sendEx s bs := s.socket.send_log bs

/-- Those of the buffers that came to a result that is not negative. -/
def taken (ws : List (Bytes × Int)) : List Bytes :=
  (ws.filter fun w => 0 ≤ w.2).map Prod.fst

/-- How many writes failed. -/
def failures (ws : List (Bytes × Int)) : Nat := ws.countP fun w => w.2 < 0

/-- The writes for payloads that are numbered from the id after `id` on, whatever
becomes of them. -/
def written (id : Nat) : List (Bytes × Int) → List (Bytes × Int)
  | [] => []
  | (p, ret) :: as => (chunkFrame ((id + 1) % 2 ^ 64) p, ret) :: written ((id + 1) % 2 ^ 64) as

section

variable {p : Bytes} {ret : Int} {ws : List (Bytes × Int)}

@[simp] theorem taken_nil : taken [] = [] := rfl

theorem taken_cons_of_nonneg (h : 0 ≤ ret) : taken ((p, ret) :: ws) = p :: taken ws := by
  simp [taken, h]

theorem taken_cons_of_neg (h : ret < 0) : taken ((p, ret) :: ws) = taken ws := by
  simp [taken, h]

theorem taken_append (vs ws : List (Bytes × Int)) : taken (vs ++ ws) = taken vs ++ taken ws := by
  simp [taken]

@[simp] theorem failures_nil : failures [] = 0 := rfl

theorem failures_cons_of_nonneg (h : 0 ≤ ret) : failures ((p, ret) :: ws) = failures ws := by
  simp [failures, h]

theorem failures_cons_of_neg (h : ret < 0) : failures ((p, ret) :: ws) = failures ws + 1 := by
  simp [failures, h]

theorem failures_append (vs ws : List (Bytes × Int)) :
    failures (vs ++ ws) = failures vs + failures ws := List.countP_append

/-- A write is taken or fails. -/
theorem length_eq_taken_add_failures (ws : List (Bytes × Int)) :
    ws.length = (taken ws).length + failures ws := by
  induction ws with
  | nil => rfl
  | cons w ws ih =>
    obtain ⟨p, ret⟩ := w
    by_cases h : 0 ≤ ret
    · rw [taken_cons_of_nonneg h, failures_cons_of_nonneg h, List.length_cons, List.length_cons, ih]
      omega
    · rw [taken_cons_of_neg (by omega), failures_cons_of_neg (by omega), List.length_cons, ih]
      omega

theorem written_append (id : Nat) (as bs : List (Bytes × Int)) :
    written id (as ++ bs) = written id as ++ written (lastId id as.length) bs := by
  induction as generalizing id with
  | nil => rfl
  | cons a as ih => rw [List.cons_append, written, written, ih, List.cons_append]; rfl

theorem lastId_succ (id n : Nat) : lastId id (n + 1) = (lastId id n + 1) % 2 ^ 64 :=
  lastId_add id n 1

end

/-! ## One call -/

/-- What a call with the bytes `buf` and the result `ret` did to the send buffer by
the attempts `as`: each of them used up an id, the payloads that were taken with
what stays in the buffer are what was there and, if the call succeeded, `buf`;
and a call fails with its first failed attempt. -/
structure Attempts (b : SendBuffer) (buf : Bytes) (ret : Int) (as : List (Bytes × Int))
    (b' : SendBuffer) : Prop where
  sendId_eq : b'.sendId = lastId b.sendId as.length
  bytes_eq : (taken as).flatten ++ b'.payload = b.payload ++ if ret < 0 then [] else buf
  failures_eq : failures as = if ret < 0 then 1 else 0

namespace Attempts

theorem put (b : SendBuffer) (buf : Bytes) : Attempts b buf buf.length [] (b.put buf) where
  sendId_eq := rfl
  bytes_eq := by simp
  failures_eq := by simp

theorem trans {b b' b'' : SendBuffer} {buf : Bytes} {ret ret' : Int} {as as' : List (Bytes × Int)}
    (h : Attempts b [] ret as b') (hret : 0 ≤ ret) (h' : Attempts b' buf ret' as' b'') :
    Attempts b buf ret' (as ++ as') b'' := by
  obtain ⟨hid, hbytes, hfail⟩ := h
  obtain ⟨hid', hbytes', hfail'⟩ := h'
  rw [if_neg (by omega)] at hbytes hfail
  rw [List.append_nil] at hbytes
  constructor
  · rw [hid', hid, List.length_append, lastId_add]
  · rw [taken_append, List.flatten_append, List.append_assoc, hbytes', ← List.append_assoc, hbytes]
  · rw [failures_append, hfail, hfail', Nat.zero_add]

end Attempts

theorem SendBuffer.payload_write (b : SendBuffer) {off : Nat} {xs : Bytes} (h2 : 2 ≤ off)
    (h : off + xs.length ≤ headSize) : (b.write off xs h2 h).payload = b.payload :=
  drop_store_of_le (by have := b.room; omega) h

/-- `pack` writes in front of the payload only. -/
theorem SendBuffer.payload_pack (b : SendBuffer) : b.pack.payload = b.payload := by
  have hextra : extraHeaderSize ≤ headSize := by decide
  have hroom := b.setSendId.setLength.room
  obtain ⟨header, packedOffset, -, hoff, -, -, heq⟩ :=
    packHeader_eq (2 * 8 + (b.setSendId.setLength.offset - headSize))
      b.setSendId.setLength.rsv_eq b.setSendId.setLength.mask_eq
  calc b.pack.payload
      = b.setSendId.setLength.payload := by
        show (packHeader _ _).2.drop headSize = _
        rw [heq, drop_store_of_le (by rw [store_length (by omega)]; omega) (by omega),
          drop_store_of_le (Nat.zero_le _) (by omega)]
        rfl
    _ = b.setSendId.payload := payload_write _ (by decide) (by simp [headSize])
    _ = b.payload := payload_write _ (by decide) (by simp [headSize])

section

variable {σ : Type} [ChannelStream σ] {log : σ → List (Bytes × Int)}

/-- The block that writes out a buffer makes one attempt, or none if the buffer is
empty. -/
theorem sendPacked_attempts (laws : LogLaws log) (b : SendBuffer) (s : σ) :
    ∃ as, log (sendPacked b s).2.2 = log s ++ written b.sendId as ∧
      Attempts b [] (sendPacked b s).1 as (sendPacked b s).2.1 ∧ as.length ≤ 1 ∧
      (0 ≤ (sendPacked b s).1 → (sendPacked b s).2.1.payload = []) := by
  unfold sendPacked
  split
  · rename_i he
    exact ⟨[], by simp [written], ⟨rfl, by simp, by simp⟩, by simp, fun _ => b.empty_iff.mp he⟩
  · have hlog := laws.log_sendEx s b.pack.data
    rw [b.data_pack] at hlog
    simp only [b.data_pack]
    generalize ChannelStream.sendEx s _ = wrote at hlog ⊢
    obtain ⟨ret, s'⟩ := wrote
    refine ⟨[(b.payload, ret)], ?_, ?_, Nat.le_refl _, ?_⟩
    · split <;> exact hlog
    · by_cases hret : ret < 0
      · simp only [hret, if_true]
        refine ⟨rfl, ?_, ?_⟩
        · simp [taken_cons_of_neg hret, b.payload_pack]
        · simp [failures_cons_of_neg hret]
      · simp only [hret, if_false]
        refine ⟨rfl, ?_, ?_⟩
        · simp [taken_cons_of_nonneg (not_lt.mp hret)]
        · simp [failures_cons_of_nonneg (not_lt.mp hret)]
    · by_cases hret : ret < 0 <;> simp [hret]

/-- A message in a buffer of its own is one attempt. -/
theorem attempts_alone (b : SendBuffer) (buf : Bytes) (ret : Int) (hb : b.payload = []) :
    Attempts b buf (if ret < 0 then -1 else buf.length) [(buf, ret)]
      (SendBuffer.newFrom buf.length b).2 := by
  by_cases hret : ret < 0
  · refine ⟨rfl, ?_, ?_⟩
    · simp [hret, taken_cons_of_neg hret]
    · simp [hret, failures_cons_of_neg hret]
  · refine ⟨rfl, ?_, ?_⟩
    · simp [hret, taken_cons_of_nonneg (not_lt.mp hret), hb]
    · simp [hret, failures_cons_of_nonneg (not_lt.mp hret)]

/-- **One call**, on any stream. -/
theorem sendMessage_attempts (laws : LogLaws log) (ctx : SendCtx) (buf : Bytes) (s : σ) :
    ∃ as, log (sendMessage ctx buf s).2.2 = log s ++ written ctx.buffer.sendId as ∧
      Attempts ctx.buffer buf (sendMessage ctx buf s).1 as (sendMessage ctx buf s).2.1.buffer ∧
      as.length ≤ 2 := by
  obtain ⟨as, hlog, has, hlen, hempty⟩ := sendPacked_attempts laws ctx.buffer s
  unfold sendMessage
  by_cases hfit : (0 < buf.length && ctx.buffer.canPut buf.length) = true
  · rw [if_pos hfit]
    exact ⟨[], by simp [written], .put .., by simp⟩
  · rw [if_neg hfit]
    generalize sendPacked ctx.buffer s = packed at hlog has hempty ⊢
    obtain ⟨ret, b, s₁⟩ := packed
    simp only at hlog has hempty ⊢
    by_cases hret : ret < 0
    · -- the buffer could not be written out
      simp only [hret, if_true]
      refine ⟨as, hlog, ⟨has.sendId_eq, ?_, ?_⟩, by omega⟩
      · simpa [hret] using has.bytes_eq
      · simpa [hret] using has.failures_eq
    · simp only [hret, if_false]
      have hret : 0 ≤ ret := not_lt.mp hret
      by_cases hfit' : (0 < buf.length && b.canPut buf.length) = true
      · simp only [hfit', if_true]
        have := has.trans hret (.put b buf)
        rw [List.append_nil] at this
        exact ⟨as, hlog, this, by omega⟩
      · simp only [hfit', if_false, Bool.false_eq_true]
        by_cases hpos : 0 < buf.length
        · -- the message goes out in a buffer of its own
          simp only [hpos, if_true]
          have hframe : ((SendBuffer.newFrom buf.length b).1.put buf).pack.data =
              chunkFrame ((b.sendId + 1) % 2 ^ 64) buf := by
            rw [SendBuffer.data_pack, SendBuffer.payload_put]
            rfl
          have hlog' := laws.log_sendEx s₁ (chunkFrame ((b.sendId + 1) % 2 ^ 64) buf)
          rw [hframe]
          generalize ChannelStream.sendEx s₁ _ = wrote at hlog' ⊢
          obtain ⟨ret', s₂⟩ := wrote
          have halone := has.trans hret (attempts_alone b buf ret' (hempty hret))
          refine ⟨as ++ [(buf, ret')], ?_, ?_, by simp; omega⟩
          · rw [written_append, ← has.sendId_eq, ← List.append_assoc, ← hlog]
            split <;> exact hlog'
          · by_cases hret' : ret' < 0
            · simp only [hret', if_true] at halone ⊢
              exact halone
            · simp only [hret', if_false] at halone ⊢
              exact halone
        · -- a flush
          simp only [hpos, if_false]
          have hnil : buf = [] := List.length_eq_zero_iff.mp (by omega)
          subst hnil
          refine ⟨as, hlog, ⟨has.sendId_eq, ?_, ?_⟩, by omega⟩
          · simpa [not_lt.mpr hret] using has.bytes_eq
          · simpa [not_lt.mpr hret] using has.failures_eq

end

/-! ## A run -/

/-- Frames of one payload differ if their ids do. -/
theorem chunkFrame_inj {i j : Nat} {p : Bytes} (hi : i < 2 ^ 64) (hj : j < 2 ^ 64) :
    chunkFrame i p = chunkFrame j p ↔ i = j := by
  constructor
  · intro h
    simp only [chunkFrame, RecvBuffer.build, List.append_assoc, List.cons_append, List.cons.injEq,
      true_and, List.append_cancel_left_eq, List.append_cancel_right_eq] at h
    have := congrArg ofLE h
    rwa [ofLE_toLE_of_lt (by simpa using hi), ofLE_toLE_of_lt (by simpa using hj)] at this
  · rintro rfl
    rfl

/-- A write that is taken has no failed one before it, as far as the 64 bits of the
id can tell; `before` of them lie before the list. -/
def NoneTakenAfter (before : Nat) (as : List (Bytes × Int)) : Prop :=
  ∀ pre a post, as = pre ++ a :: post → 0 ≤ a.2 → (before + failures pre) % 2 ^ 64 = 0

theorem noneTakenAfter_cons {before : Nat} {a : Bytes × Int} {as : List (Bytes × Int)} :
    NoneTakenAfter before (a :: as) ↔
      (0 ≤ a.2 → before % 2 ^ 64 = 0) ∧ NoneTakenAfter (before + failures [a]) as := by
  constructor
  · intro h
    refine ⟨h [] a as rfl, ?_⟩
    rintro pre a' post rfl hret
    have := h (a :: pre) a' post rfl hret
    rwa [← List.singleton_append, failures_append, ← Nat.add_assoc] at this
  · rintro ⟨hhead, htail⟩ (_ | ⟨b, pre⟩) a' post heq hret
    · obtain ⟨rfl, rfl⟩ := List.cons.inj heq
      exact hhead hret
    · obtain ⟨rfl, rfl⟩ := List.cons.inj heq
      rw [← List.singleton_append, failures_append, ← Nat.add_assoc]
      exact htail pre a' post rfl hret

/-- **The frames that were taken** are numbered as if there had been no others
exactly when none of them comes after a failed write. `id` is ahead of the
gapless numbering by the failures so far. -/
theorem taken_written_iff (as : List (Bytes × Int)) (id next before : Nat)
    (hid : id % 2 ^ 64 = (next + before) % 2 ^ 64) :
    taken (written id as) = chunkFrames next (taken as) ↔ NoneTakenAfter before as := by
  induction as generalizing id next before with
  | nil => simp [written, chunkFrames, NoneTakenAfter]
  | cons a as ih =>
    obtain ⟨p, ret⟩ := a
    rw [written, noneTakenAfter_cons]
    by_cases hret : 0 ≤ ret
    · rw [taken_cons_of_nonneg hret, taken_cons_of_nonneg hret, chunkFrames, List.cons.injEq,
        chunkFrame_inj (Nat.mod_lt _ (by decide)) (Nat.mod_lt _ (by decide)),
        failures_cons_of_nonneg hret, failures_nil, Nat.add_zero,
        ih _ ((next + 1) % 2 ^ 64) before (by omega)]
      refine and_congr_left fun _ => ⟨fun h _ => by omega, fun h => ?_⟩
      have := h hret
      omega
    · have hneg : ret < 0 := not_le.mp hret
      rw [taken_cons_of_neg hneg, taken_cons_of_neg hneg, failures_cons_of_neg hneg, failures_nil,
        ih _ next (before + 1) (by omega)]
      exact ⟨fun h => ⟨fun hpos => absurd hpos hret, h⟩, And.right⟩

section

variable {σ : Type} [ChannelStream σ] {log : σ → List (Bytes × Int)}

/-- `SendMessage` for `msgs` one after the other, each with its result. -/
def sendEach (ctx : SendCtx) : List Bytes → σ → List (Bytes × Int) × SendCtx × σ
  | [], stream => ([], ctx, stream)
  | m :: msgs, stream =>
    let (ret, ctx, stream) := sendMessage ctx m stream
    let (rets, ctx, stream) := sendEach ctx msgs stream
    ((m, ret) :: rets, ctx, stream)

/-- **A run**, on any stream: every attempt has the next id, and the payloads that
were taken with what stays in the buffer are the bytes of the successful calls. -/
theorem sendEach_attempts (laws : LogLaws log) (ctx : SendCtx) (msgs : List Bytes) (s : σ) :
    ∃ as, log (sendEach ctx msgs s).2.2 = log s ++ written ctx.buffer.sendId as ∧
      (taken as).flatten ++ (sendEach ctx msgs s).2.1.buffer.payload =
        ctx.buffer.payload ++ (taken (sendEach ctx msgs s).1).flatten := by
  induction msgs generalizing ctx s with
  | nil => exact ⟨[], by simp [sendEach, written], by simp [sendEach]⟩
  | cons m msgs ih =>
    obtain ⟨as, hlog, ⟨hid, hbytes, -⟩, -⟩ := sendMessage_attempts laws ctx m s
    rw [sendEach]
    generalize sendMessage ctx m s = sent at hlog hid hbytes ⊢
    obtain ⟨ret, ctx', s'⟩ := sent
    obtain ⟨as', hlog', hbytes'⟩ := ih ctx' s'
    refine ⟨as ++ as', ?_, ?_⟩
    · show log (sendEach ctx' msgs s').2.2 = _
      rw [hlog', hlog, hid, written_append, List.append_assoc]
    · show _ ++ (sendEach ctx' msgs s').2.1.buffer.payload =
        _ ++ (taken ((m, ret) :: (sendEach ctx' msgs s').1)).flatten
      rw [taken_append, List.flatten_append, List.append_assoc, hbytes', ← List.append_assoc,
        hbytes, List.append_assoc]
      by_cases hret : ret < 0
      · rw [if_pos hret, taken_cons_of_neg hret, List.nil_append]
      · rw [if_neg hret, taken_cons_of_nonneg (not_lt.mp hret), List.flatten_cons]

/-- **Failed writes.** A call that fails never leaves the id it found, nor the one
behind the frames of its own that were taken; its bytes stay out, and the buffered
ones stay in unless they were taken. In a run the payloads that were taken with
what is still in the buffer are the bytes of the successful calls; but the frames
have the ids 1, 2, 3, ... exactly when none is taken after a failed write. -/
theorem sendMessage_failure (laws : LogLaws log) :
    (∀ (ctx : SendCtx) (buf : Bytes) (s : σ), (sendMessage ctx buf s).1 < 0 →
      (sendMessage ctx buf s).2.1.buffer.sendId ≠ ctx.buffer.sendId ∧
      ∃ as, log (sendMessage ctx buf s).2.2 = log s ++ written ctx.buffer.sendId as ∧
        (sendMessage ctx buf s).2.1.buffer.sendId ≠
          lastId ctx.buffer.sendId (taken as).length ∧
        (taken as).flatten ++ (sendMessage ctx buf s).2.1.buffer.payload = ctx.buffer.payload) ∧
    ∀ (calls : List Bytes) (s : σ), ∃ as,
      log (sendEach newSendCtx calls s).2.2 = log s ++ written 0 as ∧
      (taken as).flatten ++ (sendEach newSendCtx calls s).2.1.buffer.payload =
        (taken (sendEach newSendCtx calls s).1).flatten ∧
      (taken (written 0 as) = chunkFrames 0 (taken as) ↔ NoneTakenAfter 0 as) := by
  constructor
  · intro ctx buf s hret
    obtain ⟨as, hlog, ⟨hid, hbytes, hfail⟩, hle⟩ := sendMessage_attempts laws ctx buf s
    rw [if_pos hret] at hbytes hfail
    rw [List.append_nil] at hbytes
    -- one attempt failed, so there is one more than were taken
    have hlen := length_eq_taken_add_failures as
    rw [hfail] at hlen
    rw [hid]
    refine ⟨?_, as, hlog, ?_, hbytes⟩
    · obtain h | h : as.length = 1 ∨ as.length = 2 := by omega
      · rw [h, lastId, lastId]
        omega
      · rw [h, lastId, lastId, lastId]
        omega
    · rw [hlen, lastId_succ]
      omega
  · intro calls s
    obtain ⟨as, hlog, hbytes⟩ := sendEach_attempts laws newSendCtx calls s
    exact ⟨as, hlog, hbytes, taken_written_iff as 0 0 0 rfl⟩

end

/-- The first write of the socket fails, the later ones are whole. -/
private def failsOnce : SocketStream :=
  .ofSocket ⟨[], false, [.fail], []⟩ .clientToPado

/-- A flush of one byte that fails, and a run with the flush tried again. -/
theorem sendMessage_failure_flush :
    (sendMessage (sendEach newSendCtx [[5]] failsOnce).2.1 [] failsOnce).2.1.buffer.sendId ≠ 0 ∧
    ∃ as, (sendEach newSendCtx [[5], [], []] failsOnce).2.2.socket.log = written 0 as ∧
      (taken as).flatten ++
          (sendEach newSendCtx [[5], [], []] failsOnce).2.1.buffer.payload = [5] ∧
      (taken (written 0 as) = chunkFrames 0 (taken as) ↔ NoneTakenAfter 0 as) :=
  ⟨((sendMessage_failure SocketStream.logLaws).1 _ _ _ (by decide)).1,
    (sendMessage_failure SocketStream.logLaws).2 [[5], [], []] failsOnce⟩

/-- The flush that failed has used up the id 1: the first frame that arrives is
numbered 2. -/
theorem failed_flush_skips_id :
    (¬ ∀ (calls : List Bytes) (buf : Bytes) (s : SocketStream),
      let (_, ctx, s') := sendEach newSendCtx calls s
      (sendMessage ctx buf s').1 < 0 →
        (sendMessage ctx buf s').2.1.buffer.sendId = ctx.buffer.sendId) ∧
    ¬ ∀ (calls : List Bytes) (s : SocketStream), s.socket.log = [] →
      ∃ ps, taken (sendEach newSendCtx calls s).2.2.socket.log = chunkFrames 0 ps := by
  constructor
  · intro hall
    exact absurd (hall [[5]] [] failsOnce (by decide)) (by decide)
  · intro hall
    obtain ⟨ps, hps⟩ := hall [[5], [], []] failsOnce rfl
    have hsent : taken (sendEach newSendCtx [[5], [], []] failsOnce).2.2.socket.log =
        [chunkFrame 2 [5]] := by decide
    rw [hsent] at hps
    cases ps with
    | nil => cases hps
    | cons p ps =>
      obtain ⟨hp, -⟩ := List.cons.inj hps
      simp only [chunkFrame, RecvBuffer.build, List.append_assoc] at hp
      -- the payload has one byte, and then the ids differ
      have hlen := congrArg List.length hp
      have h₁ : (lengthAndKey none (16 + [(5 : UInt8)].length)).length = 1 := rfl
      have hpos := (lengthAndKey_length none (16 + p.length)).1
      simp only [List.length_cons, List.length_append, toLE_length, List.length_nil] at hlen h₁
      obtain h | h : p.length = 0 ∨ p.length = 1 := by omega
      · have h₀ : (lengthAndKey none (16 + 0)).length = 1 := rfl
        rw [h] at hlen
        omega
      · rw [h] at hp
        simp only [List.length_singleton, List.cons_append, List.cons.injEq, true_and,
          List.append_cancel_left_eq] at hp
        exact absurd (List.append_inj_left hp rfl) (by decide)

end ZktlsNet
