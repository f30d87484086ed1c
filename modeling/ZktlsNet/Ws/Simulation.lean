import ZktlsNet.Ws.RecvMessage

/-!
# The same reads from two streams

What the receiving side does is made of `RecvEx` alone. So if the reads of two
streams agree, everything above them agrees: the header, the frame, the call.

- `Agree`: two things done end the same, unless the first of the streams is `dead`.
- `ReadsAgree`: the single reads agree.
- `ReadsAgree.header`, `ReadsAgree.payload`, `ReadsAgree.frame`: so does what is made of
  them.
-/

namespace ZktlsNet

open NetLib

variable {σ τ α : Type}

/-- What was done on two streams ended the same way and leaves them related, unless
the first of them is `dead`. -/
def Agree (R : σ → τ → Prop) (dead : σ → Prop) (x : α × σ) (y : α × τ) : Prop :=
  dead x.2 ∨ x.1 = y.1 ∧ R x.2 y.2

variable [ChannelStream σ] [ChannelStream τ]

/-- The reads of two streams agree, and a dead stream stays dead. -/
structure ReadsAgree (R : σ → τ → Prop) (dead : σ → Prop) : Prop where
  recvEx (s : σ) (t : τ) (n : Nat) : R s t →
    Agree R dead (ChannelStream.recvEx s n) (ChannelStream.recvEx t n)
  dead_recvEx (s : σ) (n : Nat) : dead s → dead (ChannelStream.recvEx s n).2
  connectionType (s : σ) (t : τ) : R s t →
    ChannelStream.connectionType s = ChannelStream.connectionType t

namespace ReadsAgree

variable {R : σ → τ → Prop} {dead : σ → Prop}

theorem throw (h : ReadsAgree R dead) {s : σ} {t : τ} (hst : R s t) (desc : String) :
    ChannelStream.throwConnectionError s desc = ChannelStream.throwConnectionError t desc := by
  rw [ChannelStream.throwConnectionError, ChannelStream.throwConnectionError,
    h.connectionType s t hst]

/-- Reading a header. -/
theorem header (h : ReadsAgree R dead) {s : σ} {t : τ} (hst : R s t) :
    Agree R dead (recvMessageHeader s) (recvMessageHeader t) := by
  have hfirst := h.recvEx s t 2 hst
  have hdead := h.dead_recvEx
  unfold recvMessageHeader
  generalize ChannelStream.recvEx s 2 = x at hfirst ⊢
  generalize ChannelStream.recvEx t 2 = y at hfirst ⊢
  obtain ⟨data, s₁⟩ := x
  obtain ⟨data', t₁⟩ := y
  rcases hfirst with hs₁ | ⟨heq, hrel⟩
  · left
    have hextra := hdead s₁ ((WebSocketMessageHeader.read data).lengthSize +
      (WebSocketMessageHeader.read data).maskLength) hs₁
    simp only
    split
    · exact hs₁
    · split
      · split <;> exact hextra
      · exact hs₁
  · obtain rfl : data = data' := heq
    have hsecond := h.recvEx s₁ t₁ ((WebSocketMessageHeader.read data).lengthSize +
      (WebSocketMessageHeader.read data).maskLength) hrel
    simp only
    split
    · exact .inr ⟨by rw [h.throw hrel], hrel⟩
    · split
      · generalize ChannelStream.recvEx s₁ _ = x at hsecond ⊢
        generalize ChannelStream.recvEx t₁ _ = y at hsecond ⊢
        obtain ⟨extra, s₂⟩ := x
        obtain ⟨extra', t₂⟩ := y
        rcases hsecond with hs₂ | ⟨heq, hrel⟩
        · left
          simp only
          split <;> exact hs₂
        · obtain rfl : extra = extra' := heq
          simp only
          split
          · exact .inr ⟨by rw [h.throw hrel], hrel⟩
          · exact .inr ⟨rfl, hrel⟩
      · exact .inr ⟨rfl, hrel⟩

/-- Reading a frame into memory. -/
theorem payload (h : ReadsAgree R dead) (malloc : Nat → Bool) (head : Nat) {s : σ} {t : τ}
    (hst : R s t) : Agree R dead (recvPayload malloc head s) (recvPayload malloc head t) := by
  have hheader := h.header hst
  have hdead := h.dead_recvEx
  unfold recvPayload
  generalize recvMessageHeader s = x at hheader ⊢
  generalize recvMessageHeader t = y at hheader ⊢
  obtain ⟨res, s₁⟩ := x
  obtain ⟨res', t₁⟩ := y
  rcases hheader with hs₁ | ⟨heq, hrel⟩
  · left
    cases res with
    | error e => exact hs₁
    | ok header =>
      simp only [apply_ite Prod.snd, ite_self]
      exact hdead s₁ header.dataLen hs₁
  · obtain rfl : res = res' := heq
    cases res with
    | error e => exact .inr ⟨rfl, hrel⟩
    | ok header =>
      have hbody := h.recvEx s₁ t₁ header.dataLen hrel
      simp only
      generalize ChannelStream.recvEx s₁ header.dataLen = x at hbody ⊢
      generalize ChannelStream.recvEx t₁ header.dataLen = y at hbody ⊢
      obtain ⟨received, s₂⟩ := x
      obtain ⟨received', t₂⟩ := y
      rcases hbody with hs₂ | ⟨heq, hrel⟩
      · left
        simp only [apply_ite Prod.snd, ite_self]
        exact hs₂
      · obtain rfl : received = received' := heq
        right
        simp only [apply_ite Prod.snd, apply_ite Prod.fst, ite_self, h.throw hrel]
        exact ⟨trivial, hrel⟩

theorem frame (h : ReadsAgree R dead) {s : σ} {t : τ} (hst : R s t) :
    Agree R dead (recvFrame s) (recvFrame t) := by
  have hbody := h.payload (fun _ => true) recvListSize hst
  unfold recvFrame
  generalize recvPayload _ recvListSize s = x at hbody ⊢
  generalize recvPayload _ recvListSize t = y at hbody ⊢
  obtain ⟨res, s₁⟩ := x
  obtain ⟨res', t₁⟩ := y
  rcases hbody with hs₁ | ⟨heq, hrel⟩
  · left
    cases res <;> exact hs₁
  · obtain rfl : res = res' := heq
    cases res <;> exact .inr ⟨rfl, hrel⟩

end ReadsAgree

end ZktlsNet
