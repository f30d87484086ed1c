import ZktlsNet.Ws.RecvMessage

/-!
# Which frames are accepted

The length of a frame is 64 bits wide and comes from the peer. It is added to the size
of the list node for `malloc`, whose result is not tested, and compared with the number
of bytes received after both have become an `int`.

- `announced`: what the bytes in front of a stream announce.
- `recvPayload_of_announced`: how reading such a frame ends where there is memory for it;
  `recvPayload_null`: how it ends where `malloc` returns null.
- `acceptance_iff`: which frames are accepted exactly when they are complete, into an
  allocation that has room for them.
-/

namespace ZktlsNet

open NetLib

/-- The two `RecvMessage` functions, which read frames in the same way. -/
inductive RecvOverload
  /-- `RecvMessage(ctx, buf, len, stream)` -/
  | next
  /-- `RecvMessage(ctx, id, stream)` -/
  | byId
  deriving DecidableEq, Repr

/-- `sizeof(RecvBuffer)`. -/
def sizeofRecvBuffer : Nat := 16

/-- What stands in front of the payload in the allocation. -/
def RecvOverload.head : RecvOverload → Nat
  | .next => recvListSize
  | .byId => recvListSize + sizeofRecvBuffer

/-- The header in front of the bytes, and what is behind it; `none` if it is cut off. -/
def announced (bs : Bytes) : Option (MessageHeader × Bytes) :=
  let header := WebSocketMessageHeader.read (bs.take 2)
  let headerSize := 2 + (header.lengthSize + header.maskLength)
  if headerSize ≤ bs.length then some (header.decode (bs.take headerSize), bs.drop headerSize)
  else none

/-- A length that is short of the announced one does not look complete to the test. -/
def Noticed (received dataLen : Nat) : Prop :=
  dataLen ≤ received ∨ received % 2 ^ 32 ≠ dataLen % 2 ^ 32

instance (received dataLen : Nat) : Decidable (Noticed received dataLen) :=
  inferInstanceAs (Decidable (_ ∨ _))

/-- Nothing is written to the chunk of the frame: it has no mask to be taken off, no byte
of it comes, and the test sees that bytes are missing. -/
def Untouched (header : MessageHeader) (rest : Bytes) : Prop :=
  header.isMasked = false ∧ rest = [] ∧ header.dataLen % 2 ^ 32 ≠ 0

instance (header : MessageHeader) (rest : Bytes) : Decidable (Untouched header rest) :=
  inferInstanceAs (Decidable (_ ∧ _))

section

variable {σ : Type} [ChannelStream σ] (pending : σ → Bytes) (malloc : Nat → Bool)

/-- A frame is accepted only when all of it has been received, into an allocation that
has room for all of it; otherwise an exception is thrown. -/
def AcceptsExactly (head : Nat) (s : σ) : Prop :=
  match announced (pending s) with
  | none => ∃ x s', recvPayload malloc head s = (.error (.thrown x), s')
  | some (header, rest) => head + header.dataLen < 2 ^ 64 ∧
    ((∃ x s', recvPayload malloc head s = (.error (.thrown x), s')) ∨
      ∃ data s', recvPayload malloc head s = (.ok (header.dataLen, data), s') ∧
        data.length = header.dataLen ∧ header.dataLen ≤ rest.length ∧
        pending s' = rest.drop header.dataLen)

variable {pending malloc}

/-- **What `RecvMessageHeader` reads** is what the pending bytes announce. -/
theorem recvMessageHeader_announced (laws : RecvLaws pending) (s : σ) :
    match announced (pending s) with
    | none => ∃ x s', recvMessageHeader s = (.error (.thrown x), s')
    | some (header, rest) =>
      ∃ s', recvMessageHeader s = (.ok header, s') ∧ pending s' = rest := by
  unfold announced
  dsimp only
  generalize hextra : (WebSocketMessageHeader.read ((pending s).take 2)).lengthSize +
    (WebSocketMessageHeader.read ((pending s).take 2)).maskLength = extraSize
  by_cases hlen : 2 + extraSize ≤ (pending s).length
  · rw [if_pos hlen]
    have hsplit : pending s = (pending s).take 2 ++
        (((pending s).drop 2).take extraSize ++ (pending s).drop (2 + extraSize)) := by
      rw [← List.drop_drop, List.take_append_drop, List.take_append_drop]
    obtain ⟨s', hread, hrest⟩ := recvMessageHeader_whole laws ((pending s).take 2) hsplit
      (by simp; omega) (by rw [hextra, List.length_take, List.length_drop]; omega)
    refine ⟨s', ?_, hrest⟩
    rw [hread, List.take_add]
  · rw [if_neg hlen]
    have hfirst := laws.recvEx_fst s 2
    have hpending := laws.pending_recvEx s 2
    unfold recvMessageHeader
    generalize ChannelStream.recvEx s 2 = read at hfirst hpending ⊢
    obtain ⟨headerData, stream⟩ := read
    dsimp only at hfirst hpending ⊢
    subst hfirst
    split
    · exact ⟨_, _, rfl⟩
    · rename_i htwo
      rw [hextra]
      have htwo' : 2 ≤ (pending s).length := by
        simp only [List.length_take] at htwo
        omega
      rw [if_pos (by omega)]
      have hsecond := laws.recvEx_fst stream extraSize
      generalize ChannelStream.recvEx stream extraSize = read at hsecond ⊢
      obtain ⟨extra, stream'⟩ := read
      dsimp only at hsecond ⊢
      rw [if_pos]
      · exact ⟨_, _, rfl⟩
      · rw [hsecond, hpending, List.length_take, List.length_drop]
        omega

/-- Unmasking changes no length. -/
theorem unMaskData_length (buf : Bytes) (mask : Nat) :
    (unMaskData buf mask).length = buf.length := by
  suffices h : ∀ words (bs : Bytes), bs.length / 4 = words →
      (unMaskWords mask words bs).length = bs.length from h _ buf rfl
  intro words
  induction words with
  | zero =>
    intro bs hlen
    rw [unMaskWords, List.length_zipWith, toLE_length]
    omega
  | succ words ih =>
    intro bs hlen
    rw [unMaskWords, List.length_append, toLE_length, ih _ (by rw [List.length_drop]; omega),
      List.length_drop]
    omega

section

variable {head : Nat} {s : σ} {header : MessageHeader} {rest : Bytes}

/-- **Reading a frame** whose size does not wrap and for which there is memory: what has
been received is accepted if its length agrees with the announced one in the low 32
bits. -/
theorem recvPayload_of_announced (laws : RecvLaws pending)
    (hs : announced (pending s) = some (header, rest)) (hwrap : head + header.dataLen < 2 ^ 64)
    (hmalloc : malloc (head + header.dataLen) = true) :
    ∃ s', pending s' = rest.drop header.dataLen ∧
      (((rest.take header.dataLen).length % 2 ^ 32 ≠ header.dataLen % 2 ^ 32 ∧
        ∃ x, recvPayload malloc head s = (.error (.thrown x), s')) ∨
      ((rest.take header.dataLen).length % 2 ^ 32 = header.dataLen % 2 ^ 32 ∧
        ∃ data, data.length = (rest.take header.dataLen).length ∧
          recvPayload malloc head s = (.ok (header.dataLen, data), s'))) := by
  have hread := recvMessageHeader_announced laws s
  rw [hs] at hread
  obtain ⟨s₁, hheader, hrest⟩ := hread
  have hfst := laws.recvEx_fst s₁ header.dataLen
  have hpending := laws.pending_recvEx s₁ header.dataLen
  rw [hrest] at hfst hpending
  refine ⟨(ChannelStream.recvEx s₁ header.dataLen).2, hpending, ?_⟩
  have htouched : ¬ (0 < (if header.isMasked then header.dataLen
        else (rest.take header.dataLen).length) ∧
      head + header.dataLen < head +
        (if header.isMasked then header.dataLen else (rest.take header.dataLen).length)) := by
    have htake : (rest.take header.dataLen).length ≤ header.dataLen := List.length_take_le ..
    split <;> omega
  have hnode : ¬ head + header.dataLen < head := by omega
  unfold recvPayload
  rw [hheader]
  dsimp only
  rw [hfst, Nat.mod_eq_of_lt hwrap, if_pos hmalloc, if_neg htouched]
  by_cases hcomplete : (rest.take header.dataLen).length % 2 ^ 32 = header.dataLen % 2 ^ 32
  · refine .inr ⟨hcomplete, _, ?_, by rw [if_neg (not_not.mpr hcomplete), if_neg hnode]⟩
    split
    · exact unMaskData_length ..
    · rfl
  · exact .inl ⟨hcomplete, _, if_pos hcomplete⟩

/-- **Without memory** the process dies at the first byte that is written to the chunk. -/
theorem recvPayload_null (laws : RecvLaws pending) (hhead : 0 < head)
    (hs : announced (pending s) = some (header, rest)) (hwrap : head + header.dataLen < 2 ^ 64)
    (hmalloc : malloc (head + header.dataLen) = false) :
    (Untouched header rest → ∃ x s', recvPayload malloc head s = (.error (.thrown x), s')) ∧
      (¬ Untouched header rest →
        ∃ s', recvPayload malloc head s = (.error (.fault .outOfBounds), s')) := by
  have hread := recvMessageHeader_announced laws s
  rw [hs] at hread
  obtain ⟨s₁, hheader, hrest⟩ := hread
  have hfst := laws.recvEx_fst s₁ header.dataLen
  rw [hrest] at hfst
  unfold recvPayload
  rw [hheader]
  dsimp only
  rw [hfst, Nat.mod_eq_of_lt hwrap, hmalloc, if_neg Bool.false_ne_true]
  constructor
  · rintro ⟨hmask, rfl, hlen⟩
    rw [hmask, if_neg Bool.false_ne_true, List.take_nil, List.length_nil,
      if_neg (fun h => Nat.lt_irrefl 0 h.1), Nat.zero_mod, if_pos (Ne.symm hlen)]
    exact ⟨_, _, rfl⟩
  · intro htouched
    refine ⟨(ChannelStream.recvEx s₁ header.dataLen).2, ?_⟩
    by_cases hwrites : 0 < (if header.isMasked then header.dataLen
      else (rest.take header.dataLen).length)
    · exact if_pos ⟨hwrites, by omega⟩
    · -- nothing was written so far, so the first write is that of `next`
      have hequal : ¬ (rest.take header.dataLen).length % 2 ^ 32 ≠ header.dataLen % 2 ^ 32 := by
        intro hne
        have htake : (rest.take header.dataLen).length = min header.dataLen rest.length :=
          List.length_take
        cases hmask : header.isMasked with
        | true =>
          rw [hmask, if_pos rfl] at hwrites
          exact hne (by rw [show header.dataLen = 0 by omega, List.take_zero]; rfl)
        | false =>
          rw [hmask, if_neg Bool.false_ne_true] at hwrites
          have hzero : (rest.take header.dataLen).length = 0 := by omega
          rw [hzero] at hne
          have hlen : header.dataLen ≠ 0 := fun h => hne (by rw [h])
          exact htouched ⟨hmask, List.length_eq_zero_iff.mp (by omega), Ne.symm hne⟩
      rw [if_neg fun h => hwrites h.1, if_neg hequal, if_pos hhead]

/-- **Which frames** are accepted exactly. -/
theorem acceptsExactly_iff (laws : RecvLaws pending) (hhead : 0 < head) (s : σ) :
    AcceptsExactly pending malloc head s ↔
      ∀ header rest, announced (pending s) = some (header, rest) →
        head + header.dataLen < 2 ^ 64 ∧ Noticed rest.length header.dataLen ∧
          (malloc (head + header.dataLen) = true ∨ Untouched header rest) := by
  unfold AcceptsExactly
  have hread := recvMessageHeader_announced laws s
  cases hs : announced (pending s) with
  | none =>
    rw [hs] at hread
    obtain ⟨x, s', hheader⟩ := hread
    simp only [reduceCtorEq, false_implies, implies_true, iff_true]
    exact ⟨x, s', by simp only [recvPayload, hheader]⟩
  | some front =>
    obtain ⟨header, rest⟩ := front
    dsimp only
    constructor
    · rintro ⟨hwrap, hend⟩ header' rest' heq
      cases heq
      cases hmalloc : malloc (head + header.dataLen) with
      | false =>
        have hnull := recvPayload_null laws hhead hs hwrap hmalloc
        by_cases htouched : Untouched header rest
        · have hnoticed : Noticed rest.length header.dataLen := by
            rw [htouched.2.1]
            exact .inr (Ne.symm htouched.2.2)
          exact ⟨hwrap, hnoticed, .inr htouched⟩
        · obtain ⟨s', hfault⟩ := hnull.2 htouched
          rcases hend with ⟨x, s'', herror⟩ | ⟨data, s'', hok, -⟩
          · rw [hfault] at herror
            cases congrArg Prod.fst herror
          · rw [hfault] at hok
            cases congrArg Prod.fst hok
      | true =>
        refine ⟨hwrap, ?_, .inl rfl⟩
        by_contra hshort
        simp only [Noticed, not_or, Nat.not_le, not_not] at hshort
        obtain ⟨s', -, hread⟩ := recvPayload_of_announced laws hs hwrap hmalloc
        have htake : (rest.take header.dataLen).length = rest.length := by
          rw [List.take_of_length_le (by omega)]
        rw [htake] at hread
        -- a short read is accepted
        rcases hread with ⟨hne, -⟩ | ⟨-, data, hdata, hok⟩
        · exact hne hshort.2
        · rcases hend with ⟨x, s'', herror⟩ | ⟨data', s'', -, -, hle, -⟩
          · rw [hok] at herror
            cases congrArg Prod.fst herror
          · omega
    · intro hall
      obtain ⟨hwrap, hnoticed, hmalloc⟩ := hall header rest rfl
      refine ⟨hwrap, ?_⟩
      cases hmem : malloc (head + header.dataLen) with
      | false =>
        have htouched := hmalloc.resolve_left (by rw [hmem]; exact Bool.false_ne_true)
        exact .inl ((recvPayload_null laws hhead hs hwrap hmem).1 htouched)
      | true =>
        obtain ⟨s', hpending, hread⟩ := recvPayload_of_announced laws hs hwrap hmem
        rcases hread with ⟨-, x, herror⟩ | ⟨hcomplete, data, hdata, hok⟩
        · exact .inl ⟨x, s', herror⟩
        · have hle : header.dataLen ≤ rest.length := by
            by_contra hshort
            rw [List.take_of_length_le (by omega)] at hcomplete
            rcases hnoticed with hle | hne
            · omega
            · exact hne hcomplete
          refine .inr ⟨data, s', hok, ?_, hle, hpending⟩
          rw [hdata, List.length_take]
          omega

end

end

/-- **Frame acceptance** on a socket, for every stream of a peer and wherever it ends,
whichever sizes `malloc` serves. -/
theorem acceptance_iff (malloc : Nat → Bool) (o : RecvOverload) (s : SocketStream) :
    AcceptsExactly SocketStream.pending malloc o.head s ↔
      ∀ header rest, announced s.pending = some (header, rest) →
        o.head + header.dataLen < 2 ^ 64 ∧ Noticed rest.length header.dataLen ∧
          (malloc (o.head + header.dataLen) = true ∨ Untouched header rest) :=
  acceptsExactly_iff SocketStream.recvLaws (by cases o <;> decide) s

/-- A frame of 2^32 + 3 bytes of which three arrive, one of 2^64 - 8 bytes, whose
allocation has no bytes at all, and one of 2^62 bytes, for which there is no memory. -/
theorem acceptance_not_exact :
    let malloc : Nat → Bool := fun size => decide (size < 2 ^ 47)
    let stream (bs : Bytes) : SocketStream := .ofSocket (.ofBytes bs) .clientToPado
    ¬ AcceptsExactly SocketStream.pending malloc RecvOverload.next.head
      (stream [0x82, 127, 0, 0, 0, 1, 0, 0, 0, 3, 7, 7, 7]) ∧
    ¬ AcceptsExactly SocketStream.pending malloc RecvOverload.next.head
      (stream [0x82, 127, 255, 255, 255, 255, 255, 255, 255, 248, 7]) ∧
    ¬ AcceptsExactly SocketStream.pending malloc RecvOverload.next.head
      (stream [0x82, 127, 64, 0, 0, 0, 0, 0, 0, 0, 7, 7, 7]) := by
  refine ⟨?_, ?_, ?_⟩
  · intro hexact
    rw [acceptsExactly_iff SocketStream.recvLaws (by decide)] at hexact
    obtain ⟨-, hnoticed, -⟩ := hexact ⟨2 ^ 32 + 3, false, 0⟩ [7, 7, 7] (by decide)
    exact absurd hnoticed (by decide)
  · intro hexact
    rw [acceptsExactly_iff SocketStream.recvLaws (by decide)] at hexact
    obtain ⟨hwrap, -⟩ := hexact ⟨2 ^ 64 - 8, false, 0⟩ [7] (by decide)
    exact absurd hwrap (by decide)
  · intro hexact
    rw [acceptsExactly_iff SocketStream.recvLaws (by decide)] at hexact
    obtain ⟨-, -, hmalloc⟩ := hexact ⟨2 ^ 62, false, 0⟩ [7, 7, 7] (by decide)
    exact absurd hmalloc (by decide)

end ZktlsNet
