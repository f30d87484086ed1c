import ZktlsNet.Lib.Machine
import ZktlsNet.Lib.Reassembly
import ZktlsNet.Ws.RecvCtx

/-!
# The receive queue reassembles in order

Chunks may be put into the queue in any order of their ids, and reads may cut
them anywhere. The queue is correct when what has been read is what in-order
delivery (`deliverable`) allows, and when nothing deliverable is held back.

The invariant is a split of the arrived chunks into those read to the end
(`done`, with ids `1 … prevId`) and those in the list, together with
`CursorOk`: a valid cursor describes the list head, which is chunk
`prevId + 1`, and an invalid one means that this chunk has not arrived.
`armInfo_cursor` re-establishes the cursor for both places of the source that
move it.
-/

namespace ZktlsNet

open NetLib

/-! ## The cursor -/

/-- The cursor describes a chunk: its id, its length word and its payload. -/
structure RecvInfo.Describes (info : RecvInfo) (b : RecvBuffer) : Prop where
  id_eq : info.id = b.id
  length_eq : info.length = b.length
  payload_eq : info.payload = b.payload

/-- The bytes of the current chunk that were read already. -/
def RecvInfo.inFlight (info : RecvInfo) : Bytes :=
  if info.valid then info.payload.take info.offset else []

/-- A valid cursor is inside the list head, which is the chunk after `prevId`;
an invalid one means that this chunk is not in the list. -/
structure CursorOk (list : List RecvBuffer) (info : RecvInfo) : Prop where
  valid : info.valid = true → ∃ h tl, list = h :: tl ∧ h.id = info.prevId + 1 ∧
    info.Describes h ∧ info.offset < info.length
  invalid : info.valid = false → ∀ b ∈ list, b.id ≠ info.prevId + 1

/-- What every list of the queue satisfies: whole, non-empty chunks in strict
order of their ids, all behind `prevId`. -/
structure ListOk (prevId : Nat) (list : List RecvBuffer) : Prop where
  framed : ∀ b ∈ list, b.Framed
  nonempty : ∀ b ∈ list, b.payload ≠ []
  sorted : list.Pairwise (·.id < ·.id)
  above : ∀ b ∈ list, prevId < b.id

theorem ListOk.words {prevId : Nat} {list : List RecvBuffer} (h : ListOk prevId list) :
    ∀ b ∈ list, 16 ≤ b.data.length := fun b hb => (h.framed b hb).words

theorem ListOk.tail {prevId : Nat} {b : RecvBuffer} {bs : List RecvBuffer}
    (h : ListOk prevId (b :: bs)) : ListOk b.id bs where
  framed c hc := h.framed c (List.mem_cons_of_mem _ hc)
  nonempty c hc := h.nonempty c (List.mem_cons_of_mem _ hc)
  sorted := (List.pairwise_cons.mp h.sorted).2
  above := (List.pairwise_cons.mp h.sorted).1

theorem ListOk.insert {prevId : Nat} {c : RecvBuffer} {list : List RecvBuffer}
    (h : ListOk prevId list) (hf : c.Framed) (hne : c.payload ≠ []) (hlt : prevId < c.id)
    (hnew : ∀ b ∈ list, b.id ≠ c.id) : ListOk prevId (insertById c list) where
  framed b hb := by
    rcases mem_insertById.mp hb with rfl | hb
    · exact hf
    · exact h.framed b hb
  nonempty b hb := by
    rcases mem_insertById.mp hb with rfl | hb
    · exact hne
    · exact h.nonempty b hb
  sorted := insertById_sorted hnew h.sorted
  above b hb := by
    rcases mem_insertById.mp hb with rfl | hb
    · exact hlt
    · exact h.above b hb

/-- **Moving the cursor**: on an ordered list, `armInfo` leaves a correct valid
cursor alone and puts an invalid one on the chunk after `prevId` exactly when
that chunk is there. It reads no byte of the stream. -/
theorem armInfo_cursor {list : List RecvBuffer} (info : RecvInfo)
    (hlist : ListOk info.prevId list)
    (hvalid : info.valid = true → ∃ h tl, list = h :: tl ∧ h.id = info.prevId + 1 ∧
      info.Describes h ∧ info.offset < info.length) :
    ∃ info', armInfo list info = .ok info' ∧ CursorOk list info' ∧
      info'.prevId = info.prevId ∧ info'.inFlight = info.inFlight := by
  cases hv : info.valid with
  | true =>
    refine ⟨info, by simp [armInfo, hv], ⟨fun _ => hvalid hv, fun h => ?_⟩, rfl, rfl⟩
    rw [hv] at h
    cases h
  | false =>
    cases list with
    | nil =>
      refine ⟨info, by simp [armInfo, hv], ⟨fun h => ?_, fun _ => by simp⟩, rfl, rfl⟩
      rw [hv] at h
      cases h
    | cons b bs =>
      have hwords : 16 ≤ b.data.length := hlist.words b (List.mem_cons_self ..)
      have habove : info.prevId < b.id := hlist.above b (List.mem_cons_self ..)
      -- the 64-bit increment cannot wrap below an id that is larger than `prevId`
      have hwrap : (info.prevId + 1) % 2 ^ 64 = info.prevId + 1 :=
        Nat.mod_eq_of_lt (Nat.lt_of_le_of_lt habove b.id_lt)
      by_cases hid : info.prevId + 1 = b.id
      · refine ⟨{ info with
          id := b.id, length := b.length, payload := b.payload, offset := 0, valid := true },
          ?_, ⟨fun _ => ⟨b, bs, rfl, hid.symm, ⟨rfl, rfl, rfl⟩, ?_⟩, fun h => ?_⟩, rfl, ?_⟩
        · have hnext : (info.prevId + 1) % 2 ^ 64 = b.id := hwrap.trans hid
          simp only [armInfo, hv, Bool.false_eq_true, if_false, RecvBuffer.readId_ok hwords,
            RecvBuffer.readLength_ok hwords, ok_bind, hnext, if_true, pure_eq_ok]
        · have hne := hlist.nonempty b (List.mem_cons_self ..)
          have hlen := (hlist.framed b (List.mem_cons_self ..)).length_eq
          show 0 < b.length
          rw [hlen]
          exact List.length_pos_iff.mpr hne
        · cases h
        · simp [RecvInfo.inFlight, hv]
      · refine ⟨info, ?_, ⟨fun h => ?_, fun _ c hc => ?_⟩, rfl, rfl⟩
        · simp only [armInfo, hv, Bool.false_eq_true, if_false, RecvBuffer.readId_ok hwords,
            ok_bind, hwrap, hid, pure_eq_ok]
        · rw [hv] at h
          cases h
        · -- the head is already past `prevId + 1`, so everything behind it is
          rcases List.mem_cons.mp hc with rfl | hc
          · exact fun h => hid h.symm
          · have := (List.pairwise_cons.mp hlist.sorted).1 c hc
            omega

/-! ## The two operations -/

/-- A read that stays inside the chunk only moves the offset. -/
theorem copyFromChunk_inside (list : List RecvBuffer) {info : RecvInfo} {len : Nat}
    (hlt : info.offset + len < info.length) (hb : info.length ≤ info.payload.length) :
    copyFromChunk list info len =
      .ok (slice info.payload info.offset len, list,
        { info with offset := info.offset + len }) := by
  have hmin : min (info.length - info.offset) len = len := by omega
  have hle : info.offset + len ≤ info.payload.length := by omega
  have hne : info.offset + len ≠ info.length := by omega
  simp only [copyFromChunk, show info.offset < info.length by omega, if_true, hmin, hle, hne,
    if_false]

/-- A read that reaches the end of the chunk takes the head off the list. -/
theorem copyFromChunk_finish {tmp : RecvBuffer} (rest : List RecvBuffer) {info : RecvInfo}
    {len : Nat} (hoff : info.offset < info.length) (hle : info.length ≤ info.offset + len)
    (hb : info.length ≤ info.payload.length) (hw : 16 ≤ tmp.data.length) :
    copyFromChunk (tmp :: rest) info len =
      .ok (slice info.payload info.offset (info.length - info.offset), rest,
        { info with offset := info.length, prevId := tmp.id, valid := false }) := by
  have hmin : min (info.length - info.offset) len = info.length - info.offset := by omega
  have hend : info.offset + (info.length - info.offset) = info.length := by omega
  simp only [copyFromChunk, hoff, if_true, hmin, hend, hb, RecvBuffer.readId_ok hw, ok_bind,
    pure_eq_ok]

/-- **Put**: on an ordered list a new chunk behind `prevId` is inserted in its
place and the cursor is correct again. -/
theorem putToRecvCtx_ok {ctx : RecvCtx} {c : RecvBuffer} (hchunk : ctx.isChunk = false)
    (hlist : ListOk ctx.prevId ctx.list)
    (hcur : CursorOk ctx.list (ctx.info.getD RecvInfo.fresh))
    (hf : c.Framed) (hne : c.payload ≠ []) (hlt : ctx.prevId < c.id)
    (hnew : ∀ b ∈ ctx.list, b.id ≠ c.id) :
    ∃ info, putToRecvCtx ctx c = .ok { ctx with
        list := insertById c ctx.list, info := some info } ∧
      CursorOk (insertById c ctx.list) info ∧ info.prevId = ctx.prevId ∧
      info.inFlight = (ctx.info.getD RecvInfo.fresh).inFlight := by
  have hprev : (ctx.info.getD RecvInfo.fresh).prevId = ctx.prevId := by
    cases h : ctx.info <;> simp [RecvCtx.prevId, h, RecvInfo.fresh]
  have hlist' := hlist.insert hf hne hlt hnew
  rw [← hprev] at hlist'
  obtain ⟨info, harm, hok, hp, hfl⟩ := armInfo_cursor _ hlist' (fun hv => by
    -- a valid cursor's chunk stays at the head: the new id is larger
    obtain ⟨h, tl, hl, hid, hdesc, hoff⟩ := hcur.valid hv
    have hhne : h.id ≠ c.id := hnew h (by rw [hl]; exact List.mem_cons_self ..)
    have hnlt : ¬ c.id < h.id := by omega
    refine ⟨h, insertById c tl, ?_, hid, hdesc, hoff⟩
    rw [hl, insertById, if_neg hnlt])
  refine ⟨info, ?_, hok, hp.trans hprev, hfl⟩
  rw [putToRecvCtx, insertRecvList_ok hf.words hlist.words, ok_bind, hchunk]
  simp only [Bool.false_eq_true, if_false, harm, ok_bind, pure_eq_ok]

/-- **Read**: a read through a correct valid cursor copies the next bytes of
its chunk, at most `len`. Either the chunk is not finished, or it leaves the
list, its id becomes `prevId` and the cursor is correct for what follows. -/
theorem recvFromRecvCtx_ok {ctx : RecvCtx} {info : RecvInfo} (hinfo : ctx.info = some info)
    (hv : info.valid = true) (hlist : ListOk info.prevId ctx.list)
    (hcur : CursorOk ctx.list info) (len : Nat) :
    ∃ h tl, ctx.list = h :: tl ∧ h.id = info.prevId + 1 ∧ info.payload = h.payload ∧
      info.offset < h.payload.length ∧
      ((info.offset + len < h.payload.length ∧
        recvFromRecvCtx ctx len = .ok (slice h.payload info.offset len,
          { ctx with info := some { info with offset := info.offset + len } }) ∧
        CursorOk ctx.list { info with offset := info.offset + len }) ∨
       (h.payload.length ≤ info.offset + len ∧ ∃ info',
        recvFromRecvCtx ctx len = .ok (h.payload.drop info.offset,
          { ctx with list := tl, info := some info' }) ∧
        CursorOk tl info' ∧ info'.prevId = h.id ∧ info'.inFlight = [])) := by
  obtain ⟨h, tl, hl, hid, hdesc, hoff⟩ := hcur.valid hv
  have hframed : h.Framed := hlist.framed h (by rw [hl]; exact List.mem_cons_self ..)
  have hlen : info.length = h.payload.length := by rw [hdesc.length_eq, hframed.length_eq]
  refine ⟨h, tl, hl, hid, hdesc.payload_eq, by omega, ?_⟩
  have hb : info.length ≤ info.payload.length := by rw [hdesc.payload_eq, hlen]
  by_cases hfit : info.offset + len < h.payload.length
  · refine .inl ⟨hfit, ?_, ⟨fun _ => ⟨h, tl, hl, hid, ⟨hdesc.id_eq, hdesc.length_eq,
      hdesc.payload_eq⟩, by show info.offset + len < info.length; omega⟩, fun hc => ?_⟩⟩
    · have hcopy := copyFromChunk_inside ctx.list
        (show info.offset + len < info.length by omega) hb
      have harm : armInfo ctx.list { info with offset := info.offset + len } =
          .ok { info with offset := info.offset + len } := by simp [armInfo, hv]
      simp only [recvFromRecvCtx, hinfo, hcopy, ok_bind, harm, pure_eq_ok]
      rw [hdesc.payload_eq]
    · rw [show ({ info with offset := info.offset + len } : RecvInfo).valid = true from hv] at hc
      cases hc
  · -- the chunk ends inside this read: it is popped and the cursor re-armed
    have hcopy := copyFromChunk_finish tl hoff
      (show info.length ≤ info.offset + len by omega) hb hframed.words
    have hslice : slice info.payload info.offset (info.length - info.offset) =
        h.payload.drop info.offset := by
      rw [hdesc.payload_eq, hlen, slice, ← List.length_drop, List.take_length]
    rw [hl] at hlist
    obtain ⟨info', harm, hok, hp, hfl⟩ := armInfo_cursor
      { info with offset := info.length, prevId := h.id, valid := false }
      hlist.tail (fun hc => by cases hc)
    refine .inr ⟨by omega, info', ?_, hok, hp, by rw [hfl]; rfl⟩
    simp only [recvFromRecvCtx, hinfo, hl, hcopy, ok_bind, harm, pure_eq_ok, hslice]

/-! ## Runs of the queue -/

/-- The receive queue under use: `arrived` records every chunk put so far, `out`
every byte read so far. -/
structure RecvQueue where
  ctx : RecvCtx
  arrived : List RecvBuffer
  out : Bytes
  deriving DecidableEq, Repr

/-- A call on the queue. -/
inductive RecvEvent
  | put (c : RecvBuffer)
  | read (len : Nat)
  deriving DecidableEq, Repr

namespace RecvQueue

def init : RecvQueue := ⟨newRecvCtx, [], []⟩

/-- The callers' guard of a read: the cursor is valid. -/
def readable (q : RecvQueue) : Bool :=
  match q.ctx.info with
  | none => false
  | some info => info.valid

def act (q : RecvQueue) : RecvEvent → Res RecvQueue
  | .put c => do
    let ctx ← putToRecvCtx q.ctx c
    return { q with ctx := ctx, arrived := q.arrived ++ [c] }
  | .read len => do
    let (copied, ctx) ← recvFromRecvCtx q.ctx len
    return { q with ctx := ctx, out := q.out ++ copied }

/-- Puts of whole non-empty chunks with a positive id that is new, and guarded
reads. -/
def distinctIds (q : RecvQueue) : RecvEvent → Bool
  | .put c => decide (16 ≤ c.data.length) && decide (c.length = c.payload.length) &&
      decide (c.payload ≠ []) && decide (1 ≤ c.id) && q.arrived.all fun d => d.id != c.id
  | .read _ => q.readable

/-- The queue whose chunks have distinct ids. -/
def distinctMachine : Machine (Res RecvQueue) RecvEvent := checked init distinctIds act

/-- What has arrived under each id. -/
def pieces (q : RecvQueue) (i : Nat) : Option Bytes :=
  (q.arrived.find? fun c => c.id == i).map RecvBuffer.payload

/-- The bytes in-order delivery allows to be read. -/
def deliverable (q : RecvQueue) : Bytes := NetLib.deliverable q.pieces q.arrived.length 1

/-- **The reassembly invariant**: the arrived chunks split into those read to
the end, numbered `1 … prevId`, and those still listed. -/
structure InOrder (q : RecvQueue) : Prop where
  notChunk : q.ctx.isChunk = false
  distinct : q.arrived.Pairwise (fun a b => a.id ≠ b.id)
  listOk : ListOk q.ctx.prevId q.ctx.list
  cursor : CursorOk q.ctx.list (q.ctx.info.getD RecvInfo.fresh)
  split : ∃ done : List RecvBuffer, (done ++ q.ctx.list).Perm q.arrived ∧
    done.map RecvBuffer.id = List.range' 1 q.ctx.prevId ∧
    q.out = (done.map RecvBuffer.payload).flatten ++
      (q.ctx.info.getD RecvInfo.fresh).inFlight

theorem inOrder_init : init.InOrder where
  notChunk := rfl
  distinct := .nil
  listOk := ⟨by simp [init, newRecvCtx], by simp [init, newRecvCtx], .nil,
    by simp [init, newRecvCtx]⟩
  cursor := ⟨fun h => (by cases h), fun _ => by simp [init, newRecvCtx]⟩
  split := ⟨[], .refl _, rfl, rfl⟩

theorem prevId_eq (ctx : RecvCtx) :
    (ctx.info.getD RecvInfo.fresh).prevId = ctx.prevId := by
  cases h : ctx.info <;> simp [RecvCtx.prevId, h, RecvInfo.fresh]

/-- A new id is behind everything that was read to its end. -/
theorem InOrder.prevId_lt {q : RecvQueue} (h : q.InOrder) {c : RecvBuffer} (hpos : 1 ≤ c.id)
    (hnew : ∀ d ∈ q.arrived, d.id ≠ c.id) : q.ctx.prevId < c.id := by
  obtain ⟨done, hperm, hids, -⟩ := h.split
  by_contra hle
  have hmem : c.id ∈ done.map RecvBuffer.id := by
    rw [hids, List.mem_range'_1]
    omega
  obtain ⟨d, hd, hdid⟩ := List.mem_map.mp hmem
  exact hnew d (hperm.subset (List.mem_append_left _ hd)) hdid

theorem InOrder.put {q : RecvQueue} (h : q.InOrder) {c : RecvBuffer} (hf : c.Framed)
    (hne : c.payload ≠ []) (hpos : 1 ≤ c.id) (hnew : ∀ d ∈ q.arrived, d.id ≠ c.id) :
    ∃ q', q.act (.put c) = .ok q' ∧ q'.InOrder := by
  obtain ⟨done, hperm, hids, hout⟩ := h.split
  have hnewList : ∀ b ∈ q.ctx.list, b.id ≠ c.id := fun b hb =>
    hnew b (hperm.subset (List.mem_append_right _ hb))
  have hlt := h.prevId_lt hpos hnew
  obtain ⟨info, hput, hcur, hprev, hfl⟩ :=
    putToRecvCtx_ok h.notChunk h.listOk h.cursor hf hne hlt hnewList
  refine ⟨_, by rw [act, hput, ok_bind, pure_eq_ok], ?_⟩
  have hprev' : RecvCtx.prevId { q.ctx with
      list := insertById c q.ctx.list, info := some info } = q.ctx.prevId := hprev
  refine ⟨h.notChunk, ?_, ?_, hcur, ⟨done, ?_, ?_, ?_⟩⟩
  · refine List.pairwise_append.mpr ⟨h.distinct, List.pairwise_singleton .., ?_⟩
    intro d hd e he
    rw [List.mem_singleton.mp he]
    exact hnew d hd
  · show ListOk (RecvCtx.prevId _) _
    rw [hprev']
    exact h.listOk.insert hf hne hlt hnewList
  · have hins : (done ++ insertById c q.ctx.list).Perm (c :: (done ++ q.ctx.list)) :=
      ((insertById_perm c q.ctx.list).append_left done).trans List.perm_middle
    exact hins.trans ((hperm.cons c).trans (List.perm_append_singleton c q.arrived).symm)
  · show done.map RecvBuffer.id = List.range' 1 (RecvCtx.prevId _)
    rw [hprev', hids]
  · show q.out = _ ++ info.inFlight
    rw [hfl, hout]

/-- A cursor that may be read from, and the list it is in. -/
theorem InOrder.at_cursor {q : RecvQueue} (h : q.InOrder) (hready : q.readable = true) :
    ∃ info, q.ctx.info = some info ∧ info.valid = true ∧ q.ctx.prevId = info.prevId ∧
      ListOk info.prevId q.ctx.list ∧ CursorOk q.ctx.list info := by
  cases hinfo : q.ctx.info with
  | none => simp [readable, hinfo] at hready
  | some info =>
    have hprev : q.ctx.prevId = info.prevId := by simp [RecvCtx.prevId, hinfo]
    refine ⟨info, rfl, by simpa [readable, hinfo] using hready, hprev, ?_, ?_⟩
    · rw [← hprev]
      exact h.listOk
    · have hcur := h.cursor
      rwa [hinfo, Option.getD_some] at hcur

theorem InOrder.read {q : RecvQueue} (h : q.InOrder) (len : Nat)
    (hready : q.readable = true) : ∃ q', q.act (.read len) = .ok q' ∧ q'.InOrder := by
  obtain ⟨done, hperm, hids, hout⟩ := h.split
  obtain ⟨info, hinfo, hv, hprev, hlist, hcur⟩ := h.at_cursor hready
  rw [hprev] at hids
  rw [hinfo, Option.getD_some] at hout
  obtain ⟨c, tl, hl, hid, hpay, hoff, hcase⟩ :=
    recvFromRecvCtx_ok hinfo hv hlist hcur len
  have hflight : info.inFlight = c.payload.take info.offset := by
    rw [RecvInfo.inFlight, hv, if_pos rfl, hpay]
  rcases hcase with ⟨hfit, hrecv, hcur'⟩ | ⟨-, info', hrecv, hcur', hp', hfl'⟩
  · -- inside the chunk: the split stays, the cursor's part grows
    refine ⟨{ q with
        ctx := { q.ctx with info := some { info with offset := info.offset + len } },
        out := q.out ++ slice c.payload info.offset len },
      by rw [act, hrecv]; rfl, h.notChunk, h.distinct, hlist, hcur', ⟨done, hperm, hids, ?_⟩⟩
    show q.out ++ slice c.payload info.offset len = _ ++ RecvInfo.inFlight _
    rw [hout, hflight, List.append_assoc, RecvInfo.inFlight, Option.getD_some, hv, if_pos rfl,
      hpay, slice, List.take_add]
  · -- the chunk moves from the list to `done`
    refine ⟨{ q with
        ctx := { q.ctx with list := tl, info := some info' },
        out := q.out ++ c.payload.drop info.offset },
      by rw [act, hrecv]; rfl, h.notChunk, h.distinct, ?_, hcur', ⟨done ++ [c], ?_, ?_, ?_⟩⟩
    · show ListOk info'.prevId tl
      rw [hp']
      rw [hl] at hlist
      exact hlist.tail
    · rw [hl] at hperm
      simpa [List.append_assoc] using hperm
    · show (done ++ [c]).map RecvBuffer.id = List.range' 1 info'.prevId
      rw [hp', hid, List.range'_concat, List.map_append, hids]
      simp [hid, Nat.add_comm]
    · show q.out ++ c.payload.drop info.offset = _ ++ info'.inFlight
      rw [hout, hflight, hfl']
      simp [List.append_assoc, List.take_append_drop]

theorem InOrder.act {q : RecvQueue} (h : q.InOrder) {e : RecvEvent}
    (hen : q.distinctIds e = true) : ∃ q', q.act e = .ok q' ∧ q'.InOrder := by
  cases e with
  | put c =>
    simp only [distinctIds, Bool.and_eq_true, decide_eq_true_eq, List.all_eq_true, bne_iff_ne]
      at hen
    obtain ⟨⟨⟨⟨hw, hlen⟩, hne⟩, hpos⟩, hnew⟩ := hen
    exact h.put ⟨hw, hlen⟩ hne hpos hnew
  | read len => exact h.read len hen

/-! ## What the invariant says about the bytes -/

theorem find_eq_of_mem {l : List RecvBuffer} (hd : l.Pairwise (fun a b => a.id ≠ b.id))
    {c : RecvBuffer} (hc : c ∈ l) : l.find? (fun d => d.id == c.id) = some c := by
  induction l with
  | nil => cases hc
  | cons a as ih =>
    obtain ⟨ha, has⟩ := List.pairwise_cons.mp hd
    rcases List.mem_cons.mp hc with rfl | hc
    · simp
    · rw [List.find?_cons_of_neg (by simpa using ha c hc)]
      exact ih has hc

/-- Chunks that have arrived under the first ids are the first pieces of the
deliverable bytes. -/
theorem InOrder.deliverable_eq {q : RecvQueue} (h : q.InOrder) {first rest : List RecvBuffer}
    (hperm : (first ++ rest).Perm q.arrived)
    (hids : first.map RecvBuffer.id = List.range' 1 first.length) :
    q.deliverable = (first.map RecvBuffer.payload).flatten ++
      NetLib.deliverable q.pieces rest.length (1 + first.length) := by
  have hlen : q.arrived.length = (first.map RecvBuffer.payload).length + rest.length := by
    have := hperm.length_eq
    simpa [Nat.add_comm] using this.symm
  have hget : ∀ i, i < (first.map RecvBuffer.payload).length →
      q.pieces (1 + i) = (first.map RecvBuffer.payload)[i]? := by
    intro i hi
    have hi' : i < first.length := by simpa using hi
    have hidi : (first[i]).id = 1 + i := by
      have := congrArg (fun l => l[i]?) hids
      simpa [hi'] using this
    have hmem : first[i] ∈ q.arrived :=
      hperm.subset (List.mem_append_left _ (List.getElem_mem hi'))
    rw [pieces, ← hidi, find_eq_of_mem h.distinct hmem]
    simp [hi']
  rw [deliverable, hlen, deliverable_eq_append _ hget, List.length_map]

/-- The chunks read to the end, and the one being read, are the deliverable
bytes' own first pieces. -/
theorem InOrder.out_le {q : RecvQueue} (h : q.InOrder) : q.out <+: q.deliverable := by
  obtain ⟨done, hperm, hids, hout⟩ := h.split
  -- `started` is `done` and, under a valid cursor, the list head
  obtain ⟨started, hsub, hsids, hpre⟩ : ∃ started : List RecvBuffer,
      (∃ rest, (started ++ rest).Perm q.arrived) ∧
      started.map RecvBuffer.id = List.range' 1 started.length ∧
      q.out <+: (started.map RecvBuffer.payload).flatten := by
    have hdl : done.length = q.ctx.prevId := by
      have := congrArg List.length hids
      simpa using this
    cases hv : (q.ctx.info.getD RecvInfo.fresh).valid with
    | false =>
      refine ⟨done, ⟨_, hperm⟩, by rw [hids, hdl], ?_⟩
      have heq : q.out = (done.map RecvBuffer.payload).flatten := by
        rw [hout, RecvInfo.inFlight, hv, if_neg (by simp), List.append_nil]
      exact heq ▸ List.prefix_rfl
    | true =>
      obtain ⟨c, tl, hl, hid, hdesc, -⟩ := h.cursor.valid hv
      rw [prevId_eq] at hid
      refine ⟨done ++ [c], ⟨tl, ?_⟩, ?_, ?_⟩
      · rw [hl] at hperm
        simpa [List.append_assoc] using hperm
      · rw [List.map_append, hids, List.length_append, hdl, List.length_singleton,
          List.range'_concat]
        simp [hid, Nat.add_comm]
      · rw [hout, RecvInfo.inFlight, hv, if_pos rfl, hdesc.payload_eq, List.map_append,
          List.flatten_append]
        refine (List.prefix_append_right_inj _).mpr ?_
        simpa using List.take_prefix _ c.payload
  obtain ⟨rest, hrest⟩ := hsub
  rw [h.deliverable_eq hrest hsids]
  exact hpre.trans (List.prefix_append _ _)

/-- Whenever the chunk after `prevId` has arrived, the cursor is on it. -/
theorem InOrder.cursor_on_next {q : RecvQueue} (h : q.InOrder) {c : RecvBuffer}
    (hc : c ∈ q.arrived) (hid : c.id = q.ctx.prevId + 1) :
    ∃ info, q.ctx.info = some info ∧ info.valid = true ∧ info.Describes c ∧
      info.offset < info.length := by
  obtain ⟨done, hperm, hids, -⟩ := h.split
  have hlisted : c ∈ q.ctx.list := by
    rcases List.mem_append.mp (hperm.symm.subset hc) with hdone | hl
    · have : c.id ∈ List.range' 1 q.ctx.prevId := by
        rw [← hids]
        exact List.mem_map_of_mem hdone
      rw [List.mem_range'_1] at this
      omega
    · exact hl
  have hv : (q.ctx.info.getD RecvInfo.fresh).valid = true := by
    by_contra hno
    refine h.cursor.invalid (by simpa using hno) c hlisted ?_
    rw [prevId_eq, hid]
  obtain ⟨b, tl, hl, hbid, hdesc, hoff⟩ := h.cursor.valid hv
  rw [prevId_eq] at hbid
  have hbc : b = c := by
    rw [hl] at hlisted
    rcases List.mem_cons.mp hlisted with heq | htl
    · exact heq.symm
    · have hs := h.listOk.sorted
      rw [hl] at hs
      have := (List.pairwise_cons.mp hs).1 c htl
      omega
  subst hbc
  cases hinfo : q.ctx.info with
  | none =>
    rw [hinfo] at hv
    cases hv
  | some info =>
    rw [hinfo, Option.getD_some] at hv hdesc hoff
    exact ⟨info, rfl, hv, hdesc, hoff⟩

/-- Chunks that were put under consecutive ids are deliverable as they came. -/
theorem InOrder.deliverable_of_ids {q : RecvQueue} (h : q.InOrder) {n : Nat}
    (hids : q.arrived.map RecvBuffer.id = List.range' 1 n) :
    q.deliverable = (q.arrived.map RecvBuffer.payload).flatten := by
  have hlen : q.arrived.length = n := by simpa using congrArg List.length hids
  have hperm : (q.arrived ++ []).Perm q.arrived := by
    rw [List.append_nil]
  have heq := h.deliverable_eq hperm (by rw [hlen]; exact hids)
  rwa [List.length_nil, NetLib.deliverable, List.append_nil] at heq

/-- Of such chunks everything has been read when the cursor is not valid. -/
theorem InOrder.out_eq_of_not_readable {q : RecvQueue} (h : q.InOrder) {n : Nat}
    (hids : q.arrived.map RecvBuffer.id = List.range' 1 n) (hready : q.readable = false) :
    q.out = (q.arrived.map RecvBuffer.payload).flatten := by
  obtain ⟨done, hperm, hdone, hout⟩ := h.split
  have hv : (q.ctx.info.getD RecvInfo.fresh).valid = false := by
    unfold readable at hready
    cases hinfo : q.ctx.info with
    | none => rfl
    | some info =>
      rw [hinfo] at hready
      exact hready
  rw [RecvInfo.inFlight, hv, if_neg (by simp), List.append_nil] at hout
  -- a chunk in the list has the id after `prevId`, or one has it that came before
  have hlist : q.ctx.list = [] := by
    by_contra hne
    obtain ⟨c, hc⟩ := List.exists_mem_of_ne_nil _ hne
    have hmem : c.id ∈ List.range' 1 n := by
      rw [← hids]
      exact List.mem_map_of_mem (hperm.subset (List.mem_append_right _ hc))
    have habove := h.listOk.above c hc
    have hnext : q.ctx.prevId + 1 ∈ q.arrived.map RecvBuffer.id := by
      rw [hids]
      rw [List.mem_range'_1] at hmem ⊢
      omega
    obtain ⟨d, hd, hdid⟩ := List.mem_map.mp hnext
    obtain ⟨info, hinfo, hvalid, -⟩ := h.cursor_on_next hd hdid
    rw [hinfo, Option.getD_some, hvalid] at hv
    cases hv
  rw [hlist, List.append_nil] at hperm
  have hdlen : done.length = q.ctx.prevId := by simpa using congrArg List.length hdone
  have heq := h.deliverable_eq (show (done ++ []).Perm q.arrived by rwa [List.append_nil])
    (by rw [hdlen]; exact hdone)
  rw [List.length_nil, NetLib.deliverable, List.append_nil] at heq
  rw [hout, ← heq, h.deliverable_of_ids hids]

/-- A read with a valid cursor copies something, and no more than was asked for. -/
theorem InOrder.read_some {q : RecvQueue} (h : q.InOrder) {len : Nat} (hpos : 0 < len)
    (hready : q.readable = true) :
    ∃ copied ctx, recvFromRecvCtx q.ctx len = .ok (copied, ctx) ∧ 0 < copied.length ∧
      copied.length ≤ len ∧ InOrder { q with ctx := ctx, out := q.out ++ copied } := by
  obtain ⟨q', hact, hin⟩ := h.read len hready
  obtain ⟨⟨copied, ctx⟩, hrecv, hq'⟩ := bind_eq_ok hact
  cases hq'
  obtain ⟨info, hinfo, hv, -, hlist, hcur⟩ := h.at_cursor hready
  have hsome : 0 < copied.length ∧ copied.length ≤ len := by
    obtain ⟨c, tl, -, -, -, hoff, ⟨hfit, hrecv', -⟩ | ⟨hend, _, hrecv', -⟩⟩ :=
      recvFromRecvCtx_ok hinfo hv hlist hcur len
    · cases hrecv.symm.trans hrecv'
      rw [slice, List.length_take, List.length_drop]
      omega
    · cases hrecv.symm.trans hrecv'
      rw [List.length_drop]
      omega
  exact ⟨copied, ctx, hrecv, hsome.1, hsome.2, hin⟩

/-- `EmptyRecvCtx` says that the cursor is not valid. -/
theorem InOrder.emptyRecvCtx_eq {q : RecvQueue} (h : q.InOrder) :
    emptyRecvCtx q.ctx = !q.readable := by
  unfold emptyRecvCtx readable
  rw [h.notChunk, if_neg (by simp)]
  have hcur := h.cursor.valid
  cases hinfo : q.ctx.info with
  | none => cases q.ctx.list <;> rfl
  | some info =>
    rw [hinfo, Option.getD_some] at hcur
    cases hv : info.valid with
    | false => cases q.ctx.list <;> simp [hv]
    | true =>
      obtain ⟨c, tl, hl, -, -, hoff⟩ := hcur hv
      simp [hl, hv, hoff]

end RecvQueue

open RecvQueue in
/-- **In-order, exactly-once reassembly.** For every order of arrival of chunks
with distinct ids from `1` on and every sequence of guarded reads: no call
faults, the bytes read are a prefix of the in-order concatenation of what has
arrived, the list is ordered by id, and whenever the chunk after `prevId` has
arrived the cursor is valid and describes it. -/
theorem recvQueue_reassembles {es : List RecvEvent} {r : Res RecvQueue}
    (hrun : distinctMachine.run es = some r) :
    ∃ q, r = .ok q ∧ q.out <+: q.deliverable ∧
      q.ctx.list.Pairwise (·.id < ·.id) ∧
      ∀ c ∈ q.arrived, c.id = q.ctx.prevId + 1 →
        ∃ info, q.ctx.info = some info ∧ info.valid = true ∧ info.Describes c ∧
          info.offset < info.length := by
  obtain ⟨q, rfl, hq⟩ := checked_run InOrder inOrder_init
    (fun q e hq hen => hq.act hen) hrun
  exact ⟨q, rfl, hq.out_le, hq.listOk.sorted, fun c hc hid => hq.cursor_on_next hc hid⟩

/-- Chunk 2 before chunk 1, read in three unequal pieces. -/
theorem recvQueue_reassembles_swapped :
    ∃ q, RecvQueue.distinctMachine.run
        [.put (.build 2 1 [7]), .put (.build 1 2 [5, 6]), .read 1, .read 4, .read 0, .read 9] =
          some (.ok q) ∧ q.out <+: q.deliverable := by
  obtain ⟨r, hr⟩ := Option.isSome_iff_exists.mp (show (RecvQueue.distinctMachine.run
    [.put (.build 2 1 [7]), .put (.build 1 2 [5, 6]), .read 1, .read 4, .read 0,
      .read 9]).isSome = true by decide)
  obtain ⟨q, rfl, hpre, -⟩ := recvQueue_reassembles hr
  exact ⟨q, hr, hpre⟩

end ZktlsNet
