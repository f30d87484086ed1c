import ZktlsNet.Ws.Reassembly

/-!
# Stale and duplicate chunks

The peer chooses the ids of its chunks, and nothing in the queue compares a new
id with those already read. `RecvFromRecvCtx` takes the head of the list for the
chunk that the cursor is in, and moves the cursor only when the head is the next
chunk; so a chunk that is not needed any more stands in front of those that are.

- `ReplayTolerant`: what the queue would keep under any ids.
- `recvQueue_tolerates_new`: it does as long as every id is new, that is, behind
  what has been read to its end and not in the list.
- `Blocked.run`: once a stale chunk is at the head and the cursor is not in a
  chunk, no later chunk is ever delivered.
-/

namespace ZktlsNet

open NetLib

namespace RecvQueue

/-! ## Any ids -/

/-- Puts of whole non-empty chunks under any ids, and guarded reads. -/
def anyIds (q : RecvQueue) : RecvEvent → Bool
  | .put c => decide (16 ≤ c.data.length) && decide (c.length = c.payload.length) &&
      decide (c.payload ≠ [])
  | .read _ => q.readable

/-- The queue whose chunks have any ids. -/
def replayMachine : Machine (Res RecvQueue) RecvEvent := checked init anyIds act

/-- The put is neither of a stale chunk nor of a duplicate. -/
def newId (q : RecvQueue) : RecvEvent → Bool
  | .put c => decide (q.ctx.prevId < c.id) && q.ctx.list.all fun b => b.id != c.id
  | .read _ => true

/-- What holds of a queue that stale and duplicate chunks cannot disturb. -/
structure ReplayTolerant (q : RecvQueue) : Prop where
  /-- a valid cursor is in the head of the list, which is the next chunk -/
  head : ∀ info, q.ctx.info = some info → info.valid = true → ∃ h tl, q.ctx.list = h :: tl ∧
    info.Describes h ∧ h.id = info.prevId + 1
  /-- a read that frees a node frees the one that was read -/
  freed : ∀ len q', q.readable = true → q.act (.read len) = .ok q' →
    q'.ctx.list = q.ctx.list ∨ ∃ info h tl, q.ctx.info = some info ∧ info.Describes h ∧
      q.ctx.list = h :: tl ∧ q'.ctx.list = tl ∧ q'.out = q.out ++ h.payload.drop info.offset
  mono : ∀ e q', q.anyIds e = true → q.act e = .ok q' → q.ctx.prevId ≤ q'.ctx.prevId
  /-- the bytes read are those of one chunk for each id, and of the one being read -/
  once : ∃ done waiting : List RecvBuffer, (done ++ waiting).Perm q.arrived ∧
    done.map RecvBuffer.id = List.range' 1 q.ctx.prevId ∧
    q.out = (done.map RecvBuffer.payload).flatten ++ (q.ctx.info.getD RecvInfo.fresh).inFlight
  /-- the next chunk is delivered as soon as it has arrived -/
  delivers : ∀ c ∈ q.arrived, c.id = q.ctx.prevId + 1 → ∃ info, q.ctx.info = some info ∧
    info.valid = true ∧ info.Describes c ∧ info.offset < info.length

/-! ## New ids -/

/-- An id that is behind `prevId` and not in the list has never arrived. -/
theorem InOrder.new_of_newId {q : RecvQueue} (h : q.InOrder) {c : RecvBuffer}
    (hlt : q.ctx.prevId < c.id) (hlist : ∀ b ∈ q.ctx.list, b.id ≠ c.id) :
    ∀ d ∈ q.arrived, d.id ≠ c.id := by
  obtain ⟨done, hperm, hids, -⟩ := h.split
  intro d hd
  rcases List.mem_append.mp (hperm.symm.subset hd) with hdone | hlisted
  · have hmem : d.id ∈ List.range' 1 q.ctx.prevId := by
      rw [← hids]
      exact List.mem_map_of_mem hdone
    rw [List.mem_range'_1] at hmem
    omega
  · exact hlist d hlisted

/-- **One step** under a new id. -/
theorem InOrder.actNew {q : RecvQueue} (h : q.InOrder) {e : RecvEvent}
    (hen : q.anyIds e = true) (hnew : q.newId e = true) :
    ∃ q', q.act e = .ok q' ∧ q'.InOrder := by
  cases e with
  | put c =>
    simp only [anyIds, Bool.and_eq_true, decide_eq_true_eq] at hen
    simp only [newId, Bool.and_eq_true, decide_eq_true_eq, List.all_eq_true, bne_iff_ne] at hnew
    obtain ⟨⟨hw, hlen⟩, hne⟩ := hen
    exact h.put ⟨hw, hlen⟩ hne (by omega) (h.new_of_newId hnew.1 hnew.2)
  | read len => exact h.read len hen

/-- The tail of both functions moves the cursor and keeps `prevId`. -/
theorem armInfo_prevId {list : List RecvBuffer} {info info' : RecvInfo}
    (h : armInfo list info = .ok info') : info'.prevId = info.prevId := by
  unfold armInfo at h
  split at h
  · cases h
    rfl
  · cases list with
    | nil =>
      cases h
      rfl
    | cons b bs =>
      obtain ⟨i, -, h⟩ := bind_eq_ok h
      split at h
      · obtain ⟨len, -, h⟩ := bind_eq_ok h
        cases h
        rfl
      · cases h
        rfl

/-- A put never moves `prevId`, whatever its id. -/
theorem putToRecvCtx_prevId {ctx ctx' : RecvCtx} {c : RecvBuffer}
    (h : putToRecvCtx ctx c = .ok ctx') : ctx'.prevId = ctx.prevId := by
  obtain ⟨list, -, h⟩ := bind_eq_ok h
  split at h
  · cases h
    rfl
  · obtain ⟨info, harm, h⟩ := bind_eq_ok h
    cases h
    show info.prevId = ctx.prevId
    rw [armInfo_prevId harm, prevId_eq]

/-- What a guarded read does: it stays in the chunk, or it frees the head, which is the
chunk the cursor was in. -/
theorem InOrder.read_cases {q q' : RecvQueue} (h : q.InOrder) {len : Nat}
    (hready : q.readable = true) (hact : q.act (.read len) = .ok q') :
    (q'.ctx.list = q.ctx.list ∧ q'.ctx.prevId = q.ctx.prevId) ∨
      ∃ info b tl, q.ctx.info = some info ∧ info.Describes b ∧ q.ctx.list = b :: tl ∧
        q'.ctx.list = tl ∧ q'.ctx.prevId = q.ctx.prevId + 1 ∧
        q'.out = q.out ++ b.payload.drop info.offset := by
  obtain ⟨info, hinfo, hv, hprev, hlist, hcur⟩ := h.at_cursor hready
  obtain ⟨b, tl, hl, hid, -, -, hcase⟩ := recvFromRecvCtx_ok hinfo hv hlist hcur len
  obtain ⟨b', tl', hl', -, hdesc, -⟩ := hcur.valid hv
  rw [hl] at hl'
  cases hl'
  rcases hcase with ⟨-, hrecv, -⟩ | ⟨-, info', hrecv, -, hp', -⟩
  · rw [RecvQueue.act, hrecv] at hact
    cases hact
    exact .inl ⟨rfl, hprev.symm⟩
  · rw [RecvQueue.act, hrecv] at hact
    cases hact
    refine .inr ⟨info, b, tl, hinfo, hdesc, hl, rfl, ?_, rfl⟩
    show info'.prevId = q.ctx.prevId + 1
    rw [hp', hid, hprev]

theorem InOrder.replayTolerant {q : RecvQueue} (h : q.InOrder) : q.ReplayTolerant where
  head := by
    intro info hinfo hv
    have hcur := h.cursor
    rw [hinfo, Option.getD_some] at hcur
    obtain ⟨b, tl, hl, hid, hdesc, -⟩ := hcur.valid hv
    exact ⟨b, tl, hl, hdesc, hid⟩
  freed := by
    intro len q' hready hact
    rcases h.read_cases hready hact with ⟨hlist, -⟩ | ⟨info, b, tl, hinfo, hdesc, hl, hl', -, hout⟩
    · exact .inl hlist
    · exact .inr ⟨info, b, tl, hinfo, hdesc, hl, hl', hout⟩
  mono := by
    intro e q' hen hact
    cases e with
    | put c =>
      obtain ⟨ctx, hput, hq'⟩ := bind_eq_ok hact
      cases hq'
      exact Nat.le_of_eq (putToRecvCtx_prevId hput).symm
    | read len =>
      rcases h.read_cases hen hact with ⟨-, hprev⟩ | ⟨_, _, _, -, -, -, -, hprev, -⟩ <;> omega
  once := by
    obtain ⟨done, hperm, hids, hout⟩ := h.split
    exact ⟨done, q.ctx.list, hperm, hids, hout⟩
  delivers := fun c hc hid => h.cursor_on_next hc hid

/-! ## A stale chunk at the head -/

/-- The cursor is in no chunk, and the head of the list is one that was read already. -/
structure Blocked (q : RecvQueue) : Prop where
  notChunk : q.ctx.isChunk = false
  words : ∀ b ∈ q.ctx.list, 16 ≤ b.data.length
  invalid : (q.ctx.info.getD RecvInfo.fresh).valid = false
  stale : ∃ h tl, q.ctx.list = h :: tl ∧ h.id ≤ q.ctx.prevId
  next : q.ctx.prevId + 1 < 2 ^ 64

/-- A stale chunk in front leaves the cursor where it is. -/
theorem armInfo_stale {b : RecvBuffer} {bs : List RecvBuffer} {info : RecvInfo}
    (hv : info.valid = false) (hw : 16 ≤ b.data.length) (hle : b.id ≤ info.prevId)
    (hnext : info.prevId + 1 < 2 ^ 64) : armInfo (b :: bs) info = .ok info := by
  have hne : info.prevId + 1 ≠ b.id := by omega
  simp only [armInfo, hv, Bool.false_eq_true, if_false, RecvBuffer.readId_ok hw, ok_bind,
    Nat.mod_eq_of_lt hnext, hne, pure_eq_ok]

/-- Where the cursor is in no chunk, a put with a stale head after it blocks the queue. -/
theorem blocked_put {q : RecvQueue} {c : RecvBuffer} (hchunk : q.ctx.isChunk = false)
    (hwords : ∀ b ∈ q.ctx.list, 16 ≤ b.data.length)
    (hv : (q.ctx.info.getD RecvInfo.fresh).valid = false) (hnext : q.ctx.prevId + 1 < 2 ^ 64)
    (hc : 16 ≤ c.data.length)
    (hstale : ∃ h tl, insertById c q.ctx.list = h :: tl ∧ h.id ≤ q.ctx.prevId) :
    ∃ q', q.act (.put c) = .ok q' ∧ q'.Blocked ∧ q'.out = q.out := by
  obtain ⟨h, tl, hl, hle⟩ := hstale
  have hinserted : ∀ b ∈ insertById c q.ctx.list, 16 ≤ b.data.length := by
    intro b hb
    rcases mem_insertById.mp hb with rfl | hb
    · exact hc
    · exact hwords b hb
  have hw : 16 ≤ h.data.length := hinserted h (by rw [hl]; exact List.mem_cons_self ..)
  have harm : armInfo (insertById c q.ctx.list) (q.ctx.info.getD RecvInfo.fresh) =
      .ok (q.ctx.info.getD RecvInfo.fresh) := by
    rw [hl]
    refine armInfo_stale hv hw ?_ ?_ <;> rwa [prevId_eq]
  refine ⟨{ q with
    ctx := { q.ctx with
      list := insertById c q.ctx.list, info := some (q.ctx.info.getD RecvInfo.fresh) },
    arrived := q.arrived ++ [c] }, ?_, ⟨hchunk, hinserted, hv, ⟨h, tl, hl, ?_⟩, ?_⟩, rfl⟩
  · rw [act, putToRecvCtx, insertRecvList_ok hc hwords, ok_bind,
      if_neg (by rw [hchunk]; exact Bool.false_ne_true), harm, ok_bind, pure_eq_ok, ok_bind,
      pure_eq_ok]
  · show h.id ≤ (q.ctx.info.getD RecvInfo.fresh).prevId
    rwa [prevId_eq]
  · show (q.ctx.info.getD RecvInfo.fresh).prevId + 1 < 2 ^ 64
    rwa [prevId_eq]

/-- A stale chunk that arrives while the cursor is in no chunk. -/
theorem InOrder.blocked_of_stale {q : RecvQueue} (h : q.InOrder) {c : RecvBuffer}
    (hc : 16 ≤ c.data.length) (hv : (q.ctx.info.getD RecvInfo.fresh).valid = false)
    (hle : c.id ≤ q.ctx.prevId) (hnext : q.ctx.prevId + 1 < 2 ^ 64) :
    ∃ q', q.act (.put c) = .ok q' ∧ q'.Blocked ∧ q'.out = q.out := by
  refine blocked_put h.notChunk h.listOk.words hv hnext hc ?_
  cases hl : q.ctx.list with
  | nil => exact ⟨c, [], rfl, hle⟩
  | cons b bs =>
    -- everything in the list is behind `prevId`
    have hb : q.ctx.prevId < b.id := h.listOk.above b (by rw [hl]; exact List.mem_cons_self ..)
    exact ⟨c, b :: bs, by rw [insertById, if_pos (by omega)], hle⟩

/-- **Blocked for good**: whatever is put, no read is possible any more. -/
theorem Blocked.run {q : RecvQueue} (h : q.Blocked) {es : List RecvEvent} {r : Res RecvQueue}
    (hrun : replayMachine.runFrom (.ok q) es = some r) :
    ∃ q', r = .ok q' ∧ q'.Blocked ∧ q'.out = q.out := by
  refine Machine.runFrom_invariant (fun r => ∃ q', r = .ok q' ∧ q'.Blocked ∧ q'.out = q.out) ?_
    ⟨q, rfl, h, rfl⟩ hrun
  rintro _ e r' ⟨q, rfl, hq, hout⟩ hstep
  obtain ⟨hen, hact⟩ := checked_step hstep
  cases e with
  | read len =>
    have hv := hq.invalid
    cases hinfo : q.ctx.info <;> simp_all [anyIds, readable]
  | put c =>
    simp only [anyIds, Bool.and_eq_true, decide_eq_true_eq] at hen
    obtain ⟨b, tl, hl, hle⟩ := hq.stale
    obtain ⟨q', hput, hq', hout'⟩ := blocked_put hq.notChunk hq.words hq.invalid hq.next
      hen.1.1 (by
        rw [hl, insertById]
        split
        · exact ⟨c, b :: tl, rfl, by omega⟩
        · exact ⟨b, insertById c tl, rfl, hle⟩)
    rw [hput] at hact
    exact ⟨q', hact.symm, hq', hout'.trans hout⟩

end RecvQueue

open RecvQueue in
/-- **Replay tolerance under new ids.** In every run whose puts all have new ids, no
call faults and the queue is `ReplayTolerant` in every state reached. -/
theorem recvQueue_tolerates_new {es : List RecvEvent} {r : Res RecvQueue}
    (hrun : (replayMachine.restrict (whereOk newId)).run es = some r) :
    ∃ q, r = .ok q ∧ q.ReplayTolerant := by
  obtain ⟨q, rfl, hq⟩ := checked_restrict_run InOrder inOrder_init
    (fun q e hq hen hnew => hq.actNew hen hnew) hrun
  exact ⟨q, rfl, hq.replayTolerant⟩

/-- The second chunk first, and the first read in two pieces. -/
theorem recvQueue_tolerates_new_two :
    ∃ q, (RecvQueue.replayMachine.restrict (whereOk RecvQueue.newId)).run
        [.put (.build 2 1 [7]), .put (.build 1 2 [5, 6]), .read 1, .read 4] = some (.ok q) ∧
      q.ReplayTolerant := by
  obtain ⟨r, hr⟩ := Option.isSome_iff_exists.mp
    (show ((RecvQueue.replayMachine.restrict (whereOk RecvQueue.newId)).run
      [.put (.build 2 1 [7]), .put (.build 1 2 [5, 6]), .read 1, .read 4]).isSome = true by decide)
  obtain ⟨q, rfl, hq⟩ := recvQueue_tolerates_new hr
  exact ⟨q, hr, hq⟩

/-- A chunk of id 0 while chunk 1 is being read stands in front of the cursor's chunk
and is freed in its place, so that chunk 1 is delivered twice. Chunk 1 once more
after it was read stands in front of chunk 2, which is never delivered. -/
theorem recvQueue_replayed :
    (∃ q info h, RecvQueue.replayMachine.run
        [.put (.build 1 2 [5, 6]), .read 1, .put (.build 0 1 [9])] = some (.ok q) ∧
      q.ctx.info = some info ∧ info.valid = true ∧ q.ctx.list.head? = some h ∧
      info.payload ≠ h.payload) ∧
    (∃ q, RecvQueue.replayMachine.run
        [.put (.build 1 2 [5, 6]), .read 1, .put (.build 0 1 [9]), .read 1, .read 2] =
          some (.ok q) ∧ q.out = [5, 6, 5, 6]) ∧
    ∃ q info, RecvQueue.replayMachine.run
        [.put (.build 1 1 [5]), .read 1, .put (.build 1 1 [5]), .put (.build 2 1 [7])] =
          some (.ok q) ∧ q.ctx.prevId = 1 ∧ RecvBuffer.build 2 1 [7] ∈ q.arrived ∧
      q.ctx.info = some info ∧ info.valid = false :=
  ⟨⟨_, _, _, rfl, rfl, rfl, rfl, by decide⟩, ⟨_, rfl, rfl⟩,
    ⟨_, _, rfl, rfl, by decide, rfl, rfl⟩⟩

end ZktlsNet
