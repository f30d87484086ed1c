import ZktlsNet.Ws.RecvMessage

/-!
# Progress on every chunk length (`ws.h:638-660`, `ws.cpp:512-590`, `ws.cpp:769-827`,
`proxy_client.cpp:882-899`)

`RecvFromRecvCtx` takes a chunk off the list where it copies the last byte of it. A
chunk without bytes is never taken off: the cursor is valid in it, so the loops that
wait for a valid cursor go on, and copy nothing.

- `Lined`: the queue of chunks that came in order, of any length; `rest` is what is left
  of each.
- `Lined.read`: one read is `readPiece` on what is left.
- `reads_progress_iff`: a read loop returns exactly if no chunk without bytes is in its
  way.
-/

namespace ZktlsNet

open NetLib

/-! ## The queue of chunks in order -/

/-- The cursor is in the chunk, before its end or at the beginning of nothing. -/
structure RecvInfo.In (info : RecvInfo) (c : RecvBuffer) : Prop where
  valid : info.valid = true
  describes : info.Describes c
  inside : info.offset < info.length ∨ info.offset = 0 ∧ info.length = 0

/-- The chunks in the list have the ids after `prevId`, and the cursor is in the
first. -/
structure Lined (ctx : RecvCtx) : Prop where
  notChunk : ctx.isChunk = false
  framed : ∀ b ∈ ctx.list, b.Framed
  ids : ctx.list.map RecvBuffer.id = List.range' (ctx.prevId + 1) ctx.list.length
  cursor : match ctx.list with
    | [] => (ctx.info.getD RecvInfo.fresh).valid = false
    | c :: _ => (ctx.info.getD RecvInfo.fresh).In c

/-- What is left of each chunk in the list, when the cursor is in the first. -/
def RecvCtx.rest (ctx : RecvCtx) : List Bytes :=
  match ctx.list with
  | [] => []
  | c :: cs => c.payload.drop (ctx.info.getD RecvInfo.fresh).offset :: cs.map RecvBuffer.payload

/-- A chunk with the largest id goes to the end of the list. -/
theorem insertById_last {c : RecvBuffer} {list : List RecvBuffer} (h : ∀ b ∈ list, b.id ≤ c.id) :
    insertById c list = list ++ [c] := by
  induction list with
  | nil => rfl
  | cons b bs ih =>
    have hb := h b (List.mem_cons_self ..)
    rw [insertById, if_neg (by omega), ih fun d hd => h d (List.mem_cons_of_mem _ hd)]
    rfl

/-- An invalid cursor goes to the beginning of the first chunk. -/
theorem armInfo_lined {list : List RecvBuffer} {info : RecvInfo} (hv : info.valid = false)
    (hf : ∀ b ∈ list, b.Framed)
    (hids : list.map RecvBuffer.id = List.range' (info.prevId + 1) list.length) :
    ∃ info', armInfo list info = .ok info' ∧ info'.prevId = info.prevId ∧
      Lined ⟨list, some info', false⟩ ∧
      RecvCtx.rest ⟨list, some info', false⟩ = list.map RecvBuffer.payload := by
  cases list with
  | nil => exact ⟨info, by simp [armInfo, hv], rfl, ⟨rfl, hf, rfl, hv⟩, rfl⟩
  | cons c cs =>
    have hc := hf c (List.mem_cons_self ..)
    have hid : c.id = info.prevId + 1 := by
      rw [List.map_cons, List.length_cons, List.range'_succ] at hids
      exact (List.cons.inj hids).1
    have hlt := c.id_lt
    have hwrap : (info.prevId + 1) % 2 ^ 64 = c.id := by omega
    refine ⟨{ info with
      id := c.id, length := c.length, payload := c.payload, offset := 0, valid := true },
      ?_, rfl, ⟨rfl, hf, hids, ⟨rfl, ⟨rfl, rfl, rfl⟩, ?_⟩⟩, by simp [RecvCtx.rest]⟩
    · simp only [armInfo, hv, Bool.false_eq_true, if_false, RecvBuffer.readId_ok hc.words,
        RecvBuffer.readLength_ok hc.words, ok_bind, hwrap, if_true, pure_eq_ok]
    · show 0 < c.length ∨ 0 = 0 ∧ c.length = 0
      omega

namespace Lined

variable {ctx : RecvCtx}

theorem start : Lined newRecvCtx := ⟨rfl, fun _ h => (by cases h), rfl, rfl⟩

/-- The next chunk goes to the end. -/
theorem put (h : Lined ctx) {c : RecvBuffer} (hf : c.Framed)
    (hid : c.id = ctx.prevId + ctx.list.length + 1) :
    ∃ ctx', putToRecvCtx ctx c = .ok ctx' ∧ Lined ctx' ∧ ctx'.prevId = ctx.prevId ∧
      ctx'.list = ctx.list ++ [c] ∧ ctx'.rest = ctx.rest ++ [c.payload] := by
  have hlast : insertById c ctx.list = ctx.list ++ [c] := insertById_last fun b hb => by
    have hmem := List.mem_map_of_mem (f := RecvBuffer.id) hb
    rw [h.ids, List.mem_range'_1] at hmem
    omega
  have hf' : ∀ b ∈ ctx.list ++ [c], b.Framed := by
    intro b hb
    rcases List.mem_append.mp hb with hb | hb
    · exact h.framed b hb
    · rw [List.mem_singleton.mp hb]
      exact hf
  have hids : (ctx.list ++ [c]).map RecvBuffer.id =
      List.range' (ctx.prevId + 1) (ctx.list ++ [c]).length := by
    rw [List.map_append, h.ids, List.length_append, List.length_singleton, List.range'_concat,
      List.map_singleton, hid]
    congr 2
    omega
  have hput : putToRecvCtx ctx c = (do
      let info ← armInfo (ctx.list ++ [c]) (ctx.info.getD RecvInfo.fresh)
      return ⟨ctx.list ++ [c], some info, false⟩) := by
    rw [putToRecvCtx, insertRecvList_ok hf.words fun b hb => (h.framed b hb).words, ok_bind,
      h.notChunk, hlast]
    rfl
  have hprev := RecvQueue.prevId_eq ctx
  have hcursor := h.cursor
  cases hlist : ctx.list with
  | nil =>
    rw [hlist] at hcursor hput hf' hids
    rw [← hprev] at hids
    obtain ⟨info, harm, hp, hlined, hrest⟩ := armInfo_lined hcursor hf' hids
    refine ⟨_, by rw [hput, harm, ok_bind, pure_eq_ok], hlined, hp.trans hprev, rfl, ?_⟩
    rw [hrest, RecvCtx.rest, hlist]
    rfl
  | cons b bs =>
    -- the cursor stays where it is
    rw [hlist] at hcursor hput hf' hids
    have harm : armInfo (b :: bs ++ [c]) (ctx.info.getD RecvInfo.fresh) =
        .ok (ctx.info.getD RecvInfo.fresh) := by simp [armInfo, hcursor.valid]
    refine ⟨⟨b :: bs ++ [c], some (ctx.info.getD RecvInfo.fresh), false⟩,
      by rw [hput, harm, ok_bind, pure_eq_ok], ⟨rfl, hf', ?_, hcursor⟩, hprev, rfl, ?_⟩
    · show _ = List.range' ((ctx.info.getD RecvInfo.fresh).prevId + 1) _
      rw [hprev]
      exact hids
    · simp [RecvCtx.rest, hlist]

/-- The first chunk and the cursor in it. -/
theorem front (h : Lined ctx) {p : Bytes} {ps : List Bytes} (hrest : ctx.rest = p :: ps) :
    ∃ c cs info, ctx.list = c :: cs ∧ ctx.info = some info ∧ c.Framed ∧ info.In c ∧
      info.payload.length = info.length ∧ info.payload.drop info.offset = p ∧
      cs.map RecvBuffer.payload = ps := by
  have hcursor := h.cursor
  cases hlist : ctx.list with
  | nil =>
    rw [RecvCtx.rest, hlist] at hrest
    cases hrest
  | cons c cs =>
    rw [RecvCtx.rest, hlist] at hrest
    rw [hlist] at hcursor
    have hc := h.framed c (by rw [hlist]; exact List.mem_cons_self ..)
    cases hinfo : ctx.info with
    | none =>
      rw [hinfo] at hcursor
      cases hcursor.valid
    | some info =>
      rw [hinfo, Option.getD_some] at hcursor hrest
      obtain ⟨hp, hps⟩ := List.cons.inj hrest
      refine ⟨c, cs, info, rfl, rfl, hc, hcursor, ?_, ?_, hps⟩
      · rw [hcursor.describes.payload_eq, hcursor.describes.length_eq, hc.length_eq]
      · rw [hcursor.describes.payload_eq, hp]

/-- Where the cursor is when a chunk is there. -/
theorem in_chunk (h : Lined ctx) {p : Bytes} {ps : List Bytes} (hrest : ctx.rest = p :: ps) :
    ∃ info, ctx.info = some info ∧ info.valid = true ∧ ctx.list ≠ [] ∧
      (info.offset < info.length ↔ p ≠ []) := by
  obtain ⟨c, cs, info, hlist, hinfo, -, hin, hlength, hp, -⟩ := h.front hrest
  refine ⟨info, hinfo, hin.valid, by rw [hlist]; exact List.cons_ne_nil c cs, ?_⟩
  rw [← hp, ne_eq, List.drop_eq_nil_iff, hlength, not_le]

/-- The cursor is valid exactly if a chunk is there. -/
theorem valid_eq (h : Lined ctx) :
    (ctx.info.getD RecvInfo.fresh).valid = !ctx.rest.isEmpty := by
  have hcursor := h.cursor
  cases hlist : ctx.list with
  | nil =>
    rw [hlist] at hcursor
    simp [RecvCtx.rest, hlist, hcursor]
  | cons c cs =>
    rw [hlist] at hcursor
    simp [RecvCtx.rest, hlist, hcursor.valid]

end Lined

/-! ## The cursor at the end of its chunk -/

/-- The cursor is valid, and nothing is left to be read where it is. -/
structure Stuck (ctx : RecvCtx) : Prop where
  nothing : ∃ info, ctx.info = some info ∧ info.valid = true ∧ info.length ≤ info.offset

theorem Lined.stuck {ctx : RecvCtx} (h : Lined ctx) {ps : List Bytes}
    (hrest : ctx.rest = [] :: ps) : Stuck ctx := by
  obtain ⟨info, hinfo, hv, -, hbytes⟩ := h.in_chunk hrest
  exact ⟨info, hinfo, hv, not_lt.mp fun hlt => hbytes.mp hlt rfl⟩

namespace Stuck

variable {ctx : RecvCtx}

/-- A read copies nothing and changes nothing. -/
theorem read (h : Stuck ctx) (n : Nat) : recvFromRecvCtx ctx n = .ok ([], ctx) := by
  obtain ⟨info, hinfo, hv, hend⟩ := h.nothing
  have hcopy : copyFromChunk ctx.list info n = .ok ([], ctx.list, info) := by
    rw [copyFromChunk, if_neg (by omega)]
  have harm : armInfo ctx.list info = .ok info := by simp [armInfo, hv]
  simp only [recvFromRecvCtx, hinfo, hcopy, ok_bind, harm, pure_eq_ok]
  rw [← hinfo]

theorem drain (h : Stuck ctx) {len : Nat} {got : Bytes} (hgot : got.length ≠ len) :
    drainRecvCtx ctx len got = .ok (got, false, ctx) := by
  have hread := h.read (len - got.length)
  obtain ⟨info, hinfo, hv, -⟩ := h.nothing
  unfold drainRecvCtx
  simp only [hinfo, hv, if_true, hread, ok_bind, List.append_nil, hgot, decide_false, pure_eq_ok]

/-- Putting a chunk does not move the cursor. -/
theorem put (h : Stuck ctx) {ctx' : RecvCtx} {c : RecvBuffer}
    (hput : putToRecvCtx ctx c = .ok ctx') : Stuck ctx' := by
  obtain ⟨info, hinfo, hv, hend⟩ := h.nothing
  obtain ⟨list, -, hput⟩ := bind_eq_ok hput
  split at hput
  · cases hput
    exact ⟨info, hinfo, hv, hend⟩
  · have harm : armInfo list (ctx.info.getD RecvInfo.fresh) = .ok info := by
      rw [hinfo, Option.getD_some]
      simp [armInfo, hv]
    rw [harm, ok_bind, pure_eq_ok] at hput
    cases hput
    exact ⟨info, rfl, hv, hend⟩

/-- **The loop of `RecvMessage` does not return**, whatever comes. -/
theorem loop {σ : Type} [ChannelStream σ] {len fuel : Nat} :
    ∀ {ctx : RecvCtx} {got : Bytes} {s : σ}, Stuck ctx → got.length ≠ len →
      ∀ bs, (recvMessageLoop len fuel got ctx s).1 ≠ .ok bs := by
  induction fuel with
  | zero =>
    intro _ _ _ _ _ _ h
    cases h
  | succ fuel ih =>
    intro ctx got s hstuck hgot bs h
    rw [recvMessageLoop, hstuck.drain hgot] at h
    simp only at h
    rcases hframe : recvFrame s with ⟨e | chunk, s'⟩ <;> rw [hframe] at h
    · cases h
    · simp only at h
      cases hput : putToRecvCtx ctx chunk with
      | error e =>
        rw [hput] at h
        cases h
      | ok ctx' =>
        rw [hput] at h
        exact ih (hstuck.put hput) hgot bs h

end Stuck

/-! ## Reads -/

namespace Lined

variable {ctx : RecvCtx}

/-- A read that comes to the end of the first chunk takes it off the list. -/
theorem read_finish (h : Lined ctx) {p : Bytes} {ps : List Bytes} (hrest : ctx.rest = p :: ps)
    (hp : p ≠ []) {n : Nat} (hend : p.length ≤ n) :
    ∃ ctx', recvFromRecvCtx ctx n = .ok (p, ctx') ∧ Lined ctx' ∧
      ctx'.prevId + ctx'.list.length = ctx.prevId + ctx.list.length ∧ ctx'.rest = ps := by
  obtain ⟨c, cs, info, hlist, hinfo, hc, hin, hlength, hdrop, hps⟩ := h.front hrest
  have hplen : p.length = info.length - info.offset := by rw [← hdrop, List.length_drop, hlength]
  have hpos := List.length_pos_iff.mpr hp
  have hprev : ctx.prevId = info.prevId := by simp [RecvCtx.prevId, hinfo]
  have hids := h.ids
  rw [hlist, hprev, List.map_cons, List.length_cons, List.range'_succ] at hids
  obtain ⟨hid, hids⟩ := List.cons.inj hids
  have hcopy := copyFromChunk_finish cs (show info.offset < info.length by omega)
    (show info.length ≤ info.offset + n by omega) (Nat.le_of_eq hlength.symm) hc.words
  have hover : { info with offset := info.length, prevId := c.id, valid := false }.valid =
      false := rfl
  obtain ⟨info', harm, hprev', hlined, hrest'⟩ := armInfo_lined hover
    (fun b hb => h.framed b (by rw [hlist]; exact List.mem_cons_of_mem _ hb))
    (by rw [hids, hid])
  refine ⟨⟨cs, some info', false⟩, ?_, hlined, ?_, hrest'.trans hps⟩
  · have hslice : slice info.payload info.offset (info.length - info.offset) = p := by
      rw [slice, hdrop, List.take_of_length_le (Nat.le_of_eq hplen)]
    simp only [recvFromRecvCtx, hinfo, hlist, hcopy, ok_bind, harm, pure_eq_ok, hslice,
      h.notChunk]
  · show info'.prevId + cs.length = ctx.prevId + ctx.list.length
    rw [hprev', hprev, hlist]
    show c.id + cs.length = info.prevId + (cs.length + 1)
    omega

/-- One that does not come to its end moves the cursor. -/
theorem read_inside (h : Lined ctx) {p : Bytes} {ps : List Bytes} (hrest : ctx.rest = p :: ps)
    {n : Nat} (hlt : n < p.length) :
    ∃ ctx', recvFromRecvCtx ctx n = .ok (p.take n, ctx') ∧ Lined ctx' ∧
      ctx'.prevId + ctx'.list.length = ctx.prevId + ctx.list.length ∧
      ctx'.rest = p.drop n :: ps := by
  obtain ⟨c, cs, info, hlist, hinfo, -, hin, hlength, hdrop, hps⟩ := h.front hrest
  have hplen : p.length = info.length - info.offset := by rw [← hdrop, List.length_drop, hlength]
  have hprev : ctx.prevId = info.prevId := by simp [RecvCtx.prevId, hinfo]
  have hids := h.ids
  rw [hlist, hprev] at hids
  have hcopy := copyFromChunk_inside (c :: cs) (show info.offset + n < info.length by omega)
    (Nat.le_of_eq hlength.symm)
  have harm : armInfo (c :: cs) { info with offset := info.offset + n } =
      .ok { info with offset := info.offset + n } := by simp [armInfo, hin.valid]
  refine ⟨⟨c :: cs, some { info with offset := info.offset + n }, false⟩, ?_,
    ⟨rfl, by rw [← hlist]; exact h.framed, hids, hin.valid, ?_, .inl ?_⟩, ?_, ?_⟩
  · simp only [recvFromRecvCtx, hinfo, hlist, hcopy, ok_bind, harm, pure_eq_ok, slice, hdrop,
      h.notChunk]
  · exact ⟨hin.describes.id_eq, hin.describes.length_eq, hin.describes.payload_eq⟩
  · show info.offset + n < info.length
    omega
  · rw [hprev, hlist]
    rfl
  · rw [← hdrop, List.drop_drop, ← hps, hin.describes.payload_eq]
    rfl

/-- **One read** takes from what is left of the first chunk. -/
theorem read (h : Lined ctx) {p : Bytes} {ps : List Bytes} (hrest : ctx.rest = p :: ps) (n : Nat) :
    ∃ ctx', recvFromRecvCtx ctx n = .ok (p.take n, ctx') ∧ Lined ctx' ∧
      ctx'.prevId + ctx'.list.length = ctx.prevId + ctx.list.length ∧
      ctx'.rest = readPiece n (p :: ps) := by
  by_cases hp : p = []
  · -- nothing is copied, and the chunk stays
    subst hp
    refine ⟨ctx, ?_, h, rfl, ?_⟩
    · rw [(h.stuck hrest).read, List.take_nil]
    · rw [hrest, readPiece, if_neg (fun hc => hc.1 rfl), List.drop_nil]
  · rw [readPiece]
    by_cases hend : p.length ≤ n
    · rw [if_pos ⟨hp, hend⟩, List.take_of_length_le hend]
      exact h.read_finish hrest hp hend
    · rw [if_neg (fun hc => hend hc.2)]
      exact h.read_inside hrest (not_le.mp hend)

/-- What the loop of `RecvMessage` copies when no chunk is there: nothing. -/
theorem drain_nil (h : Lined ctx) (hrest : ctx.rest = []) (len : Nat) (got : Bytes) :
    drainRecvCtx ctx len got = .ok (got, false, ctx) := by
  have hv := h.valid_eq
  rw [hrest] at hv
  unfold drainRecvCtx
  cases hinfo : ctx.info with
  | none => rfl
  | some info =>
    rw [hinfo, Option.getD_some] at hv
    simp [hv]

/-- And when one is. -/
theorem drain_cons (h : Lined ctx) {p : Bytes} {ps : List Bytes} (hrest : ctx.rest = p :: ps)
    {len : Nat} {got : Bytes} (hgot : got.length ≤ len) :
    ∃ ctx', drainRecvCtx ctx len got = .ok (got ++ p.take (len - got.length),
        decide (len - got.length ≤ p.length), ctx') ∧ Lined ctx' ∧
      ctx'.prevId + ctx'.list.length = ctx.prevId + ctx.list.length ∧
      ctx'.rest = readPiece (len - got.length) (p :: ps) := by
  have hv := h.valid_eq
  rw [hrest] at hv
  obtain ⟨ctx', hread, hlined, hids, hrest'⟩ := h.read hrest (len - got.length)
  refine ⟨ctx', ?_, hlined, hids, hrest'⟩
  unfold drainRecvCtx
  cases hinfo : ctx.info with
  | none =>
    rw [hinfo] at hv
    cases hv
  | some info =>
    rw [hinfo, Option.getD_some] at hv
    have hdone : ((got ++ p.take (len - got.length)).length = len) =
        (len - got.length ≤ p.length) := by
      rw [List.length_append, List.length_take]
      exact propext ⟨fun _ => by omega, fun _ => by omega⟩
    simp only [hv, List.isEmpty_cons, Bool.not_false, if_true, hread, ok_bind, pure_eq_ok, hdone]

end Lined

/-! ## Calls of `RecvMessage` -/

section

variable {σ : Type} {pending : σ → Bytes}

/-- Between two frames: at most one chunk is in the queue, and those numbered from `next`
on are on their way. -/
structure Between (pending : σ → Bytes) (ctx : RecvCtx) (s : σ) (next : Nat) (ps : List Bytes)
    (fs : List Frame) : Prop where
  lined : Lined ctx
  next_eq : ctx.prevId + ctx.list.length + 1 = next
  few : ctx.rest.length ≤ 1
  carrying : Carrying next ps fs
  pending : pending s = wire fs

/-- What a round of the loop does with the chunk that is there, if there is one: it takes
enough from it, or all of it, or it is stuck as there is nothing in it. -/
inductive Drained (pending : σ → Bytes) (ctx : RecvCtx) (s : σ) (next : Nat) (ps : List Bytes)
    (fs : List Frame) (len : Nat) (got : Bytes) : Prop
  | enough (p : Bytes) (ctx₁ : RecvCtx) : ctx.rest = [p] → len - got.length ≤ p.length →
      drainRecvCtx ctx len got = .ok (got ++ p.take (len - got.length), true, ctx₁) →
      Between pending ctx₁ s next ps fs → ctx₁.rest.flatten = p.drop (len - got.length) →
      Drained pending ctx s next ps fs len got
  | all (ctx₁ : RecvCtx) :
      drainRecvCtx ctx len got = .ok (got ++ ctx.rest.flatten, false, ctx₁) →
      Between pending ctx₁ s next ps fs → ctx₁.rest = [] → (∀ p ∈ ctx.rest, p ≠ []) →
      (got ++ ctx.rest.flatten).length ≤ len →
      (ctx.rest ≠ [] → (got ++ ctx.rest.flatten).length < len) →
      Drained pending ctx s next ps fs len got
  | stuck : ctx.rest = [[]] → got.length < len → Drained pending ctx s next ps fs len got

namespace Between

/-- **A round** of the loop. -/
theorem drain {ctx : RecvCtx} {s : σ} {next : Nat} {ps : List Bytes} {fs : List Frame}
    (h : Between pending ctx s next ps fs) {len : Nat} {got : Bytes} (hgot : got.length ≤ len) :
    Drained pending ctx s next ps fs len got := by
  obtain ⟨hlined, hnext, hfew, hcarrying, hpending⟩ := h
  cases hrest : ctx.rest with
  | nil =>
    have hnil : got ++ ctx.rest.flatten = got := by
      rw [hrest, List.flatten_nil, List.append_nil]
    refine .all ctx ?_ ⟨hlined, hnext, hfew, hcarrying, hpending⟩ hrest ?_ ?_ fun hc =>
      absurd hrest hc
    · rw [hnil]
      exact hlined.drain_nil hrest len got
    · rw [hrest]
      exact fun _ hp => (by cases hp)
    · rwa [hnil]
  | cons p qs =>
    rw [hrest, List.length_cons] at hfew
    obtain rfl : qs = [] := List.eq_nil_of_length_eq_zero (by omega)
    obtain ⟨ctx₁, hdrain, hlined₁, hids, hrest₁⟩ := hlined.drain_cons hrest hgot
    have hbetween : Between pending ctx₁ s next ps fs := by
      refine ⟨hlined₁, by omega, ?_, hcarrying, hpending⟩
      rw [hrest₁, readPiece]
      split <;> simp
    by_cases henough : len - got.length ≤ p.length
    · refine .enough p ctx₁ hrest henough ?_ hbetween ?_
      · rw [hdrain, decide_eq_true henough]
      · have hflat := flatten_readPiece (len - got.length) p []
        rw [← hrest₁, List.flatten_singleton] at hflat
        have hsplit := List.take_append_drop (len - got.length) p
        exact List.append_cancel_left (hflat.trans hsplit.symm)
    · have hlt : p.length < len - got.length := by omega
      by_cases hp : p = []
      · subst hp
        exact .stuck hrest (by omega)
      · have hall : got ++ ctx.rest.flatten = got ++ p := by rw [hrest, List.flatten_singleton]
        have hshort : (got ++ ctx.rest.flatten).length < len := by
          rw [hall, List.length_append]
          omega
        refine .all ctx₁ ?_ hbetween ?_ ?_ (Nat.le_of_lt hshort) fun _ => hshort
        · rw [hall, hdrain, decide_eq_false henough, List.take_of_length_le (by omega)]
        · rw [hrest₁, readPiece, if_pos ⟨hp, by omega⟩]
        · rw [hrest]
          simpa using hp

variable [ChannelStream σ]

/-- The next frame is read into the queue. -/
theorem frame (laws : RecvLaws pending) {ctx : RecvCtx} {s : σ} {next : Nat} {q : Bytes}
    {qs : List Bytes} {fs : List Frame} (h : Between pending ctx s next (q :: qs) fs)
    (hrest : ctx.rest = []) :
    ∃ chunk ctx' s', recvFrame s = (.ok chunk, s') ∧ putToRecvCtx ctx chunk = .ok ctx' ∧
      Between pending ctx' s' (next + 1) qs (fs.drop 1) ∧ ctx'.rest = [q] := by
  obtain ⟨f, fs', rfl, hf, hframed, hid, hcarrying⟩ := h.carrying.cons_inv
  have hfront : pending s = f.encode ++ wire fs' := by
    rw [h.pending, wire, wire, List.map_cons, List.flatten_cons]
  obtain ⟨s', hframe, hs'⟩ := recvFrame_spec laws hfront
  obtain ⟨ctx', hput, hlined, hprev, hlist, hrest'⟩ :=
    h.lined.put hframed (by rw [hid, ← h.next_eq])
  have hchunk : (⟨f.payload⟩ : RecvBuffer) = .build next q.length q := by rw [hf]
  rw [hrest, List.nil_append, RecvBuffer.payload_build] at hrest'
  refine ⟨_, ctx', s', hframe, by rw [hchunk, hput], ⟨hlined, ?_, by rw [hrest']; rfl, hcarrying,
    hs'⟩, hrest'⟩
  rw [hprev, hlist, List.length_append, List.length_singleton]
  have := h.next_eq
  omega

/-- Without a frame none is read. -/
theorem no_frame (laws : RecvLaws pending) {ctx : RecvCtx} {s : σ} {next : Nat}
    {fs : List Frame} (h : Between pending ctx s next [] fs) :
    ∃ e s', recvFrame s = (.error e, s') := by
  have hfs : fs = [] := List.map_eq_nil_iff.mp h.carrying.data
  have hnil : (ChannelStream.recvEx s 2).1 = [] := by
    rw [laws.recvEx_fst, h.pending, hfs]
    rfl
  obtain ⟨e, s', hhead⟩ : ∃ e s', recvMessageHeader s = (.error e, s') := by
    unfold recvMessageHeader
    generalize ChannelStream.recvEx s 2 = read at hnil ⊢
    obtain ⟨headerData, stream⟩ := read
    simp only at hnil
    subst hnil
    exact ⟨_, _, rfl⟩
  exact ⟨e, s', by simp only [recvFrame, recvPayload, hhead]⟩

/-- A round of the loop that does not return with what is in the queue goes on with the next
frame. -/
theorem loop_frame (laws : RecvLaws pending) {ctx ctx₁ : RecvCtx} {s : σ} {next : Nat} {q : Bytes}
    {qs : List Bytes} {fs : List Frame} {len : Nat} {got got₁ : Bytes}
    (hdrain : drainRecvCtx ctx len got = .ok (got₁, false, ctx₁))
    (h : Between pending ctx₁ s next (q :: qs) fs) (hrest : ctx₁.rest = []) :
    ∃ ctx' s', Between pending ctx' s' (next + 1) qs (fs.drop 1) ∧ ctx'.rest = [q] ∧
      ∀ fuel, recvMessageLoop len (fuel + 1) got ctx s = recvMessageLoop len fuel got₁ ctx' s' := by
  obtain ⟨chunk, ctx', s', hframe, hput, hbetween, hrest'⟩ := h.frame laws hrest
  refine ⟨ctx', s', hbetween, hrest', fun fuel => ?_⟩
  rw [recvMessageLoop, hdrain]
  simp only [hframe, hput]

/-- **The loop returns** the next bytes if it can pass the chunks that hold them, and reads
no more frames than these. -/
theorem loop_returns (laws : RecvLaws pending) {len fuel : Nat} :
    ∀ {ctx : RecvCtx} {s : σ} {next : Nat} {ps : List Bytes} {fs : List Frame} {got : Bytes},
      Between pending ctx s next ps fs → got.length ≤ len →
      got.length < len ∨ ctx.rest ≠ [] →
      len - got.length ≤ (ctx.rest ++ ps).flatten.length →
      passable (len - got.length) (ctx.rest ++ ps) = true → ps.length < fuel →
      ∃ ctx' s', recvMessageLoop len fuel got ctx s =
          (.ok (got ++ (ctx.rest ++ ps).flatten.take (len - got.length)), ctx', s') ∧
        pending s' = wire (fs.drop (holding (len - got.length - ctx.rest.flatten.length) ps)) := by
  induction fuel with
  | zero =>
    intro _ _ _ _ _ _ _ _ _ _ _ hfuel
    omega
  | succ fuel ih =>
    intro ctx s next ps fs got h hgot hmore hlen hpass hfuel
    cases h.drain hgot with
    | enough p ctx₁ hrest henough hdrain =>
      refine ⟨ctx₁, s, ?_, ?_⟩
      · rw [recvMessageLoop, hdrain]
        simp only [hrest, List.cons_append, List.nil_append, List.flatten_cons,
          List.take_append_of_le_length henough]
      · have hzero : len - got.length - ctx.rest.flatten.length = 0 := by
          rw [hrest, List.flatten_singleton]
          omega
        rw [hzero, holding_zero, List.drop_zero, h.pending]
    | all ctx₁ hdrain hbetween hrest₁ hne hle hlt =>
      -- the next frame is needed
      have hlt₁ : (got ++ ctx.rest.flatten).length < len := by
        rcases hmore with hmore | hmore
        · by_cases hrest : ctx.rest = []
          · rwa [hrest, List.flatten_nil, List.append_nil]
          · exact hlt hrest
        · exact hlt hmore
      rw [List.length_append] at hle
      rw [passable_append hne (by omega), ← Nat.sub_add_eq, ← List.length_append] at hpass
      rw [List.flatten_append, List.length_append] at hlen
      have hgot₁ : (got ++ ctx.rest.flatten).length = got.length + ctx.rest.flatten.length :=
        List.length_append
      cases ps with
      | nil =>
        rw [List.flatten_nil, List.length_nil] at hlen
        omega
      | cons q qs =>
        obtain ⟨ctx₂, s₂, hbetween₂, hrest₂, hloop⟩ := loop_frame laws hdrain hbetween hrest₁
        rw [List.length_cons] at hfuel
        obtain ⟨ctx', s', hrun, hpending⟩ := ih hbetween₂ (Nat.le_of_lt hlt₁) (.inl hlt₁)
          (by rw [hrest₂]; show _ ≤ (q :: qs).flatten.length; omega)
          (by rw [hrest₂]; exact hpass) (by omega)
        rw [hrest₂, List.cons_append, List.nil_append] at hrun
        rw [hrest₂, List.flatten_singleton, List.drop_drop] at hpending
        refine ⟨ctx', s', ?_, ?_⟩
        · rw [hloop, hrun, take_flatten_append (by omega), ← Nat.sub_add_eq, ← hgot₁,
            List.append_assoc]
        · rw [hpending, holding_cons (by omega), hgot₁, Nat.sub_add_eq, Nat.add_comm]
    | stuck hrest hlt =>
      rw [hrest, List.cons_append, List.nil_append, passable_cons (by omega)] at hpass
      exact absurd rfl hpass.1

/-- **A loop that has returned** has passed the chunks that hold its bytes, has read as
many frames as leave these behind, and at least one if it found no chunk. -/
theorem loop_returned (laws : RecvLaws pending) {len fuel : Nat} {bs : Bytes} {ctx' : RecvCtx}
    {s' : σ} :
    ∀ {ctx : RecvCtx} {s : σ} {next : Nat} {ps : List Bytes} {fs : List Frame} {got : Bytes},
      Between pending ctx s next ps fs → got.length ≤ len →
      recvMessageLoop len fuel got ctx s = (.ok bs, ctx', s') →
      passable (len - got.length) (ctx.rest ++ ps) = true ∧
      bs = got ++ (ctx.rest ++ ps).flatten.take (len - got.length) ∧
      ∃ m, Between pending ctx' s' (next + m) (ps.drop m) (fs.drop m) ∧
        (ctx.rest ++ ps).flatten.drop (len - got.length) = (ctx'.rest ++ ps.drop m).flatten ∧
        m ≤ ps.length ∧ (ctx.rest = [] → 0 < m) := by
  induction fuel with
  | zero =>
    intro _ _ _ _ _ _ _ _ hloop
    cases hloop
  | succ fuel ih =>
    intro ctx s next ps fs got h hgot hloop
    cases h.drain hgot with
    | enough p ctx₁ hrest henough hdrain hbetween hleft =>
      rw [recvMessageLoop, hdrain] at hloop
      cases hloop
      rw [hrest, List.cons_append, List.nil_append, List.flatten_cons]
      refine ⟨?_, by rw [List.take_append_of_le_length henough], 0, hbetween, ?_, Nat.zero_le _,
        fun hc => by cases hc⟩
      · by_cases hk : len - got.length = 0
        · rw [hk, passable_zero]
        · rw [passable_cons (by omega), Nat.sub_eq_zero_of_le henough]
          exact ⟨List.ne_nil_of_length_pos (by omega), passable_zero ps⟩
      · rw [List.drop_append_of_le_length henough, List.drop_zero, List.flatten_append, hleft]
    | all ctx₁ hdrain hbetween hrest₁ hne hle =>
      cases ps with
      | nil =>
        obtain ⟨e, s₂, hframe⟩ := hbetween.no_frame laws
        rw [recvMessageLoop, hdrain] at hloop
        simp only [hframe] at hloop
        cases hloop
      | cons q qs =>
        obtain ⟨ctx₂, s₂, hbetween₂, hrest₂, hnext⟩ := loop_frame laws hdrain hbetween hrest₁
        rw [hnext] at hloop
        obtain ⟨hpass, hbs, m, hbetween', hdrop, hm, -⟩ := ih hbetween₂ hle hloop
        rw [hrest₂, List.cons_append, List.nil_append, List.length_append, Nat.sub_add_eq] at hpass
        rw [hrest₂, List.cons_append, List.nil_append, List.length_append, Nat.sub_add_eq] at hbs
        rw [hrest₂, List.cons_append, List.nil_append, List.length_append, Nat.sub_add_eq] at hdrop
        rw [List.length_append] at hle
        refine ⟨?_, ?_, m + 1, ?_, ?_, ?_, fun _ => Nat.succ_pos m⟩
        · rw [passable_append hne (by omega), hpass]
        · rw [hbs, take_flatten_append (by omega), List.append_assoc]
        · rw [List.drop_drop, Nat.add_comm 1 m] at hbetween'
          rw [show next + (m + 1) = next + 1 + m by omega]
          exact hbetween'
        · rw [drop_flatten_append (by omega), hdrop]
          rfl
        · rw [List.length_cons]
          omega
    | stuck hrest hlt =>
      exact absurd (congrArg Prod.fst hloop) ((h.lined.stuck hrest).loop (Nat.ne_of_lt hlt) bs)

/-- A call returns the next `len` bytes, and reads the frames that hold them and no
other. -/
def Progresses (pending : σ → Bytes) (ctx : RecvCtx) (s : σ) (len : Nat) (ps : List Bytes)
    (fs : List Frame) : Prop :=
  ∃ fuel ctx' s', recvMessage fuel ctx len s = (.ok ((ctx.rest ++ ps).flatten.take len), ctx', s') ∧
    pending s' = wire (fs.drop (holding (len - ctx.rest.flatten.length) ps))

/-- The condition: no chunk without bytes is in the way, and a call for no bytes finds a
chunk in the queue. -/
def unobstructed (ctx : RecvCtx) (len : Nat) (ps : List Bytes) : Bool :=
  (decide (0 < len) || !ctx.rest.isEmpty) && passable len (ctx.rest ++ ps)

theorem wire_drop_lt {fs : List Frame} {m : Nat} (hm : 0 < m) (hle : m ≤ fs.length) :
    (wire (fs.drop m)).length < (wire fs).length := by
  have hsplit : wire fs = wire (fs.take m) ++ wire (fs.drop m) := by
    rw [wire, wire, wire, ← List.flatten_append, ← List.map_append, List.take_append_drop]
  have hpos : 0 < (wire (fs.take m)).length := by
    cases fs with
    | nil =>
      rw [List.length_nil] at hle
      omega
    | cons f fs =>
      obtain ⟨m, rfl⟩ := Nat.exists_eq_succ_of_ne_zero (Nat.ne_of_gt hm)
      simp [wire, Frame.encode]
  rw [hsplit, List.length_append]
  omega

/-- **One call.** -/
theorem progresses_iff (laws : RecvLaws pending) {ctx : RecvCtx} {s : σ} {next : Nat}
    {ps : List Bytes} {fs : List Frame} (h : Between pending ctx s next ps fs) {len : Nat}
    (hlen : len ≤ (ctx.rest ++ ps).flatten.length) :
    Progresses pending ctx s len ps fs ↔ unobstructed ctx len ps = true := by
  simp only [unobstructed, Bool.and_eq_true, Bool.or_eq_true, decide_eq_true_eq,
    Bool.not_eq_true', List.isEmpty_eq_false_iff]
  constructor
  · rintro ⟨fuel, ctx', s', hcall, hpending⟩
    obtain ⟨hpass, -, m, hbetween, -, hm, hread⟩ := h.loop_returned laws (Nat.zero_le len) hcall
    refine ⟨?_, hpass⟩
    by_contra hnone
    rw [not_or, not_lt, Nat.le_zero, not_not] at hnone
    obtain ⟨rfl, hrest⟩ := hnone
    -- a frame was read for nothing
    rw [hbetween.pending, Nat.zero_sub, holding_zero, List.drop_zero] at hpending
    have hfs := h.carrying.length_eq
    have hlt := wire_drop_lt (hread hrest) (show m ≤ fs.length by omega)
    exact absurd (congrArg List.length hpending) (Nat.ne_of_lt hlt)
  · rintro ⟨hsome, hpass⟩
    obtain ⟨ctx', s', hcall, hpending⟩ := h.loop_returns laws
      (show ([] : Bytes).length ≤ len from Nat.zero_le len) hsome hlen hpass
      (Nat.lt_succ_self ps.length)
    exact ⟨ps.length + 1, ctx', s', hcall, hpending⟩

end Between

variable [ChannelStream σ]

/-- Calls that have returned, one after the other, with the bytes `out`. -/
inductive Returned (s₀ : σ) : Bytes → RecvCtx → σ → Prop
  | start : Returned s₀ [] newRecvCtx s₀
  | call {out : Bytes} {ctx : RecvCtx} {s : σ} {fuel len : Nat} {bs : Bytes} {ctx' : RecvCtx}
      {s' : σ} : Returned s₀ out ctx s → recvMessage fuel ctx len s = (.ok bs, ctx', s') →
      Returned s₀ (out ++ bs) ctx' s'

/-- **Every sequence of calls** that have returned is between two frames. -/
theorem Returned.between (laws : RecvLaws pending) {s₀ : σ} {ps : List Bytes} {fs : List Frame}
    (hcarrying : Carrying 1 ps fs) (hs₀ : pending s₀ = wire fs) {out : Bytes} {ctx : RecvCtx}
    {s : σ} (h : Returned s₀ out ctx s) :
    ∃ m, Between pending ctx s (1 + m) (ps.drop m) (fs.drop m) ∧
      out ++ (ctx.rest ++ ps.drop m).flatten = ps.flatten := by
  induction h with
  | start => exact ⟨0, ⟨Lined.start, rfl, Nat.zero_le _, hcarrying, hs₀⟩, rfl⟩
  | call _ hcall ih =>
    obtain ⟨m, hbetween, hout⟩ := ih
    obtain ⟨-, hbs, n, hbetween', hdrop, -⟩ := hbetween.loop_returned laws (Nat.zero_le _) hcall
    refine ⟨m + n, ?_, ?_⟩
    · rw [List.drop_drop, List.drop_drop] at hbetween'
      rw [← Nat.add_assoc]
      exact hbetween'
    · rw [List.drop_drop] at hdrop
      rw [← hdrop, hbs, List.append_assoc, List.nil_append, List.length_nil, Nat.sub_zero,
        List.take_append_drop, hout]

end

/-! ## The loops that wait for the cursor -/

/-- The test of these loops: `ctx->info != nullptr && ctx->info->valid`. -/
def RecvCtx.cursorValid (ctx : RecvCtx) : Bool :=
  match ctx.info with
  | none => false
  | some info => info.valid

/-- A loop around `RecvFromRecvCtx`. Before it copies it may `leave`, which depends on
`recv_zero`, the queue and what it has got; it never leaves while there are bytes, and
with no more than it has got. -/
structure ReadLoop where
  leave : Bool → RecvCtx → Bytes → Option (Res Bytes)
  onData : ∀ recvZero ctx got info, ctx.isChunk = false → ctx.list ≠ [] → ctx.info = some info →
    info.valid = true → info.offset < info.length → leave recvZero ctx got = none
  short : ∀ recvZero ctx got bs, leave recvZero ctx got = some (.ok bs) → bs = got

namespace ReadLoop

/-- What a loop does that throws when the cursor is not valid. -/
def throwing (e : BaseException) : ReadLoop where
  leave _ ctx _ := if ctx.cursorValid then none else some (.error (.thrown e))
  onData _ ctx _ info _ _ hinfo hv _ := if_pos (by rw [RecvCtx.cursorValid, hinfo]; exact hv)
  short _ ctx _ _ h := by
    split at h <;> cases h

/-- `RecvMessage` of the other build. -/
def recvMessage : ReadLoop := throwing ⟨.primusServerNetworkError, "recv error"⟩

/-- `EmscriptenStream::Recv`, behind its assertion on the connection type. -/
def emscriptenStream (connectionType : ConnectionType) : ReadLoop :=
  let server := if connectionType = .clientToTlsServer then "proxy" else "pado"
  throwing ⟨.networkError, "recv from  " ++ server ++ " error"⟩

/-- `RecvFromRecvProxyCtx`. -/
def recvProxyCtx : ReadLoop where
  leave recvZero ctx got := if recvZero && emptyRecvCtx ctx then some (.ok got) else none
  onData recvZero ctx _ info hchunk hne hinfo hv hlt := by
    cases hlist : ctx.list with
    | nil => exact absurd hlist hne
    | cons c cs => simp [emptyRecvCtx, hchunk, hlist, hinfo, hv, hlt]
  short _ ctx got bs h := by
    split at h
    · cases h
      rfl
    · cases h

/-- The loop, when nothing more arrives; a wait is a round that changes nothing. -/
def run (loop : ReadLoop) (recvZero : Bool) (len : Nat) : Nat → Bytes → RecvCtx →
    Res Bytes × RecvCtx
  | 0, _, ctx => (.error .outOfFuel, ctx)
  | fuel + 1, got, ctx =>
    if got.length < len then
      if !recvZero && !ctx.cursorValid then loop.run recvZero len fuel got ctx
      else
        match loop.leave recvZero ctx got with
        | some r => (r, ctx)
        | none =>
          match recvFromRecvCtx ctx (len - got.length) with
          | .error e => (.error e, ctx)
          | .ok (copied, ctx) => loop.run recvZero len fuel (got ++ copied) ctx
    else (.ok got, ctx)

variable (loop : ReadLoop) (recvZero : Bool)

theorem run_done {len : Nat} {got : Bytes} (hgot : len ≤ got.length) (fuel : Nat) (ctx : RecvCtx) :
    loop.run recvZero len (fuel + 1) got ctx = (.ok got, ctx) :=
  if_neg (not_lt.mpr hgot)

/-- A round in which there are bytes. -/
theorem run_data {ctx : RecvCtx} (h : Lined ctx) {p : Bytes} {ps : List Bytes}
    (hrest : ctx.rest = p :: ps) (hp : p ≠ []) {len : Nat} {got : Bytes}
    (hgot : got.length < len) :
    ∃ ctx', Lined ctx' ∧ ctx'.rest = readPiece (len - got.length) (p :: ps) ∧
      ∀ fuel, loop.run recvZero len (fuel + 1) got ctx =
        loop.run recvZero len fuel (got ++ p.take (len - got.length)) ctx' := by
  obtain ⟨info, hinfo, hv, hne, hbytes⟩ := h.in_chunk hrest
  obtain ⟨ctx', hread, hlined, -, hrest'⟩ := h.read hrest (len - got.length)
  refine ⟨ctx', hlined, hrest', fun fuel => ?_⟩
  have hvalid : ctx.cursorValid = true := by
    rw [RecvCtx.cursorValid, hinfo]
    exact hv
  have hleave := loop.onData recvZero ctx got info h.notChunk hne hinfo hv (hbytes.mpr hp)
  rw [run, if_pos hgot, hvalid, Bool.not_true, Bool.and_false, if_neg (by simp), hleave]
  simp only [hread]

/-- **The loop returns** if it can pass the chunks that hold its bytes. -/
theorem run_returns {len fuel : Nat} :
    ∀ {ctx : RecvCtx} {got : Bytes}, Lined ctx → got.length ≤ len →
      len - got.length ≤ ctx.rest.flatten.length →
      passable (len - got.length) ctx.rest = true → ctx.rest.length < fuel →
      ∃ ctx', loop.run recvZero len fuel got ctx =
        (.ok (got ++ ctx.rest.flatten.take (len - got.length)), ctx') := by
  induction fuel with
  | zero =>
    intro _ _ _ _ _ _ hfuel
    omega
  | succ fuel ih =>
    intro ctx got h hgot hlen hpass hfuel
    by_cases hlt : got.length < len
    · cases hrest : ctx.rest with
      | nil =>
        rw [hrest, List.flatten_nil, List.length_nil] at hlen
        omega
      | cons p ps =>
        rw [hrest, passable_cons (by omega)] at hpass
        rw [hrest, List.length_cons] at hfuel
        rw [hrest, List.flatten_cons, List.length_append] at hlen
        obtain ⟨hp, hpass⟩ := hpass
        obtain ⟨ctx₁, hlined, hrest₁, hrun⟩ := loop.run_data recvZero h hrest hp hlt
        rw [hrun]
        by_cases hend : p.length ≤ len - got.length
        · -- the chunk is read to its end
          rw [readPiece, if_pos ⟨hp, hend⟩] at hrest₁
          rw [List.take_of_length_le hend]
          have hgot₁ : (got ++ p).length = got.length + p.length := List.length_append
          rw [← Nat.sub_add_eq, ← hgot₁, ← hrest₁] at hpass
          obtain ⟨ctx', hret⟩ := ih hlined (show (got ++ p).length ≤ len by omega)
            (by rw [hrest₁]; omega) hpass (by rw [hrest₁]; omega)
          refine ⟨ctx', ?_⟩
          rw [hret, hrest₁, hgot₁, List.flatten_cons, List.take_append,
            List.take_of_length_le hend, Nat.sub_add_eq, List.append_assoc]
        · obtain ⟨fuel, rfl⟩ := Nat.exists_eq_succ_of_ne_zero (show fuel ≠ 0 by omega)
          refine ⟨ctx₁, ?_⟩
          rw [loop.run_done recvZero (by rw [List.length_append, List.length_take]; omega),
            List.flatten_cons, List.take_append_of_le_length (by omega)]
    · obtain hzero : len - got.length = 0 := by omega
      refine ⟨ctx, ?_⟩
      rw [loop.run_done recvZero (not_lt.mp hlt), hzero, List.take_zero, List.append_nil]

/-- A cursor at the end of its chunk keeps it from getting any further. -/
theorem run_stuck {ctx : RecvCtx} (h : Stuck ctx) {len : Nat} {got : Bytes}
    (hgot : got.length < len) (fuel : Nat) {bs : Bytes} (hbs : bs.length = len) :
    (loop.run recvZero len fuel got ctx).1 ≠ .ok bs := by
  induction fuel with
  | zero =>
    intro hrun
    cases hrun
  | succ fuel ih =>
    intro hrun
    have hvalid : ctx.cursorValid = true := by
      obtain ⟨info, hinfo, hv, -⟩ := h.nothing
      rw [RecvCtx.cursorValid, hinfo]
      exact hv
    rw [run, if_pos hgot, hvalid, Bool.not_true, Bool.and_false, if_neg (by simp)] at hrun
    cases hleave : loop.leave recvZero ctx got with
    | some r =>
      rw [hleave] at hrun
      simp only at hrun
      rw [hrun] at hleave
      rw [loop.short recvZero ctx got bs hleave] at hbs
      omega
    | none =>
      rw [hleave] at hrun
      simp only [h.read, List.append_nil] at hrun
      exact ih hrun

/-- **A loop that has returned** all it was asked for has passed the chunks. -/
theorem run_returned {len fuel : Nat} {bs : Bytes} {ctx' : RecvCtx} (hbs : bs.length = len) :
    ∀ {ctx : RecvCtx} {got : Bytes}, Lined ctx → got.length ≤ len →
      len - got.length ≤ ctx.rest.flatten.length →
      loop.run recvZero len fuel got ctx = (.ok bs, ctx') →
      passable (len - got.length) ctx.rest = true := by
  induction fuel with
  | zero =>
    intro _ _ _ _ _ hrun
    cases hrun
  | succ fuel ih =>
    intro ctx got h hgot hlen hrun
    by_cases hlt : got.length < len
    · cases hrest : ctx.rest with
      | nil => exact passable_nil _
      | cons p ps =>
        rw [passable_cons (by omega)]
        by_cases hp : p = []
        · subst hp
          exact absurd (congrArg Prod.fst hrun)
            (loop.run_stuck recvZero (h.stuck hrest) hlt (fuel + 1) hbs)
        · refine ⟨hp, ?_⟩
          obtain ⟨ctx₁, hlined, hrest₁, hnext⟩ := loop.run_data recvZero h hrest hp hlt
          rw [hrest, List.flatten_cons, List.length_append] at hlen
          rw [hnext] at hrun
          by_cases hend : p.length ≤ len - got.length
          · rw [readPiece, if_pos ⟨hp, hend⟩] at hrest₁
            rw [List.take_of_length_le hend] at hrun
            have hgot₁ : (got ++ p).length = got.length + p.length := List.length_append
            have hpass := ih hlined (show (got ++ p).length ≤ len by omega)
              (by rw [hrest₁]; omega) hrun
            rwa [hrest₁, hgot₁, Nat.sub_add_eq] at hpass
          · rw [Nat.sub_eq_zero_of_le (by omega)]
            exact passable_zero ps
    · rw [Nat.sub_eq_zero_of_le (not_lt.mp hlt)]
      exact passable_zero _

end ReadLoop

namespace RecvQueue

/-- Puts of whole chunks in the order of their ids, and guarded reads. -/
def orderedIds (q : RecvQueue) : RecvEvent → Bool
  | .put c => decide (16 ≤ c.data.length) && decide (c.length = c.payload.length) &&
      decide (c.id = q.arrived.length + 1)
  | .read _ => q.readable

/-- The queue whose chunks come in order. -/
def orderedMachine : Machine (Res RecvQueue) RecvEvent := checked init orderedIds act

/-- What has been read and what is left of the chunks are what has arrived. -/
structure LinedUp (q : RecvQueue) : Prop where
  lined : Lined q.ctx
  arrived : q.ctx.prevId + q.ctx.list.length = q.arrived.length
  split : q.out ++ q.ctx.rest.flatten = (q.arrived.map RecvBuffer.payload).flatten

theorem linedUp_init : LinedUp init := ⟨Lined.start, rfl, rfl⟩

theorem LinedUp.step {q : RecvQueue} (h : LinedUp q) {e : RecvEvent}
    (hen : q.orderedIds e = true) : ∃ q', q.act e = .ok q' ∧ LinedUp q' := by
  cases e with
  | put c =>
    simp only [orderedIds, Bool.and_eq_true, decide_eq_true_eq] at hen
    obtain ⟨⟨hwords, hlength⟩, hid⟩ := hen
    obtain ⟨ctx, hput, hlined, hprev, hlist, hrest⟩ :=
      h.lined.put ⟨hwords, hlength⟩ (by rw [hid, h.arrived])
    refine ⟨_, by rw [act, hput, ok_bind, pure_eq_ok], hlined, ?_, ?_⟩
    · show ctx.prevId + ctx.list.length = (q.arrived ++ [c]).length
      rw [hprev, hlist, List.length_append, List.length_append, ← h.arrived]
      rfl
    · show q.out ++ ctx.rest.flatten = ((q.arrived ++ [c]).map RecvBuffer.payload).flatten
      rw [hrest, List.map_append, List.flatten_append, List.flatten_append, ← h.split,
        List.append_assoc]
      rfl
  | read len =>
    cases hrest : q.ctx.rest with
    | nil =>
      have hv := h.lined.valid_eq
      rw [hrest] at hv
      simp only [orderedIds, readable] at hen
      cases hinfo : q.ctx.info with
      | none => simp [hinfo] at hen
      | some info => simp_all
    | cons p ps =>
      obtain ⟨ctx, hread, hlined, hids, hrest'⟩ := h.lined.read hrest len
      refine ⟨{ q with ctx := ctx, out := q.out ++ p.take len }, by rw [act, hread]; rfl, hlined,
        hids.trans h.arrived, ?_⟩
      show (q.out ++ p.take len) ++ ctx.rest.flatten = _
      rw [← h.split, hrest, hrest', List.append_assoc, flatten_readPiece]

end RecvQueue

/-! ## Every call and every loop -/

/-- **Progress on every chunk length.** On frames that carry chunks in order, of any length,
and after any calls that have returned, the next call of `RecvMessage` returns the next
`len` bytes, and reads no frame that does not hold them, exactly if no chunk without
bytes is in its way, and, when `len` is 0, a chunk is in the queue. In every state of the
queue that puts in order and reads lead to, a loop around `RecvFromRecvCtx` returns the
next bytes it asks for, if so many have arrived, exactly if no chunk without bytes is in
its way. -/
theorem reads_progress_iff {σ : Type} [ChannelStream σ] {pending : σ → Bytes}
    (laws : RecvLaws pending) {s₀ : σ} {ps : List Bytes} {fs : List Frame}
    (hcarrying : Carrying 1 ps fs) (hs₀ : pending s₀ = wire fs) :
    (∀ out ctx s, Returned s₀ out ctx s →
      ∃ m, out ++ (ctx.rest ++ ps.drop m).flatten = ps.flatten ∧
        pending s = wire (fs.drop m) ∧
        ∀ len, len ≤ (ctx.rest ++ ps.drop m).flatten.length →
          (Between.Progresses pending ctx s len (ps.drop m) (fs.drop m) ↔
            Between.unobstructed ctx len (ps.drop m) = true)) ∧
    ∀ es q, RecvQueue.orderedMachine.run es = some (.ok q) →
      q.out ++ q.ctx.rest.flatten = (q.arrived.map RecvBuffer.payload).flatten ∧
      ∀ (loop : ReadLoop) recvZero len (got : Bytes), got.length ≤ len →
        len - got.length ≤ q.ctx.rest.flatten.length →
        ((∃ fuel ctx', loop.run recvZero len fuel got q.ctx =
            (.ok (got ++ q.ctx.rest.flatten.take (len - got.length)), ctx')) ↔
          passable (len - got.length) q.ctx.rest = true) := by
  constructor
  · intro out ctx s hcalls
    obtain ⟨m, hbetween, hout⟩ := hcalls.between laws hcarrying hs₀
    exact ⟨m, hout, hbetween.pending, fun len hlen => hbetween.progresses_iff laws hlen⟩
  · intro es q hrun
    obtain ⟨q', hq, h⟩ := checked_run RecvQueue.LinedUp RecvQueue.linedUp_init
      (fun _ _ h hen => h.step hen) hrun
    cases hq
    refine ⟨h.split, fun loop recvZero len got hgot hlen => ⟨?_, fun hpass => ?_⟩⟩
    · rintro ⟨fuel, ctx', hret⟩
      refine loop.run_returned recvZero ?_ h.lined hgot hlen hret
      rw [List.length_append, List.length_take_of_le hlen]
      omega
    · obtain ⟨ctx', hret⟩ := loop.run_returns recvZero h.lined hgot hlen hpass (Nat.lt_succ_self _)
      exact ⟨_, ctx', hret⟩

/-- Two chunks in one call. -/
theorem reads_progress_iff_three :
    let fs : List Frame := [⟨true, .binary, none, (RecvBuffer.build 1 2 [5, 6]).data, by decide⟩,
      ⟨true, .binary, none, (RecvBuffer.build 2 1 [7]).data, by decide⟩]
    ∃ fuel ctx' s', recvMessage fuel newRecvCtx 3
      (SocketStream.ofSocket (.ofBytes (wire fs)) .clientToPado) = (.ok [5, 6, 7], ctx', s') := by
  intro fs
  let s : SocketStream := .ofSocket (.ofBytes (wire fs)) .clientToPado
  have hcarrying : Carrying 1 [[5, 6], [7]] fs := ⟨rfl, by decide⟩
  obtain ⟨m, hout, -, hiff⟩ := (reads_progress_iff SocketStream.recvLaws hcarrying
    (show s.pending = wire fs by simp [s])).1 [] newRecvCtx s .start
  obtain rfl : m = 0 := by
    rcases m with _ | _ | m
    · rfl
    · exact absurd hout (by decide)
    · simp [RecvCtx.rest, newRecvCtx] at hout
  obtain ⟨fuel, ctx', s', hcall, -⟩ := (hiff 3 (by decide)).mpr (by decide)
  exact ⟨fuel, ctx', s', hcall⟩

/-- A chunk without bytes, and one with a byte. -/
def nothingThenFive : List Frame :=
  [⟨true, .binary, none, (RecvBuffer.build 1 0 []).data, by decide⟩,
    ⟨true, .binary, none, (RecvBuffer.build 2 1 [5]).data, by decide⟩]

/-- The byte is never returned, by no loop. -/
theorem nothing_blocks :
    (∀ fuel, (recvMessage fuel newRecvCtx 1
      (SocketStream.ofSocket (.ofBytes (wire nothingThenFive)) .clientToPado)).1 ≠ .ok [5]) ∧
    ∃ q, RecvQueue.orderedMachine.run [.put (.build 1 0 []), .put (.build 2 1 [5])] =
        some (.ok q) ∧
      ∀ (loop : ReadLoop) recvZero fuel, (loop.run recvZero 1 fuel [] q.ctx).1 ≠ .ok [5] := by
  constructor
  · intro fuel hcall
    have hstart : Between SocketStream.pending newRecvCtx
        (SocketStream.ofSocket (.ofBytes (wire nothingThenFive)) .clientToPado) 1 [[], [5]]
        nothingThenFive :=
      ⟨Lined.start, rfl, Nat.zero_le _, ⟨rfl, by decide⟩, by simp⟩
    obtain ⟨hpass, -⟩ := hstart.loop_returned SocketStream.recvLaws
      (show ([] : Bytes).length ≤ 1 by decide) (Prod.ext hcall rfl)
    exact absurd hpass (by decide)
  · obtain ⟨r, hr⟩ := Option.isSome_iff_exists.mp (show (RecvQueue.orderedMachine.run
      [.put (.build 1 0 []), .put (.build 2 1 [5])]).isSome = true by decide)
    obtain ⟨q, rfl, h⟩ := checked_run RecvQueue.LinedUp RecvQueue.linedUp_init
      (fun _ _ h hen => h.step hen) hr
    have hrest : q.ctx.rest = [[], [5]] := by
      cases hr
      decide
    refine ⟨q, hr, fun loop recvZero fuel hrun => ?_⟩
    have hpass := loop.run_returned recvZero (show ([5] : Bytes).length = 1 from rfl) h.lined
      (show ([] : Bytes).length ≤ 1 by decide) (by rw [hrest]; decide) (Prod.ext hrun rfl)
    rw [hrest] at hpass
    exact absurd hpass (by decide)

end ZktlsNet
