import ZktlsNet.Lib.Bytes
import ZktlsNet.Lib.Buffer
import ZktlsNet.Ws.Failure

/-!
# The receive queue (`ws.h:197-223`, `ws.cpp:481-619`)

`RecvCtx` keeps the chunks that have arrived in a list ordered by id, and a
cursor `RecvInfo` into the chunk that is being read. A chunk is the memory
behind a list node: its id and its length are the first two words of what the
peer sent, so they are *read*, and a read outside the chunk is a fault.

The content of a chunk never changes once it is in the list, so the cursor's
`payload` pointer is modelled by the bytes it points at.
-/

namespace ZktlsNet

open NetLib

/-! ## Chunks -/

/-- `RecvBuffer`: the allocated bytes of one chunk. -/
structure RecvBuffer where
  data : Bytes
  deriving DecidableEq, Repr

namespace RecvBuffer

/-- The first word, `id`. -/
def id (b : RecvBuffer) : Nat := ofLE (slice b.data 0 8)

/-- The second word, `length`. -/
def length (b : RecvBuffer) : Nat := ofLE (slice b.data 8 8)

/-- The bytes behind the two words. -/
def payload (b : RecvBuffer) : Bytes := b.data.drop 16

/-- Reading `b->id` through the pointer. -/
def readId (b : RecvBuffer) : Res Nat :=
  if 8 ≤ b.data.length then .ok b.id else .error (.fault .outOfBounds)

/-- Reading `b->length` through the pointer. -/
def readLength (b : RecvBuffer) : Res Nat :=
  if 16 ≤ b.data.length then .ok b.length else .error (.fault .outOfBounds)

/-- The chunk with the given words and payload. -/
def build (id length : Nat) (payload : Bytes) : RecvBuffer :=
  ⟨toLE 8 id ++ toLE 8 length ++ payload⟩

/-- Both words lie in the chunk and the length word does not promise more
bytes than the chunk has. -/
structure Bounded (b : RecvBuffer) : Prop where
  words : 16 ≤ b.data.length
  length_le : b.length ≤ b.payload.length

/-- A chunk as a correct peer builds it: the length word is the payload's. -/
structure Framed (b : RecvBuffer) : Prop where
  words : 16 ≤ b.data.length
  length_eq : b.length = b.payload.length

theorem Framed.bounded {b : RecvBuffer} (h : b.Framed) : b.Bounded :=
  ⟨h.words, Nat.le_of_eq h.length_eq⟩

theorem payload_length (b : RecvBuffer) : b.payload.length = b.data.length - 16 := by
  simp [payload]

theorem id_lt (b : RecvBuffer) : b.id < 2 ^ 64 := by
  refine Nat.lt_of_lt_of_le (ofLE_lt _) ?_
  have hlen : (slice b.data 0 8).length ≤ 8 := by simp [slice]
  calc 256 ^ (slice b.data 0 8).length ≤ 256 ^ 8 := Nat.pow_le_pow_right (by omega) hlen
    _ = 2 ^ 64 := by norm_num

theorem readId_ok {b : RecvBuffer} (h : 16 ≤ b.data.length) : b.readId = .ok b.id :=
  if_pos (by omega)

theorem readLength_ok {b : RecvBuffer} (h : 16 ≤ b.data.length) :
    b.readLength = .ok b.length :=
  if_pos h

@[simp] theorem payload_build (id length : Nat) (payload : Bytes) :
    (build id length payload).payload = payload := by
  have h : (toLE 8 id ++ toLE 8 length).length = 16 := by simp
  rw [RecvBuffer.payload, build, ← h, List.drop_left]

@[simp] theorem data_build_length (id length : Nat) (payload : Bytes) :
    (build id length payload).data.length = 16 + payload.length := by
  simp only [build, List.length_append, toLE_length]

theorem id_build {id : Nat} (hid : id < 2 ^ 64) (length : Nat) (payload : Bytes) :
    (build id length payload).id = id := by
  have h : slice (build id length payload).data 0 8 = toLE 8 id := by
    rw [slice, List.drop_zero, build, List.append_assoc]
    exact List.take_left' (toLE_length 8 id)
  rw [RecvBuffer.id, h, ofLE_toLE_of_lt (by omega)]

theorem length_build (id : Nat) {length : Nat} (hlen : length < 2 ^ 64) (payload : Bytes) :
    (build id length payload).length = length := by
  have h : slice (build id length payload).data 8 8 = toLE 8 length := by
    rw [slice, build, List.append_assoc, List.drop_left' (toLE_length 8 id)]
    exact List.take_left' (toLE_length 8 length)
  rw [RecvBuffer.length, h, ofLE_toLE_of_lt (by omega)]

theorem framed_build {id : Nat} {payload : Bytes} (hlen : payload.length < 2 ^ 64) :
    (build id payload.length payload).Framed := by
  constructor
  · show 16 ≤ (toLE 8 id ++ toLE 8 payload.length ++ payload).length
    simp only [List.length_append, toLE_length]
    omega
  · rw [length_build id hlen, payload_build]

end RecvBuffer

/-! ## The context -/

/-- `RecvInfo`: the cursor. `payload` stands for the bytes the pointer sees;
`prevId` is the id of the last chunk read to its end. -/
structure RecvInfo where
  id : Nat
  payload : Bytes
  offset : Nat
  length : Nat
  prevId : Nat
  valid : Bool
  deriving DecidableEq, Repr

/-- `RecvCtx`: `list` in the order of the `next` pointers. -/
structure RecvCtx where
  list : List RecvBuffer
  info : Option RecvInfo
  isChunk : Bool
  deriving DecidableEq, Repr

/-- `NewRecvCtx`. -/
def newRecvCtx : RecvCtx := ⟨[], none, false⟩

/-- The cursor made by the first put: only `valid` and `prev_id` are set by the
source, the other fields are not read before the cursor is valid. -/
def RecvInfo.fresh : RecvInfo := ⟨0, [], 0, 0, 0, false⟩

/-- `ctx->info->prev_id`, `0` before the first put. -/
def RecvCtx.prevId (ctx : RecvCtx) : Nat := (ctx.info.map RecvInfo.prevId).getD 0

/-- The walk of `PutToRecvCtx`: the new node goes in front of the first node
with a larger id. -/
def insertRecvList (chunk : RecvBuffer) : List RecvBuffer → Res (List RecvBuffer)
  | [] => .ok [chunk]
  | b :: bs => do
    let i ← chunk.readId
    let j ← b.readId
    if i < j then return chunk :: b :: bs
    else return b :: (← insertRecvList chunk bs)

/-- The tail both functions share: an invalid cursor moves to the list head if
that head is the chunk after `prev_id`. -/
def armInfo (list : List RecvBuffer) (info : RecvInfo) : Res RecvInfo :=
  if info.valid then .ok info
  else
    match list with
    | [] => .ok info
    | b :: _ => do
      let i ← b.readId
      if (info.prevId + 1) % 2 ^ 64 = i then
        let len ← b.readLength
        return { info with
          id := i, length := len, payload := b.payload, offset := 0, valid := true }
      else return info

/-- `PutToRecvCtx(ctx, recv_chunk)`. -/
def putToRecvCtx (ctx : RecvCtx) (chunk : RecvBuffer) : Res RecvCtx := do
  let list ← insertRecvList chunk ctx.list
  if ctx.isChunk then return { ctx with list := list }
  let info ← armInfo list (ctx.info.getD RecvInfo.fresh)
  return { ctx with list := list, info := some info }

/-- The copying half of `RecvFromRecvCtx(ctx, buf, len)`: the bytes copied, and
the list and cursor after it. A chunk read to its end is taken off the list. -/
def copyFromChunk (list : List RecvBuffer) (info : RecvInfo) (len : Nat) :
    Res (Bytes × List RecvBuffer × RecvInfo) :=
  if info.offset < info.length then
    let minLen := min (info.length - info.offset) len
    if info.offset + minLen ≤ info.payload.length then
      let copied := slice info.payload info.offset minLen
      let info := { info with offset := info.offset + minLen }
      if info.offset = info.length then
        match list with
        | [] => .error (.fault .nullPointer)
        | tmp :: rest => do
          let i ← tmp.readId
          return (copied, rest, { info with prevId := i, valid := false })
      else .ok (copied, list, info)
    else .error (.fault .outOfBounds)
  else .ok ([], list, info)

/-- `RecvFromRecvCtx(ctx, buf, len)`: the bytes copied to `buf`. -/
def recvFromRecvCtx (ctx : RecvCtx) (len : Nat) : Res (Bytes × RecvCtx) :=
  match ctx.info with
  | none => .error (.fault .nullPointer)
  | some info => do
    let (copied, list, info) ← copyFromChunk ctx.list info len
    let info ← armInfo list info
    return (copied, { ctx with list := list, info := some info })

/-- `EmptyRecvCtx`. -/
def emptyRecvCtx (ctx : RecvCtx) : Bool :=
  if ctx.isChunk then ctx.list.isEmpty
  else
    match ctx.list, ctx.info with
    | [], _ => true
    | _, none => true
    | _ :: _, some info => !(info.valid && decide (info.offset < info.length))

/-- The pointer walk of `RecvFromRecvCtx(ctx, id)`: take out the first node
with the id, stopping early at a larger one. -/
def takeFromRecvList (id : Nat) : List RecvBuffer → Res (Option RecvBuffer × List RecvBuffer)
  | [] => .ok (none, [])
  | b :: bs => do
    let i ← b.readId
    if i = id then return (some b, bs)
    else if id < i then return (none, b :: bs)
    else
      let (found, rest) ← takeFromRecvList id bs
      return (found, b :: rest)

/-- `RecvFromRecvCtx(ctx, id)`. -/
def recvFromRecvCtxById (ctx : RecvCtx) (id : Nat) : Res (Option RecvBuffer × RecvCtx) := do
  let (found, list) ← takeFromRecvList id ctx.list
  return (found, { ctx with list := list })

/-! ## The walks on chunks that hold their two words -/

/-- `insertRecvList` where no read faults. -/
def insertById (chunk : RecvBuffer) : List RecvBuffer → List RecvBuffer
  | [] => [chunk]
  | b :: bs => if chunk.id < b.id then chunk :: b :: bs else b :: insertById chunk bs

theorem insertRecvList_ok {chunk : RecvBuffer} {list : List RecvBuffer}
    (hc : 16 ≤ chunk.data.length) (hl : ∀ b ∈ list, 16 ≤ b.data.length) :
    insertRecvList chunk list = .ok (insertById chunk list) := by
  induction list with
  | nil => rfl
  | cons b bs ih =>
    have hb : 16 ≤ b.data.length := hl b (List.mem_cons_self ..)
    have ih := ih fun b' hb' => hl b' (List.mem_cons_of_mem _ hb')
    by_cases h : chunk.id < b.id
    · simp [insertRecvList, insertById, RecvBuffer.readId_ok hc, RecvBuffer.readId_ok hb, h]
    · simp [insertRecvList, insertById, RecvBuffer.readId_ok hc, RecvBuffer.readId_ok hb, h, ih]

theorem mem_insertById {chunk b : RecvBuffer} {list : List RecvBuffer} :
    b ∈ insertById chunk list ↔ b = chunk ∨ b ∈ list := by
  induction list with
  | nil => simp [insertById]
  | cons a as ih =>
    by_cases h : chunk.id < a.id
    · simp [insertById, h]
    · simp only [insertById, h, if_false, List.mem_cons, ih]
      tauto

theorem insertById_perm (chunk : RecvBuffer) (list : List RecvBuffer) :
    (insertById chunk list).Perm (chunk :: list) := by
  induction list with
  | nil => exact .refl _
  | cons a as ih =>
    by_cases h : chunk.id < a.id
    · simp [insertById, h]
    · simp only [insertById, h, if_false]
      exact (ih.cons a).trans (.swap chunk a as)

/-- Insertion keeps the list strictly ordered when the id is new. -/
theorem insertById_sorted {chunk : RecvBuffer} {list : List RecvBuffer}
    (hnew : ∀ b ∈ list, b.id ≠ chunk.id) (hs : list.Pairwise (·.id < ·.id)) :
    (insertById chunk list).Pairwise (·.id < ·.id) := by
  induction list with
  | nil => simp [insertById]
  | cons a as ih =>
    obtain ⟨ha, has⟩ := List.pairwise_cons.mp hs
    by_cases h : chunk.id < a.id
    · simp only [insertById, h, if_true]
      refine List.pairwise_cons.mpr ⟨fun b hb => ?_, hs⟩
      rcases List.mem_cons.mp hb with rfl | hb
      · exact h
      · exact Nat.lt_trans h (ha b hb)
    · simp only [insertById, h, if_false]
      have hne : a.id ≠ chunk.id := hnew a (List.mem_cons_self ..)
      refine List.pairwise_cons.mpr ⟨fun b hb => ?_,
        ih (fun b hb => hnew b (List.mem_cons_of_mem _ hb)) has⟩
      rcases mem_insertById.mp hb with rfl | hb
      · show a.id < b.id
        omega
      · exact ha b hb

end ZktlsNet
