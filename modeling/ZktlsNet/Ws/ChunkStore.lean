import ZktlsNet.Lib.KeyedQueue
import ZktlsNet.Lib.LinkedList
import ZktlsNet.Lib.Machine
import ZktlsNet.Ws.RecvCtx

/-!
# The store of chunks, in memory (`ws.cpp:481-534`, `ws.cpp:591-619`)

A `RecvCtx` with `is_chunk` set is a store of chunks by id. `Ws.RecvCtx` has its list as a
Lean list; here the nodes are in a heap and the two walks move pointers. A chunk that a
look-up returns belongs to the caller, and counts as freed from then on, so that a walk
that came across it would be a fault.

- `putToRecvCtx_spec`, `recvFromRecvCtx_spec`: the walks put the chunk behind those whose
  id is not larger, and take out the first with the id.
- `chunkMachine_run`: in any sequence of the two the store is a multimap that gives the
  chunks of an id back in the order in which they were put in.
- `putToRecvCtx_refines`, `recvFromRecvCtx_refines`: the lists of `Ws.RecvCtx`.
-/

namespace ZktlsNet

open NetLib

/-- A `RecvCtx` with `is_chunk` set: the heap with its nodes, and `list`. -/
structure ChunkStore where
  heap : ListHeap RecvBuffer
  list : Option Ptr
  deriving DecidableEq, Repr

namespace ChunkStore

/-- Reading a node through a pointer. -/
def node (h : ListHeap RecvBuffer) (p : Ptr) : Res (ListNode RecvBuffer) :=
  h.deref (.fault .useAfterFree) p

/-- `p->next = next`. -/
def setNext (h : ListHeap RecvBuffer) (p : Ptr) (next : Option Ptr) : Res (ListHeap RecvBuffer) :=
  h.setNext (.fault .useAfterFree) p next

/-! ## `PutToRecvCtx` -/

/-- The loop of `PutToRecvCtx`, and `p_list` and `q_list` at its end. -/
def putLoop (recvChunk : Ptr) : Nat → Option Ptr → Option Ptr → ChunkStore →
    Res (Option Ptr × Option Ptr × ChunkStore)
  | _, pList, none, s => return (pList, none, s)
  | 0, _, some _, _ => .error .outOfFuel
  | fuel + 1, pList, some q, s => do
    let recvBuffer ← node s.heap recvChunk
    let b ← node s.heap q
    if (← recvBuffer.data.readId) < (← b.data.readId) then
      let heap ← setNext s.heap recvChunk (some q)
      match pList with
      | none => return (none, some q, ⟨heap, some recvChunk⟩)
      | some p => return (some p, some q, ⟨← setNext heap p (some recvChunk), s.list⟩)
    else putLoop recvChunk fuel (some q) b.next s

/-- What follows the loop. -/
def putTail (recvChunk : Ptr) : Option Ptr × Option Ptr × ChunkStore → Res ChunkStore
  | (_, some _, s) => return s
  | (some p, none, s) => return { s with heap := ← setNext s.heap p (some recvChunk) }
  | (none, none, _) => .error (.fault .nullPointer)

/-- `PutToRecvCtx(ctx, recv_chunk)`. -/
def putToRecvCtx (s : ChunkStore) (recvChunk : Ptr) : Res ChunkStore :=
  match s.list with
  | none => return { s with list := some recvChunk }
  | some q => do putTail recvChunk (← putLoop recvChunk s.heap.length none (some q) s)

/-- `PutToRecvCtx(ctx, buf, len)`: the pointer of the new node, and the store. -/
def putBytes (s : ChunkStore) (buf : Bytes) : Res (Ptr × ChunkStore) := do
  let s' ← putToRecvCtx { s with heap := s.heap.alloc ⟨none, ⟨buf⟩⟩ } s.heap.length
  return (s.heap.length, s')

/-- The id that `PutToRecvCtx(ctx, id, buf, len)` writes: `-1` stands for the `int` at
`buf`. -/
def idOf (id : Nat) (buf : Bytes) : Res Nat :=
  if id = 2 ^ 64 - 1 then
    if 4 ≤ buf.length then .ok (((ofLE (buf.take 4) : Int).bmod (2 ^ 32) % 2 ^ 64).toNat)
    else .error (.fault .outOfBounds)
  else .ok id

/-- `PutToRecvCtx(ctx, id, buf, len)`. -/
def putWithId (s : ChunkStore) (id : Nat) (buf : Bytes) : Res (Ptr × ChunkStore) := do
  s.putBytes (RecvBuffer.build (← idOf id buf) buf.length buf).data

/-! ## `RecvFromRecvCtx` -/

/-- The loop of `RecvFromRecvCtx(ctx, id)`. -/
def takeLoop (id : Nat) : Nat → Ptr → Option Ptr → ListHeap RecvBuffer →
    Res (Option Ptr × ListHeap RecvBuffer)
  | _, _, none, h => return (none, h)
  | 0, _, some _, _ => .error .outOfFuel
  | fuel + 1, p, some next, h => do
    let buffer ← node h next
    let i ← buffer.data.readId
    if i = id then return (some next, ← setNext h p buffer.next)
    else if id < i then return (none, h)
    else takeLoop id fuel next buffer.next h

/-- `RecvFromRecvCtx(ctx, id)`. -/
def recvFromRecvCtx (s : ChunkStore) (id : Nat) : Res (Option Ptr × ChunkStore) :=
  match s.list with
  | none => return (none, s)
  | some p => do
    let recvBuffer ← node s.heap p
    let i ← recvBuffer.data.readId
    if i = id then return (some p, { s with list := recvBuffer.next })
    else if id < i then return (none, s)
    else
      let (res, heap) ← takeLoop id s.heap.length p recvBuffer.next s.heap
      return (res, { s with heap := heap })

/-! ## The walks -/

/-- The id of a cell. -/
abbrev cellId (c : Ptr × RecvBuffer) : Nat := c.2.id

theorem node_of_read {h : ListHeap RecvBuffer} {p : Ptr} {n : ListNode RecvBuffer}
    (hp : h.read p = some n) : node h p = .ok n := ListHeap.deref_of_read _ hp

theorem setNext_of_read {h : ListHeap RecvBuffer} {p : Ptr} {old : Option Ptr} {b : RecvBuffer}
    (hp : h.read p = some ⟨old, b⟩) (next : Option Ptr) :
    setNext h p next = .ok (h.write p ⟨next, b⟩) := ListHeap.setNext_of_read _ hp next

/-- A heap that has changed nothing but the given nodes, and has allocated none. -/
structure Changes (ptrs : List Ptr) (h h' : ListHeap RecvBuffer) : Prop where
  length : h'.length = h.length
  read : ∀ r, r ∉ ptrs → h'.read r = h.read r

theorem Changes.refl (ptrs : List Ptr) (h : ListHeap RecvBuffer) : Changes ptrs h h :=
  ⟨rfl, fun _ _ => rfl⟩

theorem Changes.write {ptrs : List Ptr} {h h' : ListHeap RecvBuffer} (hc : Changes ptrs h h')
    {p : Ptr} (hp : p ∈ ptrs) (n : ListNode RecvBuffer) : Changes ptrs h (h'.write p n) where
  length := (ListHeap.length_write ..).trans hc.length
  read r hr := by
    rw [ListHeap.read_write_ne (by rintro rfl; exact hr hp), hc.read r hr]

theorem Changes.mono {ptrs ptrs' : List Ptr} {h h' : ListHeap RecvBuffer}
    (hc : Changes ptrs h h') (hsub : ptrs ⊆ ptrs') : Changes ptrs' h h' where
  length := hc.length
  read r hr := hc.read r fun hmem => hr (hsub hmem)

/-- A new cell in front of a chain, behind the node of another one. -/
theorem linked_link {h : ListHeap RecvBuffer} {c : Ptr} {b : RecvBuffer} {p : Ptr × RecvBuffer}
    {old q : Option Ptr} {rest : List (Ptr × RecvBuffer)} (hc : h.read c = some ⟨q, b⟩)
    (hp : h.read p.1 = some ⟨old, p.2⟩) (hl : ListHeap.Linked h q rest)
    (hcp : c ≠ p.1) (hpr : p.1 ∉ rest.map Prod.fst) :
    ListHeap.Linked (h.write p.1 ⟨some c, p.2⟩) (some p.1) (p :: (c, b) :: rest) := by
  refine ⟨rfl, some c, ListHeap.read_write_self (ListHeap.lt_of_read hp) _, rfl, q, ?_, ?_⟩
  · rw [ListHeap.read_write_ne hcp.symm, hc]
  · refine hl.frame fun d hd => ListHeap.read_write_ne ?_ _
    rintro hpd
    exact hpr (hpd ▸ List.mem_map_of_mem hd)

/-- **The walk of a put** behind the first node: it links the chunk behind those whose id is
not larger. -/
theorem putLoop_spec {c : Ptr} {b : RecvBuffer} {h : ListHeap RecvBuffer} (list : Option Ptr)
    (hc : h.read c = some ⟨none, b⟩) (hb : 16 ≤ b.data.length) (rest : List (Ptr × RecvBuffer)) :
    ∀ (fuel : Nat) (p : Ptr × RecvBuffer) (q : Option Ptr), rest.length ≤ fuel →
      h.read p.1 = some ⟨q, p.2⟩ → ListHeap.Linked h q rest → p.1 ∉ rest.map Prod.fst →
      (∀ d ∈ rest, 16 ≤ d.2.data.length) → c ≠ p.1 → c ∉ rest.map Prod.fst →
      ∃ h', (putLoop c fuel (some p.1) q ⟨h, list⟩ >>= putTail c) = .ok ⟨h', list⟩ ∧
        ListHeap.Linked h' (some p.1) (p :: KeyedQueue.insert cellId (c, b) rest) ∧
        Changes (c :: p.1 :: rest.map Prod.fst) h h' := by
  induction rest with
  | nil =>
    intro fuel p q hfuel hp hl hpr hwords hcp hcr
    obtain rfl := ListHeap.linked_nil.mp hl
    refine ⟨h.write p.1 ⟨some c, p.2⟩, ?_, linked_link hc hp hl hcp hpr,
      (Changes.refl _ h).write (by simp) _⟩
    unfold putLoop
    simp only [pure_eq_ok, ok_bind, putTail, setNext_of_read hp]
  | cons d rest ih =>
    intro fuel p q hfuel hp hl hpr hwords hcp hcr
    obtain ⟨fuel, rfl⟩ : ∃ fuel', fuel = fuel' + 1 := ⟨fuel - 1, by simp at hfuel; omega⟩
    obtain ⟨rfl, next, hd, hrest⟩ := ListHeap.linked_cons.mp hl
    have hnodup := List.nodup_cons.mp hl.nodup
    rw [putLoop, node_of_read hc, ok_bind, node_of_read hd, ok_bind, RecvBuffer.readId_ok hb,
      ok_bind, RecvBuffer.readId_ok (hwords d List.mem_cons_self), ok_bind]
    by_cases hlt : b.id < d.2.id
    · -- the chunk goes in front of this node
      have hcd : c ∉ (d :: rest).map Prod.fst := hcr
      have hc' := ListHeap.read_write_self (ListHeap.lt_of_read hc) ⟨some d.1, b⟩
      have hp' : (h.write c ⟨some d.1, b⟩).read p.1 = some ⟨some d.1, p.2⟩ := by
        rw [ListHeap.read_write_ne hcp, hp]
      have hl' : ListHeap.Linked (h.write c ⟨some d.1, b⟩) (some d.1) (d :: rest) := by
        refine hl.frame fun e he => ListHeap.read_write_ne ?_ _
        rintro rfl
        exact hcd (List.mem_map_of_mem he)
      have hchanges : Changes (c :: p.1 :: (d :: rest).map Prod.fst) h
          ((h.write c ⟨some d.1, b⟩).write p.1 ⟨some c, p.2⟩) :=
        ((Changes.refl _ h).write List.mem_cons_self _).write (by simp) _
      refine ⟨_, ?_, ?_, hchanges⟩
      · rw [if_pos hlt, setNext_of_read hc, ok_bind]
        simp only [setNext_of_read hp', ok_bind, pure_eq_ok, putTail]
      · rw [KeyedQueue.insert_cons_of_lt cellId hlt]
        exact linked_link hc' hp' hl' hcp hpr
    · -- the walk goes on behind it
      obtain ⟨h', hrun, hl', hchanges⟩ := ih fuel d next (by simpa using hfuel) hd hrest hnodup.1
        (fun e he => hwords e (List.mem_cons_of_mem _ he))
        (fun hcd => hcr (hcd ▸ List.mem_cons_self)) (fun hmem => hcr (List.mem_cons_of_mem _ hmem))
      refine ⟨h', ?_, ?_, hchanges.mono fun r hr => by simp at hr ⊢; tauto⟩
      · rw [if_neg hlt]
        exact hrun
      · rw [KeyedQueue.insert_cons_of_not_lt cellId hlt]
        refine ⟨rfl, some d.1, ?_, hl'⟩
        rw [hchanges.read p.1 (by simp only [List.mem_cons, not_or]; exact ⟨hcp.symm,
          fun h => hpr (h ▸ List.mem_cons_self), fun h => hpr (List.mem_cons_of_mem _ h)⟩), hp]

/-- What a store holds: the cells along its list, each chunk with its two words. -/
structure Holds (s : ChunkStore) (cells : List (Ptr × RecvBuffer)) : Prop where
  linked : s.heap.Linked s.list cells
  words : ∀ c ∈ cells, 16 ≤ c.2.data.length

/-- **`PutToRecvCtx`** of a new chunk. -/
theorem putToRecvCtx_spec {s : ChunkStore} {cells : List (Ptr × RecvBuffer)} (h : s.Holds cells)
    {c : Ptr} {b : RecvBuffer} (hc : s.heap.read c = some ⟨none, b⟩) (hb : 16 ≤ b.data.length)
    (hnew : c ∉ cells.map Prod.fst) :
    ∃ s', s.putToRecvCtx c = .ok s' ∧ s'.Holds (KeyedQueue.insert cellId (c, b) cells) := by
  obtain ⟨heap, list⟩ := s
  have hwords : ∀ d ∈ KeyedQueue.insert cellId (c, b) cells, 16 ≤ d.2.data.length := by
    intro d hd
    rcases (List.mem_orderedInsert _).mp hd with rfl | hd
    · exact hb
    · exact h.words d hd
  cases cells with
  | nil =>
    obtain rfl : list = none := ListHeap.linked_nil.mp h.linked
    exact ⟨⟨heap, some c⟩, rfl, ⟨rfl, none, hc, rfl⟩, hwords⟩
  | cons d rest =>
    have hlinked : heap.Linked list (d :: rest) := h.linked
    obtain ⟨rfl, next, hd, hrest⟩ := ListHeap.linked_cons.mp hlinked
    have hcd : c ≠ d.1 := fun hcd => hnew (hcd ▸ List.mem_cons_self)
    have hcr : c ∉ rest.map Prod.fst := fun hmem => hnew (List.mem_cons_of_mem _ hmem)
    have hlen : rest.length + 1 ≤ heap.length := h.linked.length_le
    obtain ⟨fuel, hfuel⟩ : ∃ fuel, heap.length = fuel + 1 := ⟨heap.length - 1, by omega⟩
    simp only [putToRecvCtx, hfuel, putLoop, node_of_read hc, node_of_read hd, ok_bind,
      RecvBuffer.readId_ok hb, RecvBuffer.readId_ok (h.words d List.mem_cons_self)]
    by_cases hlt : b.id < d.2.id
    · -- the chunk becomes the head
      refine ⟨⟨heap.write c ⟨some d.1, b⟩, some c⟩, ?_, ?_, hwords⟩
      · rw [if_pos hlt, setNext_of_read hc]
        rfl
      · rw [KeyedQueue.insert_cons_of_lt cellId hlt]
        refine ⟨rfl, some d.1, ListHeap.read_write_self (ListHeap.lt_of_read hc) _, ?_⟩
        refine h.linked.frame fun e he => ListHeap.read_write_ne ?_ _
        rintro rfl
        exact hnew (List.mem_map_of_mem he)
    · obtain ⟨heap', hrun, hl', -⟩ := putLoop_spec (some d.1) hc hb rest fuel d next (by omega) hd
        hrest (List.nodup_cons.mp h.linked.nodup).1
        (fun e he => h.words e (List.mem_cons_of_mem _ he)) hcd hcr
      refine ⟨⟨heap', some d.1⟩, ?_, ?_, hwords⟩
      · rw [if_neg hlt]
        exact hrun
      · rw [KeyedQueue.insert_cons_of_not_lt cellId hlt]
        exact hl'

/-- **The walk of a look-up** behind the first node. -/
theorem takeLoop_spec (id : Nat) (rest : List (Ptr × RecvBuffer)) :
    ∀ (fuel : Nat) (p : Ptr × RecvBuffer) (q : Option Ptr) (h : ListHeap RecvBuffer),
      rest.length ≤ fuel → h.read p.1 = some ⟨q, p.2⟩ → h.Linked q rest →
      p.1 ∉ rest.map Prod.fst → (∀ d ∈ rest, 16 ≤ d.2.data.length) →
      ∃ h', takeLoop id fuel p.1 q h =
          .ok ((KeyedQueue.takeFirst cellId id rest).1.map Prod.fst, h') ∧
        h'.Linked (some p.1) (p :: (KeyedQueue.takeFirst cellId id rest).2) ∧
        Changes (p.1 :: rest.map Prod.fst) h h' ∧
        ((KeyedQueue.takeFirst cellId id rest).1 = none → h' = h) := by
  induction rest with
  | nil =>
    intro fuel p q h hfuel hp hl hpr hwords
    obtain rfl := ListHeap.linked_nil.mp hl
    refine ⟨h, ?_, ⟨rfl, none, hp, rfl⟩, Changes.refl _ h, fun _ => rfl⟩
    unfold takeLoop
    rfl
  | cons d rest ih =>
    intro fuel p q h hfuel hp hl hpr hwords
    obtain ⟨fuel, rfl⟩ : ∃ fuel', fuel = fuel' + 1 := ⟨fuel - 1, by simp at hfuel; omega⟩
    obtain ⟨rfl, next, hd, hrest⟩ := ListHeap.linked_cons.mp hl
    have hnodup := List.nodup_cons.mp hl.nodup
    have hpr' : p.1 ∉ rest.map Prod.fst := fun hmem => hpr (List.mem_cons_of_mem _ hmem)
    rw [takeLoop, node_of_read hd, ok_bind, RecvBuffer.readId_ok (hwords d List.mem_cons_self),
      ok_bind, KeyedQueue.takeFirst]
    by_cases heq : d.2.id = id
    · rw [if_pos heq, if_pos heq, setNext_of_read hp]
      refine ⟨_, rfl, ⟨rfl, next, ListHeap.read_write_self (ListHeap.lt_of_read hp) _, ?_⟩,
        (Changes.refl _ h).write List.mem_cons_self _, fun hnone => by cases hnone⟩
      refine hrest.frame fun e he => ListHeap.read_write_ne ?_ _
      rintro hpe
      exact hpr' (hpe ▸ List.mem_map_of_mem he)
    · by_cases hlt : id < d.2.id
      · rw [if_neg heq, if_pos hlt, if_neg heq, if_pos hlt]
        exact ⟨h, rfl, ⟨rfl, some d.1, hp, hl⟩, Changes.refl _ h, fun _ => rfl⟩
      · obtain ⟨h', hrun, hl', hchanges, hsame⟩ := ih fuel d next h (by simpa using hfuel) hd hrest
          hnodup.1 fun e he => hwords e (List.mem_cons_of_mem _ he)
        rw [if_neg heq, if_neg hlt, if_neg heq, if_neg hlt]
        refine ⟨h', hrun, ⟨rfl, some d.1, ?_, hl'⟩,
          hchanges.mono (List.subset_cons_self _ _), hsame⟩
        rw [hchanges.read p.1 hpr, hp]

/-- **`RecvFromRecvCtx(ctx, id)`.** -/
theorem recvFromRecvCtx_spec {s : ChunkStore} {cells : List (Ptr × RecvBuffer)}
    (h : s.Holds cells) (id : Nat) :
    ∃ s', s.recvFromRecvCtx id =
        .ok ((KeyedQueue.takeFirst cellId id cells).1.map Prod.fst, s') ∧
      s'.heap.Linked s'.list (KeyedQueue.takeFirst cellId id cells).2 ∧
      ((KeyedQueue.takeFirst cellId id cells).1 = none → s' = s) := by
  obtain ⟨heap, list⟩ := s
  cases cells with
  | nil =>
    obtain rfl : list = none := ListHeap.linked_nil.mp h.linked
    exact ⟨⟨heap, none⟩, rfl, rfl, fun _ => rfl⟩
  | cons d rest =>
    have hlinked : heap.Linked list (d :: rest) := h.linked
    obtain ⟨rfl, next, hd, hrest⟩ := ListHeap.linked_cons.mp hlinked
    have hlen : rest.length + 1 ≤ heap.length := h.linked.length_le
    simp only [recvFromRecvCtx, node_of_read hd, ok_bind,
      RecvBuffer.readId_ok (h.words d List.mem_cons_self), KeyedQueue.takeFirst]
    by_cases heq : d.2.id = id
    · rw [if_pos heq, if_pos heq]
      exact ⟨⟨heap, next⟩, rfl, hrest, fun hnone => by cases hnone⟩
    · by_cases hlt : id < d.2.id
      · rw [if_neg heq, if_pos hlt, if_neg heq, if_pos hlt]
        exact ⟨⟨heap, some d.1⟩, rfl, h.linked, fun _ => rfl⟩
      · obtain ⟨heap', hrun, hl', -, hsame⟩ := takeLoop_spec id rest heap.length d next heap
          (by omega) hd hrest (List.nodup_cons.mp h.linked.nodup).1
          fun e he => h.words e (List.mem_cons_of_mem _ he)
        rw [if_neg heq, if_neg hlt, if_neg heq, if_neg hlt, hrun]
        refine ⟨⟨heap', some d.1⟩, rfl, hl', ?_⟩
        intro hnone
        rw [hsame hnone]

/-! ## The lists of `Ws.RecvCtx` -/

/-- The context that `Ws.RecvCtx` has for a store. -/
def toRecvCtx (cells : List (Ptr × RecvBuffer)) : RecvCtx := ⟨cells.map Prod.snd, none, true⟩

theorem map_insert (c : Ptr) (b : RecvBuffer) (cells : List (Ptr × RecvBuffer)) :
    (KeyedQueue.insert cellId (c, b) cells).map Prod.snd = insertById b (cells.map Prod.snd) := by
  induction cells with
  | nil => rfl
  | cons d cells ih =>
    by_cases hlt : b.id < d.2.id
    · rw [KeyedQueue.insert_cons_of_lt cellId hlt, List.map_cons, List.map_cons, insertById,
        if_pos hlt]
    · rw [KeyedQueue.insert_cons_of_not_lt cellId hlt, List.map_cons, List.map_cons, insertById,
        if_neg hlt, ih]

/-- The put of `Ws.RecvCtx` is the one in memory. -/
theorem putToRecvCtx_refines {cells : List (Ptr × RecvBuffer)}
    (hwords : ∀ c ∈ cells, 16 ≤ c.2.data.length) (c : Ptr) {b : RecvBuffer}
    (hb : 16 ≤ b.data.length) :
    ZktlsNet.putToRecvCtx (toRecvCtx cells) b =
      .ok (toRecvCtx (KeyedQueue.insert cellId (c, b) cells)) := by
  have hinsert : insertRecvList b (cells.map Prod.snd) =
      .ok (insertById b (cells.map Prod.snd)) := by
    refine insertRecvList_ok hb fun d hd => ?_
    obtain ⟨e, he, rfl⟩ := List.mem_map.mp hd
    exact hwords e he
  rw [ZktlsNet.putToRecvCtx, toRecvCtx, toRecvCtx, hinsert, map_insert]
  rfl

/-- So is the look-up. -/
theorem recvFromRecvCtx_refines {cells : List (Ptr × RecvBuffer)}
    (hwords : ∀ c ∈ cells, 16 ≤ c.2.data.length) (id : Nat) :
    recvFromRecvCtxById (toRecvCtx cells) id =
      .ok ((KeyedQueue.takeFirst cellId id cells).1.map Prod.snd,
        toRecvCtx (KeyedQueue.takeFirst cellId id cells).2) := by
  have htake : takeFromRecvList id (cells.map Prod.snd) =
      .ok ((KeyedQueue.takeFirst cellId id cells).1.map Prod.snd,
        (KeyedQueue.takeFirst cellId id cells).2.map Prod.snd) := by
    induction cells with
    | nil => rfl
    | cons d cells ih =>
      rw [List.map_cons, takeFromRecvList, RecvBuffer.readId_ok (hwords d List.mem_cons_self),
        ok_bind, KeyedQueue.takeFirst, ih fun e he => hwords e (List.mem_cons_of_mem _ he)]
      by_cases heq : d.2.id = id
      · simp [heq]
      · by_cases hlt : id < d.2.id
        · simp [heq, hlt]
        · simp [heq, hlt]
  rw [recvFromRecvCtxById, toRecvCtx, htake]
  rfl

end ChunkStore

/-! ## Runs -/

/-- A store in use, with the chunks that are in it in the order in which they were put in. -/
structure ChunkRun where
  store : ChunkStore
  arrived : List (Ptr × RecvBuffer)
  deriving DecidableEq, Repr

/-- The calls on a store: the two ways to put a chunk in, and the look-up. -/
inductive ChunkEvent where
  | put (buf : Bytes)
  | putWithId (id : Nat) (buf : Bytes)
  | take (id : Nat)
  deriving DecidableEq, Repr

namespace ChunkRun

/-- `NewRecvCtx`, with `is_chunk` set. -/
def init : ChunkRun := ⟨⟨[], none⟩, []⟩

/-- A chunk has its two words; with the id -1 it has the `int` that is to be the id. -/
def enabled (_ : ChunkRun) : ChunkEvent → Bool
  | .put buf => decide (16 ≤ buf.length)
  | .putWithId id buf =>
    decide (id < 2 ^ 64) && (decide (id ≠ 2 ^ 64 - 1) || decide (4 ≤ buf.length))
  | .take _ => true

/-- What a call does. -/
def act (s : ChunkRun) : ChunkEvent → Res ChunkRun
  | .put buf => do
    let (p, store) ← s.store.putBytes buf
    return ⟨store, s.arrived ++ [(p, ⟨buf⟩)]⟩
  | .putWithId id buf => do
    let (p, store) ← s.store.putWithId id buf
    let i ← ChunkStore.idOf id buf
    return ⟨store, s.arrived ++ [(p, RecvBuffer.build i buf.length buf)]⟩
  | .take id => do
    match ← s.store.recvFromRecvCtx id with
    | (none, store) => return { s with store := store }
    | (some p, store) =>
      return ⟨{ store with heap := store.heap.free p }, s.arrived.filter fun c => c.1 ≠ p⟩

/-- **The invariant**: the list is ordered by id, and the chunks of an id are in the order
in which they were put in. -/
structure Inv (s : ChunkRun) (cells : List (Ptr × RecvBuffer)) : Prop where
  holds : s.store.Holds cells
  ordered : KeyedQueue.Ordered ChunkStore.cellId cells
  same : KeyedQueue.SameQueues ChunkStore.cellId cells s.arrived

variable {s : ChunkRun} {cells : List (Ptr × RecvBuffer)}

theorem Inv.perm (h : s.Inv cells) : cells.Perm s.arrived := h.same.perm

theorem Inv.nodup (h : s.Inv cells) : (s.arrived.map Prod.fst).Nodup :=
  (h.perm.map Prod.fst).nodup h.holds.linked.nodup

/-- Removing a cell by its pointer. -/
theorem filter_ptr {before after : List (Ptr × RecvBuffer)} {c : Ptr × RecvBuffer}
    (h : ((before ++ c :: after).map Prod.fst).Nodup) :
    (before ++ c :: after).filter (fun d => d.1 ≠ c.1) = before ++ after := by
  rw [List.map_append, List.map_cons, List.nodup_middle, List.nodup_cons, List.mem_append] at h
  have hne : ∀ d ∈ before ++ after, decide (d.1 ≠ c.1) = true := by
    intro d hd
    rw [decide_eq_true_eq]
    rintro hdc
    rcases List.mem_append.mp hd with hd | hd
    · exact h.1 (.inl (hdc ▸ List.mem_map_of_mem hd))
    · exact h.1 (.inr (hdc ▸ List.mem_map_of_mem hd))
  rw [List.filter_append, List.filter_cons_of_neg (by simp), ← List.filter_append,
    List.filter_eq_self.mpr hne]

theorem inv_init : init.Inv [] where
  holds := ⟨rfl, nofun⟩
  ordered := List.Pairwise.nil
  same := KeyedQueue.SameQueues.refl _

/-- **A put** keeps the invariant. -/
theorem Inv.putBytes (h : s.Inv cells) {buf : Bytes} (hbuf : 16 ≤ buf.length) :
    ∃ p store, s.store.putBytes buf = .ok (p, store) ∧
      Inv ⟨store, s.arrived ++ [(p, ⟨buf⟩)]⟩
        (KeyedQueue.insert ChunkStore.cellId (p, ⟨buf⟩) cells) := by
  have halloc : ChunkStore.Holds { s.store with heap := s.store.heap.alloc ⟨none, ⟨buf⟩⟩ } cells :=
    ⟨h.holds.linked.frame fun c hc => ListHeap.read_alloc_of_lt (h.holds.linked.lt_of_mem hc) _,
      h.holds.words⟩
  have hnew : s.store.heap.length ∉ cells.map Prod.fst := by
    intro hmem
    obtain ⟨c, hc, hlen⟩ := List.mem_map.mp hmem
    exact Nat.ne_of_lt (h.holds.linked.lt_of_mem hc) hlen
  obtain ⟨store, hput, hholds⟩ := ChunkStore.putToRecvCtx_spec halloc
    (ListHeap.read_alloc_self _ _) hbuf hnew
  refine ⟨s.store.heap.length, store, ?_, hholds, KeyedQueue.ordered_insert h.ordered,
    KeyedQueue.sameQueues_insert h.ordered h.same⟩
  rw [ChunkStore.putBytes, hput]
  rfl

/-- **A look-up**: it finds nothing where no chunk has the id, and else the first with the
id that was put in, which is the only one that is taken off the list. -/
theorem Inv.lookup (h : s.Inv cells) (id : Nat) :
    (∃ store, s.store.recvFromRecvCtx id = .ok (none, store) ∧ store = s.store ∧
      ∀ c ∈ cells, c.2.id ≠ id) ∨
    ∃ c before after store, s.store.recvFromRecvCtx id = .ok (some c.1, store) ∧
      s.arrived = before ++ c :: after ∧ c ∈ cells ∧ c.2.id = id ∧ (∀ d ∈ before, d.2.id ≠ id) ∧
      store.heap.Linked store.list (cells.filter fun d => d.1 ≠ c.1) ∧
      KeyedQueue.Ordered ChunkStore.cellId (cells.filter fun d => d.1 ≠ c.1) ∧
      KeyedQueue.SameQueues ChunkStore.cellId (cells.filter fun d => d.1 ≠ c.1)
        (s.arrived.filter fun d => d.1 ≠ c.1) := by
  obtain ⟨store, hrun, hlinked, hsame⟩ := ChunkStore.recvFromRecvCtx_spec h.holds id
  rw [h.ordered.takeFirst_eq] at hrun hlinked hsame
  cases hfind : cells.find? fun c => decide (ChunkStore.cellId c = id) with
  | none =>
    rw [hfind] at hrun hsame
    refine .inl ⟨store, hrun, hsame rfl, fun c hc heq => ?_⟩
    simpa [heq] using List.find?_eq_none.mp hfind c hc
  | some c =>
    rw [hfind] at hrun
    have harrived := h.same.find?_eq id
    rw [hfind] at harrived
    obtain ⟨-, before, after, hcells, -, herase⟩ := KeyedQueue.find?_split hfind
    obtain ⟨hid, before', after', harr, hfirst, herase'⟩ := KeyedQueue.find?_split harrived.symm
    have hleft : cells.filter (fun d => d.1 ≠ c.1) =
        cells.eraseP fun d => decide (ChunkStore.cellId d = id) := by
      rw [herase, hcells]
      exact filter_ptr (hcells ▸ h.holds.linked.nodup)
    have hleft' : s.arrived.filter (fun d => d.1 ≠ c.1) =
        s.arrived.eraseP fun d => decide (ChunkStore.cellId d = id) := by
      rw [herase', harr]
      exact filter_ptr (harr ▸ h.nodup)
    refine .inr ⟨c, before', after', store, hrun, harr, List.mem_of_find?_eq_some hfind,
      of_decide_eq_true hid, fun d hd => of_decide_eq_false (hfirst d hd), ?_, ?_, ?_⟩
    · rw [hleft]
      exact hlinked
    · rw [hleft]
      exact h.ordered.eraseP _
    · rw [hleft, hleft']
      exact h.same.eraseP id

/-- A chunk with the id of its argument is built as a put of its bytes. -/
theorem idOf_ok {id : Nat} {buf : Bytes} (h : enabled s (.putWithId id buf) = true) :
    ∃ i, ChunkStore.idOf id buf = .ok i := by
  simp only [enabled, Bool.and_eq_true, Bool.or_eq_true, decide_eq_true_eq] at h
  rw [ChunkStore.idOf]
  by_cases hid : id = 2 ^ 64 - 1
  · rw [if_pos hid, if_pos (h.2.resolve_left fun hne => hne hid)]
    exact ⟨_, rfl⟩
  · rw [if_neg hid]
    exact ⟨_, rfl⟩

/-- **Step lemma.** -/
theorem Inv.act (h : s.Inv cells) {e : ChunkEvent} (hen : enabled s e = true) :
    ∃ s', s.act e = .ok s' ∧ ∃ cells', s'.Inv cells' := by
  cases e with
  | put buf =>
    obtain ⟨p, store, hput, hinv⟩ := h.putBytes (of_decide_eq_true hen)
    rw [ChunkRun.act, hput]
    exact ⟨_, rfl, _, hinv⟩
  | putWithId id buf =>
    obtain ⟨i, hi⟩ := idOf_ok hen
    have hwords : 16 ≤ (RecvBuffer.build i buf.length buf).data.length := by
      rw [RecvBuffer.data_build_length]
      omega
    obtain ⟨p, store, hput, hinv⟩ := h.putBytes hwords
    rw [ChunkRun.act, ChunkStore.putWithId, hi, ok_bind, hput]
    exact ⟨_, rfl, _, hinv⟩
  | take id =>
    rcases h.lookup id with ⟨store, hrun, rfl, -⟩ |
      ⟨c, before, after, store, hrun, -, -, -, -, hlinked, hordered, hsame⟩
    · rw [ChunkRun.act, hrun]
      exact ⟨_, rfl, cells, h⟩
    · rw [ChunkRun.act, hrun]
      refine ⟨_, rfl, _, ⟨hlinked.frame fun d hd => ListHeap.read_free_ne ?_, ?_⟩, hordered, hsame⟩
      · exact Ne.symm (of_decide_eq_true (List.mem_filter.mp hd).2)
      · exact fun d hd => h.holds.words d (List.mem_filter.mp hd).1

end ChunkRun

/-- The runs of a store. -/
def chunkMachine : Machine (Res ChunkRun) ChunkEvent :=
  checked .init ChunkRun.enabled ChunkRun.act

/-- **The store is a multimap**, after any sequence of puts and look-ups: its list is ordered
by id, holds the chunks that were put in and not given back, and the next look-up finds
nothing exactly if none of them has the id; else it gives back the one with the id that was
put in first, and leaves all others where they are. -/
theorem chunkMachine_run {es : List ChunkEvent} {r : Res ChunkRun}
    (hrun : chunkMachine.run es = some r) :
    ∃ s cells, r = .ok s ∧ s.store.heap.Linked s.store.list cells ∧
      cells.Pairwise (fun c d => c.2.id ≤ d.2.id) ∧ cells.Perm s.arrived ∧
      ∀ id, ∃ res store, s.store.recvFromRecvCtx id = .ok (res, store) ∧
        (res = none ↔ ∀ c ∈ cells, c.2.id ≠ id) ∧ (res = none → store = s.store) ∧
        ∀ p, res = some p → ∃ c before after, s.arrived = before ++ c :: after ∧ c.1 = p ∧
          c.2.id = id ∧ (∀ d ∈ before, d.2.id ≠ id) ∧
          store.heap.Linked store.list (cells.filter fun d => d.1 ≠ p) := by
  obtain ⟨s, rfl, cells, h⟩ := checked_run (fun s => ∃ cells, ChunkRun.Inv s cells)
    ⟨[], ChunkRun.inv_init⟩ (fun s e ⟨_, h⟩ hen => h.act hen) hrun
  refine ⟨s, cells, rfl, h.holds.linked, h.ordered, h.perm, fun id => ?_⟩
  rcases h.lookup id with ⟨store, hres, hsame, hnone⟩ |
    ⟨c, before, after, store, hres, harr, hmem, hid, hfirst, hlinked, -, -⟩
  · exact ⟨none, store, hres, ⟨fun _ => hnone, fun _ => rfl⟩, fun _ => hsame, nofun⟩
  · refine ⟨some c.1, store, hres, ⟨nofun, fun hno => absurd hid (hno c hmem)⟩, nofun, ?_⟩
    rintro p hp
    cases hp
    exact ⟨c, before, after, harr, rfl, hid, hfirst, hlinked⟩

/-- Of two chunks with one id, the first is found first. -/
theorem chunkMachine_run_twice :
    ∃ s store, chunkMachine.run
        [.putWithId 5 [1], .putWithId 3 [2], .putWithId 5 [3], .take 3] = some (.ok s) ∧
      s.store.recvFromRecvCtx 5 = .ok (some 0, store) := by
  obtain ⟨s, hrun, harrived⟩ : ∃ s, chunkMachine.run
      [.putWithId 5 [1], .putWithId 3 [2], .putWithId 5 [3], .take 3] = some (.ok s) ∧
      s.arrived = [(0, RecvBuffer.build 5 1 [1]), (2, RecvBuffer.build 5 1 [3])] :=
    ⟨_, rfl, by decide⟩
  obtain ⟨_, cells, hs, -, -, hperm, hnext⟩ := chunkMachine_run hrun
  cases hs
  obtain ⟨res, store, hres, hnone, -, hsome⟩ := hnext 5
  rw [harrived] at hperm hsome
  cases res with
  | none =>
    exact absurd rfl (hnone.mp rfl (0, RecvBuffer.build 5 1 [1]) (hperm.mem_iff.mpr (by simp)))
  | some p =>
    obtain ⟨c, before, after, harr, rfl, -, hfirst, -⟩ := hsome p rfl
    cases before with
    | nil =>
      cases harr
      exact ⟨s, store, hrun, hres⟩
    | cons d before =>
      have hd := hfirst d List.mem_cons_self
      rw [← (List.cons.inj harr).1] at hd
      exact absurd rfl hd

end ZktlsNet
