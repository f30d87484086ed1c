import ZktlsNet.Proxy.Messages

/-!
# The address list of the proxy (`proxy_client.cpp:511-615`)

The answer to `getaddrinfo3` is a fixed part, the name of the host and a count, and behind
it that many entries of different sizes: five `int`s, of which the last is the length of
the address, and the address. `getaddrinfo3` walks them with a pointer that each entry
moves on by its own length, and links the nodes it makes in an array.

Neither the count nor a length is compared with the size of the response. The reads of
the model are checked, so that leaving the response is a fault.

- `Declares`: the responses whose entries fit, and what they say.
- `addrLoop_entries`: on these the loop makes one node for each entry.
- `getaddrinfo3_decodes_iff`: the responses that are decoded safely and faithfully.
-/

namespace ZktlsNet

open NetLib

/-! ## Reading the response -/

/-- A pointer `off` bytes behind the response; the length of an entry may move it in front
of it. -/
def readBytes (data : Bytes) (off : Int) (n : Nat) : Res Bytes :=
  if 0 ≤ off ∧ off.toNat + n ≤ data.length then .ok (slice data off.toNat n)
  else .error (.fault .outOfBounds)

/-- An `int` of the response. -/
def readInt (data : Bytes) (off : Int) : Res Int := do
  return leadingInt (← readBytes data off 4)

/-- `strdup`: the bytes up to the first `NUL`. -/
def strdup (data : Bytes) (off : Nat) : Res Bytes :=
  if 0 ∈ data.drop off then .ok ((data.drop off).takeWhile (· != 0))
  else .error (.fault .outOfBounds)

/-- The conversion of an `int` to `socklen_t`. -/
def toSocklen (i : Int) : Nat := (i % 2 ^ 32).toNat

/-! ## `getaddrinfo3` -/

/-- `struct addrinfo`; `ai_next` is an index into the array of results. -/
structure AddrInfo where
  flags : Int
  family : Int
  socktype : Int
  protocol : Int
  addrlen : Nat
  addr : Bytes
  canonname : Option Bytes
  next : Option Nat
  deriving DecidableEq, Repr

/-- `sizeof(Result)`, behind which the entries are. -/
def sizeofResult : Nat := 12 + 2048 + 4

/-- `sizeof(ResAddrinfo)`. -/
def sizeofResAddrinfo : Nat := 20

/-- `sizeof(struct addrinfo)`. -/
def sizeofAddrinfo : Nat := 48

/-- `ai_canonname`: only the first node has the name of the host. -/
def canonnameAt (data : Bytes) (i : Nat) : Res (Option Bytes) := do
  if i = 0 then return some (← strdup data 12)
  else return none

/-- One round of the loop: the node `results[i]` of the entry behind `raiAddr`, and the
length that moves the pointer on. The array is null when its size could not be
allocated. -/
def addrNode (data : Bytes) (count : Nat) (allocated : Bool) (i : Nat) (raiAddr : Int) :
    Res (AddrInfo × Int) := do
  let flags ← readInt data raiAddr
  if !allocated then throw (.fault .nullPointer)
  let family ← readInt data (raiAddr + 4)
  let socktype ← readInt data (raiAddr + 8)
  let protocol ← readInt data (raiAddr + 12)
  let addrlen ← readInt data (raiAddr + 16)
  let addr ← readBytes data (raiAddr + sizeofResAddrinfo) (toSocklen addrlen)
  let canonname ← canonnameAt data i
  let next := if i + 1 < count then some (i + 1) else none
  return (⟨flags, family, socktype, protocol, toSocklen addrlen, addr, canonname, next⟩, addrlen)

/-- The loop over the entries, from the `i`-th on: `left` of them are to come. -/
def addrLoop (data : Bytes) (count : Nat) (allocated : Bool) :
    Nat → Nat → Int → Res (List AddrInfo)
  | 0, _, _ => .ok []
  | left + 1, i, raiAddr => do
    let (node, addrlen) ← addrNode data count allocated i raiAddr
    let rest ← addrLoop data count allocated left (i + 1) (raiAddr + (sizeofResAddrinfo + addrlen))
    return node :: rest

/-- What `getaddrinfo3` returns, what it sets `errno` to, and what it stores in `*res`: a
null pointer or the start of an array. -/
structure GetaddrinfoResult where
  ret : Int
  errno : Option Int
  res : Option (List AddrInfo)
  deriving DecidableEq, Repr

/-- `getaddrinfo3` from the response on. `mallocZeroNull` is whether `malloc(0)` returns a
null pointer, which the standard leaves open. -/
def getaddrinfo3 (mallocZeroNull : Bool) (data : Bytes) : Res GetaddrinfoResult := do
  let ret ← readInt data 4
  if ret = 0 then
    let addrCount ← readInt data (12 + 2048)
    let count := toUInt64 addrCount
    let size := sizeofAddrinfo * count % 2 ^ 64
    -- no object is as large as half the address space
    let allocated := decide (size < 2 ^ 63)
    let results ← addrLoop data count allocated count 0 sizeofResult
    return ⟨ret, none, if size = 0 ∧ mallocZeroNull then none else some results⟩
  else
    let errno ← readInt data 8
    return ⟨ret, some errno, none⟩

/-! ## What a response declares -/

/-- A value of type `int`. -/
abbrev CInt := { i : Int // -2 ^ 31 ≤ i ∧ i < 2 ^ 31 }

/-- The four bytes of an `int`. -/
def CInt.bytes (i : CInt) : Bytes := toLE 4 (i.val % 2 ^ 32).toNat

/-- One entry; the length of its address is an `int`. -/
structure ResAddrinfo where
  flags : CInt
  family : CInt
  socktype : CInt
  protocol : CInt
  addr : Bytes
  addr_fits : (addr.length : Int) < 2 ^ 31

namespace ResAddrinfo

/-- The length as it is sent. -/
def addrlen (e : ResAddrinfo) : CInt := ⟨e.addr.length, by omega, e.addr_fits⟩

/-- The bytes of the entry. -/
def bytes (e : ResAddrinfo) : Bytes :=
  e.flags.bytes ++ (e.family.bytes ++ (e.socktype.bytes ++ (e.protocol.bytes ++
    (e.addrlen.bytes ++ e.addr))))

end ResAddrinfo

/-- The response has room for the entries it counts: these, and anything behind them. -/
def Declares (data : Bytes) (entries : List ResAddrinfo) : Prop :=
  leadingInt (data.drop (12 + 2048)) = entries.length ∧
    ∃ trailing, data.drop sizeofResult = entries.flatMap ResAddrinfo.bytes ++ trailing

/-- From the pointer `start` into the array, the nodes of the entries in their order, the
last one with a null `ai_next`. -/
inductive Chain (results : List AddrInfo) : Option Nat → List ResAddrinfo → Prop
  | nil : Chain results none []
  | cons (i : Nat) (node : AddrInfo) (e : ResAddrinfo) (es : List ResAddrinfo) :
      results[i]? = some node → node.flags = e.flags.val → node.family = e.family.val →
      node.socktype = e.socktype.val → node.protocol = e.protocol.val →
      node.addrlen = e.addr.length → node.addr = e.addr → Chain results node.next es →
      Chain results (some i) (e :: es)

/-! ## The loop over entries that fit -/

@[simp] theorem CInt.bytes_length (i : CInt) : i.bytes.length = 4 := toLE_length ..

/-- Reading back an `int`. -/
theorem leadingInt_bytes (i : CInt) (rest : Bytes) : leadingInt (i.bytes ++ rest) = i.val := by
  obtain ⟨i, hlow, hhigh⟩ := i
  have htake : (CInt.bytes ⟨i, hlow, hhigh⟩ ++ rest).take 4 = toLE 4 (i % 2 ^ 32).toNat :=
    List.take_left' (toLE_length ..)
  have hval : ofLE (toLE 4 (i % 2 ^ 32).toNat) = (i % 2 ^ 32).toNat :=
    ofLE_toLE_of_lt (by omega)
  simp only [leadingInt, htake, hval]
  split <;> omega

section

variable {data front rest : Bytes} {off : Nat}

/-- Reading what stands at a place of the response. -/
theorem readBytes_of_drop (hoff : off ≤ data.length) (h : data.drop off = front ++ rest) :
    readBytes data off front.length = .ok front := by
  have hlen := congrArg List.length h
  rw [List.length_drop, List.length_append] at hlen
  rw [readBytes, if_pos (by omega), Int.toNat_natCast, slice, h, List.take_left]

theorem readInt_of_drop {i : CInt} (h : data.drop off = i.bytes ++ rest) :
    readInt data off = .ok i.val ∧ data.drop (off + 4) = rest ∧ off + 4 ≤ data.length := by
  have hlen := congrArg List.length h
  rw [List.length_drop, List.length_append, CInt.bytes_length] at hlen
  have hread := readBytes_of_drop (show off ≤ data.length by omega) h
  rw [CInt.bytes_length] at hread
  refine ⟨?_, ?_, by omega⟩
  · have hval := leadingInt_bytes i []
    rw [List.append_nil] at hval
    rw [readInt, hread, ok_bind, hval, pure_eq_ok]
  · rw [← List.drop_drop, h, List.drop_left' (CInt.bytes_length i)]

end

theorem ResAddrinfo.bytes_length (e : ResAddrinfo) : e.bytes.length = 20 + e.addr.length := by
  simp only [bytes, List.length_append, CInt.bytes_length]
  omega

/-- The node of an entry. -/
def ResAddrinfo.node (e : ResAddrinfo) (canonname : Option Bytes) (next : Option Nat) : AddrInfo :=
  ⟨e.flags.val, e.family.val, e.socktype.val, e.protocol.val, e.addr.length, e.addr, canonname,
    next⟩

/-- **One round** over an entry that stands behind the pointer. -/
theorem addrNode_entry {data rest : Bytes} {off : Nat} {e : ResAddrinfo} (count i : Nat)
    (h : data.drop off = e.bytes ++ rest) :
    addrNode data count true i off = (do
      let canonname ← canonnameAt data i
      return (e.node canonname (if i + 1 < count then some (i + 1) else none),
        (e.addr.length : Int))) := by
  simp only [ResAddrinfo.bytes, List.append_assoc] at h
  obtain ⟨hflags, h₁, -⟩ := readInt_of_drop h
  obtain ⟨hfamily, h₂, -⟩ := readInt_of_drop h₁
  obtain ⟨hsocktype, h₃, -⟩ := readInt_of_drop h₂
  obtain ⟨hprotocol, h₄, -⟩ := readInt_of_drop h₃
  obtain ⟨haddrlen, h₅, hle⟩ := readInt_of_drop h₄
  have haddr := readBytes_of_drop hle h₅
  have hlen : toSocklen e.addrlen.val = e.addr.length := by
    have hfits := e.addr_fits
    simp only [toSocklen, ResAddrinfo.addrlen]
    omega
  simp only [Nat.add_assoc, Nat.reduceAdd, Nat.cast_add,
    Nat.cast_ofNat] at hfamily hsocktype hprotocol haddrlen haddr
  rw [addrNode, hflags, ok_bind, if_neg (by decide)]
  simp only [sizeofResAddrinfo, Nat.cast_ofNat, hfamily, hsocktype, hprotocol, haddrlen, ok_bind,
    hlen, haddr]
  rfl

/-- The nodes of entries, the first of them at index `i`. -/
def nodesFrom (canonname : Bytes) (count : Nat) : Nat → List ResAddrinfo → List AddrInfo
  | _, [] => []
  | i, e :: es =>
    e.node (if i = 0 then some canonname else none)
        (if i + 1 < count then some (i + 1) else none) ::
      nodesFrom canonname count (i + 1) es

theorem canonnameAt_ok {data : Bytes} {i : Nat} (h : i = 0 → 0 ∈ data.drop 12) :
    canonnameAt data i =
      .ok (if i = 0 then some ((data.drop 12).takeWhile (· != 0)) else none) := by
  by_cases hi : i = 0
  · rw [canonnameAt, if_pos hi, if_pos hi, strdup, if_pos (h hi)]
    rfl
  · rw [canonnameAt, if_neg hi, if_neg hi]
    rfl

/-- **The loop over entries that fit** makes a node for each. -/
theorem addrLoop_entries (data trailing : Bytes) (count : Nat) :
    ∀ (es : List ResAddrinfo) (i off : Nat),
      data.drop off = es.flatMap ResAddrinfo.bytes ++ trailing →
      (es ≠ [] → i = 0 → 0 ∈ data.drop 12) →
      addrLoop data count true es.length i off =
        .ok (nodesFrom ((data.drop 12).takeWhile (· != 0)) count i es) := by
  intro es
  induction es with
  | nil =>
    intro i off _ _
    rfl
  | cons e es ih =>
    intro i off h hnul
    rw [List.flatMap_cons, List.append_assoc] at h
    have hrest : data.drop (off + (20 + e.addr.length)) =
        es.flatMap ResAddrinfo.bytes ++ trailing := by
      rw [← List.drop_drop, h, List.drop_left' e.bytes_length]
    have hloop := ih (i + 1) _ hrest (by omega)
    have hcast : (off : Int) + (sizeofResAddrinfo + (e.addr.length : Int)) =
        ((off + (20 + e.addr.length) : Nat) : Int) := by
      simp [sizeofResAddrinfo]
    rw [List.length_cons, addrLoop, addrNode_entry count i h,
      canonnameAt_ok (hnul (List.cons_ne_nil e es))]
    simp only [ok_bind, pure_eq_ok, hcast, hloop]
    rfl

/-- The nodes are linked in the order of the entries. -/
theorem chain_nodesFrom (canonname : Bytes) (count : Nat) :
    ∀ (es : List ResAddrinfo) (before : List AddrInfo), before.length + es.length = count →
      Chain (before ++ nodesFrom canonname count before.length es)
        (if before.length < count then some before.length else none) es := by
  intro es
  induction es with
  | nil =>
    intro before hcount
    rw [if_neg (by simp at hcount; omega)]
    exact .nil
  | cons e es ih =>
    intro before hcount
    rw [List.length_cons] at hcount
    rw [if_pos (by omega), nodesFrom]
    generalize hnode : e.node (if before.length = 0 then some canonname else none)
      (if before.length + 1 < count then some (before.length + 1) else none) = node
    have hchain := ih (before ++ [node]) (by simp; omega)
    rw [List.length_append, List.length_singleton, List.append_assoc] at hchain
    refine .cons before.length node e es ?_ ?_ ?_ ?_ ?_ ?_ ?_ ?_
    · rw [List.getElem?_append_right (Nat.le_refl _), Nat.sub_self]
      rfl
    all_goals subst hnode
    · rfl
    · rfl
    · rfl
    · rfl
    · rfl
    · rfl
    · exact hchain

/-! ## Decoding never rejects -/

section

variable {α β : Type}

/-- The only way not to return is a memory error. -/
def OnlyFaults (r : Res α) : Prop := ∀ e, r = .error e → ∃ f, e = .fault f

theorem OnlyFaults.ok (a : α) : OnlyFaults (.ok a) := nofun

theorem OnlyFaults.fault (f : Fault) : OnlyFaults (.error (.fault f) : Res α) := by
  rintro e ⟨⟩
  exact ⟨f, rfl⟩

theorem OnlyFaults.bind {x : Res α} {f : α → Res β} (hx : OnlyFaults x)
    (hf : ∀ a, OnlyFaults (f a)) : OnlyFaults (x >>= f) := by
  cases x with
  | error e =>
    rintro e' ⟨⟩
    exact hx _ rfl
  | ok a => exact hf a

end

theorem onlyFaults_readBytes (data : Bytes) (off : Int) (n : Nat) :
    OnlyFaults (readBytes data off n) := by
  unfold readBytes
  split
  · exact .ok _
  · exact .fault _

theorem onlyFaults_readInt (data : Bytes) (off : Int) : OnlyFaults (readInt data off) :=
  (onlyFaults_readBytes data off 4).bind fun _ => .ok _

theorem onlyFaults_canonnameAt (data : Bytes) (i : Nat) : OnlyFaults (canonnameAt data i) := by
  unfold canonnameAt strdup
  split
  · split
    · exact .ok _
    · exact .fault _
  · exact .ok _

theorem onlyFaults_addrNode (data : Bytes) (count : Nat) (allocated : Bool) (i : Nat)
    (raiAddr : Int) : OnlyFaults (addrNode data count allocated i raiAddr) := by
  have hint (off : Int) := onlyFaults_readInt data off
  refine (hint _).bind fun _ => ?_
  cases allocated with
  | false => exact .fault _
  | true =>
    refine (hint _).bind fun _ => (hint _).bind fun _ => (hint _).bind fun _ =>
      (hint _).bind fun _ => (onlyFaults_readBytes _ _ _).bind fun _ =>
      (onlyFaults_canonnameAt _ _).bind fun _ => ?_
    exact .ok _

theorem onlyFaults_addrLoop (data : Bytes) (count : Nat) (allocated : Bool) (left i : Nat)
    (raiAddr : Int) : OnlyFaults (addrLoop data count allocated left i raiAddr) := by
  induction left generalizing i raiAddr with
  | zero => exact .ok _
  | succ left ih =>
    refine (onlyFaults_addrNode data count allocated i raiAddr).bind fun _ => ?_
    refine (ih _ _).bind fun _ => ?_
    exact .ok _

/-! ## Safe and faithful decoding -/

/-- The call fails, by its result or by an exception. -/
def GetaddrinfoRejects (r : Res GetaddrinfoResult) : Prop :=
  (∃ result, r = .ok result ∧ result.ret ≠ 0) ∨ ∃ e, r = .error (.thrown e)

/-- What `getaddrinfo3` is to do with a response: return the chain of the entries it
declares, and reject it if it has no room for them. -/
structure Decodes (mallocZeroNull : Bool) (data : Bytes) : Prop where
  chain : ∀ es, Declares data es → ∃ res, getaddrinfo3 mallocZeroNull data = .ok ⟨0, none, res⟩ ∧
    Chain (res.getD []) (res.map fun _ => 0) es
  rejects : (¬ ∃ es, Declares data es) → GetaddrinfoRejects (getaddrinfo3 mallocZeroNull data)

section

variable {mallocZeroNull : Bool} {data : Bytes} (hlen : sizeofResult ≤ data.length)
  (hret : leadingInt (data.drop 4) = 0)
include hlen

/-- Reading an `int` of the fixed part. -/
theorem readInt_fixed {off : Nat} (h : off + 4 ≤ sizeofResult) :
    readInt data off = .ok (leadingInt (data.drop off)) := by
  have hread : readBytes data off 4 = .ok (slice data off 4) := by
    rw [readBytes, if_pos (by omega)]
    rfl
  rw [readInt, hread, ok_bind, pure_eq_ok, slice, leadingInt, leadingInt, List.take_take]
  rfl

include hret

/-- A response with a result of zero goes into the loop. -/
theorem getaddrinfo3_eq :
    getaddrinfo3 mallocZeroNull data = (do
      let count := toUInt64 (leadingInt (data.drop (12 + 2048)))
      let size := sizeofAddrinfo * count % 2 ^ 64
      let results ← addrLoop data count (decide (size < 2 ^ 63)) count 0 sizeofResult
      return ⟨0, none, if size = 0 ∧ mallocZeroNull then none else some results⟩) := by
  have hfirst := readInt_fixed hlen (show 4 + 4 ≤ sizeofResult by decide)
  have hcount := readInt_fixed hlen (show (12 + 2048) + 4 ≤ sizeofResult by decide)
  rw [hret] at hfirst
  simp only [Nat.cast_add, Nat.cast_ofNat] at hfirst hcount
  rw [getaddrinfo3, hfirst, ok_bind, if_pos rfl, hcount]
  rfl

omit hlen hret in
/-- The count of entries that fit, as a `size_t`, and the size of their array. -/
theorem Declares.count {es : List ResAddrinfo} (h : Declares data es) :
    toUInt64 (leadingInt (data.drop (12 + 2048))) = es.length ∧
      sizeofAddrinfo * es.length < 2 ^ 63 := by
  have hcount := h.1
  have hlt : leadingInt (data.drop (12 + 2048)) < 2 ^ 31 := by
    unfold leadingInt
    dsimp only
    split
    · omega
    · have hbound := ofLE_lt ((data.drop (12 + 2048)).take 4)
      have hpow : 256 ^ ((data.drop (12 + 2048)).take 4).length ≤ 256 ^ 4 :=
        Nat.pow_le_pow_right (by decide) (List.length_take_le ..)
      omega
  rw [hcount] at hlt ⊢
  constructor
  · unfold toUInt64
    omega
  · unfold sizeofAddrinfo
    omega

/-- With a name that ends inside the response, entries that fit are decoded. -/
theorem getaddrinfo3_of_declares {es : List ResAddrinfo} (h : Declares data es)
    (hnul : es ≠ [] → 0 ∈ data.drop 12) :
    getaddrinfo3 mallocZeroNull data = .ok ⟨0, none,
      if es = [] ∧ mallocZeroNull then none
      else some (nodesFrom ((data.drop 12).takeWhile (· != 0)) es.length 0 es)⟩ := by
  obtain ⟨hcount, hsize⟩ := h.count
  obtain ⟨-, trailing, hdrop⟩ := h
  have hloop := addrLoop_entries data trailing es.length es 0 sizeofResult hdrop
    fun hne _ => hnul hne
  have hzero : sizeofAddrinfo * es.length = 0 ↔ es = [] := by
    rw [← List.length_eq_zero_iff]
    unfold sizeofAddrinfo
    omega
  rw [getaddrinfo3_eq hlen hret, hcount]
  simp only [Nat.mod_eq_of_lt (show sizeofAddrinfo * es.length < 2 ^ 64 by omega),
    decide_eq_true hsize, hloop, ok_bind, hzero, pure_eq_ok]

/-- **No response is rejected**: the loop ends well, or in a memory error. -/
theorem getaddrinfo3_never_rejects : ¬ GetaddrinfoRejects (getaddrinfo3 mallocZeroNull data) := by
  have hfaults := onlyFaults_addrLoop data (toUInt64 (leadingInt (data.drop (12 + 2048))))
    (decide (sizeofAddrinfo * toUInt64 (leadingInt (data.drop (12 + 2048))) % 2 ^ 64 < 2 ^ 63))
    (toUInt64 (leadingInt (data.drop (12 + 2048)))) 0 sizeofResult
  rw [getaddrinfo3_eq hlen hret]
  dsimp only
  generalize addrLoop .. = loop at hfaults ⊢
  cases loop with
  | ok results =>
    rintro (⟨result, hresult, hne⟩ | ⟨e, he⟩)
    · cases hresult
      exact hne rfl
    · cases he
  | error e =>
    obtain ⟨f, rfl⟩ := hfaults e rfl
    rintro (⟨result, hresult, -⟩ | ⟨e, he⟩)
    · cases hresult
    · cases he

/-- The entries that fit are not decoded when the name has no end in the response. -/
theorem canonname_of_getaddrinfo3 {es : List ResAddrinfo} (h : Declares data es)
    (hne : es ≠ []) {result : GetaddrinfoResult}
    (hok : getaddrinfo3 mallocZeroNull data = .ok result) : 0 ∈ data.drop 12 := by
  by_contra hnul
  obtain ⟨hcount, hsize⟩ := h.count
  obtain ⟨-, trailing, hdrop⟩ := h
  obtain ⟨e, es, rfl⟩ := List.exists_cons_of_ne_nil hne
  rw [List.flatMap_cons, List.append_assoc] at hdrop
  have hcanonname : canonnameAt data 0 = .error (.fault .outOfBounds) := by
    rw [canonnameAt, if_pos rfl, strdup, if_neg hnul]
    rfl
  rw [getaddrinfo3_eq hlen hret, hcount, List.length_cons] at hok
  rw [List.length_cons] at hsize
  simp only [Nat.mod_eq_of_lt (show sizeofAddrinfo * (es.length + 1) < 2 ^ 64 by omega),
    decide_eq_true hsize, addrLoop, addrNode_entry (es.length + 1) 0 hdrop, hcanonname] at hok
  cases hok

/-- **The responses that are decoded safely and faithfully**: the entries they count fit
into them, and the name of the host ends inside them; with a count of zero it depends on
`malloc` whether the result is null. -/
theorem getaddrinfo3_decodes_iff :
    Decodes mallocZeroNull data ↔ ∃ es, Declares data es ∧
      (es = [] → mallocZeroNull = true) ∧ (es ≠ [] → 0 ∈ data.drop 12) := by
  constructor
  · intro hdecodes
    by_cases hfits : ∃ es, Declares data es
    · obtain ⟨es, hes⟩ := hfits
      obtain ⟨res, hok, hchain⟩ := hdecodes.chain es hes
      refine ⟨es, hes, fun hnil => ?_, fun hne => canonname_of_getaddrinfo3 hlen hret hes hne hok⟩
      -- the chain of no entries is a null pointer
      by_contra hmalloc
      rw [getaddrinfo3_of_declares hlen hret hes (fun hne => absurd hnil hne),
        if_neg (fun h => hmalloc h.2)] at hok
      cases hok
      subst hnil
      cases hchain
    · exact absurd (hdecodes.rejects hfits) (getaddrinfo3_never_rejects hlen hret)
  · rintro ⟨es₀, hes₀, hmalloc, hnul⟩
    have hsame (es : List ResAddrinfo) (hes : Declares data es) : es = [] ↔ es₀ = [] := by
      have h := hes.1.symm.trans hes₀.1
      rw [← List.length_eq_zero_iff, ← List.length_eq_zero_iff]
      omega
    refine ⟨fun es hes => ?_, fun hno => absurd ⟨es₀, hes₀⟩ hno⟩
    rw [← hsame es hes] at hmalloc
    rw [Ne, ← hsame es hes] at hnul
    refine ⟨_, getaddrinfo3_of_declares hlen hret hes hnul, ?_⟩
    by_cases hnil : es = []
    · subst hnil
      rw [if_pos ⟨rfl, hmalloc rfl⟩]
      exact .nil
    · have hchain := chain_nodesFrom ((data.drop 12).takeWhile (· != 0)) es.length es [] (by simp)
      have hpos : 0 < es.length := List.length_pos_iff.mpr hnil
      rw [if_neg (fun h => hnil h.1)]
      rw [List.length_nil, if_pos hpos] at hchain
      exact hchain

end

/-- One entry with an address of four bytes. -/
theorem getaddrinfo3_decodes_iff_one :
    Decodes false (List.replicate 2060 0 ++ [1, 0, 0, 0] ++
      [1, 0, 0, 0, 2, 0, 0, 0, 1, 0, 0, 0, 6, 0, 0, 0, 4, 0, 0, 0] ++ [1, 2, 3, 4]) := by
  let e : ResAddrinfo := ⟨⟨1, by decide⟩, ⟨2, by decide⟩, ⟨1, by decide⟩, ⟨6, by decide⟩,
    [1, 2, 3, 4], by decide⟩
  exact (getaddrinfo3_decodes_iff (by decide +kernel) (by decide +kernel)).mpr
    ⟨[e], ⟨by decide +kernel, [], by decide +kernel⟩, nofun, fun _ => by decide +kernel⟩

/-- A response without entries gives an array of no nodes; one that counts an entry and
ends there is read past; and with a count of `-1` the array is null. -/
theorem getaddrinfo3_undecoded :
    let fixed (count : CInt) : Bytes := List.replicate 2060 0 ++ count.bytes
    let uncounted := fixed ⟨0, by decide⟩
    let cut := fixed ⟨1, by decide⟩
    let negative := fixed ⟨-1, by decide⟩ ++ List.replicate 24 0
    (getaddrinfo3 false uncounted = .ok ⟨0, none, some []⟩ ∧ ¬ Decodes false uncounted) ∧
      (getaddrinfo3 false cut = .error (.fault .outOfBounds) ∧ ¬ Decodes false cut) ∧
      (getaddrinfo3 false negative = .error (.fault .nullPointer) ∧ ¬ Decodes false negative) := by
  intro fixed uncounted cut negative
  have hnone : getaddrinfo3 false uncounted = .ok ⟨0, none, some []⟩ := by decide +kernel
  have hcut : getaddrinfo3 false cut = .error (.fault .outOfBounds) := by decide +kernel
  have hnegative : getaddrinfo3 false negative = .error (.fault .nullPointer) := by
    decide +kernel
  refine ⟨⟨hnone, fun h => ?_⟩, ⟨hcut, fun h => ?_⟩, ⟨hnegative, fun h => ?_⟩⟩
  · obtain ⟨res, hok, hchain⟩ := h.chain [] ⟨by decide +kernel, [], by decide +kernel⟩
    rw [hnone] at hok
    cases hok
    cases hchain
  · -- an entry has at least 20 bytes
    have hno : ¬ ∃ es, Declares cut es := by
      rintro ⟨es, hcount, trailing, hdrop⟩
      have hone : leadingInt (cut.drop (12 + 2048)) = 1 := by decide +kernel
      have hend : cut.drop sizeofResult = [] := by decide +kernel
      rw [hend] at hdrop
      rw [hone] at hcount
      have hlen := congrArg List.length hdrop
      cases es with
      | nil => simp at hcount
      | cons e es =>
        rw [List.length_nil, List.flatMap_cons, List.length_append, List.length_append,
          e.bytes_length] at hlen
        omega
    obtain ⟨result, hok, -⟩ | ⟨e, he⟩ := h.rejects hno
    · rw [hcut] at hok
      cases hok
    · rw [hcut] at he
      cases he
  · have hno : ¬ ∃ es, Declares negative es := by
      rintro ⟨es, hcount, -⟩
      have hminus : leadingInt (negative.drop (12 + 2048)) = -1 := by decide +kernel
      rw [hminus] at hcount
      omega
    obtain ⟨result, hok, -⟩ | ⟨e, he⟩ := h.rejects hno
    · rw [hnegative] at hok
      cases hok
    · rw [hnegative] at he
      cases he

/-! ## Who relies on the chain -/

/-- The nodes that a loop along `ai_next` comes to, as there is one in `freeaddrinfo3` and
one in `LookupHost`. -/
def visited (results : List AddrInfo) : Nat → Option Nat → Res (List AddrInfo)
  | _, none => .ok []
  | 0, some _ => .error .outOfFuel
  | fuel + 1, some i =>
    match results[i]? with
    | none => .error (.fault .outOfBounds)
    | some node => do
      let rest ← visited results fuel node.next
      return node :: rest

/-- `freeaddrinfo3`: the names and addresses it releases. -/
def freeaddrinfo3 (results : List AddrInfo) (fuel : Nat) (res : Option Nat) :
    Res (List (Option Bytes × Bytes)) := do
  let nodes ← visited results fuel res
  return nodes.map fun node => (node.canonname, node.addr)

/-- Along a chain every address is released once, in the order of the entries. -/
theorem freeaddrinfo3_of_chain {results : List AddrInfo} {res : Option Nat}
    {es : List ResAddrinfo} (h : Chain results res es) :
    ∃ released, freeaddrinfo3 results es.length res = .ok released ∧
      released.map Prod.snd = es.map ResAddrinfo.addr := by
  suffices hvisited : ∃ nodes, visited results es.length res = .ok nodes ∧
      nodes.map AddrInfo.addr = es.map ResAddrinfo.addr by
    obtain ⟨nodes, hnodes, haddr⟩ := hvisited
    refine ⟨nodes.map fun node => (node.canonname, node.addr), ?_, ?_⟩
    · rw [freeaddrinfo3, hnodes]
      rfl
    · rw [List.map_map, ← haddr]
      rfl
  induction h with
  | nil => exact ⟨[], rfl, rfl⟩
  | cons i node e es hnode _ _ _ _ _ haddr _ ih =>
    obtain ⟨nodes, hnodes, hmap⟩ := ih
    refine ⟨node :: nodes, ?_, by rw [List.map_cons, List.map_cons, haddr, hmap]⟩
    rw [List.length_cons, visited, hnode]
    simp only [hnodes, ok_bind, pure_eq_ok]

end ZktlsNet
