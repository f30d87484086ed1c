import Mathlib.Data.List.TakeDrop
import ZktlsNet.Proxy.AddrInfo
import ZktlsNet.Proxy.CallTable

/-!
# What is asked of the proxy (`proxy_client.cpp:511-786`)

Each of the six functions that call the proxy lays its arguments out in a structure and
sends that as one message. They write fields of fixed width, whatever the arguments are: a
length of 64 bits goes into a `uint32_t`, and a name is cut to the room there is for it.

The other side is `ProxyRequest.ofMessage`: what a reader makes of a message when it takes
the fields at the same places, and wants as many bytes as these announce.

- `SocketCall`: a call with its arguments; `SocketCall.message`, what it sends.
- `SocketCall.asked`: what the caller means by it.
- `ofMessage_message_iff`: that is what is read exactly when the arguments fit.
-/

namespace ZktlsNet

open NetLib

/-! ## Arguments -/

/-- An `int` that holds a number. -/
def CInt.ofInt (i : Int) : CInt := ⟨(i + 2 ^ 31) % 2 ^ 32 - 2 ^ 31, by omega, by omega⟩

theorem CInt.val_ofInt {i : Int} (hlow : -2 ^ 31 ≤ i) (hhigh : i < 2 ^ 31) :
    (CInt.ofInt i).val = i := by
  unfold ofInt
  dsimp only
  omega

/-- A `const void*` and a length: the bytes that are there, or a null pointer. -/
inductive CBuffer
  | bytes (contents : Bytes)
  | null (length : Nat)
  deriving DecidableEq, Repr

namespace CBuffer

def length : CBuffer → Nat
  | bytes contents => contents.length
  | null length => length

/-- What `memcpy` puts into the message, or `memset` for a null pointer. -/
def contents : CBuffer → Bytes
  | bytes contents => contents
  | null length => List.replicate length 0

@[simp] theorem contents_length (b : CBuffer) : b.contents.length = b.length := by
  cases b with
  | bytes contents => rfl
  | null length => exact List.length_replicate

end CBuffer

/-- A string without a `NUL`. -/
abbrev CString := { s : Bytes // 0 ∉ s }

/-- The characters of a string; a null pointer has none. -/
def characters (s : Option CString) : Bytes := s.elim [] Subtype.val

theorem characters_nonzero (s : Option CString) : ∀ c ∈ characters s, c ≠ 0 := by
  rintro c hc rfl
  cases s with
  | none => cases hc
  | some s => exact s.property hc

/-- The fields of `hints` that are sent. -/
structure AddrHints where
  flags : CInt
  family : CInt
  socktype : CInt
  protocol : CInt
  deriving DecidableEq, Repr

/-- A call to the proxy. `connect3` takes the length of the address as a `socklen_t`, and
the message that `send3` allocates is smaller than half the address space. -/
inductive SocketCall
  | getaddrinfo3 (node service : Option CString) (hints : Option AddrHints)
  | socket3 (domain type protocol : CInt)
  | connect3 (socket : CInt) (address : CBuffer) (short : address.length < 2 ^ 32)
  | send3 (socket : CInt) (message : CBuffer) (flags : CInt)
      (allocated : 20 + message.length < 2 ^ 63)
  | doRecv (socket : CInt) (length : Nat) (flags : CInt)
  | shutdown3 (socket how : CInt)
  deriving DecidableEq, Repr

/-! ## Messages -/

/-- The numbers of the functions, `POSIX_SOCKET_MSG_SOCKET` and so on. -/
def msgSocket : CInt := ⟨1, by decide⟩
def msgShutdown : CInt := ⟨3, by decide⟩
def msgConnect : CInt := ⟨5, by decide⟩
def msgSend : CInt := ⟨10, by decide⟩
def msgRecv : CInt := ⟨11, by decide⟩
def msgGetaddrinfo : CInt := ⟨18, by decide⟩

/-- `MAX_NODE_LEN` and `MAX_SERVICE_LEN`. -/
def maxNodeLen : Nat := 2048
def maxServiceLen : Nat := 128

/-- `SocketCallHeader`. -/
def socketCallHeader (callId function : CInt) : Bytes := callId.bytes ++ function.bytes

/-- `strncpy` of one byte less than there is room for, into a field that was cleared. The
assertion that the string fits does nothing. -/
def strncpyField (size : Nat) (s : Option CString) : Bytes :=
  let copied := (characters s).take (size - 1)
  copied ++ List.replicate (size - copied.length) 0

/-- `!!hints`. -/
def hasHints (hints : Option AddrHints) : CInt :=
  if hints.isSome then ⟨1, by decide⟩ else ⟨0, by decide⟩

/-- The request of `getaddrinfo3`; without `hints` its last fields stay cleared. -/
def getaddrinfo3Message (callId : CInt) (node service : Option CString)
    (hints : Option AddrHints) : Bytes :=
  let zero : CInt := ⟨0, by decide⟩
  let d := hints.getD ⟨zero, zero, zero, zero⟩
  socketCallHeader callId msgGetaddrinfo ++ (strncpyField maxNodeLen node ++
    (strncpyField maxServiceLen service ++ ((hasHints hints).bytes ++
      (d.flags.bytes ++ (d.family.bytes ++ (d.socktype.bytes ++ d.protocol.bytes))))))

/-- The request of `socket3`. -/
def socket3Message (callId domain type protocol : CInt) : Bytes :=
  socketCallHeader callId msgSocket ++ (domain.bytes ++ (type.bytes ++ protocol.bytes))

/-- The request of `connect3`. -/
def connect3Message (callId socket : CInt) (address : CBuffer) : Bytes :=
  socketCallHeader callId msgConnect ++ (socket.bytes ++ (toLE 4 address.length ++
    address.contents))

/-- The size of that is computed as an `int`: a negative one is more than can be allocated,
and one that has wrapped around is less than is written. -/
def connect3Allocate (address : CBuffer) : Res Unit := do
  let numBytes := CallTable.toInt (16 + address.length)
  if numBytes < 0 then throw (.fault .nullPointer)
  if numBytes < 16 + address.length then throw (.fault .outOfBounds)

/-- The request of `send3`; the length is cut to 32 bits. -/
def send3Message (callId socket : CInt) (message : CBuffer) (flags : CInt) : Bytes :=
  socketCallHeader callId msgSend ++ (socket.bytes ++ (toLE 4 message.length ++
    (flags.bytes ++ message.contents)))

/-- The request of `do_recv`. -/
def doRecvMessage (callId socket : CInt) (length : Nat) (flags : CInt) : Bytes :=
  socketCallHeader callId msgRecv ++ (socket.bytes ++ (toLE 4 length ++ flags.bytes))

/-- The request of `shutdown3`. -/
def shutdown3Message (callId socket how : CInt) : Bytes :=
  socketCallHeader callId msgShutdown ++ (socket.bytes ++ how.bytes)

namespace SocketCall

/-- What a call sends. -/
def message (callId : CInt) : SocketCall → Res Bytes
  | getaddrinfo3 node service hints => .ok (getaddrinfo3Message callId node service hints)
  | socket3 domain type protocol => .ok (socket3Message callId domain type protocol)
  | connect3 socket address _ => do
    connect3Allocate address
    return connect3Message callId socket address
  | send3 socket message flags _ => .ok (send3Message callId socket message flags)
  | doRecv socket length flags => .ok (doRecvMessage callId socket length flags)
  | shutdown3 socket how => .ok (shutdown3Message callId socket how)

/-- The size that a call expects its answer to have, the argument of
`allocate_call_result`. -/
def expectedBytes : SocketCall → Nat
  | getaddrinfo3 .. => sizeofResult
  | _ => CallTable.socketCallResultHeaderSize

end SocketCall

/-! ## The reader's side -/

/-- What the proxy is asked to do. -/
inductive ProxyRequest
  | getaddrinfo (node service : Bytes) (hints : Option (Int × Int × Int × Int))
  | socket (domain type protocol : Int)
  | connect (socket : Int) (address : Bytes)
  | send (socket : Int) (message : Bytes) (flags : Int)
  | recv (socket : Int) (length : Nat) (flags : Int)
  | shutdown (socket how : Int)
  deriving DecidableEq, Repr

/-- An `int` of a message. -/
def intAt (message : Bytes) (off : Nat) : Int := leadingInt (message.drop off)

/-- A `uint32_t` of a message. -/
def wordAt (message : Bytes) (off : Nat) : Nat := ofLE (slice message off 4)

/-- The string in a field of a message. -/
def stringAt (message : Bytes) (off size : Nat) : Bytes :=
  (slice message off size).takeWhile (· != 0)

namespace ProxyRequest

/-- The id of the call and what is asked for, if the message has the size that its fields
announce. -/
def sized (m : Bytes) (size : Nat) (request : ProxyRequest) : Option (Int × ProxyRequest) :=
  if m.length = size then some (intAt m 0, request) else none

/-- A message as it is read. -/
def ofMessage (m : Bytes) : Option (Int × ProxyRequest) :=
  if intAt m 4 = msgSocket.val then sized m 20 (socket (intAt m 8) (intAt m 12) (intAt m 16))
  else if intAt m 4 = msgShutdown.val then sized m 16 (shutdown (intAt m 8) (intAt m 12))
  else if intAt m 4 = msgConnect.val then
    sized m (16 + wordAt m 12) (connect (intAt m 8) (m.drop 16))
  else if intAt m 4 = msgSend.val then
    sized m (20 + wordAt m 12) (send (intAt m 8) (m.drop 20) (intAt m 16))
  else if intAt m 4 = msgRecv.val then
    sized m 20 (recv (intAt m 8) (wordAt m 12) (intAt m 16))
  else if intAt m 4 = msgGetaddrinfo.val then
    sized m 2204 (getaddrinfo (stringAt m 8 maxNodeLen) (stringAt m 2056 maxServiceLen)
      (if intAt m 2184 = 0 then none
        else some (intAt m 2188, intAt m 2192, intAt m 2196, intAt m 2200)))
  else none

end ProxyRequest

namespace SocketCall

/-- What the caller asks for. No name is the empty one. -/
def asked : SocketCall → ProxyRequest
  | getaddrinfo3 node service hints =>
    .getaddrinfo (characters node) (characters service)
      (hints.map fun h => (h.flags.val, h.family.val, h.socktype.val, h.protocol.val))
  | socket3 domain type protocol => .socket domain.val type.val protocol.val
  | connect3 socket address _ => .connect socket.val address.contents
  | send3 socket message flags _ => .send socket.val message.contents flags.val
  | doRecv socket length flags => .recv socket.val length flags.val
  | shutdown3 socket how => .shutdown socket.val how.val

/-- The arguments fit into the fields they are written to. -/
def Fits : SocketCall → Prop
  | getaddrinfo3 node service _ =>
    (characters node).length < maxNodeLen ∧ (characters service).length < maxServiceLen
  | connect3 _ address _ => 16 + address.length < 2 ^ 31
  | send3 _ message _ _ => message.length < 2 ^ 32
  | doRecv _ length _ => length < 2 ^ 32
  | socket3 .. | shutdown3 .. => True

instance : (c : SocketCall) → Decidable c.Fits
  | getaddrinfo3 node service _ => inferInstanceAs
    (Decidable
      ((characters node).length < maxNodeLen ∧ (characters service).length < maxServiceLen))
  | connect3 _ address _ => inferInstanceAs (Decidable (16 + address.length < 2 ^ 31))
  | send3 _ message _ _ => inferInstanceAs (Decidable (message.length < 2 ^ 32))
  | doRecv _ length _ => inferInstanceAs (Decidable (length < 2 ^ 32))
  | socket3 .. | shutdown3 .. => inferInstanceAs (Decidable True)

end SocketCall

/-! ## Reading field by field -/

section

variable {m rest : Bytes} {off : Nat}

theorem intAt_of_drop {i : CInt} (h : m.drop off = i.bytes ++ rest) :
    intAt m off = i.val ∧ m.drop (off + 4) = rest := by
  constructor
  · rw [intAt, h, leadingInt_bytes]
  · rw [← List.drop_drop, h, List.drop_left' (CInt.bytes_length i)]

/-- An `int` at the end. -/
theorem intAt_of_drop_last {i : CInt} (h : m.drop off = i.bytes) : intAt m off = i.val :=
  (intAt_of_drop (h.trans (List.append_nil _).symm)).1

theorem wordAt_of_drop {n : Nat} (h : m.drop off = toLE 4 n ++ rest) :
    wordAt m off = n % 2 ^ 32 ∧ m.drop (off + 4) = rest := by
  constructor
  · rw [wordAt, slice, h, List.take_left' (toLE_length ..), ofLE_toLE]
    norm_num
  · rw [← List.drop_drop, h, List.drop_left' (toLE_length ..)]

theorem strncpyField_length {size : Nat} (hsize : 0 < size) (s : Option CString) :
    (strncpyField size s).length = size := by
  simp only [strncpyField, List.length_append, List.length_take, List.length_replicate]
  omega

/-- What is read of a field is what was copied. -/
theorem stringAt_of_drop {size : Nat} (hsize : 0 < size) {s : Option CString}
    (h : m.drop off = strncpyField size s ++ rest) :
    stringAt m off size = (characters s).take (size - 1) ∧ m.drop (off + size) = rest := by
  have hlen := strncpyField_length hsize s
  constructor
  · have hcopied : ∀ c ∈ (characters s).take (size - 1), (c != 0) = true := fun c hc =>
      bne_iff_ne.mpr (characters_nonzero s c (List.mem_of_mem_take hc))
    rw [stringAt, slice, h, List.take_left' hlen, strncpyField,
      List.takeWhile_append_of_pos hcopied]
    -- the field ends with at least one `NUL`
    cases size - ((characters s).take (size - 1)).length with
    | zero => simp
    | succ k => simp [List.replicate_succ]
  · rw [← List.drop_drop, h, List.drop_left' hlen]

end

/-! ## What is read of each message -/

section

variable (callId : CInt)

theorem socket3Message_length (domain type protocol : CInt) :
    (socket3Message callId domain type protocol).length = 20 := by
  simp [socket3Message, socketCallHeader]

theorem shutdown3Message_length (socket how : CInt) :
    (shutdown3Message callId socket how).length = 16 := by
  simp [shutdown3Message, socketCallHeader]

theorem doRecvMessage_length (socket : CInt) (length : Nat) (flags : CInt) :
    (doRecvMessage callId socket length flags).length = 20 := by
  simp [doRecvMessage, socketCallHeader]

theorem send3Message_length (socket : CInt) (message : CBuffer) (flags : CInt) :
    (send3Message callId socket message flags).length = 20 + message.length := by
  simp only [send3Message, socketCallHeader, List.length_append, CInt.bytes_length, toLE_length,
    CBuffer.contents_length]
  omega

theorem connect3Message_length (socket : CInt) (address : CBuffer) :
    (connect3Message callId socket address).length = 16 + address.length := by
  simp only [connect3Message, socketCallHeader, List.length_append, CInt.bytes_length, toLE_length,
    CBuffer.contents_length]
  omega

theorem getaddrinfo3Message_length (node service : Option CString) (hints : Option AddrHints) :
    (getaddrinfo3Message callId node service hints).length = 2204 := by
  have hnode := strncpyField_length (show 0 < maxNodeLen by decide) node
  have hservice := strncpyField_length (show 0 < maxServiceLen by decide) service
  simp only [getaddrinfo3Message, socketCallHeader, List.length_append, CInt.bytes_length, hnode,
    hservice]
  rfl

/-- The two fields in front of every message. -/
theorem header_of_message {m rest : Bytes} {callId function : CInt}
    (h : m = socketCallHeader callId function ++ rest) :
    intAt m 0 = callId.val ∧ intAt m 4 = function.val ∧ m.drop 8 = rest := by
  rw [socketCallHeader, List.append_assoc] at h
  obtain ⟨hid, h4⟩ := intAt_of_drop (show m.drop 0 = _ from h)
  obtain ⟨hfunction, h8⟩ := intAt_of_drop h4
  exact ⟨hid, hfunction, h8⟩

theorem ofMessage_socket3 (domain type protocol : CInt) :
    ProxyRequest.ofMessage (socket3Message callId domain type protocol) =
      some (callId.val, .socket domain.val type.val protocol.val) := by
  have hlen := socket3Message_length callId domain type protocol
  obtain ⟨hid, hfunction, h8⟩ := header_of_message (socket3Message.eq_def ..)
  obtain ⟨hdomain, h12⟩ := intAt_of_drop h8
  obtain ⟨htype, h16⟩ := intAt_of_drop h12
  have hprotocol := intAt_of_drop_last h16
  rw [ProxyRequest.ofMessage, hfunction, if_pos rfl, ProxyRequest.sized, if_pos hlen, hid,
    hdomain, htype, hprotocol]

theorem ofMessage_shutdown3 (socket how : CInt) :
    ProxyRequest.ofMessage (shutdown3Message callId socket how) =
      some (callId.val, .shutdown socket.val how.val) := by
  have hlen := shutdown3Message_length callId socket how
  obtain ⟨hid, hfunction, h8⟩ := header_of_message (shutdown3Message.eq_def ..)
  obtain ⟨hsocket, h12⟩ := intAt_of_drop h8
  have hhow := intAt_of_drop_last h12
  rw [ProxyRequest.ofMessage, hfunction, if_neg (by decide), if_pos rfl, ProxyRequest.sized,
    if_pos hlen, hid, hsocket, hhow]

/-- Of the length only the low 32 bits are read. -/
theorem ofMessage_doRecv (socket : CInt) (length : Nat) (flags : CInt) :
    ProxyRequest.ofMessage (doRecvMessage callId socket length flags) =
      some (callId.val, .recv socket.val (length % 2 ^ 32) flags.val) := by
  have hlen := doRecvMessage_length callId socket length flags
  obtain ⟨hid, hfunction, h8⟩ := header_of_message (doRecvMessage.eq_def ..)
  obtain ⟨hsocket, h12⟩ := intAt_of_drop h8
  obtain ⟨hlength, h16⟩ := wordAt_of_drop h12
  have hflags := intAt_of_drop_last h16
  rw [ProxyRequest.ofMessage, hfunction, if_neg (by decide), if_neg (by decide),
    if_neg (by decide), if_neg (by decide), if_pos rfl, ProxyRequest.sized, if_pos hlen, hid,
    hsocket, hlength, hflags]

/-- A message with a length of more than 32 bits is not the size it announces. -/
theorem ofMessage_send3 (socket : CInt) (message : CBuffer) (flags : CInt) :
    ProxyRequest.ofMessage (send3Message callId socket message flags) =
      if message.length < 2 ^ 32 then
        some (callId.val, .send socket.val message.contents flags.val)
      else none := by
  have hlen := send3Message_length callId socket message flags
  obtain ⟨hid, hfunction, h8⟩ := header_of_message (send3Message.eq_def ..)
  obtain ⟨hsocket, h12⟩ := intAt_of_drop h8
  obtain ⟨hlength, h16⟩ := wordAt_of_drop h12
  obtain ⟨hflags, h20⟩ := intAt_of_drop h16
  have hiff : 20 + message.length = 20 + message.length % 2 ^ 32 ↔ message.length < 2 ^ 32 := by
    omega
  rw [ProxyRequest.ofMessage, hfunction, if_neg (by decide), if_neg (by decide),
    if_neg (by decide), if_pos rfl, ProxyRequest.sized, hlen, hid, hsocket, hlength, hflags, h20]
  simp only [hiff]

theorem ofMessage_connect3 {socket : CInt} {address : CBuffer}
    (hfits : 16 + address.length < 2 ^ 31) :
    ProxyRequest.ofMessage (connect3Message callId socket address) =
      some (callId.val, .connect socket.val address.contents) := by
  have hlen := connect3Message_length callId socket address
  obtain ⟨hid, hfunction, h8⟩ := header_of_message (connect3Message.eq_def ..)
  obtain ⟨hsocket, h12⟩ := intAt_of_drop h8
  obtain ⟨hlength, h16⟩ := wordAt_of_drop h12
  rw [ProxyRequest.ofMessage, hfunction, if_neg (by decide), if_neg (by decide), if_pos rfl,
    ProxyRequest.sized, hlen, hlength, if_pos (by omega), hid, hsocket, h16]

/-- The arithmetic of the size is right for the addresses that fit. -/
theorem connect3Allocate_ok {address : CBuffer} (hfits : 16 + address.length < 2 ^ 31) :
    connect3Allocate address = .ok () := by
  have hsize : CallTable.toInt (16 + address.length) = 16 + address.length := by
    unfold CallTable.toInt
    rw [if_pos (by omega)]
    omega
  rw [connect3Allocate, hsize, if_neg (by omega), if_neg (by omega)]
  rfl

/-- Otherwise `connect3` does not come to sending. -/
theorem connect3Allocate_error {address : CBuffer} (hshort : address.length < 2 ^ 32)
    (hfits : ¬ 16 + address.length < 2 ^ 31) :
    ∃ f, connect3Allocate address = .error (.fault f) := by
  unfold connect3Allocate
  by_cases hneg : CallTable.toInt (16 + address.length) < 0
  · exact ⟨.nullPointer, by rw [if_pos hneg]; rfl⟩
  · have hsmall : CallTable.toInt (16 + address.length) < 16 + address.length := by
      unfold CallTable.toInt
      split <;> omega
    exact ⟨.outOfBounds, by rw [if_neg hneg, if_pos hsmall]; rfl⟩

/-- Names are cut to the room for them. -/
theorem ofMessage_getaddrinfo3 (node service : Option CString) (hints : Option AddrHints) :
    ProxyRequest.ofMessage (getaddrinfo3Message callId node service hints) =
      some (callId.val, .getaddrinfo ((characters node).take (maxNodeLen - 1))
        ((characters service).take (maxServiceLen - 1))
        (hints.map fun h => (h.flags.val, h.family.val, h.socktype.val, h.protocol.val))) := by
  have hlen := getaddrinfo3Message_length callId node service hints
  obtain ⟨hid, hfunction, h8⟩ := header_of_message (getaddrinfo3Message.eq_def ..)
  obtain ⟨hnode, h2056⟩ := stringAt_of_drop (by decide) h8
  obtain ⟨hservice, h2184⟩ := stringAt_of_drop (by decide) h2056
  obtain ⟨hhas, h2188⟩ := intAt_of_drop h2184
  obtain ⟨hflags, h2192⟩ := intAt_of_drop h2188
  obtain ⟨hfamily, h2196⟩ := intAt_of_drop h2192
  obtain ⟨hsocktype, h2200⟩ := intAt_of_drop h2196
  have hprotocol := intAt_of_drop_last h2200
  rw [show 8 + maxNodeLen = 2056 from rfl] at hservice
  rw [show 8 + maxNodeLen + maxServiceLen = 2184 from rfl]
    at hhas hflags hfamily hsocktype hprotocol
  rw [ProxyRequest.ofMessage, hfunction, if_neg (by decide), if_neg (by decide),
    if_neg (by decide), if_neg (by decide), if_neg (by decide), if_pos rfl, ProxyRequest.sized,
    if_pos hlen, hid, hnode, hservice, hhas, hflags, hfamily, hsocktype, hprotocol]
  cases hints with
  | none => rfl
  | some h => rfl

/-- **Each request is read as the call it is made by**, with the id it is given, exactly when
the arguments fit into the fields they are written to. -/
theorem ofMessage_message_iff (c : SocketCall) :
    (∃ m, c.message callId = .ok m ∧ ProxyRequest.ofMessage m = some (callId.val, c.asked)) ↔
      c.Fits := by
  cases c with
  | getaddrinfo3 node service hints =>
    have htake {size : Nat} (hsize : 0 < size) (s : Bytes) :
        s.take (size - 1) = s ↔ s.length < size := by
      rw [List.take_eq_self_iff]
      omega
    simp only [SocketCall.message, Except.ok.injEq, exists_eq_left', ofMessage_getaddrinfo3,
      SocketCall.asked, SocketCall.Fits, Option.some.injEq, Prod.mk.injEq, true_and,
      ProxyRequest.getaddrinfo.injEq, and_true]
    rw [htake (by decide), htake (by decide)]
  | socket3 domain type protocol =>
    exact iff_of_true ⟨_, rfl, ofMessage_socket3 callId domain type protocol⟩ trivial
  | shutdown3 socket how =>
    exact iff_of_true ⟨_, rfl, ofMessage_shutdown3 callId socket how⟩ trivial
  | doRecv socket length flags =>
    simp only [SocketCall.message, Except.ok.injEq, exists_eq_left', ofMessage_doRecv,
      SocketCall.asked, SocketCall.Fits, Option.some.injEq, Prod.mk.injEq, true_and,
      ProxyRequest.recv.injEq, and_true]
    omega
  | send3 socket message flags _ =>
    simp only [SocketCall.message, Except.ok.injEq, exists_eq_left', ofMessage_send3,
      SocketCall.asked, SocketCall.Fits]
    split
    · rename_i hfits
      exact iff_of_true rfl hfits
    · rename_i hlong
      exact iff_of_false nofun hlong
  | connect3 socket address hshort =>
    by_cases hfits : 16 + address.length < 2 ^ 31
    · refine iff_of_true ⟨_, ?_, ofMessage_connect3 callId hfits⟩ hfits
      rw [SocketCall.message, connect3Allocate_ok hfits]
      rfl
    · obtain ⟨f, herror⟩ := connect3Allocate_error hshort hfits
      refine iff_of_false ?_ hfits
      rintro ⟨m, hm, -⟩
      rw [SocketCall.message, herror] at hm
      cases hm

end

end ZktlsNet
