import ZktlsNet.Lib.Bytes

/-!
# WebSocket frames on the wire (RFC 6455, section 5)

The wire format by itself, for any program that speaks it.

- `applyMask`: the masking transform of 5.3; it is its own inverse
  (`applyMask_applyMask`) and can be computed a word at a time
  (`applyMask_word_append`).
- `Frame.encode`: one frame of 5.2, with the shortest length encoding.
- `messages`: which binary messages a sequence of frames carries (5.4, 5.5):
  fragments joined, control frames between them skipped. `none` where the
  sequence does not conform.
-/

namespace NetLib

/-! ## Masking -/

/-- The four octets of a masking key. -/
abbrev MaskKey := { k : Bytes // k.length = 4 }

/-- A key is the little-endian word it is read as. -/
theorem MaskKey.toLE_ofLE (key : MaskKey) : toLE 4 (ofLE key.val) = key.val := by
  have h := NetLib.toLE_ofLE key.val
  rwa [key.property] at h

/-- Octet `i` is combined with octet `i mod 4` of the key. -/
def applyMask (key : MaskKey) (bs : Bytes) : Bytes :=
  bs.mapIdx fun i b => b ^^^ key.val.getD (i % 4) 0

@[simp] theorem applyMask_length (key : MaskKey) (bs : Bytes) :
    (applyMask key bs).length = bs.length := by
  simp [applyMask]

/-- **Masking twice is the identity.** -/
@[simp] theorem applyMask_applyMask (key : MaskKey) (bs : Bytes) :
    applyMask key (applyMask key bs) = bs := by
  rw [applyMask, applyMask, List.mapIdx_mapIdx, List.mapIdx_eq_iff]
  intro i
  cases h : bs[i]? with
  | none => rfl
  | some b =>
    simp only [Option.map_some, Function.comp_apply, UInt8.xor_assoc, UInt8.xor_self,
      UInt8.xor_zero]

/-- Fewer than five octets are combined with the key octet by octet. -/
theorem applyMask_short (key : MaskKey) {bs : Bytes} (h : bs.length ≤ 4) :
    applyMask key bs = List.zipWith (· ^^^ ·) bs key.val := by
  rw [applyMask, List.mapIdx_eq_iff]
  intro i
  rw [List.getElem?_zipWith]
  by_cases hi : i < bs.length
  · have hk : i < key.val.length := by
      rw [key.property]
      omega
    have hmod : i % 4 = i := by omega
    simp [hi, hk, hmod]
  · simp [List.getElem?_eq_none (Nat.le_of_not_lt hi)]

/-- The transform goes word by word: after four octets the key starts again. -/
theorem applyMask_word_append (key : MaskKey) {w : Bytes} (hw : w.length = 4) (bs : Bytes) :
    applyMask key (w ++ bs) = List.zipWith (· ^^^ ·) w key.val ++ applyMask key bs := by
  rw [← applyMask_short key (Nat.le_of_eq hw), applyMask, applyMask, applyMask,
    List.mapIdx_append, hw]
  simp only [Nat.add_mod_right]

/-- Behind any number of whole words the key starts again. -/
theorem applyMask_append (key : MaskKey) {ws : Bytes} (hw : 4 ∣ ws.length) (bs : Bytes) :
    applyMask key (ws ++ bs) = applyMask key ws ++ applyMask key bs := by
  obtain ⟨k, hk⟩ := hw
  simp only [applyMask, List.mapIdx_append, hk, Nat.add_mul_mod_self_left]

/-! ## Frames -/

/-- The opcodes of 5.2. -/
inductive Opcode
  | continuation
  | text
  | binary
  | close
  | ping
  | pong
  deriving DecidableEq, Repr

namespace Opcode

def toNat : Opcode → Nat
  | continuation => 0x0
  | text => 0x1
  | binary => 0x2
  | close => 0x8
  | ping => 0x9
  | pong => 0xA

def isControl : Opcode → Bool
  | close | ping | pong => true
  | _ => false

theorem toNat_lt (o : Opcode) : o.toNat < 16 := by cases o <;> decide

end Opcode

/-- The mask bit and the seven bits of payload length. -/
def second (masked : Bool) (len7 : Nat) : UInt8 :=
  UInt8.ofNat ((if masked then 128 else 0) + len7)

theorem second_toNat (masked : Bool) {len7 : Nat} (h : len7 < 128) :
    (second masked len7).toNat = (if masked then 128 else 0) + len7 := by
  have hlt : (if masked then 128 else 0) + len7 < 256 := by
    split <;> omega
  rw [second, UInt8.toNat_ofNat', Nat.mod_eq_of_lt hlt]

/-- The second octet, the extended payload length and the masking key of a
frame with `n` octets of payload. -/
def lengthAndKey (maskKey : Option MaskKey) (n : Nat) : Bytes :=
  let key : Bytes := (maskKey.map Subtype.val).getD []
  if n < 126 then second maskKey.isSome n :: key
  else if n ≤ 65535 then second maskKey.isSome 126 :: (toBE 2 n ++ key)
  else second maskKey.isSome 127 :: (toBE 8 n ++ key)

theorem lengthAndKey_length (maskKey : Option MaskKey) (n : Nat) :
    1 ≤ (lengthAndKey maskKey n).length ∧
      (lengthAndKey maskKey n).length ≤ 9 + if maskKey.isSome then 4 else 0 := by
  have hkey : ((maskKey.map Subtype.val).getD ([] : Bytes)).length =
      if maskKey.isSome then 4 else 0 := by
    cases maskKey with
    | none => rfl
    | some k => exact k.property
  unfold lengthAndKey
  split
  · rw [List.length_cons, hkey]
    omega
  · split <;> (rw [List.length_cons, List.length_append, toBE_length, hkey]; omega)

/-- The ways 5.2 has of announcing `n` octets of payload: the seven bits of the second
octet, and the extended payload length in network byte order. -/
inductive LengthEncoding (n : Nat) : Nat → Bytes → Prop
  | seven : n < 126 → LengthEncoding n n []
  | sixteen (ext : Bytes) : ext.length = 2 → ofBE ext = n → LengthEncoding n 126 ext
  | sixtyFour (ext : Bytes) : ext.length = 8 → ofBE ext = n → LengthEncoding n 127 ext

/-- The encoding a sender must use: the one with the fewest octets. -/
def shortestLength (n : Nat) : Nat × Bytes :=
  if n < 126 then (n, []) else if n ≤ 65535 then (126, toBE 2 n) else (127, toBE 8 n)

/-- `lengthAndKey` uses it. -/
theorem lengthAndKey_eq (maskKey : Option MaskKey) (n : Nat) :
    lengthAndKey maskKey n = second maskKey.isSome (shortestLength n).1 ::
      ((shortestLength n).2 ++ (maskKey.map Subtype.val).getD []) := by
  unfold lengthAndKey shortestLength
  split
  · rfl
  · split <;> rfl

theorem shortestLength_encodes {n : Nat} (h : n < 2 ^ 64) :
    LengthEncoding n (shortestLength n).1 (shortestLength n).2 := by
  unfold shortestLength
  split
  · exact .seven (by assumption)
  · split
    · exact .sixteen _ (toBE_length 2 n) (ofBE_toBE_of_lt (by omega))
    · exact .sixtyFour _ (toBE_length 8 n) (ofBE_toBE_of_lt (by omega))

/-- **No encoding is shorter.** -/
theorem shortestLength_least {n len7 : Nat} {ext : Bytes} (h : LengthEncoding n len7 ext) :
    (shortestLength n).2.length ≤ ext.length := by
  unfold shortestLength
  cases h with
  | seven hn => rw [if_pos hn]
  | sixteen _ hlen hval =>
    have hlt := ofBE_lt ext
    rw [hlen, hval] at hlt
    split
    · exact Nat.zero_le _
    · rw [if_pos (by omega), toBE_length, hlen]
  | sixtyFour _ hlen hval =>
    rw [hlen]
    split
    · exact Nat.zero_le _
    · split <;> simp [toBE_length]

/-- A frame without reserved bits. The length of its payload has 63 bits. -/
structure Frame where
  fin : Bool
  opcode : Opcode
  maskKey : Option MaskKey
  payload : Bytes
  fits : payload.length < 2 ^ 63
  deriving DecidableEq, Repr

namespace Frame

/-- The first octet. -/
def first (f : Frame) : UInt8 := UInt8.ofNat ((if f.fin then 128 else 0) + f.opcode.toNat)

/-- The payload as it is sent. -/
def masked (f : Frame) : Bytes :=
  match f.maskKey with
  | none => f.payload
  | some key => applyMask key f.payload

/-- The octets of the frame. -/
def encode (f : Frame) : Bytes :=
  f.first :: lengthAndKey f.maskKey f.payload.length ++ f.masked

@[simp] theorem masked_length (f : Frame) : f.masked.length = f.payload.length := by
  unfold masked
  split <;> simp

end Frame

/-! ## Messages -/

/-- The messages of a sequence of frames; `opened` holds what has arrived of a
fragmented message. -/
def messagesFrom : Option Bytes → List Frame → Option (List Bytes)
  | none, [] => some []
  | some _, [] => none
  | opened, f :: fs =>
    if f.opcode.isControl then
      if f.fin = true ∧ f.payload.length ≤ 125 ∧ (f.opcode = .close → fs = []) then
        messagesFrom opened fs
      else none
    else
      match opened, f.opcode, f.fin with
      | none, .binary, true => (messagesFrom none fs).map (f.payload :: ·)
      | none, .binary, false => messagesFrom (some f.payload) fs
      | some acc, .continuation, true => (messagesFrom none fs).map ((acc ++ f.payload) :: ·)
      | some acc, .continuation, false => messagesFrom (some (acc ++ f.payload)) fs
      | _, _, _ => none

/-- The binary messages a conforming sequence of frames carries. -/
def messages (fs : List Frame) : Option (List Bytes) := messagesFrom none fs

/-- Unfragmented frames carry their payloads. -/
theorem messages_of_whole {fs : List Frame}
    (h : ∀ f ∈ fs, f.fin = true ∧ f.opcode = .binary) :
    messages fs = some (fs.map Frame.payload) := by
  induction fs with
  | nil => rfl
  | cons f fs ih =>
    obtain ⟨hfin, hop⟩ := h f (List.mem_cons_self ..)
    have ih := ih fun g hg => h g (List.mem_cons_of_mem _ hg)
    rw [messages] at ih
    simp [messages, messagesFrom, hop, hfin, Opcode.isControl, ih]

end NetLib
