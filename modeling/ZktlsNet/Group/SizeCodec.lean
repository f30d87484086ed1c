import ZktlsNet.Lib.Buffer
import ZktlsNet.Lib.Bytes
import ZktlsNet.Ws.Failure

/-!
# Numbers on the wire (`pado_io_channel.h:14-33`)

`send_size<T, N>` and `recv_size<T, N>` put the low `N` bytes of an integer on the wire and
take them off again, by shifts in the type that `T` is promoted to. The bytes are received
into the memory of the variable itself, from where the loop reads them, and only then is the
variable written.

The channel is a parameter: what it is told to send is put behind what was sent before, and
a receive takes the next bytes.

- `sendSize_eq`: the bytes are the big-endian ones.
- `recvSize_eq`: the variable gets their number.
- `send_recv_sizes`: any sequence of values of any types and byte counts.
-/

namespace ZktlsNet

open NetLib

/-- An integer type: its bytes, and whether it is signed. -/
structure IntType where
  bytes : Nat
  signed : Bool
  pos : 1 ≤ bytes
  deriving DecidableEq

namespace IntType

variable (T : IntType)

/-- The bits of a value. -/
abbrev bits : Nat := 8 * T.bytes

/-- The bits of the type that values are promoted to: at least those of an `int`. -/
abbrev promotedBits : Nat := max 32 T.bits

/-- The promotion of a value. -/
def promote (x : BitVec T.bits) : BitVec T.promotedBits :=
  if T.signed then x.signExtend T.promotedBits else x.setWidth T.promotedBits

/-- `x >> k` after promotion; what is shorter than an `int` becomes one, which is signed. -/
def shiftRight (x : BitVec T.promotedBits) (k : Nat) : BitVec T.promotedBits :=
  if T.signed || decide (T.bytes < 4) then x.sshiftRight k else x >>> k

/-- The number that a value stands for. -/
def value (x : BitVec T.bits) : Int := if T.signed then x.toInt else x.toNat

end IntType

/-! ## The code -/

/-- `s >> ((N - 1 - i) << 3) & 0xff`, as an `unsigned char`. -/
def sendByte (T : IntType) (N : Nat) (s : BitVec T.bits) (i : Nat) : UInt8 :=
  UInt8.ofBitVec ((T.shiftRight (T.promote s) ((N - 1 - i) <<< 3) &&&
    BitVec.ofNat T.promotedBits 0xff).setWidth 8)

/-- The bytes that `send_size` sends. -/
def sizeBytes (T : IntType) (N : Nat) (s : BitVec T.bits) : Bytes :=
  (List.range N).map (sendByte T N s)

/-- `s |= (T)c[i] << ((N - 1 - i) << 3)`. -/
def recvByte (T : IntType) (N : Nat) (s : BitVec T.bits) (i : Nat) (c : UInt8) : BitVec T.bits :=
  (T.promote s ||| T.promote (c.toBitVec.setWidth T.bits) <<< ((N - 1 - i) <<< 3)).setWidth T.bits

/-- The loop of `recv_size`, over the memory that `c` points to. -/
def recvLoop (T : IntType) (N : Nat) (mem : Bytes) :
    Nat → Nat → BitVec T.bits → Res (BitVec T.bits)
  | 0, _, s => .ok s
  | remaining + 1, i, s =>
    match mem[i]? with
    | some c => recvLoop T N mem remaining (i + 1) (recvByte T N s i c)
    | none => .error (.fault .outOfBounds)

section

variable {σ τ : Type} (sendData : σ → Bytes → σ) (recvData : τ → Nat → Bytes × τ)

/-- `send_size<T, N>`. -/
def sendSize (T : IntType) (N : Nat) (s : BitVec T.bits) (channel : σ) : σ :=
  sendData channel (sizeBytes T N s)

/-- `recv_size<T, N>`, where `size` is the memory of the variable, before and after. -/
def recvSize (T : IntType) (N : Nat) (size : Bytes) (channel : τ) : Res (Bytes × τ) := do
  let (data, channel) := recvData channel N
  if data.length ≤ size.length then
    let c := store size 0 data
    let s ← recvLoop T N c N 0 0#T.bits
    return (store c 0 (toLE T.bytes s.toNat), channel)
  else .error (.fault .outOfBounds)

end

/-! ## Promotion -/

namespace IntType

variable {T : IntType}

/-- The bits of a value are not changed by promotion. -/
theorem getLsbD_promote (x : BitVec T.bits) {j : Nat} (hj : j < T.bits) :
    (T.promote x).getLsbD j = x.getLsbD j := by
  have hwide : j < T.promotedBits := Nat.lt_of_lt_of_le hj (Nat.le_max_right _ _)
  unfold promote
  split
  · rw [BitVec.getLsbD_signExtend, if_pos hj, decide_eq_true hwide, Bool.true_and]
  · rw [BitVec.getLsbD_setWidth, decide_eq_true hwide, Bool.true_and]

/-- Either shift moves the bits that the value has. -/
theorem getLsbD_shiftRight (x : BitVec T.promotedBits) {k j : Nat} (hj : k + j < T.bits) :
    (T.shiftRight x k).getLsbD j = x.getLsbD (k + j) := by
  have hwide : k + j < T.promotedBits := Nat.lt_of_lt_of_le hj (Nat.le_max_right _ _)
  have hlow : decide (T.promotedBits ≤ j) = false := decide_eq_false (by omega)
  unfold shiftRight
  split
  · rw [BitVec.getLsbD_sshiftRight, if_pos hwide, hlow, Bool.not_false, Bool.true_and]
  · rw [BitVec.getLsbD_ushiftRight]

end IntType

/-! ## Sending -/

/-- **A byte that is sent** is a byte of the value. -/
theorem sendByte_eq {T : IntType} {N : Nat} (hN : N ≤ T.bytes) (v : BitVec T.bits) {i : Nat}
    (hi : i < N) : sendByte T N v i = UInt8.ofNat (v.toNat / 256 ^ (N - 1 - i) % 256) := by
  have hshift : (N - 1 - i) <<< 3 = 8 * (N - 1 - i) := by
    rw [Nat.shiftLeft_eq]
    omega
  have hpow : 256 ^ (N - 1 - i) = 2 ^ (8 * (N - 1 - i)) := by
    rw [Nat.pow_mul]
  have hmask : ∀ j < 8, (BitVec.ofNat T.promotedBits 0xff).getLsbD j = true := by
    intro j hj
    have hwide : j < T.promotedBits := Nat.lt_of_lt_of_le (by omega) (Nat.le_max_left _ _)
    rw [BitVec.getLsbD_ofNat, decide_eq_true hwide, Bool.true_and, show 0xff = 2 ^ 8 - 1 by rfl,
      Nat.testBit_two_pow_sub_one, decide_eq_true hj]
  refine UInt8.toBitVec_inj.mp (BitVec.eq_of_getLsbD_eq fun j hj => ?_)
  have hbit : 8 * (N - 1 - i) + j < T.bits := by
    show _ < 8 * T.bytes
    omega
  rw [sendByte, hshift, BitVec.getLsbD_setWidth, decide_eq_true hj, Bool.true_and,
    BitVec.getLsbD_and, hmask j hj, Bool.and_true, IntType.getLsbD_shiftRight _ hbit,
    IntType.getLsbD_promote v hbit, UInt8.toBitVec_ofNat', BitVec.getLsbD_ofNat, decide_eq_true hj,
    Bool.true_and, hpow, show 256 = 2 ^ 8 by rfl, Nat.testBit_mod_two_pow, decide_eq_true hj,
    Bool.true_and, Nat.testBit_div_two_pow, BitVec.testBit_toNat, Nat.add_comm j]

/-- **The bytes on the wire** are the big-endian ones. -/
theorem sizeBytes_eq {T : IntType} {N : Nat} (hN : N ≤ T.bytes) (v : BitVec T.bits) :
    sizeBytes T N v = toBE N v.toNat := by
  rw [toBE_eq_map]
  refine List.map_congr_left fun i hi => ?_
  exact sendByte_eq hN v (List.mem_range.mp hi)

/-! ## Receiving -/

/-- A step of the loop, in the type itself. -/
theorem recvByte_eq {T : IntType} (N : Nat) (s : BitVec T.bits) (i : Nat) (c : UInt8) :
    recvByte T N s i c = s ||| c.toBitVec.setWidth T.bits <<< ((N - 1 - i) <<< 3) := by
  refine BitVec.eq_of_getLsbD_eq fun j hj => ?_
  have hwide : j < T.promotedBits := Nat.lt_of_lt_of_le hj (Nat.le_max_right _ _)
  have hless : j - (N - 1 - i) <<< 3 < T.bits := Nat.lt_of_le_of_lt (Nat.sub_le _ _) hj
  rw [recvByte, BitVec.getLsbD_setWidth, decide_eq_true hj, Bool.true_and, BitVec.getLsbD_or,
    BitVec.getLsbD_or, IntType.getLsbD_promote s hj, BitVec.getLsbD_shiftLeft,
    BitVec.getLsbD_shiftLeft, decide_eq_true hwide, decide_eq_true hj,
    IntType.getLsbD_promote _ hless]

theorem two_pow_bits (T : IntType) : 2 ^ T.bits = 256 ^ T.bytes := Nat.pow_mul 2 8 T.bytes

/-- A step puts a byte behind those that were received before. -/
theorem toNat_recvByte {T : IntType} {N i : Nat} (hi : i < N) (hN : N ≤ T.bytes) {s : BitVec T.bits}
    {a : Nat} (hs : s.toNat = a * 256 ^ (N - i)) (c : UInt8) :
    (recvByte T N s i c).toNat = (a * 256 + c.toNat) * 256 ^ (N - 1 - i) := by
  obtain ⟨k, rfl⟩ : ∃ k, N = i + k + 1 := ⟨N - i - 1, by omega⟩
  rw [show i + k + 1 - i = k + 1 by omega] at hs
  have hk : i + k + 1 - 1 - i = k := by omega
  have hshift : k <<< 3 = 8 * k := by
    rw [Nat.shiftLeft_eq, Nat.mul_comm]
  have hc := c.toNat_lt
  have hlow : c.toNat * 256 ^ k < 256 ^ (k + 1) := by
    rw [Nat.pow_succ']
    exact Nat.mul_lt_mul_of_pos_right hc (Nat.pow_pos (by decide))
  have hfit : 256 ^ (k + 1) ≤ 2 ^ T.bits := by
    rw [two_pow_bits]
    exact Nat.pow_le_pow_right (by decide) (by omega)
  have hbyte : c.toNat < 2 ^ T.bits := by
    refine Nat.lt_of_lt_of_le hc (Nat.le_trans ?_ hfit)
    exact Nat.pow_le_pow_right (n := 256) (by decide) (by omega : 1 ≤ k + 1)
  have hmoved : (c.toNat % 2 ^ T.bits) <<< (8 * k) % 2 ^ T.bits = c.toNat * 256 ^ k := by
    rw [Nat.mod_eq_of_lt hbyte, Nat.shiftLeft_eq, Nat.pow_mul, Nat.mod_eq_of_lt]
    exact Nat.lt_of_lt_of_le hlow hfit
  have hhigh : a * 256 ^ (k + 1) = a <<< (8 * (k + 1)) := by
    rw [Nat.shiftLeft_eq, Nat.pow_mul]
  have hor : c.toNat * 256 ^ k < 2 ^ (8 * (k + 1)) := by
    rwa [Nat.pow_mul]
  rw [recvByte_eq, BitVec.toNat_or, BitVec.toNat_shiftLeft, BitVec.toNat_setWidth, hk, hshift, hs,
    UInt8.toNat_toBitVec, hmoved, hhigh, ← Nat.shiftLeft_add_eq_or_of_lt hor, ← hhigh,
    Nat.pow_succ']
  ring

/-- **The loop** gives the number of the bytes. -/
theorem recvLoop_eq {T : IntType} {N : Nat} (hN : N ≤ T.bytes) {data : Bytes}
    (hlen : data.length = N) (behind : Bytes) (remaining : Nat) :
    ∀ (i : Nat) (s : BitVec T.bits), i + remaining = N →
      s.toNat = ofBE (data.take i) * 256 ^ remaining →
      ∃ s', recvLoop T N (data ++ behind) remaining i s = .ok s' ∧ s'.toNat = ofBE data := by
  induction remaining with
  | zero =>
    intro i s hi hs
    refine ⟨s, rfl, ?_⟩
    rw [hs, List.take_of_length_le (by omega), Nat.pow_zero, Nat.mul_one]
  | succ remaining ih =>
    intro i s hi hs
    have hlt : i < data.length := by omega
    have hread : (data ++ behind)[i]? = some data[i] := by
      rw [List.getElem?_append_left hlt, List.getElem?_eq_getElem hlt]
    have htake : data.take (i + 1) = data.take i ++ [data[i]] :=
      List.take_succ_eq_append_getElem hlt
    rw [recvLoop, hread]
    refine ih (i + 1) _ (by omega) ?_
    have hstep := toNat_recvByte (T := T) (i := i) (by omega) hN (a := ofBE (data.take i))
      (by rw [hs, show N - i = remaining + 1 by omega]) data[i]
    rw [hstep, htake, ofBE_append_singleton, show N - 1 - i = remaining by omega]

/-- The value of the low `N` bytes. -/
def lowBytes (T : IntType) (N : Nat) (v : BitVec T.bits) : BitVec T.bits :=
  BitVec.ofNat T.bits (v.toNat % 256 ^ N)

theorem toNat_lowBytes {T : IntType} {N : Nat} (hN : N ≤ T.bytes) (v : BitVec T.bits) :
    (lowBytes T N v).toNat = v.toNat % 256 ^ N := by
  have hle : 256 ^ N ≤ 2 ^ T.bits := by
    rw [two_pow_bits]
    exact Nat.pow_le_pow_right (by decide) hN
  rw [lowBytes, BitVec.toNat_ofNat, Nat.mod_eq_of_lt]
  exact Nat.lt_of_lt_of_le (Nat.mod_lt _ (Nat.pow_pos (by decide))) hle

/-- All bytes are the value. -/
theorem lowBytes_all (T : IntType) (v : BitVec T.bits) : lowBytes T T.bytes v = v := by
  refine BitVec.eq_of_toNat_eq ?_
  rw [toNat_lowBytes (Nat.le_refl _), ← two_pow_bits, Nat.mod_eq_of_lt v.isLt]

/-- The number of a value and its bits, up to a multiple of `256 ^ N`. -/
theorem IntType.value_emod {T : IntType} {N : Nat} (hN : N ≤ T.bytes) (v : BitVec T.bits) :
    T.value v % (256 ^ N : Nat) = (v.toNat % 256 ^ N : Nat) := by
  rw [Int.natCast_mod]
  unfold value
  split
  · -- a negative value differs from its bits by `2 ^ bits`
    obtain ⟨c, hc⟩ : 256 ^ N ∣ 2 ^ T.bits := by
      rw [two_pow_bits]
      exact Nat.pow_dvd_pow 256 hN
    rw [BitVec.toInt_eq_toNat_cond]
    split
    · rfl
    · rw [hc, Nat.cast_mul, Int.sub_mul_emod_self_left]
  · rfl

/-- **Fewer bytes** than the type has give the value in their range. -/
theorem IntType.value_lowBytes {T : IntType} {N : Nat} (hN : N < T.bytes) (v : BitVec T.bits) :
    T.value (lowBytes T N v) = T.value v % (256 ^ N : Nat) := by
  have hnat := toNat_lowBytes (Nat.le_of_lt hN) v
  have hlt : v.toNat % 256 ^ N < 256 ^ N := Nat.mod_lt _ (Nat.pow_pos (by decide))
  have hhalf : 2 * 256 ^ N ≤ 2 ^ T.bits := by
    have hpow : 256 ^ (N + 1) ≤ 256 ^ T.bytes := Nat.pow_le_pow_right (by decide) hN
    rw [Nat.pow_succ] at hpow
    rw [two_pow_bits]
    omega
  rw [value_emod (Nat.le_of_lt hN)]
  unfold value
  split
  · rw [BitVec.toInt_eq_toNat_cond, hnat, if_pos (by omega)]
  · rw [hnat]

/-! ## Sequences -/

/-- A value of some type, the number of bytes that it is sent in, and what the variable
holds that it is received into. -/
structure SizedValue where
  type : IntType
  N : Nat
  N_pos : 1 ≤ N
  N_le : N ≤ type.bytes
  value : BitVec type.bits
  received : Vector UInt8 type.bytes

/-- The bytes of a value on the wire. -/
def SizedValue.wire (x : SizedValue) : Bytes := toBE x.N x.value.toNat

/-- The memory of a variable with the low bytes of a value. -/
def SizedValue.result (x : SizedValue) : Bytes :=
  toLE x.type.bytes (lowBytes x.type x.N x.value).toNat

section

variable {σ τ : Type} (sendData : σ → Bytes → σ) (recvData : τ → Nat → Bytes × τ)

/-- One `send_size` after the other. -/
def sendSizes : List SizedValue → σ → σ
  | [], channel => channel
  | x :: xs, channel => sendSizes xs (sendSize sendData x.type x.N x.value channel)

/-- One `recv_size` after the other, with the memory of the variables afterwards. -/
def recvSizes : List SizedValue → τ → Res (List Bytes × τ)
  | [], channel => return ([], channel)
  | x :: xs, channel => do
    let (size, channel) ← recvSize recvData x.type x.N x.received.toList channel
    let (sizes, channel) ← recvSizes xs channel
    return (size :: sizes, channel)

variable {sendData recvData} {sent : σ → Bytes} {pending : τ → Bytes}

/-- The values go out one behind the other. -/
theorem sendSizes_eq (hsend : ∀ s data, sent (sendData s data) = sent s ++ data)
    (xs : List SizedValue) (s : σ) :
    sent (sendSizes sendData xs s) = sent s ++ xs.flatMap SizedValue.wire := by
  induction xs generalizing s with
  | nil => exact (List.append_nil _).symm
  | cons x xs ih =>
    rw [sendSizes, ih, sendSize, hsend, sizeBytes_eq x.N_le, List.flatMap_cons, List.append_assoc]
    rfl

/-- What the channel does on a receive when the bytes are there. -/
def ReceivesNext (recvData : τ → Nat → Bytes × τ) (pending : τ → Bytes) : Prop :=
  ∀ t n, n ≤ (pending t).length →
    (recvData t n).1 = (pending t).take n ∧ pending (recvData t n).2 = (pending t).drop n

/-- **One `recv_size`** takes the bytes of its value and no more. -/
theorem recvSize_eq (hrecv : ReceivesNext recvData pending) (x : SizedValue) {t : τ} {rest : Bytes}
    (ht : pending t = x.wire ++ rest) :
    ∃ t', recvSize recvData x.type x.N x.received.toList t = .ok (x.result, t') ∧
      pending t' = rest := by
  have hwire : x.wire.length = x.N := toBE_length _ _
  obtain ⟨hdata, hnext⟩ := hrecv t x.N (by rw [ht, List.length_append]; omega)
  rw [ht, List.take_left' hwire] at hdata
  rw [ht, List.drop_left' hwire] at hnext
  generalize hpair : recvData t x.N = result at hdata hnext
  obtain ⟨data, channel⟩ := result
  have hdata' : data = x.wire := hdata
  subst hdata'
  have hsize : x.received.toList.length = x.type.bytes := Vector.length_toList
  have hle := x.N_le
  have hstore : store x.received.toList 0 x.wire = x.wire ++ x.received.toList.drop x.N := by
    rw [store, hwire]
    simp
  obtain ⟨s, hloop, hs⟩ := recvLoop_eq x.N_le hwire (x.received.toList.drop x.N) x.N 0
    0#x.type.bits (by omega) (by simp [ofBE])
  have hvalue : s.toNat = (lowBytes x.type x.N x.value).toNat := by
    rw [hs, SizedValue.wire, ofBE_toBE, toNat_lowBytes x.N_le]
  have hcover : store (x.wire ++ x.received.toList.drop x.N) 0 (toLE x.type.bytes s.toNat) =
      toLE x.type.bytes s.toNat := by
    rw [store, List.take_zero, List.nil_append, List.drop_of_length_le, List.append_nil]
    rw [List.length_append, List.length_drop, toLE_length]
    omega
  rw [hvalue] at hcover
  refine ⟨channel, ?_, hnext⟩
  simp only [recvSize, hpair, if_pos (show x.wire.length ≤ x.received.toList.length by omega),
    hstore, hloop, ok_bind, pure_eq_ok, hvalue, hcover]
  rfl

/-- **All values**, one by one. -/
theorem recvSizes_eq (hrecv : ReceivesNext recvData pending) (xs : List SizedValue) {t : τ}
    {rest : Bytes} (ht : pending t = xs.flatMap SizedValue.wire ++ rest) :
    ∃ t', recvSizes recvData xs t = .ok (xs.map SizedValue.result, t') ∧ pending t' = rest := by
  induction xs generalizing t with
  | nil => exact ⟨t, rfl, ht⟩
  | cons x xs ih =>
    rw [List.flatMap_cons, List.append_assoc] at ht
    obtain ⟨t₁, hfirst, ht₁⟩ := recvSize_eq hrecv x ht
    obtain ⟨t', hrest, ht'⟩ := ih ht₁
    refine ⟨t', ?_, ht'⟩
    rw [recvSizes, hfirst, ok_bind]
    simp only [hrest, ok_bind, pure_eq_ok, List.map_cons]

/-- The value that a variable with the given memory has. -/
def IntType.load (T : IntType) (size : Bytes) : BitVec T.bits := BitVec.ofNat T.bits (ofLE size)

theorem SizedValue.load_result (x : SizedValue) :
    x.type.load x.result = lowBytes x.type x.N x.value := by
  have hlt := (lowBytes x.type x.N x.value).isLt
  rw [two_pow_bits] at hlt
  rw [IntType.load, result, ofLE_toLE_of_lt hlt, BitVec.ofNat_toNat, BitVec.setWidth_eq]

/-- **Numbers survive on the wire.** What is sent is each value in its `N` big-endian bytes;
who receives these takes them value by value and leaves what is behind; and the value that
a variable then has is the one that was sent if all its bytes were, and else, modulo
`2 ^ (8 * N)`, the one in the range of so many bits. -/
theorem send_recv_sizes (hsend : ∀ s data, sent (sendData s data) = sent s ++ data)
    (hrecv : ReceivesNext recvData pending) (xs : List SizedValue) (s : σ) (t : τ) (rest : Bytes) :
    sent (sendSizes sendData xs s) = sent s ++ xs.flatMap SizedValue.wire ∧
    (pending t = xs.flatMap SizedValue.wire ++ rest →
      ∃ t', recvSizes recvData xs t = .ok (xs.map SizedValue.result, t') ∧ pending t' = rest) ∧
    ∀ x ∈ xs, (x.N = x.type.bytes → x.type.load x.result = x.value) ∧
      (x.N < x.type.bytes →
        x.type.value (x.type.load x.result) = x.type.value x.value % (2 ^ (8 * x.N) : Nat)) ∧
      x.type.value (x.type.load x.result) % (2 ^ (8 * x.N) : Nat) =
        x.type.value x.value % (2 ^ (8 * x.N) : Nat) := by
  refine ⟨sendSizes_eq hsend xs s, recvSizes_eq hrecv xs, fun x _ => ?_⟩
  have hpow : 2 ^ (8 * x.N) = 256 ^ x.N := Nat.pow_mul 2 8 x.N
  rw [x.load_result, hpow]
  refine ⟨?_, fun h => IntType.value_lowBytes h x.value, ?_⟩
  · intro hall
    rw [hall, lowBytes_all]
  · rw [IntType.value_emod x.N_le, IntType.value_emod x.N_le, toNat_lowBytes x.N_le, Nat.mod_mod]

end

/-- A negative number of two bytes, and two bytes of a number of four. -/
theorem send_recv_sizes_two :
    let xs : List SizedValue :=
      [⟨⟨2, true, by decide⟩, 2, by decide, by decide, BitVec.ofInt 16 (-2), .replicate 2 7⟩,
        ⟨⟨4, false, by decide⟩, 2, by decide, by decide, 0x01020304#32, .replicate 4 7⟩]
    let send : Bytes → Bytes → Bytes := fun channel data => channel ++ data
    let recv : Bytes → Nat → Bytes × Bytes := fun channel n => (channel.take n, channel.drop n)
    sendSizes send xs [] = [0xff, 0xfe, 0x03, 0x04] ∧
      ∃ t, recvSizes recv xs [0xff, 0xfe, 0x03, 0x04, 0x05] =
        .ok ([[0xfe, 0xff], [0x04, 0x03, 0, 0]], t) ∧ t = [0x05] := by
  intro xs send recv
  have hsend : ∀ s data : Bytes, id (send s data) = id s ++ data := fun _ _ => rfl
  have hrecv : ReceivesNext recv id := fun _ _ _ => ⟨rfl, rfl⟩
  obtain ⟨hsent, hreceived, -⟩ :=
    send_recv_sizes hsend hrecv xs [] [0xff, 0xfe, 0x03, 0x04, 0x05] [0x05]
  exact ⟨hsent.trans (by decide), hreceived (by decide)⟩

end ZktlsNet
