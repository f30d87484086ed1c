import ZktlsNet.Lib.BlockHash
import ZktlsNet.Lib.Buffer
import ZktlsNet.Lib.Bytes
import Mathlib.Tactic.IntervalCases

/-!
# SHA-1

The hash of FIPS 180-4 as the standard states it: padding, the schedule of 80
words, 80 rounds on five words, one compression for each block of 64 bytes.

Beside it stand the forms of the round functions and of the word order that
implementations prefer, each with its equation.
-/

namespace NetLib

namespace Sha1

/-- The five words of a chaining value. -/
structure Chain where
  a : UInt32
  b : UInt32
  c : UInt32
  d : UInt32
  e : UInt32
  deriving DecidableEq, Repr

/-- `ROTL`. -/
def rotl (x : UInt32) (n : UInt32) : UInt32 := (x <<< n) ||| (x >>> (32 - n))

def ch (x y z : UInt32) : UInt32 := (x &&& y) ^^^ (~~~x &&& z)

def parity (x y z : UInt32) : UInt32 := x ^^^ y ^^^ z

def maj (x y z : UInt32) : UInt32 := (x &&& y) ^^^ (x &&& z) ^^^ (y &&& z)

/-- The function of round `t`. -/
def f (t : Nat) : UInt32 → UInt32 → UInt32 → UInt32 :=
  if t < 20 then ch else if t < 40 then parity else if t < 60 then maj else parity

/-- The constant of round `t`. -/
def k (t : Nat) : UInt32 :=
  if t < 20 then 0x5A827999 else if t < 40 then 0x6ED9EBA1
  else if t < 60 then 0x8F1BBCDC else 0xCA62C1D6

/-- Word `t` of a block. -/
def blockWord (block : Bytes) (t : Nat) : UInt32 := UInt32.ofNat (ofBE (slice block (4 * t) 4))

/-- The message schedule. -/
def schedule (block : Bytes) (t : Nat) : UInt32 :=
  if t < 16 then blockWord block t
  else rotl (schedule block (t - 3) ^^^ schedule block (t - 8) ^^^ schedule block (t - 14) ^^^
    schedule block (t - 16)) 1

/-- One round. -/
def round (block : Bytes) (h : Chain) (t : Nat) : Chain where
  a := rotl h.a 5 + f t h.b h.c h.d + h.e + k t + schedule block t
  b := h.a
  c := rotl h.b 30
  d := h.c
  e := h.d

/-- The rounds before round `t`. -/
def rounds (block : Bytes) (h : Chain) : Nat → Chain
  | 0 => h
  | t + 1 => round block (rounds block h t) t

/-- The compression of a block. -/
def compress (h : Chain) (block : Bytes) : Chain :=
  let h' := rounds block h 80
  ⟨h.a + h'.a, h.b + h'.b, h.c + h'.c, h.d + h'.d, h.e + h'.e⟩

/-- The chaining value before the first block. -/
def initial : Chain := ⟨0x67452301, 0xEFCDAB89, 0x98BADCFE, 0x10325476, 0xC3D2E1F0⟩

/-- The bytes of a message of `len` bytes behind it: a one, as few zeros as there can be,
and the number of its bits. -/
def padding (len : Nat) : Bytes :=
  0x80 :: List.replicate ((119 - len % 64) % 64) 0 ++ toBE 8 (8 * len)

/-- The digest of a chaining value. -/
def digest (h : Chain) : Bytes :=
  [h.a, h.b, h.c, h.d, h.e].flatMap fun word => toBE 4 word.toNat

/-- The hash of a message. -/
def hash (msg : Bytes) : Bytes :=
  digest (absorb 64 compress initial (msg ++ padding msg.length)).1

/-! ## Lengths -/

@[simp] theorem digest_length (h : Chain) : (digest h).length = 20 := by
  simp [digest]

@[simp] theorem hash_length (msg : Bytes) : (hash msg).length = 20 := digest_length _

/-! ## Other forms of the round functions -/

/-- The choice by two exclusive ors. -/
theorem ch_eq (x y z : UInt32) : ((x &&& (y ^^^ z)) ^^^ z) = ch x y z := by
  refine UInt32.eq_of_toBitVec_eq (BitVec.eq_of_getLsbD_eq fun i hi => ?_)
  simp only [ch, UInt32.toBitVec_xor, UInt32.toBitVec_and, UInt32.toBitVec_not,
    BitVec.getLsbD_xor, BitVec.getLsbD_and, BitVec.getLsbD_not, hi]
  cases x.toBitVec.getLsbD i <;> cases y.toBitVec.getLsbD i <;> cases z.toBitVec.getLsbD i <;> rfl

/-- The majority by four operations. -/
theorem maj_eq (x y z : UInt32) : (((x ||| y) &&& z) ||| (x &&& y)) = maj x y z := by
  refine UInt32.eq_of_toBitVec_eq (BitVec.eq_of_getLsbD_eq fun i hi => ?_)
  simp only [maj, UInt32.toBitVec_xor, UInt32.toBitVec_and, UInt32.toBitVec_or,
    BitVec.getLsbD_xor, BitVec.getLsbD_and, BitVec.getLsbD_or]
  cases x.toBitVec.getLsbD i <;> cases y.toBitVec.getLsbD i <;> cases z.toBitVec.getLsbD i <;> rfl

/-- The bits of a word stored little-endian. -/
theorem getLsbD_ofLE (bs : Bytes) {i : Nat} (hi : i < 32) :
    (UInt32.ofNat (ofLE bs)).toBitVec.getLsbD i =
      (bs.getD (i / 8) 0).toNat.testBit (i % 8) := by
  rw [← testBit_ofLE, show (UInt32.ofNat (ofLE bs)).toBitVec = BitVec.ofNat 32 (ofLE bs) from rfl,
    BitVec.getLsbD_ofNat, decide_eq_true hi, Bool.true_and]

/-- The bytes of a word the other way round. -/
theorem swap_ofLE (b0 b1 b2 b3 : UInt8) :
    (rotl (UInt32.ofNat (ofLE [b0, b1, b2, b3])) 24 &&& 0xFF00FF00) |||
        (rotl (UInt32.ofNat (ofLE [b0, b1, b2, b3])) 8 &&& 0x00FF00FF) =
      UInt32.ofNat (ofBE [b0, b1, b2, b3]) := by
  refine UInt32.eq_of_toBitVec_eq (BitVec.eq_of_getLsbD_eq fun i hi => ?_)
  have hbit := fun j (hj : j < 32) => getLsbD_ofLE [b0, b1, b2, b3] hj
  rw [ofBE, getLsbD_ofLE _ hi]
  generalize UInt32.ofNat (ofLE [b0, b1, b2, b3]) = l at hbit
  simp only [rotl, UInt32.toBitVec_or, UInt32.toBitVec_and, UInt32.toBitVec_shiftLeft,
    UInt32.toBitVec_shiftRight, BitVec.getLsbD_or, BitVec.getLsbD_and]
  interval_cases i <;> simp [-BitVec.getLsbD_eq_getElem, hbit]

end Sha1

end NetLib
