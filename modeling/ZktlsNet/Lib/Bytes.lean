import Mathlib.Data.List.Basic
import Mathlib.Tactic.Ring

/-!
# Fixed-width integers as byte lists

The two byte orders every binary wire format is written in, on `List UInt8`:

- `toLE w n` / `ofLE bs`: `w` little-endian bytes of a natural, and back. The
  round trips are `ofLE_toLE` (bits above `8 * w` are dropped) and `toLE_ofLE`.
- `toBE` / `ofBE`: the big-endian twins, by reversal.
- `ofLE_zipWith_xor`: exclusive or of two words is exclusive or byte by byte,
  the fact that lets a word-at-a-time loop be read as a byte-at-a-time one.
-/

namespace NetLib

/-- A string of bytes. -/
abbrev Bytes := List UInt8

/-- The bytes of a text. -/
def ascii (s : String) : Bytes := s.toUTF8.data.toList

/-! ## Little-endian -/

/-- The `w` little-endian bytes of `n`; bits above `8 * w` are dropped. -/
def toLE : Nat → Nat → Bytes
  | 0, _ => []
  | w + 1, n => UInt8.ofNat (n % 256) :: toLE w (n / 256)

/-- The natural with the given little-endian bytes. -/
def ofLE : Bytes → Nat
  | [] => 0
  | b :: bs => b.toNat + 256 * ofLE bs

@[simp] theorem ofLE_nil : ofLE [] = 0 := rfl

@[simp] theorem ofLE_cons (b : UInt8) (bs : Bytes) :
    ofLE (b :: bs) = b.toNat + 256 * ofLE bs := rfl

@[simp] theorem toLE_length (w n : Nat) : (toLE w n).length = w := by
  induction w generalizing n with
  | zero => rfl
  | succ w ih => simp [toLE, ih]

theorem ofLE_lt (bs : Bytes) : ofLE bs < 256 ^ bs.length := by
  induction bs with
  | nil => simp
  | cons b bs ih =>
    have hb : b.toNat < 256 := b.toNat_lt
    rw [ofLE_cons, List.length_cons, Nat.pow_succ]
    omega

/-- Encoding then decoding keeps the low `w` bytes. -/
theorem ofLE_toLE (w n : Nat) : ofLE (toLE w n) = n % 256 ^ w := by
  induction w generalizing n with
  | zero => simp [toLE, Nat.mod_one]
  | succ w ih =>
    have hbyte : (UInt8.ofNat (n % 256)).toNat = n % 256 := by
      simp
    rw [toLE, ofLE_cons, ih, hbyte, Nat.pow_succ', Nat.mod_mul]

theorem ofLE_toLE_of_lt {w n : Nat} (h : n < 256 ^ w) : ofLE (toLE w n) = n := by
  rw [ofLE_toLE, Nat.mod_eq_of_lt h]

/-- Decoding then encoding at the same width is the identity. -/
theorem toLE_ofLE (bs : Bytes) : toLE bs.length (ofLE bs) = bs := by
  induction bs with
  | nil => rfl
  | cons b bs ih =>
    have hb : b.toNat < 256 := b.toNat_lt
    have hmod : (b.toNat + 256 * ofLE bs) % 256 = b.toNat := by omega
    have hdiv : (b.toNat + 256 * ofLE bs) / 256 = ofLE bs := by omega
    rw [List.length_cons, toLE, ofLE_cons, hmod, hdiv, ih, UInt8.ofNat_toNat]

theorem ofLE_append (as bs : Bytes) :
    ofLE (as ++ bs) = ofLE as + 256 ^ as.length * ofLE bs := by
  induction as with
  | nil => simp
  | cons a as ih =>
    rw [List.cons_append, ofLE_cons, ofLE_cons, ih, List.length_cons, Nat.pow_succ]
    ring

/-- Little-endian decoding is injective at a fixed width. -/
theorem ofLE_inj {as bs : Bytes} (hlen : as.length = bs.length)
    (h : ofLE as = ofLE bs) : as = bs := by
  have has := toLE_ofLE as
  rw [h, hlen, toLE_ofLE bs] at has
  exact has.symm

/-- The low and the high bytes of a number are encoded separately. -/
theorem toLE_add (v w n : Nat) : toLE (v + w) n = toLE v n ++ toLE w (n / 256 ^ v) := by
  induction v generalizing n with
  | zero => simp [toLE]
  | succ v ih =>
    rw [Nat.succ_add, toLE, toLE, ih, Nat.div_div_eq_div_mul, ← Nat.pow_succ', List.cons_append]

theorem toLE_mod (w n : Nat) : toLE w (n % 256 ^ w) = toLE w n := by
  refine ofLE_inj (by simp) ?_
  rw [ofLE_toLE, ofLE_toLE, Nat.mod_mod]

/-- The bits, byte by byte. -/
theorem testBit_ofLE (bs : Bytes) (i : Nat) :
    (ofLE bs).testBit i = (bs.getD (i / 8) 0).toNat.testBit (i % 8) := by
  induction bs generalizing i with
  | nil => simp
  | cons b bs ih =>
    have hsplit := Nat.testBit_two_pow_mul_add (ofLE bs) (show b.toNat < 2 ^ 8 from b.toNat_lt) i
    rw [ofLE_cons, Nat.add_comm, show 256 = 2 ^ 8 from rfl, hsplit]
    by_cases hi : i < 8
    · rw [if_pos hi, Nat.div_eq_of_lt hi, Nat.mod_eq_of_lt hi, List.getD_cons_zero]
    · obtain ⟨j, rfl⟩ : ∃ j, i = j + 8 := ⟨i - 8, by omega⟩
      rw [if_neg hi, Nat.add_sub_cancel, ih, Nat.add_div_right _ (by omega), Nat.add_mod_right,
        List.getD_cons_succ]

/-! ## Big-endian -/

/-- The `w` big-endian bytes of `n`. -/
def toBE (w n : Nat) : Bytes := (toLE w n).reverse

/-- The natural with the given big-endian bytes. -/
def ofBE (bs : Bytes) : Nat := ofLE bs.reverse

@[simp] theorem toBE_length (w n : Nat) : (toBE w n).length = w := by
  simp [toBE]

theorem ofBE_toBE (w n : Nat) : ofBE (toBE w n) = n % 256 ^ w := by
  rw [ofBE, toBE, List.reverse_reverse, ofLE_toLE]

theorem ofBE_toBE_of_lt {w n : Nat} (h : n < 256 ^ w) : ofBE (toBE w n) = n := by
  rw [ofBE_toBE, Nat.mod_eq_of_lt h]

theorem ofBE_lt (bs : Bytes) : ofBE bs < 256 ^ bs.length := by
  simpa [ofBE] using ofLE_lt bs.reverse

/-- Storing a value little-endian after swapping its bytes stores it big-endian. -/
theorem toLE_ofBE (bs : Bytes) : toLE bs.length (ofBE bs) = bs.reverse := by
  have h := toLE_ofLE bs.reverse
  rwa [List.length_reverse] at h

/-- Swapping the bytes of a stored number and storing it again is big-endian. -/
theorem toLE_ofBE_toLE (w n : Nat) : toLE w (ofBE (toLE w n)) = toBE w n := by
  have h := toLE_ofBE (toLE w n)
  rwa [toLE_length] at h

/-- Reading big-endian bytes little-endian and swapping them gives the number. -/
theorem ofBE_toLE_ofLE_toBE {w n : Nat} (h : n < 256 ^ w) :
    ofBE (toLE w (ofLE (toBE w n))) = n := by
  have hr : toLE w (ofLE (toBE w n)) = toBE w n := by
    have h := toLE_ofLE (toBE w n)
    rwa [toBE_length] at h
  rw [hr, ofBE_toBE_of_lt h]

/-- The first of the bytes is the highest. -/
theorem toBE_succ (w n : Nat) : toBE (w + 1) n = UInt8.ofNat (n / 256 ^ w % 256) :: toBE w n := by
  rw [toBE, toLE_add, List.reverse_append]
  rfl

/-- The bytes by their place. -/
theorem toBE_eq_map (w n : Nat) :
    toBE w n = (List.range w).map fun i => UInt8.ofNat (n / 256 ^ (w - 1 - i) % 256) := by
  induction w with
  | zero => rfl
  | succ w ih =>
    rw [toBE_succ, ih, List.range_succ_eq_map, List.map_cons, List.map_map]
    refine congrArg₂ List.cons rfl (List.map_congr_left fun i _ => ?_)
    show _ = UInt8.ofNat (n / 256 ^ (w + 1 - 1 - (i + 1)) % 256)
    rw [show w + 1 - 1 - (i + 1) = w - 1 - i by omega]

/-- A byte more. -/
theorem ofBE_append_singleton (bs : Bytes) (b : UInt8) :
    ofBE (bs ++ [b]) = ofBE bs * 256 + b.toNat := by
  rw [ofBE, List.reverse_append, List.reverse_singleton, List.singleton_append, ofLE_cons, ← ofBE]
  omega

/-! ## Exclusive or -/

/-- Exclusive or acts separately on a low byte and the rest. -/
theorem xor_byte_split {a b : Nat} (ha : a < 256) (hb : b < 256) (c d : Nat) :
    (a + 256 * c) ^^^ (b + 256 * d) = (a ^^^ b) + 256 * (c ^^^ d) := by
  have hlow : ((a + 256 * c) ^^^ (b + 256 * d)) % 2 ^ 8 = a ^^^ b := by
    rw [Nat.xor_mod_two_pow, show (a + 256 * c) % 2 ^ 8 = a by omega,
      show (b + 256 * d) % 2 ^ 8 = b by omega]
  have hhigh : ((a + 256 * c) ^^^ (b + 256 * d)) / 2 ^ 8 = c ^^^ d := by
    rw [Nat.xor_div_two_pow, show (a + 256 * c) / 2 ^ 8 = c by omega,
      show (b + 256 * d) / 2 ^ 8 = d by omega]
  omega

/-- Exclusive or of two little-endian words is exclusive or of their bytes. -/
theorem ofLE_zipWith_xor (as bs : Bytes) (h : as.length = bs.length) :
    ofLE (List.zipWith (· ^^^ ·) as bs) = ofLE as ^^^ ofLE bs := by
  induction as generalizing bs with
  | nil =>
    have : bs = [] := List.length_eq_zero_iff.mp h.symm
    subst this
    rfl
  | cons a as ih =>
    cases bs with
    | nil => simp at h
    | cons b bs =>
      have hlen : as.length = bs.length := by simpa using h
      rw [List.zipWith_cons_cons, ofLE_cons, ofLE_cons, ofLE_cons, ih bs hlen,
        xor_byte_split a.toNat_lt b.toNat_lt, UInt8.toNat_xor]

end NetLib
