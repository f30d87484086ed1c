import ZktlsNet.Lib.Bytes

/-!
# Base64

The encoding of RFC 4648 with padding: three bytes are a number of 24 bits, which has four
digits of six bits. What is missing of the last three bytes counts as zeros, and the digits
that only these would have are written as `=`.

- `encode_length`: four characters for every three bytes begun.
- `decode_encode`: what has been encoded can be decoded.
-/

namespace NetLib

namespace Base64

/-- The characters of the digits. -/
def alphabet : Bytes := ascii "ABCDEFGHIJKLMNOPQRSTUVWXYZabcdefghijklmnopqrstuvwxyz0123456789+/"

/-- The character `=`. -/
def pad : UInt8 := 61

/-- The character of a digit. -/
def char (digit : Nat) : UInt8 := alphabet.getD digit 0

/-- The four characters of a number of 24 bits. -/
def quad (n : Nat) : Bytes :=
  [char (n / 64 ^ 3 % 64), char (n / 64 ^ 2 % 64), char (n / 64 % 64), char (n % 64)]

/-- The encoding. -/
def encode : Bytes → Bytes
  | [] => []
  | [a] => (quad (a.toNat * 256 ^ 2)).take 2 ++ [pad, pad]
  | [a, b] => (quad (a.toNat * 256 ^ 2 + b.toNat * 256)).take 3 ++ [pad]
  | a :: b :: c :: rest => quad (a.toNat * 256 ^ 2 + b.toNat * 256 + c.toNat) ++ encode rest

/-- The digit of a character. -/
def digit (c : UInt8) : Option Nat := alphabet.findIdx? (· == c)

/-- The decoding; `none` where the text is not the encoding of anything. -/
def decode : Bytes → Option Bytes
  | [] => some []
  | a :: b :: c :: d :: rest => do
    let x ← digit a
    let y ← digit b
    if c = pad ∧ d = pad then
      if rest = [] ∧ y % 16 = 0 then some [UInt8.ofNat ((x * 64 + y) / 16)] else none
    else
      let z ← digit c
      if d = pad then
        if rest = [] ∧ z % 4 = 0 then
          let n := (x * 64 + y) * 64 + z
          some [UInt8.ofNat (n / 4 / 256), UInt8.ofNat (n / 4 % 256)]
        else none
      else
        let w ← digit d
        let n := ((x * 64 + y) * 64 + z) * 64 + w
        let bytes ← decode rest
        some (UInt8.ofNat (n / 256 ^ 2) :: UInt8.ofNat (n / 256 % 256) :: UInt8.ofNat (n % 256) ::
          bytes)
  | _ => none

/-! ## Characters and digits -/

theorem digit_char {i : Nat} (hi : i < 64) : digit (char i) = some i := by
  have hall : ∀ i : Fin 64, digit (char i) = some i.val := by decide +kernel
  exact hall ⟨i, hi⟩

theorem char_ne_pad {i : Nat} (hi : i < 64) : char i ≠ pad := by
  have hall : ∀ i : Fin 64, char i ≠ pad := by decide +kernel
  exact hall ⟨i, hi⟩

@[simp] theorem quad_length (n : Nat) : (quad n).length = 4 := rfl

/-! ## The encoding -/

/-- **Four characters for every three bytes begun.** -/
theorem encode_length (s : Bytes) : (encode s).length = 4 * ((s.length + 2) / 3) := by
  induction s using encode.induct with
  | case1 => rfl
  | case2 a => simp [encode, quad]
  | case3 a b => simp [encode, quad]
  | case4 a b c rest ih =>
    rw [encode, List.length_append, quad_length, ih]
    simp only [List.length_cons]
    omega

theorem char_mem {i : Nat} (hi : i < 64) : char i ∈ alphabet := by
  have hall : ∀ i : Fin 64, char i ∈ alphabet := by decide +kernel
  exact hall ⟨i, hi⟩

theorem mem_quad {n : Nat} {c : UInt8} (h : c ∈ quad n) : c ∈ alphabet := by
  have hmem (k : Nat) : char (k % 64) ∈ alphabet := char_mem (Nat.mod_lt k (by decide))
  simp only [quad, List.mem_cons, List.not_mem_nil, or_false] at h
  rcases h with rfl | rfl | rfl | rfl <;> exact hmem _

/-- The encoding has no other characters. -/
theorem mem_encode {s : Bytes} {c : UInt8} (h : c ∈ encode s) : c ∈ alphabet ∨ c = pad := by
  induction s using encode.induct with
  | case1 => cases h
  | case2 a =>
    rw [encode, List.mem_append] at h
    exact h.imp (fun h => mem_quad (List.mem_of_mem_take h)) (by simp)
  | case3 a b =>
    rw [encode, List.mem_append] at h
    exact h.imp (fun h => mem_quad (List.mem_of_mem_take h)) (by simp)
  | case4 a b d rest ih =>
    rw [encode, List.mem_append] at h
    exact h.elim (fun h => .inl (mem_quad h)) ih

/-- Two characters and the padding are one byte. -/
theorem decode_one {a b : UInt8} {x y : Nat} (hx : digit a = some x) (hy : digit b = some y)
    (hrest : y % 16 = 0) :
    decode [a, b, pad, pad] = some [UInt8.ofNat ((x * 64 + y) / 16)] := by
  simp [decode, hx, hy, hrest]

/-- Three characters and the padding are two bytes. -/
theorem decode_two {a b c : UInt8} {x y z : Nat} (hx : digit a = some x) (hy : digit b = some y)
    (hz : digit c = some z) (hc : c ≠ pad) (hrest : z % 4 = 0) :
    decode [a, b, c, pad] =
      some [UInt8.ofNat (((x * 64 + y) * 64 + z) / 4 / 256),
        UInt8.ofNat (((x * 64 + y) * 64 + z) / 4 % 256)] := by
  simp [decode, hx, hy, hz, hc, hrest]

/-- Four characters are three bytes. -/
theorem decode_three {a b c d : UInt8} {x y z w : Nat} (hx : digit a = some x)
    (hy : digit b = some y) (hz : digit c = some z) (hw : digit d = some w) (hc : c ≠ pad)
    (hd : d ≠ pad) {rest bytes : Bytes} (hbytes : decode rest = some bytes) :
    decode (a :: b :: c :: d :: rest) =
      some (UInt8.ofNat ((((x * 64 + y) * 64 + z) * 64 + w) / 256 ^ 2) ::
        UInt8.ofNat ((((x * 64 + y) * 64 + z) * 64 + w) / 256 % 256) ::
        UInt8.ofNat ((((x * 64 + y) * 64 + z) * 64 + w) % 256) :: bytes) := by
  simp [decode, hx, hy, hz, hw, hc, hd, hbytes]

/-- **What has been encoded can be decoded.** -/
theorem decode_encode (s : Bytes) : decode (encode s) = some s := by
  have hdigit (n : Nat) : digit (char (n % 64)) = some (n % 64) :=
    digit_char (Nat.mod_lt n (by decide))
  have hpad (n : Nat) : char (n % 64) ≠ pad := char_ne_pad (Nat.mod_lt n (by decide))
  induction s using encode.induct with
  | case1 => rfl
  | case2 a =>
    have ha := a.toNat_lt
    have hbyte : (a.toNat * 256 ^ 2 / 64 ^ 3 % 64 * 64 + a.toNat * 256 ^ 2 / 64 ^ 2 % 64) / 16 =
        a.toNat := by omega
    have hdecode := decode_one (hdigit (a.toNat * 256 ^ 2 / 64 ^ 3))
      (hdigit (a.toNat * 256 ^ 2 / 64 ^ 2)) (by omega)
    rw [hbyte, UInt8.ofNat_toNat] at hdecode
    exact hdecode
  | case3 a b =>
    have ha := a.toNat_lt
    have hb := b.toNat_lt
    rw [encode]
    generalize hn : a.toNat * 256 ^ 2 + b.toNat * 256 = n
    have hvalue : ((n / 64 ^ 3 % 64 * 64 + n / 64 ^ 2 % 64) * 64 + n / 64 % 64) / 4 = n / 256 := by
      omega
    have hfirst : n / 256 / 256 = a.toNat := by omega
    have hsecond : n / 256 % 256 = b.toNat := by omega
    have hdecode := decode_two (hdigit (n / 64 ^ 3)) (hdigit (n / 64 ^ 2)) (hdigit (n / 64))
      (hpad (n / 64)) (by omega)
    rw [hvalue, hfirst, hsecond, UInt8.ofNat_toNat, UInt8.ofNat_toNat] at hdecode
    exact hdecode
  | case4 a b c rest ih =>
    have ha := a.toNat_lt
    have hb := b.toNat_lt
    have hc := c.toNat_lt
    rw [encode]
    generalize hn : a.toNat * 256 ^ 2 + b.toNat * 256 + c.toNat = n
    have hvalue : ((n / 64 ^ 3 % 64 * 64 + n / 64 ^ 2 % 64) * 64 + n / 64 % 64) * 64 + n % 64 =
        n := by omega
    have hfirst : n / 256 ^ 2 = a.toNat := by omega
    have hsecond : n / 256 % 256 = b.toNat := by omega
    have hthird : n % 256 = c.toNat := by omega
    have hdecode := decode_three (hdigit (n / 64 ^ 3)) (hdigit (n / 64 ^ 2)) (hdigit (n / 64))
      (hdigit n) (hpad (n / 64)) (hpad n) ih
    rw [hvalue, hfirst, hsecond, hthird, UInt8.ofNat_toNat, UInt8.ofNat_toNat,
      UInt8.ofNat_toNat] at hdecode
    exact hdecode

end Base64

end NetLib
