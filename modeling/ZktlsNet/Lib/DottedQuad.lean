import Mathlib.Data.Nat.Digits.Lemmas
import ZktlsNet.Lib.Bytes

/-!
# Decimal numerals and dotted quads

The text of a number is its decimal numeral without leading zeros, and the text of four bytes
is four such numerals with dots between them. Both ways of writing are exact: a text is read
as a number, or as four bytes, only if it is the text of it.

- `decimal`, `decimal?` and `decimal?_eq_some_iff`.
- `quad`, `quad?` and `quad?_eq_some_iff`.
-/

namespace NetLib

/-! ## Numerals -/

/-- The decimal numeral of a number. -/
def decimal (n : Nat) : Bytes :=
  if n = 0 then [48] else (Nat.digits 10 n).reverse.map fun d => UInt8.ofNat (48 + d)

/-- The characters of digits. -/
def isDecimal (c : UInt8) : Bool := 48 ≤ c ∧ c ≤ 57

theorem all_isDecimal_iff {s : Bytes} :
    s.all isDecimal = true ↔ ∀ c ∈ s, 48 ≤ c ∧ c ≤ 57 := by
  simp only [List.all_eq_true, isDecimal, decide_eq_true_eq]

/-- The number that a text is the numeral of. -/
def decimal? (s : Bytes) : Option Nat :=
  if s ≠ [] ∧ s.all isDecimal = true ∧ (s.head? = some 48 → s.length = 1) then
    some (Nat.ofDigits 10 (s.reverse.map fun c => c.toNat - 48))
  else none

/-- A digit and its character. -/
theorem digit_toNat {d : Nat} (h : d < 10) : (UInt8.ofNat (48 + d)).toNat = 48 + d := by
  rw [UInt8.toNat_ofNat']
  omega

theorem decimal_zero : decimal 0 = [48] := rfl

theorem decimal_of_pos {n : Nat} (h : 0 < n) :
    decimal n = (Nat.digits 10 n).reverse.map fun d => UInt8.ofNat (48 + d) := if_neg (by omega)

theorem mem_decimal {n : Nat} {c : UInt8} (hc : c ∈ decimal n) : 48 ≤ c ∧ c ≤ 57 := by
  have hbounds {d : Nat} (hd : d < 10) : (48 : UInt8) ≤ UInt8.ofNat (48 + d) ∧
      UInt8.ofNat (48 + d) ≤ 57 := by
    rw [UInt8.le_iff_toNat_le, UInt8.le_iff_toNat_le, digit_toNat hd]
    constructor
    · exact Nat.le_add_right ..
    · exact (by omega : 48 + d ≤ 57)
  cases n with
  | zero =>
    rw [decimal_zero, List.mem_singleton] at hc
    subst hc
    decide
  | succ n =>
    rw [decimal_of_pos (Nat.succ_pos n)] at hc
    obtain ⟨d, hd, rfl⟩ := List.mem_map.mp hc
    exact hbounds (Nat.digits_lt_base (by decide) (List.mem_reverse.mp hd))

/-- A numeral is read as its number. -/
theorem decimal?_decimal (n : Nat) : decimal? (decimal n) = some n := by
  cases n with
  | zero =>
    rw [decimal_zero, decimal?, if_pos (by decide)]
    rfl
  | succ n =>
    have hpos := Nat.succ_pos n
    have hchars : ∀ c ∈ decimal (n + 1), 48 ≤ c ∧ c ≤ 57 := fun c hc => mem_decimal hc
    have hne : Nat.digits 10 (n + 1) ≠ [] := Nat.digits_ne_nil_iff_ne_zero.mpr (by omega)
    have hlast := Nat.getLast_digit_ne_zero 10 (Nat.succ_ne_zero n)
    have hlt := Nat.digits_lt_base (show 1 < 10 by decide) (List.getLast_mem hne)
    rw [decimal_of_pos hpos] at hchars ⊢
    rw [decimal?, if_pos]
    · rw [← List.map_reverse, List.reverse_reverse, List.map_map]
      congr 1
      calc Nat.ofDigits 10 ((Nat.digits 10 (n + 1)).map
            ((fun c : UInt8 => c.toNat - 48) ∘ fun d => UInt8.ofNat (48 + d)))
          = Nat.ofDigits 10 (Nat.digits 10 (n + 1)) := by
            congr 1
            refine (List.map_congr_left fun d hd => ?_).trans (List.map_id _)
            have hd := Nat.digits_lt_base (show 1 < 10 by decide) hd
            simp only [Function.comp_apply, digit_toNat hd, id_eq]
            omega
        _ = n + 1 := Nat.ofDigits_digits 10 (n + 1)
    · refine ⟨by simp, all_isDecimal_iff.mpr hchars, fun hhead => ?_⟩
      -- the first digit is not zero
      rw [List.head?_map, List.head?_reverse, List.getLast?_eq_some_getLast hne,
        Option.map_some, Option.some.injEq] at hhead
      have htoNat := congrArg UInt8.toNat hhead
      rw [digit_toNat hlt] at htoNat
      exact absurd (show (Nat.digits 10 (n + 1)).getLast hne = 0 by simpa using htoNat) hlast

/-- **Numerals are exact**: a text is read as a number only if it is its numeral. -/
theorem decimal?_eq_some_iff {s : Bytes} {n : Nat} : decimal? s = some n ↔ s = decimal n := by
  constructor
  · intro h
    obtain ⟨⟨hne, hchars, hhead⟩, hn⟩ := Option.ite_none_right_eq_some.mp h
    obtain rfl := Option.some.inj hn
    obtain ⟨c, cs, rfl⟩ := List.exists_cons_of_ne_nil hne
    have hbounds {c' : UInt8} (hc' : c' ∈ c :: cs) : 48 ≤ c'.toNat ∧ c'.toNat ≤ 57 :=
      all_isDecimal_iff.mp hchars c' hc'
    by_cases hzero : c = 48
    · have hone := hhead (congrArg some hzero)
      obtain rfl : cs = [] := List.length_eq_zero_iff.mp (Nat.succ.inj hone)
      rw [hzero]
      rfl
    · -- the digits are those of the number: the last of them is not zero
      have hdigits : Nat.digits 10 (Nat.ofDigits 10 ((c :: cs).reverse.map fun c => c.toNat - 48)) =
          (c :: cs).reverse.map fun c => c.toNat - 48 := by
        refine Nat.digits_ofDigits 10 (by decide) _ ?_ ?_
        · intro d hd
          obtain ⟨c', hc', rfl⟩ := List.mem_map.mp hd
          have := hbounds (List.mem_reverse.mp hc')
          omega
        · intro _
          have hc := hbounds (List.mem_cons_self ..)
          have hne : c.toNat ≠ 48 := fun h => hzero (UInt8.toNat_inj.mp h)
          simp only [List.reverse_cons, List.map_append, List.map_singleton,
            List.getLast_append_singleton]
          omega
      have hpos : 0 < Nat.ofDigits 10 ((c :: cs).reverse.map fun c => c.toNat - 48) := by
        refine Nat.pos_of_ne_zero fun h => ?_
        rw [h, Nat.digits_zero] at hdigits
        simp at hdigits
      rw [decimal_of_pos hpos, hdigits, ← List.map_reverse, List.reverse_reverse, List.map_map]
      refine ((List.map_congr_left fun c' hc' => ?_).trans (List.map_id _)).symm
      have := hbounds hc'
      refine UInt8.toNat_inj.mp ?_
      simp only [Function.comp_apply, digit_toNat (show c'.toNat - 48 < 10 by omega), id_eq]
      omega
  · rintro rfl
    exact decimal?_decimal n

/-! ## Dotted quads -/

/-- The byte that a text is the numeral of. -/
def octet? (s : Bytes) : Option UInt8 :=
  (decimal? s).bind fun n => if n < 256 then some (UInt8.ofNat n) else none

theorem octet?_eq_some_iff {s : Bytes} {b : UInt8} : octet? s = some b ↔ s = decimal b.toNat := by
  have hlt : b.toNat < 256 := b.toNat_lt
  rw [octet?, Option.bind_eq_some_iff]
  constructor
  · rintro ⟨n, hn, h⟩
    obtain ⟨hn', h⟩ := Option.ite_none_right_eq_some.mp h
    rw [decimal?_eq_some_iff.mp hn, ← Option.some.inj h, UInt8.toNat_ofNat', Nat.mod_eq_of_lt hn']
  · intro hs
    refine ⟨b.toNat, decimal?_eq_some_iff.mpr hs, ?_⟩
    rw [if_pos hlt, UInt8.ofNat_toNat]

/-- Reading a list of texts, each of which is exact. -/
theorem mapM_eq_some_iff {α β : Type} {f : α → Option β} {g : β → α}
    (hfg : ∀ a b, f a = some b ↔ a = g b) (l : List α) (bs : List β) :
    l.mapM f = some bs ↔ l = bs.map g := by
  induction l generalizing bs with
  | nil => cases bs <;> simp
  | cons a l ih =>
    rw [List.mapM_cons]
    cases bs with
    | nil =>
      refine iff_of_false (fun h => ?_) (by simp)
      obtain ⟨b, -, h⟩ := Option.bind_eq_some_iff.mp h
      obtain ⟨bs, -, h⟩ := Option.bind_eq_some_iff.mp h
      cases h
    | cons b bs =>
      rw [List.map_cons, List.cons.injEq, ← hfg, ← ih]
      constructor
      · intro h
        obtain ⟨b', hb, h⟩ := Option.bind_eq_some_iff.mp h
        obtain ⟨bs', hbs, h⟩ := Option.bind_eq_some_iff.mp h
        cases h
        exact ⟨hb, hbs⟩
      · rintro ⟨hb, hbs⟩
        rw [hb, hbs]
        rfl

/-- Bytes as numerals with dots between them. -/
def quad (a : Bytes) : Bytes := [46].intercalate (a.map fun b => decimal b.toNat)

/-- The four bytes that a text stands for. -/
def quad? (s : Bytes) : Option Bytes :=
  if (s.splitOn 46).length = 4 then (s.splitOn 46).mapM octet? else none

/-- The numerals are found between the dots. -/
theorem splitOn_quad {a : Bytes} (h : a ≠ []) :
    (quad a).splitOn 46 = a.map fun b => decimal b.toNat := by
  refine List.splitOn_intercalate 46 (fun l hl hdot => ?_) (by simpa using h)
  obtain ⟨b, -, rfl⟩ := List.mem_map.mp hl
  exact absurd (mem_decimal hdot).1 (by decide)

/-- **Dotted quads are exact**: a text is read as four bytes only if it is their text. -/
theorem quad?_eq_some_iff {s a : Bytes} : quad? s = some a ↔ a.length = 4 ∧ s = quad a := by
  have hread := mapM_eq_some_iff (fun s b => octet?_eq_some_iff (s := s) (b := b)) (s.splitOn 46) a
  constructor
  · intro h
    obtain ⟨hlen, h⟩ := Option.ite_none_right_eq_some.mp h
    have hsplit := hread.mp h
    constructor
    · rw [← hlen, hsplit, List.length_map]
    · rw [quad, ← hsplit, List.intercalate_splitOn]
  · rintro ⟨hlen, hs⟩
    have hne : a ≠ [] := List.ne_nil_of_length_pos (by omega)
    have hsplit : s.splitOn 46 = a.map fun b => decimal b.toNat := by rw [hs, splitOn_quad hne]
    rw [quad?, if_pos (by rw [hsplit, List.length_map, hlen]), hread.mpr hsplit]

end NetLib
