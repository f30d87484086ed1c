import ZktlsNet.Ws.Header

/-!
# Unmasking in memory (`ws.cpp:230-247`, `ws.cpp:455-468`)

There are two functions that remove the mask of a payload, `UnMaskData` and
`WebSocketMessageUnmaskPayload`. Both walk the payload with a pointer to 32-bit words and
go on with a pointer to bytes. They stop the words at different places: the first at the
last whole word, the second at `payloadLength & ~3u`, where the high half of the length
is lost.

The memory is a list of bytes and a pointer an index. Every access is checked, and the
`while` loops have fuel, so that staying inside the payload and coming to an end are
theorems.

- `xorWords_eq`, `xorBytes_eq`: what the two kinds of loop do to a stretch of memory.
- `unMaskDataAt_eq`, `webSocketMessageUnmaskPayload_eq`: either function is the masking
  transform of RFC 6455 on the payload and changes nothing else.
-/

namespace ZktlsNet

open NetLib

/-! ## Words and bytes in memory -/

/-- `*p ^= w` on a 32-bit word. -/
def xor32 (m : Bytes) (p w : Nat) : Res Bytes :=
  if p + 4 ≤ m.length then .ok (store m p (toLE 4 (ofLE (slice m p 4) ^^^ w)))
  else .error (.fault .outOfBounds)

/-- `*p ^= b` on a byte. -/
def xor8 (m : Bytes) (p : Nat) (b : UInt8) : Res Bytes :=
  if p + 1 ≤ m.length then .ok (store m p [m.getD p 0 ^^^ b])
  else .error (.fault .outOfBounds)

/-- `while (more(data)) *data++ ^= w` with a pointer to words: the memory and the pointer
after it. -/
def xorWords (more : Nat → Bool) (w : Nat) : Nat → Bytes → Nat → Res (Bytes × Nat)
  | 0, m, data => if more data then .error .outOfFuel else .ok (m, data)
  | fuel + 1, m, data =>
    if more data then do
      let m ← xor32 m data w
      xorWords more w fuel m (data + 4)
    else .ok (m, data)

/-- `while (more(data)) *data++ ^= key(data)` with a pointer to bytes. -/
def xorBytes (more : Nat → Bool) (key : Nat → Res UInt8) : Nat → Bytes → Nat → Res Bytes
  | 0, m, data => if more data then .error .outOfFuel else .ok m
  | fuel + 1, m, data =>
    if more data then do
      let b ← key data
      let m ← xor8 m data b
      xorBytes more key fuel m (data + 1)
    else .ok m

/-- `mask8[i]`: the mask as an array of four bytes. -/
def mask8 (mask : UInt32) (i : Nat) : Res UInt8 :=
  match (toLE 4 mask.toNat)[i]? with
  | some b => .ok b
  | none => .error (.fault .outOfBounds)

/-- `UnMaskData`. -/
def unMaskDataAt (m : Bytes) (buf : Nat) (len : UInt64) (mask : UInt32) : Res Bytes := do
  let end32 := buf + 4 * (len.toNat / 4)
  let (m, begin32) ← xorWords (· != end32) mask.toNat len.toNat m buf
  let end8 := buf + len.toNat
  -- `mask8` moves along with `begin8`
  xorBytes (· != end8) (fun begin8 => mask8 mask (begin8 - begin32)) len.toNat m begin32

/-- `WebSocketMessageUnmaskPayload`; `~3u` is a 32-bit number. -/
def webSocketMessageUnmaskPayload (m : Bytes) (payload : Nat) (payloadLength : UInt64)
    (maskingKey : UInt32) : Res Bytes := do
  let endU32 := payload + (payloadLength &&& (~~~(3 : UInt32)).toUInt64).toNat
  let (m, dataU32) ← xorWords (· < endU32) maskingKey.toNat payloadLength.toNat m payload
  let end' := payload + payloadLength.toNat
  xorBytes (· < end') (fun data => mask8 maskingKey ((data - payload) % 4)) payloadLength.toNat m
    dataU32

/-! ## The loops -/

theorem mask8_eq (mask : UInt32) {i : Nat} (h : i < 4) :
    mask8 mask i = .ok ((maskBytes mask).val.getD i 0) := by
  have hi : i < (toLE 4 mask.toNat).length := by
    rwa [toLE_length]
  simp only [mask8, maskBytes, List.getElem?_eq_getElem hi, List.getD_eq_getElem?_getD,
    Option.getD_some]

/-- A word between two stretches of memory. -/
theorem xor32_mid (before w behind : Bytes) (hw : w.length = 4) (mask : UInt32) :
    xor32 (before ++ w ++ behind) before.length mask.toNat =
      .ok (before ++ applyMask (maskBytes mask) w ++ behind) := by
  have hslice : slice (before ++ w ++ behind) before.length 4 = w := by
    rw [slice, List.append_assoc, List.drop_left, List.take_left' hw]
  have hxor : toLE 4 (ofLE w ^^^ mask.toNat) = applyMask (maskBytes mask) w := by
    have hlen : (List.zipWith (· ^^^ ·) w (maskBytes mask).val).length = 4 := by
      rw [List.length_zipWith, hw, (maskBytes mask).property, Nat.min_self]
    have h := toLE_ofLE (List.zipWith (· ^^^ ·) w (maskBytes mask).val)
    rw [hlen, ofLE_zipWith_xor _ _ (by rw [hw, (maskBytes mask).property]),
      ofLE_maskBytes] at h
    rw [h, applyMask_short _ (Nat.le_of_eq hw)]
  rw [xor32, if_pos (by simp only [List.length_append]; omega), hslice, hxor, store,
    applyMask_length, hw, List.append_assoc before w, List.take_left, ← List.append_assoc before,
    List.drop_left' (by rw [List.length_append, hw])]

/-- A byte between two stretches of memory. -/
theorem xor8_mid (before behind : Bytes) (x b : UInt8) :
    xor8 (before ++ x :: behind) before.length b = .ok (before ++ (x ^^^ b) :: behind) := by
  have hget : (before ++ x :: behind).getD before.length 0 = x := by
    rw [List.getD_eq_getElem?_getD, List.getElem?_append_right (Nat.le_refl _), Nat.sub_self]
    rfl
  have hdrop : (before ++ x :: behind).drop (before.length + 1) = behind := by
    rw [← List.drop_drop, List.drop_left]
    rfl
  rw [xor8, if_pos (by simp), hget, store, List.take_left, List.length_singleton, hdrop,
    List.append_assoc]
  rfl

/-- **The word loop** masks the words it is let through. -/
theorem xorWords_eq (mask : UInt32) (more : Nat → Bool) (k : Nat) :
    ∀ (fuel : Nat) (before ws behind : Bytes), ws.length = 4 * k → k ≤ fuel →
      (∀ i < k, more (before.length + 4 * i) = true) →
      more (before.length + 4 * k) = false →
      xorWords more mask.toNat fuel (before ++ ws ++ behind) before.length =
        .ok (before ++ applyMask (maskBytes mask) ws ++ behind, before.length + 4 * k) := by
  induction k with
  | zero =>
    intro fuel before ws behind hlen _ _ hstop
    have hnil : ws = [] := List.length_eq_zero_iff.mp hlen
    subst hnil
    rw [Nat.mul_zero, Nat.add_zero] at hstop
    cases fuel <;> simp [xorWords, hstop, applyMask]
  | succ k ih =>
    intro fuel before ws behind hlen hfuel hmore hstop
    obtain ⟨fuel, rfl⟩ : ∃ f, fuel = f + 1 := ⟨fuel - 1, by omega⟩
    have hw : (ws.take 4).length = 4 := by
      rw [List.length_take]
      omega
    have hrest : (ws.drop 4).length = 4 * k := by
      rw [List.length_drop]
      omega
    -- the rest is the loop behind the first word
    have hnext : (before ++ applyMask (maskBytes mask) (ws.take 4)).length = before.length + 4 := by
      rw [List.length_append, applyMask_length, hw]
    have hloop := ih fuel (before ++ applyMask (maskBytes mask) (ws.take 4)) (ws.drop 4) behind
      hrest (by omega)
      (fun i hi => by
        have h := hmore (i + 1) (by omega)
        rwa [hnext, Nat.add_assoc, Nat.add_comm 4])
      (by rwa [hnext, Nat.add_assoc, Nat.add_comm 4])
    have hword := xor32_mid before (ws.take 4) (ws.drop 4 ++ behind) hw mask
    rw [List.append_assoc before, ← List.append_assoc (ws.take 4), List.take_append_drop,
      ← List.append_assoc before] at hword
    rw [hnext] at hloop
    have hsplit : applyMask (maskBytes mask) ws =
        applyMask (maskBytes mask) (ws.take 4) ++ applyMask (maskBytes mask) (ws.drop 4) := by
      rw [← applyMask_append _ (by rw [hw]), List.take_append_drop]
    rw [xorWords, if_pos (by simpa using hmore 0 (by omega)), hword, ok_bind,
      ← List.append_assoc, hloop, hsplit]
    simp only [List.append_assoc, Nat.add_assoc, Nat.mul_succ, Nat.add_comm]

/-- **The byte loop** combines every byte up to its end with the byte of the key it looks
up for it. -/
theorem xorBytes_eq (more : Nat → Bool) (key : Nat → Res UInt8) (k : Nat → UInt8) :
    ∀ (bs : Bytes) (fuel : Nat) (before behind : Bytes), bs.length ≤ fuel →
      (∀ i < bs.length, more (before.length + i) = true ∧ key (before.length + i) = .ok (k i)) →
      more (before.length + bs.length) = false →
      xorBytes more key fuel (before ++ bs ++ behind) before.length =
        .ok (before ++ bs.mapIdx (fun i x => x ^^^ k i) ++ behind) := by
  intro bs
  induction bs generalizing k with
  | nil =>
    intro fuel before behind _ _ hstop
    cases fuel <;> simp_all [xorBytes]
  | cons x bs ih =>
    intro fuel before behind hfuel hkey hstop
    obtain ⟨fuel, rfl⟩ : ∃ f, fuel = f + 1 := ⟨fuel - 1, by rw [List.length_cons] at hfuel; omega⟩
    obtain ⟨hmore, hfirst⟩ := hkey 0 (by simp)
    have hnext : (before ++ [x ^^^ k 0]).length = before.length + 1 := by
      simp
    have hloop := ih (fun i => k (i + 1)) fuel (before ++ [x ^^^ k 0]) behind
      (by rw [List.length_cons] at hfuel; omega)
      (fun i hi => by
        have h := hkey (i + 1) (by rw [List.length_cons]; omega)
        rwa [hnext, Nat.add_assoc, Nat.add_comm 1])
      (by rwa [hnext, Nat.add_assoc, Nat.add_comm 1])
    rw [hnext] at hloop
    rw [Nat.add_zero] at hmore hfirst
    rw [xorBytes, if_pos hmore, hfirst, ok_bind, List.append_assoc, List.cons_append, xor8_mid,
      ok_bind]
    simp only [List.append_assoc, List.cons_append, List.nil_append] at hloop
    simp only [hloop, List.mapIdx_cons, List.append_assoc, List.cons_append]

/-! ## The two functions -/

/-- Whole words and the bytes behind them are masked separately. -/
theorem applyMask_split (key : MaskKey) {bs : Bytes} {k : Nat} (hk : 4 ∣ k)
    (hle : k ≤ bs.length) :
    applyMask key (bs.take k) ++
        (bs.drop k).mapIdx (fun i x => x ^^^ key.val.getD ((k + i) % 4) 0) =
      applyMask key bs := by
  have htake : 4 ∣ (bs.take k).length := by
    rwa [List.length_take, Nat.min_eq_left hle]
  conv => rhs; rw [← List.take_append_drop k bs, applyMask_append key htake]
  obtain ⟨w, rfl⟩ := hk
  simp only [applyMask, Nat.mul_add_mod_self_left]

/-- **Words up to a multiple of four, bytes from there on**: the masking transform, at
whatever multiple of four the byte loop takes over. -/
theorem xorWords_then_bytes (mask : UInt32) {moreWords moreBytes : Nat → Bool}
    (key : Nat → Nat → Res UInt8) (before b behind : Bytes) {w : Nat} (hle : 4 * w ≤ b.length)
    (hwords : ∀ i ≤ w, moreWords (before.length + 4 * i) = decide (i < w))
    (hbytes : ∀ i, 4 * w + i ≤ b.length →
      moreBytes (before.length + 4 * w + i) = decide (4 * w + i < b.length))
    (hkey : ∀ i, 4 * w + i < b.length → key (before.length + 4 * w) (before.length + 4 * w + i) =
      mask8 mask ((4 * w + i) % 4)) :
    (do
      let (m, p) ← xorWords moreWords mask.toNat b.length (before ++ b ++ behind) before.length
      xorBytes moreBytes (key p) b.length m p) =
      .ok (before ++ applyMask (maskBytes mask) b ++ behind) := by
  have htake : (b.take (4 * w)).length = 4 * w := by
    rw [List.length_take, Nat.min_eq_left hle]
  have hmask : (before ++ applyMask (maskBytes mask) (b.take (4 * w))).length =
      before.length + 4 * w := by
    rw [List.length_append, applyMask_length, htake]
  have hfirst := xorWords_eq mask moreWords w b.length before (b.take (4 * w))
    (b.drop (4 * w) ++ behind) htake (by omega)
    (fun i hi => by rw [hwords i (Nat.le_of_lt hi), decide_eq_true hi])
    (by rw [hwords w (Nat.le_refl w), decide_eq_false (Nat.lt_irrefl w)])
  have hsecond := xorBytes_eq moreBytes (key (before.length + 4 * w))
    (fun i => (maskBytes mask).val.getD ((4 * w + i) % 4) 0) (b.drop (4 * w)) b.length
    (before ++ applyMask (maskBytes mask) (b.take (4 * w))) behind (by simp)
    (fun i hi => by
      rw [List.length_drop] at hi
      rw [hmask, hkey i (by omega), hbytes i (by omega), mask8_eq mask (by omega)]
      exact ⟨decide_eq_true (by omega), rfl⟩)
    (by
      rw [hmask, List.length_drop, hbytes _ (by omega)]
      exact decide_eq_false (by omega))
  rw [hmask] at hsecond
  simp only [List.append_assoc] at hfirst hsecond ⊢
  rw [← List.append_assoc (b.take _), List.take_append_drop] at hfirst
  simp only [hfirst, ok_bind, hsecond]
  rw [← List.append_assoc (applyMask _ _), applyMask_split _ (Nat.dvd_mul_right ..) hle]

/-- **`UnMaskData`** masks the buffer and nothing else. -/
theorem unMaskDataAt_eq (before b behind : Bytes) (hb : b.length < 2 ^ 64) (mask : UInt32) :
    unMaskDataAt (before ++ b ++ behind) before.length (UInt64.ofNat b.length) mask =
      .ok (before ++ applyMask (maskBytes mask) b ++ behind) := by
  have hlen : (UInt64.ofNat b.length).toNat = b.length := UInt64.toNat_ofNat_of_lt' hb
  rw [unMaskDataAt, hlen]
  refine xorWords_then_bytes mask (fun p q => mask8 mask (q - p)) before b behind
    (Nat.mul_div_le b.length 4) (fun i hi => ?_) (fun i hi => ?_) (fun i hi => ?_)
  · rw [Bool.eq_iff_iff]
    simp
    omega
  · rw [Bool.eq_iff_iff]
    simp
    omega
  · -- the tail has at most three bytes
    rw [Nat.add_sub_cancel_left, Nat.mul_add_mod_self_left, Nat.mod_eq_of_lt (by omega)]

/-- `payloadLength & ~3u` is a whole number of words inside the payload. -/
theorem and_not_three (n : UInt64) :
    4 ∣ (n &&& (~~~(3 : UInt32)).toUInt64).toNat ∧
      (n &&& (~~~(3 : UInt32)).toUInt64).toNat ≤ n.toNat := by
  have hval : ((~~~(3 : UInt32)).toUInt64).toNat = 0xFFFFFFFC := by decide
  rw [UInt64.toNat_and, hval]
  refine ⟨Nat.dvd_of_mod_eq_zero ?_, Nat.and_le_left⟩
  rw [show 4 = 2 ^ 2 by rfl, Nat.and_mod_two_pow]
  exact Nat.and_zero _

/-- **`WebSocketMessageUnmaskPayload`** masks the payload and nothing else. -/
theorem webSocketMessageUnmaskPayload_eq (before b behind : Bytes) (hb : b.length < 2 ^ 64)
    (mask : UInt32) :
    webSocketMessageUnmaskPayload (before ++ b ++ behind) before.length
        (UInt64.ofNat b.length) mask =
      .ok (before ++ applyMask (maskBytes mask) b ++ behind) := by
  have hlen : (UInt64.ofNat b.length).toNat = b.length := UInt64.toNat_ofNat_of_lt' hb
  obtain ⟨hdvd, hle⟩ := and_not_three (UInt64.ofNat b.length)
  rw [webSocketMessageUnmaskPayload]
  rw [hlen] at hle ⊢
  generalize (UInt64.ofNat b.length &&& (~~~(3 : UInt32)).toUInt64).toNat = k at hdvd hle ⊢
  obtain ⟨w, rfl⟩ := hdvd
  refine xorWords_then_bytes mask (fun _ q => mask8 mask ((q - before.length) % 4)) before b
    behind hle (fun i _ => ?_) (fun i _ => ?_) (fun i _ => ?_)
  · rw [decide_eq_decide]
    omega
  · rw [decide_eq_decide]
    omega
  · rw [Nat.add_assoc, Nat.add_sub_cancel_left]

/-- In memory `UnMaskData` is what the receive path applies to a payload. -/
theorem unMaskDataAt_refines (before b behind : Bytes) (hb : b.length < 2 ^ 64)
    (mask : UInt32) :
    unMaskDataAt (before ++ b ++ behind) before.length (UInt64.ofNat b.length) mask =
      .ok (before ++ unMaskData b mask.toNat ++ behind) := by
  rw [unMaskDataAt_eq before b behind hb, ← ofLE_maskBytes, unMaskData_eq]

/-- **Unmasking.** Byte `i` of a payload of any 64-bit length is combined with byte
`i mod 4` of the key, whatever is around the payload stays as it is, unmasking twice
restores it, and both functions do the same. -/
theorem unMaskData_involution_agrees (before b behind : Bytes) (hb : b.length < 2 ^ 64)
    (mask : UInt32) :
    let masked : Bytes := b.mapIdx fun i x => x ^^^ (toLE 4 mask.toNat).getD (i % 4) 0
    let len := UInt64.ofNat b.length
    unMaskDataAt (before ++ b ++ behind) before.length len mask =
        .ok (before ++ masked ++ behind) ∧
      unMaskDataAt (before ++ masked ++ behind) before.length len mask =
        .ok (before ++ b ++ behind) ∧
      webSocketMessageUnmaskPayload (before ++ b ++ behind) before.length len mask =
        .ok (before ++ masked ++ behind) := by
  intro masked len
  have hmasked : masked = applyMask (maskBytes mask) b := rfl
  have hlen : masked.length = b.length := by
    rw [hmasked, applyMask_length]
  have htwice := unMaskDataAt_eq before masked behind (by rwa [hlen]) mask
  rw [hlen, hmasked, applyMask_applyMask] at htwice
  rw [hmasked]
  exact ⟨unMaskDataAt_eq before b behind hb mask, htwice,
    webSocketMessageUnmaskPayload_eq before b behind hb mask⟩

/-- Seven bytes between two others: one word and a tail of three. -/
theorem unMaskData_involution_agrees_seven :
    unMaskDataAt [9, 1, 2, 3, 4, 5, 6, 7, 9] 1 7 0x04030201 =
        .ok [9, 0, 0, 0, 0, 4, 4, 4, 9] ∧
      unMaskDataAt [9, 0, 0, 0, 0, 4, 4, 4, 9] 1 7 0x04030201 =
        .ok [9, 1, 2, 3, 4, 5, 6, 7, 9] ∧
      webSocketMessageUnmaskPayload [9, 1, 2, 3, 4, 5, 6, 7, 9] 1 7 0x04030201 =
        .ok [9, 0, 0, 0, 0, 4, 4, 4, 9] :=
  unMaskData_involution_agrees [9] [1, 2, 3, 4, 5, 6, 7] [9] (by decide) 0x04030201

end ZktlsNet
