import ZktlsNet.Lib.Sha1
import ZktlsNet.Ws.Failure

/-!
# The rounds of the digest (`sha1.cpp:21-190`)

The 80 rounds are unrolled in the source: no word moves from one working
variable to the next, the five names change their roles instead, and the
schedule overwrites the 16 words of the block as it goes. `sha1Rounds` is that
list of rounds, as it is written there.

- `Plays`, `Scheduled`: which variable plays which word of the standard in a
  round, and which words of the schedule the block holds.
- `roundAt_plays`: one round is the round of the standard.
- `sha1Rounds_simulate`: so the unrolled rounds keep in step with the standard,
  and `SHA1Transform` is its compression.
-/

namespace ZktlsNet

open NetLib

/-! ## The rounds -/

/-- The working variables of `SHA1Transform`, by name. -/
inductive WorkVar
  | a
  | b
  | c
  | d
  | e
  deriving DecidableEq, Repr

/-- The working variables and `block->l`. -/
structure Work where
  vars : WorkVar → UInt32
  block : Vector UInt32 16

/-- An assignment to a working variable. -/
def assign (vars : WorkVar → UInt32) (x : WorkVar) (value : UInt32) : WorkVar → UInt32 :=
  fun y => if y = x then value else vars y

@[simp] theorem assign_self (vars : WorkVar → UInt32) (x : WorkVar) (value : UInt32) :
    assign vars x value x = value := by simp [assign]

theorem assign_other (vars : WorkVar → UInt32) {x y : WorkVar} (value : UInt32) (h : y ≠ x) :
    assign vars x value y = vars y := by simp [assign, h]

theorem and15_lt (i : Nat) : i &&& 15 < 16 := Nat.lt_succ_of_le Nat.and_le_right

/-- `block->l[i & 15]`. -/
def word (block : Vector UInt32 16) (i : Nat) : UInt32 := block.get ⟨i &&& 15, and15_lt i⟩

/-- `rol`. -/
def rol (value bits : UInt32) : UInt32 := (value <<< bits) ||| (value >>> (32 - bits))

/-- `blk0`, on a little-endian machine: the word is stored and used. -/
def blk0 (i : Fin 16) (block : Vector UInt32 16) : UInt32 × Vector UInt32 16 :=
  let l := (rol (block.get i) 24 &&& 0xFF00FF00) ||| (rol (block.get i) 8 &&& 0x00FF00FF)
  (l, block.set i l)

/-- `blk`. -/
def blk (i : Nat) (block : Vector UInt32 16) : UInt32 × Vector UInt32 16 :=
  let l := rol (word block (i + 13) ^^^ word block (i + 8) ^^^ word block (i + 2) ^^^
    word block i) 1
  (l, block.set (i &&& 15) l (and15_lt i))

/-- The macros of the rounds: the function of `w`, `x` and `y`, the word and the constant
are what they differ in. -/
def roundMacro (f : UInt32 → UInt32 → UInt32 → UInt32)
    (blk : Vector UInt32 16 → UInt32 × Vector UInt32 16) (constant : UInt32)
    (v w x y z : WorkVar) (s : Work) : Work :=
  let (l, block) := blk s.block
  let vars := assign s.vars z
    (s.vars z + (f (s.vars w) (s.vars x) (s.vars y) + l + constant + rol (s.vars v) 5))
  ⟨assign vars w (rol (vars w) 30), block⟩

/-- `R0`. -/
def r0 (v w x y z : WorkVar) (i : Fin 16) : Work → Work :=
  roundMacro (fun w x y => (w &&& (x ^^^ y)) ^^^ y) (blk0 i) 0x5A827999 v w x y z

/-- `R1`. -/
def r1 (v w x y z : WorkVar) (i : Nat) : Work → Work :=
  roundMacro (fun w x y => (w &&& (x ^^^ y)) ^^^ y) (blk i) 0x5A827999 v w x y z

/-- `R2`. -/
def r2 (v w x y z : WorkVar) (i : Nat) : Work → Work :=
  roundMacro (fun w x y => w ^^^ x ^^^ y) (blk i) 0x6ED9EBA1 v w x y z

/-- `R3`. -/
def r3 (v w x y z : WorkVar) (i : Nat) : Work → Work :=
  roundMacro (fun w x y => ((w ||| x) &&& y) ||| (w &&& x)) (blk i) 0x8F1BBCDC v w x y z

/-- `R4`. -/
def r4 (v w x y z : WorkVar) (i : Nat) : Work → Work :=
  roundMacro (fun w x y => w ^^^ x ^^^ y) (blk i) 0xCA62C1D6 v w x y z

open WorkVar in
/-- The rounds of `SHA1Transform`, one after the other. -/
def sha1Rounds : List (Work → Work) := [
  r0 a b c d e 0, r0 e a b c d 1, r0 d e a b c 2, r0 c d e a b 3, r0 b c d e a 4,
  r0 a b c d e 5, r0 e a b c d 6, r0 d e a b c 7, r0 c d e a b 8, r0 b c d e a 9,
  r0 a b c d e 10, r0 e a b c d 11, r0 d e a b c 12, r0 c d e a b 13, r0 b c d e a 14,
  r0 a b c d e 15, r1 e a b c d 16, r1 d e a b c 17, r1 c d e a b 18, r1 b c d e a 19,
  r2 a b c d e 20, r2 e a b c d 21, r2 d e a b c 22, r2 c d e a b 23, r2 b c d e a 24,
  r2 a b c d e 25, r2 e a b c d 26, r2 d e a b c 27, r2 c d e a b 28, r2 b c d e a 29,
  r2 a b c d e 30, r2 e a b c d 31, r2 d e a b c 32, r2 c d e a b 33, r2 b c d e a 34,
  r2 a b c d e 35, r2 e a b c d 36, r2 d e a b c 37, r2 c d e a b 38, r2 b c d e a 39,
  r3 a b c d e 40, r3 e a b c d 41, r3 d e a b c 42, r3 c d e a b 43, r3 b c d e a 44,
  r3 a b c d e 45, r3 e a b c d 46, r3 d e a b c 47, r3 c d e a b 48, r3 b c d e a 49,
  r3 a b c d e 50, r3 e a b c d 51, r3 d e a b c 52, r3 c d e a b 53, r3 b c d e a 54,
  r3 a b c d e 55, r3 e a b c d 56, r3 d e a b c 57, r3 c d e a b 58, r3 b c d e a 59,
  r4 a b c d e 60, r4 e a b c d 61, r4 d e a b c 62, r4 c d e a b 63, r4 b c d e a 64,
  r4 a b c d e 65, r4 e a b c d 66, r4 d e a b c 67, r4 c d e a b 68, r4 b c d e a 69,
  r4 a b c d e 70, r4 e a b c d 71, r4 d e a b c 72, r4 c d e a b 73, r4 b c d e a 74,
  r4 a b c d e 75, r4 e a b c d 76, r4 d e a b c 77, r4 c d e a b 78, r4 b c d e a 79]

/-- The words of `state` in the working variables. -/
def workVars (state : Vector UInt32 5) : WorkVar → UInt32
  | .a => state[0]
  | .b => state[1]
  | .c => state[2]
  | .d => state[3]
  | .e => state[4]

/-- The 64 bytes behind `buffer` as words of a little-endian machine. -/
def loadBlock (buffer : Bytes) : Vector UInt32 16 :=
  .ofFn fun i => UInt32.ofNat (ofLE (slice buffer (4 * i) 4))

/-- `SHA1Transform` on the 64 bytes from `off` on. -/
def sha1Transform (state : Vector UInt32 5) (buffer : Bytes) (off : Nat) :
    Res (Vector UInt32 5) :=
  if off + 64 ≤ buffer.length then
    let s := sha1Rounds.foldl (fun s round => round s)
      ⟨workVars state, loadBlock (slice buffer off 64)⟩
    .ok #v[state[0] + s.vars .a, state[1] + s.vars .b, state[2] + s.vars .c, state[3] + s.vars .d,
      state[4] + s.vars .e]
  else .error (.fault .outOfBounds)


/-! ## The rounds are those of the standard -/

/-- The working variables in order. -/
def varAt : Nat → WorkVar
  | 0 => .a
  | 1 => .b
  | 2 => .c
  | 3 => .d
  | _ => .e

/-- The variable that plays role `k` in round `i`: the names move on by one role a round. -/
def role (i k : Nat) : WorkVar := varAt ((k + 4 * i) % 5)

/-- Round `i` by its number. -/
def roundAt (i : Nat) : Work → Work :=
  if h : i < 16 then r0 (role i 0) (role i 1) (role i 2) (role i 3) (role i 4) ⟨i, h⟩
  else if i < 20 then r1 (role i 0) (role i 1) (role i 2) (role i 3) (role i 4) i
  else if i < 40 then r2 (role i 0) (role i 1) (role i 2) (role i 3) (role i 4) i
  else if i < 60 then r3 (role i 0) (role i 1) (role i 2) (role i 3) (role i 4) i
  else r4 (role i 0) (role i 1) (role i 2) (role i 3) (role i 4) i

/-- The list of the source follows the rule. -/
theorem sha1Rounds_eq : sha1Rounds = (List.range 80).map roundAt := rfl

theorem role_succ_zero (i : Nat) : role (i + 1) 0 = role i 4 := by
  rw [role, role, show 0 + 4 * (i + 1) = 4 + 4 * i by omega]

theorem role_succ_succ (i k : Nat) : role (i + 1) (k + 1) = role i k := by
  rw [role, role, show k + 1 + 4 * (i + 1) = k + 4 * i + 5 by omega, Nat.add_mod_right]

theorem varAt_inj : ∀ p < 5, ∀ q < 5, varAt p = varAt q → p = q := by decide

/-- Five roles, five variables. -/
theorem role_ne (i : Nat) {k l : Nat} (hk : k < 5) (hl : l < 5) (h : k ≠ l) :
    role i k ≠ role i l := by
  intro heq
  have hmod := varAt_inj _ (Nat.mod_lt _ (by omega)) _ (Nat.mod_lt _ (by omega)) heq
  omega

/-- The variables in their roles of round `i` are a chaining value. -/
structure Plays (vars : WorkVar → UInt32) (i : Nat) (h : Sha1.Chain) : Prop where
  a : vars (role i 0) = h.a
  b : vars (role i 1) = h.b
  c : vars (role i 2) = h.c
  d : vars (role i 3) = h.d
  e : vars (role i 4) = h.e

/-- Before round `i`: the last 16 words of the schedule are in the block, and what is left
of its bytes. -/
structure Scheduled (block : Vector UInt32 16) (bytes : Bytes) (i : Nat) : Prop where
  done : ∀ j < i, i ≤ j + 16 → word block j = Sha1.schedule bytes j
  left : ∀ j, i ≤ j → j < 16 → word block j = UInt32.ofNat (ofLE (slice bytes (4 * j) 4))

theorem and15_eq (i : Nat) : i &&& 15 = i % 16 := Nat.and_two_pow_sub_one_eq_mod i 4

/-- Words at the same place modulo 16 are one word. -/
theorem word_congr (block : Vector UInt32 16) {i j : Nat} (h : i % 16 = j % 16) :
    word block i = word block j := by
  unfold word
  congr 2
  rw [and15_eq, and15_eq, h]

theorem word_set (block : Vector UInt32 16) (i j : Nat) (l : UInt32) (hi : i < 16) :
    word (block.set i l) j = if j % 16 = i then l else word block j := by
  have hj := and15_lt j
  show (block.set i l hi)[j &&& 15] = if j % 16 = i then l else block[j &&& 15]
  rw [Vector.getElem_set, ← and15_eq]
  exact if_congr eq_comm rfl rfl

/-- The word of the round goes where the oldest one was. -/
theorem Scheduled.set {block : Vector UInt32 16} {bytes : Bytes} {i : Nat}
    (h : Scheduled block bytes i) :
    Scheduled (block.set (i % 16) (Sha1.schedule bytes i) (Nat.mod_lt i (by omega))) bytes
      (i + 1) where
  done j hj hle := by
    rw [word_set]
    by_cases hij : j % 16 = i % 16
    · obtain rfl : j = i := by omega
      rw [if_pos rfl]
    · rw [if_neg hij]
      exact h.done j (by omega) (by omega)
  left j hj hlt := by
    rw [word_set, if_neg (by omega)]
    exact h.left j (by omega) hlt

/-- `blk0` makes the word of the schedule out of the bytes. -/
theorem blk0_eq {block : Vector UInt32 16} {bytes : Bytes} {i : Nat} (hi : i < 16)
    (hlen : bytes.length = 64) (h : Scheduled block bytes i) :
    blk0 ⟨i, hi⟩ block =
      (Sha1.schedule bytes i,
        block.set (i % 16) (Sha1.schedule bytes i) (Nat.mod_lt i (by omega))) := by
  have hmod : i % 16 = i := Nat.mod_eq_of_lt hi
  have hget : block.get ⟨i, hi⟩ = UInt32.ofNat (ofLE (slice bytes (4 * i) 4)) := by
    rw [← h.left i (Nat.le_refl i) hi]
    unfold word
    congr 2
    rw [and15_eq, hmod]
  obtain ⟨b0, b1, b2, b3, hbytes⟩ : ∃ b0 b1 b2 b3, slice bytes (4 * i) 4 = [b0, b1, b2, b3] := by
    have hfour : (slice bytes (4 * i) 4).length = 4 := slice_length (by omega)
    match slice bytes (4 * i) 4, hfour with
    | [b0, b1, b2, b3], _ => exact ⟨b0, b1, b2, b3, rfl⟩
  have hword : Sha1.schedule bytes i = UInt32.ofNat (ofBE (slice bytes (4 * i) 4)) := by
    rw [Sha1.schedule, if_pos hi, Sha1.blockWord]
  have hswap := Sha1.swap_ofLE b0 b1 b2 b3
  rw [← hbytes] at hswap
  rw [hword, ← hswap]
  simp only [blk0, hget, hmod]
  rfl

/-- `blk` makes the next word of the schedule out of the last 16. -/
theorem blk_eq {block : Vector UInt32 16} {bytes : Bytes} {i : Nat} (hi : 16 ≤ i)
    (h : Scheduled block bytes i) :
    blk i block =
      (Sha1.schedule bytes i,
        block.set (i % 16) (Sha1.schedule bytes i) (Nat.mod_lt i (by omega))) := by
  have hw : ∀ j d, (i + j) % 16 = (i - d) % 16 → 0 < d → d ≤ 16 →
      word block (i + j) = Sha1.schedule bytes (i - d) := by
    intro j d hmod hd hle
    rw [word_congr block hmod]
    exact h.done (i - d) (by omega) (by omega)
  have hword : Sha1.schedule bytes i =
      rol (word block (i + 13) ^^^ word block (i + 8) ^^^ word block (i + 2) ^^^
        word block (i + 0)) 1 := by
    rw [hw 13 3 (by omega) (by omega) (by omega), hw 8 8 (by omega) (by omega) (by omega),
      hw 2 14 (by omega) (by omega) (by omega), hw 0 16 (by omega) (by omega) (by omega)]
    rw [Sha1.schedule, if_neg (by omega)]
    rfl
  rw [hword]
  simp only [blk, and15_eq, Nat.add_zero]

/-- What a round does to the variables in their roles: the function, the word and the
constant of the standard's round make the source's round the standard's. -/
theorem roundMacro_plays {f : UInt32 → UInt32 → UInt32 → UInt32}
    {blk : Vector UInt32 16 → UInt32 × Vector UInt32 16} {constant : UInt32} {s : Work}
    {bytes : Bytes} {i : Nat} {h : Sha1.Chain} (hs : Plays s.vars i h)
    (hf : ∀ x y z, f x y z = Sha1.f i x y z) (hk : constant = Sha1.k i)
    (hblk : (blk s.block).1 = Sha1.schedule bytes i) :
    Plays (roundMacro f blk constant (role i 0) (role i 1) (role i 2) (role i 3) (role i 4) s).vars
      (i + 1) (Sha1.round bytes h i) := by
  have h10 : role i 1 ≠ role i 0 := role_ne i (by omega) (by omega) (by omega)
  have hne : ∀ k, k < 4 → role i k ≠ role i 4 := fun k hk =>
    role_ne i (by omega) (by omega) (by omega)
  have hne' : ∀ k, k < 5 → k ≠ 1 → role i k ≠ role i 1 := fun k hk h1 => role_ne i hk (by omega) h1
  constructor
  · -- the variable added to becomes the first one
    rw [role_succ_zero]
    show assign _ _ _ _ = _
    rw [assign_other _ _ (hne' 4 (by omega) (by omega)), assign_self, hs.a, hs.b, hs.c, hs.d, hs.e,
      hf, hk, hblk]
    show h.e + (Sha1.f i h.b h.c h.d + Sha1.schedule bytes i + Sha1.k i + rol h.a 5) =
      Sha1.rotl h.a 5 + Sha1.f i h.b h.c h.d + h.e + Sha1.k i + Sha1.schedule bytes i
    show _ = rol h.a 5 + Sha1.f i h.b h.c h.d + h.e + Sha1.k i + Sha1.schedule bytes i
    ac_rfl
  · rw [role_succ_succ]
    show assign _ _ _ _ = _
    rw [assign_other _ _ h10.symm, assign_other _ _ (hne 0 (by omega)), hs.a]
    rfl
  · rw [role_succ_succ]
    show assign _ _ _ _ = _
    rw [assign_self, assign_other _ _ (hne 1 (by omega)), hs.b]
    rfl
  · rw [role_succ_succ]
    show assign _ _ _ _ = _
    rw [assign_other _ _ (hne' 2 (by omega) (by omega)), assign_other _ _ (hne 2 (by omega)), hs.c]
    rfl
  · rw [role_succ_succ]
    show assign _ _ _ _ = _
    rw [assign_other _ _ (hne' 3 (by omega) (by omega)), assign_other _ _ (hne 3 (by omega)), hs.d]
    rfl

/-- **One round** is the round of the standard, and stores its word. -/
theorem roundAt_plays {s : Work} {bytes : Bytes} {i : Nat} {h : Sha1.Chain}
    (hlen : bytes.length = 64) (hi : i < 80) (hs : Plays s.vars i h)
    (hw : Scheduled s.block bytes i) :
    Plays (roundAt i s).vars (i + 1) (Sha1.round bytes h i) ∧
      Scheduled (roundAt i s).block bytes (i + 1) := by
  unfold roundAt
  by_cases h16 : i < 16
  · rw [dif_pos h16]
    have hblk := blk0_eq h16 hlen hw
    refine ⟨roundMacro_plays hs ?_ ?_ (by rw [hblk]), ?_⟩
    · intro x y z
      rw [Sha1.ch_eq, Sha1.f, if_pos (by omega)]
    · rw [Sha1.k, if_pos (by omega)]
    · show Scheduled (blk0 ⟨i, h16⟩ s.block).2 bytes (i + 1)
      rw [hblk]
      exact hw.set
  · have hblk := blk_eq (Nat.le_of_not_lt h16) hw
    have hset : Scheduled (blk i s.block).2 bytes (i + 1) := by
      rw [hblk]
      exact hw.set
    rw [dif_neg h16]
    split
    · refine ⟨roundMacro_plays hs ?_ ?_ (by rw [hblk]), hset⟩
      · intro x y z
        rw [Sha1.ch_eq, Sha1.f, if_pos (by assumption)]
      · rw [Sha1.k, if_pos (by assumption)]
    · split
      · refine ⟨roundMacro_plays hs ?_ ?_ (by rw [hblk]), hset⟩
        · intro x y z
          rw [Sha1.f, if_neg (by assumption), if_pos (by assumption), Sha1.parity]
        · rw [Sha1.k, if_neg (by assumption), if_pos (by assumption)]
      · split
        · refine ⟨roundMacro_plays hs ?_ ?_ (by rw [hblk]), hset⟩
          · intro x y z
            rw [Sha1.maj_eq, Sha1.f, if_neg (by assumption), if_neg (by assumption),
              if_pos (by assumption)]
          · rw [Sha1.k, if_neg (by assumption), if_neg (by assumption), if_pos (by assumption)]
        · refine ⟨roundMacro_plays hs ?_ ?_ (by rw [hblk]), hset⟩
          · intro x y z
            rw [Sha1.f, if_neg (by assumption), if_neg (by assumption), if_neg (by assumption),
              Sha1.parity]
          · rw [Sha1.k, if_neg (by assumption), if_neg (by assumption), if_neg (by assumption)]

/-- The rounds before round `n`. -/
theorem rounds_plays {s : Work} {bytes : Bytes} {h : Sha1.Chain} (hlen : bytes.length = 64)
    (hs : Plays s.vars 0 h) (hw : Scheduled s.block bytes 0) {n : Nat} (hn : n ≤ 80) :
    Plays (((List.range n).map roundAt).foldl (fun s round => round s) s).vars n
        (Sha1.rounds bytes h n) ∧
      Scheduled (((List.range n).map roundAt).foldl (fun s round => round s) s).block bytes n := by
  induction n with
  | zero => exact ⟨hs, hw⟩
  | succ n ih =>
    obtain ⟨hs', hw'⟩ := ih (by omega)
    rw [List.range_succ, List.map_append, List.foldl_append]
    exact roundAt_plays hlen (by omega) hs' hw'

/-- `state` as a chaining value. -/
def chain (state : Vector UInt32 5) : Sha1.Chain :=
  ⟨state[0], state[1], state[2], state[3], state[4]⟩

theorem loadBlock_scheduled (bytes : Bytes) : Scheduled (loadBlock bytes) bytes 0 where
  done j hj _ := absurd hj (Nat.not_lt_zero j)
  left j _ hj := by
    have hmod : j &&& 15 = j := by rw [and15_eq, Nat.mod_eq_of_lt hj]
    have hlt := and15_lt j
    show (loadBlock bytes)[j &&& 15] = _
    rw [loadBlock, Vector.getElem_ofFn]
    simp only [hmod]

/-- **The unrolled rounds.** On a block inside the buffer `SHA1Transform` is the
compression of the standard. -/
theorem sha1Transform_eq (state : Vector UInt32 5) {buffer : Bytes} {off : Nat}
    (h : off + 64 ≤ buffer.length) :
    ∃ state', sha1Transform state buffer off = .ok state' ∧
      chain state' = Sha1.compress (chain state) (slice buffer off 64) := by
  have hlen : (slice buffer off 64).length = 64 := slice_length h
  have hstart : Plays (workVars state) 0 (chain state) := ⟨rfl, rfl, rfl, rfl, rfl⟩
  obtain ⟨hplays, -⟩ := rounds_plays (s := ⟨workVars state, loadBlock (slice buffer off 64)⟩) hlen
    hstart (loadBlock_scheduled _) (Nat.le_refl 80)
  rw [← sha1Rounds_eq] at hplays
  rw [sha1Transform, if_pos h]
  refine ⟨_, rfl, ?_⟩
  have ha := hplays.a
  have hb := hplays.b
  have hc := hplays.c
  have hd := hplays.d
  have he := hplays.e
  -- after 80 rounds the names are back in their first roles
  rw [show role 80 0 = .a from rfl] at ha
  rw [show role 80 1 = .b from rfl] at hb
  rw [show role 80 2 = .c from rfl] at hc
  rw [show role 80 3 = .d from rfl] at hd
  rw [show role 80 4 = .e from rfl] at he
  show Sha1.Chain.mk _ _ _ _ _ = Sha1.Chain.mk _ _ _ _ _
  simp only [ha, hb, hc, hd, he]
  rfl

/-- **The unrolled rounds keep in step with the standard**: after every number of them the
variables in their roles are its five words, and the block holds the last 16 words of its
schedule. So `SHA1Transform` is its compression. -/
theorem sha1Rounds_simulate (state : Vector UInt32 5) {bytes : Bytes} (hlen : bytes.length = 64) :
    (∀ n ≤ 80,
      let s := (sha1Rounds.take n).foldl (fun s round => round s)
        ⟨workVars state, loadBlock bytes⟩
      Plays s.vars n (Sha1.rounds bytes (chain state) n) ∧ Scheduled s.block bytes n) ∧
    ∃ state', sha1Transform state bytes 0 = .ok state' ∧
      chain state' = Sha1.compress (chain state) bytes := by
  have hstart : Plays (workVars state) 0 (chain state) := ⟨rfl, rfl, rfl, rfl, rfl⟩
  constructor
  · intro n hn s
    have hplays := rounds_plays (s := ⟨workVars state, loadBlock bytes⟩) hlen hstart
      (loadBlock_scheduled bytes) hn
    rwa [← Nat.min_eq_left hn, ← List.take_range, List.map_take, ← sha1Rounds_eq,
      Nat.min_eq_left hn] at hplays
  · have htransform := sha1Transform_eq state
      (show 0 + 64 ≤ bytes.length from Nat.le_of_eq hlen.symm)
    have hslice : slice bytes 0 64 = bytes := List.take_of_length_le (Nat.le_of_eq hlen)
    rwa [hslice] at htransform

/-- A block of zeros after the first value. -/
theorem sha1Rounds_simulate_zeros :
    ∃ state', sha1Transform #v[0x67452301, 0xEFCDAB89, 0x98BADCFE, 0x10325476, 0xC3D2E1F0]
        (List.replicate 64 0) 0 = .ok state' ∧
      chain state' = Sha1.compress Sha1.initial (List.replicate 64 0) :=
  (sha1Rounds_simulate _ (by decide)).2

end ZktlsNet
