import ZktlsNet.Group.Numbers

/-!
# The slots that will be written to

Nothing in the code ties an `init_pado_io` call to the group that it writes to: the
number may come back from the peer at any time, and `pado_io_map[number]` makes a group
again that is not there any more. So whether the write hits a slot depends on what the
peers name and on what `clear_pado_io` takes out meanwhile.

- `careful`: no group is cleared that a call is going to write to, and no peer names a
  slot that is taken.
- `Slots`: the slot that a call is going to write to exists and is empty, and no other
  call is going to write to it. Every careful step keeps this (`Slots.step`), and none
  goes wrong (`Slots.step_ok`).
-/

namespace ZktlsNet

open NetLib

variable {P : Type}

/-- The slot that the call is going to write to, once it is known. -/
def InitPc.target : InitPc → Option (Nat × Nat)
  | .created n => some (n, 0)
  | .number n h => some (n, h)
  | _ => none

namespace Server

/-- Every write to come hits an existing slot, which is empty. -/
def WritesHit (s : Server P) : Prop :=
  ∀ p n h, (s.calls p).pc.target = some (n, h) →
    ∃ vec, (s.managers (s.calls p).manager).vec n = some vec ∧ vec[h]? = some none

/-- The calls that are meant: `has_number` in `0..num-1`, a number that has been issued,
and `accept(num)`. -/
def inDomain (num : Nat) (s : Server P) : ServerEvent P → Bool
  | .recvHasNumber _ h => h < num
  | .recvNumber _ n => s.ports.used n
  | .accept _ num' => num' == num
  | _ => true

section

variable [DecidableEq P]

/-- The peer names an empty slot of a group that exists, which no other call is going to
write to; and a clean-up spares the groups that a call is going to write to. -/
def keepsGroups (s : Server P) : ServerEvent P → Bool
  | .recvNumber p n =>
    match (s.calls p).pc with
    | .hasNumber h => (s.managers (s.calls p).manager).slot n h == some none &&
        s.channels.all fun q => (s.calls q).pc.target != some (n, h)
    | _ => true
  | .clear m force timestamp => ((s.managers m).oldNumbers force timestamp).all fun n =>
      s.channels.all fun q => (s.calls q).pc.target.all (·.1 != n)
  | _ => true

def careful (num : Nat) (s : Server P) (e : ServerEvent P) : Bool :=
  s.inDomain num e && s.keepsGroups e

end

/-! ## The vectors -/

/-- A vector that has an empty slot, or is complete with a null pointer behind the last. -/
def Shape (num : Nat) (vec : List (Option P)) : Prop :=
  (vec.length = num ∧ none ∈ vec) ∨ ∃ ps : List P, ps.length = num ∧ vec = ps.map some ++ [none]

theorem Shape.slot_lt {num : Nat} {vec : List (Option P)} (h : Shape num vec) {i : Nat} {p : P}
    (hi : vec[i]? = some (some p)) : i < num := by
  rcases h with ⟨hlen, -⟩ | ⟨ps, hps, rfl⟩
  · have := (List.getElem?_eq_some_iff.mp hi).1
    omega
  · by_contra hge
    rw [List.getElem?_append_right (by simpa [hps] using hge), List.getElem?_singleton] at hi
    split at hi <;> cases hi

/-- An empty slot among the first `num` is one of a vector that is not complete. -/
theorem Shape.length_of_empty {num : Nat} {vec : List (Option P)} (h : Shape num vec) {i : Nat}
    (hlt : i < num) (hi : vec[i]? = some none) : vec.length = num := by
  rcases h with ⟨hlen, -⟩ | ⟨ps, hps, rfl⟩
  · exact hlen
  · rw [List.getElem?_append_left (by simpa [hps] using hlt)] at hi
    simp at hi

/-- A slot of a vector that is not complete. -/
theorem Shape.put {num h : Nat} {vec : List (Option P)} (p : P) (hlen : vec.length = num) :
    Shape num (let vec := vec.set h (some p)
      if IoManager.isSomeNull vec then vec else vec ++ [none]) := by
  dsimp only
  split
  · rename_i hnull
    left
    refine ⟨by simpa using hlen, ?_⟩
    obtain ⟨x, hx, hnone⟩ := List.any_eq_true.mp hnull
    rwa [Option.isNone_iff_eq_none.mp hnone] at hx
  · rename_i hfull
    right
    refine ⟨(vec.set h (some p)).reduceOption, ?_⟩
    have hall : ∀ x ∈ vec.set h (some p), x.isSome := by
      intro x hx
      by_contra hnone
      exact hfull (List.any_eq_true.mpr ⟨x, hx, by simpa using hnone⟩)
    have hmap : (vec.set h (some p)).reduceOption.map some = vec.set h (some p) := by
      generalize vec.set h (some p) = l at hall
      induction l with
      | nil => rfl
      | cons x l ih =>
        obtain ⟨y, rfl⟩ := Option.isSome_iff_exists.mp (hall x (by simp))
        simpa using ih fun z hz => hall z (List.mem_cons_of_mem _ hz)
    refine ⟨?_, by rw [hmap]⟩
    rw [← List.length_map (f := some), hmap, List.length_set, hlen]

/-- What `accept` takes of a complete vector. -/
theorem Shape.complete {num : Nat} {vec : List (Option P)} (h : Shape num vec)
    (hlt : num < vec.length) :
    ∃ ps : List P, ps.length = num ∧ vec = ps.map some ++ [none] ∧ vec.take num = ps.map some := by
  rcases h with ⟨hlen, -⟩ | ⟨ps, hps, rfl⟩
  · omega
  · refine ⟨ps, hps, rfl, ?_⟩
    rw [List.take_append_of_le_length (by simp [hps]), List.take_of_length_le (by simp [hps])]

/-! ## The slots that will be written to -/

/-- What holds of the calls and the vectors. -/
structure Slots (num : Nat) (s : Server P) : Prop where
  numbers : s.Numbers
  shape : ∀ m n vec, (s.managers m).vec n = some vec → Shape num vec
  target : ∀ p n i, (s.calls p).pc.target = some (n, i) →
    i < num ∧ (s.managers (s.calls p).manager).slot n i = some none
  target_once : ∀ p q n i, (s.calls p).pc.target = some (n, i) →
    (s.calls q).pc.target = some (n, i) → p = q
  hasNumber_lt : ∀ p h, (s.calls p).pc = .hasNumber h → h < num
  issued_pos : ∀ p n, (s.calls p).pc = .issued n → 0 < num
  listed : ∀ p, (s.calls p).pc ≠ .absent → p ∈ s.channels

theorem slots_start (num : Nat) : ({} : Server P).Slots num where
  numbers := numbers_start
  shape m n vec h := by simp at h
  target p n i h := by cases h
  target_once p q n i h := by cases h
  hasNumber_lt p i h := by cases h
  issued_pos p n h := by cases h
  listed p h := (h rfl).elim

theorem Slots.writesHit {num : Nat} {s : Server P} (h : s.Slots num) : s.WritesHit :=
  fun p n i ht => IoManager.vec_of_slot (h.target p n i ht).2

section

variable {num : Nat} {s s' : Server P}

/-- A step of one call, which keeps the slots of the others. -/
theorem Slots.setPc [DecidableEq P] (h : s.Slots num) (p : P) (pc : InitPc) (hnum : s'.Numbers)
    (hpc : ∀ q, (s'.calls q).pc = if q = p then pc else (s.calls q).pc)
    (hmanager : ∀ q, q ≠ p → (s'.calls q).manager = (s.calls q).manager)
    (hshape : ∀ m n vec, (s'.managers m).vec n = some vec → Shape num vec)
    (hkeep : ∀ q n i, q ≠ p → (s.calls q).pc.target = some (n, i) →
      (s'.managers (s.calls q).manager).slot n i = some none)
    (hnew : ∀ n i, pc.target = some (n, i) →
      i < num ∧ (s'.managers (s'.calls p).manager).slot n i = some none ∧
        ∀ q, q ≠ p → (s.calls q).pc.target ≠ some (n, i))
    (hhas : ∀ i, pc = .hasNumber i → i < num) (hissued : ∀ n, pc = .issued n → 0 < num)
    (hlisted : ∀ q, q ∈ s.channels ∨ (q = p ∧ (s.calls p).pc = .absent) → q ∈ s'.channels) :
    s'.Slots num where
  numbers := hnum
  shape := hshape
  target q n i ht := by
    rw [hpc] at ht
    split at ht
    · rename_i hq
      rw [hq]
      exact ⟨(hnew n i ht).1, (hnew n i ht).2.1⟩
    · rename_i hq
      rw [hmanager q hq]
      exact ⟨(h.target q n i ht).1, hkeep q n i hq ht⟩
  target_once q r n i hq hr := by
    rw [hpc] at hq hr
    split at hq
    · rename_i hqp
      split at hr
      · rename_i hrp
        rw [hqp, hrp]
      · rename_i hrp
        exact ((hnew n i hq).2.2 r hrp hr).elim
    · rename_i hqp
      split at hr
      · exact ((hnew n i hr).2.2 q hqp hq).elim
      · exact h.target_once q r n i hq hr
  hasNumber_lt q i hq := by
    rw [hpc] at hq
    split at hq
    · exact hhas i hq
    · exact h.hasNumber_lt q i hq
  issued_pos q n hq := by
    rw [hpc] at hq
    split at hq
    · exact hissued n hq
    · exact h.issued_pos q n hq
  listed q hq := by
    refine hlisted q ?_
    by_cases habs : q = p ∧ (s.calls p).pc = .absent
    · exact .inr habs
    · left
      refine h.listed q ?_
      intro hq'
      rw [hpc] at hq
      by_cases hqp : q = p
      · exact habs ⟨hqp, hqp ▸ hq'⟩
      · rw [if_neg hqp] at hq
        exact hq hq'

/-- A step that takes whole groups out, none of which a call is going to write to. -/
theorem Slots.drop (h : s.Slots num) (hnum : s'.Numbers) (hcalls : s'.calls = s.calls)
    (hchannels : s'.channels = s.channels)
    (hvec : ∀ m n vec, (s'.managers m).vec n = some vec → (s.managers m).vec n = some vec)
    (hkeep : ∀ p n i, (s.calls p).pc.target = some (n, i) →
      (s'.managers (s.calls p).manager).slot n i = some none) : s'.Slots num where
  numbers := hnum
  shape m n vec hv := h.shape m n vec (hvec m n vec hv)
  target p n i ht := by
    rw [hcalls] at ht ⊢
    exact ⟨(h.target p n i ht).1, hkeep p n i ht⟩
  target_once := by
    rw [hcalls]
    exact h.target_once
  hasNumber_lt := by
    rw [hcalls]
    exact h.hasNumber_lt
  issued_pos := by
    rw [hcalls]
    exact h.issued_pos
  listed := by
    rw [hcalls, hchannels]
    exact h.listed

/-- The vector that a call is going to write to is not complete. -/
theorem Slots.vec_of_target (h : s.Slots num) {p : P} {n i : Nat}
    (ht : (s.calls p).pc.target = some (n, i)) :
    ∃ vec, (s.managers (s.calls p).manager).vec n = some vec ∧ vec.length = num := by
  obtain ⟨hlt, hslot⟩ := h.target p n i ht
  obtain ⟨vec, hvec, hi⟩ := IoManager.vec_of_slot hslot
  exact ⟨vec, hvec, (h.shape _ n vec hvec).length_of_empty hlt hi⟩

/-- `accept` takes a complete group, which no call is going to write to. -/
theorem Slots.accept (h : s.Slots num) {m n : Nat} {vec : List (Option P)}
    (hvec : (s.managers m).vec n = some vec) (hlen : num < vec.length) {s' : Server P}
    (hcalls : s'.calls = s.calls) (hchannels : s'.channels = s.channels)
    (hmanagers : s'.managers = (s.setManager m ((s.managers m).remove n)).managers)
    (hnum : s'.Numbers) : s'.Slots num := by
  refine h.drop hnum hcalls hchannels ?_ ?_
  · intro m' k v hv
    rw [hmanagers, setManager_managers] at hv
    split at hv
    · rename_i hm
      rw [IoManager.vec_remove] at hv
      split at hv
      · cases hv
      · rwa [hm]
    · exact hv
  · intro p k i ht
    obtain ⟨-, hslot⟩ := h.target p k i ht
    rw [hmanagers, setManager_managers]
    split
    · rename_i hm
      rw [IoManager.slot_remove]
      split
      · rename_i hk
        obtain ⟨vec', hvec', hlen'⟩ := h.vec_of_target ht
        rw [hm, ← hk, hvec] at hvec'
        cases hvec'
        omega
      · rwa [hm] at hslot
    · exact hslot

/-- A call that is to make its vector finds none under its number. -/
theorem Numbers.vec_of_issued (h : s.Numbers) {p : P} {n : Nat}
    (hpc : (s.calls p).pc = .issued n) (m : Nat) : (s.managers m).vec n = none := by
  by_contra hsome
  have := h.once (.manager m) (.call p) n (Option.isSome_iff_ne_none.mpr hsome) hpc
  cases this

end

/-! ## A step keeps the slots -/

variable [DecidableEq P]

section

variable {num : Nat} {s : Server P}

/-- A call gets its number, and has not released its connection. -/
theorem Slots.create (h : s.Slots num) {p : P} {n : Nat} (hpc : (s.calls p).pc = .issued n)
    {s' : Server P} (hs' : s' = (s.setManager (s.calls p).manager ((s.managers
      (s.calls p).manager).createGroup num n (s.calls p).timestamp)).setPc p (.created n))
    (hnum : s'.Numbers) : s'.Slots num := by
  subst hs'
  have hfresh := h.numbers.vec_of_issued hpc
  have hpos := h.issued_pos p n hpc
  refine h.setPc p (.created n) hnum (by simp) (by simp) ?_ ?_ ?_ (by simp) (by simp) ?_
  · intro m k vec hvec
    simp only [setPc_managers, setManager_managers] at hvec
    split at hvec
    · rw [IoManager.vec_createGroup, hfresh] at hvec
      split at hvec
      · cases hvec
        exact .inl ⟨by simp, by simp; omega⟩
      · exact h.shape _ k vec hvec
    · exact h.shape m k vec hvec
  · intro q k i hq ht
    obtain ⟨-, hslot⟩ := h.target q k i ht
    simp only [setPc_managers, setManager_managers]
    split
    · rename_i hm
      rw [IoManager.slot_createGroup _ (hfresh _)]
      split
      · -- the vector of the new number was not there
        rename_i hk
        obtain ⟨vec, hvec, -⟩ := IoManager.vec_of_slot hslot
        rw [← hk, hfresh] at hvec
        cases hvec
      · rwa [hm] at hslot
    · exact hslot
  · intro k i ht
    cases ht
    refine ⟨hpos, ?_, ?_⟩
    · simp [IoManager.slot_createGroup _ (hfresh _), hpos]
    · intro q hq ht
      obtain ⟨vec, hvec, -⟩ := IoManager.vec_of_slot (h.target q n 0 ht).2
      rw [hfresh] at hvec
      cases hvec
  · intro q hq
    rcases hq with hq | ⟨-, habs⟩
    · exact hq
    · rw [hpc] at habs
      cases habs

/-- A call writes to its slot. -/
theorem Slots.insert (h : s.Slots num) {p : P} {n i : Nat} {io : IoManager P}
    (hpc : (s.calls p).pc = .number n i)
    (hput : (s.managers (s.calls p).manager).put n i p = .ok io) {s' : Server P}
    (hs' : s' = (s.setManager (s.calls p).manager io).setPc p (.inserted n i))
    (hnum : s'.Numbers) : s'.Slots num := by
  subst hs'
  have htarget : (s.calls p).pc.target = some (n, i) := by rw [hpc]; rfl
  refine h.setPc p (.inserted n i) hnum (by simp) (by simp) ?_ ?_ (by intro n i ht; cases ht)
    (by simp) (by simp) ?_
  · intro m k vec hvec
    simp only [setPc_managers, setManager_managers] at hvec
    split at hvec
    · obtain ⟨vec', hvec', -, -, hio⟩ := IoManager.put_eq_ok hput
      rw [hio] at hvec
      split at hvec
      · cases hvec
        obtain ⟨vec'', hvec'', hlen⟩ := h.vec_of_target htarget
        obtain rfl : vec' = vec'' := Option.some.inj (hvec'.symm.trans hvec'')
        exact Shape.put p hlen
      · exact h.shape _ k vec hvec
    · exact h.shape m k vec hvec
  · intro q k j hq ht
    obtain ⟨-, hslot⟩ := h.target q k j ht
    simp only [setPc_managers, setManager_managers]
    split
    · rename_i hm
      have hne : ¬ (n = k ∧ i = j) := by
        rintro ⟨rfl, rfl⟩
        exact hq (h.target_once q p n i ht htarget)
      rw [hm] at hslot
      rcases IoManager.slot_put_ne hput hne with heq | ⟨hold, -⟩
      · rwa [heq]
      · rw [hslot] at hold
        cases hold
    · exact hslot
  · intro q hq
    rcases hq with hq | ⟨-, habs⟩
    · exact hq
    · rw [hpc] at habs
      cases habs

/-- `clear_pado_io` under the condition. -/
theorem Slots.clear (h : s.Slots num) {m : Nat} {force : Bool} {timestamp : BitVec 32}
    (hok : s.keepsGroups (.clear m force timestamp) = true)
    (hnum : (s.cleared m ((s.managers m).clearPadoIo force timestamp)).Numbers) :
    (s.cleared m ((s.managers m).clearPadoIo force timestamp)).Slots num := by
  refine h.drop hnum rfl rfl ?_ ?_
  · intro m' k v hv
    simp only [cleared, setManager_managers] at hv
    split at hv
    · rename_i hm
      rw [IoManager.vec_clearPadoIo] at hv
      split at hv
      · cases hv
      · rwa [hm]
    · exact hv
  · intro p k i ht
    obtain ⟨-, hslot⟩ := h.target p k i ht
    simp only [cleared, setManager_managers]
    split
    · rename_i hm
      have hspared : k ∉ (s.managers m).oldNumbers force timestamp := by
        intro hold
        have hall := List.all_eq_true.mp (List.all_eq_true.mp hok k hold) p (h.listed p ?_)
        · simp [ht] at hall
        · intro habs
          rw [habs] at ht
          cases ht
      unfold IoManager.slot at hslot ⊢
      rwa [IoManager.vec_clearPadoIo, if_neg hspared, ← hm]
    · exact hslot

end

/-- **One step** under the condition. -/
theorem Slots.step {num : Nat} {s s' : Server P} {e : ServerEvent P} (h : s.Slots num)
    (hok : s.careful num e = true) (hstep : s.step num e = some (.ok s')) : s'.Slots num := by
  have hnum := (h.numbers.step hstep).1
  obtain ⟨hdomain, hkeeps⟩ := Bool.and_eq_true_iff.mp hok
  have hsame : ∀ {p : P}, (s.calls p).pc ≠ .absent →
      ∀ q, q ∈ s.channels ∨ (q = p ∧ (s.calls p).pc = .absent) → q ∈ s.channels :=
    fun hpc q hq => hq.elim id fun habs => (hpc habs.2).elim
  have hkeep : ∀ (p q : P) n i, q ≠ p → (s.calls q).pc.target = some (n, i) →
      (s.managers (s.calls q).manager).slot n i = some none :=
    fun p q n i _ ht => (h.target q n i ht).2
  cases step_moves hstep with
  | @listen m p timestamp hpc =>
    refine h.setPc p .start hnum (by simp) ?_ h.shape (hkeep p) (by intro n i ht; cases ht)
      (by simp) (by simp) ?_
    · intro q hq
      simp [startCall, hq]
    · rintro q (hq | ⟨rfl, -⟩)
      · exact List.mem_cons_of_mem _ hq
      · exact List.mem_cons_self
  | @recvHasNumber p i hpc hlt =>
    refine h.setPc p (.hasNumber i) hnum (by simp) (by simp) h.shape (hkeep p)
      (by intro n i ht; cases ht) ?_ (by simp) (hsame (by simp [hpc]))
    rintro j hj
    cases hj
    simpa [inDomain] using hdomain
  | @recvNumber p n i hpc hpos hlt =>
    simp only [keepsGroups, hpc, Bool.and_eq_true, beq_iff_eq, List.all_eq_true,
      bne_iff_ne] at hkeeps
    refine h.setPc p (.number n i) hnum (by simp) (by simp) h.shape (hkeep p) ?_ (by simp) (by simp)
      (hsame (by simp [hpc]))
    intro k j ht
    cases ht
    refine ⟨h.hasNumber_lt p i hpc, by simpa using hkeeps.1, ?_⟩
    intro q hq ht
    refine hkeeps.2 q (h.listed q ?_) ht
    intro habs
    rw [habs] at ht
    cases ht
  | @issue p n ports hpc hport =>
    refine h.setPc p (.issued n) hnum (by simp) (by simp) h.shape (hkeep p)
      (by intro n i ht; cases ht) (by simp) ?_ (hsame (by simp [hpc]))
    intro k hk
    exact h.hasNumber_lt p 0 hpc
  | search =>
    exact ⟨hnum, h.shape, h.target, h.target_once, h.hasNumber_lt, h.issued_pos, h.listed⟩
  | @create p n hpc => exact h.create hpc rfl hnum
  | @sendNumber p n hpc =>
    have htarget : (s.calls p).pc.target = some (n, 0) := by rw [hpc]; rfl
    refine h.setPc p (.number n 0) hnum (by simp) (by simp) h.shape (hkeep p) ?_ (by simp) (by simp)
      (hsame (by simp [hpc]))
    intro k j ht
    cases ht
    obtain ⟨hlt, hslot⟩ := h.target p n 0 htarget
    exact ⟨hlt, by simpa using hslot, fun q hq ht => hq (h.target_once q p n 0 ht htarget)⟩
  | @insert p n i io hpc hput => exact h.insert hpc hput rfl hnum
  | @fail p hpc =>
    refine h.setPc p .failed hnum (by simp) (by simp) h.shape (hkeep p) (by intro n i ht; cases ht)
      (by simp) (by simp) (hsame ?_)
    intro habs
    rw [habs] at hpc
    exact hpc
  | @accept m num' n vec ports hfound hport =>
    obtain ⟨hvec, hlen⟩ := IoManager.complete_eq_some hfound
    obtain rfl : num' = num := by simpa [inDomain] using hdomain
    exact h.accept hvec hlen rfl rfl rfl hnum
  | @clear m force timestamp => exact h.clear hkeeps hnum

/-- No step goes wrong. -/
theorem Slots.step_ok {num : Nat} {s : Server P} {e : ServerEvent P} {r : Res (Server P)}
    (h : s.Slots num) (hstep : s.step num e = some r) : ∃ s', r = .ok s' := by
  cases r with
  | ok s' => exact ⟨s', rfl⟩
  | error f =>
    rcases step_error hstep with ⟨p, n, i, -, hpc, hput⟩ | ⟨m, num', n, vec, -, hfound, hport⟩
    · obtain ⟨-, hslot⟩ := h.target p n i (by rw [hpc]; rfl)
      obtain ⟨vec, hvec, hi⟩ := IoManager.vec_of_slot hslot
      obtain ⟨io, hio⟩ := IoManager.put_ok p hvec (List.getElem?_eq_some_iff.mp hi).1
      rw [hio] at hput
      cases hput
    · obtain ⟨hvec, -⟩ := IoManager.complete_eq_some hfound
      have hused := h.numbers.used (.manager m) n (by simp [HoldsNumber, hvec])
      obtain ⟨ports, hports, -⟩ := Ports.freeUsedPort_ok h.numbers.ports hused
      rw [hports] at hport
      cases hport

end Server

end ZktlsNet
