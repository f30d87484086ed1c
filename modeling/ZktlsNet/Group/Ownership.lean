import ZktlsNet.Group.Slots

/-!
# The owners of the channels

A channel goes from its `init_pado_io` call into a slot of its group, and from there to
the caller of `accept`; or it is deleted, by the call when an exception leaves it or by
`clear_pado_io`.

- `OneOwner`: a channel is in one place.
- `Owners.step`: a step moves channels from one place to another.
- `slots_and_owners`: with `Slots` of the module before, for whole runs.
-/

namespace ZktlsNet

open NetLib

variable {P : Type}

/-- The call has not released its connection. -/
def InitPc.ownsIo : InitPc → Bool
  | .start | .hasNumber _ | .issued _ | .created _ | .number _ _ => true
  | .absent | .inserted _ _ | .failed => false

/-- Where a channel can be. -/
inductive ChannelOwner
  /-- in the `unique_ptr` of its `init_pado_io` call -/
  | call
  /-- in a slot of an `IOManager` -/
  | slot (manager number i : Nat)
  /-- in the result of an `accept` -/
  | group (k i : Nat)
  | deleted
  deriving DecidableEq, Repr

namespace Server

def Owns (s : Server P) (p : P) : ChannelOwner → Prop
  | .call => (s.calls p).pc.ownsIo = true
  | .slot m n i => (s.managers m).slot n i = some (some p)
  | .group k i => s.accepted[k]?.bind (·[i]?) = some (some p)
  | .deleted => p ∈ s.deleted

/-- Every channel is in exactly one place, and none is deleted twice. -/
structure OneOwner (s : Server P) : Prop where
  owner : ∀ p, (s.calls p).pc ≠ .absent → ∃! o, s.Owns p o
  deleted : s.deleted.Nodup

/-! ## A step moves the channels -/

/-- A channel without a call is nowhere. -/
structure Owners (s : Server P) : Prop extends s.OneOwner where
  absent : ∀ p o, (s.calls p).pc = .absent → ¬ s.Owns p o

theorem owners_start : ({} : Server P).Owners := by
  refine ⟨⟨?_, List.nodup_nil⟩, ?_⟩
  · intro p hp
    exact (hp rfl).elim
  · intro p o habs ho
    cases o with
    | call => cases ho
    | slot m n i => simp [Owns, IoManager.slot] at ho
    | group k i => simp [Owns] at ho
    | deleted => simp [Owns] at ho

section

variable {s s' : Server P}

theorem Owners.unique (h : s.Owners) {p : P} {o o' : ChannelOwner} (ho : s.Owns p o)
    (ho' : s.Owns p o') : o = o' := by
  have hpc : (s.calls p).pc ≠ .absent := fun habs => h.absent p o habs ho
  exact (h.owner p hpc).unique ho ho'

/-- Everything that is in one place goes to another, and nothing else moves. -/
theorem Owners.image (h : s.Owners) (f : ChannelOwner → ChannelOwner)
    (hto : ∀ p o, s.Owns p o → s'.Owns p (f o))
    (hfrom : ∀ p o', s'.Owns p o' → ∃ o, s.Owns p o ∧ f o = o')
    (hpc : ∀ p, (s'.calls p).pc = .absent ↔ (s.calls p).pc = .absent)
    (hdeleted : s'.deleted.Nodup) : s'.Owners where
  owner p hp := by
    obtain ⟨o, ho, huniq⟩ := h.owner p fun habs => hp ((hpc p).mpr habs)
    refine ⟨f o, hto p o ho, ?_⟩
    intro o' ho'
    obtain ⟨o'', ho'', rfl⟩ := hfrom p o' ho'
    rw [huniq o'' ho'']
  deleted := hdeleted
  absent p o habs ho := by
    obtain ⟨o', ho', -⟩ := hfrom p o ho
    exact h.absent p o' ((hpc p).mp habs) ho'

/-- One channel goes from one place to another. -/
theorem Owners.move (h : s.Owners) {p : P} {a b : ChannelOwner} (ha : s.Owns p a)
    (hown : ∀ q o, s'.Owns q o ↔ (q = p ∧ o = b) ∨ (s.Owns q o ∧ ¬ (q = p ∧ o = a)))
    (hpc : ∀ q, (s'.calls q).pc = .absent ↔ (s.calls q).pc = .absent)
    (hdeleted : s'.deleted.Nodup) : s'.Owners where
  owner q hq := by
    by_cases hqp : q = p
    · subst hqp
      refine ⟨b, (hown q b).mpr (.inl ⟨rfl, rfl⟩), ?_⟩
      intro o ho
      rcases (hown q o).mp ho with ⟨-, rfl⟩ | ⟨hold, hne⟩
      · rfl
      · exact (hne ⟨rfl, h.unique hold ha⟩).elim
    · obtain ⟨o, ho, huniq⟩ := h.owner q fun habs => hq ((hpc q).mpr habs)
      refine ⟨o, (hown q o).mpr (.inr ⟨ho, fun hx => hqp hx.1⟩), ?_⟩
      intro o' ho'
      rcases (hown q o').mp ho' with ⟨hx, -⟩ | ⟨hold, -⟩
      · exact (hqp hx).elim
      · exact huniq o' hold
  deleted := hdeleted
  absent q o habs ho := by
    have habs' := (hpc q).mp habs
    rcases (hown q o).mp ho with ⟨rfl, -⟩ | ⟨hold, -⟩
    · exact h.absent q a habs' ha
    · exact h.absent q o habs' hold

/-- A step in which no channel moves. -/
theorem Owners.same (h : s.Owners)
    (hcall : ∀ p, (s'.calls p).pc.ownsIo = (s.calls p).pc.ownsIo)
    (hslot : ∀ m n i p, (s'.managers m).slot n i = some (some p) ↔
      (s.managers m).slot n i = some (some p))
    (haccepted : s'.accepted = s.accepted) (hdeleted : s'.deleted = s.deleted)
    (hpc : ∀ p, (s'.calls p).pc = .absent ↔ (s.calls p).pc = .absent) : s'.Owners := by
  have hsame : ∀ p o, s'.Owns p o ↔ s.Owns p o := by
    intro p o
    cases o with
    | call => simp only [Owns, hcall]
    | slot m n i => exact hslot m n i p
    | group k i => simp only [Owns, haccepted]
    | deleted => simp only [Owns, hdeleted]
  exact h.image id (fun p o ho => (hsame p o).mpr ho) (fun p o ho => ⟨o, (hsame p o).mp ho, rfl⟩)
    hpc (by rw [hdeleted]; exact h.deleted)

/-- The non-null pointers of a vector in which no pointer is twice. -/
theorem nodup_reduceOption {vec : List (Option P)}
    (h : ∀ (i j : Nat) (p : P), vec[i]? = some (some p) → vec[j]? = some (some p) → i = j) :
    vec.reduceOption.Nodup := by
  induction vec with
  | nil => simp
  | cons x vec ih =>
    have htail : vec.reduceOption.Nodup := by
      refine ih ?_
      intro i j p hi hj
      exact Nat.succ.inj (h (i + 1) (j + 1) p (by simpa using hi) (by simpa using hj))
    cases x with
    | none => simpa using htail
    | some p =>
      simp only [List.reduceOption_cons_of_some, List.nodup_cons, List.reduceOption_mem_iff]
      refine ⟨fun hmem => ?_, htail⟩
      obtain ⟨j, hj⟩ := List.mem_iff_getElem?.mp hmem
      have := h 0 (j + 1) p rfl hj
      omega

/-- Where a channel is after the number has been cleared. -/
def afterClear (m n : Nat) : ChannelOwner → ChannelOwner
  | .slot m' n' i => if m' = m ∧ n' = n then .deleted else .slot m' n' i
  | o => o

theorem slot_clearNumber (s : Server P) (m n m' n' i : Nat) :
    ((s.cleared m ((s.managers m).clearNumber n)).managers m').slot n' i =
      if m' = m ∧ n' = n then none else (s.managers m').slot n' i := by
  simp only [cleared, setManager_managers, IoManager.clearNumber]
  split
  · rename_i hm
    rw [IoManager.slot_remove, hm]
    by_cases hn : n = n'
    · simp [hn]
    · simp [hn, Ne.symm hn]
  · rename_i hm
    simp [hm]

/-- The channels deleted with a number are those of its slots. -/
theorem mem_clearNumber {io : IoManager P} {n : Nat} {p : P} :
    p ∈ (io.clearNumber n).2 ↔ ∃ i, io.slot n i = some (some p) := by
  rw [IoManager.clearNumber, List.reduceOption_mem_iff, List.mem_iff_getElem?]
  unfold IoManager.slot
  cases io.vec n with
  | none => simp
  | some vec => rfl

theorem Owners.clearNumber (h : s.Owners) (m n : Nat) :
    (s.cleared m ((s.managers m).clearNumber n)).Owners := by
  refine h.image (afterClear m n) ?_ ?_ (fun p => Iff.rfl) ?_
  · intro p o ho
    cases o with
    | call => exact ho
    | slot m' n' i =>
      by_cases heq : m' = m ∧ n' = n
      · have hto : afterClear m n (.slot m' n' i) = .deleted := if_pos heq
        obtain ⟨rfl, rfl⟩ := heq
        rw [hto]
        exact List.mem_append_right _ (mem_clearNumber.mpr ⟨i, ho⟩)
      · have hto : afterClear m n (.slot m' n' i) = .slot m' n' i := if_neg heq
        rw [hto, Owns, slot_clearNumber, if_neg heq]
        exact ho
    | group k i => exact ho
    | deleted => exact List.mem_append_left _ ho
  · intro p o ho
    cases o with
    | call => exact ⟨.call, ho, rfl⟩
    | slot m' n' i =>
      rw [Owns, slot_clearNumber] at ho
      split at ho
      · cases ho
      · rename_i hne
        exact ⟨.slot m' n' i, ho, if_neg hne⟩
    | group k i => exact ⟨.group k i, ho, rfl⟩
    | deleted =>
      rcases List.mem_append.mp ho with hold | hnew
      · exact ⟨.deleted, hold, rfl⟩
      · obtain ⟨i, hi⟩ := mem_clearNumber.mp hnew
        exact ⟨.slot m n i, hi, if_pos ⟨rfl, rfl⟩⟩
  · -- a channel in a slot is in no other, and has not been deleted before
    refine List.nodup_append.mpr ⟨h.deleted, nodup_reduceOption ?_, ?_⟩
    · intro i j p hi hj
      cases hvec : (s.managers m).vec n with
      | none => simp [hvec] at hi
      | some vec =>
        rw [hvec, Option.getD_some] at hi hj
        have hslot : ∀ k, vec[k]? = some (some p) → s.Owns p (.slot m n k) := fun k hk => by
          rw [Owns, IoManager.slot_eq hvec, hk]
        cases h.unique (hslot i hi) (hslot j hj)
        rfl
    · rintro p hp q hq rfl
      obtain ⟨i, hi⟩ := mem_clearNumber.mp hq
      have hslot : s.Owns p (.slot m n i) := hi
      have hdeleted : s.Owns p .deleted := hp
      cases h.unique hslot hdeleted

/-- The channels after several numbers have been cleared. -/
theorem Owners.clearNumbers (h : s.Owners) (m : Nat) (numbers : List Nat) :
    (s.cleared m (IoManager.clearNumbers numbers (s.managers m))).Owners := by
  induction numbers generalizing s with
  | nil =>
    refine h.same (fun p => rfl) ?_ rfl (by simp [cleared, IoManager.clearNumbers])
      (fun p => Iff.rfl)
    intro m' n i p
    simp only [cleared, setManager_managers, IoManager.clearNumbers]
    split
    · rename_i hm
      rw [hm]
    · rfl
  | cons n numbers ih =>
    have hrest := ih (h.clearNumber m n)
    have heq : (s.cleared m ((s.managers m).clearNumber n)).cleared m
        (IoManager.clearNumbers numbers
          ((s.cleared m ((s.managers m).clearNumber n)).managers m)) =
        s.cleared m (IoManager.clearNumbers (n :: numbers) (s.managers m)) := by
      simp [cleared, setManager, IoManager.clearNumbers]
    rwa [heq] at hrest

/-- `clear_pado_io`. -/
theorem Owners.clear (h : s.Owners) (m : Nat) (force : Bool) (timestamp : BitVec 32) :
    (s.cleared m ((s.managers m).clearPadoIo force timestamp)).Owners := by
  obtain ⟨hvec, -, hdeleted⟩ := (s.managers m).clearPadoIo_eq force timestamp
  refine (h.clearNumbers m ((s.managers m).oldNumbers force timestamp)).same (fun p => rfl) ?_ rfl
    (by simp only [cleared, hdeleted]) (fun p => Iff.rfl)
  intro m' n i p
  simp only [cleared, setManager_managers]
  split
  · simp only [IoManager.slot, hvec]
  · rfl

/-- The groups that are accepted, with one more. -/
theorem owns_group_append {g : List (Option P)} (haccepted : s'.accepted = s.accepted ++ [g])
    (p : P) (k i : Nat) : s'.Owns p (.group k i) ↔
      s.Owns p (.group k i) ∨ (k = s.accepted.length ∧ g[i]? = some (some p)) := by
  rw [Owns, Owns, haccepted]
  rcases Nat.lt_trichotomy k s.accepted.length with hk | rfl | hk
  · rw [List.getElem?_append_left hk]
    simp [Nat.ne_of_lt hk]
  · rw [List.getElem?_concat_length, List.getElem?_eq_none (Nat.le_refl _)]
    simp
  · rw [List.getElem?_eq_none (by simpa using Nat.succ_le_of_lt hk),
      List.getElem?_eq_none (Nat.le_of_lt hk)]
    simp [Nat.ne_of_gt hk]

/-- Where a channel is after the `k`-th group has been accepted. -/
def afterAccept (m n k : Nat) : ChannelOwner → ChannelOwner
  | .slot m' n' i => if m' = m ∧ n' = n then .group k i else .slot m' n' i
  | o => o

/-- A complete group goes to the caller of `accept`. -/
theorem Owners.accept (h : s.Owners) {num m n : Nat} {vec : List (Option P)}
    (hvec : (s.managers m).vec n = some vec) (hshape : Shape num vec)
    (hcalls : s'.calls = s.calls)
    (hmanagers : s'.managers = (s.setManager m ((s.managers m).remove n)).managers)
    (haccepted : s'.accepted = s.accepted ++ [vec.take num]) (hdeleted : s'.deleted = s.deleted) :
    s'.Owners := by
  have htake : ∀ (i : Nat) (p : P),
      (vec.take num)[i]? = some (some p) ↔ vec[i]? = some (some p) := by
    intro i p
    rw [List.getElem?_take]
    split
    · rfl
    · rename_i hge
      simp only [reduceCtorEq, false_iff]
      exact fun hi => hge (hshape.slot_lt hi)
  have hslot : ∀ m' n' i, (s'.managers m').slot n' i =
      if m' = m ∧ n' = n then none else (s.managers m').slot n' i := by
    intro m' n' i
    rw [← slot_clearNumber s m n, hmanagers]
    rfl
  refine h.image (afterAccept m n s.accepted.length) ?_ ?_ (by simp [hcalls])
    (by rw [hdeleted]; exact h.deleted)
  · intro p o ho
    cases o with
    | call =>
      rw [Owns, ← hcalls] at ho
      exact ho
    | slot m' n' i =>
      by_cases heq : m' = m ∧ n' = n
      · have hto : afterAccept m n s.accepted.length (.slot m' n' i) =
            .group s.accepted.length i := if_pos heq
        obtain ⟨rfl, rfl⟩ := heq
        rw [Owns, IoManager.slot_eq hvec] at ho
        rw [hto, owns_group_append haccepted]
        exact .inr ⟨rfl, (htake i p).mpr ho⟩
      · have hto : afterAccept m n s.accepted.length (.slot m' n' i) = .slot m' n' i := if_neg heq
        rw [hto, Owns, hslot, if_neg heq]
        exact ho
    | group k i => exact (owns_group_append haccepted p k i).mpr (.inl ho)
    | deleted =>
      rw [Owns, ← hdeleted] at ho
      exact ho
  · intro p o ho
    cases o with
    | call =>
      rw [Owns, hcalls] at ho
      exact ⟨.call, ho, rfl⟩
    | slot m' n' i =>
      rw [Owns, hslot] at ho
      split at ho
      · cases ho
      · rename_i hne
        exact ⟨.slot m' n' i, ho, if_neg hne⟩
    | group k i =>
      rcases (owns_group_append haccepted p k i).mp ho with hold | ⟨rfl, hi⟩
      · exact ⟨.group k i, hold, rfl⟩
      · refine ⟨.slot m n i, ?_, if_pos ⟨rfl, rfl⟩⟩
        rw [Owns, IoManager.slot_eq hvec]
        exact (htake i p).mp hi
    | deleted =>
      rw [Owns, hdeleted] at ho
      exact ⟨.deleted, ho, rfl⟩

end

variable [DecidableEq P]

/-- A new connection. -/
theorem Owners.listen {s : Server P} (h : s.Owners) {m : Nat} {p : P} {timestamp : BitVec 32}
    (hpc : (s.calls p).pc = .absent) : (s.startCall m p timestamp).Owners := by
  have hother : ∀ q, q ≠ p → ∀ o, (s.startCall m p timestamp).Owns q o ↔ s.Owns q o := by
    intro q hq o
    cases o with
    | call => simp [Owns, hq]
    | _ => rfl
  refine ⟨⟨?_, h.deleted⟩, ?_⟩
  · intro q hq
    by_cases hqp : q = p
    · subst hqp
      refine ⟨.call, by simp [Owns, InitPc.ownsIo], ?_⟩
      intro o ho
      cases o with
      | call => rfl
      | slot m' n i => exact (h.absent q (.slot m' n i) hpc ho).elim
      | group k i => exact (h.absent q (.group k i) hpc ho).elim
      | deleted => exact (h.absent q .deleted hpc ho).elim
    · rw [startCall_pc, if_neg hqp] at hq
      obtain ⟨o, ho, huniq⟩ := h.owner q hq
      exact ⟨o, (hother q hqp o).mpr ho, fun o' ho' => huniq o' ((hother q hqp o').mp ho')⟩
  · intro q o habs ho
    rw [startCall_pc] at habs
    split at habs
    · cases habs
    · rename_i hqp
      exact h.absent q o habs ((hother q hqp o).mp ho)

/-- The connection goes into its slot. -/
theorem Owners.insert {num : Nat} {s : Server P} (h : s.Owners) (hslots : s.Slots num) {p : P}
    {n i : Nat} {io : IoManager P} (hpc : (s.calls p).pc = .number n i)
    (hput : (s.managers (s.calls p).manager).put n i p = .ok io) :
    ((s.setManager (s.calls p).manager io).setPc p (.inserted n i)).Owners := by
  obtain ⟨-, hempty⟩ := hslots.target p n i (by rw [hpc]; rfl)
  have hcall : s.Owns p .call := by simp [Owns, hpc, InitPc.ownsIo]
  refine h.move (b := .slot (s.calls p).manager n i) hcall ?_ ?_ h.deleted
  · intro q o
    cases o with
    | call =>
      by_cases hq : q = p
      · simp [Owns, hq, InitPc.ownsIo]
      · simp [Owns, hq]
    | slot m n' i' =>
      simp only [Owns, setPc_managers, setManager_managers, ChannelOwner.slot.injEq, reduceCtorEq,
        and_false, not_false_eq_true, and_true]
      split
      · rename_i hm
        rw [IoManager.slot_put_iff hput hempty, hm]
        grind
      · rename_i hm
        simp [hm]
    | group k j => simp [Owns]
    | deleted => simp [Owns]
  · intro q
    by_cases hq : q = p
    · simp [hq, hpc]
    · simp [hq]

/-- The call is left by an exception, and deletes its connection. -/
theorem Owners.fail {s : Server P} (h : s.Owners) {p : P} (hpc : CanFail (s.calls p).pc) :
    Owners { s.setPc p .failed with deleted := s.deleted ++ [p] } := by
  have hcall : s.Owns p .call := by
    unfold Owns
    cases hp : (s.calls p).pc with
    | start | hasNumber _ | created _ => rfl
    | _ =>
      rw [hp] at hpc
      exact hpc.elim
  have hpresent : (s.calls p).pc ≠ .absent := by
    intro habs
    rw [habs] at hpc
    exact hpc
  refine h.move (b := .deleted) hcall ?_ ?_ ?_
  · intro q o
    cases o with
    | call =>
      by_cases hq : q = p
      · simp [Owns, hq, InitPc.ownsIo]
      · simp [Owns, hq]
    | slot m n i => simp [Owns]
    | group k i => simp [Owns]
    | deleted =>
      simp only [Owns, List.mem_append, List.mem_singleton, and_true, reduceCtorEq, and_false,
        not_false_eq_true]
      exact or_comm
  · intro q
    by_cases hq : q = p
    · simp [hq, hpresent]
    · simp [hq]
  · refine List.nodup_append.mpr ⟨h.deleted, by simp, ?_⟩
    rintro q hq r hr rfl
    obtain rfl := List.mem_singleton.mp hr
    have hdeleted : s.Owns q .deleted := hq
    cases h.unique hcall hdeleted

/-- A step of a call that keeps its connection. -/
theorem Owners.setPc {s s' : Server P} (h : s.Owners) (p : P) (pc : InitPc)
    (hcall : (s.calls p).pc.ownsIo = true) (hnew : pc.ownsIo = true)
    (hpc : ∀ q, (s'.calls q).pc = if q = p then pc else (s.calls q).pc)
    (hslot : ∀ m n i q, (s'.managers m).slot n i = some (some q) ↔
      (s.managers m).slot n i = some (some q))
    (haccepted : s'.accepted = s.accepted) (hdeleted : s'.deleted = s.deleted) : s'.Owners := by
  refine h.same ?_ hslot haccepted hdeleted ?_
  · intro q
    rw [hpc]
    split
    · rename_i hq
      rw [hq, hcall, hnew]
    · rfl
  · intro q
    rw [hpc]
    split
    · rename_i hq
      subst hq
      constructor
      · rintro rfl
        cases hnew
      · intro habs
        rw [habs] at hcall
        cases hcall
    · rfl

/-- **One step** moves no channel to two places. -/
theorem Owners.step {num : Nat} {s s' : Server P} {e : ServerEvent P} (h : s.Owners)
    (hslots : s.Slots num) (hdomain : s.inDomain num e = true)
    (hstep : s.step num e = some (.ok s')) : s'.Owners := by
  cases step_moves hstep with
  | listen hpc => exact h.listen hpc
  | @recvHasNumber p i hpc hlt =>
    exact h.setPc p (.hasNumber i) (by rw [hpc]; rfl) rfl (by simp) (by simp) rfl rfl
  | @recvNumber p n i hpc hpos hlt =>
    exact h.setPc p (.number n i) (by rw [hpc]; rfl) rfl (by simp) (by simp) rfl rfl
  | @issue p n ports hpc hport =>
    exact h.setPc p (.issued n) (by rw [hpc]; rfl) rfl (by simp) (by simp) rfl rfl
  | search => exact h.same (fun _ => rfl) (fun _ _ _ _ => Iff.rfl) rfl rfl fun _ => Iff.rfl
  | @create p n hpc =>
    have hfresh := hslots.numbers.vec_of_issued hpc (s.calls p).manager
    refine h.setPc p (.created n) (by rw [hpc]; rfl) rfl (by simp) ?_ rfl rfl
    intro m k i q
    simp only [setPc_managers, setManager_managers]
    split
    · rename_i hm
      rw [IoManager.slot_createGroup _ hfresh, hm]
      split
      · -- the slots of the new vector are empty, and there were none before
        rename_i hk
        rw [← hk, IoManager.slot, hfresh]
        split <;> simp
      · rfl
    · rfl
  | @sendNumber p n hpc =>
    exact h.setPc p (.number n 0) (by rw [hpc]; rfl) rfl (by simp) (by simp) rfl rfl
  | insert hpc hput => exact h.insert hslots hpc hput
  | fail hpc => exact h.fail hpc
  | @accept m num' n vec ports hfound hport =>
    obtain ⟨hvec, -⟩ := IoManager.complete_eq_some hfound
    obtain rfl : num' = num := by simpa [inDomain] using hdomain
    exact h.accept hvec (hslots.shape m n vec hvec) rfl rfl rfl rfl
  | clear => exact h.clear _ _ _

/-! ## A run keeps the slots and moves the channels -/

/-- **Slots and owners.** While no group is cleared that a call is going to write to, and
no peer names a slot that is taken, every write hits an existing slot, and every channel
has exactly one owner or has been deleted once. -/
theorem slots_and_owners (num : Nat) {es : List (ServerEvent P)} {r : Res (Server P)}
    (hrun : ((machine P num).restrict (whereOk (careful num))).run es = some r) :
    ∃ s, r = .ok s ∧ s.WritesHit ∧ s.OneOwner := by
  obtain ⟨s, hs, hslots, howners⟩ := fallible_restrict_run (fun s => s.Slots num ∧ s.Owners)
    ⟨slots_start num, owners_start⟩ (fun s e r hs hok hstep => by
      obtain ⟨s', rfl⟩ := hs.1.step_ok hstep
      refine ⟨s', rfl, hs.1.step hok hstep, hs.2.step hs.1 ?_ hstep⟩
      exact (Bool.and_eq_true_iff.mp hok).1) hrun
  exact ⟨s, hs, hslots.writesHit, howners.toOneOwner⟩

/-- Two clients, of which the first is accepted and the second cleared. -/
theorem slots_and_owners_cleared : ∃ s, ((machine Nat 2).restrict (whereOk (careful 2))).run
    [.listen 0 7 0, .listen 0 8 0, .recvHasNumber 7 0, .issue 7, .create 7, .sendNumber 7,
      .recvHasNumber 8 1, .recvNumber 8 1, .insert 8, .insert 7, .listen 0 9 0,
      .recvHasNumber 9 0, .issue 9, .create 9, .sendNumber 9, .insert 9, .accept 0 2,
      .clear 0 true 5] = some (.ok s) ∧ s.WritesHit ∧ s.OneOwner := by
  have hrun : (((machine Nat 2).restrict (whereOk (careful 2))).run
    [.listen 0 7 0, .listen 0 8 0, .recvHasNumber 7 0, .issue 7, .create 7, .sendNumber 7,
      .recvHasNumber 8 1, .recvNumber 8 1, .insert 8, .insert 7, .listen 0 9 0,
      .recvHasNumber 9 0, .issue 9, .create 9, .sendNumber 9, .insert 9, .accept 0 2,
      .clear 0 true 5]).isSome = true := by decide +kernel
  obtain ⟨r, hrun⟩ := Option.isSome_iff_exists.mp hrun
  obtain ⟨s, rfl, h⟩ := slots_and_owners 2 hrun
  exact ⟨s, hrun, h⟩

/-- `clear_pado_io` between the two critical sections of one `init_pado_io` call, which
then writes behind the end of the empty vector that `operator[]` makes. -/
theorem cleared_group_is_written :
    ¬ ∀ es r, ((machine Nat 2).restrict (whereOk (inDomain 2))).run es = some r →
      ∃ s, r = .ok s ∧ s.WritesHit ∧ s.OneOwner := by
  intro hall
  obtain ⟨s, hs, -⟩ := hall [.listen 0 7 0, .recvHasNumber 7 0, .issue 7, .create 7,
    .clear 0 true 5, .sendNumber 7, .insert 7] _ rfl
  cases hs

end Server

end ZktlsNet
