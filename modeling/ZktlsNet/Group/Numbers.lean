import ZktlsNet.Group.Server

/-!
# Who holds which number

A number is held by the `IOManager` whose map has it as a key, or by the call that has
it from `get_unused_port` and has not made its vector yet. `port_map` and the holders
are two representations of one set, kept by different operations under different locks.

- `Numbers`: held numbers are in use, each by one holder. Every step keeps this.
- `Searching`: the search of a call that holds `port_mtx` for ever does not end.
- `numbers_agree_iff`: the numbers in use are all held, in every state of a run, exactly
  if no `clear_pado_io` of the run has cleared a group. It deletes the group and does
  not call `free_used_port`, as `accept` does.
-/

namespace ZktlsNet

open NetLib

variable {P : Type}

/-- Who may hold a number. -/
inductive NumberHolder (P : Type)
  | manager (m : Nat)
  | call (p : P)
  deriving DecidableEq

namespace Server

/-- A number is a key of `pado_io_map`, or issued to a call and not inserted yet. -/
def HoldsNumber (s : Server P) : NumberHolder P → Nat → Prop
  | .manager m, n => ((s.managers m).vec n).isSome
  | .call p, n => (s.calls p).pc = .issued n

/-- The set bits of `port_map` are exactly the numbers that are held; and
`get_unused_port` fails to find a number only if all of them are. -/
def NumbersAgree (s : Server P) : Prop :=
  (∀ n, s.ports.used n = true ↔ ∃ x, s.HoldsNumber x n) ∧
  (s.ports.getUnusedPort = none → ∀ n, 1 ≤ n → n < maxPortSeq → ∃ x, s.HoldsNumber x n)

/-- The step is no `clear_pado_io` that finds an old group. -/
def clearsNothing (s : Server P) : ServerEvent P → Bool
  | .clear m force timestamp => ((s.managers m).oldNumbers force timestamp).isEmpty
  | _ => true

/-- What holds of the numbers in every state. -/
structure Numbers (s : Server P) : Prop where
  ports : s.ports.Ok
  used : ∀ x n, s.HoldsNumber x n → s.ports.used n = true
  once : ∀ x y n, s.HoldsNumber x n → s.HoldsNumber y n → x = y
  timed : ∀ m n, n ∈ (s.managers m).createdTimestampMap → ((s.managers m).vec n).isSome

theorem numbers_start : ({} : Server P).Numbers where
  ports := Ports.ok_init
  used x n h := by cases x <;> simp [HoldsNumber] at h
  once x y n h := by cases x <;> simp [HoldsNumber] at h
  timed m n h := by simp at h

/-- The second half of `NumbersAgree` follows from the first. -/
theorem Numbers.agree_iff {s : Server P} (h : s.Numbers) :
    s.NumbersAgree ↔ ∀ n, s.ports.used n = true → ∃ x, s.HoldsNumber x n := by
  constructor
  · intro hagree n hn
    exact (hagree.1 n).mp hn
  · intro hheld
    refine ⟨fun n => ⟨hheld n, fun ⟨x, hx⟩ => h.used x n hx⟩, ?_⟩
    intro hnone n hpos hlt
    exact hheld n (Ports.getUnusedPort_none h.ports hnone hpos hlt)

theorem agree_start : ({} : Server P).NumbersAgree := by
  refine numbers_start.agree_iff.mpr ?_
  intro n hn
  simp [Ports.init, Ports.used] at hn

/-! ## Each kind of step -/

section

variable {s s' : Server P}

/-- A new number with its holder. -/
theorem Numbers.add (h : s.Numbers) {y : NumberHolder P} {k : Nat} (hports : s'.ports.Ok)
    (hfree : s.ports.used k = false)
    (hused : ∀ n, s'.ports.used n = (decide (k = n) || s.ports.used n))
    (hholds : ∀ x n, s'.HoldsNumber x n ↔ s.HoldsNumber x n ∨ (x = y ∧ n = k))
    (htimed : ∀ m n, n ∈ (s'.managers m).createdTimestampMap →
      n ∈ (s.managers m).createdTimestampMap) :
    s'.Numbers ∧ (s.NumbersAgree → s'.NumbersAgree) := by
  have hnew : ∀ x, ¬ s.HoldsNumber x k := fun x hx => by
    have := h.used x k hx
    rw [hfree] at this
    cases this
  have h' : s'.Numbers := by
    constructor
    · exact hports
    · intro x n hx
      rw [hused, Bool.or_eq_true, decide_eq_true_eq]
      rcases (hholds x n).mp hx with hold | ⟨-, rfl⟩
      · exact .inr (h.used x n hold)
      · exact .inl rfl
    · intro x z n hx hz
      rcases (hholds x n).mp hx with hold | ⟨rfl, rfl⟩
      · rcases (hholds z n).mp hz with hold' | ⟨rfl, rfl⟩
        · exact h.once x z n hold hold'
        · exact (hnew x hold).elim
      · rcases (hholds z _).mp hz with hold' | ⟨rfl, -⟩
        · exact (hnew z hold').elim
        · rfl
    · intro m n hn
      exact (hholds (.manager m) n).mpr (.inl (h.timed m n (htimed m n hn)))
  refine ⟨h', fun hagree => h'.agree_iff.mpr ?_⟩
  intro n hn
  rw [hused, Bool.or_eq_true, decide_eq_true_eq] at hn
  rcases hn with rfl | hn
  · exact ⟨y, (hholds y _).mpr (.inr ⟨rfl, rfl⟩)⟩
  · obtain ⟨x, hx⟩ := h.agree_iff.mp hagree n hn
    exact ⟨x, (hholds x n).mpr (.inl hx)⟩

/-- A number goes from one holder to another. -/
theorem Numbers.hand (h : s.Numbers) {x y : NumberHolder P} {k : Nat}
    (hports : s'.ports = s.ports) (hx : s.HoldsNumber x k)
    (hholds : ∀ z n, s'.HoldsNumber z n ↔
      (s.HoldsNumber z n ∧ ¬ (z = x ∧ n = k)) ∨ (z = y ∧ n = k))
    (htimed : ∀ m n, n ∈ (s'.managers m).createdTimestampMap → (.manager m = y ∧ n = k) ∨
      n ∈ (s.managers m).createdTimestampMap)
    (hxcall : ∀ m, x ≠ .manager m) :
    s'.Numbers ∧ (s.NumbersAgree → s'.NumbersAgree) := by
  have h' : s'.Numbers := by
    constructor
    · rw [hports]
      exact h.ports
    · intro z n hz
      rw [hports]
      rcases (hholds z n).mp hz with ⟨hold, -⟩ | ⟨-, rfl⟩
      · exact h.used z n hold
      · exact h.used x _ hx
    · intro z w n hz hw
      rcases (hholds z n).mp hz with ⟨hold, hne⟩ | ⟨rfl, rfl⟩
      · rcases (hholds w n).mp hw with ⟨hold', -⟩ | ⟨rfl, rfl⟩
        · exact h.once z w n hold hold'
        · exact (hne ⟨h.once z x _ hold hx, rfl⟩).elim
      · rcases (hholds w _).mp hw with ⟨hold', hne⟩ | ⟨rfl, -⟩
        · exact (hne ⟨h.once w x _ hold' hx, rfl⟩).elim
        · rfl
    · intro m n hn
      refine (hholds (.manager m) n).mpr ?_
      rcases htimed m n hn with hnew | hold
      · exact .inr hnew
      · exact .inl ⟨h.timed m n hold, fun heq => hxcall m heq.1.symm⟩
  refine ⟨h', fun hagree => h'.agree_iff.mpr ?_⟩
  intro n hn
  rw [hports] at hn
  obtain ⟨z, hz⟩ := h.agree_iff.mp hagree n hn
  by_cases hzx : z = x ∧ n = k
  · exact ⟨y, (hholds y n).mpr (.inr ⟨rfl, hzx.2⟩)⟩
  · exact ⟨z, (hholds z n).mpr (.inl ⟨hz, hzx⟩)⟩

/-- A holder gives numbers up, which are free afterwards if their bits are cleared. -/
theorem Numbers.drop (h : s.Numbers) (m : Nat) (numbers freed : List Nat) (hports : s'.ports.Ok)
    (hheld : ∀ n ∈ numbers, s.HoldsNumber (.manager m) n)
    (hused : ∀ n, s'.ports.used n = (!decide (n ∈ freed) && s.ports.used n))
    (hfreed : ∀ n ∈ freed, n ∈ numbers)
    (hholds : ∀ x n, s'.HoldsNumber x n ↔ s.HoldsNumber x n ∧ ¬ (x = .manager m ∧ n ∈ numbers))
    (htimed : ∀ m' n, n ∈ (s'.managers m').createdTimestampMap →
      n ∈ (s.managers m').createdTimestampMap ∧ ¬ (m' = m ∧ n ∈ numbers)) :
    s'.Numbers ∧ (s.NumbersAgree → (s'.NumbersAgree ↔ ∀ n ∈ numbers, n ∈ freed)) := by
  have h' : s'.Numbers := by
    constructor
    · exact hports
    · intro x n hx
      obtain ⟨hold, hne⟩ := (hholds x n).mp hx
      rw [hused, Bool.and_eq_true, Bool.not_eq_true', decide_eq_false_iff_not]
      refine ⟨fun hn => hne ⟨?_, hfreed n hn⟩, h.used x n hold⟩
      exact h.once x _ n hold (hheld n (hfreed n hn))
    · intro x y n hx hy
      exact h.once x y n ((hholds x n).mp hx).1 ((hholds y n).mp hy).1
    · intro m' n hn
      obtain ⟨hold, hne⟩ := htimed m' n hn
      refine (hholds (.manager m') n).mpr ⟨h.timed m' n hold, ?_⟩
      rintro ⟨heq, hin⟩
      exact hne ⟨NumberHolder.manager.inj heq, hin⟩
  refine ⟨h', fun hagree => ?_⟩
  rw [h'.agree_iff]
  constructor
  · intro hall n hn
    by_contra hkept
    -- nobody holds a number any more whose bit has stayed set
    obtain ⟨x, hx⟩ := hall n (by simpa [hused, hkept] using h.used _ n (hheld n hn))
    obtain ⟨hold, hne⟩ := (hholds x n).mp hx
    exact hne ⟨h.once x _ n hold (hheld n hn), hn⟩
  · intro hall n hn
    rw [hused, Bool.and_eq_true, Bool.not_eq_true', decide_eq_false_iff_not] at hn
    obtain ⟨x, hx⟩ := h.agree_iff.mp hagree n hn.2
    exact ⟨x, (hholds x n).mpr ⟨hx, fun hin => hn.1 (hall n hin.2)⟩⟩

/-- A step that leaves bitmap and holders alone gives nothing up. -/
theorem Numbers.same (h : s.Numbers) (hports : s'.ports = s.ports)
    (hholds : ∀ x n, s'.HoldsNumber x n ↔ s.HoldsNumber x n)
    (htimed : ∀ m n, n ∈ (s'.managers m).createdTimestampMap →
      n ∈ (s.managers m).createdTimestampMap) :
    s'.Numbers ∧ (s.NumbersAgree → s'.NumbersAgree) := by
  have hdrop := h.drop 0 [] [] (hports ▸ h.ports) (by simp) (by simp [hports]) (by simp)
    (by simpa using hholds) (by simpa using htimed)
  exact ⟨hdrop.1, fun ha => (hdrop.2 ha).mpr (by simp)⟩

/-- Any step of a call, in which it neither gets a number nor makes its vector. -/
theorem Numbers.setPc [DecidableEq P] (h : s.Numbers) (p : P) (pc : InitPc)
    (hold : ∀ n, (s.calls p).pc ≠ .issued n) (hnew : ∀ n, pc ≠ .issued n)
    (hports : s'.ports = s.ports)
    (hpc : ∀ q, (s'.calls q).pc = if q = p then pc else (s.calls q).pc)
    (hvec : ∀ m n, ((s'.managers m).vec n).isSome = ((s.managers m).vec n).isSome)
    (htimed : ∀ m, (s'.managers m).createdTimestampMap = (s.managers m).createdTimestampMap) :
    s'.Numbers ∧ (s.NumbersAgree → s'.NumbersAgree) := by
  refine h.same hports ?_ ?_
  · intro x n
    cases x with
    | manager m => simp [HoldsNumber, hvec]
    | call q =>
      simp only [HoldsNumber, hpc]
      split
      · rename_i hq
        subst hq
        exact ⟨fun heq => (hnew n heq).elim, fun heq => (hold n heq).elim⟩
      · rfl
  · intro m n hn
    rwa [htimed] at hn

end

/-! ## A step -/

section

variable {s s' : Server P}

/-- An `IOManager` gives up numbers that are in its maps. -/
theorem Numbers.takeOut (h : s.Numbers) {m : Nat} {io : IoManager P} (numbers freed : List Nat)
    (hmanagers : s'.managers = (s.setManager m io).managers) (hcalls : s'.calls = s.calls)
    (hheld : ∀ n ∈ numbers, s.HoldsNumber (.manager m) n)
    (hvec : ∀ n, io.vec n = if n ∈ numbers then none else (s.managers m).vec n)
    (htimed : ∀ n, n ∈ io.createdTimestampMap →
      n ∉ numbers ∧ n ∈ (s.managers m).createdTimestampMap)
    (hports : s'.ports.Ok) (hused : ∀ n, s'.ports.used n = (!decide (n ∈ freed) && s.ports.used n))
    (hfreed : ∀ n ∈ freed, n ∈ numbers) :
    s'.Numbers ∧ (s.NumbersAgree → (s'.NumbersAgree ↔ ∀ n ∈ numbers, n ∈ freed)) := by
  refine h.drop m numbers freed hports hheld hused hfreed ?_ ?_
  · intro x n
    cases x with
    | manager m' =>
      simp only [HoldsNumber, hmanagers, setManager_managers, NumberHolder.manager.injEq]
      split
      · rename_i hm
        rw [hvec, hm]
        split
        · rename_i hn
          simp [hn]
        · rename_i hn
          simp [hn]
      · rename_i hm
        simp [hm]
    | call q => simp [HoldsNumber, hcalls]
  · intro m' n hn
    rw [hmanagers, setManager_managers] at hn
    split at hn
    · rename_i hm
      subst hm
      obtain ⟨hkept, hold⟩ := htimed n hn
      exact ⟨hold, fun hin => hkept hin.2⟩
    · rename_i hm
      exact ⟨hn, fun hin => hm hin.1⟩

theorem Numbers.accept (h : s.Numbers) {m num n : Nat} {vec : List (Option P)}
    (hfound : (s.managers m).complete num = some (n, vec))
    (hport : s.ports.freeUsedPort n = .ok s'.ports)
    (hmanagers : s'.managers = (s.setManager m ((s.managers m).remove n)).managers)
    (hcalls : s'.calls = s.calls) :
    s'.Numbers ∧ (s.NumbersAgree → s'.NumbersAgree) := by
  obtain ⟨hvec, -⟩ := IoManager.complete_eq_some hfound
  have hheld : s.HoldsNumber (.manager m) n := by simp [HoldsNumber, hvec]
  obtain ⟨ports, hport', hok, hused⟩ := Ports.freeUsedPort_ok h.ports (h.used _ n hheld)
  obtain rfl : ports = s'.ports := Except.ok.inj (hport'.symm.trans hport)
  have hdrop := h.takeOut [n] [n] hmanagers hcalls (by simpa using hheld)
    (by simp [IoManager.vec_remove, eq_comm]) (by simp [IoManager.timed_remove, eq_comm])
    hok (by simpa [eq_comm] using hused) (by simp)
  exact ⟨hdrop.1, fun hagree => (hdrop.2 hagree).mpr fun _ hk => hk⟩

theorem Numbers.clear (h : s.Numbers) (m : Nat) (force : Bool) (timestamp : BitVec 32) :
    (s.cleared m ((s.managers m).clearPadoIo force timestamp)).Numbers ∧
      (s.NumbersAgree →
        ((s.cleared m ((s.managers m).clearPadoIo force timestamp)).NumbersAgree ↔
          s.clearsNothing (.clear m force timestamp) = true)) := by
  obtain ⟨-, htime, -⟩ := (s.managers m).clearPadoIo_eq force timestamp
  have hheld : ∀ n ∈ (s.managers m).oldNumbers force timestamp, s.HoldsNumber (.manager m) n :=
    fun n hn => h.timed m n (IoManager.mem_oldNumbers hn)
  -- no bit is cleared
  have hdrop : (s.cleared m ((s.managers m).clearPadoIo force timestamp)).Numbers ∧
      (s.NumbersAgree → ((s.cleared m ((s.managers m).clearPadoIo force timestamp)).NumbersAgree ↔
        ∀ n ∈ (s.managers m).oldNumbers force timestamp, n ∈ [])) :=
    h.takeOut _ [] rfl rfl hheld (IoManager.vec_clearPadoIo _ force timestamp)
      (fun n hn => by rwa [htime, IoManager.timed_clearNumbers] at hn) h.ports
      (by simp [cleared]) (by simp)
  refine ⟨hdrop.1, fun hagree => (hdrop.2 hagree).trans ?_⟩
  simp [clearsNothing, List.eq_nil_iff_forall_not_mem]

end

variable [DecidableEq P] {s s' : Server P}

theorem CanFail.not_issued {pc : InitPc} (h : CanFail pc) (n : Nat) : pc ≠ .issued n := by
  rintro rfl
  exact h

theorem Numbers.issue (h : s.Numbers) {p : P} {n : Nat}
    (hpc : (s.calls p).pc = .hasNumber 0) (hport : s.ports.getUnusedPort = some (n, s'.ports))
    (hmanagers : s'.managers = s.managers) (hcalls : s'.calls = (s.setPc p (.issued n)).calls) :
    s'.Numbers ∧ (s.NumbersAgree → s'.NumbersAgree) := by
  obtain ⟨hok, -, -, hfree, hused⟩ := Ports.getUnusedPort_some h.ports hport
  refine h.add (y := .call p) hok hfree hused ?_ ?_
  · intro x k
    cases x with
    | manager m => simp [HoldsNumber, hmanagers]
    | call q =>
      simp only [HoldsNumber, hcalls, setPc_pc, NumberHolder.call.injEq]
      split
      · rename_i hq
        subst hq
        simp [hpc, eq_comm]
      · rename_i hq
        simp [hq]
  · intro m k hk
    rwa [hmanagers] at hk

theorem Numbers.create (h : s.Numbers) {num n : Nat} {p : P} (timestamp : BitVec 32)
    (hpc : (s.calls p).pc = .issued n) {m : Nat} :
    ((s.setManager m ((s.managers m).createGroup num n timestamp)).setPc p (.created n)).Numbers ∧
      (s.NumbersAgree → ((s.setManager m
        ((s.managers m).createGroup num n timestamp)).setPc p (.created n)).NumbersAgree) := by
  refine h.hand (x := .call p) (y := .manager m) rfl hpc ?_ ?_ (by simp)
  · intro x k
    cases x with
    | manager m' =>
      simp only [HoldsNumber, setPc_managers, setManager_managers, NumberHolder.manager.injEq]
      split
      · rename_i hm
        rw [IoManager.vec_createGroup, hm]
        by_cases hk : k = n
        · simp [hk]
        · simp [hk, Ne.symm hk]
      · rename_i hm
        simp [hm]
    | call q =>
      simp only [HoldsNumber, setPc_pc, setManager_calls, NumberHolder.call.injEq]
      split
      · rename_i hq
        subst hq
        simp [hpc, eq_comm]
      · rename_i hq
        simp [hq]
  · intro m' k hk
    simp only [setPc_managers, setManager_managers] at hk
    split at hk
    · rename_i hm
      rw [IoManager.timed_createGroup, ← hm] at hk
      exact hk.imp (fun heq => ⟨by rw [hm], heq.symm⟩) id
    · exact .inr hk

theorem Numbers.insert (h : s.Numbers) {n i : Nat} {p : P} {io : IoManager P}
    (hpc : (s.calls p).pc = .number n i) {m : Nat} (hput : (s.managers m).put n i p = .ok io) :
    ((s.setManager m io).setPc p (.inserted n i)).Numbers ∧
      (s.NumbersAgree → ((s.setManager m io).setPc p (.inserted n i)).NumbersAgree) := by
  obtain ⟨vec, hvec, -, htime, hput⟩ := IoManager.put_eq_ok hput
  refine h.setPc p (.inserted n i) (by simp [hpc]) (by simp) rfl (by simp) ?_ ?_
  · intro m' k
    simp only [setPc_managers, setManager_managers]
    split
    · rename_i hm
      rw [hm, hput]
      split
      · rename_i hk
        rw [← hk, hvec]
        rfl
      · rfl
    · rfl
  · intro m'
    simp only [setPc_managers, setManager_managers]
    split
    · rename_i hm
      rw [hm, htime]
    · rfl

/-- **One step.** -/
theorem Numbers.step {num : Nat} {e : ServerEvent P} (h : s.Numbers)
    (hstep : s.step num e = some (.ok s')) :
    s'.Numbers ∧ (s.NumbersAgree → (s'.NumbersAgree ↔ s.clearsNothing e = true)) := by
  have hkeep : ∀ {a b : Prop}, a ∧ (s.NumbersAgree → b) →
      a ∧ (s.NumbersAgree → (b ↔ true = true)) := fun hab => ⟨hab.1, fun ha => by simp [hab.2 ha]⟩
  cases step_moves hstep with
  | @listen m p timestamp hpc =>
    exact hkeep (h.setPc p .start (by simp [hpc]) (by simp) rfl (by simp) (by simp) (by simp))
  | @recvHasNumber p i hpc hlt =>
    exact hkeep (h.setPc p (.hasNumber i) (by simp [hpc]) (by simp) rfl (by simp) (by simp)
      (by simp))
  | @recvNumber p n i hpc hpos hlt =>
    exact hkeep (h.setPc p (.number n i) (by simp [hpc]) (by simp) rfl (by simp) (by simp)
      (by simp))
  | @sendNumber p n hpc =>
    exact hkeep (h.setPc p (.number n 0) (by simp [hpc]) (by simp) rfl (by simp) (by simp)
      (by simp))
  | @fail p hpc =>
    exact hkeep (h.setPc p .failed hpc.not_issued (by simp) rfl (by simp) (by simp) (by simp))
  | issue hpc hport => exact hkeep (h.issue hpc hport rfl rfl)
  | search => exact hkeep ⟨⟨h.ports, h.used, h.once, h.timed⟩, id⟩
  | create hpc => exact hkeep (h.create _ hpc)
  | insert hpc hput => exact hkeep (h.insert hpc hput)
  | accept hfound hport => exact hkeep (h.accept hfound hport rfl rfl)
  | clear => exact h.clear _ _ _

/-- The call with `port_mtx` is in `get_unused_port`, and finds nothing however long it goes
on. -/
def Searching (s : Server P) : Prop :=
  ∀ p, s.portMtx = some p → (s.calls p).pc = .hasNumber 0 ∧
    ∀ rounds, Ports.getUnusedPortLoop rounds s.ports = none

omit [DecidableEq P] in
theorem searching_start : ({} : Server P).Searching := by
  intro p h
  cases h

/-- **One step.** -/
theorem Searching.step {num : Nat} {e : ServerEvent P} (h : s.Searching) (hnum : s.Numbers)
    (hstep : s.step num e = some (.ok s')) : s'.Searching := by
  -- only `get_unused_port` and `accept` touch the bitmap, and both need the lock
  have hkeep (q : P) (pc : InitPc) (hq : (s.calls q).pc ≠ .hasNumber 0)
      (hmtx : s'.portMtx = s.portMtx) (hports : s'.ports = s.ports)
      (hcalls : ∀ p, (s'.calls p).pc = if p = q then pc else (s.calls p).pc) : s'.Searching := by
    intro p hp
    rw [hmtx] at hp
    obtain ⟨hpc, hsearch⟩ := h p hp
    have hne : p ≠ q := by
      rintro rfl
      exact hq hpc
    exact ⟨by rw [hcalls, if_neg hne, hpc], hports ▸ hsearch⟩
  cases step_moves hstep with
  | @listen m q timestamp hpc => exact hkeep q .start (by simp [hpc]) rfl rfl (by simp)
  | @recvHasNumber q i hpc hlt => exact hkeep q (.hasNumber i) (by simp [hpc]) rfl rfl (by simp)
  | @recvNumber q n i hpc hpos hlt =>
    exact hkeep q (.number n i) (by simp [hpc, hpos]) rfl rfl (by simp)
  | @create q n hpc => exact hkeep q (.created n) (by simp [hpc]) rfl rfl (by simp)
  | @sendNumber q n hpc => exact hkeep q (.number n 0) (by simp [hpc]) rfl rfl (by simp)
  | @insert q n i io hpc hput => exact hkeep q (.inserted n i) (by simp [hpc]) rfl rfl (by simp)
  | @fail q hpc =>
    refine hkeep q .failed ?_ rfl rfl (by simp)
    intro hq
    rw [hq] at hpc
    exact hpc
  | @search q hpc hport hmtx =>
    intro p hp
    cases hp
    exact ⟨hpc, Ports.getUnusedPortLoop_stuck hnum.ports fun n hpos hlt =>
      Ports.getUnusedPort_none hnum.ports hport hpos hlt⟩
  | @issue q n ports hpc hport hmtx =>
    intro p hp
    rw [setPc_portMtx, hmtx] at hp
    cases hp
  | @accept m num' n vec ports hfound hport hmtx =>
    intro p hp
    rw [setManager_portMtx, hmtx] at hp
    cases hp
  | clear => exact h

/-- **Group numbers do not leak**, in every state of a run, if and only if no
`clear_pado_io` of the run finds a group to clear. -/
theorem numbers_agree_iff (num : Nat) (es : List (ServerEvent P))
    (hrun : ((machine P num).run es).isSome) :
    (∀ es' s, es' <+: es → (machine P num).run es' = some (.ok s) → s.NumbersAgree) ↔
      (((machine P num).restrict (whereOk clearsNothing)).run es).isSome := by
  refine fallible_restrict_run_iff Numbers NumbersAgree numbers_start agree_start ?_ ?_ ?_ hrun
  · intro s e s' hs hstep
    exact (hs.step hstep).1
  · intro s e s' hs hagree hstep
    exact (hs.step hstep).2 hagree
  · intro s e f hs hagree hstep
    cases e with
    | clear m force timestamp => cases hstep
    | _ => rfl

/-- One client whose group is accepted. -/
theorem numbers_agree_iff_accepted :
    let es : List (ServerEvent Nat) := [.listen 0 7 0, .listen 0 8 0, .recvHasNumber 7 0, .issue 7,
      .create 7, .sendNumber 7, .recvHasNumber 8 1, .insert 7, .recvNumber 8 1, .insert 8,
      .accept 0 2, .clear 0 false 601]
    ∃ s, (machine Nat 2).run es = some (.ok s) ∧ s.NumbersAgree := by
  intro es
  exact ⟨_, rfl, (numbers_agree_iff 2 es rfl).mpr rfl es _ (List.prefix_refl es) rfl⟩

/-- A client that goes away before its second connection: the clean-up deletes its group,
and the number stays taken. -/
theorem cleared_number_leaks :
    ¬ ∀ es s, (machine Nat 2).run es = some (.ok s) → s.NumbersAgree := by
  intro hall
  have hagree := hall [.listen 0 7 0, .recvHasNumber 7 0, .issue 7, .create 7, .sendNumber 7,
    .insert 7, .clear 0 true 5] _ rfl
  obtain ⟨x, hx⟩ := (hagree.1 1).mp rfl
  cases x with
  | manager m =>
    cases m with
    | zero => cases hx
    | succ m => cases hx
  | call p =>
    simp only [HoldsNumber, cleared, setManager_calls, setPc_pc, startCall_pc] at hx
    split at hx <;> cases hx

end Server

end ZktlsNet
