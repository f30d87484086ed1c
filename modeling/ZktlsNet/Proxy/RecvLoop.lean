import ZktlsNet.Proxy.Receive

/-!
# The end of the receive thread (`proxy_client.cpp:209-228`,
`proxy_client.cpp:322-345`, `proxy_client.cpp:718-748`)

`do_recv` returns -1 for a call that failed, and leaves the reason in `errno`; it also
returns -1 when its wait was cancelled or the connection is closed, and then `errno`
is what an earlier answer has left there. `process_recv` tries again if that is
`EAGAIN` or `EINTR`. Its sibling `process_send` leaves its loop when a wait was
cancelled.

- `Ending`, `Spinning`: the two ways the loop can go on when no more answers come.
- `processRecv_ends_iff`: it ends exactly if `errno` is another one, and nothing that
  nobody cancels is waited for.
-/

namespace ZktlsNet

open NetLib

namespace RecvSide

/-- Nothing more is to come: the waits are cancelled, or one of the flags is set. -/
def Over (s : RecvSide) : Prop := s.waitOperationCompleted = false ∨ s.closed = true

/-- The event is not an answer. -/
def RecvThreadEvent.silent : RecvThreadEvent → Bool
  | .answer _ => false
  | _ => true

/-- The thread has left its loop, and says so in both contexts. -/
structure Ended (s : RecvSide) : Prop where
  pc : s.pc = .exited
  recvZero : s.recvZero = true
  inner : s.recvCtx.recvZero = true

/-- The thread is in its loop, will not wait for what does not come, and the -1 that it
gets is taken for `again` or not. -/
structure Running (again : Bool) (s : RecvSide) : Prop where
  pc : s.pc ≠ .exited
  shut : s.Over
  cancelled : s.pc = .wait → s.waitOperationCompleted = false
  errno : ProxyClientCtx.tryAgain s.errno = again

/-- A -1 ends the loop, or is tried again. -/
theorem processRecv_neg_one (s : RecvSide) :
    s.processRecv (-1) = .ok (
      if ProxyClientCtx.tryAgain s.errno then { s with pc := .loop }
      else { s with
        recvCtx := setRecvProxyCtx s.recvCtx false, recvZero := true, pc := .exited }) := by
  unfold processRecv
  cases ProxyClientCtx.tryAgain s.errno <;> rfl

/-- What the others do, without an answer, leaves the thread where it is. -/
theorem Running.others {again : Bool} {s s' : RecvSide} (h : Running again s) {e : RecvThreadEvent}
    (hsilent : e.silent = true) (hne : e ≠ .thread) (hact : s.act e = .ok s') :
    Running again s' ∧ s'.pc = s.pc := by
  obtain ⟨hpc, hover, hcancelled, herrno⟩ := h
  cases e with
  | thread => exact absurd rfl hne
  | answer data => cases hsilent
  | cancel =>
    cases hact
    exact ⟨⟨hpc, .inl rfl, fun _ => rfl, herrno⟩, rfl⟩
  | close inner =>
    cases inner <;> cases hact
    · exact ⟨⟨hpc, .inr rfl, hcancelled, herrno⟩, rfl⟩
    · exact ⟨⟨hpc, .inr (Bool.or_true _), hcancelled, herrno⟩, rfl⟩
  | read len =>
    obtain ⟨innerCtx, -, hrest⟩ := bind_eq_ok hact
    cases hrest
    exact ⟨⟨hpc, hover, hcancelled, herrno⟩, rfl⟩

/-- A step of the thread itself. -/
theorem Running.thread {again : Bool} {s : RecvSide} (h : Running again s) :
    s.enabled .thread = true ∧ ∃ s', s.act .thread = .ok s' ∧
      ((Running again s' ∧ s.pc = .loop ∧ s'.pc = .wait) ∨
        if again then Running again s' ∧ s'.pc = .loop else Ended s') := by
  obtain ⟨hpc, hover, hcancelled, herrno⟩ := h
  have hneg := s.processRecv_neg_one
  rw [herrno] at hneg
  have hends : ∃ s', s.processRecv (-1) = .ok s' ∧
      if again then Running again s' ∧ s'.pc = .loop else Ended s' := by
    cases again with
    | true => exact ⟨_, hneg, ⟨by simp, hover, by simp, herrno⟩, rfl⟩
    | false => exact ⟨_, hneg, rfl, rfl, rfl⟩
  obtain ⟨s', hs', hends⟩ := hends
  cases hloop : s.pc with
  | loop =>
    refine ⟨by simp [enabled, hloop], ?_⟩
    by_cases hclosed : s.closed = true
    · exact ⟨s', by simp only [act, hloop, hclosed, if_true, hs'], .inr hends⟩
    · -- the call is made, and its wait is cancelled already
      have hcancel := hover.resolve_right hclosed
      exact ⟨{ s with pc := .wait }, by simp only [act, hloop, hclosed]; rfl,
        .inl ⟨⟨by simp, .inl hcancel, fun _ => hcancel, herrno⟩, rfl, rfl⟩⟩
  | wait => exact ⟨by simp [enabled, hloop, hcancelled hloop],
      s', by simp only [act, hloop, hs'], .inr hends⟩
  | exited => exact absurd hloop hpc

/-! ## Runs without answers -/

theorem Ended.act {s s' : RecvSide} (h : Ended s) {e : RecvThreadEvent} (hsilent : e.silent = true)
    (hact : s.act e = .ok s') : Ended s' := by
  obtain ⟨hpc, hzero, hinner⟩ := h
  cases e with
  | thread =>
    simp only [RecvSide.act, hpc] at hact
    cases hact
    exact ⟨hpc, hzero, hinner⟩
  | answer data => cases hsilent
  | cancel =>
    cases hact
    exact ⟨hpc, hzero, hinner⟩
  | close inner =>
    cases inner <;> cases hact
    · exact ⟨hpc, rfl, hinner⟩
    · exact ⟨hpc, hzero, rfl⟩
  | read len =>
    obtain ⟨innerCtx, -, hrest⟩ := bind_eq_ok hact
    cases hrest
    exact ⟨hpc, hzero, hinner⟩

theorem Ended.run {junk : ThreadBuffer} {es : List RecvThreadEvent} {s t : RecvSide} (h : Ended s)
    (hsilent : ∀ e ∈ es, e.silent = true)
    (hrun : (machine junk).runFrom (.ok s) es = some (.ok t)) : Ended t := by
  induction es generalizing s with
  | nil =>
    cases hrun
    exact h
  | cons e es ih =>
    obtain ⟨s', -, hact, hrest⟩ := checked_runFrom_cons hrun
    exact ih (h.act (hsilent e (List.mem_cons_self ..)) hact)
      (fun e he => hsilent e (List.mem_cons_of_mem _ he)) hrest

/-- How many steps the thread still makes in its round. -/
def stepsLeft (s : RecvSide) : Nat := if s.pc = .loop then 2 else 1

/-- **The loop ends**: when `errno` is none of the two, the thread has left its loop after
two of its steps, whatever the others do. -/
theorem Running.ends {junk : ThreadBuffer} {es : List RecvThreadEvent} {s t : RecvSide}
    (h : Running false s) (hsilent : ∀ e ∈ es, e.silent = true)
    (hrun : (machine junk).runFrom (.ok s) es = some (.ok t)) :
    Ended t ∨ Running false t ∧ es.count .thread < s.stepsLeft := by
  induction es generalizing s with
  | nil =>
    cases hrun
    refine .inr ⟨h, ?_⟩
    unfold stepsLeft
    split <;> decide
  | cons e es ih =>
    obtain ⟨s', hen, hact, hrest⟩ := checked_runFrom_cons hrun
    have hsilent' : ∀ e ∈ es, e.silent = true := fun e he => hsilent e (List.mem_cons_of_mem _ he)
    by_cases hthread : e = .thread
    · subst hthread
      obtain ⟨-, s'', hact', hcases⟩ := h.thread
      obtain rfl := Except.ok.inj (hact'.symm.trans hact)
      rcases hcases with ⟨hrunning, hloop, hwait⟩ | hended
      · refine (ih hrunning hsilent' hrest).imp_right fun ⟨ht, hcount⟩ => ⟨ht, ?_⟩
        simp only [stepsLeft, hwait, hloop, if_true, if_false, reduceCtorEq] at hcount ⊢
        rw [List.count_cons_self]
        omega
      · exact .inl (Ended.run hended hsilent' hrest)
    · obtain ⟨hrunning, hpc⟩ := h.others (hsilent e (List.mem_cons_self ..)) hthread hact
      refine (ih hrunning hsilent' hrest).imp_right fun ⟨ht, hcount⟩ => ⟨ht, ?_⟩
      rw [List.count_cons_of_ne hthread]
      simpa only [stepsLeft, hpc] using hcount

/-- **The loop spins**: otherwise the thread goes round as often as it is let. -/
theorem Running.spins {s : RecvSide} (h : Running true s) (junk : ThreadBuffer) (n : Nat) :
    ∃ t, (machine junk).runFrom (.ok s) (List.replicate n .thread) = some (.ok t) ∧
      Running true t := by
  induction n generalizing s with
  | zero => exact ⟨s, rfl, h⟩
  | succ n ih =>
    obtain ⟨hen, s', hact, hcases⟩ := h.thread
    have hrunning : Running true s' := by
      rcases hcases with ⟨hrunning, -⟩ | ⟨hrunning, -⟩ <;> exact hrunning
    obtain ⟨t, hrun, ht⟩ := ih hrunning
    refine ⟨t, ?_, ht⟩
    rw [List.replicate_succ]
    exact checked_runFrom_of_act hen hact hrun

/-! ## Every history -/

/-- A round of the loop ends at its top, or sets both flags. -/
theorem ended_of_processRecv {s s' : RecvSide} {ret : Int} (h : s.processRecv ret = .ok s')
    (hpc : s'.pc = .exited) : Ended s' := by
  by_cases hret : ret ≤ 0
  · rw [processRecv, if_pos hret] at h
    split at h <;> cases h
    · cases hpc
    · exact ⟨rfl, rfl, rfl⟩
  · rw [s.processRecv_of_pos (not_le.mp hret)] at h
    obtain ⟨recvCtx, -, hrest⟩ := bind_eq_ok h
    cases hrest
    cases hpc

/-- A thread that has left its loop says so, whatever its answers were. -/
theorem ended_of_act {s s' : RecvSide} (h : s.pc = .exited → Ended s) {e : RecvThreadEvent}
    (hact : s.act e = .ok s') (hpc : s'.pc = .exited) : Ended s' := by
  cases e with
  | thread =>
    cases hloop : s.pc with
    | loop =>
      simp only [RecvSide.act, hloop] at hact
      split at hact
      · exact ended_of_processRecv hact hpc
      · cases hact
        cases hpc
    | wait =>
      simp only [RecvSide.act, hloop] at hact
      exact ended_of_processRecv hact hpc
    | exited =>
      simp only [RecvSide.act, hloop] at hact
      cases hact
      exact h hloop
  | answer data =>
    obtain ⟨⟨ret, s₁⟩, -, hrest⟩ := bind_eq_ok hact
    obtain ⟨s₂, hproc, hrest⟩ := bind_eq_ok hrest
    cases hrest
    obtain ⟨-, hzero, hinner⟩ := ended_of_processRecv hproc hpc
    exact ⟨hpc, hzero, hinner⟩
  | cancel =>
    refine (h ?_).act rfl hact
    cases hact
    exact hpc
  | close inner =>
    refine (h ?_).act rfl hact
    cases inner <;> cases hact <;> exact hpc
  | read len =>
    refine (h ?_).act rfl hact
    obtain ⟨innerCtx, -, hrest⟩ := bind_eq_ok hact
    cases hrest
    exact hpc

/-- The loop of the thread ends after finitely many steps: in every run from here on in
which no answer comes, the thread has left its loop, with both flags set, or has made
less than so many steps and can make its next one. -/
def Ends (junk : ThreadBuffer) (s : RecvSide) : Prop :=
  ∃ n, ∀ es t, (∀ e ∈ es, e.silent = true) →
    (machine junk).runFrom (.ok s) es = some (.ok t) →
    Ended t ∨ t.enabled .thread = true ∧ es.count .thread < n

theorem Ended.loop_ends {s : RecvSide} (h : Ended s) (junk : ThreadBuffer) : Ends junk s :=
  ⟨0, fun _ _ hsilent hrun => .inl (h.run hsilent hrun)⟩

theorem Running.loop_ends {s : RecvSide} (h : Running false s) (junk : ThreadBuffer) :
    Ends junk s := by
  refine ⟨2, fun es t hsilent hrun => ?_⟩
  rcases h.ends hsilent hrun with hended | ⟨ht, hcount⟩
  · exact .inl hended
  · refine .inr ⟨ht.thread.1, ?_⟩
    unfold stepsLeft at hcount
    split at hcount <;> omega

theorem Running.loop_not_ends {s : RecvSide} (h : Running true s) (junk : ThreadBuffer) :
    ¬ Ends junk s := by
  rintro ⟨n, hends⟩
  obtain ⟨t, hrun, ht⟩ := h.spins junk n
  rcases hends _ t (by simp [RecvThreadEvent.silent]) hrun with hended | ⟨-, hcount⟩
  · exact absurd hended.pc ht.pc
  · simp at hcount

/-- A thread that waits for an answer does not end if none comes. -/
theorem not_ends_of_wait {s : RecvSide} (hwait : s.pc = .wait)
    (hcompleted : s.waitOperationCompleted = true) (junk : ThreadBuffer) : ¬ Ends junk s := by
  rintro ⟨n, hends⟩
  rcases hends [] s (by simp) rfl with hended | ⟨hen, -⟩
  · cases hwait.symm.trans hended.pc
  · simp [enabled, hwait, hcompleted] at hen

/-- The condition: the loop is over, or the -1 of a wait that ends without an answer ends
the loop, and such a wait does end. -/
def endsNext (s : RecvSide) : Bool :=
  s.pc = .exited || !ProxyClientCtx.tryAgain s.errno && !(s.pc = .wait && s.waitOperationCompleted)

/-- **The end of the receive thread.** After any history of answers, when the waits are
cancelled or a flag is set and no answer comes any more, the loop ends exactly if the
`errno` that the history has left is neither `EAGAIN` nor `EINTR` and the thread is not
in a wait that nobody has cancelled. -/
theorem processRecv_ends_iff {junk : ThreadBuffer} {es : List RecvThreadEvent} {s : RecvSide}
    (hrun : (machine junk).run es = some (.ok s)) (hover : s.Over) :
    Ends junk s ↔ s.endsNext = true := by
  have hexited : s.pc = .exited → Ended s := checked_runFrom_invariant
    (fun t => t.pc = .exited → Ended t) (fun _ _ _ ht _ hact => ended_of_act ht hact)
    (fun h => by cases h) hrun
  by_cases hpc : s.pc = .exited
  · exact iff_of_true ((hexited hpc).loop_ends junk) (by simp [endsNext, hpc])
  · by_cases hwaits : s.pc = .wait ∧ s.waitOperationCompleted = true
    · exact iff_of_false (not_ends_of_wait hwaits.1 hwaits.2 junk) (by simp [endsNext, hwaits])
    · have hcancelled : s.pc = .wait → s.waitOperationCompleted = false := fun hwait =>
        Bool.eq_false_iff.mpr fun htrue => hwaits ⟨hwait, htrue⟩
      have hrunning : Running (ProxyClientCtx.tryAgain s.errno) s := ⟨hpc, hover, hcancelled, rfl⟩
      cases hagain : ProxyClientCtx.tryAgain s.errno with
      | true =>
        rw [hagain] at hrunning
        exact iff_of_false (hrunning.loop_not_ends junk) (by simp [endsNext, hpc, hagain])
      | false =>
        rw [hagain] at hrunning
        have hawake : (decide (s.pc = .wait) && s.waitOperationCompleted) = false := by
          simpa using hcancelled
        refine iff_of_true (hrunning.loop_ends junk) ?_
        rw [endsNext, hagain, hawake]
        simp

/-- A thread whose first wait is cancelled. -/
theorem processRecv_ends_iff_first :
    Ends zeroed { new zeroed with pc := .wait, waitOperationCompleted := false } := by
  have hrun : (machine zeroed).run [.thread, .cancel] =
      some (.ok { new zeroed with pc := .wait, waitOperationCompleted := false }) := rfl
  exact (processRecv_ends_iff hrun (.inl rfl)).mpr (by decide)

/-- An answer with `ret` -1 and `errno_` `EAGAIN`. -/
def againAnswer : Bytes := [1, 0, 0, 0, 255, 255, 255, 255, 11, 0, 0, 0]

/-- The thread after this answer, and after `cancel_wait_for_call_result`. -/
def cancelledAgain : RecvSide :=
  { new zeroed with waitOperationCompleted := false, errno := 11, answers := [againAnswer] }

/-- It goes round for ever, and the destructor waits for it: no call is answered any more,
and every time the -1 of the cancelled wait is taken for the `EAGAIN` of the answer. -/
theorem cancelled_again_spins :
    (machine zeroed).run [.thread, .answer againAnswer, .cancel] = some (.ok cancelledAgain) ∧
    cancelledAgain.Over ∧
    ∀ n, ∃ t, (machine zeroed).runFrom (.ok cancelledAgain) (List.replicate n .thread) =
      some (.ok t) ∧ t.pc ≠ .exited := by
  refine ⟨rfl, .inl rfl, fun n => ?_⟩
  have hrunning : Running true cancelledAgain := ⟨by decide, .inl rfl, by decide, by decide⟩
  obtain ⟨t, hrun, ht⟩ := hrunning.spins zeroed n
  exact ⟨t, hrun, ht.pc⟩

end RecvSide

end ZktlsNet
