import ZktlsNet.Proxy.Receive

/-!
# Waiting for bytes (`proxy_client.cpp:283-303`, `proxy_client.cpp:324-345`,
`proxy_client.cpp:703-708`, `proxy_client.h:204-207`)

`send3` starts a new count of the bytes that arrive, and `WaitForBytes` waits until the
count is at what `SetWaitBytes` asked for. The receive thread stores bytes in one
section under a lock and counts them in another; a step is one section. Reading the
bytes changes nothing of the count, and is left out.

- `processRecv_eq`: the two sections, one after the other, are what `process_recv` does.
- `Counted`: since a wait was armed no more has been counted than stored.
- `waitForBytes_enough_iff`: a wait ends too early exactly if it can be armed between
  the two sections.
-/

namespace ZktlsNet

open NetLib

/-- What `process_recv` does next: store bytes, count those it has stored, or say that
there will be no more. -/
inductive RecvSection
  | put
  | count (ret : Nat)
  | zero
  | exited
  deriving DecidableEq, Repr

/-- What a wait was armed with: how many bytes were asked for, and how many had been
stored. -/
structure Arming where
  asked : Int
  stored : Nat
  deriving DecidableEq, Repr

/-- `ProxyClientCtx`, as far as bytes are waited for. `WaitForBytes` is `checking` between
its section and its last test; `asked` and `armed` record what `SetWaitBytes` and `send3`
have done. -/
structure WaitBytes where
  side : RecvSide
  minimalBytes : Nat
  needWait : Bool
  waitBytes : Nat
  thread : RecvSection
  checking : Bool
  asked : Int
  armed : Option Arming
  deriving DecidableEq, Repr

namespace WaitBytes

def new (buf : ThreadBuffer) : WaitBytes where
  side := RecvSide.new buf
  minimalBytes := 0
  needWait := false
  waitBytes := 0
  thread := .put
  checking := false
  asked := 0
  armed := none

/-- The number of bytes in the receive queue, read or not. -/
def stored (s : WaitBytes) : Nat := s.side.appended.length

/-! ## Sections -/

/-- `PutToRecvProxyCtx` in `process_recv`, of the bytes that `do_recv` has returned. -/
def put (s : WaitBytes) (buf : ThreadBuffer) (ret : Nat) : Res WaitBytes := do
  let recvCtx ← putToRecvProxyCtx s.side.recvCtx buf.bytes ret
  return { s with side := { s.side with buf := buf, recvCtx := recvCtx }, thread := .count ret }

/-- `OnRecvBytes` in `process_recv`. -/
def count (s : WaitBytes) (ret : Nat) : WaitBytes :=
  { s with side := s.side.onRecvBytes ret, thread := .put }

/-- `SetRecvProxyCtx` in `process_recv`. -/
def shut (s : WaitBytes) : WaitBytes :=
  { s with
    side := { s.side with recvCtx := setRecvProxyCtx s.side.recvCtx false },
    thread := .zero }

/-- The last section of `process_recv`. -/
def zero (s : WaitBytes) : WaitBytes :=
  { s with side := { s.side with recvZero := true }, thread := .exited }

/-- `SetWaitBytes`. -/
def setWaitBytes (s : WaitBytes) (waitBytes : Int) : WaitBytes :=
  { s with needWait := true, waitBytes := toUInt64 waitBytes, asked := waitBytes }

/-- The section of `send3`, which arms a wait if one was asked for. -/
def send3 (s : WaitBytes) : WaitBytes :=
  if s.needWait then
    { s with
      side := { s.side with recvBytes := 0 },
      minimalBytes := s.waitBytes,
      needWait := false,
      armed := some ⟨s.asked, s.stored⟩ }
  else s

/-- The loop condition of `WaitForBytes`. -/
def waiting (s : WaitBytes) : Bool :=
  !s.side.recvZero && decide (s.side.recvBytes < s.minimalBytes)

/-- The last test of `WaitForBytes`, without the lock. -/
def waitForBytes (s : WaitBytes) : Res Unit :=
  if s.side.recvBytes < s.minimalBytes then
    .error (.thrown ⟨.networkError, "peer close while wait for bytes"⟩)
  else .ok ()

/-! ## Steps -/

/-- The sections: those of the receive thread, which `do_recv` gives bytes or ends; that
of a callback of the connection, which closes; and those of the other side. -/
inductive WaitEvent
  | put (buf : ThreadBuffer) (ret : Nat)
  | count
  | shut
  | zero
  | close
  | setWaitBytes (waitBytes : Int)
  | send3
  | wait
  | check
  deriving DecidableEq, Repr

def enabled (s : WaitBytes) : WaitEvent → Bool
  | .put _ ret => s.thread = .put && decide (0 < ret)
  | .count => match s.thread with
    | .count _ => true
    | _ => false
  | .shut => s.thread = .put
  | .zero => s.thread = .zero
  | .close => true
  | .setWaitBytes waitBytes => decide (-2 ^ 31 ≤ waitBytes) && decide (waitBytes < 2 ^ 31)
  | .send3 => true
  | .wait => !s.checking && !s.waiting
  | .check => s.checking

def act (s : WaitBytes) : WaitEvent → Res WaitBytes
  | .put buf ret => s.put buf ret
  | .count => match s.thread with
    | .count ret => .ok (s.count ret)
    | _ => .ok s
  | .shut => .ok s.shut
  | .zero => .ok s.zero
  | .close => .ok { s with side := { s.side with recvZero := true } }
  | .setWaitBytes waitBytes => .ok (s.setWaitBytes waitBytes)
  | .send3 => .ok s.send3
  | .wait => .ok { s with checking := true }
  | .check => .ok { s with checking := false }

/-- Both sides under any interleaving; `junk` is in the buffer of the thread at first. -/
def machine (junk : ThreadBuffer) : Machine (Res WaitBytes) WaitEvent :=
  checked (new junk) enabled act

/-- Storing and counting bytes, one after the other, is a round of `process_recv`. -/
theorem processRecv_eq (s : WaitBytes) {ret : Int} (h : 0 < ret) :
    s.side.processRecv ret = do
      let t ← s.put s.side.buf ret.toNat
      return { (t.count ret.toNat).side with pc := .loop } := by
  rw [s.side.processRecv_of_pos h, put, bind_assoc]
  rfl

/-! ## Storing -/

/-- Moving the cursor to a chunk that has its two words does not fault. -/
theorem armInfo_of_words {list : List RecvBuffer} (hw : ∀ b ∈ list, 16 ≤ b.data.length)
    (info : RecvInfo) : ∃ info', armInfo list info = .ok info' := by
  unfold armInfo
  split
  · exact ⟨_, rfl⟩
  · cases list with
    | nil => exact ⟨_, rfl⟩
    | cons b bs =>
      have hb := hw b (List.mem_cons_self ..)
      simp only [RecvBuffer.readId_ok hb, RecvBuffer.readLength_ok hb, ok_bind, pure_eq_ok]
      split <;> exact ⟨_, rfl⟩

/-- Nor does putting one more such chunk into the queue. -/
theorem act_put_of_words {q : RecvQueue} (hw : ∀ b ∈ q.ctx.list, 16 ≤ b.data.length)
    {c : RecvBuffer} (hc : 16 ≤ c.data.length) :
    ∃ q', q.act (.put c) = .ok q' ∧ q'.arrived = q.arrived ++ [c] ∧
      ∀ b ∈ q'.ctx.list, 16 ≤ b.data.length := by
  have hwords : ∀ b ∈ insertById c q.ctx.list, 16 ≤ b.data.length := by
    intro b hb
    rcases mem_insertById.mp hb with rfl | hb
    · exact hc
    · exact hw b hb
  obtain ⟨ctx, hput, hlist⟩ : ∃ ctx, putToRecvCtx q.ctx c = .ok ctx ∧
      ctx.list = insertById c q.ctx.list := by
    rw [putToRecvCtx, insertRecvList_ok hc hw, ok_bind]
    split
    · exact ⟨_, rfl, rfl⟩
    · obtain ⟨info, harm⟩ := armInfo_of_words hwords (q.ctx.info.getD RecvInfo.fresh)
      exact ⟨_, by rw [harm, ok_bind, pure_eq_ok], rfl⟩
  refine ⟨{ q with ctx := ctx, arrived := q.arrived ++ [c] }, ?_, rfl, ?_⟩
  · rw [RecvQueue.act, hput, ok_bind, pure_eq_ok]
  · show ∀ b ∈ ctx.list, 16 ≤ b.data.length
    rw [hlist]
    exact hwords

/-- The bytes of the buffer come behind those that are stored. -/
theorem putToRecvProxyCtx_stores {ctx : RecvProxyCtx}
    (hw : ∀ b ∈ ctx.innerCtx.ctx.list, 16 ≤ b.data.length) {buf : Bytes} {len : Nat}
    (hlen : len ≤ buf.length) :
    ∃ ctx', putToRecvProxyCtx ctx buf len = .ok ctx' ∧
      (∀ b ∈ ctx'.innerCtx.ctx.list, 16 ≤ b.data.length) ∧
      (ctx'.innerCtx.arrived.map RecvBuffer.payload).flatten =
        (ctx.innerCtx.arrived.map RecvBuffer.payload).flatten ++ buf.take len := by
  rw [putToRecvProxyCtx, if_neg (not_lt.mpr hlen)]
  simp only [pure_eq_ok]
  generalize (if (ctx.id + 1) % 2 ^ 64 = 2 ^ 64 - 1 then toUInt64 (leadingInt buf)
    else (ctx.id + 1) % 2 ^ 64) = chunkId
  obtain ⟨q, hact, harrived, hwords⟩ := act_put_of_words hw
    (c := .build chunkId len (buf.take len)) (by rw [RecvBuffer.data_build_length]; omega)
  refine ⟨_, by rw [hact, ok_bind], hwords, ?_⟩
  show (q.arrived.map RecvBuffer.payload).flatten = _
  rw [harrived, List.map_append, List.flatten_append]
  simp

/-- What `process_recv` stores, when it does not leave its buffer. -/
theorem put_stores {s : WaitBytes} (hw : ∀ b ∈ s.side.recvCtx.innerCtx.ctx.list, 16 ≤ b.data.length)
    (buf : ThreadBuffer) {ret : Nat} (hret : ret ≤ sendBufferSize) :
    ∃ side, s.put buf ret = .ok { s with side := side, thread := .count ret } ∧
      (∀ b ∈ side.recvCtx.innerCtx.ctx.list, 16 ≤ b.data.length) ∧
      side.appended.length = s.stored + ret ∧ side.recvBytes = s.side.recvBytes := by
  rw [← buf.length_eq] at hret
  obtain ⟨ctx, hput, hwords, hflat⟩ := putToRecvProxyCtx_stores hw hret
  refine ⟨{ s.side with buf := buf, recvCtx := ctx }, by rw [put, hput]; rfl, hwords, ?_, rfl⟩
  show (ctx.innerCtx.arrived.map RecvBuffer.payload).flatten.length = _
  rw [hflat, List.length_append, List.length_take_of_le hret]
  rfl

/-- Otherwise it faults. -/
theorem put_of_lt (s : WaitBytes) (buf : ThreadBuffer) {ret : Nat} (hret : sendBufferSize < ret) :
    s.put buf ret = .error (.fault .outOfBounds) := by
  rw [put, putToRecvProxyCtx, if_pos (by rw [buf.length_eq]; exact hret)]
  rfl

/-! ## What is counted -/

/-- `WaitForBytes`, if it returns now, has waited for what was asked: so many bytes have
been stored since the wait was armed. -/
def Enough (s : WaitBytes) : Prop :=
  s.checking = true → s.waitForBytes = .ok () →
    ∀ a, s.armed = some a → a.asked + a.stored ≤ s.stored

/-- The condition on `send3`: it does not arm a wait, or the wait is not for any bytes, or
none are stored that are not counted yet. -/
def settled (s : WaitBytes) : WaitEvent → Bool
  | .send3 => !s.needWait || decide (s.asked ≤ 0) || match s.thread with
    | .count _ => false
    | _ => true
  | _ => true

/-- Bytes that are stored and not counted. -/
def uncounted (s : WaitBytes) : Nat :=
  match s.thread with
  | .count ret => ret
  | _ => 0

/-- What holds in every run. -/
structure Sound (s : WaitBytes) : Prop where
  words : ∀ b ∈ s.side.recvCtx.innerCtx.ctx.list, 16 ≤ b.data.length
  asked : s.asked < 2 ^ 31
  waitBytes : s.needWait = true → s.waitBytes = toUInt64 s.asked
  minimalBytes : ∀ a, s.armed = some a → s.minimalBytes = toUInt64 a.asked
  bound : ∀ a, s.armed = some a → a.asked < 2 ^ 31 ∧ a.stored ≤ s.stored
  thread : ∀ ret, s.thread = .count ret → 0 < ret ∧ ret ≤ sendBufferSize

/-- What holds of a wait for bytes that was armed when all bytes were counted. -/
def Counted (s : WaitBytes) : Prop :=
  ∀ a, s.armed = some a → 0 < a.asked →
    s.side.recvBytes + s.uncounted + a.stored ≤ s.stored

theorem sound_new (junk : ThreadBuffer) : Sound (new junk) where
  words _ h := by cases h
  asked := by
    show (0 : Int) < 2 ^ 31
    decide
  waitBytes h := by cases h
  minimalBytes _ h := by cases h
  bound _ h := by cases h
  thread _ h := by cases h

/-- **One step** of either side. -/
theorem Sound.step {s s' : WaitBytes} (h : Sound s) {e : WaitEvent} (hen : s.enabled e = true)
    (hact : s.act e = .ok s') : Sound s' := by
  cases e with
  | put buf ret =>
    simp only [enabled, Bool.and_eq_true, decide_eq_true_eq] at hen
    by_cases hret : ret ≤ sendBufferSize
    · obtain ⟨side, hput, hwords, hstored, -⟩ := put_stores h.words buf hret
      cases hact.symm.trans hput
      refine ⟨hwords, h.asked, h.waitBytes, h.minimalBytes, ?_, ?_⟩
      · intro a ha
        obtain ⟨hasked, hle⟩ := h.bound a ha
        exact ⟨hasked, by show a.stored ≤ side.appended.length; omega⟩
      · intro ret' hret'
        cases hret'
        exact ⟨hen.2, hret⟩
    · cases hact.symm.trans (s.put_of_lt buf (not_le.mp hret))
  | count =>
    cases hthread : s.thread with
    | count ret =>
      simp only [act, hthread] at hact
      cases hact
      exact ⟨h.words, h.asked, h.waitBytes, h.minimalBytes, h.bound, fun _ h => by cases h⟩
    | put | zero | exited => simp [enabled, hthread] at hen
  | shut | zero =>
    cases hact
    exact ⟨h.words, h.asked, h.waitBytes, h.minimalBytes, h.bound, fun _ h => by cases h⟩
  | setWaitBytes waitBytes =>
    simp only [enabled, Bool.and_eq_true, decide_eq_true_eq] at hen
    cases hact
    exact ⟨h.words, hen.2, fun _ => rfl, h.minimalBytes, h.bound, h.thread⟩
  | send3 =>
    cases hact
    unfold WaitBytes.send3
    split
    · rename_i hneed
      refine ⟨h.words, h.asked, fun hc => (by cases hc), ?_, ?_, h.thread⟩
      · intro a ha
        cases ha
        exact h.waitBytes hneed
      · intro a ha
        cases ha
        exact ⟨h.asked, Nat.le_refl _⟩
    · exact h
  | close | wait | check =>
    cases hact
    exact ⟨h.words, h.asked, h.waitBytes, h.minimalBytes, h.bound, h.thread⟩

/-- Only the count, what is stored and the last arming matter. -/
theorem Counted.of_le {s s' : WaitBytes} (h : Counted s)
    (hbytes : s'.side.recvBytes = s.side.recvBytes) (hstored : s'.stored = s.stored)
    (harmed : s'.armed = s.armed) (hle : s'.uncounted ≤ s.uncounted) : Counted s' := by
  intro a ha hpos
  have := h a (harmed ▸ ha) hpos
  omega

/-- A wait that is armed when all is counted, or for nothing. -/
theorem counted_send3 {s : WaitBytes} (hneed : s.needWait = true)
    (hsettled : s.settled .send3 = true) : Counted s.send3 := by
  rw [WaitBytes.send3, if_pos hneed]
  intro a ha hpos
  cases ha
  simp only [settled, hneed, Bool.not_true, Bool.false_or, Bool.or_eq_true,
    decide_eq_true_eq] at hsettled
  have hasked : ¬ s.asked ≤ 0 := not_le.mpr hpos
  have hzero : s.uncounted = 0 := by
    unfold uncounted
    cases hthread : s.thread with
    | count ret => simp [hasked, hthread] at hsettled
    | put | zero | exited => rfl
  show 0 + s.uncounted + s.stored ≤ s.stored
  omega

/-- **One step** that arms no wait between storing and counting. -/
theorem Counted.step {s s' : WaitBytes} (h : Counted s) (hsound : Sound s) {e : WaitEvent}
    (hsettled : s.settled e = true) (hact : s.act e = .ok s') : Counted s' := by
  cases e with
  | put buf ret =>
    by_cases hret : ret ≤ sendBufferSize
    · obtain ⟨side, hput, -, hstored, hcount⟩ := put_stores hsound.words buf hret
      cases hact.symm.trans hput
      intro a ha hpos
      have := h a ha hpos
      show side.recvBytes + ret + a.stored ≤ side.appended.length
      omega
    · cases hact.symm.trans (s.put_of_lt buf (not_le.mp hret))
  | count =>
    cases hthread : s.thread with
    | count ret =>
      simp only [act, hthread] at hact
      cases hact
      intro a ha hpos
      have := h a ha hpos
      simp only [uncounted, hthread] at this
      show (s.side.recvBytes + ret) % 2 ^ 64 + 0 + a.stored ≤ s.stored
      omega
    | put | zero | exited =>
      simp only [act, hthread] at hact
      cases hact
      exact h
  | shut | zero =>
    cases hact
    exact h.of_le rfl rfl rfl (Nat.zero_le _)
  | send3 =>
    cases hact
    by_cases hneed : s.needWait = true
    · exact counted_send3 hneed hsettled
    · rw [WaitBytes.send3, if_neg hneed]
      exact h
  | setWaitBytes | close | wait | check =>
    cases hact
    exact h.of_le rfl rfl rfl (Nat.le_refl _)

/-- So a wait ends when as much has been stored. -/
theorem Counted.enough {s : WaitBytes} (h : Counted s) (hsound : Sound s) : Enough s := by
  intro _ hret a ha
  obtain ⟨hbound, hpast⟩ := hsound.bound a ha
  by_cases hpos : 0 < a.asked
  · have hcount := h a ha hpos
    have hmin := hsound.minimalBytes a ha
    have hle : s.minimalBytes ≤ s.side.recvBytes := by
      unfold waitForBytes at hret
      split at hret
      · cases hret
      · omega
    rw [hmin, toUInt64] at hle
    omega
  · omega

/-- A wait that ends with the count where it should be, and fewer new bytes than that. -/
theorem not_enough {s : WaitBytes} {a : Arming} (hchecking : s.checking = true)
    (hover : s.minimalBytes ≤ s.side.recvBytes) (harmed : s.armed = some a)
    (hfew : (s.stored : Int) < a.asked + a.stored) : ¬ Enough s := by
  intro henough
  have hle := henough hchecking (if_neg (not_lt.mpr hover)) a harmed
  omega

/-! ## Runs -/

/-- Only `SetWaitBytes` asks for a wait. -/
theorem needWait_of_act {s s' : WaitBytes} (h : s.needWait = false) {e : WaitEvent}
    (he : ∀ k, e ≠ .setWaitBytes k) (hact : s.act e = .ok s') : s'.needWait = false := by
  cases e with
  | put buf ret =>
    obtain ⟨recvCtx, -, hrest⟩ := bind_eq_ok hact
    cases hrest
    exact h
  | count =>
    simp only [act] at hact
    split at hact <;> cases hact <;> exact h
  | send3 =>
    cases hact
    simp only [WaitBytes.send3, h]
    exact h
  | setWaitBytes k => exact absurd rfl (he k)
  | shut | zero | close | wait | check =>
    cases hact
    exact h

/-- Behind an arming that was settled, as long as nobody asks for another wait. -/
theorem Counted.run {junk : ThreadBuffer} {s t : WaitBytes} (h : Counted s) (hsound : Sound s)
    (hneed : s.needWait = false) {es : List WaitEvent} (hes : ∀ k, .setWaitBytes k ∉ es)
    (hrun : (machine junk).runFrom (.ok s) es = some (.ok t)) : Enough t := by
  induction es generalizing s with
  | nil =>
    cases hrun
    exact h.enough hsound
  | cons e es ih =>
    obtain ⟨s', hen, hact, hrest⟩ := checked_runFrom_cons hrun
    have hsettled : s.settled e = true := by cases e <;> simp [settled, hneed]
    have hneed' := needWait_of_act hneed (fun k hk => hes k (hk ▸ List.mem_cons_self ..)) hact
    exact ih (h.step hsound hsettled hact) (hsound.step hen hact) hneed'
      (fun k hk => hes k (List.mem_cons_of_mem _ hk)) hrest

/-- The thread stores and counts one byte after the other. -/
theorem Sound.rounds (junk : ThreadBuffer) {s : WaitBytes} (h : Sound s) (hthread : s.thread = .put)
    (m : Nat) (hsmall : s.side.recvBytes + m < 2 ^ 64) :
    ∃ side, (machine junk).runFrom (.ok s)
        (List.replicate m [.put RecvSide.zeroed 1, .count]).flatten =
          some (.ok { s with side := side, thread := .put }) ∧
      side.recvBytes = s.side.recvBytes + m ∧ side.appended.length = s.stored + m := by
  induction m generalizing s with
  | zero =>
    refine ⟨s.side, ?_, rfl, rfl⟩
    rw [← hthread]
    rfl
  | succ m ih =>
    obtain ⟨side, hput, -, hstored, hbytes⟩ :=
      put_stores h.words RecvSide.zeroed (show 1 ≤ sendBufferSize by decide)
    have hen : s.enabled (.put RecvSide.zeroed 1) = true := by simp [enabled, hthread]
    have hsound₁ := h.step hen hput
    have hsound₂ := hsound₁.step (e := .count) rfl rfl
    have hwrap : (side.recvBytes + 1) % 2 ^ 64 = s.side.recvBytes + 1 := by omega
    obtain ⟨side', hrun, hbytes', hstored'⟩ := ih hsound₂ rfl (by
      show (side.recvBytes + 1) % 2 ^ 64 + m < 2 ^ 64
      omega)
    refine ⟨side', ?_, ?_, ?_⟩
    · rw [List.replicate_succ, List.flatten_cons]
      exact checked_runFrom_of_act hen hput (checked_runFrom_of_act rfl rfl hrun)
    · have hbytes₂ : side'.recvBytes = (side.recvBytes + 1) % 2 ^ 64 + m := hbytes'
      omega
    · have hstored₂ : side'.appended.length = side.appended.length + m := hstored'
      omega

/-- Behind an arming that was not, the bytes that were stored before are counted, and there
are too few new ones when the count is where it should be. -/
theorem Sound.miscount (junk : ThreadBuffer) {s : WaitBytes} (h : Sound s)
    (hneed : s.needWait = true) (hsettled : s.settled .send3 = false) :
    ∃ es t, (∀ k, .setWaitBytes k ∉ es) ∧
      (machine junk).runFrom (.ok s) (.send3 :: es) = some (.ok t) ∧ t.waiting = false ∧
      ¬ Enough { t with checking := true } := by
  obtain ⟨ret, hthread⟩ : ∃ ret, s.thread = .count ret := by
    cases hthread : s.thread with
    | count ret => exact ⟨ret, rfl⟩
    | put | zero | exited => simp [settled, hthread] at hsettled
  have hasked : 0 < s.asked := by
    simpa [settled, hneed, hthread] using hsettled
  obtain ⟨hpos, hret⟩ := h.thread ret hthread
  have hwait := h.waitBytes hneed
  have hbound := h.asked
  have hminimal : s.waitBytes = s.asked.toNat := by
    rw [hwait, toUInt64]
    omega
  have hsmall : sendBufferSize < 2 ^ 31 := by decide
  -- the bytes from before are counted
  have hsend : s.send3 = { s with
      side := { s.side with recvBytes := 0 },
      minimalBytes := s.waitBytes,
      needWait := false,
      armed := some ⟨s.asked, s.stored⟩ } := if_pos hneed
  obtain ⟨s₁, hs₁⟩ : ∃ s₁, s₁ = s.send3.count ret := ⟨_, rfl⟩
  have hen : s.send3.enabled .count = true := by
    rw [hsend]
    simp only [enabled, hthread]
  have hcount : s.send3.act .count = .ok s₁ := by
    rw [hs₁, hsend]
    simp only [act, hthread]
  have hsound₁ : Sound s₁ := (h.step (e := .send3) rfl rfl).step hen hcount
  have hbytes₁ : s₁.side.recvBytes = ret := by
    rw [hs₁, hsend]
    show (0 + ret) % 2 ^ 64 = ret
    omega
  -- and then new ones, until there are enough
  obtain ⟨side, hrun, hbytes, hstored⟩ := hsound₁.rounds junk (by rw [hs₁]; rfl)
    (s.asked.toNat - ret) (by omega)
  obtain ⟨t, ht⟩ : ∃ t : WaitBytes, t = { s₁ with side := side, thread := .put } := ⟨_, rfl⟩
  rw [← ht] at hrun
  have hover : t.minimalBytes ≤ t.side.recvBytes := by
    rw [ht, hs₁, hsend]
    show s.waitBytes ≤ side.recvBytes
    omega
  have hearly : ¬ Enough { t with checking := true } := by
    refine not_enough (a := ⟨s.asked, s.stored⟩) rfl hover ?_ ?_
    · rw [ht, hs₁, hsend]
      rfl
    · have hstored₁ : s₁.stored = s.stored := by
        rw [hs₁, hsend]
        rfl
      show ((t.stored : Nat) : Int) < s.asked + s.stored
      rw [ht]
      show ((side.appended.length : Nat) : Int) < s.asked + s.stored
      omega
  have hsteps : (machine junk).runFrom (.ok s) (.send3 :: .count ::
      (List.replicate (s.asked.toNat - ret) [.put RecvSide.zeroed 1, .count]).flatten) =
        some (.ok t) :=
    checked_runFrom_of_act rfl rfl (checked_runFrom_of_act hen hcount hrun)
  refine ⟨_, t, ?_, hsteps, ?_, hearly⟩
  · intro k hk
    simp at hk
  · rw [waiting, decide_eq_false (not_lt.mpr hover), Bool.and_false]

/-- So the wait can be over too early. -/
theorem Sound.early (junk : ThreadBuffer) {s : WaitBytes} (h : Sound s) (hneed : s.needWait = true)
    (hsettled : s.settled .send3 = false) :
    ∃ es t, (∀ k, .setWaitBytes k ∉ es) ∧
      (machine junk).runFrom (.ok s) (.send3 :: es) = some (.ok t) ∧ ¬ Enough t := by
  obtain ⟨es, t, hes, hrun, hwaiting, hearly⟩ := h.miscount junk hneed hsettled
  cases hchecking : t.checking with
  | true =>
    refine ⟨es, t, hes, hrun, ?_⟩
    rwa [← hchecking] at hearly
  | false =>
    refine ⟨es ++ [.wait], { t with checking := true }, ?_, ?_, hearly⟩
    · intro k hk
      rcases List.mem_append.mp hk with hk | hk
      · exact hes k hk
      · simp at hk
    · rw [← List.cons_append, Machine.runFrom_append hrun]
      exact checked_runFrom_of_act (by simp [enabled, hchecking, hwaiting]) rfl rfl

/-! ## Every run -/

/-- **Waiting for bytes.** In every run in which `send3` arms no wait for bytes while the
receive thread has stored some that it has not counted, `WaitForBytes` returns only when
as many bytes as were asked for have been stored since. After any history, a wait that
is armed now is safe, however the run goes on until another one is asked for, exactly if
it is armed so. -/
theorem waitForBytes_enough_iff (junk : ThreadBuffer) :
    (∀ es s, ((machine junk).restrict (whereOk settled)).run es = some (.ok s) → Enough s) ∧
    ∀ es s, (machine junk).run es = some (.ok s) → s.needWait = true →
      ((∀ es' t, (∀ k, .setWaitBytes k ∉ es') →
          (machine junk).runFrom (.ok s) (.send3 :: es') = some (.ok t) → Enough t) ↔
        s.settled .send3 = true) := by
  constructor
  · intro es s hrun
    obtain ⟨hsound, hcounted⟩ := checked_restrict_runFrom_invariant
      (fun s => Sound s ∧ Counted s)
      (fun _ _ _ h hen hok hact => ⟨h.1.step hen hact, h.2.step h.1 hok hact⟩)
      ⟨sound_new junk, fun _ ha => by cases ha⟩ hrun
    exact hcounted.enough hsound
  · intro es s hrun hneed
    have hsound : Sound s := checked_runFrom_invariant Sound
      (fun _ _ _ h hen hact => h.step hen hact) (sound_new junk) hrun
    constructor
    · intro hall
      by_contra hnot
      obtain ⟨es', t, hes', hrun', hearly⟩ := hsound.early junk hneed (by simpa using hnot)
      exact hearly (hall es' t hes' hrun')
    · intro hsettled es' t hes' hrun'
      obtain ⟨s', hen, hact, hrest⟩ := checked_runFrom_cons hrun'
      cases hact
      have hneed' : s.send3.needWait = false := by
        rw [send3, if_pos hneed]
      exact (counted_send3 hneed hsettled).run (hsound.step hen rfl) hneed' hes' hrest

/-- Five bytes are stored, a wait for five bytes is armed, and then the five are counted:
`WaitForBytes` returns, and nothing has come since. -/
theorem waitForBytes_counts_old_bytes :
    ∃ t, (machine RecvSide.zeroed).run
        [.put RecvSide.zeroed 5, .setWaitBytes 5, .send3, .count, .wait] = some (.ok t) ∧
      t.armed = some ⟨5, t.stored⟩ ∧ ¬ Enough t := by
  obtain ⟨side, hput, -, hstored, -⟩ := put_stores (sound_new RecvSide.zeroed).words
    RecvSide.zeroed (show 5 ≤ sendBufferSize by decide)
  have hfive : toUInt64 5 = 5 := by decide
  obtain ⟨s, hs⟩ : ∃ s : WaitBytes, s = { new RecvSide.zeroed with
      side := side, thread := .count 5 } := ⟨_, rfl⟩
  obtain ⟨t, ht⟩ : ∃ t : WaitBytes, t = { (s.setWaitBytes 5).send3.count 5 with
      checking := true } := ⟨_, rfl⟩
  refine ⟨t, ?_, ?_, ?_⟩
  · refine checked_runFrom_of_act rfl (hput.trans (congrArg Except.ok hs.symm)) ?_
    refine checked_runFrom_of_act rfl rfl (checked_runFrom_of_act rfl rfl ?_)
    refine checked_runFrom_of_act (by rw [hs]; rfl) (by rw [hs]; rfl) ?_
    refine checked_runFrom_of_act ?_ (by rw [ht, hs]; rfl) rfl
    simp [enabled, waiting, setWaitBytes, send3, count, RecvSide.onRecvBytes, hfive, new]
  · rw [ht, hs]
    rfl
  · refine not_enough (a := ⟨5, t.stored⟩) (by rw [ht]) ?_ (by rw [ht, hs]; rfl) (by simp)
    rw [ht, hs]
    simp [setWaitBytes, send3, count, RecvSide.onRecvBytes, hfive, new]

end WaitBytes

end ZktlsNet
