import ZktlsNet.Proxy.CallSafety

/-!
# Answers of any size (`proxy_client.cpp:112-191`, `proxy_client.cpp:209-222`)

`BridgeSocketOnMessage` takes the record of a message out of the list before it
looks at the size of the message, and returns early when that is below what the
call expects; the header that it makes up in place of a message without one is
checked in the same way. It returns early, too, when there is no memory for a copy of
the message. The record is then in nobody's hands.

- `answerMachine`: the table of calls with a proxy that sends what it likes.
- `Changes`: what a step can do to the calls, the list and the network thread;
  `act_changes`.
- `Tabled`: what holds of the list under any answers.
- `Fate`: what has become of a record that was taken out of the list.
- `bridgeSocketOnMessage_completes_iff`: the call gets its answer exactly when the
  answer is as large as the call expects and there is memory for it.
-/

namespace ZktlsNet

open NetLib

/-- How many steps the network thread still makes with the record that it holds. -/
def NetworkPc.stepsLeft : NetworkPc → Nat
  | .fill _ _ => 2
  | .complete _ _ => 1
  | _ => 0

namespace CallTable

/-! ## A proxy that sends what it likes -/

/-- When an event can happen: the proxy may send any frame at any time. -/
def anyAnswer (s : CallTable) : CallEvent → Bool
  | .answer _ => !s.finished
  | e => s.enabled e

/-- The context under any interleaving and any answers. -/
def answerMachine (junk : Bytes) (memdup : Nat → Bool) : Machine (Res CallTable) CallEvent :=
  checked new anyAnswer (act junk memdup)

/-- The data that `BridgeSocketOnMessage` goes on with: the message, or a header made up
in its place. -/
def bridgedData (junk : Bytes) (callId : Nat) (message : Bytes) : Bytes :=
  if message.length < socketCallResultHeaderSize then
    toLE 4 callId ++ toLE 4 (2 ^ 32 - 1) ++ junk
  else message

/-- The network thread is about to call `BridgeSocketOnMessage` with a message. -/
def onMessage (s : CallTable) (callId : Nat) (message : Bytes) : CallTable :=
  { s with network := .bridge callId (.build callId message.length message) }

/-! ## What a step does -/

/-- A step of a call of its own. -/
inductive CallMove : ProxiedCall → ProxiedCall → Prop
  | goesOn {record : Option PosixSocketCallResult} {pc pc' : CallPc}
      (hpc : pc = .allocated ∨ pc = .sent) (hpc' : pc' = .sent ∨ pc' = .put ∨ pc' = .abandoned) :
      CallMove ⟨record, pc⟩ ⟨record, pc'⟩
  | returns {r : PosixSocketCallResult} (hone : r.operationCompleted = 1) :
      CallMove ⟨some r, .put⟩ ⟨some r, .returned⟩
  | givesUp {r : PosixSocketCallResult} (hone : r.operationCompleted ≠ 1) :
      CallMove ⟨some r, .put⟩ ⟨some { r with operationCompleted := 2 }, .cancelled⟩
  | uses {r : PosixSocketCallResult} {m : Bytes} (hdata : r.data = some m) :
      CallMove ⟨some r, .returned⟩ ⟨some r, .used m⟩
  | frees {r : PosixSocketCallResult} {m : Bytes} : CallMove ⟨some r, .used m⟩ ⟨none, .done m⟩

/-- What a step can do to the calls, to the list and to what the network thread holds. -/
inductive Changes (memdup : Nat → Bool) (s s' : CallTable) : Prop
  | idle (hcalls : s'.calls = s.calls) (hlist : s'.callResultHead = s.callResultHead)
      (hnext : s'.nextId = s.nextId)
      (hnetwork : s'.network = s.network ∨ s.network.holds = none ∧ s'.network.holds = none)
  | allocate (expectedBytes : Nat)
      (hcalls : s'.calls = s.calls ++ [⟨some ⟨s.nextId, 0, expectedBytes, none⟩, .allocated⟩])
      (hlist : s'.callResultHead = s.callResultHead ++ [s.calls.length])
      (hnext : s'.nextId = s.nextId + 1) (hnetwork : s'.network = s.network)
  | call (b : Nat) (c c' : ProxiedCall) (hc : s.calls[b]? = some c) (hmove : CallMove c c')
      (hcalls : s'.calls = s.calls.set b c') (hlist : s'.callResultHead = s.callResultHead)
      (hnext : s'.nextId = s.nextId) (hnetwork : s'.network = s.network)
  | bridge (callId : Int) (found : Option Nat) (rest : List Nat)
      (hpop : s.popFrom callId s.callResultHead = .ok (found, rest))
      (hheld : s.network.holds = none) (hcalls : s'.calls = s.calls)
      (hlist : s'.callResultHead = rest) (hnext : s'.nextId = s.nextId)
      (hnetwork : s'.network.holds = found)
  | lose (b : Nat) (data : Bytes) (c : ProxiedCall) (r r' : PosixSocketCallResult)
      (hfill : s.network = .fill b data) (hc : s.calls[b]? = some c) (hr : c.record = some r)
      (hlost : toInt data.length < r.bytes ∨ memdup b = false)
      (hcallId : r'.callId = r.callId) (hvalue : r'.operationCompleted = r.operationCompleted)
      (hcalls : s'.calls = s.calls.set b ⟨some r', c.pc⟩)
      (hlist : s'.callResultHead = s.callResultHead) (hnext : s'.nextId = s.nextId)
      (hnetwork : s'.network.holds = none)
  | fill (b : Nat) (data : Bytes) (c : ProxiedCall) (r : PosixSocketCallResult)
      (hfill : s.network = .fill b data) (hc : s.calls[b]? = some c) (hr : c.record = some r)
      (hlong : r.bytes ≤ toInt data.length) (hmemory : memdup b = true)
      (hcalls : s'.calls = s.calls.set b
        ⟨some { r with bytes := toInt data.length, data := some data }, c.pc⟩)
      (hlist : s'.callResultHead = s.callResultHead) (hnext : s'.nextId = s.nextId)
      (hnetwork : s'.network = .complete b data)
  | complete (b : Nat) (data : Bytes) (c : ProxiedCall) (r : PosixSocketCallResult)
      (hcomplete : s.network = .complete b data) (hc : s.calls[b]? = some c)
      (hr : c.record = some r)
      (hcalls : s'.calls = s.calls.set b ⟨if r.operationCompleted = 0 then
        some { r with operationCompleted := 1 } else none, c.pc⟩)
      (hlist : s'.callResultHead = s.callResultHead) (hnext : s'.nextId = s.nextId)
      (hnetwork : s'.network.holds = none)
  | popAll (hheld : s.network.holds = none) (hlength : s'.calls.length = s.calls.length)
      (hothers : ∀ b, b ∉ s.callResultHead → s'.calls[b]? = s.calls[b]?)
      (hlist : s'.callResultHead = []) (hnext : s'.nextId = s.nextId)
      (hnetwork : s'.network.holds = none)

/-- A pointer that can be followed is the pointer of a call that has its record. -/
theorem exists_of_load {s : CallTable} {b : Nat} {r : PosixSocketCallResult}
    (h : s.load b = .ok r) : ∃ c, s.calls[b]? = some c ∧ c.record = some r := by
  unfold load at h
  split at h
  · rename_i r' hr'
    cases h
    obtain ⟨c, hc, hr⟩ := Option.bind_eq_some_iff.mp hr'
    exact ⟨c, hc, hr⟩
  · cases h

/-- The same, with the position that the call has. -/
theorem exists_of_load_pc {s : CallTable} {b : Nat} {r : PosixSocketCallResult} {pc : CallPc}
    (h : s.load b = .ok r) (hpc : s.pcOf b = pc) : s.calls[b]? = some ⟨some r, pc⟩ := by
  obtain ⟨⟨record, pc'⟩, hc, rfl⟩ := exists_of_load h
  rw [pcOf_eq hc] at hpc
  rw [hc, ← hpc]

/-- Freeing a list of records leaves the others alone. -/
theorem popAll_frame {list : List Nat} {s t : CallTable} (h : s.popAll list = .ok t) :
    t.network = s.network ∧ t.nextId = s.nextId ∧ t.calls.length = s.calls.length ∧
      ∀ b, b ∉ list → t.calls[b]? = s.calls[b]? := by
  induction list generalizing s with
  | nil =>
    cases h
    exact ⟨rfl, rfl, rfl, fun _ _ => rfl⟩
  | cons d ds ih =>
    obtain ⟨u, hfree, h⟩ := bind_eq_ok h
    obtain ⟨r, -, hfree⟩ := bind_eq_ok hfree
    cases hfree
    obtain ⟨hnetwork, hnext, hlength, hothers⟩ := ih h
    refine ⟨hnetwork, hnext, hlength.trans List.length_set, fun b hb => ?_⟩
    rw [List.mem_cons, not_or] at hb
    rw [hothers b hb.2]
    exact List.getElem?_set_ne (Ne.symm hb.1)

theorem bridgeSocketOnMessage_changes {junk : Bytes} {memdup : Nat → Bool} {s s' : CallTable}
    {callId : Nat} {chunk : RecvBuffer} (hheld : s.network.holds = none)
    (h : s.bridgeSocketOnMessage junk callId chunk = .ok s') : Changes memdup s s' := by
  unfold bridgeSocketOnMessage at h
  obtain ⟨numBytes, -, h⟩ := bind_eq_ok h
  by_cases hbig : chunk.payload.length < numBytes
  · simp only [hbig, if_true] at h
    cases h
  · simp only [hbig, if_false] at h
    obtain ⟨⟨found, rest⟩, hpop, h⟩ := bind_eq_ok h
    cases found <;> cases h <;> exact .bridge _ _ rest hpop hheld rfl rfl rfl rfl

theorem networkStep_changes {junk : Bytes} {memdup : Nat → Bool} {s s' : CallTable}
    (h : s.networkStep junk memdup = .ok s') : Changes memdup s s' := by
  unfold networkStep at h
  cases hnetwork : s.network with
  | start =>
    rw [hnetwork] at h
    cases h
    exact .idle rfl rfl rfl (.inr ⟨by rw [hnetwork]; rfl, rfl⟩)
  | take =>
    rw [hnetwork] at h
    cases hids : s.callIdHeader <;> rw [hids] at h <;> cases h <;>
      exact .idle rfl rfl rfl (.inr ⟨by rw [hnetwork]; rfl, rfl⟩)
  | recv id =>
    rw [hnetwork] at h
    obtain ⟨⟨found, ctx⟩, -, h⟩ := bind_eq_ok h
    cases found <;> cases h <;> exact .idle rfl rfl rfl (.inr ⟨by rw [hnetwork]; rfl, rfl⟩)
  | read id =>
    rw [hnetwork] at h
    have hheld : s.network.holds = none := by rw [hnetwork]; rfl
    dsimp only at h
    split at h
    · cases h
      exact .idle rfl rfl rfl (.inr ⟨hheld, rfl⟩)
    · cases h
    · obtain ⟨ctx, -, h⟩ := bind_eq_ok h
      cases h
      exact .idle rfl rfl rfl (.inr ⟨hheld, rfl⟩)
  | bridge id chunk =>
    rw [hnetwork] at h
    exact bridgeSocketOnMessage_changes (by rw [hnetwork]; rfl) h
  | fill b data =>
    rw [hnetwork] at h
    obtain ⟨r, hload, h⟩ := bind_eq_ok h
    obtain ⟨c, hc, hr⟩ := exists_of_load hload
    rw [pcOf_eq hc] at h
    by_cases hshort : toInt data.length < r.bytes
    · rw [if_pos hshort] at h
      cases h
      -- the record stays as it is
      have hsame : s.calls.set b ⟨some r, c.pc⟩ = s.calls := by
        obtain ⟨record, pc⟩ := c
        obtain rfl : record = some r := hr
        obtain ⟨hlt, heq⟩ := List.getElem?_eq_some_iff.mp hc
        rw [← heq, List.set_getElem_self]
      exact .lose b data c r r hnetwork hc hr (.inl hshort) rfl rfl hsame.symm rfl rfl rfl
    · rw [if_neg hshort] at h
      cases hmemory : memdup b <;> rw [hmemory] at h <;> cases h
      · exact .lose b data c r { r with bytes := toInt data.length, data := none } hnetwork hc hr
          (.inr hmemory) rfl rfl rfl rfl rfl rfl
      · exact .fill b data c r hnetwork hc hr (by omega) hmemory rfl rfl rfl rfl
  | complete b data =>
    rw [hnetwork] at h
    obtain ⟨r, hload, h⟩ := bind_eq_ok h
    obtain ⟨c, hc, hr⟩ := exists_of_load hload
    rw [pcOf_eq hc] at h
    split at h
    · cases h
      exact .complete b data c r hnetwork hc hr (by simp [setCall, *]) rfl rfl rfl
    · obtain ⟨t, hfree, h⟩ := bind_eq_ok h
      obtain ⟨-, -, hfree⟩ := bind_eq_ok hfree
      cases h
      cases hfree
      exact .complete b data c r hnetwork hc hr (by simp [setCall, pcOf_eq hc, *]) rfl rfl rfl
  | exited =>
    rw [hnetwork] at h
    cases h
    exact .idle rfl rfl rfl (.inl rfl)

/-- **Inversion**: what a successful step does. -/
theorem act_changes {junk : Bytes} {memdup : Nat → Bool} {s s' : CallTable} {e : CallEvent}
    (hen : s.anyAnswer e = true) (h : s.act junk memdup e = .ok s') : Changes memdup s s' := by
  cases e with
  | allocate expectedBytes =>
    obtain ⟨-, -, h⟩ := bind_eq_ok h
    cases h
    exact .allocate expectedBytes rfl rfl rfl rfl
  | send b =>
    obtain ⟨r, hload, h⟩ := bind_eq_ok h
    cases h
    have hpc : s.pcOf b = .allocated := by
      simpa [anyAnswer, enabled] using (Bool.and_eq_true_iff.mp hen).2
    exact .call b _ _ (exists_of_load_pc hload hpc) (.goesOn (.inl rfl) (.inl rfl)) rfl rfl rfl rfl
  | putCallId b =>
    obtain ⟨r, hload, h⟩ := bind_eq_ok h
    cases h
    have hpc : s.pcOf b = .sent := by
      simpa [anyAnswer, enabled] using (Bool.and_eq_true_iff.mp hen).2
    exact .call b _ _ (exists_of_load_pc hload hpc) (.goesOn (.inr rfl) (.inr (.inl rfl)))
      rfl rfl rfl rfl
  | wait b =>
    obtain ⟨r, hload, h⟩ := bind_eq_ok h
    have hpc : s.pcOf b = .put := by
      simpa [anyAnswer, enabled] using (Bool.and_eq_true_iff.mp hen).2
    have hc := exists_of_load_pc hload hpc
    split at h
    · cases h
      exact .idle rfl rfl rfl (.inl rfl)
    · split at h <;> cases h
      · exact .call b _ _ hc (.givesUp (by assumption)) rfl rfl rfl rfl
      · exact .call b _ _ hc (.returns (not_not.mp (by assumption))) rfl rfl rfl rfl
  | use b =>
    obtain ⟨r, hload, h⟩ := bind_eq_ok h
    have hpc : s.pcOf b = .returned := by
      simpa [anyAnswer, enabled] using (Bool.and_eq_true_iff.mp hen).2
    split at h <;> cases h
    exact .call b _ _ (exists_of_load_pc hload hpc) (.uses (by assumption)) rfl rfl rfl rfl
  | free b =>
    obtain ⟨t, hfree, h⟩ := bind_eq_ok h
    obtain ⟨r, hload, hfree⟩ := bind_eq_ok hfree
    cases hfree
    cases h
    have hpc : (s.pcOf b).saw.isSome = true ∧ (s.pcOf b).over = false := by
      simp only [anyAnswer, enabled, Bool.and_eq_true, Bool.not_eq_true'] at hen
      exact hen.2
    obtain ⟨m, hm⟩ : ∃ m, s.pcOf b = .used m := by
      cases h : s.pcOf b <;> simp_all [CallPc.saw, CallPc.over]
    have hc := exists_of_load_pc hload hm
    have hlt := (List.getElem?_eq_some_iff.mp hc).1
    refine .call b _ _ hc .frees ?_ rfl rfl rfl
    have hsaw : (s.setCall b none (s.pcOf b)).pcOf b = .used m := by
      rw [hm, pcOf, setCall, List.getElem?_set_self hlt]
      rfl
    rw [hsaw]
    simp [setCall, CallPc.saw]
  | abandon b =>
    cases h
    have hpc : s.pcOf b = .allocated ∨ s.pcOf b = .sent := by
      simpa [anyAnswer, enabled] using (Bool.and_eq_true_iff.mp hen).2
    have hne : s.pcOf b ≠ .abandoned := by rcases hpc with h | h <;> simp [h]
    obtain ⟨⟨record, pc⟩, hc, hcpc⟩ := exists_of_pcOf hne
    have hrecord : s.recordOf b = record := by rw [recordOf, hc]; rfl
    rw [← hcpc] at hpc
    refine .call b _ _ hc (.goesOn hpc (.inr (.inr rfl))) ?_ rfl rfl rfl
    rw [hrecord]
    rfl
  | network => exact networkStep_changes h
  | connectionFails =>
    cases h
    refine .idle rfl rfl rfl (.inr ⟨?_, rfl⟩)
    cases hnetwork : s.network <;> simp_all [anyAnswer, enabled, NetworkPc.holds]
  | answer f | cancel | stop =>
    cases h
    exact .idle rfl rfl rfl (.inl rfl)
  | popAll =>
    obtain ⟨t, hpop, h⟩ := bind_eq_ok h
    cases h
    have hexited : s.network = .exited := by
      simp only [anyAnswer, enabled, Bool.and_eq_true, decide_eq_true_eq] at hen
      exact hen.2.1
    have hheld : s.network.holds = none := by rw [hexited]; rfl
    obtain ⟨hnetwork, hnext, hlength, hothers⟩ := popAll_frame hpop
    exact .popAll hheld hlength hothers rfl hnext (by rw [← hheld, ← hnetwork])

/-! ## The list under any answers -/

/-- The call has no answer yet: its record is there, and says so or that the call has
given up. -/
structure Pending (c : ProxiedCall) (r : PosixSocketCallResult) : Prop where
  record : c.record = some r
  value : r.operationCompleted = if c.pc = .cancelled then 2 else 0
  got : c.pc.got = false

theorem Pending.ne_one {c : ProxiedCall} {r : PosixSocketCallResult} (h : Pending c r) :
    r.operationCompleted ≠ 1 := by
  rw [h.value]
  split <;> decide

theorem CallMove.pending {c c' : ProxiedCall} (hmove : CallMove c c') {r : PosixSocketCallResult}
    (h : Pending c r) :
    ∃ r', Pending c' r' ∧ r'.callId = r.callId ∧ r'.bytes = r.bytes ∧ r'.data = r.data := by
  obtain ⟨hrecord, hvalue, hgot⟩ := h
  cases hmove with
  | goesOn hpc hpc' =>
    refine ⟨r, ⟨hrecord, ?_, ?_⟩, rfl, rfl, rfl⟩
    · rw [hvalue]
      rcases hpc with rfl | rfl <;> rcases hpc' with rfl | rfl | rfl <;> rfl
    · rcases hpc' with rfl | rfl | rfl <;> rfl
  | returns hone =>
    cases hrecord
    rw [hvalue] at hone
    cases hone
  | givesUp hone =>
    cases hrecord
    exact ⟨_, ⟨rfl, rfl, rfl⟩, rfl, rfl, rfl⟩
  | uses hdata => cases hgot
  | frees => cases hgot

/-- What holds of the list and of the record that the network thread holds, whatever
the answers are. -/
structure Tabled (s : CallTable) : Prop where
  nextId : s.nextId = s.calls.length + 1
  nodup : s.callResultHead.Nodup
  held : ∀ b, s.network.holds = some b → b ∉ s.callResultHead
  pending : ∀ b, s.owned b → ∃ c r, s.calls[b]? = some c ∧ Pending c r ∧ r.callId = b + 1

theorem tabled_new : Tabled new where
  nextId := rfl
  nodup := List.nodup_nil
  held := by simp [new, NetworkPc.holds]
  pending := by simp [new, owned, NetworkPc.holds]

namespace Tabled

variable {memdup : Nat → Bool} {s s' : CallTable}

theorem listed (h : Tabled s) {b : Nat} (hb : b ∈ s.callResultHead) :
    ∃ r, s.load b = .ok r ∧ r.callId = b + 1 := by
  obtain ⟨c, r, hc, hp, hid⟩ := h.pending b (.inl hb)
  exact ⟨r, load_ok hc hp.record, hid⟩

theorem lt_length (h : Tabled s) {b : Nat} (hb : s.owned b) : b < s.calls.length := by
  obtain ⟨c, _, hc, -⟩ := h.pending b hb
  exact (List.getElem?_eq_some_iff.mp hc).1

/-- What the walk over the list takes out of it. -/
theorem popped (h : Tabled s) {callId : Int} {found : Option Nat} {rest : List Nat}
    (hpop : s.popFrom callId s.callResultHead = .ok (found, rest)) :
    rest.Sublist s.callResultHead ∧
      ∀ b, found = some b → b ∈ s.callResultHead ∧ callId = b + 1 ∧ b ∉ rest := by
  obtain ⟨found', rest', hpop', hsub, hfound⟩ :=
    popFrom_ok callId (fun b hb => h.listed hb) h.nodup
  obtain ⟨rfl, rfl⟩ := Prod.mk.inj (Except.ok.inj (hpop.symm.trans hpop'))
  exact ⟨hsub, hfound⟩

/-- Nobody comes to hold a record that nobody held, but a new one. -/
theorem owned_of_changes (h : Tabled s) (hch : Changes memdup s s') {b : Nat} (ho : s'.owned b) :
    s.owned b ∨ b = s.calls.length ∧ ∃ expectedBytes, s'.calls =
      s.calls ++ [⟨some ⟨s.nextId, 0, expectedBytes, none⟩, .allocated⟩] := by
  cases hch with
  | idle hcalls hlist hnext hnetwork =>
    refine .inl ?_
    rcases ho with ho | ho
    · exact .inl (hlist ▸ ho)
    · rcases hnetwork with hsame | ⟨-, hnone⟩
      · exact .inr (hsame ▸ ho)
      · rw [hnone] at ho
        cases ho
  | allocate expectedBytes hcalls hlist hnext hnetwork =>
    rcases ho with ho | ho
    · rw [hlist, List.mem_append, List.mem_singleton] at ho
      exact ho.imp .inl fun hb => ⟨hb, expectedBytes, hcalls⟩
    · exact .inl (.inr (hnetwork ▸ ho))
  | call d c c' hc hmove hcalls hlist hnext hnetwork =>
    exact .inl (ho.imp (fun ho => hlist ▸ ho) fun ho => hnetwork ▸ ho)
  | bridge callId found rest hpop hheld hcalls hlist hnext hnetwork =>
    obtain ⟨hsub, hfound⟩ := h.popped hpop
    rcases ho with ho | ho
    · exact .inl (.inl (hsub.subset (hlist ▸ ho)))
    · exact .inl (.inl (hfound b (hnetwork ▸ ho)).1)
  | lose d data c r r' hfill hc hr hlost hid hvalue hcalls hlist hnext hnetwork =>
    rcases ho with ho | ho
    · exact .inl (.inl (hlist ▸ ho))
    · rw [hnetwork] at ho
      cases ho
  | fill d data c r hfill hc hr hlong hmemory hcalls hlist hnext hnetwork =>
    refine .inl (ho.imp (fun ho => hlist ▸ ho) fun ho => ?_)
    rw [hnetwork] at ho
    rw [hfill]
    exact ho
  | complete d data c r hcomplete hc hr hcalls hlist hnext hnetwork =>
    rcases ho with ho | ho
    · exact .inl (.inl (hlist ▸ ho))
    · rw [hnetwork] at ho
      cases ho
  | popAll hheld hlength hothers hlist hnext hnetwork =>
    rcases ho with ho | ho
    · rw [hlist] at ho
      cases ho
    · rw [hnetwork] at ho
      cases ho

/-- A record keeps its call, and what it expects, until the network thread touches it. -/
theorem pending_of_changes (h : Tabled s) (hch : Changes memdup s s') {b : Nat} (ho : s'.owned b)
    {c : ProxiedCall} {r : PosixSocketCallResult} (hc : s.calls[b]? = some c) (hp : Pending c r) :
    ∃ c' r', s'.calls[b]? = some c' ∧ Pending c' r' ∧ r'.callId = r.callId := by
  have hlt := (List.getElem?_eq_some_iff.mp hc).1
  cases hch with
  | idle hcalls hlist hnext hnetwork => exact ⟨c, r, hcalls ▸ hc, hp, rfl⟩
  | allocate expectedBytes hcalls hlist hnext hnetwork =>
    exact ⟨c, r, by rw [hcalls, List.getElem?_append_left hlt, hc], hp, rfl⟩
  | call d c₀ c₁ hc₀ hmove hcalls hlist hnext hnetwork =>
    by_cases heq : d = b
    · subst heq
      obtain rfl : c = c₀ := Option.some.inj (hc.symm.trans hc₀)
      obtain ⟨r', hp', hid, -, -⟩ := hmove.pending hp
      exact ⟨c₁, r', by rw [hcalls, List.getElem?_set_self hlt], hp', hid⟩
    · exact ⟨c, r, by rw [hcalls, List.getElem?_set_ne heq, hc], hp, rfl⟩
  | bridge callId found rest hpop hheld hcalls hlist hnext hnetwork =>
    exact ⟨c, r, hcalls ▸ hc, hp, rfl⟩
  | lose d data c₀ r₀ r' hfill hc₀ hr₀ hlost hid hvalue hcalls hlist hnext hnetwork =>
    -- the record that is lost is in nobody's hands
    have hne : d ≠ b := by
      rintro rfl
      rcases ho with ho | ho
      · exact h.held d (by rw [hfill]; rfl) (hlist ▸ ho)
      · rw [hnetwork] at ho
        cases ho
    exact ⟨c, r, by rw [hcalls, List.getElem?_set_ne hne, hc], hp, rfl⟩
  | fill d data c₀ r₀ hfill hc₀ hr₀ hlong hmemory hcalls hlist hnext hnetwork =>
    by_cases heq : d = b
    · subst heq
      obtain rfl : c = c₀ := Option.some.inj (hc.symm.trans hc₀)
      obtain rfl : r = r₀ := Option.some.inj (hp.record.symm.trans hr₀)
      exact ⟨⟨some { r with bytes := toInt data.length, data := some data }, c.pc⟩, _,
        by rw [hcalls, List.getElem?_set_self hlt], ⟨rfl, hp.value, hp.got⟩, rfl⟩
    · exact ⟨c, r, by rw [hcalls, List.getElem?_set_ne heq, hc], hp, rfl⟩
  | complete d data c₀ r₀ hcomplete hc₀ hr₀ hcalls hlist hnext hnetwork =>
    -- so is the record that is complete
    have hne : d ≠ b := by
      rintro rfl
      rcases ho with ho | ho
      · exact h.held d (by rw [hcomplete]; rfl) (hlist ▸ ho)
      · rw [hnetwork] at ho
        cases ho
    exact ⟨c, r, by rw [hcalls, List.getElem?_set_ne hne, hc], hp, rfl⟩
  | popAll hheld hlength hothers hlist hnext hnetwork =>
    rcases ho with ho | ho
    · rw [hlist] at ho
      cases ho
    · rw [hnetwork] at ho
      cases ho

/-- Ids are the positions of the calls. -/
theorem nextId_of_changes (h : Tabled s) (hch : Changes memdup s s') :
    s'.nextId = s'.calls.length + 1 := by
  have hid := h.nextId
  cases hch with
  | idle hcalls hlist hnext => rw [hnext, hcalls, hid]
  | allocate expectedBytes hcalls hlist hnext =>
    rw [hnext, hcalls, hid, List.length_append, List.length_singleton]
    push_cast
    rfl
  | call d c₀ c₁ hc₀ hmove hcalls hlist hnext => rw [hnext, hcalls, hid, List.length_set]
  | bridge callId found rest hpop hheld hcalls hlist hnext => rw [hnext, hcalls, hid]
  | lose d data c r r' hfill hc hr hlost hid' hvalue hcalls hlist hnext =>
    rw [hnext, hcalls, hid, List.length_set]
  | fill d data c r hfill hc hr hlong hmemory hcalls hlist hnext =>
    rw [hnext, hcalls, hid, List.length_set]
  | complete d data c r hcomplete hc hr hcalls hlist hnext =>
    rw [hnext, hcalls, hid, List.length_set]
  | popAll hheld hlength hothers hlist hnext => rw [hnext, hlength, hid]

/-- The list has every record once, and not the one that the network thread holds. -/
theorem list_of_changes (h : Tabled s) (hch : Changes memdup s s') :
    s'.callResultHead.Nodup ∧ ∀ b, s'.network.holds = some b → b ∉ s'.callResultHead := by
  have hnodup := h.nodup
  have hheld' := h.held
  cases hch with
  | idle hcalls hlist hnext hnetwork =>
    rw [hlist]
    refine ⟨hnodup, fun b hb => ?_⟩
    rcases hnetwork with hsame | ⟨-, hnone⟩
    · exact hheld' b (hsame ▸ hb)
    · rw [hnone] at hb
      cases hb
  | allocate expectedBytes hcalls hlist hnext hnetwork =>
    have hfresh : s.calls.length ∉ s.callResultHead := fun hb =>
      Nat.lt_irrefl _ (h.lt_length (.inl hb))
    rw [hlist, hnetwork]
    refine ⟨List.nodup_append.mpr ⟨hnodup, by simp, ?_⟩, fun b hb hmem => ?_⟩
    · rintro a ha b hb rfl
      rw [List.mem_singleton] at hb
      exact hfresh (hb ▸ ha)
    · rw [List.mem_append, List.mem_singleton] at hmem
      rcases hmem with hmem | rfl
      · exact hheld' b hb hmem
      · exact Nat.lt_irrefl _ (h.lt_length (.inr hb))
  | call d c₀ c₁ hc₀ hmove hcalls hlist hnext hnetwork =>
    rw [hlist, hnetwork]
    exact ⟨hnodup, hheld'⟩
  | bridge callId found rest hpop hheld hcalls hlist hnext hnetwork =>
    obtain ⟨hsub, hfound⟩ := h.popped hpop
    rw [hlist, hnetwork]
    exact ⟨hnodup.sublist hsub, fun b hb => (hfound b hb).2.2⟩
  | lose d data c r r' hfill hc hr hlost hid hvalue hcalls hlist hnext hnetwork =>
    rw [hlist, hnetwork]
    exact ⟨hnodup, by simp⟩
  | fill d data c r hfill hc hr hlong hmemory hcalls hlist hnext hnetwork =>
    rw [hlist, hnetwork]
    exact ⟨hnodup, fun b hb => hheld' b (by rw [hfill]; exact hb)⟩
  | complete d data c r hcomplete hc hr hcalls hlist hnext hnetwork =>
    rw [hlist, hnetwork]
    exact ⟨hnodup, by simp⟩
  | popAll hheld hlength hothers hlist hnext hnetwork =>
    rw [hlist]
    exact ⟨List.nodup_nil, by simp⟩

/-- **One step** keeps what holds of the list. -/
theorem step (h : Tabled s) (hch : Changes memdup s s') : Tabled s' where
  nextId := h.nextId_of_changes hch
  nodup := (h.list_of_changes hch).1
  held := (h.list_of_changes hch).2
  pending b ho := by
    rcases h.owned_of_changes hch ho with ho' | ⟨rfl, expectedBytes, hcalls⟩
    · obtain ⟨c, r, hc, hp, hid⟩ := h.pending b ho'
      obtain ⟨c', r', hc', hp', hid'⟩ := h.pending_of_changes hch ho hc hp
      exact ⟨c', r', hc', hp', hid'.trans hid⟩
    · exact ⟨_, _, by rw [hcalls, List.getElem?_concat_length], ⟨rfl, rfl, rfl⟩, h.nextId⟩

end Tabled

/-! ## A record that was taken out of the list -/

/-- The call has, or has had, its answer; or it has given up and its record is freed. -/
structure Settled (data : Bytes) (c : ProxiedCall) : Prop where
  saw : ∀ m, c.pc.saw = some m → m = data
  record : (∃ r, c.record = some r ∧ r.operationCompleted = 1 ∧ r.data = some data) ∨
    c.record = none ∧ (c.pc = .cancelled ∨ c.pc = .done data)

theorem CallMove.settled {c c' : ProxiedCall} (hmove : CallMove c c') {data : Bytes}
    (h : Settled data c) : Settled data c' := by
  obtain ⟨hsaw, hrecord⟩ := h
  cases hmove with
  | goesOn hpc hpc' =>
    refine ⟨?_, ?_⟩
    · rcases hpc' with rfl | rfl | rfl <;> simp [CallPc.saw]
    · rcases hrecord with hrecord | ⟨-, hover⟩
      · exact .inl hrecord
      · rcases hpc with rfl | rfl <;> simp at hover
  | returns hone =>
    refine ⟨by simp [CallPc.saw], ?_⟩
    rcases hrecord with hrecord | ⟨hnone, -⟩
    · exact .inl hrecord
    · cases hnone
  | givesUp hone =>
    rcases hrecord with ⟨r, hr, hone', -⟩ | ⟨hnone, -⟩
    · cases hr
      exact absurd hone' hone
    · cases hnone
  | uses hdata =>
    rcases hrecord with ⟨r, hr, hone, hdata'⟩ | ⟨hnone, -⟩
    · cases hr
      rw [hdata', Option.some.injEq] at hdata
      exact ⟨by rintro _ ⟨⟩; exact hdata.symm, .inl ⟨_, rfl, hone, hdata'⟩⟩
    · cases hnone
  | frees =>
    obtain rfl := hsaw _ rfl
    exact ⟨by rintro _ ⟨⟩; rfl, .inr ⟨rfl, .inr rfl⟩⟩

/-- What has become of the record `b`, which expects `bytes`, since it was taken out of
the list for `data`. -/
inductive Fate (memdup : Nat → Bool) (b : Nat) (data : Bytes) (bytes : Int) (s : CallTable) :
    Prop
  | taken (c : ProxiedCall) (r : PosixSocketCallResult) (hfill : s.network = .fill b data)
      (hc : s.calls[b]? = some c) (hp : Pending c r) (hbytes : r.bytes = bytes)
  | filled (c : ProxiedCall) (r : PosixSocketCallResult) (hcomplete : s.network = .complete b data)
      (hc : s.calls[b]? = some c) (hp : Pending c r) (hdata : r.data = some data)
      (hkept : bytes ≤ toInt data.length ∧ memdup b = true)
  | settled (c : ProxiedCall) (howned : ¬ s.owned b) (hc : s.calls[b]? = some c)
      (hsettled : Settled data c) (hkept : bytes ≤ toInt data.length ∧ memdup b = true)
  | lost (c : ProxiedCall) (r : PosixSocketCallResult) (howned : ¬ s.owned b)
      (hc : s.calls[b]? = some c) (hp : Pending c r)
      (hlost : toInt data.length < bytes ∨ memdup b = false)

/-- A call whose record nobody else holds makes its own steps only. -/
theorem Changes.call_of_not_owned {memdup : Nat → Bool} {s s' : CallTable}
    (hch : Changes memdup s s') {b : Nat} {c : ProxiedCall} (hc : s.calls[b]? = some c)
    (howned : ¬ s.owned b) :
    ∃ c', s'.calls[b]? = some c' ∧ (c' = c ∨ CallMove c c') := by
  have hlt := (List.getElem?_eq_some_iff.mp hc).1
  cases hch with
  | idle hcalls | bridge _ _ _ _ _ hcalls => exact ⟨c, hcalls ▸ hc, .inl rfl⟩
  | allocate expectedBytes hcalls =>
    exact ⟨c, by rw [hcalls, List.getElem?_append_left hlt, hc], .inl rfl⟩
  | call d c₀ c₁ hc₀ hmove hcalls =>
    by_cases heq : d = b
    · subst heq
      obtain rfl : c = c₀ := Option.some.inj (hc.symm.trans hc₀)
      exact ⟨c₁, by rw [hcalls, List.getElem?_set_self hlt], .inr hmove⟩
    · exact ⟨c, by rw [hcalls, List.getElem?_set_ne heq, hc], .inl rfl⟩
  | lose d data c₀ r _ hfill _ _ _ _ _ hcalls | fill d data c₀ r hfill _ _ _ _ hcalls =>
    have hne : d ≠ b := by
      rintro rfl
      exact howned (.inr (by rw [hfill]; rfl))
    exact ⟨c, by rw [hcalls, List.getElem?_set_ne hne, hc], .inl rfl⟩
  | complete d data c₀ r hcomplete hc₀ hr hcalls =>
    have hne : d ≠ b := by
      rintro rfl
      exact howned (.inr (by rw [hcomplete]; rfl))
    exact ⟨c, by rw [hcalls, List.getElem?_set_ne hne, hc], .inl rfl⟩
  | popAll hheld hlength hothers =>
    exact ⟨c, by rw [hothers b fun hb => howned (.inl hb), hc], .inl rfl⟩

/-- What a step can do to a call without an answer whose record the network thread
holds. -/
inductive HeldChanges (memdup : Nat → Bool) (s s' : CallTable) (b : Nat) (c : ProxiedCall)
    (r : PosixSocketCallResult) : Prop
  | own (c' : ProxiedCall) (r' : PosixSocketCallResult) (hnetwork : s'.network = s.network)
      (hc : s'.calls[b]? = some c') (hp : Pending c' r') (hbytes : r'.bytes = r.bytes)
      (hdata : r'.data = r.data)
  | lose (data : Bytes) (c' : ProxiedCall) (r' : PosixSocketCallResult)
      (hfill : s.network = .fill b data) (hlost : toInt data.length < r.bytes ∨ memdup b = false)
      (hnetwork : s'.network.holds = none) (hlist : s'.callResultHead = s.callResultHead)
      (hc : s'.calls[b]? = some c') (hp : Pending c' r')
  | fill (data : Bytes) (hfill : s.network = .fill b data)
      (hkept : r.bytes ≤ toInt data.length ∧ memdup b = true)
      (hnetwork : s'.network = .complete b data)
      (hc : s'.calls[b]? =
        some ⟨some { r with bytes := toInt data.length, data := some data }, c.pc⟩)
  | complete (data : Bytes) (hcomplete : s.network = .complete b data)
      (hnetwork : s'.network.holds = none) (hlist : s'.callResultHead = s.callResultHead)
      (hc : s'.calls[b]? = some ⟨if r.operationCompleted = 0 then
        some { r with operationCompleted := 1 } else none, c.pc⟩)

theorem Changes.call_of_held {memdup : Nat → Bool} {s s' : CallTable}
    (hch : Changes memdup s s') {b : Nat} {c : ProxiedCall} {r : PosixSocketCallResult}
    (hc : s.calls[b]? = some c) (hp : Pending c r) (hholds : s.network.holds = some b) :
    HeldChanges memdup s s' b c r := by
  have hlt := (List.getElem?_eq_some_iff.mp hc).1
  cases hch with
  | idle hcalls hlist hnext hnetwork =>
    rcases hnetwork with hsame | ⟨hnone, -⟩
    · exact .own c r hsame (hcalls ▸ hc) hp rfl rfl
    · rw [hnone] at hholds
      cases hholds
  | allocate expectedBytes hcalls hlist hnext hnetwork =>
    exact .own c r hnetwork (by rw [hcalls, List.getElem?_append_left hlt, hc]) hp rfl rfl
  | call d c₀ c₁ hc₀ hmove hcalls hlist hnext hnetwork =>
    by_cases heq : d = b
    · subst heq
      obtain rfl : c = c₀ := Option.some.inj (hc.symm.trans hc₀)
      obtain ⟨r', hp', -, hbytes, hdata⟩ := hmove.pending hp
      exact .own c₁ r' hnetwork (by rw [hcalls, List.getElem?_set_self hlt]) hp' hbytes hdata
    · exact .own c r hnetwork (by rw [hcalls, List.getElem?_set_ne heq, hc]) hp rfl rfl
  | bridge callId found rest hpop hheld =>
    rw [hheld] at hholds
    cases hholds
  | lose d data c₀ r₀ r' hfill hc₀ hr hlost hid hvalue hcalls hlist hnext hnetwork =>
    obtain rfl : d = b := by rw [hfill] at hholds; exact Option.some.inj hholds
    obtain rfl : c = c₀ := Option.some.inj (hc.symm.trans hc₀)
    obtain rfl : r = r₀ := Option.some.inj (hp.record.symm.trans hr)
    exact .lose data ⟨some r', c.pc⟩ r' hfill hlost hnetwork hlist
      (by rw [hcalls, List.getElem?_set_self hlt]) ⟨rfl, hvalue.trans hp.value, hp.got⟩
  | fill d data c₀ r' hfill hc₀ hr hlong hmemory hcalls hlist hnext hnetwork =>
    obtain rfl : d = b := by rw [hfill] at hholds; exact Option.some.inj hholds
    obtain rfl : c = c₀ := Option.some.inj (hc.symm.trans hc₀)
    obtain rfl : r = r' := Option.some.inj (hp.record.symm.trans hr)
    exact .fill data hfill ⟨hlong, hmemory⟩ hnetwork
      (by rw [hcalls, List.getElem?_set_self hlt])
  | complete d data c₀ r' hcomplete hc₀ hr hcalls hlist hnext hnetwork =>
    obtain rfl : d = b := by rw [hcomplete] at hholds; exact Option.some.inj hholds
    obtain rfl : c = c₀ := Option.some.inj (hc.symm.trans hc₀)
    obtain rfl : r = r' := Option.some.inj (hp.record.symm.trans hr)
    exact .complete data hcomplete hnetwork hlist (by rw [hcalls, List.getElem?_set_self hlt])
  | popAll hheld =>
    rw [hheld] at hholds
    cases hholds

/-- A call without an answer whose record says so, or is freed, once that is complete. -/
theorem Pending.settled {c : ProxiedCall} {r : PosixSocketCallResult} (h : Pending c r)
    {data : Bytes} (hdata : r.data = some data) :
    Settled data
      ⟨if r.operationCompleted = 0 then some { r with operationCompleted := 1 } else none,
        c.pc⟩ := by
  obtain ⟨hrecord, hvalue, hgot⟩ := h
  refine ⟨fun m hm => ?_, ?_⟩
  · have hm : c.pc.saw = some m := hm
    cases hpc : c.pc <;> simp_all [CallPc.saw, CallPc.got]
  · by_cases hcancelled : c.pc = .cancelled
    · refine .inr ⟨?_, .inl hcancelled⟩
      rw [hvalue, if_pos hcancelled]
      rfl
    · rw [if_neg hcancelled] at hvalue
      exact .inl ⟨_, if_pos hvalue, rfl, hdata⟩

/-- **One step** decides the fate of the record, or keeps it. -/
theorem Fate.step {memdup : Nat → Bool} {s s' : CallTable} {b : Nat} {data : Bytes} {bytes : Int}
    (hs : Tabled s) (h : Fate memdup b data bytes s) (hch : Changes memdup s s') :
    Fate memdup b data bytes s' := by
  -- the list does not have the record that the network thread holds
  have hreleased (hholds : s.network.holds = some b) (hnetwork : s'.network.holds = none)
      (hlist : s'.callResultHead = s.callResultHead) : ¬ s'.owned b := by
    rintro (ho | ho)
    · exact hs.held b hholds (hlist ▸ ho)
    · rw [hnetwork] at ho
      cases ho
  -- and nobody comes to hold one that nobody holds
  have hstays (c : ProxiedCall) (hc : s.calls[b]? = some c) (howned : ¬ s.owned b) :
      ¬ s'.owned b := fun ho => by
    rcases hs.owned_of_changes hch ho with ho | ⟨heq, -⟩
    · exact howned ho
    · have := (List.getElem?_eq_some_iff.mp hc).1
      omega
  cases h with
  | taken c r hfill hc hp hbytes =>
    have hholds : s.network.holds = some b := by rw [hfill]; rfl
    cases hch.call_of_held hc hp hholds with
    | own c' r' hnetwork hc' hp' hbytes' hdata' =>
      exact .taken c' r' (hnetwork.trans hfill) hc' hp' (hbytes'.trans hbytes)
    | lose data' c' r' hfill' hlost hnetwork hlist hc' hp' =>
      obtain ⟨-, rfl⟩ := NetworkPc.fill.inj (hfill.symm.trans hfill')
      exact .lost c' r' (hreleased hholds hnetwork hlist) hc' hp' (hbytes ▸ hlost)
    | fill data' hfill' hkept hnetwork hc' =>
      obtain ⟨-, rfl⟩ := NetworkPc.fill.inj (hfill.symm.trans hfill')
      exact .filled _ _ hnetwork hc' ⟨rfl, hp.value, hp.got⟩ rfl (hbytes ▸ hkept)
    | complete data' hcomplete =>
      rw [hfill] at hcomplete
      cases hcomplete
  | filled c r hcomplete hc hp hdata hkept =>
    have hholds : s.network.holds = some b := by rw [hcomplete]; rfl
    cases hch.call_of_held hc hp hholds with
    | own c' r' hnetwork hc' hp' hbytes' hdata' =>
      exact .filled c' r' (hnetwork.trans hcomplete) hc' hp' (hdata'.trans hdata) hkept
    | lose data' _ _ hfill | fill data' hfill =>
      rw [hcomplete] at hfill
      cases hfill
    | complete data' hcomplete' hnetwork hlist hc' =>
      exact .settled _ (hreleased hholds hnetwork hlist) hc' (hp.settled hdata) hkept
  | settled c howned hc hsettled hkept =>
    obtain ⟨c', hc', rfl | hmove⟩ := hch.call_of_not_owned hc howned
    · exact .settled _ (hstays _ hc howned) hc' hsettled hkept
    · exact .settled c' (hstays c hc howned) hc' (hmove.settled hsettled) hkept
  | lost c r howned hc hp hlost =>
    obtain ⟨c', hc', rfl | hmove⟩ := hch.call_of_not_owned hc howned
    · exact .lost _ r (hstays _ hc howned) hc' hp hlost
    · obtain ⟨r', hp', -⟩ := hmove.pending hp
      exact .lost c' r' (hstays c hc howned) hc' hp' hlost

/-! ## Every answer -/

/-- The record of a call in the list is found under the id of the call. -/
theorem popFrom_found {s : CallTable} {callId : Int} {list : List Nat}
    (h : ∀ d ∈ list, ∃ r, s.load d = .ok r ∧ r.callId = d + 1) {b : Nat} (hb : b ∈ list)
    (hid : callId = b + 1) : ∃ rest, s.popFrom callId list = .ok (some b, rest) := by
  induction list with
  | nil => cases hb
  | cons d ds ih =>
    obtain ⟨r, hload, hr⟩ := h d (List.mem_cons_self ..)
    rw [popFrom, hload, ok_bind]
    by_cases heq : r.callId = callId
    · obtain rfl : d = b := by omega
      exact ⟨ds, by rw [if_pos heq]; rfl⟩
    · have hb : b ∈ ds := (List.mem_cons.mp hb).resolve_left (by rintro rfl; exact heq (by omega))
      obtain ⟨rest, hpop⟩ := ih (fun d hd => h d (List.mem_cons_of_mem _ hd)) hb
      exact ⟨d :: rest, by rw [if_neg heq, hpop]; rfl⟩

/-- The walk looks at the records only. -/
theorem popFrom_onMessage (s : CallTable) (id : Nat) (m : Bytes) (callId : Int) (list : List Nat) :
    (s.onMessage id m).popFrom callId list = s.popFrom callId list := by
  induction list with
  | nil => rfl
  | cons d ds ih =>
    rw [popFrom, popFrom, ih]
    rfl

/-- The first step of `BridgeSocketOnMessage`, for a message that names a record. -/
theorem networkStep_onMessage {junk : Bytes} (memdup : Nat → Bool) {s : CallTable}
    {callId b : Nat} {m : Bytes} {rest : List Nat} (hm : m.length < 2 ^ 64)
    (hpop : s.popFrom (leadingInt (bridgedData junk callId m)) s.callResultHead =
      .ok (some b, rest)) :
    (s.onMessage callId m).networkStep junk memdup = .ok { s with
      callResultHead := rest, network := .fill b (bridgedData junk callId m) } := by
  have hread : (RecvBuffer.build callId m.length m).readLength = .ok m.length := by
    rw [RecvBuffer.readLength_ok (by rw [RecvBuffer.data_build_length]; omega),
      RecvBuffer.length_build _ hm]
  have hdata : (if m.length < socketCallResultHeaderSize then
      toLE 4 callId ++ toLE 4 (2 ^ 32 - 1) ++ junk else m.take m.length) =
      bridgedData junk callId m := by
    rw [bridgedData, List.take_length]
  rw [← popFrom_onMessage s callId m] at hpop
  show (s.onMessage callId m).bridgeSocketOnMessage junk callId _ = _
  simp only [bridgeSocketOnMessage, hread, ok_bind, RecvBuffer.payload_build, Nat.lt_irrefl,
    if_false, hdata]
  show (popFrom _ _ s.callResultHead >>= _) = _
  rw [hpop]
  rfl

/-- The steps of the network thread with a record that it holds succeed. -/
theorem Fate.networkStep {memdup : Nat → Bool} {s : CallTable} {b : Nat} {data : Bytes}
    {bytes : Int} (h : Fate memdup b data bytes s) (hholds : s.network.holds = some b)
    (junk : Bytes) :
    ∃ s', s.networkStep junk memdup = .ok s' ∧
      s'.network.stepsLeft < s.network.stepsLeft := by
  cases h with
  | taken c r hfill hc hp hbytes =>
    by_cases hshort : toInt data.length < r.bytes
    · refine ⟨{ s with network := .take }, ?_, by rw [hfill]; exact Nat.zero_lt_succ _⟩
      simp [CallTable.networkStep, hfill, load_ok hc hp.record, hshort]
    · cases hmemory : memdup b with
      | false =>
        refine ⟨{ s.setCall b (some { r with bytes := toInt data.length, data := none })
          (s.pcOf b) with network := .take }, ?_, by rw [hfill]; exact Nat.zero_lt_succ _⟩
        simp [CallTable.networkStep, hfill, load_ok hc hp.record, hshort, hmemory]
      | true =>
        refine ⟨{ s.setCall b (some { r with bytes := toInt data.length, data := some data })
          (s.pcOf b) with network := .complete b data }, ?_,
          by rw [hfill]; exact Nat.lt_succ_self _⟩
        simp [CallTable.networkStep, hfill, load_ok hc hp.record, hshort, hmemory]
  | filled c r hcomplete hc hp hdata hkept =>
    by_cases hzero : r.operationCompleted = 0
    · refine ⟨{ s.setCall b (some { r with operationCompleted := 1 }) (s.pcOf b) with
        network := .take }, ?_, by rw [hcomplete]; exact Nat.zero_lt_succ _⟩
      simp [CallTable.networkStep, hcomplete, load_ok hc hp.record, hzero]
    · refine ⟨{ s.setCall b none (s.pcOf b) with network := .take }, ?_,
        by rw [hcomplete]; exact Nat.zero_lt_succ _⟩
      simp [CallTable.networkStep, hcomplete, load_ok hc hp.record, hzero, freeCallResult]
  | settled c howned => exact absurd (.inr hholds) howned
  | lost c r howned => exact absurd (.inr hholds) howned

theorem Tabled.onMessage {s : CallTable} (h : Tabled s) (callId : Nat) (m : Bytes) :
    Tabled (s.onMessage callId m) where
  nextId := h.nextId
  nodup := h.nodup
  held b hb := by cases hb
  pending b ho := h.pending b (ho.imp_right fun hb => by cases hb)

/-- **Answered calls.** `BridgeSocketOnMessage` is called, in any reachable state, with any
message that names a record of the list; then anything may happen. While the network
thread has the record its steps succeed, and there are at most two of them. When it
has let go of the record, the call has its answer, or has given up and the record is
freed, exactly if the message (or the header in its place) has as many bytes as the
call expects and there is memory for a copy of it; otherwise the record is in nobody's
hands and the call has got nothing. -/
theorem bridgeSocketOnMessage_completes_iff {junk : Bytes} (hjunk : junk.length = 4)
    {memdup : Nat → Bool} {es es' : List CallEvent} {s s' : CallTable}
    (hrun : (answerMachine junk memdup).run es = some (.ok s))
    {callId : Nat} {m : Bytes} (hm : m.length < 2 ^ 64) {b : Nat} {r : PosixSocketCallResult}
    (hb : b ∈ s.callResultHead) (hr : s.recordOf b = some r)
    (hid : leadingInt (bridgedData junk callId m) = r.callId)
    (hrun' : (answerMachine junk memdup).runFrom (.ok (s.onMessage callId m)) (.network :: es') =
      some (.ok s')) :
    socketCallResultHeaderSize ≤ (bridgedData junk callId m).length ∧
    (s'.network.holds = some b → ∃ s'', s'.networkStep junk memdup = .ok s'' ∧
      s''.network.stepsLeft < s'.network.stepsLeft) ∧
    (s'.network.holds ≠ some b → ∃ c, s'.calls[b]? = some c ∧ b ∉ s'.callResultHead ∧
      (Settled (bridgedData junk callId m) c ↔
        r.bytes ≤ toInt (bridgedData junk callId m).length ∧ memdup b = true) ∧
      (¬ Settled (bridgedData junk callId m) c → c.pc.got = false)) := by
  have hs : Tabled s := checked_runFrom_invariant Tabled
    (fun _ _ _ ht hen hact => ht.step (act_changes hen hact)) tabled_new hrun
  -- the first step takes the record out of the list
  obtain ⟨c, r', hc, hp, hid'⟩ := hs.pending b (.inl hb)
  obtain rfl : r = r' := by
    have : s.recordOf b = some r' := by rw [recordOf, hc]; exact hp.record
    exact Option.some.inj (hr.symm.trans this)
  obtain ⟨rest, hpop⟩ := popFrom_found (fun d hd => hs.listed hd) hb (hid.trans hid')
  obtain ⟨s₁, hen, hact, hrest⟩ := checked_runFrom_cons hrun'
  have htabled : Tabled s₁ := (hs.onMessage callId m).step (act_changes hen hact)
  obtain rfl := Except.ok.inj ((networkStep_onMessage memdup hm hpop).symm.trans hact)
  -- and then its fate takes its course
  obtain ⟨-, hfate⟩ : Tabled s' ∧ Fate memdup b (bridgedData junk callId m) r.bytes s' :=
    checked_runFrom_invariant
      (fun t => Tabled t ∧ Fate memdup b (bridgedData junk callId m) r.bytes t)
      (fun t e t' ht hen hact =>
        ⟨ht.1.step (act_changes hen hact), ht.2.step ht.1 (act_changes hen hact)⟩)
      ⟨htabled, .taken c r rfl hc hp rfl⟩ hrest
  refine ⟨?_, fun hholds => hfate.networkStep hholds junk, fun hleft => ?_⟩
  · unfold bridgedData
    split
    · simp [toLE_length, hjunk, socketCallResultHeaderSize]
    · omega
  · cases hfate with
    | taken c r hfill => exact absurd (by rw [hfill]; rfl) hleft
    | filled c r hcomplete => exact absurd (by rw [hcomplete]; rfl) hleft
    | settled c howned hc hsettled hkept =>
      exact ⟨c, hc, fun hb => howned (.inl hb), ⟨fun _ => hkept, fun _ => hsettled⟩,
        fun hno => absurd hsettled hno⟩
    | lost c r' howned hc hp hlost =>
      refine ⟨c, hc, fun hb => howned (.inl hb), ⟨fun hsettled => ?_, fun hkept => ?_⟩,
        fun _ => hp.got⟩
      rotate_left
      · rcases hlost with hshort | hmemory
        · omega
        · rw [hkept.2] at hmemory
          cases hmemory
      rcases hsettled.record with ⟨r₁, hr₁, hone, -⟩ | ⟨hnone, -⟩
      · obtain rfl := Option.some.inj (hr₁.symm.trans hp.record)
        exact absurd hone hp.ne_one
      · rw [hp.record] at hnone
        cases hnone

/-! ## Two calls -/

/-- A context with one call, which waits for an answer of so many bytes. -/
def waitingFor (expectedBytes : Nat) : CallTable :=
  { new with
    calls := [⟨some ⟨1, 0, expectedBytes, none⟩, .put⟩]
    callResultHead := [0]
    nextId := 2
    callIdHeader := [1]
    requests := [(1, expectedBytes)] }

/-- The reply to call 1 that has a header only: `ret` and `errno_` are -2 and 2. -/
def errorReply : Bytes := [1, 0, 0, 0, 254, 255, 255, 255, 2, 0, 0, 0]

/-- The events that lead to a waiting call. -/
def makeCall (expectedBytes : Nat) : List CallEvent :=
  [.allocate expectedBytes, .send 0, .putCallId 0]

theorem run_makeCall (expectedBytes : Nat) (junk : Bytes) (memdup : Nat → Bool) :
    (answerMachine junk memdup).run (makeCall expectedBytes) =
      some (.ok (waitingFor expectedBytes)) := by
  rfl

/-- A call that expects a header gets it. -/
theorem bridgeSocketOnMessage_completes_iff_header :
    ∃ s', (answerMachine [0, 0, 0, 0] fun _ => true).runFrom
        (.ok ((waitingFor 12).onMessage 1 errorReply)) [.network, .network, .network] =
          some (.ok s') ∧
      ∃ c, s'.calls[0]? = some c ∧ Settled errorReply c := by
  let s' : CallTable := { waitingFor 12 with
    calls := [⟨some ⟨1, 1, 12, some errorReply⟩, .put⟩], callResultHead := [], network := .take }
  have hrun' : (answerMachine [0, 0, 0, 0] fun _ => true).runFrom
      (.ok ((waitingFor 12).onMessage 1 errorReply)) [.network, .network, .network] =
        some (.ok s') := by
    rfl
  obtain ⟨-, -, hleft⟩ := bridgeSocketOnMessage_completes_iff (b := 0) (r := ⟨1, 0, 12, none⟩) rfl
    (run_makeCall 12 [0, 0, 0, 0] fun _ => true) (by decide) (by decide) rfl (by decide) hrun'
  obtain ⟨c, hc, -, hiff, -⟩ := hleft (by decide)
  exact ⟨s', hrun', c, hc, hiff.mpr (by decide)⟩

/-- `sizeof(Result)` in `getaddrinfo3`, which is what it expects. -/
def addrinfoResultSize : Nat := socketCallResultHeaderSize + 2048 + 4

/-- `getaddrinfo3` still waits, after its reply has come: the record was taken out of the
list, and the size of the reply was looked at only then. So does a call that expects a
header only, when there is no memory for a copy of its reply. -/
theorem short_answer_is_lost :
    let answered (memory : Bool) (expectedBytes : Nat) :=
      ((answerMachine [0, 0, 0, 0] fun _ => memory).run (makeCall expectedBytes ++
        .answer ⟨true, .binary, none, errorReply, by decide⟩ :: List.replicate 7 .network ++
          [.wait 0])).map
        fun result => result.toOption.map fun s => (s.callResultHead, s.network, s.calls)
    answered true addrinfoResultSize =
        some (some ([], .take, [⟨some ⟨1, 0, addrinfoResultSize, none⟩, .put⟩])) ∧
      answered false 12 = some (some ([], .take, [⟨some ⟨1, 0, 12, none⟩, .put⟩])) := by
  decide +kernel

end CallTable

end ZktlsNet
