import ZktlsNet.Proxy.CallTable

/-!
# Matching and single ownership of proxied calls

- `load_ok`, `popFrom_ok`, `popAll_ok`: the walks over the list, none of whose
  records is freed.
- `Inv.update`: a step of one call.
- `Inv.networkStep`: a step of the network thread.
- `callTable_safe`: every run.
-/

namespace ZktlsNet

open NetLib

namespace CallTable

/-! ## Accesses -/

theorem load_ok {s : CallTable} {b : Nat} {c : ProxiedCall} {r : PosixSocketCallResult}
    (hc : s.calls[b]? = some c) (hr : c.record = some r) : s.load b = .ok r := by
  have hrecord : s.recordOf b = some r := by rw [recordOf, hc]; exact hr
  rw [load, hrecord]

theorem pcOf_eq {s : CallTable} {b : Nat} {c : ProxiedCall} (hc : s.calls[b]? = some c) :
    s.pcOf b = c.pc := by
  rw [pcOf, hc]
  rfl

/-- A pointer whose call is somewhere is the pointer of a call. -/
theorem exists_of_pcOf {s : CallTable} {b : Nat} (h : s.pcOf b ≠ .abandoned) :
    ∃ c, s.calls[b]? = some c ∧ c.pc = s.pcOf b := by
  cases hc : s.calls[b]? with
  | none =>
    rw [pcOf, hc] at h
    exact absurd rfl h
  | some c => exact ⟨c, rfl, (pcOf_eq hc).symm⟩

theorem load_setCall_ne {s : CallTable} {b d : Nat} (hne : d ≠ b)
    (record : Option PosixSocketCallResult) (pc : CallPc) :
    (s.setCall d record pc).load b = s.load b := by
  have hrecord : (s.setCall d record pc).recordOf b = s.recordOf b := by
    show ((s.calls.set d ⟨record, pc⟩)[b]?).bind ProxiedCall.record = _
    rw [List.getElem?_set_ne hne, recordOf]
  rw [load, load, hrecord]

/-- What holds of the call that is set and of the others holds of all. -/
theorem forall_setCall {s : CallTable} {b : Nat} (hlt : b < s.calls.length)
    {record : Option PosixSocketCallResult} {pc : CallPc} {P : Nat → ProxiedCall → Prop}
    (hset : P b ⟨record, pc⟩) (hothers : ∀ d c, s.calls[d]? = some c → P d c) (d : Nat)
    (c : ProxiedCall) (hc : (s.setCall b record pc).calls[d]? = some c) : P d c := by
  have hc : (s.calls.set b ⟨record, pc⟩)[d]? = some c := hc
  by_cases heq : b = d
  · subst heq
    rw [List.getElem?_set_self hlt, Option.some.injEq] at hc
    subst hc
    exact hset
  · rw [List.getElem?_set_ne heq] at hc
    exact hothers d c hc

/-- Every pointer into the calls has a call. -/
theorem exists_call {s : CallTable} {b : Nat} (h : b < s.calls.length) :
    ∃ c, s.calls[b]? = some c := ⟨s.calls[b], List.getElem?_eq_getElem h⟩

/-- A record in the list can be accessed. -/
theorem Inv.load_listed {s : CallTable} (h : Inv s) {b : Nat} (hb : b ∈ s.callResultHead) :
    ∃ c r, s.calls[b]? = some c ∧ c.record = some r ∧ s.load b = .ok r ∧ r.callId = b + 1 := by
  obtain ⟨c, hc⟩ := exists_call (h.listed b hb)
  obtain ⟨r, hr⟩ := (h.calls b c hc).alive_of_owned (.inl hb)
  exact ⟨c, r, hc, hr, load_ok hc hr, (h.calls b c hc).callId r hr⟩

theorem walk_ok {s : CallTable} {list : List Nat} (h : ∀ b ∈ list, ∃ r, s.load b = .ok r) :
    s.walk list = .ok () := by
  induction list with
  | nil => rfl
  | cons b bs ih =>
    obtain ⟨r, hr⟩ := h b (List.mem_cons_self ..)
    rw [walk, hr, ok_bind]
    exact ih fun b hb => h b (List.mem_cons_of_mem _ hb)

/-- The record that is found is taken out of the list. -/
theorem popFrom_ok {s : CallTable} (callId : Int) {list : List Nat}
    (h : ∀ b ∈ list, ∃ r, s.load b = .ok r ∧ r.callId = b + 1) (hnodup : list.Nodup) :
    ∃ found rest, s.popFrom callId list = .ok (found, rest) ∧ rest.Sublist list ∧
      ∀ b, found = some b → b ∈ list ∧ callId = b + 1 ∧ b ∉ rest := by
  induction list with
  | nil => exact ⟨none, [], rfl, .slnil, by simp⟩
  | cons b bs ih =>
    obtain ⟨r, hload, hid⟩ := h b (List.mem_cons_self ..)
    obtain ⟨hb, hbs⟩ := List.nodup_cons.mp hnodup
    rw [popFrom, hload, ok_bind]
    -- ids are the positions of the calls, so the first record with the id is the only one
    by_cases heq : r.callId = callId
    · refine ⟨some b, bs, by rw [if_pos heq]; rfl, List.sublist_cons_self b bs, ?_⟩
      rintro _ ⟨⟩
      exact ⟨List.mem_cons_self .., by rw [← heq, hid], hb⟩
    · obtain ⟨found, rest, hpop, hsub, hfound⟩ :=
        ih (fun b hb => h b (List.mem_cons_of_mem _ hb)) hbs
      refine ⟨found, b :: rest, by rw [if_neg heq, hpop]; rfl, hsub.cons_cons b, ?_⟩
      intro d hd
      obtain ⟨hmem, hcall, hno⟩ := hfound d hd
      refine ⟨List.mem_cons_of_mem _ hmem, hcall, ?_⟩
      rw [List.mem_cons]
      rintro (rfl | hd)
      · exact hb hmem
      · exact hno hd

/-- Freeing a list of different records frees each of them once. -/
theorem popAll_ok {list : List Nat} : ∀ {s : CallTable}, (∀ b ∈ list, ∃ r, s.load b = .ok r) →
    list.Nodup → ∃ calls, s.popAll list = .ok { s with calls := calls } ∧
      calls.length = s.calls.length ∧
      ∀ b c', calls[b]? = some c' → ∃ c, s.calls[b]? = some c ∧ c'.pc = c.pc ∧
        (c' = c ∧ b ∉ list ∨ c'.record = none) := by
  induction list with
  | nil =>
    intro s _ _
    exact ⟨s.calls, rfl, rfl, fun b c' hc' => ⟨c', hc', rfl, .inl ⟨rfl, by simp⟩⟩⟩
  | cons d ds ih =>
    intro s h hnodup
    obtain ⟨hd, hds⟩ := List.nodup_cons.mp hnodup
    obtain ⟨r, hload⟩ := h d (List.mem_cons_self ..)
    -- the other records are where they were
    have hothers : ∀ b ∈ ds, ∃ r, (s.setCall d none (s.pcOf d)).load b = .ok r := by
      intro b hb
      obtain ⟨r, hr⟩ := h b (List.mem_cons_of_mem _ hb)
      have hne : d ≠ b := by
        rintro rfl
        exact hd hb
      exact ⟨r, by rw [load_setCall_ne hne, hr]⟩
    obtain ⟨calls, hpop, hlen, hcalls⟩ := ih hothers hds
    refine ⟨calls, ?_, ?_, ?_⟩
    · rw [popAll, freeCallResult, hload]
      exact hpop
    · rw [hlen]
      exact List.length_set
    · intro b c' hc'
      obtain ⟨c₁, hc₁, hpc, hcase⟩ := hcalls b c' hc'
      have hc₁ : (s.calls.set d ⟨none, s.pcOf d⟩)[b]? = some c₁ := hc₁
      by_cases heq : d = b
      · subst heq
        have hlt : d < s.calls.length := by
          have := (List.getElem?_eq_some_iff.mp hc₁).1
          rwa [List.length_set] at this
        obtain ⟨c, hc⟩ := exists_call hlt
        rw [List.getElem?_set_self hlt, Option.some.injEq] at hc₁
        subst hc₁
        refine ⟨c, hc, by rw [hpc]; exact pcOf_eq hc, .inr ?_⟩
        rcases hcase with ⟨rfl, -⟩ | hnone
        · rfl
        · exact hnone
      · rw [List.getElem?_set_ne heq] at hc₁
        refine ⟨c₁, hc₁, hpc, ?_⟩
        rcases hcase with ⟨rfl, hno⟩ | hnone
        · refine .inl ⟨rfl, ?_⟩
          rw [List.mem_cons]
          rintro (rfl | hb)
          · exact heq rfl
          · exact hno hb
        · exact .inr hnone

/-! ## A step of one call -/

/-- A step of the call `b` that leaves the list and the network thread alone. -/
theorem Inv.update {s : CallTable} (h : Inv s) {b : Nat} {c : ProxiedCall}
    (hc : s.calls[b]? = some c) {record : Option PosixSocketCallResult} {pc : CallPc}
    (hok : CallOk (s.owned b) s.answers b ⟨record, pc⟩)
    (hdata : s.network.holds = some b → ∀ r', record = some r' →
      ∃ r, c.record = some r ∧ r'.data = r.data)
    (requests : List (Int × Int)) (callIdHeader : List Nat) :
    Inv { s.setCall b record pc with requests := requests, callIdHeader := callIdHeader } := by
  have hlen : (s.calls.set b ⟨record, pc⟩).length = s.calls.length := List.length_set
  have hlt := (List.getElem?_eq_some_iff.mp hc).1
  refine ⟨by simp only [setCall, hlen]; exact h.nextId, ?_, ?_, h.nodup, ?_, h.fill, ?_, h.bridge,
    h.parked, h.incoming, h.answerIds⟩
  · exact forall_setCall hlt hok h.calls
  · simp only [setCall, hlen]
    exact h.listed
  · simp only [setCall, hlen]
    exact h.held
  · intro d m hcomplete
    have hcomplete : s.network = .complete d m := hcomplete
    obtain ⟨hmem, hfilled⟩ := h.complete d m hcomplete
    refine ⟨hmem, fun c' r' hc' => ?_⟩
    have hsame : ∀ e c', (s.setCall b record pc).calls[e]? = some c' → e = d →
        ∀ r', c'.record = some r' → r'.data = some m := by
      refine forall_setCall hlt ?_ ?_
      · rintro rfl r' hr'
        obtain ⟨r, hr, hsame⟩ := hdata (by rw [hcomplete]; rfl) r' hr'
        rw [hsame]
        exact hfilled c r hc hr
      · rintro e c₁ hc₁ rfl r₁ hr₁
        exact hfilled c₁ r₁ hc₁ hr₁
    exact hsame d c' hc' rfl r'

/-! ## A step of the network thread -/

/-- The network thread moves on, and holds no record. -/
theorem Inv.setNetwork {s : CallTable} (h : Inv s) {network : NetworkPc}
    (hholds : network.holds = none)
    (hbridge : ∀ id chunk, network = .bridge id chunk →
      ∃ m, chunk = messageChunk m ∧ s.Answered m) : Inv { s with network := network } where
  nextId := h.nextId
  calls b c hc := (h.calls b c hc).mono (fun ho => ho.imp_right fun hh => by
    rw [show ({ s with network := network } : CallTable).network = network from rfl, hholds] at hh
    cases hh) (fun _ ha => ha)
  listed := h.listed
  nodup := h.nodup
  held b hb := by
    rw [show ({ s with network := network } : CallTable).network = network from rfl, hholds] at hb
    cases hb
  fill b m hfill := by
    rw [show network = .fill b m from hfill] at hholds
    cases hholds
  complete b m hcomplete := by
    rw [show network = .complete b m from hcomplete] at hholds
    cases hholds
  bridge := hbridge
  parked := h.parked
  incoming := h.incoming
  answerIds := h.answerIds

/-- What the threads wait for, and the messages, do not matter to the records. -/
theorem Inv.setRest {s : CallTable} (h : Inv s) (callIdHeader : List Nat)
    (waitNextCallId waitOperationCompleted : Bool) {ctx : RecvCtx} (hparked : Parked s.Answered ctx)
    {stream : Link}
    (hincoming : ∃ fs, stream.incoming = wire fs ∧ ∀ f ∈ fs, s.Answered f.payload) :
    Inv { s with
      callIdHeader := callIdHeader
      waitNextCallId := waitNextCallId
      waitOperationCompleted := waitOperationCompleted
      networkRecvCtx := ctx
      channelStream := stream } :=
  ⟨h.nextId, h.calls, h.listed, h.nodup, h.held, h.fill, h.complete, h.bridge, hparked, hincoming,
    h.answerIds⟩

/-- The bridge finds the record of the message, and takes it out of the list. -/
theorem Inv.bridgeSocketOnMessage {s : CallTable} (h : Inv s) (junk : Bytes) {callId : Nat}
    {chunk : RecvBuffer} (hnetwork : s.network = .bridge callId chunk) :
    ∃ s', s.bridgeSocketOnMessage junk callId chunk = .ok s' ∧ Inv s' := by
  obtain ⟨m, rfl, hanswer, hsize, hfits⟩ := h.bridge callId chunk hnetwork
  have hlen := length_messageChunk (show m.length < 2 ^ 64 by omega)
  have hread : (messageChunk m).readLength = .ok m.length := by
    rw [RecvBuffer.readLength_ok (words_messageChunk m), hlen]
  have hlisted : ∀ b ∈ s.callResultHead, ∃ r, s.load b = .ok r ∧ r.callId = b + 1 := by
    intro b hb
    obtain ⟨_, r, _, _, hload, hid⟩ := h.load_listed hb
    exact ⟨r, hload, hid⟩
  obtain ⟨found, rest, hpop, hsub, hfound⟩ := popFrom_ok (leadingInt m) hlisted h.nodup
  have hshort : ¬ m.length < socketCallResultHeaderSize := by omega
  -- a shorter list has fewer holders
  have hrest : Inv { s with callResultHead := rest, network := .take } := by
    have htake : Inv { s with network := .take } := h.setNetwork rfl (by simp)
    exact ⟨htake.nextId, fun b c hc => (htake.calls b c hc).mono
        (fun ho => ho.imp_left fun hb => hsub.subset hb) (fun _ ha => ha),
      fun b hb => h.listed b (hsub.subset hb), h.nodup.sublist hsub, by rintro _ ⟨⟩, htake.fill,
      htake.complete, htake.bridge, htake.parked, htake.incoming, htake.answerIds⟩
  cases found with
  | none =>
    refine ⟨_, ?_, hrest⟩
    simp [CallTable.bridgeSocketOnMessage, hread, hshort, hpop]
  | some b =>
    obtain ⟨hmem, hid, hno⟩ := hfound b rfl
    refine ⟨{ s with callResultHead := rest, network := .fill b m }, ?_, ?_⟩
    · simp [CallTable.bridgeSocketOnMessage, hread, hshort, hpop]
    · refine ⟨h.nextId, fun d c hc => (h.calls d c hc).mono (fun ho => ?_) (fun _ ha => ha),
        hrest.listed, hrest.nodup, ?_, ?_, by simp, by simp, h.parked, h.incoming, h.answerIds⟩
      · rcases ho with hd | hd
        · exact .inl (hsub.subset hd)
        · cases hd
          exact .inl hmem
      · rintro _ ⟨⟩
        exact ⟨h.listed b hmem, hno⟩
      · rintro _ _ ⟨⟩
        rw [← hid]
        exact hanswer

/-- The record that the network thread holds is not freed, and says nothing yet. -/
theorem Inv.load_held {s : CallTable} (h : Inv s) {b : Nat} (hholds : s.network.holds = some b) :
    ∃ c r, s.calls[b]? = some c ∧ c.record = some r ∧ s.load b = .ok r ∧
      r.operationCompleted ≠ 1 := by
  obtain ⟨c, hc⟩ := exists_call (h.held b hholds).1
  have hok := h.calls b c hc
  have howned : s.owned b := .inr hholds
  obtain ⟨r, hr⟩ := hok.alive_of_owned howned
  exact ⟨c, r, hc, hr, load_ok hc hr, fun hone => (hok.completed r hr hone).1 howned⟩

/-- Filling a record. -/
theorem Inv.fillStep {s : CallTable} (h : Inv s) (junk : Bytes) (memdup : Nat → Bool) {b : Nat}
    {data : Bytes} (hnetwork : s.network = .fill b data) :
    ∃ s', s.networkStep junk memdup = .ok s' ∧ Inv s' := by
  have hholds : s.network.holds = some b := by rw [hnetwork]; rfl
  obtain ⟨c, r, hc, hr, hload, hone⟩ := h.load_held hholds
  obtain ⟨hlt, hno⟩ := h.held b hholds
  have hok := h.calls b c hc
  by_cases hshort : toInt data.length < r.bytes
  · refine ⟨{ s with network := .take }, ?_, h.setNetwork rfl (by simp)⟩
    simp [networkStep, hnetwork, hload, hshort]
  cases hmemory : memdup b with
  | false =>
    -- the record is in nobody's hands, and has no answer
    have htake : Inv { s with network := .take } := h.setNetwork rfl (by simp)
    have hok' := htake.calls b c hc
    let r' : PosixSocketCallResult := { r with bytes := toInt data.length, data := none }
    refine ⟨{ s.setCall b (some r') (s.pcOf b) with network := .take }, ?_, ?_⟩
    · simp [networkStep, hnetwork, hload, hshort, hmemory, r']
    · refine htake.update hc ?_ ?_ s.requests s.callIdHeader
      · rw [pcOf_eq hc]
        exact .ofRecord (hok'.callId r hr) (hok'.cancelled r hr) (hok'.values r hr)
          (fun h1 => absurd h1 hone) (hok'.returned r hr) (hok'.not_done hr) hok'.saw
      · intro hholds
        cases hholds
  | true =>
    let r' : PosixSocketCallResult := { r with bytes := toInt data.length, data := some data }
    refine ⟨{ s.setCall b (some r') (s.pcOf b) with network := .complete b data }, ?_, ?_⟩
    · simp [networkStep, hnetwork, hload, hshort, hmemory, r']
    · have hlen : (s.calls.set b ⟨some r', s.pcOf b⟩).length = s.calls.length := List.length_set
      have hok' : CallOk (s.owned b) s.answers b ⟨some r', s.pcOf b⟩ := by
        rw [pcOf_eq hc]
        exact .ofRecord (hok.callId r hr) (hok.cancelled r hr) (hok.values r hr)
          (fun h1 => absurd h1 hone) (hok.returned r hr) (hok.not_done hr) hok.saw
      have hcalls : ∀ e c', (s.setCall b (some r') (s.pcOf b)).calls[e]? = some c' →
          CallOk (s.owned e) s.answers e c' := forall_setCall hlt hok' h.calls
      -- the thread holds the record as before
      have hsame (e : Nat) :
          owned { s.setCall b (some r') (s.pcOf b) with network := .complete b data } e →
            s.owned e := fun ho => ho.imp_right fun hh => by
        rw [hholds]
        exact hh
      refine ⟨?_, fun e c' hc' => (hcalls e c' hc').mono (hsame e) (fun _ ha => ha), ?_, h.nodup,
        ?_, by simp, ?_, by simp, h.parked, h.incoming, h.answerIds⟩
      · simp only [setCall, hlen]
        exact h.nextId
      · simp only [setCall, hlen]
        exact h.listed
      · rintro _ ⟨⟩
        simp only [setCall, hlen]
        exact ⟨hlt, hno⟩
      · rintro _ _ ⟨⟩
        refine ⟨h.fill b data hnetwork, fun c' r₁ hc' hr₁ => ?_⟩
        have hc' : (s.calls.set b ⟨some r', s.pcOf b⟩)[b]? = some c' := hc'
        rw [List.getElem?_set_self hlt, Option.some.injEq] at hc'
        subst hc'
        cases hr₁
        rfl

/-- Saying that a record is complete, or freeing it. -/
theorem Inv.completeStep {s : CallTable} (h : Inv s) (junk : Bytes) (memdup : Nat → Bool)
    {b : Nat} {data : Bytes} (hnetwork : s.network = .complete b data) :
    ∃ s', s.networkStep junk memdup = .ok s' ∧ Inv s' := by
  have hholds : s.network.holds = some b := by rw [hnetwork]; rfl
  obtain ⟨c, r, hc, hr, hload, hone⟩ := h.load_held hholds
  obtain ⟨hanswer, hfilled⟩ := h.complete b data hnetwork
  have hnot : ¬ owned { s with network := .take } b := by
    rintro (hh | hh)
    · exact (h.held b hholds).2 hh
    · cases hh
  have htake : Inv { s with network := .take } := h.setNetwork rfl (by simp)
  have hok := htake.calls b c hc
  by_cases hzero : r.operationCompleted = 0
  · -- the caller is still waiting, or will
    refine ⟨{ s.setCall b (some { r with operationCompleted := 1 }) (s.pcOf b) with
      network := .take }, by simp [networkStep, hnetwork, hload, hzero], ?_⟩
    refine htake.update hc ?_ ?_ s.requests s.callIdHeader
    · have hne : c.pc ≠ .cancelled := fun hh => by
        have := (hok.cancelled r hr).mpr hh
        omega
      rw [pcOf_eq hc]
      exact .ofRecord (hok.callId r hr) (by simp [hne]) (by simp)
        (fun _ => ⟨hnot, data, hfilled c r hc hr, hanswer⟩) (fun _ => rfl) (hok.not_done hr) hok.saw
    · rintro - _ ⟨⟩
      exact ⟨r, hr, rfl⟩
  · -- the caller has given up, and the record is nobody's
    have htwo : r.operationCompleted = 2 := by
      have := hok.values r hr
      omega
    have hcancelled := (hok.cancelled r hr).mp htwo
    refine ⟨{ s.setCall b none (s.pcOf b) with network := .take },
      by simp [networkStep, freeCallResult, hnetwork, hload, hzero], ?_⟩
    refine htake.update hc ?_ (by simp) s.requests s.callIdHeader
    rw [pcOf_eq hc]
    exact .ofFreed hnot (by rw [hcancelled]; rfl) hok.saw

/-- **A step of the network thread** accesses no freed record. -/
theorem Inv.networkStep {s : CallTable} (h : Inv s) (junk : Bytes) (memdup : Nat → Bool)
    (hen : s.enabled .network = true) : ∃ s', s.networkStep junk memdup = .ok s' ∧ Inv s' := by
  cases hnetwork : s.network with
  | start =>
    refine ⟨{ s with waitNextCallId := true, network := .take },
      by simp [CallTable.networkStep, hnetwork], ?_⟩
    have htake : Inv { s with network := .take } := h.setNetwork rfl (by simp)
    exact htake.setRest s.callIdHeader true s.waitOperationCompleted htake.parked htake.incoming
  | take =>
    cases hids : s.callIdHeader with
    | nil =>
      exact ⟨{ s with network := .exited }, by simp [CallTable.networkStep, hnetwork, hids],
        h.setNetwork rfl (by simp)⟩
    | cons callId ids =>
      refine ⟨{ s with callIdHeader := ids, network := .recv callId },
        by simp [CallTable.networkStep, hnetwork, hids], ?_⟩
      have hrecv : Inv { s with network := .recv callId } := h.setNetwork rfl (by simp)
      exact hrecv.setRest ids s.waitNextCallId s.waitOperationCompleted hrecv.parked hrecv.incoming
  | recv callId =>
    obtain ⟨found, ctx, htake, hparked, hfound⟩ := take_parked h.parked callId
    have hctx (network : NetworkPc) (hholds : network.holds = none)
        (hbridge : ∀ i chunk, network = .bridge i chunk →
          ∃ m, chunk = messageChunk m ∧ s.Answered m) :
        Inv { s with networkRecvCtx := ctx, network := network } :=
      have hnext := h.setNetwork hholds hbridge
      hnext.setRest s.callIdHeader s.waitNextCallId s.waitOperationCompleted hparked hnext.incoming
    cases found with
    | none =>
      exact ⟨{ s with networkRecvCtx := ctx, network := .read callId },
        by simp [CallTable.networkStep, hnetwork, htake], hctx _ rfl (by simp)⟩
    | some chunk =>
      refine ⟨{ s with networkRecvCtx := ctx, network := .bridge callId chunk },
        by simp [CallTable.networkStep, hnetwork, htake], hctx _ rfl ?_⟩
      rintro _ _ ⟨⟩
      exact hfound chunk rfl
  | read callId =>
    obtain ⟨fs, hincoming, hfs⟩ := h.incoming
    cases fs with
    | nil =>
      have hempty : s.channelStream.incoming = [] := hincoming
      simp [enabled, hnetwork, hempty] at hen
    | cons f fs =>
      have hf := hfs f (List.mem_cons_self ..)
      obtain ⟨stream, hread, hrest⟩ := recvChunk_spec Link.recvLaws
        (show s.channelStream.incoming = f.encode ++ wire fs by
          rw [hincoming, wire, wire, List.map_cons, List.flatten_cons])
        (Nat.le_trans (by decide) hf.2.1)
      obtain ⟨ctx, hput, hparked⟩ := put_parked h.parked hf
      refine ⟨{ s with networkRecvCtx := ctx, channelStream := stream, network := .recv callId },
        by simp [CallTable.networkStep, hnetwork, hread, hput], ?_⟩
      have hrecv : Inv { s with network := .recv callId } := h.setNetwork rfl (by simp)
      exact hrecv.setRest s.callIdHeader s.waitNextCallId s.waitOperationCompleted hparked
        ⟨fs, hrest, fun g hg => hfs g (List.mem_cons_of_mem _ hg)⟩
  | bridge callId chunk =>
    obtain ⟨s', hstep, hinv⟩ := h.bridgeSocketOnMessage junk hnetwork
    exact ⟨s', by simp only [CallTable.networkStep, hnetwork, hstep], hinv⟩
  | fill b data => exact h.fillStep junk memdup hnetwork
  | complete b data => exact h.completeStep junk memdup hnetwork
  | exited => simp [enabled, hnetwork] at hen

/-! ## The other steps -/

/-- A call that goes on, and its record. -/
theorem Inv.running {s : CallTable} (h : Inv s) {b : Nat} (hpc : (s.pcOf b).over = false) :
    ∃ c r, s.calls[b]? = some c ∧ c.pc = s.pcOf b ∧ c.record = some r ∧ s.load b = .ok r ∧
      CallOk (s.owned b) s.answers b c := by
  obtain ⟨c, hc, hcpc⟩ := exists_of_pcOf (show s.pcOf b ≠ .abandoned by
    intro hh
    rw [hh] at hpc
    cases hpc)
  have hok := h.calls b c hc
  obtain ⟨r, hr⟩ := hok.alive (by rw [hcpc]; exact hpc)
  exact ⟨c, r, hc, hcpc, hr, load_ok hc hr, hok⟩

/-- A new record goes to the end of the list. -/
theorem Inv.allocate {s : CallTable} (h : Inv s) (expectedBytes : Nat) :
    ∃ s', s.allocateCallResult expectedBytes = .ok s' ∧ Inv s' := by
  -- the walk to the end of the list reads every record in it
  have hwalk : s.walk s.callResultHead = .ok () := walk_ok fun b hb => by
    obtain ⟨_, r, _, _, hload, _⟩ := h.load_listed hb
    exact ⟨r, hload⟩
  let c : ProxiedCall := ⟨some ⟨s.nextId, 0, expectedBytes, none⟩, .allocated⟩
  refine ⟨{ s with
    calls := s.calls ++ [c]
    callResultHead := s.callResultHead ++ [s.calls.length]
    nextId := s.nextId + 1 }, by simp [allocateCallResult, hwalk, c], ?_⟩
  -- the new pointer is behind all others
  have hfresh : s.calls.length ∉ s.callResultHead := fun hh =>
    Nat.lt_irrefl _ (h.listed _ hh)
  have hlen : (s.calls ++ [c]).length = s.calls.length + 1 := by simp
  refine ⟨?_, ?_, ?_, ?_, ?_, h.fill, ?_, h.bridge, h.parked, h.incoming, h.answerIds⟩
  · simp only [hlen, h.nextId]
    push_cast
    rfl
  · intro b c' hc'
    have hc' : (s.calls ++ [c])[b]? = some c' := hc'
    by_cases hb : b < s.calls.length
    · rw [List.getElem?_append_left hb] at hc'
      refine (h.calls b c' hc').mono (fun ho => ho.imp_left fun hh => ?_) (fun _ ha => ha)
      rcases List.mem_append.mp hh with hh | hh
      · exact hh
      · rw [List.mem_singleton] at hh
        omega
    · rw [List.getElem?_append_right (by omega)] at hc'
      obtain ⟨hb', rfl⟩ : b = s.calls.length ∧ c' = c := by
        rw [List.getElem?_singleton] at hc'
        split at hc'
        · exact ⟨by omega, (Option.some.inj hc').symm⟩
        · cases hc'
      subst hb'
      exact .ofRecord h.nextId (by simp) (by simp) (by simp) (by simp) (by simp)
        (by simp [CallPc.saw])
  · intro b hb
    simp only [hlen]
    rcases List.mem_append.mp hb with hb | hb
    · have := h.listed b hb
      omega
    · rw [List.mem_singleton] at hb
      omega
  · refine List.nodup_append.mpr ⟨h.nodup, by simp, ?_⟩
    intro a ha b hb
    rw [List.mem_singleton] at hb
    rintro rfl
    exact hfresh (hb ▸ ha)
  · intro b hb
    obtain ⟨hlt, hno⟩ := h.held b hb
    refine ⟨by simp only [hlen]; omega, fun hh => ?_⟩
    rcases List.mem_append.mp hh with hh | hh
    · exact hno hh
    · rw [List.mem_singleton] at hh
      omega
  · intro b m hcomplete
    obtain ⟨hmem, hfilled⟩ := h.complete b m hcomplete
    refine ⟨hmem, fun c' r hc' hr => hfilled c' r ?_ hr⟩
    have hlt := (h.held b (show s.network.holds = some b by
      rw [show s.network = .complete b m from hcomplete]; rfl)).1
    have hc' : (s.calls ++ [c])[b]? = some c' := hc'
    rwa [List.getElem?_append_left hlt] at hc'

/-- The end of a wait. -/
theorem Inv.wait {s : CallTable} (h : Inv s) (junk : Bytes) (memdup : Nat → Bool) {b : Nat}
    (hpc : s.pcOf b = .put) : ∃ s', s.act junk memdup (.wait b) = .ok s' ∧ Inv s' := by
  obtain ⟨c, r, hc, hcpc, hr, hload, hok⟩ :=
    h.running (show (s.pcOf b).over = false by rw [hpc]; rfl)
  rw [hpc] at hcpc
  by_cases hwait : (s.waitOperationCompleted && decide (r.operationCompleted = 0)) = true
  · exact ⟨s, by simp only [act, hload, ok_bind, hwait, if_true, pure_eq_ok], h⟩
  · by_cases hone : r.operationCompleted = 1
    · refine ⟨s.setCall b (some r) .returned, by simp [act, hload, hone], ?_⟩
      refine h.update hc ?_ (fun _ => by rintro _ ⟨⟩; exact ⟨r, hr, rfl⟩) s.requests s.callIdHeader
      exact .ofRecord (hok.callId r hr) (by simp [hone]) (hok.values r hr) (hok.completed r hr)
        (fun _ => hone) (by simp) (by simp [CallPc.saw])
    · refine ⟨s.setCall b (some { r with operationCompleted := 2 }) .cancelled,
        by simp only [act, hload, ok_bind, hwait, hone, if_false, Bool.false_eq_true, ne_eq,
          not_false_eq_true, if_true, pure_eq_ok], ?_⟩
      refine h.update hc ?_ (fun _ => by rintro _ ⟨⟩; exact ⟨r, hr, rfl⟩) s.requests s.callIdHeader
      exact .ofRecord (hok.callId r hr) (by simp) (by simp) (by simp) (by simp) (by simp)
        (by simp [CallPc.saw])

/-- The caller reads the answer of its record, and frees it. -/
theorem Inv.useFree {s : CallTable} (h : Inv s) (junk : Bytes) (memdup : Nat → Bool) {b : Nat} :
    (s.pcOf b = .returned → ∃ s', s.act junk memdup (.use b) = .ok s' ∧ Inv s') ∧
      ((s.pcOf b).saw.isSome = true → (s.pcOf b).over = false →
        ∃ s', s.act junk memdup (.free b) = .ok s' ∧ Inv s') := by
  constructor
  · intro hpc
    obtain ⟨c, r, hc, hcpc, hr, hload, hok⟩ :=
      h.running (show (s.pcOf b).over = false by rw [hpc]; rfl)
    rw [hpc] at hcpc
    have hone := hok.returned r hr (.inl hcpc)
    obtain ⟨hno, m, hdata, hanswer⟩ := hok.completed r hr hone
    refine ⟨s.setCall b (some r) (.used m), by simp [act, hload, hdata], ?_⟩
    refine h.update hc ?_ (fun _ => by rintro _ ⟨⟩; exact ⟨r, hr, rfl⟩) s.requests s.callIdHeader
    exact .ofRecord (hok.callId r hr) (by simp [hone]) (hok.values r hr) (hok.completed r hr)
      (fun _ => hone) (by simp) (by rintro _ ⟨⟩; exact hanswer)
  · intro hsaw hover
    obtain ⟨c, r, hc, hcpc, hr, hload, hok⟩ := h.running hover
    obtain ⟨m, hm⟩ := Option.isSome_iff_exists.mp hsaw
    have hused : c.pc = .used m := by
      rw [hcpc]
      cases hpc : s.pcOf b with
      | used data =>
        rw [hpc] at hm
        cases hm
        rfl
      | done data =>
        rw [hpc] at hover
        cases hover
      | _ =>
        rw [hpc] at hm
        cases hm
    have hone := hok.returned r hr (.inr ⟨m, hused⟩)
    obtain ⟨hno, -⟩ := hok.completed r hr hone
    refine ⟨s.setCall b none (.done m), ?_, ?_⟩
    · have hpc' : (s.setCall b none (s.pcOf b)).pcOf b = s.pcOf b := by
        have hlt := (List.getElem?_eq_some_iff.mp hc).1
        refine pcOf_eq (c := ⟨none, s.pcOf b⟩) ?_
        show (s.calls.set b ⟨none, s.pcOf b⟩)[b]? = _
        rw [List.getElem?_set_self hlt]
      simp only [act, freeCallResult, hload, ok_bind, pure_eq_ok, hpc', hm, Option.getD_some]
      simp [setCall]
    · refine h.update hc ?_ (by simp) s.requests s.callIdHeader
      refine .ofFreed hno rfl ?_
      rintro _ ⟨⟩
      exact hok.saw m (by rw [hused]; rfl)

/-- The proxy sends an answer. -/
theorem Inv.answer {s : CallTable} (h : Inv s) {f : Frame}
    (hsize : socketCallResultHeaderSize ≤ f.payload.length)
    (hnew : ∀ a ∈ s.answers, a.1 ≠ leadingInt f.payload) :
    Inv { s with
      channelStream := { s.channelStream with incoming := s.channelStream.incoming ++ f.encode }
      answers := s.answers ++ [(leadingInt f.payload, f.payload)] } := by
  have hmore : ∀ a ∈ s.answers, a ∈ s.answers ++ [(leadingInt f.payload, f.payload)] :=
    fun a ha => List.mem_append_left _ ha
  have hanswered : ∀ m, s.Answered m → Answered { s with
      channelStream := { s.channelStream with incoming := s.channelStream.incoming ++ f.encode }
      answers := s.answers ++ [(leadingInt f.payload, f.payload)] } m :=
    fun m ⟨hm, hrest⟩ => ⟨hmore _ hm, hrest⟩
  refine ⟨h.nextId, fun b c hc => (h.calls b c hc).mono (fun ho => ho) hmore, h.listed, h.nodup,
    h.held, fun b m hm => hmore _ (h.fill b m hm), ?_, ?_, h.parked.mono hanswered, ?_, ?_⟩
  · intro b m hm
    obtain ⟨hmem, hfilled⟩ := h.complete b m hm
    exact ⟨hmore _ hmem, hfilled⟩
  · intro callId chunk hb
    obtain ⟨m, hm, ham⟩ := h.bridge callId chunk hb
    exact ⟨m, hm, hanswered m ham⟩
  · obtain ⟨fs, hincoming, hfs⟩ := h.incoming
    refine ⟨fs ++ [f], by simp [hincoming, wire], ?_⟩
    intro g hg
    rcases List.mem_append.mp hg with hg | hg
    · exact hanswered _ (hfs g hg)
    · rw [List.mem_singleton] at hg
      subst hg
      exact ⟨List.mem_append_right _ (List.mem_singleton_self _), hsize, g.fits⟩
  · rw [List.map_append, List.nodup_append]
    refine ⟨h.answerIds, by simp, ?_⟩
    intro i hi j hj
    obtain ⟨a, ha, rfl⟩ := List.mem_map.mp hi
    rw [List.map_singleton, List.mem_singleton] at hj
    rw [hj]
    exact hnew a ha

/-- The end: the list is freed. -/
theorem Inv.popAll {s : CallTable} (h : Inv s) (hexited : s.network = .exited)
    (hover : ∀ c ∈ s.calls, c.pc.over = true) :
    ∃ s', s.popAll s.callResultHead = .ok s' ∧
      Inv { s' with callResultHead := [], finished := true } := by
  obtain ⟨calls, hpop, hlen, hcalls⟩ := popAll_ok (fun b hb => by
    obtain ⟨_, r, _, _, hload, _⟩ := h.load_listed hb
    exact ⟨r, hload⟩) h.nodup
  have hholds : s.network.holds = none := by rw [hexited]; rfl
  refine ⟨{ s with calls := calls }, hpop, ?_⟩
  refine ⟨by simp only [hlen]; exact h.nextId, ?_, by simp, List.nodup_nil, ?_, h.fill, ?_,
    h.bridge, h.parked, h.incoming, h.answerIds⟩
  · intro b c' hc'
    obtain ⟨c, hc, hpc, hcase⟩ := hcalls b c' hc'
    have hok := h.calls b c hc
    have hno : ¬ owned { s with calls := calls, callResultHead := [], finished := true } b := by
      rintro (hh | hh)
      · cases hh
      · have : s.network.holds = some b := hh
        rw [hholds] at this
        cases this
    rcases hcase with ⟨rfl, -⟩ | hnone
    · exact hok.mono (fun ho => absurd ho hno) (fun _ ha => ha)
    · obtain ⟨record, pc⟩ := c'
      subst hnone hpc
      exact .ofFreed hno (hover c (List.mem_of_getElem? hc)) hok.saw
  · intro b hb
    have : s.network.holds = some b := hb
    rw [hholds] at this
    cases this
  · intro b m hm
    have : s.network = .complete b m := hm
    rw [hexited] at this
    cases this

/-! ## Every run -/

/-- **Every step** accesses no freed record, frees none twice, and keeps what holds. -/
theorem inv_act (junk : Bytes) (memdup : Nat → Bool) (s : CallTable) (e : CallEvent) (h : Inv s)
    (hen : s.enabled e = true) : ∃ s', s.act junk memdup e = .ok s' ∧ Inv s' := by
  have hlive : s.finished = false := by
    simp only [enabled, Bool.and_eq_true, Bool.not_eq_true'] at hen
    exact hen.1
  cases e with
  | allocate expectedBytes => exact h.allocate expectedBytes
  | send b =>
    have hpc : s.pcOf b = .allocated := by simpa [enabled, hlive] using hen
    obtain ⟨c, r, hc, hcpc, hr, hload, hok⟩ :=
      h.running (show (s.pcOf b).over = false by rw [hpc]; rfl)
    refine ⟨{ s.setCall b (some r) .sent with requests := s.requests ++ [(r.callId, r.bytes)] },
      by simp only [act, hload, ok_bind, pure_eq_ok], ?_⟩
    exact h.update hc (hok.setPc hr (by rw [hcpc, hpc]; simp) (.inl rfl))
      (fun _ => by rintro _ ⟨⟩; exact ⟨r, hr, rfl⟩) _ s.callIdHeader
  | putCallId b =>
    have hpc : s.pcOf b = .sent := by simpa [enabled, hlive] using hen
    obtain ⟨c, r, hc, hcpc, hr, hload, hok⟩ :=
      h.running (show (s.pcOf b).over = false by rw [hpc]; rfl)
    refine ⟨{ s.setCall b (some r) .put with
      callIdHeader := s.callIdHeader ++ [toUInt64 r.callId] },
      by simp only [act, hload, ok_bind, pure_eq_ok], ?_⟩
    exact h.update hc (hok.setPc hr (by rw [hcpc, hpc]; simp) (.inr (.inl rfl)))
      (fun _ => by rintro _ ⟨⟩; exact ⟨r, hr, rfl⟩) s.requests _
  | wait b => exact h.wait junk memdup (by simpa [enabled, hlive] using hen)
  | use b => exact (h.useFree junk memdup).1 (by simpa [enabled, hlive] using hen)
  | free b =>
    have hpc : (s.pcOf b).saw.isSome = true ∧ (s.pcOf b).over = false := by
      simpa [enabled, hlive] using hen
    exact (h.useFree junk memdup).2 hpc.1 hpc.2
  | abandon b =>
    have hpc : s.pcOf b = .allocated ∨ s.pcOf b = .sent := by simpa [enabled, hlive] using hen
    obtain ⟨c, r, hc, hcpc, hr, -, hok⟩ := h.running
      (show (s.pcOf b).over = false by rcases hpc with hpc | hpc <;> rw [hpc] <;> rfl)
    have hrecord : s.recordOf b = some r := by rw [recordOf, hc]; exact hr
    refine ⟨s.setCall b (some r) .abandoned, by simp only [act, hrecord, pure_eq_ok], ?_⟩
    exact h.update hc
      (hok.setPc hr (by rw [hcpc]; rcases hpc with hpc | hpc <;> rw [hpc] <;> simp)
        (.inr (.inr rfl)))
      (fun _ => by rintro _ ⟨⟩; exact ⟨r, hr, rfl⟩) s.requests s.callIdHeader
  | network => exact h.networkStep junk memdup hen
  | connectionFails =>
    exact ⟨{ s with network := .exited }, by simp only [act, pure_eq_ok],
      h.setNetwork rfl (by simp)⟩
  | answer f =>
    simp only [enabled, hlive, Bool.not_false, Bool.true_and, Bool.and_eq_true, List.any_eq_true,
      List.all_eq_true, decide_eq_true_eq] at hen
    obtain ⟨⟨q, -, -, hsize⟩, hnew⟩ := hen
    refine ⟨{ s with
      channelStream := { s.channelStream with incoming := s.channelStream.incoming ++ f.encode }
      answers := s.answers ++ [(leadingInt f.payload, f.payload)] },
      by simp only [act, pure_eq_ok], h.answer ?_ hnew⟩
    have := Int.le_trans (Int.le_max_left _ _) hsize
    exact_mod_cast this
  | cancel =>
    exact ⟨{ s with waitOperationCompleted := false }, by simp only [act, pure_eq_ok],
      h.setRest s.callIdHeader s.waitNextCallId false h.parked h.incoming⟩
  | stop =>
    exact ⟨{ s with waitNextCallId := false }, by simp only [act, pure_eq_ok],
      h.setRest s.callIdHeader false s.waitOperationCompleted h.parked h.incoming⟩
  | popAll =>
    simp only [enabled, hlive, Bool.not_false, Bool.true_and, Bool.and_eq_true, decide_eq_true_eq,
      List.all_eq_true] at hen
    obtain ⟨s', hpop, hinv⟩ := h.popAll hen.1 hen.2
    exact ⟨{ s' with callResultHead := [], finished := true },
      by simp only [act, hpop, ok_bind, pure_eq_ok], hinv⟩

/-- **Matching and single ownership.** Under any interleaving, whichever answers cannot be
copied, no access is to a freed record and none is freed twice: every run ends well. In
every state reached, the `k`-th call has the id `k + 1`; a call whose wait has returned
true finds the answer that the proxy sent to this id; and the answers have different ids,
so no two calls get the same one. -/
theorem callTable_safe (junk : Bytes) (memdup : Nat → Bool) {es : List CallEvent}
    {result : Res CallTable} (hrun : (machine junk memdup).run es = some result) :
    ∃ s, result = .ok s ∧
      (∀ (b : Nat) c r, s.calls[b]? = some c → c.record = some r → r.callId = b + 1) ∧
      (∀ (b : Nat) c, s.calls[b]? = some c → c.pc.got = true →
        ∃ m, c.answer = some m ∧ ((b : Int) + 1, m) ∈ s.answers) ∧
      (s.answers.map Prod.fst).Nodup := by
  obtain ⟨s, rfl, h⟩ := checked_run Inv inv_new (inv_act junk memdup) hrun
  refine ⟨s, rfl, fun b c r hc hr => (h.calls b c hc).callId r hr, ?_, h.answerIds⟩
  intro b c hc hgot
  have hok := h.calls b c hc
  cases hpc : c.pc with
  | returned =>
    obtain ⟨r, hr⟩ := hok.alive (by rw [hpc]; rfl)
    obtain ⟨-, m, hm, hanswer⟩ := hok.completed r hr (hok.returned r hr (.inl hpc))
    exact ⟨m, by simp [ProxiedCall.answer, hpc, hr, hm], hanswer⟩
  | used m => exact ⟨m, by simp [ProxiedCall.answer, hpc, CallPc.saw], hok.saw m (by rw [hpc]; rfl)⟩
  | done m => exact ⟨m, by simp [ProxiedCall.answer, hpc, CallPc.saw], hok.saw m (by rw [hpc]; rfl)⟩
  | _ =>
    rw [hpc] at hgot
    cases hgot

/-- Two calls whose answers come in the other order, and a third that is given up
before its answer comes. -/
theorem callTable_safe_swapped :
    let answerTo (n : UInt8) : Frame := ⟨true, .binary, none, n :: List.replicate 11 0, by simp⟩
    let es : List CallEvent := List.flatten [
      [.allocate 12, .allocate 12, .allocate 12, .send 0, .send 1, .send 2],
      [.putCallId 0, .putCallId 1, .putCallId 2],
      List.replicate 3 .network, [.answer (answerTo 2), .answer (answerTo 1)],
      List.replicate 12 .network, [.wait 0, .wait 1, .use 1, .use 0, .free 1, .free 0],
      [.cancel, .wait 2, .answer (answerTo 3), .stop], List.replicate 8 .network, [.popAll]]
    ∃ s, (machine [] fun _ => true).run es = some (.ok s) ∧
      s.calls.map ProxiedCall.pc =
        [.done (answerTo 1).payload, .done (answerTo 2).payload, .cancelled] ∧
      ∀ (b : Nat) c, s.calls[b]? = some c → c.pc.got = true →
        ∃ m, c.answer = some m ∧ ((b : Int) + 1, m) ∈ s.answers := by
  intro answerTo es
  have hpcs : ((machine [] fun _ => true).run es).map
      (fun result => result.toOption.map fun s => s.calls.map ProxiedCall.pc) =
        some (some [.done (answerTo 1).payload, .done (answerTo 2).payload, .cancelled]) := by
    decide +kernel
  obtain ⟨result, hrun, hresult⟩ := Option.map_eq_some_iff.mp hpcs
  obtain ⟨s, rfl, -, hanswers, -⟩ := callTable_safe [] _ hrun
  exact ⟨s, hrun, Option.some.inj hresult, hanswers⟩

end CallTable

end ZktlsNet
