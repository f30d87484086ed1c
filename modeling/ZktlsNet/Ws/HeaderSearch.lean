import ZktlsNet.Lib.Search
import ZktlsNet.Ws.Handshake

/-!
# Where the header search ends (`ws.cpp:53-101`, `ws.cpp:278-297`)

`ResponseWebSocketHandshake` hands its stack buffer to `SendHandshake` as a C string. The
buffer is not initialised, the read writes no `NUL` behind what it received, and the
number of bytes received is not passed on. So `GetHttpHeader` goes on into what the
buffer held before, and behind it, unless the request itself stops it.

- `strstr_eq`, `untilLineEnd_spec`: what the two scans find in a piece of memory.
- `getHttpHeader_fault_iff`: the requests that do not stop the search.
- `responseWebSocketHandshake_determined_iff`: for the others, and only for them, the
  outcome is that of the received bytes alone.
-/

namespace ZktlsNet

open NetLib

/-- The header the search is for. -/
abbrev keyHeader : Bytes := ascii "Sec-WebSocket-Key: "

theorem keyHeader_ne : keyHeader ≠ [] := by decide +kernel

theorem zero_notMem_keyHeader : 0 ∉ keyHeader := by decide +kernel

/-! ## The two scans -/

section

variable {needle : Bytes} (hne : needle ≠ []) (h0 : 0 ∉ needle)
include hne

/-- **`strstr`** finds the first occurrence, if no `NUL` is in front of it. -/
theorem strstr_eq (m : Bytes) :
    strstr needle m =
      match firstAt needle m with
      | some i => .ok (if 0 ∈ m.take i then none else some (m.drop i))
      | none => if 0 ∈ m then .ok none else .error (.fault .outOfBounds) := by
  induction m with
  | nil =>
    cases needle with
    | nil => exact absurd rfl hne
    | cons x xs => rfl
  | cons c cs ih =>
    rw [strstr, firstAt_cons]
    split
    · rfl
    · rw [ih]
      by_cases hc : c = 0
      · subst hc
        cases firstAt needle cs <;> simp
      · have hmem (l : Bytes) : 0 ∈ c :: l ↔ 0 ∈ l := by
          simp [List.mem_cons, Ne.symm hc]
        cases firstAt needle cs <;> simp [hc, hmem]

include h0 in
/-- A search that is stopped by a `NUL` is stopped by it whatever lies behind. -/
theorem strstr_none_append {m : Bytes} (more : Bytes) (h : strstr needle m = .ok none) :
    strstr needle (m ++ more) = .ok none := by
  rw [strstr_eq hne] at h ⊢
  cases hfirst : firstAt needle m with
  | some i =>
    obtain ⟨before, behind, rfl, rfl, -⟩ := firstAt_eq_some hfirst
    rw [hfirst] at h
    rw [firstAt_append more hfirst]
    simp only [List.append_assoc, List.take_left] at h ⊢
    by_cases hnul : 0 ∈ before
    · rw [if_pos hnul]
    · rw [if_neg hnul] at h
      cases h
  | none =>
    rw [hfirst] at h
    have hnul : 0 ∈ m := by
      by_contra hno
      simp [hno] at h
    cases hmore : firstAt needle (m ++ more) with
    | none => simp [hnul]
    | some j =>
      -- the `NUL` is in front of an occurrence that reaches behind the memory
      obtain ⟨before, behind, heq, rfl, -⟩ := firstAt_eq_some hmore
      have hbefore : 0 ∈ before := by
        obtain ⟨l, hl, -⟩ | ⟨l, hl, -⟩ := List.append_eq_append_iff.mp heq
        · have hmem : 0 ∈ before ++ needle := by
            rw [hl]
            exact List.mem_append_left _ hnul
          exact (List.mem_append.mp hmem).resolve_right h0
        · exact absurd ⟨before, l, hl.symm⟩ (firstAt_eq_none_iff.mp hfirst)
      simp only [heq, List.append_assoc, List.take_left, hbefore, if_true]

end

/-- A line without the needle is passed over. -/
theorem strstr_append_cons {needle : Bytes} (hne : needle ≠ []) {line : Bytes} {sep : UInt8}
    (rest : Bytes) (hsep : sep ∉ needle) (hsep0 : sep ≠ 0) (hline : 0 ∉ line)
    (hno : ¬ needle <:+: line) :
    strstr needle (line ++ sep :: rest) = strstr needle rest := by
  have hcons : line ++ sep :: rest = (line ++ [sep]) ++ rest := List.append_cons ..
  have hlen : line.length + 1 = (line ++ [sep]).length := by
    simp
  have hmem (l : Bytes) : 0 ∈ (line ++ [sep]) ++ l ↔ 0 ∈ l := by
    simp [hline, Ne.symm hsep0]
  rw [strstr_eq hne, strstr_eq hne, firstAt_append_cons rest hsep hne hno, hcons, hlen]
  cases firstAt needle rest with
  | none => simp only [Option.map_none, hmem]
  | some i =>
    simp only [Option.map_some, Nat.add_comm i, List.take_length_add_append,
      List.drop_length_add_append, hmem]

theorem untilLineEnd_append_cons {value : Bytes} {c : UInt8} (hc : c = 13 ∨ c = 10 ∨ c = 0)
    (rest : Bytes) (h : ∀ x ∈ value, x ≠ 13 ∧ x ≠ 10 ∧ x ≠ 0) :
    untilLineEnd (value ++ c :: rest) = .ok value := by
  induction value with
  | nil => exact if_pos hc
  | cons x xs ih =>
    rw [List.forall_mem_cons] at h
    rw [List.cons_append, untilLineEnd, if_neg (by simp [h.1]), ih h.2]
    rfl

theorem untilLineEnd_spec (bs : Bytes) :
    (∃ value c rest, bs = value ++ c :: rest ∧ (c = 13 ∨ c = 10 ∨ c = 0) ∧
        (∀ x ∈ value, x ≠ 13 ∧ x ≠ 10 ∧ x ≠ 0) ∧ untilLineEnd bs = .ok value) ∨
      ((∀ x ∈ bs, x ≠ 13 ∧ x ≠ 10 ∧ x ≠ 0) ∧
        untilLineEnd bs = .error (.fault .outOfBounds)) := by
  induction bs with
  | nil => exact .inr ⟨fun _ h => (List.not_mem_nil h).elim, rfl⟩
  | cons c cs ih =>
    rw [untilLineEnd]
    by_cases hc : c = 13 ∨ c = 10 ∨ c = 0
    · rw [if_pos hc]
      exact .inl ⟨[], c, cs, rfl, hc, fun _ h => (List.not_mem_nil h).elim, rfl⟩
    · rw [if_neg hc]
      simp only [not_or] at hc
      obtain ⟨value, d, rest, rfl, hd, hvalue, hline⟩ | ⟨hno, hline⟩ := ih
      · refine .inl ⟨c :: value, d, rest, rfl, hd, ?_, by rw [hline]; rfl⟩
        exact List.forall_mem_cons.mpr ⟨hc, hvalue⟩
      · exact .inr ⟨List.forall_mem_cons.mpr ⟨hc, hno⟩, by rw [hline]; rfl⟩

/-! ## The search -/

/-- The request stops the search: it holds a `NUL`, or a line end behind the header. -/
def SearchEnds (header read : Bytes) : Prop :=
  0 ∈ read ∨ ∃ before rest, read = before ++ header ++ rest ∧ (13 ∈ rest ∨ 10 ∈ rest)

section

variable {header : Bytes} (h0 : 0 ∉ header)
include h0

/-- What that means when the header is found. -/
theorem searchEnds_iff_of_first {before behind : Bytes}
    (hfirst : ∀ before' behind', before ++ header ++ behind = before' ++ header ++ behind' →
      before.length ≤ before'.length) :
    SearchEnds header (before ++ header ++ behind) ↔
      0 ∈ before ∨ ∃ x ∈ behind, x = 13 ∨ x = 10 ∨ x = 0 := by
  constructor
  · rintro (hnul | ⟨before', rest, heq, hline⟩)
    · simp only [List.mem_append, h0, or_false] at hnul
      exact hnul.imp_right fun h => ⟨0, h, .inr (.inr rfl)⟩
    · -- a later occurrence has less behind it
      have hle := hfirst before' rest heq
      have hlen := congrArg List.length heq
      simp only [List.length_append] at hlen
      have hsuffix : rest <:+ behind := List.suffix_of_suffix_length_le
        ⟨before' ++ header, heq.symm⟩ ⟨before ++ header, rfl⟩ (by omega)
      obtain h | h := hline
      · exact .inr ⟨13, hsuffix.subset h, .inl rfl⟩
      · exact .inr ⟨10, hsuffix.subset h, .inr (.inl rfl)⟩
  · rintro (hnul | ⟨x, hx, rfl | rfl | rfl⟩)
    · exact .inl (List.mem_append_left _ (List.mem_append_left _ hnul))
    · exact .inr ⟨before, behind, rfl, .inl hx⟩
    · exact .inr ⟨before, behind, rfl, .inr hx⟩
    · exact .inl (List.mem_append_right _ hx)

variable (hne : header ≠ [])
include hne

/-- **A request that does not stop the search** is searched to its end and further. -/
theorem getHttpHeader_fault_iff (read : Bytes) (maxBytesOut : Nat) :
    getHttpHeader read header maxBytesOut = .error (.fault .outOfBounds) ↔
      ¬ SearchEnds header read := by
  unfold getHttpHeader
  rw [strstr_eq hne]
  cases hfirst : firstAt header read with
  | none =>
    have hno := firstAt_eq_none_iff.mp hfirst
    by_cases hnul : 0 ∈ read
    · have hends : SearchEnds header read := .inl hnul
      simp [hnul, hends]
    · have hends : ¬ SearchEnds header read := by
        rintro (h | ⟨before, rest, rfl, -⟩)
        · exact hnul h
        · exact hno ⟨before, rest, rfl⟩
      simp only [hnul, if_false, hends, not_false_iff, iff_true]
      rfl
  | some i =>
    obtain ⟨before, behind, rfl, rfl, hleast⟩ := firstAt_eq_some hfirst
    rw [searchEnds_iff_of_first h0 hleast]
    simp only [List.append_assoc, List.take_left, List.drop_left]
    by_cases hnul : 0 ∈ before
    · simp [hnul]
    · simp only [hnul, if_false, ok_bind, List.drop_left, false_or]
      obtain ⟨value, c, rest, rfl, hc, -, hline⟩ | ⟨hno, hline⟩ := untilLineEnd_spec behind
      · rw [hline]
        have hmem : ∃ x ∈ value ++ c :: rest, x = 13 ∨ x = 10 ∨ x = 0 :=
          ⟨c, List.mem_append_right _ (List.mem_cons_self ..), hc⟩
        simp only [hmem, not_true, iff_false]
        exact nofun
      · rw [hline]
        have hmem : ¬ ∃ x ∈ behind, x = 13 ∨ x = 10 ∨ x = 0 := by
          rintro ⟨x, hx, h⟩
          obtain ⟨h13, h10, h0⟩ := hno x hx
          simp [h13, h10, h0] at h
        simp only [hmem, not_false_iff, iff_true]
        rfl

/-- **A request that does** has the same outcome whatever lies behind it. -/
theorem getHttpHeader_append_of_searchEnds {read : Bytes} (maxBytesOut : Nat)
    (h : SearchEnds header read) (more : Bytes) :
    getHttpHeader (read ++ more) header maxBytesOut = getHttpHeader read header maxBytesOut := by
  have hnofault : getHttpHeader read header maxBytesOut ≠ .error (.fault .outOfBounds) := by
    rw [Ne, getHttpHeader_fault_iff h0 hne, not_not]
    exact h
  cases hpos : strstr header read with
  | error e =>
    -- the only error of the first scan is to run out of memory
    have he : e = .fault .outOfBounds := by
      rw [strstr_eq hne] at hpos
      split at hpos
      · cases hpos
      · split at hpos
        · cases hpos
        · exact (Except.error.inj hpos).symm
    refine absurd ?_ hnofault
    rw [getHttpHeader, hpos, he]
    rfl
  | ok found =>
    cases found with
    | none =>
      simp only [getHttpHeader, hpos, strstr_none_append hne h0 more hpos]
    | some pos =>
      obtain ⟨value, -, -, -, -, -, hline⟩ | ⟨-, hline⟩ :=
        untilLineEnd_spec (pos.drop header.length)
      · have hfound : getHttpHeader read header maxBytesOut =
            .ok (value.take (maxBytesOut - 1)) := by
          rw [getHttpHeader, hpos]
          simp only [ok_bind, hline, pure_eq_ok]
        rw [hfound, getHttpHeader_append more hfound]
      · refine absurd ?_ hnofault
        rw [getHttpHeader, hpos]
        simp only [ok_bind, hline]
        rfl

end

/-! ## The server's handshake -/

/-- **The outcome is that of the received bytes**, whatever the buffer held and whatever
lies behind it, and no byte that was not received is looked at, if and only if the request
stops the search. -/
theorem responseWebSocketHandshake_determined_iff {σ : Type} [ChannelStream σ]
    (sha1 : Bytes → Bytes) {s s' : σ} {read : Bytes}
    (hread : ChannelStream.recv s bufferSize = (some read, s')) (hsome : read ≠ []) :
    ((∀ junk₁ junk₂ : Bytes, bufferSize ≤ junk₁.length → bufferSize ≤ junk₂.length →
        responseWebSocketHandshake sha1 junk₁ s = responseWebSocketHandshake sha1 junk₂ s) ∧
      getHttpHeader read keyHeader ((128 + 37) / 2) ≠ .error (.fault .outOfBounds)) ↔
      SearchEnds keyHeader read := by
  have hfault := getHttpHeader_fault_iff zero_notMem_keyHeader keyHeader_ne read ((128 + 37) / 2)
  constructor
  · rintro ⟨-, hno⟩
    rwa [Ne, hfault, not_not] at hno
  · intro hends
    refine ⟨fun junk₁ junk₂ _ _ => ?_, by rwa [Ne, hfault, not_not]⟩
    have hsame (junk : Bytes) : responseWebSocketHandshake sha1 junk s =
        sendHandshake sha1 (read ++ junk.drop read.length) s' := by
      rw [responseWebSocketHandshake, hread]
      cases read with
      | nil => exact absurd rfl hsome
      | cons b bs => rfl
    rw [hsame, hsame, sendHandshake, sendHandshake,
      getHttpHeader_append_of_searchEnds zero_notMem_keyHeader keyHeader_ne _ hends,
      getHttpHeader_append_of_searchEnds zero_notMem_keyHeader keyHeader_ne _ hends]

/-- A request with a line end behind its key. -/
theorem responseWebSocketHandshake_determined_iff_line :
    let read := ascii "Sec-WebSocket-Key: I28w97h3i3dkMdxGpUF+sA==\r\n"
    let s : SocketStream := .ofSocket (.ofBytes read) .clientToPado
    (∀ junk₁ junk₂ : Bytes, bufferSize ≤ junk₁.length → bufferSize ≤ junk₂.length →
        responseWebSocketHandshake (fun _ => []) junk₁ s =
          responseWebSocketHandshake (fun _ => []) junk₂ s) ∧
      getHttpHeader read keyHeader ((128 + 37) / 2) ≠ .error (.fault .outOfBounds) := by
  intro read s
  have hread : ChannelStream.recv s bufferSize = (some read, (ChannelStream.recv s bufferSize).2) :=
    Prod.ext (by decide +kernel) rfl
  exact (responseWebSocketHandshake_determined_iff (fun _ => []) hread (by decide +kernel)).mpr
    (.inr ⟨[], ascii "I28w97h3i3dkMdxGpUF+sA==\r\n", by decide +kernel, by decide +kernel⟩)

/-- The first line of a request and nothing else. With zeros in the buffer the handshake
is refused; with a header left over from an earlier request it is answered. -/
theorem responseWebSocketHandshake_reads_junk :
    let read := ascii "GET / HTTP/1.1\r\n"
    let s : SocketStream := .ofSocket (.ofBytes read) .clientToPado
    ¬ (∀ junk₁ junk₂ : Bytes, bufferSize ≤ junk₁.length → bufferSize ≤ junk₂.length →
        responseWebSocketHandshake (fun _ => []) junk₁ s =
          responseWebSocketHandshake (fun _ => []) junk₂ s) ∧
      getHttpHeader read keyHeader ((128 + 37) / 2) = .error (.fault .outOfBounds) := by
  intro read s
  refine ⟨fun h => ?_, by decide +kernel⟩
  let zeros : Bytes := List.replicate 2048 0
  let left := List.replicate 16 65 ++ ascii "Sec-WebSocket-Key: A\r\n" ++ zeros
  have hrefused : (responseWebSocketHandshake (fun _ => []) zeros s).1 =
      .error (.thrown ⟨.networkError, "Sec-WebSocket-Key not find"⟩) := by
    decide +kernel
  have hanswered : (responseWebSocketHandshake (fun _ => []) left s).1 = .ok () := by
    decide +kernel
  rw [h zeros left (by decide +kernel) (by decide +kernel), hanswered] at hrefused
  cases hrefused

end ZktlsNet
