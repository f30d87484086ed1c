import ZktlsNet.Lib.DottedQuad
import ZktlsNet.Proxy.Requests

/-!
# Looking up a host and connecting to it (`proxy_client.h:114-180`)

`LookupHost` walks the chain that `getaddrinfo3` returns and keeps the first address of the
fourth version of the protocol, as text; `Connect` reads the text back. Between the two
stands the empty string: it is what `LookupHost` returns when there is no such address, and
`inet_pton` answers it with zero, which `Connect` does not take for an error.

- `Says`: an answer of the proxy and the entries it has.
- `lookupLoop_of_chain`: the walk over the chain is one over the entries.
- `lookup_connect`: which answers are walked to the end, and the address that is connected
  to then.
-/

namespace ZktlsNet

open NetLib

/-! ## `LookupHost` -/

/-- `AF_INET` and `AF_INET6`. -/
def afInet : Int := 2
def afInet6 : Int := 10

/-- The call that `LookupHost` makes. -/
def lookupCall (host : CString) : SocketCall :=
  let aiCanonname : CInt := .ofInt 2
  let sockStream : CInt := .ofInt 1
  let node : CString :=
    if host.val = ascii "localhost" then ⟨ascii "127.0.0.1", by decide⟩ else host
  .getaddrinfo3 (some node) none (some ⟨aiCanonname, .ofInt 0, sockStream, .ofInt 0⟩)

/-- A name is asked for as it is given exactly when there is room for it. -/
theorem ofMessage_lookupCall_iff (callId : CInt) (host : CString) :
    (∃ m, (lookupCall host).message callId = .ok m ∧
      ProxyRequest.ofMessage m = some (callId.val, (lookupCall host).asked)) ↔
      host.val.length < maxNodeLen := by
  rw [ofMessage_message_iff, lookupCall]
  by_cases hlocal : host.val = ascii "localhost"
  · rw [if_pos hlocal, hlocal]
    decide +kernel
  · rw [if_neg hlocal]
    exact and_iff_left (by decide)

/-- The bytes that `inet_ntop` makes a text of; it reads none for other families. -/
def ntopBytes (node : AddrInfo) (off : Nat) : Res Bytes :=
  if node.family = afInet then readBytes node.addr off 4
  else if node.family = afInet6 then readBytes node.addr off 16
  else .ok []

/-- One round of the loop: the text that is kept of a node. The first text is made of
`sa_data`, which is not where the address is, and replaced by the second. -/
def lookupNode (node : AddrInfo) : Res (Option Bytes) := do
  let _ ← ntopBytes node 2
  if node.family = afInet then
    let sinAddr ← ntopBytes node 4
    return some (quad sinAddr)
  else if node.family = afInet6 then
    let _ ← ntopBytes node 8
    return none
  else throw (.thrown ⟨.invalidArgumentException,
    "[LookupHost]unsupported ai_family: " ++ toString node.family⟩)

/-- The loop along `ai_next`: `ips`. -/
def lookupLoop (results : List AddrInfo) : Nat → Option Nat → Res (List Bytes)
  | _, none => .ok []
  | 0, some _ => .error .outOfFuel
  | fuel + 1, some i =>
    match results[i]? with
    | none => .error (.fault .outOfBounds)
    | some node => do
      let ip ← lookupNode node
      let ips ← lookupLoop results fuel node.next
      return ip.toList ++ ips

/-- `LookupHost` from the answer of the proxy on, which is missing when the wait for it was
cancelled. -/
def lookupHost (mallocZeroNull : Bool) : Option Bytes → Res Bytes
  | none => .ok []
  | some data => do
    let result ← getaddrinfo3 mallocZeroNull data
    if result.ret ≠ 0 then return []
    else
      let results := result.res.getD []
      let head := result.res.map fun _ => 0
      let ips ← lookupLoop results (results.length + 1) head
      let _ ← freeaddrinfo3 results (results.length + 1) head
      return ips.headD []

/-! ## `Connect` -/

/-- `struct in_addr`. -/
abbrev InAddr := { a : Bytes // a.length = 4 }

/-- The address of a `sockaddr_in` that was cleared. -/
def inaddrAny : InAddr := ⟨[0, 0, 0, 0], rfl⟩

/-- `inet_pton` for `AF_INET`: its result, and what is then in `*dst`. -/
def inetPton (src : Bytes) (dst : InAddr) : Int × InAddr :=
  match h : quad? src with
  | some a => (1, ⟨a, (quad?_eq_some_iff.mp h).1⟩)
  | none => (0, dst)

/-- `struct sockaddr_in`; `htons` cuts the port to 16 bits. -/
def sockaddrIn (port : CInt) (sinAddr : InAddr) : Bytes :=
  toLE 2 2 ++ (toBE 2 (port.val % 2 ^ 16).toNat ++ (sinAddr.val ++ List.replicate 8 0))

theorem sockaddrIn_length (port : CInt) (sinAddr : InAddr) :
    (sockaddrIn port sinAddr).length = 16 := by
  simp [sockaddrIn, toBE_length, sinAddr.property]

/-- The call that `Connect` makes. -/
def connectCall (fd port : CInt) (sinAddr : InAddr) : SocketCall :=
  .connect3 fd (.bytes (sockaddrIn port sinAddr))
    (by rw [CBuffer.length, sockaddrIn_length]; decide)

/-- What `Connect` makes of the result of the call. -/
def connectReturn (ret : Int) : Res Int :=
  if ret < 0 then .error (.thrown ⟨.socketError, "ws connect error"⟩) else .ok ret

/-- `Connect`, over the call. -/
def connect (connect3 : SocketCall → Res Int) (fd : CInt) (ip : Bytes) (port : CInt) : Res Int :=
  let (ret, sinAddr) := inetPton ip inaddrAny
  if ret < 0 then .error (.thrown ⟨.socketError, "ws inet_pton error"⟩)
  else do
    let ret ← connect3 (connectCall fd port sinAddr)
    connectReturn ret

/-! ## Entries -/

namespace ResAddrinfo

/-- The address of an entry is as long as its family says. -/
def Readable (e : ResAddrinfo) : Prop :=
  e.family.val = afInet ∧ 8 ≤ e.addr.length ∨ e.family.val = afInet6 ∧ 24 ≤ e.addr.length

instance (e : ResAddrinfo) : Decidable e.Readable := inferInstanceAs (Decidable
  (e.family.val = afInet ∧ 8 ≤ e.addr.length ∨ e.family.val = afInet6 ∧ 24 ≤ e.addr.length))

/-- An entry of the fourth version. -/
def isInet (e : ResAddrinfo) : Bool := e.family.val = afInet

/-- Where the address of such an entry is. -/
def sinAddr (e : ResAddrinfo) : Bytes := slice e.addr 4 4

/-- What the walk ends with at an entry that is not readable: the address is read past, or
its family is refused. -/
def failure (e : ResAddrinfo) : Failure :=
  if e.family.val = afInet ∨ e.family.val = afInet6 then .fault .outOfBounds
  else .thrown ⟨.invalidArgumentException,
    "[LookupHost]unsupported ai_family: " ++ toString e.family.val⟩

end ResAddrinfo

section

variable {node : AddrInfo} {e : ResAddrinfo} (hfamily : node.family = e.family.val)
  (haddr : node.addr = e.addr)
include hfamily haddr

theorem lookupNode_of_readable (h : e.Readable) :
    lookupNode node = .ok (if e.isInet then some (quad e.sinAddr) else none) := by
  rcases h with ⟨hinet, hlen⟩ | ⟨hinet6, hlen⟩
  · have hread {off : Nat} (hoff : off ≤ 4) : ntopBytes node off = .ok (slice e.addr off 4) := by
      rw [ntopBytes, hfamily, if_pos hinet, haddr, readBytes, if_pos (by omega)]
      rfl
    rw [lookupNode, hread (by decide), ok_bind, hfamily, if_pos hinet, hread (Nat.le_refl 4),
      ResAddrinfo.isInet, decide_eq_true hinet]
    rfl
  · have hread {off : Nat} (hoff : off ≤ 8) : ntopBytes node off = .ok (slice e.addr off 16) := by
      rw [ntopBytes, hfamily, hinet6, if_neg (by decide), if_pos rfl, haddr, readBytes,
        if_pos (by omega)]
      rfl
    rw [lookupNode, hread (by decide), ok_bind, hfamily, hinet6, if_neg (by decide), if_pos rfl,
      hread (Nat.le_refl 8), ResAddrinfo.isInet, hinet6]
    rfl

theorem lookupNode_of_not_readable (h : ¬ e.Readable) :
    lookupNode node = .error e.failure := by
  rw [ResAddrinfo.Readable, not_or, not_and, not_and] at h
  obtain ⟨hinet, hinet6⟩ := h
  -- the first of the two reads may still lie in the address
  have hread (off n : Nat) (hlen : e.addr.length < off + n) :
      readBytes e.addr off n = .error (.fault .outOfBounds) := by
    rw [readBytes, if_neg (by omega)]
  have htwo (off n : Nat) : readBytes e.addr off n = .error (.fault .outOfBounds) ∨
      ∃ bs, readBytes e.addr off n = .ok bs := by
    unfold readBytes
    split
    · exact .inr ⟨_, rfl⟩
    · exact .inl rfl
  by_cases h2 : e.family.val = afInet
  · have hlen := hinet h2
    rw [lookupNode, ntopBytes, ntopBytes, hfamily, haddr, if_pos h2, if_pos h2, if_pos h2,
      hread 4 4 (by omega), ResAddrinfo.failure, if_pos (.inl h2)]
    rcases htwo 2 4 with h | ⟨bs, h⟩ <;> rw [h] <;> rfl
  · by_cases h10 : e.family.val = afInet6
    · have hlen := hinet6 h10
      rw [lookupNode, ntopBytes, ntopBytes, ntopBytes, hfamily, haddr, h10, if_neg (by decide),
        if_pos rfl, if_neg (by decide), if_pos rfl, if_neg (by decide), if_pos rfl,
        hread 8 16 (by omega), ResAddrinfo.failure, if_pos (.inr h10)]
      rcases htwo 2 16 with h | ⟨bs, h⟩ <;> rw [h] <;> rfl
    · rw [lookupNode, ntopBytes, hfamily, if_neg h2, if_neg h10, ok_bind, if_neg h2, if_neg h10,
        ResAddrinfo.failure, if_neg (not_or.mpr ⟨h2, h10⟩)]
      rfl

end

/-! ## The walk -/

/-- The walk over entries: the texts of those of the fourth version. -/
def lookupEntries : List ResAddrinfo → Res (List Bytes)
  | [] => .ok []
  | e :: es =>
    if e.Readable then do
      let ips ← lookupEntries es
      return if e.isInet then quad e.sinAddr :: ips else ips
    else .error e.failure

/-- **The walk over the chain** is one over the entries. -/
theorem lookupLoop_of_chain {results : List AddrInfo} {res : Option Nat} {es : List ResAddrinfo}
    (h : Chain results res es) :
    ∀ {fuel : Nat}, es.length ≤ fuel → lookupLoop results fuel res = lookupEntries es := by
  induction h with
  | nil =>
    intro fuel _
    cases fuel <;> rfl
  | cons i node e es hnode _ hfamily _ _ _ haddr _ ih =>
    intro fuel hfuel
    obtain ⟨fuel, rfl⟩ : ∃ n, fuel = n + 1 := ⟨fuel - 1, by rw [List.length_cons] at hfuel; omega⟩
    rw [lookupLoop, hnode, lookupEntries]
    dsimp only
    by_cases hreadable : e.Readable
    · rw [lookupNode_of_readable hfamily haddr hreadable, ok_bind, if_pos hreadable,
        ih (Nat.le_of_succ_le_succ hfuel)]
      cases lookupEntries es with
      | error f => rfl
      | ok ips => cases e.isInet <;> rfl
    · rw [lookupNode_of_not_readable hfamily haddr hreadable, if_neg hreadable]
      rfl

/-- When all entries are readable. -/
theorem lookupEntries_ok {es : List ResAddrinfo} (h : ∀ e ∈ es, e.Readable) :
    lookupEntries es =
      .ok ((es.filter ResAddrinfo.isInet).map fun e => quad e.sinAddr) := by
  induction es with
  | nil => rfl
  | cons e es ih =>
    obtain ⟨he, hes⟩ := List.forall_mem_cons.mp h
    rw [lookupEntries, if_pos he, ih hes, ok_bind, pure_eq_ok]
    cases hinet : e.isInet <;> simp [hinet]

/-- Otherwise it ends at the first that is not. -/
theorem lookupEntries_error {before after : List ResAddrinfo} {e : ResAddrinfo}
    (hbefore : ∀ x ∈ before, x.Readable) (he : ¬ e.Readable) :
    lookupEntries (before ++ e :: after) = .error e.failure := by
  induction before with
  | nil => rw [List.nil_append, lookupEntries, if_neg he]
  | cons x xs ih =>
    obtain ⟨hx, hxs⟩ := List.forall_mem_cons.mp hbefore
    rw [List.cons_append, lookupEntries, if_pos hx, ih hxs]
    rfl

/-- Only readable entries are walked to the end. -/
theorem readable_of_lookupEntries {es : List ResAddrinfo} {ips : List Bytes}
    (h : lookupEntries es = .ok ips) : ∀ e ∈ es, e.Readable := by
  induction es generalizing ips with
  | nil =>
    intro e he
    cases he
  | cons e es ih =>
    rw [lookupEntries] at h
    by_cases he : e.Readable
    · rw [if_pos he] at h
      obtain ⟨ips', hes, -⟩ := bind_eq_ok h
      exact List.forall_mem_cons.mpr ⟨he, ih hes⟩
    · rw [if_neg he] at h
      cases h

/-! ## What is connected to -/

/-- The answers that `getaddrinfo3` decodes, and the entries they have: a call that was
cancelled, or has failed, has none. -/
inductive Says (mallocZeroNull : Bool) : Option Bytes → List ResAddrinfo → Prop
  | cancelled : Says mallocZeroNull none []
  | failed {data : Bytes} (hlen : sizeofResult ≤ data.length)
      (hret : leadingInt (data.drop 4) ≠ 0) : Says mallocZeroNull (some data) []
  | declares {data : Bytes} {es : List ResAddrinfo} (hlen : sizeofResult ≤ data.length)
      (hret : leadingInt (data.drop 4) = 0) (hdeclares : Declares data es)
      (hmalloc : es = [] → mallocZeroNull = true) (hnul : es ≠ [] → 0 ∈ data.drop 12) :
      Says mallocZeroNull (some data) es

theorem length_nodesFrom (canonname : Bytes) (count i : Nat) (es : List ResAddrinfo) :
    (nodesFrom canonname count i es).length = es.length := by
  induction es generalizing i with
  | nil => rfl
  | cons e es ih => rw [nodesFrom, List.length_cons, List.length_cons, ih]

/-- Releasing a chain succeeds, with enough fuel. -/
theorem visited_of_chain {results : List AddrInfo} {res : Option Nat} {es : List ResAddrinfo}
    (h : Chain results res es) :
    ∀ {fuel : Nat}, es.length ≤ fuel → ∃ nodes, visited results fuel res = .ok nodes := by
  induction h with
  | nil =>
    intro fuel _
    exact ⟨[], by cases fuel <;> rfl⟩
  | cons i node e es hnode _ _ _ _ _ _ _ ih =>
    intro fuel hfuel
    obtain ⟨fuel, rfl⟩ : ∃ n, fuel = n + 1 := ⟨fuel - 1, by rw [List.length_cons] at hfuel; omega⟩
    obtain ⟨nodes, hnodes⟩ := ih (Nat.le_of_succ_le_succ hfuel)
    exact ⟨node :: nodes, by rw [visited, hnode]; simp only [hnodes, ok_bind, pure_eq_ok]⟩

/-- **The host that is looked up** is the first that the walk over the entries finds. -/
theorem lookupHost_eq {mallocZeroNull : Bool} {answer : Option Bytes} {es : List ResAddrinfo}
    (h : Says mallocZeroNull answer es) :
    lookupHost mallocZeroNull answer = (do
      let ips ← lookupEntries es
      return ips.headD []) := by
  cases h with
  | cancelled => rfl
  | @failed data hlen hret =>
    have hfirst := readInt_fixed hlen (show 4 + 4 ≤ sizeofResult by decide)
    have herrno := readInt_fixed hlen (show 8 + 4 ≤ sizeofResult by decide)
    simp only [Nat.cast_ofNat] at hfirst herrno
    have hresult : getaddrinfo3 mallocZeroNull data =
        .ok ⟨leadingInt (data.drop 4), some (leadingInt (data.drop 8)), none⟩ := by
      rw [getaddrinfo3, hfirst, ok_bind, if_neg hret, herrno]
      rfl
    rw [lookupHost, hresult, ok_bind, if_pos hret]
    rfl
  | @declares data es hlen hret hdeclares hmalloc hnul =>
    rw [lookupHost, getaddrinfo3_of_declares hlen hret hdeclares hnul, ok_bind, if_neg (by simp)]
    by_cases hnil : es = []
    · subst hnil
      rw [if_pos ⟨rfl, hmalloc rfl⟩]
      rfl
    · have hchain := chain_nodesFrom ((data.drop 12).takeWhile (· != 0)) es.length es [] (by simp)
      have hpos : 0 < es.length := List.length_pos_iff.mpr hnil
      rw [List.length_nil, if_pos hpos, List.nil_append] at hchain
      have hlength := length_nodesFrom ((data.drop 12).takeWhile (· != 0)) es.length 0 es
      obtain ⟨nodes, hvisited⟩ := visited_of_chain hchain (Nat.le_succ es.length)
      rw [if_neg (fun h => hnil h.1)]
      simp only [Option.getD_some, Option.map_some, hlength]
      rw [lookupLoop_of_chain hchain (by omega), freeaddrinfo3, hvisited]
      cases lookupEntries es <;> rfl

/-- The address of the first entry of the fourth version; there need not be one. -/
def firstInet (es : List ResAddrinfo) : Bytes :=
  ((es.find? ResAddrinfo.isInet).map ResAddrinfo.sinAddr).getD inaddrAny.val

/-- A text that is read back. -/
theorem inetPton_quad (a dst : InAddr) : inetPton (quad a.val) dst = (1, a) := by
  have h : quad? (quad a.val) = some a.val := quad?_eq_some_iff.mpr ⟨a.property, rfl⟩
  unfold inetPton
  split
  · rename_i a' h'
    obtain rfl := Option.some.inj (h.symm.trans h')
    rfl
  · rename_i h'
    rw [h'] at h
    cases h

/-- The empty text is not an address, and not an error. -/
theorem inetPton_nil (dst : InAddr) : inetPton [] dst = (0, dst) := by
  have h : quad? [] = none := by decide
  unfold inetPton
  split
  · rename_i a' h'
    rw [h'] at h
    cases h
  · rfl

/-- What is connected to is the address that the text was made of, or any. -/
theorem inetPton_lookup {es : List ResAddrinfo} (h : ∀ e ∈ es, e.Readable) :
    ∃ (ret : Int) (a : InAddr), 0 ≤ ret ∧ a.val = firstInet es ∧
      inetPton (((es.filter ResAddrinfo.isInet).map fun e => quad e.sinAddr).headD [])
        inaddrAny = (ret, a) := by
  rw [List.headD_eq_head?_getD, List.head?_map, List.head?_filter, firstInet]
  cases hfind : es.find? ResAddrinfo.isInet with
  | none => exact ⟨0, inaddrAny, Int.le_refl 0, rfl, inetPton_nil inaddrAny⟩
  | some e =>
    have hfound : e.isInet = true := List.find?_some hfind
    have hinet : e.family.val = afInet := of_decide_eq_true hfound
    have hlen : e.sinAddr.length = 4 := by
      refine slice_length ?_
      rcases h e (List.mem_of_find?_eq_some hfind) with ⟨-, hlen⟩ | ⟨hinet6, -⟩
      · omega
      · rw [hinet] at hinet6
        cases hinet6
    exact ⟨1, ⟨e.sinAddr, hlen⟩, by decide, rfl, inetPton_quad ⟨e.sinAddr, hlen⟩ inaddrAny⟩

/-- **From the answer to the address.** For every answer that `getaddrinfo3` decodes, the
host is looked up exactly when all its entries have a family that is known and an address as
long as that; otherwise the walk ends at the first that has not. And what `Connect` then asks
the proxy to connect to is the address of the first entry of the fourth version, or `0.0.0.0`
when there is none: the empty text is never refused. -/
theorem lookup_connect {mallocZeroNull : Bool} {answer : Option Bytes} {es : List ResAddrinfo}
    (h : Says mallocZeroNull answer es) :
    ((∃ ip, lookupHost mallocZeroNull answer = .ok ip) ↔ ∀ e ∈ es, e.Readable) ∧
      (∀ before e after, es = before ++ e :: after → (∀ x ∈ before, x.Readable) →
        ¬ e.Readable → lookupHost mallocZeroNull answer = .error e.failure) ∧
      ∀ ip, lookupHost mallocZeroNull answer = .ok ip → ∀ callId fd port : CInt,
        ∃ a : InAddr, a.val = firstInet es ∧
          (∀ connect3, connect connect3 fd ip port =
            connect3 (connectCall fd port a) >>= connectReturn) ∧
          ∃ m, (connectCall fd port a).message callId = .ok m ∧
            ProxyRequest.ofMessage m =
              some (callId.val, .connect fd.val (sockaddrIn port a)) := by
  have heq := lookupHost_eq h
  have hreadable {ip : Bytes} (hip : lookupHost mallocZeroNull answer = .ok ip) :
      ∀ e ∈ es, e.Readable := by
    rw [heq] at hip
    obtain ⟨ips, hips, -⟩ := bind_eq_ok hip
    exact readable_of_lookupEntries hips
  refine ⟨⟨?_, ?_⟩, ?_, ?_⟩
  · rintro ⟨ip, hip⟩
    exact hreadable hip
  · intro hall
    exact ⟨_, by rw [heq, lookupEntries_ok hall, ok_bind, pure_eq_ok]⟩
  · rintro before e after rfl hbefore he
    rw [heq, lookupEntries_error hbefore he]
    rfl
  · intro ip hip callId fd port
    have hall := hreadable hip
    obtain ⟨ret, a, hret, ha, hpton⟩ := inetPton_lookup hall
    rw [heq, lookupEntries_ok hall, ok_bind, pure_eq_ok, Except.ok.injEq] at hip
    rw [hip] at hpton
    refine ⟨a, ha, fun connect3 => ?_, ?_⟩
    · rw [connect, hpton]
      dsimp only
      rw [if_neg (by omega)]
    · refine (ofMessage_message_iff callId (connectCall fd port a)).mpr ?_
      show 16 + (sockaddrIn port a).length < 2 ^ 31
      rw [sockaddrIn_length]
      decide

/-- An entry of the sixth version in front of one of the fourth. -/
theorem lookup_connect_second :
    let family (f : CInt) (addr : Bytes) (h : (addr.length : Int) < 2 ^ 31) : ResAddrinfo :=
      ⟨⟨0, by decide⟩, f, ⟨1, by decide⟩, ⟨6, by decide⟩, addr, h⟩
    let inet6 := family ⟨10, by decide⟩ (List.replicate 28 1) (by decide)
    let inet := family ⟨2, by decide⟩ ([2, 0, 1, 187, 93, 184, 216, 34] ++ List.replicate 8 0)
      (by decide)
    let data := List.replicate 2060 0 ++ [2, 0, 0, 0] ++ inet6.bytes ++ inet.bytes
    ∃ ip, lookupHost false (some data) = .ok ip ∧
      ∃ a : InAddr, a.val = [93, 184, 216, 34] ∧ ∀ connect3 (fd port : CInt),
        connect connect3 fd ip port = connect3 (connectCall fd port a) >>= connectReturn := by
  intro family inet6 inet data
  have hsays : Says false (some data) [inet6, inet] :=
    .declares (by decide +kernel) (by decide +kernel)
      ⟨by decide +kernel, [], by decide +kernel⟩ nofun fun _ => by decide +kernel
  obtain ⟨hlookup, -, hconnect⟩ := lookup_connect hsays
  obtain ⟨ip, hip⟩ := hlookup.mpr (by decide +kernel)
  refine ⟨ip, hip, ⟨[93, 184, 216, 34], rfl⟩, rfl, fun connect3 fd port => ?_⟩
  obtain ⟨a, ha, hconnect, -⟩ := hconnect ip hip ⟨1, by decide⟩ fd port
  obtain rfl : a = ⟨[93, 184, 216, 34], rfl⟩ := Subtype.ext (ha.trans (by decide +kernel))
  exact hconnect connect3

end ZktlsNet
