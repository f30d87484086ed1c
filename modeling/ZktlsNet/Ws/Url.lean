import Mathlib.Data.List.TakeWhile
import ZktlsNet.Lib.Buffer
import ZktlsNet.Lib.Search
import ZktlsNet.Lib.Bytes
import ZktlsNet.Ws.Failure

/-!
# URLs (`ws.cpp:873-917`, `ws.h:241-265`)

`parse_url` cuts a string at its first `://`, the next `/` behind it and the first `:`
between the two, and hands the parts to the constructor of `IpPort` one after the other.
The call passes the host in the place of the `uri` and the path in the place of the
`host`.

Looking up a host name is a parameter of the model; a host of digits and dots is never
looked up.

- `Url`: the parts of a string with a `://`, and `Url.compose`, which puts them together.
- `parseUrl_compose`: what `parse_url` returns for them.
- `parsesUrl_iff`: that is what the fields of `IpPort` are named after for no URL that is
  well formed; the other strings are rejected.
-/

namespace ZktlsNet

open NetLib

/-! ## `IpPort` -/

/-- `IpPort::ProtocolType`. -/
inductive ProtocolType
  | ws
  | wss
  deriving DecidableEq, Repr

/-- `struct IpPort`. -/
structure IpPort where
  protocolType : ProtocolType
  ip : Bytes
  port : Int
  uri : Bytes
  host : Bytes
  deriving DecidableEq, Repr

/-- A string in a message; a byte is shown as the character of its number. -/
def text (s : Bytes) : String := String.ofList (s.map fun b => Char.ofNat b.toNat)

/-- The protocol a name stands for. -/
def protocolTypeOf (protocolName : Bytes) : Option ProtocolType :=
  if protocolName = ascii "ws" then some .ws
  else if protocolName = ascii "wss" then some .wss
  else none

/-- The constructor of `IpPort`. -/
def IpPort.new (ip : Bytes) (port : Int) (protocolName uri host : Bytes) : Res IpPort :=
  match protocolTypeOf protocolName with
  | some protocolType => .ok ⟨protocolType, ip, port, uri, host⟩
  | none => .error (.thrown
    ⟨.invalidArgumentException, "invalid protocol name: " ++ text protocolName⟩)

/-! ## The standard library -/

/-- `std::string::find`; `none` is `npos`. -/
def find (s needle : Bytes) (pos : Nat) : Option Nat :=
  if pos ≤ s.length then (firstAt needle (s.drop pos)).map (· + pos) else none

/-- `std::string::substr`. A position behind the end is an exception of the standard
library, which nothing here catches; it is a fault of the model. -/
def substr (s : Bytes) (pos n : Nat) : Res Bytes :=
  if pos ≤ s.length then .ok (slice s pos n) else .error (.fault .outOfBounds)

/-- `isdigit`. -/
def isDigit (c : UInt8) : Bool := 48 ≤ c && c ≤ 57

/-- `isspace`. -/
def isSpace (c : UInt8) : Bool := c == 32 || (9 ≤ c && c ≤ 13)

/-- The value of a row of digits. -/
def numeral (digits : Bytes) : Nat := digits.foldl (fun n d => 10 * n + (d.toNat - 48)) 0

/-- `strtol` in base 10: white space, a sign, and the digits up to the first other
character. A value outside of 64 bits is replaced by the nearest one inside. -/
def strtol (s : Bytes) : Int :=
  let s := s.dropWhile isSpace
  let digits := if s.head? = some 45 ∨ s.head? = some 43 then s.drop 1 else s
  let n : Int := numeral (digits.takeWhile isDigit)
  if s.head? = some 45 then max (-n) (-2 ^ 63) else min n (2 ^ 63 - 1)

/-- `atoi`, which cuts the result of `strtol` to an `int`. -/
def atoi (s : Bytes) : Int := (strtol s).bmod (2 ^ 32)

/-! ## `parse_url` -/

/-- `not_ip`. -/
def notIp (address : Bytes) : Bool := address.any fun c => c != 46 && !(48 ≤ c && c ≤ 57)

/-- The end of the address, and the path from there on. -/
def cutPath (url : Bytes) (start : Nat) : Res (Nat × Bytes) :=
  match find url (ascii "/") start with
  | none => .ok (url.length, ascii "/")
  | some e => do
    let uri ← substr url e (url.length - e)
    return (e, uri)

/-- The address in front of the `:`, and the port behind it. -/
def cutPort (address : Bytes) : Res (Bytes × Int) :=
  match find address (ascii ":") 0 with
  | none => .ok (address, 443)
  | some p => do
    let digits ← substr address (p + 1) (address.length - (p + 1))
    let host ← substr address 0 p
    return (host, atoi digits)

/-- `parse_url`. The last two arguments of the constructor are the host and the path. -/
def parseUrl (lookupHost : Bytes → Res (List Bytes)) (url : Bytes) : Res IpPort :=
  match find url (ascii "://") 0 with
  | none => .error (.thrown ⟨.invalidArgumentException, "invalid url: " ++ text url⟩)
  | some start => do
    let protocolName ← substr url 0 start
    let (stop, uri) ← cutPath url (start + (ascii "://").length)
    let address ← substr url (start + (ascii "://").length)
      (stop - (start + (ascii "://").length))
    let (address, port) ← cutPort address
    let host := address
    if notIp address then
      match ← lookupHost (address.takeWhile (· != 0)) with
      | [] => .error (.thrown ⟨.socketError, "lookup host error, url: " ++ text url⟩)
      | first :: _ => IpPort.new first port protocolName host uri
    else IpPort.new address port protocolName host uri

/-! ## URLs put together -/

/-- The parts of a string with a `://`: what is in front of the first one, the text up to
the first `:`, the text behind that, and the text behind the first `/`. -/
structure Url where
  scheme : Bytes
  host : Bytes
  port : Option Bytes
  path : Option Bytes
  scheme_ok : ¬ ascii "://" <:+: scheme
  host_ok : 58 ∉ host ∧ 47 ∉ host
  port_ok : ∀ p ∈ port, 47 ∉ p

namespace Url

/-- What stands between `://` and the path. -/
def authority (u : Url) : Bytes :=
  match u.port with
  | none => u.host
  | some p => u.host ++ 58 :: p

/-- The path, `/` where there is none. -/
def uri (u : Url) : Bytes := 47 :: u.path.getD []

/-- The number of the port, 443 where there is none. -/
def portNumber (u : Url) : Int :=
  match u.port with
  | none => 443
  | some p => atoi p

/-- The string. -/
def compose (u : Url) : Bytes :=
  u.scheme ++ ascii "://" ++
    match u.path with
    | none => u.authority
    | some p => u.authority ++ 47 :: p

end Url

theorem splitters : ascii "://" = [58, 47, 47] ∧ ascii "/" = [47] ∧ ascii ":" = [58] := by
  decide +kernel

/-- A single character that is found, and one that is not. -/
theorem firstAt_char {c : UInt8} {a : Bytes} (ha : c ∉ a) :
    firstAt [c] a = none ∧ ∀ b, firstAt [c] (a ++ c :: b) = some a.length := by
  have hno : ¬ [c] <:+: a := by
    rwa [List.singleton_infix_iff]
  refine ⟨firstAt_eq_none_iff.mpr hno, fun b => ?_⟩
  have h := firstAt_append_self b (List.not_mem_nil (a := c)) hno
  rwa [List.append_assoc] at h

/-- The path begins where the authority ends. -/
theorem Url.authority_no_slash (u : Url) : 47 ∉ u.authority := by
  unfold authority
  cases hp : u.port with
  | none => exact u.host_ok.2
  | some p =>
    have hport := u.port_ok p hp
    simp [u.host_ok.2, hport]

/-- The first `://` of a URL is behind its scheme. -/
theorem find_scheme (u : Url) : find u.compose (ascii "://") 0 = some u.scheme.length := by
  have hno := u.scheme_ok
  rw [find, if_pos (Nat.zero_le _), List.drop_zero, Url.compose]
  rw [splitters.1] at hno ⊢
  rw [firstAt_append_self _ (by decide) hno]
  rfl

/-- What is behind it. -/
theorem drop_scheme (u : Url) :
    u.compose.drop (u.scheme.length + (ascii "://").length) =
      match u.path with
      | none => u.authority
      | some p => u.authority ++ 47 :: p := by
  rw [Url.compose, List.drop_left' (by rw [List.length_append])]

theorem scheme_length_le (u : Url) :
    u.scheme.length + (ascii "://").length ≤ u.compose.length := by
  rw [Url.compose, List.length_append, List.length_append]
  exact Nat.le_add_right ..

/-- The address ends at the path, and the path is the rest. -/
theorem cutPath_compose (u : Url) :
    cutPath u.compose (u.scheme.length + (ascii "://").length) =
      .ok (u.scheme.length + (ascii "://").length + u.authority.length, u.uri) := by
  have hdrop := drop_scheme u
  have hle := scheme_length_le u
  obtain ⟨hnone, hsome⟩ := firstAt_char u.authority_no_slash
  have hlen := congrArg List.length hdrop
  rw [List.length_drop] at hlen
  rw [cutPath, find, if_pos hle, hdrop, splitters.2.1]
  cases hp : u.path with
  | none =>
    rw [hp] at hlen
    simp only [hnone, Option.map_none, Except.ok.injEq, Prod.mk.injEq]
    dsimp only at hlen
    exact ⟨by omega, by rw [Url.uri, hp]; rfl⟩
  | some p =>
    rw [hp] at hdrop hlen
    simp only [List.length_append, List.length_cons] at hlen
    simp only [hsome, Option.map_some]
    have hslice : slice u.compose (u.authority.length + (u.scheme.length + (ascii "://").length))
        (u.compose.length - (u.authority.length + (u.scheme.length + (ascii "://").length))) =
        47 :: p := by
      rw [slice, Nat.add_comm u.authority.length, ← List.drop_drop, hdrop, List.drop_left,
        List.take_of_length_le (by rw [List.length_cons]; omega)]
    rw [substr, if_pos (by omega), hslice, Nat.add_comm u.authority.length, Url.uri, hp]
    rfl

/-- The port is what is behind the first `:`. -/
theorem cutPort_authority (u : Url) : cutPort u.authority = .ok (u.host, u.portNumber) := by
  obtain ⟨hnone, hsome⟩ := firstAt_char u.host_ok.1
  rw [cutPort, find, if_pos (Nat.zero_le _), List.drop_zero, splitters.2.2, Url.authority,
    Url.portNumber]
  cases hp : u.port with
  | none => simp only [hnone, Option.map_none]
  | some p =>
    simp only [hsome, Option.map_some, Nat.add_zero]
    have hdigits : slice (u.host ++ 58 :: p) (u.host.length + 1)
        ((u.host ++ 58 :: p).length - (u.host.length + 1)) = p := by
      rw [slice, ← List.drop_drop, List.drop_left, List.drop_one, List.tail_cons,
        List.take_of_length_le (by simp only [List.length_append, List.length_cons]; omega)]
    have hfront : slice (u.host ++ 58 :: p) 0 u.host.length = u.host := by
      rw [slice, List.drop_zero, List.take_left]
    rw [substr, if_pos (by simp), hdigits, substr, if_pos (Nat.zero_le _), hfront]
    rfl

/-- **What `parse_url` makes of a URL** whose host need not be looked up: everything is in
its place, but for the host and the path, which are in each other's. -/
theorem parseUrl_compose (lookupHost : Bytes → Res (List Bytes)) (u : Url)
    (hhost : ∀ c ∈ u.host, isDigit c = true ∨ c = 46) :
    parseUrl lookupHost u.compose =
      IpPort.new u.host u.portNumber u.scheme u.host u.uri := by
  have hip : notIp u.host = false := by
    rw [notIp, List.any_eq_false]
    intro c hc
    obtain h | h := hhost c hc
    · rw [isDigit] at h
      simp [h]
    · simp [h]
  have hscheme : slice u.compose 0 u.scheme.length = u.scheme := by
    rw [slice, List.drop_zero, Url.compose, List.append_assoc, List.take_left]
  have haddress : slice u.compose (u.scheme.length + (ascii "://").length)
      u.authority.length = u.authority := by
    rw [slice, drop_scheme]
    cases u.path with
    | none => exact List.take_length
    | some p => exact List.take_left
  rw [parseUrl, find_scheme]
  simp only [substr, Nat.zero_le, if_true, hscheme, ok_bind, cutPath_compose,
    scheme_length_le, Nat.add_sub_cancel_left, haddress, cutPort_authority, hip,
    Bool.false_eq_true, if_false]

/-- A list is cut at the first place of an element, if it has one. -/
theorem cut_at (c : UInt8) (l : Bytes) :
    ∃ a, c ∉ a ∧ (l = a ∨ ∃ b, l = a ++ c :: b) := by
  by_cases h : c ∈ l
  · obtain ⟨a, b, rfl, ha⟩ := List.eq_append_cons_of_mem h
    exact ⟨a, ha, .inr ⟨b, rfl⟩⟩
  · exact ⟨l, h, .inl rfl⟩

/-- **Every string that `parse_url` accepts** is a URL. -/
theorem exists_url_of_accepted {lookupHost : Bytes → Res (List Bytes)} {url : Bytes}
    {ipPort : IpPort} (h : parseUrl lookupHost url = .ok ipPort) : ∃ u : Url, u.compose = url := by
  rw [parseUrl, find, if_pos (Nat.zero_le _), List.drop_zero] at h
  cases hfirst : firstAt (ascii "://") url with
  | none =>
    rw [hfirst] at h
    cases h
  | some i =>
    obtain ⟨scheme, rest, rfl, rfl, hleast⟩ := firstAt_eq_some hfirst
    have hscheme : ¬ ascii "://" <:+: scheme := by
      rintro ⟨a, b, rfl⟩
      have hle := hleast a (b ++ ascii "://" ++ rest) (by simp only [List.append_assoc])
      have hpos : 0 < (ascii "://").length := by decide +kernel
      simp only [List.length_append] at hle
      omega
    obtain ⟨authority, hslash, hpath⟩ := cut_at 47 rest
    obtain ⟨host, hcolon, hport⟩ := cut_at 58 authority
    have hsub : ∀ c ∈ host, c ∈ authority := by
      intro c hc
      obtain rfl | ⟨p, rfl⟩ := hport
      · exact hc
      · exact List.mem_append_left _ hc
    obtain ⟨port, hportOk, hauthority⟩ : ∃ port : Option Bytes, (∀ p ∈ port, 47 ∉ p) ∧
        authority = match port with
          | none => host
          | some p => host ++ 58 :: p := by
      obtain rfl | ⟨p, rfl⟩ := hport
      · exact ⟨none, by simp, rfl⟩
      · exact ⟨some p, by simpa using fun hp => hslash (by simp [hp]), rfl⟩
    obtain ⟨path, hrest⟩ : ∃ path : Option Bytes, rest = match path with
        | none => authority
        | some p => authority ++ 47 :: p := by
      obtain rfl | ⟨p, rfl⟩ := hpath
      · exact ⟨none, rfl⟩
      · exact ⟨some p, rfl⟩
    refine ⟨⟨scheme, host, port, path, hscheme, ⟨hcolon, fun hc => hslash (hsub 47 hc)⟩,
      hportOk⟩, ?_⟩
    rw [Url.compose, Url.authority, hrest, hauthority]

/-! ## Inverting composition -/

/-- A URL with a non-empty host of digits and dots and a port in decimal, if it has one. -/
structure Url.WellFormed (u : Url) : Prop where
  host_ne : u.host ≠ []
  host_numeric : ∀ c ∈ u.host, isDigit c = true ∨ c = 46
  port_decimal : ∀ p ∈ u.port, p ≠ [] ∧ (∀ c ∈ p, isDigit c = true) ∧ numeral p ≤ 65535

/-- The port it names. -/
def Url.portValue (u : Url) : Nat :=
  match u.port with
  | none => 443
  | some p => numeral p

/-- `atoi` on a decimal numeral of 16 bits, with leading zeros or without. -/
theorem atoi_numeral {p : Bytes} (hne : p ≠ []) (hdigits : ∀ c ∈ p, isDigit c = true)
    (hle : numeral p ≤ 65535) : atoi p = numeral p := by
  have htake : p.takeWhile isDigit = p := by
    rw [List.takeWhile_eq_self_iff]
    exact hdigits
  obtain ⟨c, cs, rfl⟩ := List.exists_cons_of_ne_nil hne
  have hc := hdigits c (List.mem_cons_self ..)
  have hspace : isSpace c = false := by
    simp only [isDigit, Bool.and_eq_true, decide_eq_true_eq, UInt8.le_iff_toNat_le] at hc
    simp only [isSpace, Bool.or_eq_false_iff, beq_eq_false_iff_ne, Bool.and_eq_false_iff,
      decide_eq_false_iff_not, UInt8.le_iff_toNat_le, ne_eq, ← UInt8.toNat_inj]
    simp at hc ⊢
    omega
  have hsign : c ≠ 45 ∧ c ≠ 43 := by
    constructor <;> (rintro rfl; exact absurd hc (by decide))
  have hstrtol : strtol (c :: cs) = numeral (c :: cs) := by
    rw [strtol, List.dropWhile_cons_of_neg (by simp [hspace])]
    simp only [List.head?_cons, Option.some.injEq, hsign.1, hsign.2, or_self, if_false, htake]
    omega
  rw [atoi, hstrtol, Int.bmod_eq_of_le] <;> omega

/-- The string is rejected as an invalid argument. -/
def Rejected (r : Res IpPort) : Prop :=
  ∃ msg, r = .error (.thrown ⟨.invalidArgumentException, msg⟩)

/-- What `parse_url` is to do with a string: take a URL apart into the fields that have
the names of its parts, and reject a string without `://` or with another scheme. -/
structure ParsesUrl (lookupHost : Bytes → Res (List Bytes)) (url : Bytes) : Prop where
  inverts : ∀ u : Url, u.WellFormed → u.compose = url → ∀ t, protocolTypeOf u.scheme = some t →
    parseUrl lookupHost url = .ok ⟨t, u.host, u.portValue, u.uri, u.host⟩
  no_splitter : ¬ ascii "://" <:+: url → Rejected (parseUrl lookupHost url)
  other_scheme : ∀ u : Url, u.WellFormed → u.compose = url →
    protocolTypeOf u.scheme = none → Rejected (parseUrl lookupHost url)

theorem Url.WellFormed.portNumber_eq {u : Url} (h : u.WellFormed) :
    u.portNumber = (u.portValue : Int) := by
  unfold Url.portNumber Url.portValue
  cases hp : u.port with
  | none => rfl
  | some p =>
    obtain ⟨hne, hdigits, hle⟩ := h.port_decimal p hp
    exact atoi_numeral hne hdigits hle

/-- A well-formed URL of `ws` or `wss`: the host is where the path belongs, and the path
where the host belongs. -/
theorem parseUrl_wellFormed (lookupHost : Bytes → Res (List Bytes)) {u : Url}
    (h : u.WellFormed) {t : ProtocolType} (ht : protocolTypeOf u.scheme = some t) :
    parseUrl lookupHost u.compose = .ok ⟨t, u.host, u.portValue, u.host, u.uri⟩ := by
  rw [parseUrl_compose lookupHost u h.host_numeric, IpPort.new, ht, h.portNumber_eq]

/-- **`parse_url` inverts composition for no URL.** It does with a string what it is to do
if and only if the string is not a well-formed URL of `ws` or `wss`. With such a URL all
fields are right but `uri` and `host`, which hold each other's text. -/
theorem parsesUrl_iff (lookupHost : Bytes → Res (List Bytes)) (url : Bytes) :
    (ParsesUrl lookupHost url ↔
      ¬ ∃ u : Url, u.WellFormed ∧ (protocolTypeOf u.scheme).isSome ∧ u.compose = url) ∧
    ∀ u : Url, u.WellFormed → u.compose = url → ∀ t, protocolTypeOf u.scheme = some t →
      parseUrl lookupHost url = .ok ⟨t, u.host, u.portValue, u.host, u.uri⟩ := by
  refine ⟨⟨?_, ?_⟩, ?_⟩
  · rintro hparses ⟨u, hu, hscheme, rfl⟩
    obtain ⟨t, ht⟩ := Option.isSome_iff_exists.mp hscheme
    have hswapped := parseUrl_wellFormed lookupHost hu ht
    rw [hparses.inverts u hu rfl t ht] at hswapped
    simp only [Except.ok.injEq, IpPort.mk.injEq, true_and] at hswapped
    -- a path starts with the character that no host has
    refine u.host_ok.2 ?_
    rw [hswapped.2]
    exact List.mem_cons_self ..
  · intro hno
    constructor
    · intro u hu heq t ht
      exact absurd ⟨u, hu, by rw [ht]; rfl, heq⟩ hno
    · intro hsplitter
      refine ⟨"invalid url: " ++ text url, ?_⟩
      rw [parseUrl, find, if_pos (Nat.zero_le _), List.drop_zero,
        firstAt_eq_none_iff.mpr hsplitter]
      rfl
    · rintro u hu rfl hscheme
      refine ⟨"invalid protocol name: " ++ text u.scheme, ?_⟩
      rw [parseUrl_compose lookupHost u hu.host_numeric, IpPort.new, hscheme]
  · rintro u hu rfl t ht
    exact parseUrl_wellFormed lookupHost hu ht

/-- `ws://1.2.3.4:80/a`. -/
theorem parseUrl_exchanges :
    let u : Url := ⟨ascii "ws", ascii "1.2.3.4", some (ascii "80"), some (ascii "a"),
      by decide +kernel, by decide +kernel, by decide +kernel⟩
    ¬ ParsesUrl (fun _ => .ok []) u.compose ∧
      parseUrl (fun _ => .ok []) u.compose =
        .ok ⟨.ws, ascii "1.2.3.4", 80, ascii "1.2.3.4", ascii "/a"⟩ := by
  intro u
  have hparsed : parseUrl (fun _ => .ok []) u.compose =
      .ok ⟨.ws, ascii "1.2.3.4", 80, ascii "1.2.3.4", ascii "/a"⟩ := by
    decide +kernel
  refine ⟨fun h => ?_, hparsed⟩
  have hu : u.WellFormed := ⟨by decide +kernel, by decide +kernel, by decide +kernel⟩
  rw [h.inverts u hu rfl .ws (by decide +kernel)] at hparsed
  revert hparsed
  decide +kernel

end ZktlsNet
