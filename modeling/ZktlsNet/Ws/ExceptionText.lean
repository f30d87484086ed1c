import ZktlsNet.Lib.LinkedList
import ZktlsNet.Ws.Request
import Mathlib.Data.List.Nodup

/-!
# Exceptions as text (`common/runtime_error.h`, `common/runtime_error.cpp`)

An exception is handed on as the text of its `what()`, which begins with the name of its
class in brackets. Two functions take such a text apart again: one looks the class up among
the factories, which static objects have pushed into a linked list in whatever order they
are initialised, the other returns the message.

- `getExceptionFactory_eq`: the look-up in the list, for the texts that it accepts.
- `exception_text`: what a text gives back is the exception it was made from.
-/

namespace ZktlsNet

open NetLib

/-! ## The classes -/

/-- The classes of `MAKE_ALL_EXCEPTIONS`, in its order. -/
def allErrorTypes : List ErrorType :=
  [.socketError, .networkError, .primusServerNetworkError, .tlsNetworkError, .lengthException,
    .outOfRangeException, .invalidArgumentException, .logicError, .runtimeError,
    .responseException, .responseCheckError, .parseError, .parseJsonError, .parseHtmlError,
    .fileNotExistException, .sslCertificateError, .internalError, .mpcThreadException,
    .plainThreadException, .plainClientNotStarted, .waitPlainClientTimeout,
    .mpctClientNotStarted, .decryptException, .izkCheckException, .runTooSlow,
    .evaluatorCheatedError, .extendedMasterSecretError, .otherError]

namespace ErrorType

/-- `GetErrorType`, of the class and of its factory. -/
def getErrorType : ErrorType → Bytes
  | socketError => ascii "SocketError"
  | networkError => ascii "NetworkError"
  | primusServerNetworkError => ascii "PrimusServerNetworkError"
  | tlsNetworkError => ascii "TlsNetworkError"
  | lengthException => ascii "LengthException"
  | outOfRangeException => ascii "OutOfRangeException"
  | invalidArgumentException => ascii "InvalidArgumentException"
  | logicError => ascii "LogicError"
  | runtimeError => ascii "RuntimeError"
  | responseException => ascii "ResponseException"
  | responseCheckError => ascii "ResponseCheckError"
  | parseError => ascii "ParseError"
  | parseJsonError => ascii "ParseJsonError"
  | parseHtmlError => ascii "ParseHtmlError"
  | fileNotExistException => ascii "FileNotExistException"
  | sslCertificateError => ascii "SSLCertificateError"
  | internalError => ascii "InternalError"
  | mpcThreadException => ascii "MPCThreadException"
  | plainThreadException => ascii "PlainThreadException"
  | plainClientNotStarted => ascii "PlainClientNotStarted"
  | waitPlainClientTimeout => ascii "WaitPlainClientTimeout"
  | mpctClientNotStarted => ascii "MPCTClientNotStarted"
  | decryptException => ascii "DecryptException"
  | izkCheckException => ascii "IzkCheckException"
  | runTooSlow => ascii "RunTooSlow"
  | evaluatorCheatedError => ascii "EvaluatorCheatedError"
  | extendedMasterSecretError => ascii "ExtendedMasterSecretError"
  | otherError => ascii "OtherError"

/-- `GetErrorCode`. -/
def getErrorCode : ErrorType → Nat
  | socketError => 10001
  | networkError => 10002
  | primusServerNetworkError => 10003
  | tlsNetworkError => 10004
  | lengthException => 20001
  | outOfRangeException => 20002
  | invalidArgumentException => 20003
  | logicError => 20004
  | runtimeError => 20005
  | responseException => 30001
  | responseCheckError => 30002
  | parseError => 30003
  | parseJsonError => 30004
  | parseHtmlError => 30005
  | fileNotExistException => 40001
  | sslCertificateError => 40002
  | internalError => 50001
  | mpcThreadException => 50002
  | plainThreadException => 50003
  | plainClientNotStarted => 50004
  | waitPlainClientTimeout => 50005
  | mpctClientNotStarted => 50006
  | decryptException => 50007
  | izkCheckException => 50008
  | runTooSlow => 50009
  | evaluatorCheatedError => 50010
  | extendedMasterSecretError => 50011
  | otherError => 99999

end ErrorType

/-- An exception object: its class, and `errorMsg`. -/
structure ExceptionObject where
  cls : ErrorType
  errorMsg : Bytes
  deriving DecidableEq, Repr

namespace ExceptionObject

/-- The constructor of a class. -/
def new (cls : ErrorType) (e : Bytes) : ExceptionObject :=
  ⟨cls, ascii "[" ++ cls.getErrorType ++ ascii "]" ++ e⟩

/-- `what`, as a string that is made from it. -/
def what (x : ExceptionObject) : Bytes := cStr x.errorMsg

def getErrorCode (x : ExceptionObject) : Nat := x.cls.getErrorCode

def getErrorType (x : ExceptionObject) : Bytes := x.cls.getErrorType

end ExceptionObject

/-! ## The factories -/

/-- `createException` of the factory of a class. -/
def createException (factory : ErrorType) (e : Bytes) : ExceptionObject := .new factory e

/-- The `ExceptionFactoryItem`s, and `exceptionFactoryHead`. -/
structure ExceptionFactories where
  items : ListHeap ErrorType
  exceptionFactoryHead : Option Ptr
  deriving DecidableEq, Repr

namespace ExceptionFactories

/-- Before the static objects are initialised. -/
def init : ExceptionFactories := ⟨[], none⟩

/-- The walk of `pushExceptionFactory` to the last item. -/
def pushLoop (item : Ptr) : Nat → Ptr → ListHeap ErrorType → Res (ListHeap ErrorType)
  | 0, _, _ => .error .outOfFuel
  | fuel + 1, h, items => do
    let node ← items.deref (.fault .useAfterFree) h
    match node.next with
    | some next => pushLoop item fuel next items
    | none => items.setNext (.fault .useAfterFree) h (some item)

/-- `pushExceptionFactory`. -/
def pushExceptionFactory (r : ExceptionFactories) (item : Ptr) : Res ExceptionFactories :=
  match r.exceptionFactoryHead with
  | none => return { r with exceptionFactoryHead := some item }
  | some h => return { r with items := ← pushLoop item r.items.length h r.items }

/-- The constructor of a `FactoryCreator`, which makes an item and pushes it. -/
def create (r : ExceptionFactories) (cls : ErrorType) : Res ExceptionFactories :=
  pushExceptionFactory { r with items := r.items.alloc ⟨none, cls⟩ } r.items.length

/-- The static objects, initialised in the given order. -/
def createAll : List ErrorType → ExceptionFactories → Res ExceptionFactories
  | [], r => return r
  | cls :: order, r => do createAll order (← r.create cls)

/-- The loop of `getExceptionFactory`. -/
def findLoop (items : ListHeap ErrorType) (exceptionClass : Bytes) :
    Nat → Option Ptr → Res (Option ErrorType)
  | _, none => return none
  | 0, some _ => .error .outOfFuel
  | fuel + 1, some h => do
    let node ← items.deref (.fault .useAfterFree) h
    if node.data.getErrorType = exceptionClass then return some node.data
    else findLoop items exceptionClass fuel node.next

/-- `getExceptionFactory`. The first character of an empty string is its `NUL`. -/
def getExceptionFactory (r : ExceptionFactories) (e : Bytes) : Res (Option ErrorType) :=
  if e.headD 0 ≠ 91 then return none
  else
    match find e (ascii "]") 1 with
    | none => return none
    | some pos => do
      let exceptionClass ← substr e 1 (pos - 1)
      let _ ← substr e (pos + 1) (e.length - (pos + 1))
      findLoop r.items exceptionClass r.items.length r.exceptionFactoryHead

end ExceptionFactories

/-- `getExceptionMsg`. -/
def getExceptionMsg (e : Bytes) : Res Bytes :=
  if e.headD 0 ≠ 91 then return []
  else
    match find e (ascii "]") 1 with
    | none => return []
    | some pos => do
      let _ ← substr e 1 (pos - 1)
      substr e (pos + 1) (e.length - (pos + 1))

/-! ## The names -/

namespace ErrorType

theorem mem_all (cls : ErrorType) : cls ∈ allErrorTypes := by
  cases cls <;> decide

/-- Names are distinct. -/
theorem getErrorType_injective {c d : ErrorType} (h : c.getErrorType = d.getErrorType) : c = d := by
  have hnodup : (allErrorTypes.map getErrorType).Nodup := by decide +kernel
  exact List.inj_on_of_nodup_map hnodup c.mem_all d.mem_all h

/-- They have no bracket and no `NUL` in them. -/
theorem getErrorType_clean (c : ErrorType) : 93 ∉ c.getErrorType ∧ 0 ∉ c.getErrorType := by
  have hall : ∀ c ∈ allErrorTypes, 93 ∉ c.getErrorType ∧ 0 ∉ c.getErrorType := by decide +kernel
  exact hall c c.mem_all

end ErrorType

/-! ## The bracket -/

theorem ascii_open : ascii "[" = [91] := by decide +kernel

theorem ascii_close : ascii "]" = [93] := by decide +kernel

/-- The text of a class name and a message. -/
theorem errorMsg_eq (cls : ErrorType) (e : Bytes) :
    (ExceptionObject.new cls e).errorMsg = 91 :: (cls.getErrorType ++ 93 :: e) := by
  rw [ExceptionObject.new, ascii_open, ascii_close]
  simp

/-- The closing bracket is found behind a name without one. -/
theorem find_close {name : Bytes} (hname : 93 ∉ name) (rest : Bytes) :
    find (91 :: (name ++ 93 :: rest)) (ascii "]") 1 = some (name.length + 1) := by
  have hfirst : firstAt [93] (name ++ 93 :: rest) = some name.length := by
    have h : firstAt [93] (name ++ [93] ++ rest) = some name.length :=
      firstAt_append_self rest (by simp) (by rwa [List.singleton_infix_iff])
    rwa [List.append_assoc] at h
  rw [ascii_close, find, if_pos (by simp), List.drop_succ_cons, List.drop_zero, hfirst]
  rfl

/-- A closing bracket that is found has none before it. -/
theorem exists_of_find {t : Bytes} {pos : Nat} (h : find (91 :: t) (ascii "]") 1 = some pos) :
    ∃ name rest, t = name ++ 93 :: rest ∧ 93 ∉ name := by
  rw [ascii_close, find, if_pos (by simp), List.drop_succ_cons, List.drop_zero,
    Option.map_eq_some_iff] at h
  obtain ⟨i, hi, -⟩ := h
  obtain ⟨name, rest, rfl, hlen, hleast⟩ := firstAt_eq_some hi
  refine ⟨name, rest, List.append_assoc .., fun hmem => ?_⟩
  obtain ⟨before, behind, rfl⟩ := List.append_of_mem hmem
  have hle := hleast before (behind ++ [93] ++ rest) (by simp)
  rw [← hlen, List.length_append, List.length_cons] at hle
  omega

section

variable (name rest : Bytes)

/-- The two pieces that both functions cut out. -/
theorem substr_class :
    substr (91 :: (name ++ 93 :: rest)) 1 (name.length + 1 - 1) = .ok name := by
  rw [substr, if_pos (by simp), slice, List.drop_succ_cons, List.drop_zero, Nat.add_sub_cancel,
    List.take_left]

theorem substr_msg :
    substr (91 :: (name ++ 93 :: rest)) (name.length + 1 + 1)
        ((91 :: (name ++ 93 :: rest)).length - (name.length + 1 + 1)) = .ok rest := by
  have hdrop : (91 :: (name ++ 93 :: rest)).drop (name.length + 1 + 1) = rest := by
    rw [List.drop_succ_cons, List.append_cons, List.drop_left' (by simp)]
  rw [substr, if_pos (by simp), slice, hdrop, List.take_of_length_le]
  simp
  omega

end

/-! ## The list of factories -/

namespace ExceptionFactories

/-- The items of a list, in its order. -/
def Lists (r : ExceptionFactories) (cells : List (Ptr × ErrorType)) : Prop :=
  r.items.Linked r.exceptionFactoryHead cells

/-- The walk ends at the last item, and links the new one behind it. -/
theorem pushLoop_spec {item : Ptr} {cls : ErrorType} {items : ListHeap ErrorType}
    (hitem : items.read item = some ⟨none, cls⟩) (rest : List (Ptr × ErrorType)) :
    ∀ (fuel : Nat) (p : Ptr × ErrorType), rest.length < fuel →
      items.Linked (some p.1) (p :: rest) → item ∉ (p :: rest).map Prod.fst →
      ∃ items', pushLoop item fuel p.1 items = .ok items' ∧
        items'.Linked (some p.1) (p :: rest ++ [(item, cls)]) ∧
        ∀ q, q ∉ (p :: rest).map Prod.fst → items'.read q = items.read q := by
  induction rest with
  | nil =>
    intro fuel p hfuel hl hnew
    obtain ⟨fuel, rfl⟩ : ∃ fuel', fuel = fuel' + 1 := ⟨fuel - 1, by omega⟩
    obtain ⟨-, next, hp, hnext⟩ := hl
    have hnone : next = none := hnext
    subst hnone
    have hne : p.1 ≠ item := fun h => hnew (h ▸ List.mem_cons_self)
    refine ⟨items.write p.1 ⟨some item, p.2⟩, ?_, ⟨rfl, some item, ?_, rfl, none, ?_, rfl⟩, ?_⟩
    · rw [pushLoop, ListHeap.deref_of_read _ hp, ok_bind]
      exact ListHeap.setNext_of_read _ hp _
    · exact ListHeap.read_write_self (ListHeap.lt_of_read hp) _
    · rw [ListHeap.read_write_ne hne, hitem]
    · intro q hq
      refine ListHeap.read_write_ne ?_ _
      rintro rfl
      exact hq List.mem_cons_self
  | cons d rest ih =>
    intro fuel p hfuel hl hnew
    obtain ⟨fuel, rfl⟩ : ∃ fuel', fuel = fuel' + 1 := ⟨fuel - 1, by omega⟩
    obtain ⟨-, next, hp, hd⟩ := ListHeap.linked_cons.mp hl
    have hnext : next = some d.1 := hd.1
    subst hnext
    obtain ⟨items', hrun, hl', hsame⟩ := ih fuel d (by simpa using hfuel) hd
      fun hmem => hnew (List.mem_cons_of_mem _ hmem)
    refine ⟨items', ?_, ⟨rfl, some d.1, ?_, hl'⟩, ?_⟩
    · rw [pushLoop, ListHeap.deref_of_read _ hp, ok_bind]
      exact hrun
    · rw [hsame p.1 (List.nodup_cons.mp hl.nodup).1, hp]
    · intro q hq
      exact hsame q fun hmem => hq (List.mem_cons_of_mem _ hmem)

/-- **A factory is pushed at the end.** -/
theorem create_spec {r : ExceptionFactories} {cells : List (Ptr × ErrorType)} (h : r.Lists cells)
    (cls : ErrorType) :
    ∃ r', r.create cls = .ok r' ∧ r'.Lists (cells ++ [(r.items.length, cls)]) := by
  have hitem := ListHeap.read_alloc_self r.items ⟨none, cls⟩
  have halloc : (r.items.alloc ⟨none, cls⟩).Linked r.exceptionFactoryHead cells :=
    ListHeap.Linked.frame h fun c hc =>
      ListHeap.read_alloc_of_lt (ListHeap.Linked.lt_of_mem h hc) _
  have hnew : r.items.length ∉ cells.map Prod.fst := by
    intro hmem
    obtain ⟨c, hc, hlen⟩ := List.mem_map.mp hmem
    exact Nat.ne_of_lt (ListHeap.Linked.lt_of_mem h hc) hlen
  cases cells with
  | nil =>
    have hhead : r.exceptionFactoryHead = none := h
    refine ⟨⟨r.items.alloc ⟨none, cls⟩, some r.items.length⟩, ?_, rfl, none, hitem, rfl⟩
    rw [create, pushExceptionFactory, hhead]
    rfl
  | cons p rest =>
    have hhead : r.exceptionFactoryHead = some p.1 := h.1
    rw [hhead] at halloc
    have hlen : rest.length < (r.items.alloc ⟨none, cls⟩).length :=
      Nat.lt_of_succ_le halloc.length_le
    obtain ⟨items', hrun, hl', -⟩ := pushLoop_spec hitem rest _ p hlen halloc hnew
    refine ⟨⟨items', some p.1⟩, ?_, hl'⟩
    rw [create, pushExceptionFactory, hhead]
    simp only [hrun, ok_bind, pure_eq_ok]

/-- **All factories**, in the order in which they were pushed. -/
theorem createAll_spec (order : List ErrorType) {r : ExceptionFactories}
    {cells : List (Ptr × ErrorType)} (h : r.Lists cells) :
    ∃ r' cells', createAll order r = .ok r' ∧ r'.Lists cells' ∧
      cells'.map Prod.snd = cells.map Prod.snd ++ order := by
  induction order generalizing r cells with
  | nil => exact ⟨r, cells, rfl, h, (List.append_nil _).symm⟩
  | cons cls order ih =>
    obtain ⟨r₁, hcreate, h₁⟩ := create_spec h cls
    obtain ⟨r', cells', hrun, h', hmap⟩ := ih h₁
    refine ⟨r', cells', ?_, h', ?_⟩
    · rw [createAll, hcreate]
      exact hrun
    · rw [hmap, List.map_append]
      simp

/-- **The search** finds the class of the name, if it is in the list. -/
theorem findLoop_spec (items : ListHeap ErrorType) (exceptionClass : Bytes)
    (cells : List (Ptr × ErrorType)) :
    ∀ (fuel : Nat) (l : Option Ptr), cells.length ≤ fuel → items.Linked l cells →
      findLoop items exceptionClass fuel l =
        .ok ((cells.map Prod.snd).find? fun cls => decide (cls.getErrorType = exceptionClass)) := by
  induction cells with
  | nil =>
    intro fuel l hfuel hl
    have hnone : l = none := hl
    subst hnone
    unfold findLoop
    rfl
  | cons c cells ih =>
    intro fuel l hfuel hl
    obtain ⟨fuel, rfl⟩ : ∃ fuel', fuel = fuel' + 1 := ⟨fuel - 1, by simp at hfuel; omega⟩
    obtain ⟨rfl, next, hc, hnext⟩ := hl
    rw [findLoop, ListHeap.deref_of_read _ hc, ok_bind, List.map_cons, List.find?_cons]
    by_cases hname : c.2.getErrorType = exceptionClass
    · simp [hname]
    · simp only [hname, if_false, decide_false]
      exact ih fuel next (by simpa using hfuel) hnext

/-- **`getExceptionFactory`** of a text in brackets: the factory of the name. -/
theorem getExceptionFactory_eq {r : ExceptionFactories} {cells : List (Ptr × ErrorType)}
    (h : r.Lists cells) {name : Bytes} (hname : 93 ∉ name) (rest : Bytes) :
    r.getExceptionFactory (91 :: (name ++ 93 :: rest)) =
      .ok ((cells.map Prod.snd).find? fun cls => decide (cls.getErrorType = name)) := by
  rw [getExceptionFactory, if_neg (by simp), find_close hname]
  simp only [substr_class, substr_msg, ok_bind]
  exact findLoop_spec r.items name cells _ _ (ListHeap.Linked.length_le h) h

/-- Any other text has no factory. -/
theorem getExceptionFactory_cases (r : ExceptionFactories) (e : Bytes) :
    (∃ name rest, e = 91 :: (name ++ 93 :: rest) ∧ 93 ∉ name) ∨
      r.getExceptionFactory e = .ok none := by
  by_cases hopen : e.headD 0 = 91
  · obtain ⟨t, rfl⟩ : ∃ t, e = 91 :: t := by
      cases e with
      | nil => cases hopen
      | cons c t =>
        obtain rfl : c = 91 := hopen
        exact ⟨t, rfl⟩
    cases hfind : find (91 :: t) (ascii "]") 1 with
    | none =>
      refine .inr ?_
      rw [getExceptionFactory, if_neg (by simp), hfind]
      rfl
    | some pos =>
      obtain ⟨name, rest, rfl, hname⟩ := exists_of_find hfind
      exact .inl ⟨name, rest, rfl, hname⟩
  · exact .inr (if_pos hopen)

end ExceptionFactories

/-- **`getExceptionMsg`** of a text in brackets. -/
theorem getExceptionMsg_eq {name : Bytes} (hname : 93 ∉ name) (rest : Bytes) :
    getExceptionMsg (91 :: (name ++ 93 :: rest)) = .ok rest := by
  rw [getExceptionMsg, if_neg (by simp), find_close hname]
  simp only [substr_class, substr_msg, ok_bind]

/-- The text of an exception whose message has no `NUL`. -/
theorem what_new (cls : ErrorType) {m : Bytes} (hm : 0 ∉ m) :
    (ExceptionObject.new cls m).what = 91 :: (cls.getErrorType ++ 93 :: m) := by
  rw [ExceptionObject.what, errorMsg_eq, cStr_eq]
  intro c hc
  rintro rfl
  simp only [List.mem_cons, List.mem_append] at hc
  rcases hc with hc | hc | hc | hc
  · cases hc
  · exact cls.getErrorType_clean.2 hc
  · cases hc
  · exact hm hc

/-- **Exceptions survive as text**, in whatever order the factories were pushed: the text of
an exception gives back its factory and its message, and the factory makes an exception
with the same text, code and type. A text that has a factory begins with its name in
brackets. -/
theorem exception_text {order : List ErrorType} (horder : order.Perm allErrorTypes) :
    ∃ r, ExceptionFactories.createAll order .init = .ok r ∧
      (∀ (cls : ErrorType) (m : Bytes), 0 ∉ m →
        r.getExceptionFactory (ExceptionObject.new cls m).what = .ok (some cls) ∧
        getExceptionMsg (ExceptionObject.new cls m).what = .ok m ∧
        (createException cls m).what = (ExceptionObject.new cls m).what ∧
        (createException cls m).getErrorCode = (ExceptionObject.new cls m).getErrorCode ∧
        (createException cls m).getErrorType = (ExceptionObject.new cls m).getErrorType) ∧
      ∀ e : Bytes, ∃ factory, r.getExceptionFactory e = .ok factory ∧
        ∀ cls, factory = some cls → cls ∈ order ∧
          ∃ rest, e = ascii "[" ++ cls.getErrorType ++ ascii "]" ++ rest := by
  have hinit : ExceptionFactories.init.Lists [] := rfl
  obtain ⟨r, cells, hrun, hlists, hcells⟩ := ExceptionFactories.createAll_spec order hinit
  have hcells' : cells.map Prod.snd = order := hcells
  refine ⟨r, hrun, ?_, ?_⟩
  · intro cls m hm
    refine ⟨?_, ?_, rfl, rfl, rfl⟩
    · rw [what_new cls hm,
        ExceptionFactories.getExceptionFactory_eq hlists cls.getErrorType_clean.1, hcells']
      -- the name is in the list, and no other class has it
      cases hfind : order.find? fun d => decide (d.getErrorType = cls.getErrorType) with
      | none =>
        have hno := List.find?_eq_none.mp hfind cls (horder.mem_iff.mpr cls.mem_all)
        simp at hno
      | some d =>
        have hd := List.find?_some hfind
        rw [ErrorType.getErrorType_injective (of_decide_eq_true hd)]
    · rw [what_new cls hm, getExceptionMsg_eq cls.getErrorType_clean.1]
  · intro e
    rcases r.getExceptionFactory_cases e with ⟨name, rest, rfl, hname⟩ | hnone
    · refine ⟨_, ExceptionFactories.getExceptionFactory_eq hlists hname rest, ?_⟩
      rintro cls hcls
      rw [hcells'] at hcls
      have hcls' := List.find?_some hcls
      refine ⟨List.mem_of_find?_eq_some hcls, rest, ?_⟩
      rw [of_decide_eq_true hcls', ascii_open, ascii_close]
      simp
    · exact ⟨none, hnone, nofun⟩

/-- A message of brackets, with the factories pushed in the order of the macro. -/
theorem exception_text_brackets :
    ∃ r, ExceptionFactories.createAll allErrorTypes .init = .ok r ∧
      r.getExceptionFactory (ascii "[OtherError]]x[") = .ok (some .otherError) ∧
      getExceptionMsg (ascii "[OtherError]]x[") = .ok (ascii "]x[") := by
  obtain ⟨r, hrun, htext, -⟩ := exception_text (List.Perm.refl allErrorTypes)
  obtain ⟨hfactory, hmsg, -⟩ := htext .otherError (ascii "]x[") (by decide +kernel)
  have hwhat : (ExceptionObject.new .otherError (ascii "]x[")).what = ascii "[OtherError]]x[" := by
    decide +kernel
  rw [hwhat] at hfactory hmsg
  exact ⟨r, hrun, hfactory, hmsg⟩

end ZktlsNet
