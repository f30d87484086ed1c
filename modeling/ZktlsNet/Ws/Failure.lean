/-!
# How an operation ends

The exceptions of `common/runtime_error.h` and the memory errors a C++ program
has no name for. An operation of the model returns `Res α`: a value, an
exception thrown to the caller, or a `fault` where the program reads or writes
memory that is not its own (and nothing further is promised).
-/

namespace ZktlsNet

/-- The exception classes of `MAKE_ALL_EXCEPTIONS`. -/
inductive ErrorType
  | socketError
  | networkError
  | primusServerNetworkError
  | tlsNetworkError
  | lengthException
  | outOfRangeException
  | invalidArgumentException
  | logicError
  | runtimeError
  | responseException
  | responseCheckError
  | parseError
  | parseJsonError
  | parseHtmlError
  | fileNotExistException
  | sslCertificateError
  | internalError
  | mpcThreadException
  | plainThreadException
  | plainClientNotStarted
  | waitPlainClientTimeout
  | mpctClientNotStarted
  | decryptException
  | izkCheckException
  | runTooSlow
  | evaluatorCheatedError
  | extendedMasterSecretError
  | otherError
  deriving DecidableEq, Repr

/-- An exception object: its class and the message it was built from. -/
structure BaseException where
  errorType : ErrorType
  msg : String
  deriving DecidableEq, Repr

/-- Memory errors. -/
inductive Fault
  /-- an access outside the allocation the pointer belongs to -/
  | outOfBounds
  /-- an access through a null pointer -/
  | nullPointer
  /-- an access to, or a second release of, a freed object -/
  | useAfterFree
  deriving DecidableEq, Repr

/-- How an operation fails to return. `outOfFuel` marks a loop of the model
stopped by its fuel; the loops are proved never to end so. -/
inductive Failure
  | thrown (e : BaseException)
  | fault (f : Fault)
  | outOfFuel
  deriving DecidableEq, Repr

/-- The result of an operation. -/
abbrev Res (α : Type) := Except Failure α

section

variable {α β : Type}

@[simp] theorem ok_bind (a : α) (f : α → Res β) : (Except.ok a >>= f) = f a := rfl

/-- A step sequence that ends well, cut behind its first step. -/
theorem bind_eq_ok {x : Res α} {f : α → Res β} {b : β} (h : (x >>= f) = .ok b) :
    ∃ a, x = .ok a ∧ f a = .ok b := by
  cases x with
  | error e => cases h
  | ok a => exact ⟨a, rfl, h⟩

@[simp] theorem pure_eq_ok (a : α) : (pure a : Res α) = .ok a := rfl

end

/-- `enum ConnectionType`. -/
inductive ConnectionType
  | invalid
  | clientToTlsServer
  | clientToPado
  deriving DecidableEq, Repr

/-- `throw_connection_error`: the exception class follows the connection type. -/
def throwConnectionError (connectionType : ConnectionType) (desc : String) : BaseException :=
  match connectionType with
  | .clientToTlsServer => ⟨.tlsNetworkError, desc⟩
  | .clientToPado => ⟨.primusServerNetworkError, desc⟩
  | .invalid => ⟨.runtimeError, desc⟩

end ZktlsNet
