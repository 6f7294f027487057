import GantrySftp.Codec.Attrs

/-!
# Replies and failures

What a server's reply carries, and what an operation can raise. A STATUS of OK or EOF passes the
status check; every other code raises. A reply of a type its request does not expect is a
protocol error.
-/

namespace GantrySftp

open Library

/-- An open file on the server. The client hands it back and never looks inside; here it names
the file it was opened on. -/
structure Handle where
  file : Bytes
  deriving DecidableEq

/-- A reply, less its request id. -/
inductive Reply
  | status (code : StatusCode) (message : Bytes)
  | handle (handle : Handle)
  | data (payload : Bytes)
  | attrs (attrs : Attrs)
  | name (filenames : List Bytes)
  | digests (algorithm : Bytes) (digests : List Bytes)
  deriving DecidableEq

/-- Why a transfer failed, with what its message names. -/
inductive TransferReason
  | readRefused (code : StatusCode) (message : Bytes)
  | secondZeroLength
  | writeRefused (code : StatusCode) (message : Bytes)
  | noResumeSize
  | partialTooLong (have_ size : ℕ)
  | notAPrefix (adopted : ℕ)
  | contentDiffers (expected : ℕ)
  | sizeDiffers (expected actual : ℕ)
  | noPermissions
  | nameRefused
  deriving DecidableEq

/-- What is wrong with a reply or with the order of replies. -/
inductive ProtocolReason
  | overlongData (length offset arrived requestId : ℕ)
  | unexpectedReply (reply : Reply)
  | notOurs (requestId : ℕ)
  | notOneName (count : ℕ)
  deriving DecidableEq

/-- What an operation can raise. `stagedIsTheOnlyCopy` carries what a publish raised once the
destination may be gone, and does not leave the upload that it ends. `cancelled` and `killed`
are not exceptions in the sense of an `except Exception` clause. -/
inductive Failure
  | serverError (code : StatusCode) (message : Bytes) (path : Option Bytes)
  | protocolError (reason : ProtocolReason)
  | transferError (reason : TransferReason) (transferred : ℕ) (offset : Option ℕ)
  | transferTimeout
  | connectionLost
  | capabilityError (feature : String) (missing : List String)
  | valueError (message : String)
  | stateError (message : String)
  | unicodeError
  | osError
  | stagedIsTheOnlyCopy (failure : Failure) (destinationRemoved : Bool)
  | cancelled
  | killed
  deriving DecidableEq

namespace Failure

/-- Whether the failure is a `ServerError`. -/
def isServerError : Failure → Bool
  | serverError _ _ _ => true
  | _ => false

/-- Whether the failure is a `NoSuchFileError`. -/
def isNoSuchFile : Failure → Bool
  | serverError .noSuchFile _ _ => true
  | _ => false

/-- A `NoSuchFileError` is a `ServerError`. -/
theorem isServerError_of_isNoSuchFile (failure : Failure) (h : failure.isNoSuchFile = true) :
    failure.isServerError = true := by
  cases failure with
  | serverError _ _ _ => rfl
  | _ => cases h

/-- Whether the failure is an `UnsupportedError`. -/
def isUnsupported : Failure → Bool
  | serverError .opUnsupported _ _ => true
  | _ => false

/-- An `UnsupportedError` is a `ServerError`. -/
theorem isServerError_of_isUnsupported (failure : Failure) (h : failure.isUnsupported = true) :
    failure.isServerError = true := by
  cases failure with
  | serverError _ _ _ => rfl
  | _ => cases h

/-- Whether an `except Exception` clause catches the failure. -/
def isException : Failure → Bool
  | cancelled => false
  | killed => false
  | _ => true

end Failure

/-- Check a status: OK and EOF pass, everything else raises. -/
def raiseForStatus (code : StatusCode) (message : Bytes) (path : Option Bytes) :
    Except Failure Unit :=
  if code = .ok ∨ code = .eof then .ok () else .error (.serverError code message path)

/-- The failure for a reply that is not the one expected. -/
def unexpected (reply : Reply) (path : Option Bytes) : Failure :=
  match reply with
  | .status code message =>
    match raiseForStatus code message path with
    | .error failure => failure
    | .ok () => .protocolError (.unexpectedReply reply)
  | _ => .protocolError (.unexpectedReply reply)

end GantrySftp
