import Mathlib.Data.Nat.Notation

set_option relaxedAutoImplicit false
set_option autoImplicit false

/-!
# Errors

The error type of the Rust crate (`src/error.rs`) and the numbered error codes
(`src/error_codes.rs`) that the modelled functions raise.

## Main definitions

* `Tdxrs.ErrorCode`, `Tdxrs.TdxError` — the error codes and the error enumeration.
* `Tdxrs.ErrorCode.err` — a coded error with its message.
* `Tdxrs.isRetryableError` — which errors the synchronous client retries.
-/

namespace Tdxrs

/-- A numbered error code. -/
structure ErrorCode where
  code : ℕ
deriving DecidableEq, Repr

namespace ErrorCode

/-- An argument is not one of those allowed. -/
def argumentOutOfRange : ErrorCode := ⟨1003⟩

/-- An argument is not of the right form. -/
def invalidFormat : ErrorCode := ⟨1004⟩

/-- A sector code (`88xxxx`) given to the general client. -/
def blockCodeInGeneralClient : ErrorCode := ⟨1101⟩

/-- A code that is none of a fund given to the client of funds. -/
def fundCodeNotSupported : ErrorCode := ⟨1103⟩

/-- A code from which no market can be told. -/
def unknownCodeFormat : ErrorCode := ⟨1104⟩

/-- No connection could be opened. -/
def connectionFailed : ErrorCode := ⟨2001⟩

/-- The server disconnected. -/
def disconnected : ErrorCode := ⟨2003⟩

/-- All retries of a request failed. -/
def retryExhausted : ErrorCode := ⟨2005⟩

/-- The connection pool is full. -/
def poolExhausted : ErrorCode := ⟨2006⟩

/-- A response header is too short. -/
def responseHeaderInvalid : ErrorCode := ⟨2101⟩

/-- A response body does not decompress. -/
def decompressFailed : ErrorCode := ⟨2102⟩

/-- A response body is shorter than its layout needs. -/
def responseLengthMismatch : ErrorCode := ⟨2103⟩

/-- A stock code is not six ASCII alphanumerics. -/
def invalidStockCode : ErrorCode := ⟨3003⟩

/-- What was asked for is not among the data. -/
def missingField : ErrorCode := ⟨3004⟩

end ErrorCode

/-- The errors of the crate. -/
inductive TdxError where
  | io (message : String)
  | parse (message : String)
  | invalidData (message : String)
  | fileNotFound (message : String)
  | connection (message : String)
  | connectionTimeout
  | setupFailed (message : String)
  | responseParse (message : String)
  | disconnected
  | retryExhausted (attempts : ℕ)
  | coded (code : ErrorCode) (message : String)
deriving DecidableEq, Repr

/-- A coded error with its message. -/
def ErrorCode.err (code : ErrorCode) (message : String) : TdxError := .coded code message

/-- Only transient connection errors are worth a retry. -/
def isRetryableError : TdxError → Bool
  | .connection _ | .disconnected | .io _ => true
  | _ => false

end Tdxrs
