/-
  Base/Errors.lean --- the error codes of `base/include/errors.h` that the
  modelled functions return.
-/
import Mathlib.Tactic.TypeStar

namespace FreeAmp

/-- `Error`: the `kError_*` codes, under their own words. -/
inductive Error where
  | noErr
  | unknownErr
  | invalidParam
  | bufferTooSmall
  | outOfMemory
  | fileNoAccess
  | fileExists
  | fileInvalidArg
  | fileNotFound
  | fileNoHandles
  | invalidError
  | noDataAvail
  | interrupt
  | eventPending
  | youScrewedUp
  | endOfStream
  | connectFailed
  | cantCreateSocket
  | parseError
  | formatNotSupported
  | userCancel
  | protocolNotSupported
  | invalidURL
  | cantFindHost
  | ioError
  | unknownServerError
  | badHTTPRequest
  | accessNotAuthorized
  | writeFile
  | readFile
  | unlinkFailed
  | databaseNotWorking
  | duplicateItem
  | itemNotFound
  | httpFileNotFound
  | downloadDenied
  deriving DecidableEq, Repr, Inhabited

/-- The number a code stands for; the index functions of `PullBuffer` return one as if
it were an index. -/
def Error.code : Error → Nat
  | .noErr => 0
  | .unknownErr => 1
  | .invalidParam => 2
  | .bufferTooSmall => 7
  | .outOfMemory => 8
  | .fileNoAccess => 9
  | .fileExists => 10
  | .fileInvalidArg => 11
  | .fileNotFound => 12
  | .fileNoHandles => 13
  | .invalidError => 16
  | .noDataAvail => 24
  | .interrupt => 28
  | .eventPending => 29
  | .youScrewedUp => 30
  | .endOfStream => 33
  | .connectFailed => 34
  | .cantCreateSocket => 35
  | .parseError => 39
  | .formatNotSupported => 42
  | .userCancel => 46
  | .protocolNotSupported => 48
  | .invalidURL => 49
  | .cantFindHost => 50
  | .ioError => 51
  | .unknownServerError => 52
  | .badHTTPRequest => 53
  | .accessNotAuthorized => 54
  | .writeFile => 57
  | .readFile => 58
  | .unlinkFailed => 61
  | .databaseNotWorking => 64
  | .duplicateItem => 65
  | .itemNotFound => 66
  | .httpFileNotFound => 67
  | .downloadDenied => 70

/-- `#define IsError(err) ((err) != kError_NoErr)` -/
def isError (err : Error) : Bool := err != .noErr

end FreeAmp
