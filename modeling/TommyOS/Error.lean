import Mathlib.Tactic.TypeStar

/-!
# Error codes

The `Error` class of `error.hpp`: a code, of which every one but `kSuccess` is a failure.
The file and line that `MAKE_ERROR` records are not kept.
-/

namespace TommyOS

/-- `Error::Code`. -/
inductive Error where
  | kSuccess
  | kFull
  | kEmpty
  | kNoEnoughMemory
  | kIndexOutOfRange
  | kHostControllerNotHalted
  | kInvalidSlotID
  | kPortNotConnected
  | kInvalidEndpointNumber
  | kTransferRingNotSet
  | kAlreadyAllocated
  | kNotImplemented
  | kInvalidDescriptor
  | kBufferTooSmall
  | kUnknownDevice
  | kNoCorrespondingSetupStage
  | kTransferFailed
  | kInvalidPhase
  | kUnknownXHCISpeedID
  | kNoWaiter
  | kNoPCIMSI
deriving DecidableEq, Repr

/-- `Error::operator bool`: whether the code reports a failure. -/
def Error.failed (e : Error) : Bool := e != .kSuccess

/-- `Either<T>`: a value together with the error of the call that produced it. -/
structure Either (α : Type*) where
  value : α
  error : Error
deriving DecidableEq, Repr

end TommyOS
