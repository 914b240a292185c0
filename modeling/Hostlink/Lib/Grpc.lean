import Hostlink.Lib.GoError

/-! gRPC statuses as the two ends of a call see them. -/

namespace Grpc

inductive Code where
  | canceled
  | unknown
  | invalidArgument
  | deadlineExceeded
  | failedPrecondition
  | aborted
  | internal
  deriving DecidableEq, Repr

def Code.name : Code → String
  | .canceled => "Canceled"
  | .unknown => "Unknown"
  | .invalidArgument => "InvalidArgument"
  | .deadlineExceeded => "DeadlineExceeded"
  | .failedPrecondition => "FailedPrecondition"
  | .aborted => "Aborted"
  | .internal => "Internal"

structure Status where
  code : Code
  message : String
  deriving DecidableEq, Repr

def Status.err (st : Status) : GoError :=
  .new ("rpc error: code = " ++ st.code.name ++ " desc = " ++ st.message)

inductive SendFault where
  | eof
  | status (st : Status)
  deriving DecidableEq, Repr

def SendFault.err : SendFault → GoError
  | .eof => .eof
  | .status st => st.err

/-- A client's sends when the handler's status arrives after `arrival` of them. -/
def sendUntil (arrival n : Nat) : Option GoError := if n < arrival then none else some .eof

theorem Status.err_is_new (st : Status) {text : String} (h : text.toList.head? ≠ some 'r') :
    st.err.is (.new text) = false := by
  refine decide_eq_false fun he => h ?_
  rw [← GoError.new.inj he, String.toList_append, String.toList_append, String.toList_append]
  rfl

theorem SendFault.err_is_new (fault : SendFault) {text : String}
    (h : text.toList.head? ≠ some 'r') (heof : text ≠ "EOF") :
    fault.err.is (.new text) = false := by
  cases fault with
  | eof => exact decide_eq_false fun he => heof (GoError.new.inj he).symm
  | status st => exact st.err_is_new h

end Grpc
