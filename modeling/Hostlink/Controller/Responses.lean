import Hostlink.Controller.AgentConn

/-! What the REST handlers make of an agent's answer or of a failed dispatch. -/

namespace Hostlink.Controller

def errAgentNotConnected : GoError := .new "agent not connected"

/-- `context.DeadlineExceeded`. -/
def errDeadlineExceeded : GoError := .new "context deadline exceeded"

/-- What the agent answers a request with; `code` mirrors an HTTP status. -/
structure AgentResult where
  payload : List UInt8 := []
  code : Nat := 0
  error : String := ""
  deriving DecidableEq, Repr

/-- `error` is the object `gin.H` with that one key. -/
inductive HttpBody where
  | empty
  | data (bytes : List UInt8)
  | error (msg : String)
  deriving DecidableEq, Repr

structure HttpResponse where
  status : Nat
  body : HttpBody
  deriving DecidableEq, Repr

def respondAgentResult (result : AgentResult) : HttpResponse :=
  let code := if result.code = 0 then 502 else result.code
  if result.payload ≠ [] then ⟨code, .data result.payload⟩
  else if result.error ≠ "" then ⟨code, .error result.error⟩
  else ⟨code, .empty⟩

def mapDispatchError (err : GoError) : HttpResponse :=
  if err.is errAgentNotConnected then ⟨404, .error "agent not connected"⟩
  else if err.is errDeadlineExceeded then ⟨504, .error "agent did not respond in time"⟩
  else ⟨502, .error "agent request failed"⟩

end Hostlink.Controller
