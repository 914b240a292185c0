import Hostlink.Lib.GoError
import Hostlink.Lib.Run
import Hostlink.Tunnel.Frame

/-! `SpliceConn`: a local socket bridged to a frame stream by two workers. Each call into the
socket or the stream is one step and its outcome is in the label; `state.fail` runs under
`errOnce` and is one step. The fields after `result` record history. -/

namespace Hostlink.Tunnel

def chunkSize : Nat := 32 * 1024

def errReset : GoError := .new "tunnel reset"

/-- Where `spliceConnToStream` stands. -/
inductive ConnToStream where
  | read
  | sendData (data : Bytes) (readErr : Option GoError)
  | sendHalfClose
  | reset (err : GoError)
  | fail (err : GoError)
  | done
  deriving DecidableEq, Repr

/-- Where `spliceStreamToConn` stands; `write` holds what `writeFrameData` has left. -/
inductive StreamToConn where
  | recv
  | write (data : Bytes)
  | closeWrite
  | reset (err : GoError)
  | fail (err : GoError)
  | done
  deriving DecidableEq, Repr

/-- What `connCloser.once` ran: how the socket was closed and the error kept. -/
structure Closed where
  abort : Bool
  err : Option GoError
  deriving DecidableEq, Repr

structure Endpoint where
  tcp : Bool := true
  up : ConnToStream := .read
  down : StreamToConn := .recv
  firstErr : Option GoError := none
  closer : Option Closed := none
  result : Option (Option GoError) := none
  read : Bytes := []
  eof : Bool := false
  wrote : Bytes := []
  closeWrites : Nat := 0
  closes : Nat := 0
  sent : List Frame := []
  rcvd : List Frame := []
  deriving DecidableEq, Repr

inductive ConnLabel where
  | read (data : Bytes) (err : Option GoError)
  | sendUp (err : Option GoError)
  | failUp (linger close : Option GoError)
  | recv (frame : Frame)
  | recvErr (err : GoError)
  | write (n : Nat) (err : Option GoError)
  | closeWrite (err : Option GoError)
  | sendDown (err : Option GoError)
  | failDown (linger close : Option GoError)
  | ret (close : Option GoError)
  deriving DecidableEq, Repr

def ConnLabel.incoming : ConnLabel → Option (Except GoError Frame)
  | .recv frame => some (.ok frame)
  | .recvErr err => some (.error err)
  | _ => none

def gained : Option (Except GoError Frame) → List Frame
  | some (.ok frame) => [frame]
  | _ => []

def afterRead : Option GoError → ConnToStream
  | none => .read
  | some err => if err.is .eof then .sendHalfClose else .reset (.wrap "read local connection" err)

def resetErr (err : GoError) : Option GoError → GoError
  | none => err
  | some sendErr => .join err (.wrap "send reset" sendErr)

def ConnToStream.output : ConnToStream → Option Frame
  | .sendData data _ => some (.ofData data)
  | .sendHalfClose => some .halfClose
  | .reset _ => some .reset
  | _ => none

def ConnToStream.afterSend : ConnToStream → Option GoError → ConnToStream
  | .sendData _ readErr, none => afterRead readErr
  | .sendData _ _, some err => .fail (.wrap "send frame data" err)
  | .sendHalfClose, none => .done
  | .sendHalfClose, some err => .fail (.wrap "send half-close" err)
  | .reset cause, err => .fail (resetErr cause err)
  | pc, _ => pc

/-- `spliceStreamToConn`'s switch on the type of a received frame. -/
def onFrame (frame : Frame) : StreamToConn :=
  match frame.type with
  | .data => if frame.data = [] then .recv else .write frame.data
  | .halfClose => .closeWrite
  | .reset => .fail errReset
  | .open => .recv
  | .ready => .recv
  | .unknown code => .reset (.new s!"unknown frame type {code}")

def afterCloseWrite : Option GoError → StreamToConn
  | some err => .reset (.wrap "close local write" err)
  | none => .done

/-- One turn of `writeFrameData`'s loop. -/
def afterWrite (data : Bytes) (n : Nat) : Option GoError → StreamToConn
  | some err => .reset (.wrap "write local connection" err)
  | none =>
    -- a write that makes no progress would loop
    if n = 0 then .reset (.wrap "write local connection" .errShortWrite)
    else if data.drop n = [] then .recv else .write (data.drop n)

namespace Endpoint

/-- `connCloser.close`: the socket is closed once, and the first caller decides how. -/
def close (e : Endpoint) (abort : Bool) (linger close : Option GoError) : Endpoint :=
  match e.closer with
  | some _ => e
  | none =>
    let lingerErr := if abort && e.tcp then linger.map (GoError.wrap "set TCP linger") else none
    let closeErr := close.map (GoError.wrap "close local connection")
    let err := match lingerErr with
      | some l => some (l.joinOption closeErr)
      | none => closeErr
    { e with closer := some ⟨abort, err⟩, closes := e.closes + 1 }

/-- `fail`: under `errOnce`, abort the socket and keep the error. -/
def fail (e : Endpoint) (err : GoError) (linger close : Option GoError) : Endpoint :=
  match e.firstErr with
  | some _ => e
  | none =>
    let e' := e.close true linger close
    { e' with firstErr := some (err.joinOption (e'.closer.bind Closed.err)) }

/-- After `Close` every call on the socket fails and moves no byte. -/
def readable (e : Endpoint) (data : Bytes) (err : Option GoError) : Bool :=
  decide (data.length ≤ chunkSize) &&
    (e.closer.isNone || (data.isEmpty && err.any fun err => !err.is .eof))

def writable (e : Endpoint) (data : Bytes) (n : Nat) (err : Option GoError) : Bool :=
  decide (n ≤ data.length) && (e.closer.isNone || (n == 0 && err.isSome))

def stepUp (e : Endpoint) : ConnLabel → Option Endpoint
  | .read data err =>
    match e.up with
    | .read =>
      if e.readable data err then
        some { e with
          -- bytes that come together with an error are sent before the error is looked at
          up := if data = [] then afterRead err else .sendData data err
          read := e.read ++ data
          eof := e.eof || err.any (·.is .eof) }
      else none
    | _ => none
  | .sendUp err =>
    match e.up.output with
    | some frame => some { e with
        up := e.up.afterSend err
        sent := if err.isNone then e.sent ++ [frame] else e.sent }
    | none => none
  | .failUp linger close =>
    match e.up with
    | .fail err => some { e.fail err linger close with up := .done }
    | _ => none
  | _ => none

def stepDown (e : Endpoint) : ConnLabel → Option Endpoint
  | .recv frame =>
    match e.down with
    | .recv => some { e with down := onFrame frame, rcvd := e.rcvd ++ [frame] }
    | _ => none
  | .recvErr err =>
    match e.down with
    | .recv => some { e with down := .reset (.wrap "receive frame" err) }
    | _ => none
  | .write n err =>
    match e.down with
    | .write data =>
      if e.writable data n err then
        some { e with down := afterWrite data n err, wrote := e.wrote ++ data.take n }
      else none
    | _ => none
  | .closeWrite err =>
    match e.down with
    | .closeWrite =>
      if e.closer.isNone || err.isSome then
        some { e with down := afterCloseWrite err, closeWrites := e.closeWrites + 1 }
      else none
    | _ => none
  | .sendDown err =>
    match e.down with
    | .reset cause =>
      some { e with
        down := .fail (resetErr cause err)
        sent := if err.isNone then e.sent ++ [.reset] else e.sent }
    | _ => none
  | .failDown linger close =>
    match e.down with
    | .fail err => some { e.fail err linger close with down := .done }
    | _ => none
  | _ => none

def stepReturn (e : Endpoint) (close : Option GoError) : Option Endpoint :=
  if e.up = .done ∧ e.down = .done ∧ e.result = none then
    match e.firstErr with
    | some err => some { e with result := some (some err) }
    | none =>
      -- both directions ended in order, so the socket is closed without abort
      let e' := e.close false none close
      some { e' with result := some (e'.closer.bind Closed.err) }
  else none

def step (e : Endpoint) : ConnLabel → Option Endpoint
  | l@(.read ..) | l@(.sendUp ..) | l@(.failUp ..) => e.stepUp l
  | .ret close => e.stepReturn close
  | l => e.stepDown l

def init (tcp : Bool) (pre : List Frame) : Endpoint := { tcp := tcp, sent := pre }

end Endpoint
end Hostlink.Tunnel
