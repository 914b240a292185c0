import Hostlink.Agent.LogLines
import Hostlink.Lib.GoJson

/-! `handleLogs`: every line of a container's log leaves the agent as the JSON text of a `LogFrame`, and the
code of the terminal result follows. -/

namespace Hostlink.Agent
open GoJson

inductive DockerErrorKind where
  | notFound
  | conflict
  | invalidArgument
  | other
  deriving DecidableEq, Repr

structure DockerError where
  kind : DockerErrorKind
  text : String
  deriving DecidableEq, Repr

def dockerErrorCode (err : DockerError) : Nat :=
  match err.kind with
  | .notFound => 404
  | .conflict => 409
  | .invalidArgument => 400
  | .other => 500

structure LogsSetup where
  decodeErr : Option GoError := none
  id : String
  inspectErr : Option DockerError := none
  openErr : Option DockerError := none

def LogsSetup.refuses (setup : LogsSetup) : Option (Nat × String) :=
  match setup.decodeErr with
  | some err => some (400, "invalid containers.logs payload: " ++ err.text)
  | none =>
    if setup.id = "" then some (400, "containers.logs: id must not be empty")
    else match setup.inspectErr, setup.openErr with
      | some err, _ | none, some err => some (dockerErrorCode err, err.text)
      | none, none => none

structure LogsCopy where
  writes : List (LogChannel × Bytes)
  err : Option GoError := none
  cancelled : Bool := false

def LogsCopy.outcome (copy : LogsCopy) : Nat × String :=
  match copy.err with
  | none => (200, "")
  | some err => if err.is .eof ∨ copy.cancelled then (200, "") else (502, err.text)

structure LogsRun where
  frames : List LogFrame
  code : Nat
  error : String
  deriving DecidableEq, Repr

def handleLogs (setup : LogsSetup) (copy : LogsCopy) : LogsRun :=
  match setup.refuses with
  | some refused => ⟨[], refused.1, refused.2⟩
  | none => ⟨containerLogs copy.writes, copy.outcome.1, copy.outcome.2⟩

/-! ### The JSON text of a frame -/

/-- `json.Marshal` of a `LogFrame`; a line need not be valid UTF-8. -/
def LogFrame.marshal (f : LogFrame) : List Char :=
  '\x7b' :: (member "stream" (f.stream.toList.map some) ++ ',' :: (member "line" (Utf8.runes f.line) ++ ['\x7d']))

def LogFrame.payload (f : LogFrame) : Bytes := Utf8.encode f.marshal

structure LogLine where
  stream : String
  line : String
  deriving DecidableEq, Repr

def LogLine.ofMembers (members : List (String × Scalar)) : Option LogLine :=
  match members.lookup "stream", members.lookup "line" with
  | some (.text stream), some (.text line) => some ⟨stream, line⟩
  | _, _ => none

def LogLine.unmarshal (payload : Bytes) : Option LogLine :=
  match readable (Utf8.runes payload) with
  | '\x7b' :: rest => (readMembers rest.length rest).bind LogLine.ofMembers
  | _ => none

def LogFrame.text (f : LogFrame) : LogLine := ⟨f.stream, String.ofList (readable (Utf8.runes f.line))⟩

theorem readMembers_two (name name' : String) (value value' : List (Option Char)) {fuel : Nat} (h : 2 ≤ fuel) :
    readMembers fuel (member name value ++ ',' :: (member name' value' ++ ['\x7d'])) =
      some [(name, .text (.ofList (readable value))), (name', .text (.ofList (readable value')))] := by
  obtain ⟨fuel, rfl⟩ : ∃ n, fuel = n + 1 + 1 := ⟨fuel - 2, by omega⟩
  rw [readMembers_comma, readMembers_close, Option.map_some]

theorem LogFrame.unmarshal_payload (f : LogFrame) : LogLine.unmarshal f.payload = some f.text := by
  have hfuel : 2 ≤ (member "stream" (f.stream.toList.map some) ++
      ',' :: (member "line" (Utf8.runes f.line) ++ ['\x7d'])).length := by
    simp only [List.length_append, List.length_cons, List.length_nil]
    omega
  have hmembers := readMembers_two "stream" "line" (f.stream.toList.map some) (Utf8.runes f.line) hfuel
  rw [LogLine.unmarshal, payload, Utf8.runes_encode, readable_some, marshal]
  show (readMembers _ _).bind _ = _
  rw [hmembers, readable_some, String.ofList_toList]
  rfl

theorem LogFrame.printable_marshal (f : LogFrame) : Printable f.marshal := by
  have hopen : Printable ['\x7b'] := by decide
  have hcomma : Printable [','] := by decide
  have hclose : Printable ['\x7d'] := by decide
  have hline := printable_append (printable_member "line" (Utf8.runes f.line)) hclose
  have hstream := printable_member "stream" (f.stream.toList.map some)
  rw [marshal]
  show Printable (['\x7b'] ++ (member "stream" _ ++ ([','] ++ (member "line" _ ++ ['\x7d']))))
  exact printable_append hopen (printable_append hstream (printable_append hcomma hline))

end Hostlink.Agent
