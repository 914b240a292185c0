import Mathlib.Data.List.Basic
import Mathlib.Tactic.Common

/-! Server-sent events. A client reads an event stream byte by byte; a line ends with a line feed, a carriage
return or both, a blank line ends an event, and what comes after the last blank line is no event. Fields
other than `data` are skipped. -/

namespace Sse

def lineFeed : UInt8 := 10
def carriageReturn : UInt8 := 13
def colon : UInt8 := 58
def space : UInt8 := 32

def dataField : List UInt8 := [100, 97, 116, 97]

/-- `line` is the line that is being read, `data` the data of the event so far. -/
structure Client where
  line : List UInt8 := []
  data : Option (List UInt8) := none
  afterReturn : Bool := false
  events : List (List UInt8) := []

def fieldValue (line : List UInt8) : List UInt8 :=
  match (line.dropWhile (· ≠ colon)).drop 1 with
  | [] => []
  | b :: value => if b = space then value else b :: value

namespace Client

def addData (s : Client) (value : List UInt8) : Option (List UInt8) :=
  match s.data with
  | none => some value
  | some data => some (data ++ lineFeed :: value)

def endLine (s : Client) : Client :=
  if s.line = [] then
    match s.data with
    | none => s
    | some data => { s with data := none, events := s.events ++ [data] }
  else if s.line.takeWhile (· ≠ colon) = dataField then
    { s with line := [], data := s.addData (fieldValue s.line) }
  else { s with line := [] }

def read (s : Client) (b : UInt8) : Client :=
  if b = lineFeed then
    if s.afterReturn then { s with afterReturn := false } else s.endLine
  else if b = carriageReturn then { s.endLine with afterReturn := true }
  else { s with line := s.line ++ [b], afterReturn := false }

end Client

def events (bytes : List UInt8) : List (List UInt8) := (bytes.foldl Client.read {}).events

def event (payload : List UInt8) : List UInt8 :=
  dataField ++ [colon, space] ++ payload ++ [lineFeed, lineFeed]

def OneLine (bytes : List UInt8) : Prop := lineFeed ∉ bytes ∧ carriageReturn ∉ bytes

namespace Client
variable {s : Client}

theorem events_endLine (s : Client) : s.events <+: s.endLine.events := by
  unfold endLine
  split
  · split
    · exact List.prefix_rfl
    · exact List.prefix_append _ _
  · split
    · exact List.prefix_rfl
    · exact List.prefix_rfl

theorem events_read (s : Client) (b : UInt8) : s.events <+: (s.read b).events := by
  unfold read
  split
  · split
    · exact List.prefix_rfl
    · exact s.events_endLine
  · split
    · exact s.events_endLine
    · exact List.prefix_rfl

theorem events_foldl_read (s : Client) (bytes : List UInt8) : s.events <+: (bytes.foldl read s).events := by
  induction bytes generalizing s with
  | nil => exact List.prefix_rfl
  | cons b bytes ih => exact (s.events_read b).trans (ih (s.read b))

theorem foldl_read_oneLine {bytes : List UInt8} (h : OneLine bytes) (hs : s.afterReturn = false) :
    bytes.foldl read s = { s with line := s.line ++ bytes } := by
  induction bytes generalizing s with
  | nil =>
    rw [List.append_nil]
    rfl
  | cons b bytes ih =>
    have hfeed : b ≠ lineFeed := fun heq => h.1 (heq ▸ List.mem_cons_self)
    have hreturn : b ≠ carriageReturn := fun heq => h.2 (heq ▸ List.mem_cons_self)
    have hrest : OneLine bytes :=
      ⟨fun hb => h.1 (List.mem_cons_of_mem _ hb), fun hb => h.2 (List.mem_cons_of_mem _ hb)⟩
    have hread : s.read b = { s with line := s.line ++ [b] } := by
      rw [read, if_neg hfeed, if_neg hreturn, ← hs]
    have htail := ih (s := { s with line := s.line ++ [b] }) hrest hs
    rw [List.foldl_cons, hread, htail]
    simp only [List.append_assoc, List.cons_append, List.nil_append]

theorem foldl_read_event {payload : List UInt8} (h : OneLine payload) (seen : List (List UInt8)) :
    (event payload).foldl read { events := seen } = { events := seen ++ [payload] } := by
  have hfield : OneLine (dataField ++ [colon, space] ++ payload) := by
    have hfeed : lineFeed ∉ dataField ++ [colon, space] := by decide
    have hreturn : carriageReturn ∉ dataField ++ [colon, space] := by decide
    constructor
    · rw [List.mem_append]
      exact not_or.mpr ⟨hfeed, h.1⟩
    · rw [List.mem_append]
      exact not_or.mpr ⟨hreturn, h.2⟩
  rw [event, List.foldl_append, foldl_read_oneLine hfield rfl]
  rfl

end Client

theorem events_flatMap_event {payloads : List (List UInt8)}
    (h : ∀ payload ∈ payloads, OneLine payload) : events (payloads.flatMap event) = payloads := by
  have hread : ∀ seen, (payloads.flatMap event).foldl Client.read { events := seen } =
      { events := seen ++ payloads } := by
    induction payloads with
    | nil => simp
    | cons payload payloads ih =>
      intro seen
      rw [List.flatMap_cons, List.foldl_append, Client.foldl_read_event (h payload List.mem_cons_self),
        ih fun q hq => h q (List.mem_cons_of_mem _ hq)]
      simp
  rw [events, hread []]
  rfl

theorem events_isPrefix {bytes all : List UInt8} (h : bytes <+: all) : events bytes <+: events all := by
  obtain ⟨rest, rfl⟩ := h
  rw [events, events, List.foldl_append]
  exact Client.events_foldl_read _ rest

end Sse
