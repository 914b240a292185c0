import Hostlink.Lib.Run
import Hostlink.Agent.Upload

/-! `streamUploadBody`: a body is read piece by piece, each piece is sent as a chunk and the end of
the body as an empty chunk marked last. What `Read` and `send` answer is in the labels. -/

namespace Hostlink.Controller
open Agent (Bytes UploadChunk fullBody hasLast hasLast_append fullBody_append)

def fsUploadChunkSize : Nat := 64 * 1024

inductive BodyPc where
  | read
  | send (data : Bytes) (err : Option GoError)
  | last
  | returned (err : Option GoError)
  deriving DecidableEq, Repr

/-- `read` is what the body gave so far, `readErr` what its last `Read` ended with, `sent` what was
sent. -/
structure BodySender where
  pc : BodyPc := .read
  read : Bytes := []
  readErr : Option GoError := none
  sent : List UploadChunk := []
  deriving DecidableEq, Repr

inductive BodyLabel where
  | read (data : Bytes) (err : Option GoError)
  | sent (err : Option GoError)
  deriving DecidableEq, Repr

namespace BodySender

def afterRead : Option GoError → BodyPc
  | none => .read
  | some err => if err.is .eof then .last else .returned (some err)

def next (u : BodySender) : Option UploadChunk :=
  match u.pc with
  | .send data _ => some ⟨data, false⟩
  | .last => some ⟨[], true⟩
  | .read | .returned _ => none

def step (u : BodySender) : BodyLabel → Option BodySender
  | .read data err =>
    match u.pc with
    | .read =>
      if data.length ≤ fsUploadChunkSize then
        some { u with
          read := u.read ++ data
          readErr := err
          pc := if data = [] then afterRead err else .send data err }
      else none
    | _ => none
  | .sent (some err) => u.next.map fun _ => { u with pc := .returned (some err) }
  | .sent none =>
    match u.pc with
    | .send data err => some { u with sent := u.sent ++ [⟨data, false⟩], pc := afterRead err }
    | .last => some { u with sent := u.sent ++ [⟨[], true⟩], pc := .returned none }
    | .read | .returned _ => none

def atEof (u : BodySender) : Bool := u.readErr.any (·.is .eof)

end BodySender

/-! ### The loop for a given reader -/

def sendPiece (send : Nat → Option GoError) (n : Nat) (data : Bytes) : Except GoError Nat :=
  if data = [] then .ok n
  else
    match send n with
    | some err => .error err
    | none => .ok (n + 1)

/-- What a request body's `Read` gives: `pieces`, and at last `tail` together with `err`. -/
structure BodyReader where
  pieces : List Bytes
  tail : Bytes
  err : GoError
  deriving DecidableEq, Repr

/-- `send n` is what the send of chunk `n` returns. -/
def streamUploadBody (send : Nat → Option GoError) (tail : Bytes) (err : GoError) :
    Nat → List Bytes → Option GoError
  | n, [] =>
    match sendPiece send n tail with
    | .error serr => some serr
    | .ok n => if err.is .eof then send n else some err
  | n, piece :: pieces =>
    match sendPiece send n piece with
    | .error serr => some serr
    | .ok n => streamUploadBody send tail err n pieces

def pieceSends (data : Bytes) : Nat := if data = [] then 0 else 1

def dataSends (tail : Bytes) : List Bytes → Nat
  | [] => pieceSends tail
  | piece :: pieces => pieceSends piece + dataSends tail pieces

def BodyReader.sends (body : BodyReader) : Nat := dataSends body.tail body.pieces + 1

namespace BodySender
variable {u : BodySender}

theorem run_sendPiece (send : Nat → Option GoError) (err : Option GoError) {data : Bytes}
    (hdata : data.length ≤ fsUploadChunkSize) (hpc : u.pc = .read) :
    ∃ ls u', Lts.AnyRun step u ls u' ∧
      match sendPiece send u.sent.length data with
      | .error serr => u'.pc = .returned (some serr)
      | .ok n => u'.pc = afterRead err ∧ u'.sent.length = n := by
  have hread : u.step (.read data err) = some { u with
      read := u.read ++ data
      readErr := err
      pc := if data = [] then afterRead err else .send data err } := by
    simp only [step, hpc, if_pos hdata]
  unfold sendPiece
  by_cases hempty : data = []
  · rw [if_pos hempty] at hread ⊢
    exact ⟨_, _, .snoc .nil trivial hread, rfl, rfl⟩
  · rw [if_neg hempty] at hread ⊢
    have hrun := (Lts.Run.snoc .nil trivial hread : Lts.AnyRun step u _ _)
    cases hsend : send u.sent.length with
    | some serr => exact ⟨_, _, hrun.snoc (l := .sent (some serr)) trivial rfl, rfl⟩
    | none =>
      exact ⟨_, _, hrun.snoc (l := .sent none) trivial rfl, rfl, List.length_append⟩

theorem run_streamUploadBody (send : Nat → Option GoError) {tail : Bytes} (err : GoError)
    (htail : tail.length ≤ fsUploadChunkSize) {pieces : List Bytes}
    (hpieces : ∀ piece ∈ pieces, piece.length ≤ fsUploadChunkSize) (hpc : u.pc = .read) :
    ∃ ls u', Lts.AnyRun step u ls u' ∧
      u'.pc = .returned (streamUploadBody send tail err u.sent.length pieces) := by
  induction pieces generalizing u with
  | nil =>
    obtain ⟨ls, u', hrun, hsent⟩ := run_sendPiece send (some err) htail hpc
    cases hpiece : sendPiece send u.sent.length tail with
    | error serr =>
      simp only [hpiece] at hsent
      exact ⟨ls, u', hrun, by simp only [hsent, streamUploadBody, hpiece]⟩
    | ok n =>
      simp only [hpiece, afterRead] at hsent
      simp only [streamUploadBody, hpiece]
      by_cases heof : err.is .eof = true
      · simp only [heof, if_true] at hsent ⊢
        -- the terminal chunk
        cases hsend : send n with
        | some serr =>
          have hstep : u'.step (.sent (some serr)) =
              some { u' with pc := .returned (some serr) } := by
            simp only [step, next, hsent.1, Option.map_some]
          exact ⟨_, _, hrun.snoc trivial hstep, rfl⟩
        | none =>
          have hstep : u'.step (.sent none) =
              some { u' with sent := u'.sent ++ [⟨[], true⟩], pc := .returned none } := by
            simp only [step, hsent.1]
          exact ⟨_, _, hrun.snoc trivial hstep, rfl⟩
      · rw [if_neg heof] at hsent ⊢
        exact ⟨ls, u', hrun, hsent.1⟩
  | cons piece pieces ih =>
    obtain ⟨ls, u', hrun, hsent⟩ :=
      run_sendPiece send none (hpieces piece List.mem_cons_self) hpc
    cases hpiece : sendPiece send u.sent.length piece with
    | error serr =>
      simp only [hpiece] at hsent
      exact ⟨ls, u', hrun, by simp only [hsent, streamUploadBody, hpiece]⟩
    | ok n =>
      simp only [hpiece] at hsent
      obtain ⟨hpc', rfl⟩ := hsent
      obtain ⟨ms, v, hrest, hv⟩ := ih (fun p hp => hpieces p (List.mem_cons_of_mem _ hp)) hpc'
      exact ⟨ls ++ ms, v, hrun.trans hrest, by simp only [hv, streamUploadBody, hpiece]⟩

end BodySender

/-! ### The chunks say what the body says -/

namespace BodySender
variable {u u' : BodySender} {l : BodyLabel}

def Pending (u : BodySender) (data : Bytes) : Prop :=
  hasLast u.sent = false ∧ fullBody u.sent ++ data = u.read

def Ok (u : BodySender) : Prop :=
  match u.pc with
  | .read => u.readErr = none ∧ u.Pending []
  | .send data err => u.readErr = err ∧ u.Pending data
  | .last => u.atEof = true ∧ u.Pending []
  | .returned none => u.atEof = true ∧ ∃ chunks, u.sent = chunks ++ [⟨[], true⟩] ∧
      hasLast chunks = false ∧ fullBody chunks = u.read
  | .returned (some _) => hasLast u.sent = false

theorem ok_afterRead {err : Option GoError} (herr : u.readErr = err) (h : u.Pending []) :
    ({ u with pc := afterRead err } : BodySender).Ok := by
  cases err with
  | none => exact ⟨herr, h⟩
  | some err =>
    unfold Ok afterRead
    by_cases heof : err.is .eof = true
    · simp only [heof, if_true]
      exact ⟨by rw [atEof, herr]; exact heof, h⟩
    · simp only [heof]
      exact h.1

theorem step_ok (hok : u.Ok) (h : u.step l = some u') : u'.Ok := by
  unfold Ok at hok
  cases l with
  | read data err =>
    simp only [step] at h
    split at h
    · next hpc =>
      rw [hpc] at hok
      obtain ⟨-, hlast, hread⟩ := hok
      rw [List.append_nil] at hread
      split at h
      · cases h
        by_cases hdata : data = []
        · simp only [hdata, if_true, List.append_nil]
          exact ok_afterRead (u := { u with readErr := err }) rfl
            ⟨hlast, by rw [List.append_nil]; exact hread⟩
        · simp only [hdata, if_false]
          exact ⟨rfl, hlast, congrArg (· ++ data) hread⟩
      · cases h
    · cases h
  | sent err =>
    cases err with
    | some err =>
      obtain ⟨chunk, hnext, rfl⟩ := Option.map_eq_some_iff.mp h
      unfold next at hnext
      split at hnext
      · next hpc =>
        rw [hpc] at hok
        exact hok.2.1
      · next hpc =>
        rw [hpc] at hok
        exact hok.2.1
      · cases hnext
      · cases hnext
    | none =>
      simp only [step] at h
      split at h
      · next data err hpc =>
        rw [hpc] at hok
        obtain ⟨herr, hlast, hread⟩ := hok
        cases h
        refine ok_afterRead (u := { u with sent := u.sent ++ [⟨data, false⟩] }) herr ⟨?_, ?_⟩
        · rw [hasLast_append, hlast]
          rfl
        · rw [fullBody_append hlast, List.append_nil, ← hread]
          exact congrArg (fullBody u.sent ++ ·) (List.append_nil data)
      · next hpc =>
        rw [hpc] at hok
        obtain ⟨heof, hlast, hread⟩ := hok
        cases h
        rw [List.append_nil] at hread
        exact ⟨heof, u.sent, rfl, hlast, hread⟩
      · cases h
      · cases h

theorem Ok.of_hasLast (hok : u.Ok) {chunks : List UploadChunk} (hsent : chunks <+: u.sent)
    (hlast : hasLast chunks = true) : u.atEof = true ∧ fullBody chunks = u.read := by
  have hall : hasLast u.sent = true := by
    obtain ⟨rest, hrest⟩ := hsent
    rw [← hrest, hasLast_append, hlast, Bool.true_or]
  unfold Ok at hok
  split at hok
  · exact absurd (hok.2.1.symm.trans hall) Bool.false_ne_true
  · exact absurd (hok.2.1.symm.trans hall) Bool.false_ne_true
  · exact absurd (hok.2.1.symm.trans hall) Bool.false_ne_true
  · obtain ⟨heof, init, hinit, hopen, hbody⟩ := hok
    rw [hinit, List.prefix_concat_iff] at hsent
    obtain rfl | hsent := hsent
    · refine ⟨heof, ?_⟩
      rw [fullBody_append hopen, hbody]
      exact List.append_nil _
    · obtain ⟨rest, hrest⟩ := hsent
      rw [← hrest, hasLast_append, hlast] at hopen
      cases hopen
  · exact absurd (hok.symm.trans hall) Bool.false_ne_true

end BodySender
end Hostlink.Controller
