import Hostlink.Agent.Upload

/-! `readFile`: a file leaves the agent in chunks, followed by the code of the terminal result. What
the calls into the operating system answer is given turn by turn. -/

namespace Hostlink.Agent

def fsChunkSize : Nat := 64 * 1024

structure ReadSetup where
  decodeErr : Option GoError := none
  resolveErr : Option GoError := none
  openErr : Option GoError := none
  statErr : Option GoError := none
  isDir : Bool := false

abbrev ReadFault := { err : GoError // err.is .eof = false }

/-- One turn of the read loop: `f.Read` returns at most `size` bytes. -/
structure ReadTurn where
  size : Nat
  ctxErr : Option GoError := none
  fault : Option ReadFault := none
  emitErr : Option GoError := none

structure ReadRun where
  chunks : List Bytes
  outcome : Option (Nat × String)
  deriving DecidableEq, Repr

def ReadSetup.refuses (setup : ReadSetup) : Option (Nat × String) :=
  match setup.decodeErr, setup.resolveErr, setup.openErr, setup.statErr with
  | some err, _, _, _ => some (400, "invalid fs.read payload: " ++ err.text)
  | none, some err, _, _ | none, none, some err, _ | none, none, none, some err =>
    some (fsErrorCode err, err.text)
  | none, none, none, none => if setup.isDir then some (400, "path is a directory") else none

namespace ReadTurn

/-- A read that does not fail returns something unless the file has ended. -/
def data (turn : ReadTurn) (rest : Bytes) : Bytes :=
  rest.take (min (if turn.fault.isNone then max turn.size 1 else turn.size) fsChunkSize)

def err (turn : ReadTurn) (rest : Bytes) : Option GoError :=
  match turn.fault with
  | some fault => some fault.val
  | none => if rest = [] then some .eof else none

end ReadTurn

def emitted (data : Bytes) : List Bytes := if data = [] then [] else [data]

def readLoop : Bytes → List ReadTurn → ReadRun
  | _, [] => ⟨[], none⟩
  | rest, turn :: turns =>
    match turn.ctxErr with
    | some err => ⟨[], some (500, err.text)⟩
    | none =>
      let data := turn.data rest
      match if data = [] then none else turn.emitErr with
      | some err => ⟨[], some (500, err.text)⟩
      | none =>
        match turn.err rest with
        | some err => ⟨emitted data, some (if err.is .eof then (200, "") else (500, err.text))⟩
        | none =>
          let run := readLoop (rest.drop data.length) turns
          ⟨emitted data ++ run.chunks, run.outcome⟩

def readFile (setup : ReadSetup) (content : Bytes) (turns : List ReadTurn) : ReadRun :=
  match setup.refuses with
  | some outcome => ⟨[], some outcome⟩
  | none => readLoop content turns

/-! ### What a chunked file says of its content -/

structure ReadRun.Of (run : ReadRun) (content : Bytes) : Prop where
  isPrefix : run.chunks.flatten <+: content
  code : ∀ code msg, run.outcome = some (code, msg) →
    code ≠ 0 ∧ (code = 200 → run.chunks.flatten = content)

theorem fsErrorCode_cases (err : GoError) :
    fsErrorCode err = 501 ∨ fsErrorCode err = 400 ∨ fsErrorCode err = 404 ∨ fsErrorCode err = 409 ∨
      fsErrorCode err = 500 := by
  unfold fsErrorCode
  split_ifs <;> simp

theorem ReadSetup.refuses_code {setup : ReadSetup} {code : Nat} {msg : String}
    (h : setup.refuses = some (code, msg)) : code ≠ 0 ∧ code ≠ 200 := by
  have hcode : ∀ err, fsErrorCode err ≠ 0 ∧ fsErrorCode err ≠ 200 := fun err => by
    rcases fsErrorCode_cases err with h | h | h | h | h <;> rw [h] <;> decide
  unfold ReadSetup.refuses at h
  split at h
  · cases h
    decide
  all_goals first
    | (cases h; exact hcode _)
    | (split at h <;> cases h; decide)

theorem flatten_emitted (data : Bytes) : (emitted data).flatten = data := by
  unfold emitted
  split
  · next h => rw [h, List.flatten_nil]
  · exact List.flatten_singleton

theorem ReadTurn.err_eof {turn : ReadTurn} {rest : Bytes} {err : GoError}
    (h : turn.err rest = some err) (heof : err.is .eof = true) : rest = [] := by
  unfold ReadTurn.err at h
  split at h
  · next fault _ =>
    cases h
    rw [fault.property] at heof
    cases heof
  · split at h
    · next hrest => exact hrest
    · cases h

theorem ReadRun.Of.failed {chunks : List Bytes} {content : Bytes} (msg : String)
    (h : chunks.flatten <+: content) : (⟨chunks, some (500, msg)⟩ : ReadRun).Of content where
  isPrefix := h
  code := fun code msg' hcode => by
    obtain ⟨rfl, rfl⟩ := Prod.mk.inj (Option.some.inj hcode)
    exact ⟨by decide, fun h200 => absurd h200 (by decide)⟩

theorem readLoop_of (rest : Bytes) (turns : List ReadTurn) : (readLoop rest turns).Of rest := by
  induction turns generalizing rest with
  | nil => exact ⟨List.nil_prefix, fun _ _ h => by cases h⟩
  | cons turn turns ih =>
    have hdata : turn.data rest <+: rest := List.take_prefix _ _
    rw [readLoop]
    split
    · exact .failed _ List.nil_prefix
    · dsimp only
      split
      · exact .failed _ List.nil_prefix
      · split
        · next err herr =>
          by_cases heof : err.is .eof = true
          -- the end of the file
          · have hrest := ReadTurn.err_eof herr heof
            have hnil : turn.data rest = [] := by rw [hrest]; exact List.take_nil
            rw [if_pos heof]
            refine ⟨by rw [flatten_emitted]; exact hdata, fun code msg hcode => ?_⟩
            obtain ⟨rfl, -⟩ := Prod.mk.inj (Option.some.inj hcode)
            exact ⟨by decide, fun _ => by rw [flatten_emitted, hnil, hrest]⟩
          · rw [if_neg heof]
            exact .failed _ (by rw [flatten_emitted]; exact hdata)
        · have hsplit : turn.data rest ++ rest.drop (turn.data rest).length = rest :=
            List.prefix_iff_eq_append.mp hdata
          have hrun := ih (rest.drop (turn.data rest).length)
          refine ⟨?_, fun code msg hcode => ?_⟩
          · rw [List.flatten_append, flatten_emitted]
            have happ := (List.prefix_append_right_inj (turn.data rest)).mpr hrun.isPrefix
            rwa [hsplit] at happ
          · obtain ⟨hne, hall⟩ := hrun.code code msg hcode
            refine ⟨hne, fun h200 => ?_⟩
            rw [List.flatten_append, flatten_emitted, hall h200]
            exact hsplit

theorem readFile_of (setup : ReadSetup) (content : Bytes) (turns : List ReadTurn) :
    (readFile setup content turns).Of content := by
  unfold readFile
  split
  · next outcome hrefused =>
    refine ⟨List.nil_prefix, fun code msg hcode => ?_⟩
    obtain ⟨hne, hne200⟩ := ReadSetup.refuses_code (hrefused.trans hcode)
    exact ⟨hne, fun h200 => absurd h200 hne200⟩
  · exact readLoop_of content turns

end Hostlink.Agent
