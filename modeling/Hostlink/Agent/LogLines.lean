import Hostlink.Agent.Upload
import Hostlink.Lib.GoStrings

/-! `logLineWriter`: the bytes of one log channel leave as one frame per line, however the copy
loop of `containerLogs` cuts them into writes. -/

namespace Hostlink.Agent

def maxLogLineBytes : Nat := 64 * 1024

def newline : UInt8 := 10
def carriageReturn : UInt8 := 13

structure LogFrame where
  stream : String
  line : Bytes
  deriving DecidableEq, Repr

structure LogLineWriter where
  stream : String
  buf : Bytes := []
  deriving DecidableEq, Repr

/-- `bytes.TrimSuffix(line, []byte("\r"))`. -/
def trimReturn (line : Bytes) : Bytes :=
  if line.getLast? = some carriageReturn then line.dropLast else line

namespace LogLineWriter

def emitLine (w : LogLineWriter) (line : Bytes) : LogFrame := ⟨w.stream, trimReturn line⟩

/-- The loop of `Write`: the lines that end inside the buffer, and what is left of it. -/
def takeLines (buf : Bytes) : List Bytes × Bytes :=
  match h : buf.idxOf? newline with
  | none => ([], buf)
  | some i =>
    have : i < buf.length := (List.idxOf?_eq_some_iff.mp h).1
    let r := takeLines (buf.drop (i + 1))
    (buf.take i :: r.1, r.2)
termination_by buf.length
decreasing_by rw [List.length_drop]; omega

def write (w : LogLineWriter) (p : Bytes) : LogLineWriter × List LogFrame :=
  let r := takeLines (w.buf ++ p)
  let frames := r.1.map w.emitLine
  if r.2.length ≥ maxLogLineBytes then ({ w with buf := [] }, frames ++ [w.emitLine r.2])
  else ({ w with buf := r.2 }, frames)

def flush (w : LogLineWriter) : LogLineWriter × List LogFrame :=
  if w.buf.length > 0 then ({ w with buf := [] }, [w.emitLine w.buf]) else (w, [])

def writeAll (w : LogLineWriter) : List Bytes → LogLineWriter × List LogFrame
  | [] => (w, [])
  | p :: ps =>
    let r := w.write p
    let t := r.1.writeAll ps
    (t.1, r.2 ++ t.2)

def frames (stream : String) (chunks : List Bytes) : List LogFrame :=
  let r := writeAll { stream } chunks
  r.2 ++ r.1.flush.2

end LogLineWriter

inductive LogChannel where
  | stdout
  | stderr
  deriving DecidableEq, Repr

def LogChannel.name : LogChannel → String
  | .stdout => "stdout"
  | .stderr => "stderr"

/-- The writes `io.Copy` and `stdcopy.StdCopy` make, in their order, to the two writers. -/
def copyLogs (writers : LogChannel → LogLineWriter) :
    List (LogChannel × Bytes) → (LogChannel → LogLineWriter) × List LogFrame
  | [] => (writers, [])
  | (channel, p) :: writes =>
    let r := (writers channel).write p
    let t := copyLogs (Function.update writers channel r.1) writes
    (t.1, r.2 ++ t.2)

def containerLogs (writes : List (LogChannel × Bytes)) : List LogFrame :=
  let r := copyLogs (fun channel => { stream := channel.name }) writes
  r.2 ++ (r.1 .stdout).flush.2 ++ (r.1 .stderr).flush.2

/-! ## Segments -/

def segments (bytes : Bytes) : List Bytes :=
  let parts := bytes.splitOn newline
  if parts.getLast? = some [] then parts.dropLast else parts

def ShortLines (bytes : Bytes) : Prop :=
  ∀ segment ∈ bytes.splitOn newline, segment.length < maxLogLineBytes

theorem segments_append {bytes rest : Bytes} {lines : List Bytes}
    (h : bytes.splitOn newline = lines ++ rest.splitOn newline) :
    segments bytes = lines ++ segments rest := by
  have hne : rest.splitOn newline ≠ [] := List.splitOn_ne_nil _ _
  have hlast : (bytes.splitOn newline).getLast? = (rest.splitOn newline).getLast? := by
    rw [h, List.getLast?_append_of_ne_nil _ hne]
  simp only [segments]
  rw [hlast, h, List.dropLast_append_of_ne_nil hne]
  split
  · rfl
  · rfl

theorem segments_of_not_mem {bytes : Bytes} (h : newline ∉ bytes) :
    segments bytes = if bytes = [] then [] else [bytes] := by
  simp [segments, List.splitOn_eq_singleton h]

theorem ShortLines.length_lt {bytes rest : Bytes} (h : ShortLines (bytes ++ rest))
    (hbytes : newline ∉ bytes) : bytes.length < maxLogLineBytes := by
  have hsegment : ∃ more, bytes ++ more ∈ (bytes ++ rest).splitOn newline := by
    by_cases hrest : newline ∈ rest
    · obtain ⟨more, after, rfl, hmore⟩ := List.eq_append_cons_of_mem hrest
      have hline : newline ∉ bytes ++ more := by
        rw [List.mem_append]
        exact not_or.mpr ⟨hbytes, hmore⟩
      refine ⟨more, ?_⟩
      rw [← List.append_assoc, List.splitOn_append_cons_self_of_not_mem hline]
      exact List.mem_cons_self
    · have hline : newline ∉ bytes ++ rest := by
        rw [List.mem_append]
        exact not_or.mpr ⟨hbytes, hrest⟩
      refine ⟨rest, ?_⟩
      rw [List.splitOn_eq_singleton hline]
      exact List.mem_singleton_self _
  obtain ⟨more, hmem⟩ := hsegment
  have hlen := h _ hmem
  rw [List.length_append] at hlen
  exact Nat.lt_of_le_of_lt (Nat.le_add_right _ _) hlen

namespace LogLineWriter

theorem idxOf?_cut {buf : Bytes} {i : Nat} (h : buf.idxOf? newline = some i) :
    buf = buf.take i ++ newline :: buf.drop (i + 1) ∧ newline ∉ buf.take i ∧
      (buf.drop (i + 1)).length < buf.length := by
  obtain ⟨hlt, hget, hbefore⟩ := List.idxOf?_eq_some_iff.mp h
  refine ⟨?_, ?_, ?_⟩
  · rw [← hget, ← List.drop_eq_getElem_cons hlt, List.take_append_drop]
  · intro hmem
    obtain ⟨j, hj, hnl⟩ := List.mem_take_iff_getElem.mp hmem
    exact hbefore j (by omega) hnl
  · rw [List.length_drop]
    omega

theorem takeLines_spec (buf rest : Bytes) :
    (buf ++ rest).splitOn newline =
        (takeLines buf).1 ++ ((takeLines buf).2 ++ rest).splitOn newline ∧
      newline ∉ (takeLines buf).2 := by
  induction hlen : buf.length using Nat.strongRecOn generalizing buf with
  | _ n ih =>
    rw [takeLines]
    split
    · next hnone => exact ⟨rfl, List.idxOf?_eq_none_iff.mp hnone⟩
    · next i hi =>
      obtain ⟨hcut, hline, hshort⟩ := idxOf?_cut hi
      obtain ⟨hsplit, hleft⟩ := ih _ (hlen ▸ hshort) (buf.drop (i + 1)) rfl
      refine ⟨?_, hleft⟩
      conv_lhs => rw [hcut]
      rw [List.append_assoc, List.cons_append, List.splitOn_append_cons_self_of_not_mem hline,
        hsplit]
      rfl

theorem write_of_lt {w : LogLineWriter} {p : Bytes}
    (h : (takeLines (w.buf ++ p)).2.length < maxLogLineBytes) :
    w.write p =
      ({ w with buf := (takeLines (w.buf ++ p)).2 }, (takeLines (w.buf ++ p)).1.map w.emitLine) := by
  rw [write]
  exact if_neg (Nat.not_le.mpr h)

theorem flush_frames (w : LogLineWriter) (h : newline ∉ w.buf) :
    w.flush.2 = (segments w.buf).map w.emitLine := by
  rw [segments_of_not_mem h, flush]
  cases hbuf : w.buf with
  | nil => rfl
  | cons b buf => rfl

/-- The induction carries what is still in the buffer in front of the chunks that are to come. -/
theorem writeAll_frames (w : LogLineWriter) (chunks : List Bytes) (hbuf : newline ∉ w.buf)
    (h : ShortLines (w.buf ++ chunks.flatten)) :
    (w.writeAll chunks).2 ++ (w.writeAll chunks).1.flush.2 =
      (segments (w.buf ++ chunks.flatten)).map w.emitLine := by
  induction chunks generalizing w with
  | nil =>
    rw [List.flatten_nil, List.append_nil]
    exact w.flush_frames hbuf
  | cons p chunks ih =>
    rw [List.flatten_cons, ← List.append_assoc] at h ⊢
    obtain ⟨hsplit, hleft⟩ := takeLines_spec (w.buf ++ p) chunks.flatten
    have hrest : ShortLines ((takeLines (w.buf ++ p)).2 ++ chunks.flatten) := by
      intro segment hmem
      apply h
      rw [hsplit]
      exact List.mem_append_right _ hmem
    have hw := write_of_lt (hrest.length_lt hleft)
    have htail := ih (w.write p).1 (by rw [hw]; exact hleft) (by rw [hw]; exact hrest)
    rw [segments_append hsplit, List.map_append, writeAll, List.append_assoc, htail, hw]
    rfl

/-- However the bytes are cut into writes, the frames carry the segments between the newlines. -/
theorem frames_eq_segments (stream : String) (chunks : List Bytes)
    (h : ShortLines chunks.flatten) :
    frames stream chunks =
      (segments chunks.flatten).map fun segment => ⟨stream, trimReturn segment⟩ :=
  writeAll_frames { stream } chunks List.not_mem_nil h

/-- `a\r`, then `\n\r\n`, then `b`: the return is dropped although the newline comes later. -/
theorem frames_eq_segments_split_return :
    ShortLines [[97, 13], [10, 13, 10], [], [98]].flatten ∧
      frames "stdout" [[97, 13], [10, 13, 10], [], [98]] =
        [⟨"stdout", [97]⟩, ⟨"stdout", []⟩, ⟨"stdout", [98]⟩] := by
  have hshort : ShortLines [[97, 13], [10, 13, 10], [], [98]].flatten := by
    unfold ShortLines
    decide
  refine ⟨hshort, ?_⟩
  rw [frames_eq_segments _ _ hshort]
  decide

theorem write_stream (w : LogLineWriter) (p : Bytes) :
    (w.write p).1.stream = w.stream ∧ ∀ frame ∈ (w.write p).2, frame.stream = w.stream := by
  have hlines : ∀ frame ∈ (takeLines (w.buf ++ p)).1.map w.emitLine, frame.stream = w.stream := by
    intro frame hframe
    obtain ⟨line, -, rfl⟩ := List.mem_map.mp hframe
    rfl
  simp only [write]
  split
  · refine ⟨rfl, List.forall_mem_append.mpr ⟨hlines, ?_⟩⟩
    exact List.forall_mem_singleton.mpr rfl
  · exact ⟨rfl, hlines⟩

theorem flush_stream (w : LogLineWriter) : ∀ frame ∈ w.flush.2, frame.stream = w.stream := by
  rw [flush]
  split
  · exact List.forall_mem_singleton.mpr rfl
  · intro frame hframe
    exact absurd hframe List.not_mem_nil

end LogLineWriter

theorem LogChannel.name_injective : Function.Injective LogChannel.name := by
  intro a b h
  cases a <;> cases b <;> first | rfl | exact absurd h (by decide)

def ofStream (channel : LogChannel) (frames : List LogFrame) : List LogFrame :=
  frames.filter (·.stream = channel.name)

theorem ofStream_own {channel : LogChannel} {frames : List LogFrame}
    (h : ∀ frame ∈ frames, frame.stream = channel.name) : ofStream channel frames = frames :=
  List.filter_eq_self.mpr fun frame hframe => decide_eq_true (h frame hframe)

theorem ofStream_other {channel other : LogChannel} {frames : List LogFrame}
    (h : ∀ frame ∈ frames, frame.stream = other.name) (hne : other ≠ channel) :
    ofStream channel frames = [] := by
  refine List.filter_eq_nil_iff.mpr fun frame hframe => ?_
  rw [h frame hframe]
  exact fun heq => hne (LogChannel.name_injective (of_decide_eq_true heq))

def chunksOf (channel : LogChannel) (writes : List (LogChannel × Bytes)) : List Bytes :=
  (writes.filter (·.1 = channel)).map Prod.snd

theorem copyLogs_ofStream (writers : LogChannel → LogLineWriter)
    (hnames : ∀ channel, (writers channel).stream = channel.name)
    (writes : List (LogChannel × Bytes)) (channel : LogChannel) :
    (copyLogs writers writes).1 channel =
        ((writers channel).writeAll (chunksOf channel writes)).1 ∧
      ofStream channel (copyLogs writers writes).2 =
        ((writers channel).writeAll (chunksOf channel writes)).2 ∧
      ∀ c, ((copyLogs writers writes).1 c).stream = c.name := by
  induction writes generalizing writers with
  | nil => exact ⟨rfl, rfl, hnames⟩
  | cons write writes ih =>
    obtain ⟨target, p⟩ := write
    obtain ⟨hstream, hframes⟩ := (writers target).write_stream p
    rw [hnames target] at hstream hframes
    have hnames' : ∀ c, (Function.update writers target ((writers target).write p).1 c).stream =
        c.name := by
      intro c
      rcases eq_or_ne c target with rfl | hne
      · rw [Function.update_self, hstream]
      · rw [Function.update_of_ne hne, hnames c]
    obtain ⟨hwriter, hrest, hlast⟩ := ih _ hnames'
    rw [copyLogs]
    rcases eq_or_ne target channel with rfl | hne
    · have hchunks : chunksOf target ((target, p) :: writes) = p :: chunksOf target writes := by
        simp [chunksOf]
      rw [Function.update_self] at hwriter hrest
      rw [hchunks, LogLineWriter.writeAll]
      refine ⟨hwriter, ?_, hlast⟩
      rw [ofStream, List.filter_append]
      exact congrArg₂ (· ++ ·) (ofStream_own hframes) hrest
    · have hchunks : chunksOf channel ((target, p) :: writes) = chunksOf channel writes := by
        simp [chunksOf, hne]
      rw [Function.update_of_ne hne.symm] at hwriter hrest
      rw [hchunks]
      refine ⟨hwriter, ?_, hlast⟩
      rw [ofStream, List.filter_append]
      exact congrArg₂ (· ++ ·) (ofStream_other hframes hne) hrest

theorem containerLogs_ofStream (writes : List (LogChannel × Bytes)) (channel : LogChannel) :
    ofStream channel (containerLogs writes) =
      LogLineWriter.frames channel.name (chunksOf channel writes) := by
  obtain ⟨hwriter, hframes, hnames⟩ :=
    copyLogs_ofStream (fun channel => { stream := channel.name }) (fun _ => rfl) writes channel
  have hflush : ∀ c, ∀ frame ∈ ((copyLogs (fun channel => { stream := channel.name }) writes).1
      c).flush.2, frame.stream = c.name := by
    intro c frame hframe
    rw [← hnames c]
    exact LogLineWriter.flush_stream _ frame hframe
  rw [containerLogs, ofStream, List.filter_append, List.filter_append]
  rw [LogLineWriter.frames, ← hwriter, ← hframes, List.append_assoc]
  refine congrArg₂ (· ++ ·) rfl ?_
  cases channel with
  | stdout =>
    have hother : ofStream .stdout _ = [] := ofStream_other (hflush .stderr) (by decide)
    have hown := ofStream_own (hflush .stdout)
    rw [ofStream] at hother hown
    rw [hother, hown, List.append_nil]
  | stderr =>
    have hother : ofStream .stderr _ = [] := ofStream_other (hflush .stdout) (by decide)
    have hown := ofStream_own (hflush .stderr)
    rw [ofStream] at hother hown
    rw [hother, hown, List.nil_append]

end Hostlink.Agent
