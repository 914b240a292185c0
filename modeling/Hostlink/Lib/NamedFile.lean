import Mathlib.Logic.Function.Basic
import Mathlib.Data.List.Basic
import Mathlib.Tactic.Common

/-! One name in a file system and the files it may name over time. A descriptor keeps writing to
the file it was opened on, whatever the name stands for by then. -/

structure NamedFile where
  link : Option Nat
  data : Nat → List UInt8
  next : Nat

namespace NamedFile

def content (f : NamedFile) : Option (List UInt8) := f.link.map f.data

def ofContent (c : Option (List UInt8)) : NamedFile :=
  ⟨c.map fun _ => 0, fun _ => c.getD [], 1⟩

def create (f : NamedFile) : Nat × NamedFile :=
  (f.next, ⟨some f.next, Function.update f.data f.next [], f.next + 1⟩)

/-- `O_CREATE | O_TRUNC`: the file the name stands for is emptied in place. -/
def openTrunc (f : NamedFile) : Nat × NamedFile :=
  match f.link with
  | some ino => (ino, { f with data := Function.update f.data ino [] })
  | none => f.create

/-- `O_CREATE | O_EXCL`: fails if the name is taken. -/
def openExcl (f : NamedFile) : Option (Nat × NamedFile) :=
  match f.link with
  | some _ => none
  | none => some f.create

/-- `write` at an offset; a gap behind the end of the file reads as zeros. -/
def writeAt (f : NamedFile) (ino off : Nat) (bytes : List UInt8) : NamedFile :=
  if bytes = [] then f
  else
    let d := f.data ino
    let gap := List.replicate (off - d.length) 0
    { f with
      data := Function.update f.data ino
        (d.take off ++ gap ++ bytes ++ d.drop (off + bytes.length)) }

/-- `unlink` of the name, whatever it stands for. -/
def remove (f : NamedFile) : NamedFile := { f with link := none }

def Holds (f : NamedFile) (ino : Nat) (bytes : List UInt8) : Prop :=
  f.link = some ino ∧ f.data ino = bytes

theorem content_ofContent (c : Option (List UInt8)) : (ofContent c).content = c := by
  cases c <;> rfl

theorem Holds.content {f : NamedFile} {ino : Nat} {bytes : List UInt8} (h : f.Holds ino bytes) :
    f.content = some bytes := by
  rw [NamedFile.content, h.1, Option.map_some, h.2]

theorem create_holds (f : NamedFile) : f.create.2.Holds f.create.1 [] :=
  ⟨rfl, Function.update_self ..⟩

theorem openTrunc_holds (f : NamedFile) : f.openTrunc.2.Holds f.openTrunc.1 [] := by
  unfold openTrunc
  split
  · next hlink => exact ⟨hlink, Function.update_self ..⟩
  · exact f.create_holds

theorem openExcl_holds {f : NamedFile} {r : Nat × NamedFile} (h : f.openExcl = some r) :
    r.2.Holds r.1 [] := by
  unfold openExcl at h
  split at h
  · cases h
  · cases h
    exact f.create_holds

theorem Holds.writeAt {f : NamedFile} {ino : Nat} {d : List UInt8} (h : f.Holds ino d)
    (bytes : List UInt8) : (f.writeAt ino d.length bytes).Holds ino (d ++ bytes) := by
  unfold NamedFile.writeAt
  split
  · next hb => rwa [hb, List.append_nil]
  · refine ⟨h.1, ?_⟩
    simp [h.2, List.drop_eq_nil_of_le]

end NamedFile
