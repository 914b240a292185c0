import Mathlib.Data.List.Basic
import Mathlib.Tactic.Common

/-! The unit of the byte pipe (`hostlink.proto`, `Frame`) and what a sequence of frames
conveys: its bytes, and the bytes a half-close seals. -/

namespace Hostlink.Tunnel

abbrev Bytes := List UInt8

/-- `Frame.Type`; a protobuf enum is open, so a receiver may see any other number. -/
inductive FrameType where
  | data
  | halfClose
  | reset
  | «open»
  | ready
  | unknown (code : Int)
  deriving DecidableEq, Repr

def FrameType.code : FrameType → Int
  | .data => 0
  | .halfClose => 1
  | .reset => 2
  | .open => 3
  | .ready => 4
  | .unknown code => code

def FrameType.name : FrameType → String
  | .data => "DATA"
  | .halfClose => "HALF_CLOSE"
  | .reset => "RESET"
  | .open => "OPEN"
  | .ready => "READY"
  | .unknown code => toString code

structure PeerForwardOpen where
  agentId : String
  target : String
  deriving DecidableEq, Repr

structure Frame where
  sessionId : String := ""
  type : FrameType
  data : Bytes := []
  openRequest : Option PeerForwardOpen := none
  deriving DecidableEq, Repr

namespace Frame

def ofData (data : Bytes) : Frame := { type := .data, data := data }
def halfClose : Frame := { type := .halfClose }
def reset : Frame := { type := .reset }

def bytes (f : Frame) : Bytes := if f.type = .data then f.data else []

@[simp] theorem bytes_ofData (data : Bytes) : (ofData data).bytes = data := rfl
@[simp] theorem bytes_halfClose : halfClose.bytes = [] := rfl
@[simp] theorem bytes_reset : reset.bytes = [] := rfl

theorem bytes_of_ne {f : Frame} (h : f.type ≠ .data) : f.bytes = [] := if_neg h

end Frame

def payload (fs : List Frame) : Bytes := fs.flatMap Frame.bytes

def sealedBytes : List Frame → Option Bytes
  | [] => none
  | f :: fs => if f.type = .halfClose then some [] else (sealedBytes fs).map (f.bytes ++ ·)

@[simp] theorem payload_nil : payload [] = [] := rfl

@[simp] theorem payload_append (fs gs : List Frame) :
    payload (fs ++ gs) = payload fs ++ payload gs := List.flatMap_append

@[simp] theorem payload_singleton (f : Frame) : payload [f] = f.bytes := by
  simp only [payload, List.flatMap_singleton]

theorem payload_isPrefix {fs gs : List Frame} (h : fs <+: gs) : payload fs <+: payload gs := by
  obtain ⟨hs, rfl⟩ := h
  rw [payload_append]
  exact List.prefix_append _ _

theorem sealedBytes_append (fs gs : List Frame) :
    sealedBytes (fs ++ gs) =
      (sealedBytes fs).or ((sealedBytes gs).map (payload fs ++ ·)) := by
  induction fs with
  | nil => simp [sealedBytes]
  | cons f fs ih =>
    simp only [List.cons_append, sealedBytes, ih]
    split
    · rfl
    · cases sealedBytes fs <;> cases sealedBytes gs <;> simp [payload]

theorem sealedBytes_snoc_halfClose {fs : List Frame} {f : Frame} (h : sealedBytes fs = none)
    (hf : f.type = .halfClose) : sealedBytes (fs ++ [f]) = some (payload fs) := by
  simp [sealedBytes_append, h, sealedBytes, hf]

theorem sealedBytes_snoc_of_ne {fs : List Frame} {f : Frame} (h : f.type ≠ .halfClose) :
    sealedBytes (fs ++ [f]) = sealedBytes fs := by
  simp [sealedBytes_append, sealedBytes, h]

theorem exists_halfClose_of_sealedBytes {fs : List Frame} {b : Bytes}
    (h : sealedBytes fs = some b) : ∃ g ∈ fs, g.type = .halfClose := by
  induction fs generalizing b with
  | nil => cases h
  | cons f fs ih =>
    by_cases hf : f.type = .halfClose
    · exact ⟨f, List.mem_cons_self .., hf⟩
    · simp only [sealedBytes, if_neg hf, Option.map_eq_some_iff] at h
      obtain ⟨c, hc, -⟩ := h
      obtain ⟨g, hg, ht⟩ := ih hc
      exact ⟨g, List.mem_cons_of_mem _ hg, ht⟩

theorem sealedBytes_of_isPrefix {fs gs : List Frame} (h : fs <+: gs) {b : Bytes}
    (hb : sealedBytes fs = some b) : sealedBytes gs = some b := by
  obtain ⟨hs, rfl⟩ := h
  simp [sealedBytes_append, hb]

/-- `out` conveys no more than `inp` and in the same order: its bytes are a prefix, and what
a half-close seals in `out` is exactly what one seals in `inp`. -/
def Conveys (out inp : List Frame) : Prop :=
  payload out <+: payload inp ∧ ∀ b, sealedBytes out = some b → sealedBytes inp = some b

theorem Conveys.of_isPrefix {fs gs : List Frame} (h : fs <+: gs) : Conveys fs gs :=
  ⟨payload_isPrefix h, fun _ => sealedBytes_of_isPrefix h⟩

theorem Conveys.trans {fs gs hs : List Frame} (h : Conveys fs gs) (h' : Conveys gs hs) :
    Conveys fs hs :=
  ⟨h.1.trans h'.1, fun b hb => h'.2 b (h.2 b hb)⟩

/-- The frames of stream setup, which the splice loops skip. -/
def IsSetup (f : Frame) : Prop := f.type = .open ∨ f.type = .ready

instance : DecidablePred IsSetup := fun _ => inferInstanceAs (Decidable (_ ∨ _))

theorem payload_setup {fs : List Frame} (h : ∀ f ∈ fs, IsSetup f) : payload fs = [] := by
  simp only [payload, List.flatMap_eq_nil_iff]
  intro f hf
  rcases h f hf with ht | ht <;> simp [Frame.bytes, ht]

theorem sealedBytes_setup {fs : List Frame} (h : ∀ f ∈ fs, IsSetup f) : sealedBytes fs = none := by
  induction fs with
  | nil => rfl
  | cons f fs ih =>
    have hf : f.type ≠ .halfClose := by
      rcases h f (List.mem_cons_self ..) with ht | ht <;> simp [ht]
    simp [sealedBytes, hf, ih fun g hg => h g (List.mem_cons_of_mem _ hg)]

end Hostlink.Tunnel
