import Mathlib.Data.List.Basic
import Mathlib.Tactic.Common

/-! A FIFO channel that is reliable until it fails, kept with everything it ever carried.
What the receiver has taken is a prefix of what was sent by construction. -/

structure Fifo (α : Type*) where
  sent : List α
  taken : Nat
  failed : Bool
  taken_le : taken ≤ sent.length

namespace Fifo
variable {α : Type*}

def ofList (l : List α) : Fifo α := ⟨l, 0, false, Nat.zero_le _⟩

/-- A value sent on a failed channel is lost. -/
def push (c : Fifo α) (a : α) : Fifo α :=
  if c.failed then c
  else ⟨c.sent ++ [a], c.taken, false, Nat.le_trans c.taken_le (by simp)⟩

def pop? (c : Fifo α) : Option (α × Fifo α) :=
  if h : c.failed = false ∧ c.taken < c.sent.length then
    some (c.sent[c.taken], ⟨c.sent, c.taken + 1, false, h.2⟩)
  else none

def fail (c : Fifo α) : Fifo α := { c with failed := true }

def received (c : Fifo α) : List α := c.sent.take c.taken

def pending (c : Fifo α) : List α := if c.failed then [] else c.sent.drop c.taken

/-- `l` is what the sender handed to the channel: the channel carries all of it, or the
part that preceded its failure. -/
def Carries (c : Fifo α) (l : List α) : Prop := c.sent <+: l ∧ (c.failed = false → c.sent = l)

theorem received_isPrefix (c : Fifo α) : c.received <+: c.sent := List.take_prefix _ _

theorem carries_ofList (l : List α) : (ofList l).Carries l := ⟨List.prefix_rfl, fun _ => rfl⟩

theorem received_ofList (l : List α) : (ofList l).received = [] := List.take_zero

theorem Carries.push {c : Fifo α} {l : List α} (h : c.Carries l) (a : α) :
    (c.push a).Carries (l ++ [a]) := by
  unfold Fifo.push
  split
  · next hf => exact ⟨h.1.trans (List.prefix_append _ _), fun hn => by simp [hf] at hn⟩
  · next hf =>
    obtain rfl : c.sent = l := h.2 (by simpa using hf)
    exact ⟨List.prefix_rfl, fun _ => rfl⟩

theorem Carries.fail {c : Fifo α} {l : List α} (h : c.Carries l) : c.fail.Carries l :=
  ⟨h.1, fun hn => by simp [Fifo.fail] at hn⟩

theorem Carries.received_isPrefix {c : Fifo α} {l : List α} (h : c.Carries l) : c.received <+: l :=
  c.received_isPrefix.trans h.1

@[simp] theorem received_push (c : Fifo α) (a : α) : (c.push a).received = c.received := by
  unfold push received
  split
  · rfl
  · exact List.take_append_of_le_length c.taken_le

@[simp] theorem taken_push (c : Fifo α) (a : α) : (c.push a).taken = c.taken := by
  unfold push
  split <;> rfl

@[simp] theorem failed_push (c : Fifo α) (a : α) : (c.push a).failed = c.failed := by
  unfold push
  split
  · rfl
  · next hf => exact (eq_false_of_ne_true hf).symm

theorem sent_push (c : Fifo α) (a : α) :
    (c.push a).sent = c.sent ++ if c.failed then [] else [a] := by
  unfold push
  split
  · exact (List.append_nil _).symm
  · rfl

theorem prefix_push (c : Fifo α) (a : α) : c.sent <+: (c.push a).sent := by
  unfold push
  split
  · exact List.prefix_rfl
  · exact List.prefix_append _ _

theorem mem_sent_of_push {c : Fifo α} {a b : α} (h : b ∈ (c.push a).sent) :
    b ∈ c.sent ∨ a = b := by
  unfold push at h
  split at h
  · exact .inl h
  · exact (List.mem_append.mp h).imp_right fun h => (List.mem_singleton.mp h).symm

theorem pop?_eq_some {c c' : Fifo α} {a : α} (h : c.pop? = some (a, c')) :
    c.failed = false ∧ c'.failed = false ∧ c'.sent = c.sent ∧ c'.taken = c.taken + 1 ∧
      c.sent[c.taken]? = some a := by
  unfold pop? at h
  split at h
  · next hc =>
    obtain ⟨rfl, rfl⟩ := Prod.mk.inj (Option.some.inj h)
    exact ⟨hc.1, rfl, rfl, rfl, List.getElem?_eq_getElem hc.2⟩
  · cases h

theorem received_pop? {c c' : Fifo α} {a : α} (h : c.pop? = some (a, c')) :
    c'.received = c.received ++ [a] := by
  obtain ⟨-, -, hs, ht, ha⟩ := pop?_eq_some h
  rw [received, hs, ht, List.take_add_one, ha, Option.toList_some, received]

theorem sent_of_pop? {c c' : Fifo α} {a : α} (h : c.pop? = some (a, c')) :
    ∃ rest, c.sent = c.received ++ a :: rest := by
  obtain ⟨-, -, -, -, ha⟩ := pop?_eq_some h
  obtain ⟨hlt, rfl⟩ := List.getElem?_eq_some_iff.mp ha
  refine ⟨c.sent.drop (c.taken + 1), ?_⟩
  rw [received, ← List.drop_eq_getElem_cons hlt, List.take_append_drop]

theorem Carries.pop? {c c' : Fifo α} {a : α} {l : List α} (hc : c.Carries l)
    (h : c.pop? = some (a, c')) : c'.Carries l := by
  obtain ⟨hf, -, hs, -, -⟩ := pop?_eq_some h
  exact ⟨hs ▸ hc.1, fun _ => hs ▸ hc.2 hf⟩

end Fifo

def List.Follows {α : Type*} (live : Bool) (l m : List α) : Prop :=
  l <+: m ∧ (live = true → l = m)

namespace List.Follows
variable {α : Type*} {live live' : Bool} {l l' m : List α}

theorem of_eq (h : l = m) : l.Follows live m := ⟨h ▸ prefix_rfl, fun _ => h⟩

theorem mono (h : l.Follows live m) (hlive : live' = true → live = true) : l.Follows live' m :=
  ⟨h.1, fun hl => h.2 (hlive hl)⟩

theorem append (h : l.Follows true m) (x : List α) : (l ++ x).Follows live (m ++ x) :=
  of_eq (h.2 rfl ▸ rfl)

theorem behind (h : l.Follows live m) (hl : l' <+: l) (x : List α) : l'.Follows false (m ++ x) :=
  ⟨(hl.trans h.1).trans (prefix_append _ _), fun hf => by cases hf⟩

theorem stop (h : l.Follows live m) (hl : l' <+: l) : l'.Follows false m :=
  ⟨hl.trans h.1, fun hf => by cases hf⟩

end List.Follows
