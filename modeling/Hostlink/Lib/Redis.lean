import Mathlib.Logic.Function.Basic
import Hostlink.Lib.GoError
import Hostlink.Lib.GoMap
import Hostlink.Lib.GoStrings
import Hostlink.Lib.Prog

/-! The commands of a Redis server, each executed atomically. A client sees `Except`, since a
command can fail on the way; the server below answers every command. What one SCAN call
returns is left to the oracle. -/

namespace Redis

inductive Cmd where
  | get (key : String)
  | mget (keys : List String)
  | setNX (key value : String)
  | setXX (key value : String)
  | del (key : String)
  | scan (cursor : Nat) (pattern : String) (count : Nat)
  | publish (channel message : String)
  deriving DecidableEq, Repr

/-- What a command is answered when it does not fail. A nil reply is `none`, and `false` where
the client library turns the reply into a flag. -/
abbrev Cmd.Answer : Cmd → Type
  | .get _ => Option String
  | .mget _ => List (Option String)
  | .setNX _ _ => Bool
  | .setXX _ _ => Bool
  | .del _ => Nat
  | .scan _ _ _ => List String × Nat
  | .publish _ _ => Nat

abbrev Reply (c : Cmd) : Type := Except GoError c.Answer

/-- One page of a SCAN: keys and the next cursor. -/
abbrev Oracle : Type := List String × Nat

abbrev Store : Type := String → Option String

def exec (s : Store) (o : Oracle) : (c : Cmd) → Reply c × Store
  | .get key => (.ok (s key), s)
  | .mget keys => (.ok (keys.map s), s)
  | .setNX key value =>
    if (s key).isSome then (.ok false, s)
    else (.ok true, Function.update s key (some value))
  | .setXX key value =>
    if (s key).isSome then (.ok true, Function.update s key (some value))
    else (.ok false, s)
  | .del key => (.ok (if (s key).isSome then 1 else 0), Function.update s key none)
  | .scan _ _ _ => (.ok o, s)
  | .publish _ _ => (.ok 0, s)

/-- Replies as the server gives them: it does not fail, and MGET answers key by key. -/
def Admits : (c : Cmd) → Reply c → Prop
  | .mget keys, r => ∃ values, r = .ok values ∧ values.length = keys.length
  | _, r => ∃ a, r = .ok a

theorem exec_admits (s : Store) (o : Oracle) (c : Cmd) : Admits c (exec s o c).1 := by
  cases c with
  | mget keys => exact ⟨keys.map s, rfl, List.length_map s⟩
  | setNX key value =>
    by_cases h : (s key).isSome
    · exact ⟨false, by simp [exec, h]⟩
    · exact ⟨true, by simp [exec, h]⟩
  | setXX key value =>
    by_cases h : (s key).isSome
    · exact ⟨true, by simp [exec, h]⟩
    · exact ⟨false, by simp [exec, h]⟩
  | get | del | scan | publish => exact ⟨_, rfl⟩

/-- The key and the value that a command writes: SETNX writes a key that is not there, SET XX one that is. -/
def written? (s : Store) : Cmd → Option (String × String)
  | .setNX key value => if (s key).isSome then none else some (key, value)
  | .setXX key value => if (s key).isSome then some (key, value) else none
  | .get _ | .mget _ | .del _ | .scan _ _ _ | .publish _ _ => none

theorem update_key (s : Store) (k value key : String) :
    Function.update s k (some value) key = s key ∨
      k = key ∧ Function.update s k (some value) key = some value := by
  rcases eq_or_ne key k with rfl | hne
  · exact .inr ⟨rfl, Function.update_self ..⟩
  · exact .inl (Function.update_of_ne hne ..)

theorem exec_key (s : Store) (o : Oracle) (c : Cmd) (key : String) :
    (exec s o c).2 key = s key ∨ c = .del key ∧ (exec s o c).2 key = none ∨
      ∃ value, written? s c = some (key, value) ∧ (exec s o c).2 key = some value := by
  cases c with
  | get | mget | scan | publish => exact .inl rfl
  | setNX k value =>
    by_cases hs : (s k).isSome
    · exact .inl (by simp only [exec, hs, if_true])
    · simp only [exec, written?, hs, Bool.false_eq_true, if_false]
      rcases update_key s k value key with hsame | ⟨rfl, hnew⟩
      · exact .inl hsame
      · exact .inr (.inr ⟨value, rfl, hnew⟩)
  | setXX k value =>
    by_cases hs : (s k).isSome
    · simp only [exec, written?, hs, if_true]
      rcases update_key s k value key with hsame | ⟨rfl, hnew⟩
      · exact .inl hsame
      · exact .inr (.inr ⟨value, rfl, hnew⟩)
    · exact .inl (by simp only [exec, hs, Bool.false_eq_true, if_false])
  | del k =>
    rcases eq_or_ne key k with rfl | hne
    · exact .inr (.inl ⟨rfl, Function.update_self ..⟩)
    · exact .inl (Function.update_of_ne hne ..)

theorem exec_vanish {s : Store} {o : Oracle} {c : Cmd} {key : String}
    (h : s key ≠ none) (h' : (exec s o c).2 key = none) : c = .del key := by
  rcases exec_key s o c key with hsame | ⟨hdel, -⟩ | ⟨value, -, hnew⟩
  · exact absurd (hsame.symm.trans h') h
  · exact hdel
  · rw [hnew] at h'
    cases h'

theorem exec_setNX_true {s : Store} {o : Oracle} {key value : String}
    (h : (exec s o (.setNX key value)).1 = .ok true) :
    s key = none ∧ (exec s o (.setNX key value)).2 key = some value := by
  by_cases hs : (s key).isSome
  · simp [exec, hs] at h
  · have hn : s key = none := by simpa using hs
    simp [exec, hn]

theorem exec_setNX_false {s : Store} {o : Oracle} {key value : String}
    (h : (exec s o (.setNX key value)).1 = .ok false) : s key ≠ none := by
  by_cases hs : (s key).isSome
  · exact Option.isSome_iff_ne_none.mp hs
  · simp [exec, hs] at h

/-- A server that a client has to itself; `pages` is what it answers the next SCAN calls. -/
structure Server where
  store : Store
  pages : List Oracle

def Server.exec (s : Server) (c : Cmd) : Reply c × Server :=
  let r := Redis.exec s.store (s.pages.headD ([], 0)) c
  (r.1, {
    store := r.2
    pages := match c with
      | .scan _ _ _ => s.pages.tail
      | _ => s.pages })

/-- What a full iteration over an unchanging store returns for a pattern that asks for keys with a certain
beginning: every such key at least once, and no other. -/
def Scanned (s : Store) (start : String) (pages : List (List String)) : Prop :=
  ∀ key, key ∈ pages.flatten ↔ GoStrings.hasPrefix key start = true ∧ s key ≠ none

/-- The iteration ends with cursor 0. -/
structure FullScan (s : Store) (start : String) (pages : List Oracle) : Prop where
  ends : ∃ before last, pages = before ++ [(last, 0)] ∧ ∀ page ∈ before, page.2 ≠ 0
  keys : Scanned s start (pages.map Prod.fst)

end Redis

abbrev RedisKeys := GoMap String String

theorem RedisKeys.scanned_iff {store : RedisKeys} {start : String} {pages : List (List String)} :
    Redis.Scanned store.get start pages ↔
      (∀ key ∈ pages.flatten, GoStrings.hasPrefix key start = true ∧ (store.get key).isSome = true) ∧
      ∀ key ∈ store.present, GoStrings.hasPrefix key start = true → key ∈ pages.flatten := by
  constructor
  · intro h
    refine ⟨fun key hkey => ?_, fun key hkey hstart => (h key).mpr ⟨hstart, GoMap.mem_present.mp hkey⟩⟩
    obtain ⟨hstart, hne⟩ := (h key).mp hkey
    exact ⟨hstart, Option.isSome_iff_ne_none.mpr hne⟩
  · rintro ⟨honly, hall⟩ key
    constructor
    · intro hkey
      exact ⟨(honly key hkey).1, Option.isSome_iff_ne_none.mp (honly key hkey).2⟩
    · rintro ⟨hstart, hne⟩
      exact hall key (GoMap.mem_present.mpr hne) hstart

instance (store : RedisKeys) (start : String) (pages : List (List String)) :
    Decidable (Redis.Scanned store.get start pages) :=
  decidable_of_iff _ RedisKeys.scanned_iff.symm
