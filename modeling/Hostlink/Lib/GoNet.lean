import Mathlib.Data.List.Basic
import Hostlink.Lib.GoError

/-! Network addresses as `net.SplitHostPort` and `net.JoinHostPort` read and write them. -/

namespace GoNet

def addrErr (addr why : String) : GoError := .new ("address " ++ addr ++ ": " ++ why)

def missingPort : String := "missing port in address"
def tooManyColons : String := "too many colons in address"

def lastColon (cs : List Char) : Option Nat :=
  (cs.reverse.idxOf? ':').map fun n => cs.length - 1 - n

/-- The host of an address whose last colon is at `i`, with the positions from which no further
opening and closing bracket may occur. -/
def hostPart (hostport : String) (cs : List Char) (i : Nat) :
    Except GoError (List Char × Nat × Nat) :=
  if cs.head? = some '[' then
    match cs.idxOf? ']' with
    | none => .error (addrErr hostport "missing ']' in address")
    | some last =>
      if last + 1 = cs.length then .error (addrErr hostport missingPort)
      else if last + 1 = i then .ok ((cs.take last).drop 1, 1, last + 1)
      else if cs[last + 1]? = some ':' then .error (addrErr hostport tooManyColons)
      else .error (addrErr hostport missingPort)
  else if ':' ∈ cs.take i then .error (addrErr hostport tooManyColons)
  else .ok (cs.take i, 0, 0)

def splitHostPort (hostport : String) : Except GoError (String × String) :=
  let cs := hostport.toList
  match lastColon cs with
  | none => .error (addrErr hostport missingPort)
  | some i =>
    match hostPart hostport cs i with
    | .error err => .error err
    | .ok (host, j, k) =>
      if '[' ∈ cs.drop j then .error (addrErr hostport "unexpected '[' in address")
      else if ']' ∈ cs.drop k then .error (addrErr hostport "unexpected ']' in address")
      else .ok (String.ofList host, String.ofList (cs.drop (i + 1)))

def joinHostPort (host port : String) : String :=
  if ':' ∈ host.toList then "[" ++ host ++ "]:" ++ port else host ++ ":" ++ port

/-! ### Splitting what was joined -/

theorem idxOf?_append_cons {c : Char} {cs rest : List Char} (h : c ∉ cs) :
    (cs ++ c :: rest).idxOf? c = some cs.length := by
  apply List.idxOf?_eq_some_iff.mpr
  have hlt : cs.length < (cs ++ c :: rest).length := by simp
  refine ⟨hlt, by simp, fun j hj hget => ?_⟩
  rw [List.getElem_append_left hj] at hget
  exact h (hget ▸ List.getElem_mem hj)

theorem lastColon_append {cs rest : List Char} (h : ':' ∉ rest) :
    lastColon (cs ++ ':' :: rest) = some cs.length := by
  have hrev : (cs ++ ':' :: rest).reverse = rest.reverse ++ ':' :: cs.reverse := by simp
  have hidx : (rest.reverse ++ ':' :: cs.reverse).idxOf? ':' = some rest.reverse.length :=
    idxOf?_append_cons (by rwa [List.mem_reverse])
  rw [lastColon, hrev, hidx, Option.map_some, List.length_append, List.length_cons,
    List.length_reverse]
  congr 1
  omega

structure NoBrackets (s : String) : Prop where
  opening : '[' ∉ s.toList
  closing : ']' ∉ s.toList

theorem noBrackets_iff (s : String) : '[' ∉ s.toList ∧ ']' ∉ s.toList ↔ NoBrackets s :=
  ⟨fun h => ⟨h.1, h.2⟩, fun h => ⟨h.opening, h.closing⟩⟩

instance (s : String) : Decidable (NoBrackets s) := decidable_of_iff _ (noBrackets_iff s)

section RoundTrip
variable {host port : String} (hhost : NoBrackets host) (hport : NoBrackets port)
  (hcolon : ':' ∉ port.toList)
include hhost hport hcolon

theorem splitHostPort_plain (h : ':' ∉ host.toList) :
    splitHostPort (host ++ ":" ++ port) = .ok (host, port) := by
  have htext : (host ++ ":" ++ port).toList = host.toList ++ ':' :: port.toList := by simp
  have hnone : ∀ c : Char, c ≠ ':' → c ∉ host.toList → c ∉ port.toList →
      c ∉ host.toList ++ ':' :: port.toList := by
    intro c hc hh hp hmem
    rcases List.mem_append.mp hmem with hmem | hmem
    · exact hh hmem
    · rcases List.mem_cons.mp hmem with heq | hmem
      · exact hc heq
      · exact hp hmem
  have hopen := hnone '[' (by decide) hhost.opening hport.opening
  have hclose := hnone ']' (by decide) hhost.closing hport.closing
  have hhead : (host.toList ++ ':' :: port.toList).head? ≠ some '[' :=
    fun he => hopen (List.mem_of_mem_head? he)
  have htake : (host.toList ++ ':' :: port.toList).take host.toList.length = host.toList :=
    List.take_left
  have hpart : hostPart (host ++ ":" ++ port) (host.toList ++ ':' :: port.toList)
      host.toList.length = .ok (host.toList, 0, 0) := by
    rw [hostPart, if_neg hhead, htake, if_neg h]
  have hdrop : (host.toList ++ ':' :: port.toList).drop (host.toList.length + 1) = port.toList := by
    simp
  simp only [splitHostPort, htext, lastColon_append hcolon, hpart, List.drop_zero, hopen, hclose,
    if_false, hdrop, String.ofList_toList]

theorem splitHostPort_bracketed :
    splitHostPort ("[" ++ host ++ "]:" ++ port) = .ok (host, port) := by
  have htext : ("[" ++ host ++ "]:" ++ port).toList =
      ('[' :: host.toList) ++ ']' :: ':' :: port.toList := by
    simp
  generalize hcs : ('[' :: host.toList) ++ ']' :: ':' :: port.toList = cs at htext
  have hbracket : cs.idxOf? ']' = some (host.toList.length + 1) := by
    rw [← hcs]
    apply idxOf?_append_cons
    rw [List.mem_cons]
    exact not_or.mpr ⟨by decide, hhost.closing⟩
  have hsplit : cs = ('[' :: host.toList ++ [']']) ++ ':' :: port.toList := by simp [← hcs]
  have hcut : ('[' :: host.toList ++ [']']).length = host.toList.length + 1 + 1 := by simp
  have hlast : lastColon cs = some (host.toList.length + 1 + 1) := by
    rw [hsplit, lastColon_append hcolon, hcut]
  have hlen : host.toList.length + 1 + 1 ≠ cs.length := by
    simp only [← hcs, List.length_append, List.length_cons]
    omega
  have hhead : cs.head? = some '[' := by simp [← hcs]
  have htake : (cs.take (host.toList.length + 1)).drop 1 = host.toList := by simp [← hcs]
  have hpart : hostPart ("[" ++ host ++ "]:" ++ port) cs (host.toList.length + 1 + 1) =
      .ok (host.toList, 1, host.toList.length + 1 + 1) := by
    simp only [hostPart, hhead, hbracket, if_true, if_neg hlen, htake]
  have hopen : '[' ∉ cs.drop 1 := by
    simp [← hcs, hhost.opening, hport.opening]
  have hafter : cs.drop (host.toList.length + 1 + 1) = ':' :: port.toList := by
    rw [hsplit, ← hcut]
    exact List.drop_left
  have hclose : ']' ∉ cs.drop (host.toList.length + 1 + 1) := by
    simp [hafter, hport.closing]
  have hdrop : cs.drop (host.toList.length + 1 + 1 + 1) = port.toList := by
    rw [← List.drop_drop, hafter, List.drop_one, List.tail_cons]
  simp only [splitHostPort, htext, hlast, hpart, hopen, hclose, if_false, hdrop,
    String.ofList_toList]

theorem splitHostPort_joinHostPort : splitHostPort (joinHostPort host port) = .ok (host, port) := by
  unfold joinHostPort
  split
  · exact splitHostPort_bracketed hhost hport hcolon
  · next h => exact splitHostPort_plain hhost hport hcolon h

end RoundTrip

end GoNet
