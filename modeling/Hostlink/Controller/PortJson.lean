import Hostlink.Controller.Ports

/-! What `json.Marshal` writes for a mapping can be read back. -/

namespace Hostlink.Controller
open GoJson

def errMappingText : GoError := .new "not the text of a mapping"

/-- A member of the object is stored in its field; others are ignored. -/
def PortMapping.setField (m : PortMapping) : String × Scalar → PortMapping
  | (name, .text s) =>
    if name = "agent_id" then { m with agentId := s }
    else if name = "target" then { m with target := s }
    else if name = "container_id" then { m with containerId := s }
    else m
  | (name, .flag b) => if name = "suspended" then { m with suspended := b } else m

def PortMapping.unmarshal (value : String) : Except GoError PortMapping :=
  match value.toList with
  | '\x7b' :: rest =>
    match readMembers rest.length rest with
    | some members => .ok (members.foldl PortMapping.setField { agentId := "", target := "" })
    | none => .error errMappingText
  | _ => .error errMappingText

theorem PortMapping.unmarshal_of_members {value : String} {rest : List Char}
    {members : List (String × Scalar)} (h : value.toList = '\x7b' :: rest)
    (hmembers : readMembers rest.length rest = some members) :
    unmarshal value = .ok (members.foldl setField { agentId := "", target := "" }) := by
  have hmatch : unmarshal value =
      match readMembers rest.length rest with
      | some members => .ok (members.foldl setField { agentId := "", target := "" })
      | none => .error errMappingText := by
    rw [unmarshal, h]
    rfl
  rw [hmatch, hmembers]

def memberText (name value : String) : List Char :=
  '"' :: (name.toList.flatMap escapeRune ++
    '"' :: ':' :: '"' :: (value.toList.flatMap escapeRune ++ ['"']))

theorem memberText_append (name value : String) (rest : List Char) :
    memberText name value ++ rest = '"' :: (name.toList.flatMap escapeRune ++
      '"' :: ':' :: '"' :: (value.toList.flatMap escapeRune ++ '"' :: rest)) := by
  simp [memberText]

theorem readMembers_memberText_comma (fuel : Nat) (name value : String) (rest : List Char) :
    readMembers (fuel + 1) (memberText name value ++ ',' :: rest) =
      (readMembers fuel rest).map ((name, .text value) :: ·) := by
  rw [memberText_append, readMembers, readString_escape, Option.bind_some]
  simp only [readScalar, readString_escape, Option.map_some, Option.bind_some, String.ofList_toList]

theorem readMembers_memberText_close (fuel : Nat) (name value : String) :
    readMembers (fuel + 1) (memberText name value ++ ['\x7d']) = some [(name, .text value)] := by
  rw [memberText_append, readMembers, readString_escape, Option.bind_some]
  simp only [readScalar, readString_escape, Option.map_some, Option.bind_some, String.ofList_toList]

theorem toList_quote (s : String) :
    (quote s).toList = '"' :: (s.toList.flatMap escapeRune ++ ['"']) := by
  simp [quote]

theorem PortMapping.toList_marshal (m : PortMapping) : m.marshal.toList =
    '\x7b' :: (memberText "agent_id" m.agentId ++ ',' :: (memberText "target" m.target ++
      ((if m.containerId = "" then [] else ',' :: memberText "container_id" m.containerId) ++
        (if m.suspended then ",\"suspended\":true".toList else []) ++ ['\x7d']))) := by
  have hname : ∀ name : String, name ∈ ["agent_id", "target", "container_id"] →
      name.toList.flatMap escapeRune = name.toList := by decide
  delta marshal
  simp only [String.toList_append, toList_quote, memberText,
    hname "agent_id" (by simp), hname "target" (by simp), hname "container_id" (by simp)]
  by_cases hc : m.containerId = "" <;> by_cases hs : m.suspended = true <;> simp [hc, hs, toList_quote]

theorem readMembers_suspended (fuel : Nat) :
    readMembers (fuel + 1) ("\"suspended\":true".toList ++ ['\x7d']) =
      some [("suspended", .flag true)] := rfl

theorem readMembers_optional (fuel : Nat) (name value containerId : String) (suspended : Bool) :
    readMembers (fuel + 3) (memberText name value ++
      ((if containerId = "" then [] else ',' :: memberText "container_id" containerId) ++
        (if suspended then ",\"suspended\":true".toList else []) ++ ['\x7d'])) =
      some ((name, .text value) ::
        ((if containerId = "" then [] else [("container_id", .text containerId)]) ++
          if suspended then [("suspended", .flag true)] else [])) := by
  by_cases hc : containerId = ""
  · cases suspended with
    | false =>
      rw [if_pos hc, if_pos hc]
      exact readMembers_memberText_close ..
    | true =>
      have hrest := readMembers_suspended (fuel + 1)
      rw [if_pos hc, if_pos hc]
      exact (readMembers_memberText_comma ..).trans (congrArg (Option.map _) hrest)
  · cases suspended with
    | false =>
      have hrest := readMembers_memberText_close (fuel + 1) "container_id" containerId
      rw [if_neg hc, if_neg hc, List.append_assoc, List.cons_append, readMembers_memberText_comma]
      exact congrArg (Option.map _) hrest
    | true =>
      have hrest := readMembers_memberText_comma (fuel + 1) "container_id" containerId
        ("\"suspended\":true".toList ++ ['\x7d'])
      rw [readMembers_suspended fuel] at hrest
      rw [if_neg hc, if_neg hc, List.append_assoc, List.cons_append, readMembers_memberText_comma]
      exact congrArg (Option.map _) hrest

theorem four_le_length_memberText (name value : String) : 4 ≤ (memberText name value).length := by
  simp only [memberText, List.length_cons, List.length_append, List.length_nil]
  omega

theorem PortMapping.unmarshal_marshal (m : PortMapping) : unmarshal m.marshal = .ok m := by
  obtain ⟨fuel, hfuel⟩ : ∃ fuel, (memberText "agent_id" m.agentId ++ ',' :: (memberText "target"
      m.target ++ ((if m.containerId = "" then [] else ',' :: memberText "container_id" m.containerId) ++
        (if m.suspended then ",\"suspended\":true".toList else []) ++ ['\x7d']))).length =
      fuel + 4 := by
    refine ⟨_, (Nat.sub_add_cancel ?_).symm⟩
    rw [List.length_append]
    exact Nat.le_add_right_of_le (four_le_length_memberText _ _)
  have hmembers := readMembers_optional fuel "target" m.target m.containerId m.suspended
  rw [unmarshal_of_members m.toList_marshal
    (by rw [hfuel, readMembers_memberText_comma, hmembers, Option.map_some])]
  obtain ⟨agentId, target, containerId, suspended⟩ := m
  by_cases hc : containerId = ""
  · subst hc
    cases suspended <;> rfl
  · cases suspended <;> simp [hc, setField]

end Hostlink.Controller
