import Mathlib.Tactic.Common

/-! Go's error values: what `errors.New`, `fmt.Errorf` with `%w`, `errors.Join` and
`errors.Is` make of them. A value of the library or the operating system is its text. -/

inductive GoError where
  | new (text : String)
  | wrap (text : String) (cause : GoError)
  | join (first second : GoError)
  deriving DecidableEq, Repr

namespace GoError

/-- `errors.Is e target`: the chain of causes of `e` holds `target`. -/
def is : GoError → GoError → Bool
  | e@(new _), target => e = target
  | e@(wrap _ cause), target => e = target || cause.is target
  | e@(join first second), target => e = target || first.is target || second.is target

/-- `errors.Join` with a possibly nil second argument. -/
def joinOption (e : GoError) : Option GoError → GoError
  | none => e
  | some e' => .join e e'

/-- `errors.Join`: nil errors are left out. -/
def joinAll : List (Option GoError) → Option GoError
  | [] => none
  | none :: errs => joinAll errs
  | some err :: errs => some (err.joinOption (joinAll errs))

def text : GoError → String
  | new text => text
  | wrap text cause => text ++ ": " ++ cause.text
  | join first second => first.text ++ "\n" ++ second.text

theorem bind_eq_ok {α β : Type} {r : Except GoError α} {f : α → Except GoError β} {b : β} :
    (r >>= f) = .ok b ↔ ∃ a, r = .ok a ∧ f a = .ok b := by
  cases r with
  | error err =>
    constructor
    · rintro ⟨⟩
    · rintro ⟨a, ⟨⟩, -⟩
  | ok a =>
    constructor
    · exact fun h => ⟨a, rfl, h⟩
    · rintro ⟨a', ha, h⟩
      obtain rfl := Except.ok.inj ha
      exact h

theorem mapError_eq_ok {α : Type} {f : GoError → GoError} {r : Except GoError α} {a : α} :
    r.mapError f = .ok a ↔ r = .ok a := by
  cases r <;> simp [Except.mapError]

def eof : GoError := .new "EOF"
def errShortWrite : GoError := .new "short write"

end GoError
