import EventSchema.Fragment.Merge
import EventSchema.Fragment.Weight

/-!
# Expanding fragments

`Fragment.expand` walks a fragment, puts the result of `follow` in place of every reference and the
merge of its members in place of every composition, and keeps all else. Keywords that a fragment
does not interpret are walked as plain JSON, where only a reference or a composition is a node of
its own.
-/

set_option autoImplicit false

namespace EventSchema

variable {m : Type → Type} [Monad m] (follow : String → m Fragment)

mutual

def Fragment.expand : Fragment → m Fragment
  | .any value => do return .any (← value.expand)
  | .primitive kind choices annotations => do
    return .primitive kind (← Json.expandChoices choices) (← Json.expandMembers annotations)
  | .array items annotations => do
    return .array (← Fragment.expandPart items) (← Json.expandMembers annotations)
  | .object properties required additional annotations => do
    return .object (← Fragment.expandProperties properties) required
      (← Fragment.expandPart additional) (← Json.expandMembers annotations)
  | .reference target => follow target
  | .composition members => do return Fragment.mergeAllOf (← Fragment.expandItems members)
termination_by fragment => 4 * fragment.weight + 1
decreasing_by all_goals simp only [Fragment.weight]; omega

def Fragment.expandPart : Option Fragment → m (Option Fragment)
  | none => pure none
  | some fragment => do return some (← fragment.expand)
termination_by part => 4 * Fragment.weightOfPart part + 2
decreasing_by simp only [Fragment.weightOfPart]; omega

def Fragment.expandProperties :
    Option (List (String × Fragment)) → m (Option (List (String × Fragment)))
  | none => pure none
  | some properties => do return some (← Fragment.expandMembers properties)
termination_by properties => 4 * Fragment.weightOfProperties properties + 3
decreasing_by simp only [Fragment.weightOfProperties]; omega

def Fragment.expandItems : List Fragment → m (List Fragment)
  | [] => pure []
  | fragment :: rest => do return (← fragment.expand) :: (← Fragment.expandItems rest)
termination_by items => 4 * Fragment.weightOfItems items + 2
decreasing_by
  all_goals
    have := fragment.weight_pos
    simp only [Fragment.weightOfItems]; omega

def Fragment.expandMembers : List (String × Fragment) → m (List (String × Fragment))
  | [] => pure []
  | (name, fragment) :: rest => do
    return (name, ← fragment.expand) :: (← Fragment.expandMembers rest)
termination_by members => 4 * Fragment.weightOfMembers members + 2
decreasing_by
  all_goals
    have := fragment.weight_pos
    simp only [Fragment.weightOfMembers]; omega

/-- Expands the references and compositions inside a value. -/
def Json.expand : Json → m Json
  | .object members =>
    if h : Json.isUnresolvedNode members then
      have := Fragment.weight_ofJson_lt h
      return (← (Fragment.ofJson (.object members)).expand).toJson
    else do return .object (← Json.expandMembers members)
  | .array items => do return .array (← Json.expandItems items)
  | value => pure value
termination_by value => 4 * value.weight
decreasing_by
  all_goals simp only [Json.weight] at *; omega

def Json.expandItems : List Json → m (List Json)
  | [] => pure []
  | item :: rest => do return (← item.expand) :: (← Json.expandItems rest)
termination_by items => 4 * Json.weightOfItems items + 1
decreasing_by
  all_goals
    have := item.weight_pos
    simp only [Json.weightOfItems]; omega

def Json.expandMembers : List (String × Json) → m (List (String × Json))
  | [] => pure []
  | (key, value) :: rest => do return (key, ← value.expand) :: (← Json.expandMembers rest)
termination_by members => 4 * Json.weightOfMembers members + 1
decreasing_by
  all_goals
    have := value.weight_pos
    simp only [Json.weightOfMembers]; omega

def Json.expandChoices : Option (List Json) → m (Option (List Json))
  | none => pure none
  | some choices => do return some (← Json.expandItems choices)
termination_by choices => 4 * Json.weightOfItems (choices.getD []) + 2
decreasing_by simp only [Option.getD_some]; omega

end

end EventSchema
