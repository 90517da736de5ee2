import EventSchema.Fragment.Weight

/-!
# The references that an expansion follows

The texts of the references of a fragment that stand where a schema may stand, in the order in
which they are met. What stands beside a reference or a composition is not searched, and neither
are the keys of a property map.
-/

set_option autoImplicit false

namespace EventSchema

mutual

/-- The references that the expansion of the fragment follows, in order. -/
def Fragment.followed : Fragment → List String
  | .any value => value.followed
  | .primitive _ choices annotations =>
    Json.followedInChoices choices ++ Json.followedInMembers annotations
  | .array items annotations =>
    Fragment.followedInPart items ++ Json.followedInMembers annotations
  | .object properties _ additional annotations =>
    Fragment.followedInProperties properties ++ Fragment.followedInPart additional ++
      Json.followedInMembers annotations
  | .reference target => [target]
  | .composition members => Fragment.followedInItems members
termination_by fragment => 4 * fragment.weight + 1
decreasing_by all_goals simp only [Fragment.weight]; omega

def Fragment.followedInPart : Option Fragment → List String
  | none => []
  | some fragment => fragment.followed
termination_by part => 4 * Fragment.weightOfPart part + 2
decreasing_by simp only [Fragment.weightOfPart]; omega

def Fragment.followedInProperties : Option (List (String × Fragment)) → List String
  | none => []
  | some properties => Fragment.followedInMembers properties
termination_by properties => 4 * Fragment.weightOfProperties properties + 3
decreasing_by simp only [Fragment.weightOfProperties]; omega

def Fragment.followedInItems : List Fragment → List String
  | [] => []
  | fragment :: rest => fragment.followed ++ Fragment.followedInItems rest
termination_by items => 4 * Fragment.weightOfItems items + 2
decreasing_by
  all_goals
    have := fragment.weight_pos
    simp only [Fragment.weightOfItems]; omega

def Fragment.followedInMembers : List (String × Fragment) → List String
  | [] => []
  | (_, fragment) :: rest => fragment.followed ++ Fragment.followedInMembers rest
termination_by members => 4 * Fragment.weightOfMembers members + 2
decreasing_by
  all_goals
    have := fragment.weight_pos
    simp only [Fragment.weightOfMembers]; omega

/-- The references that the expansion of the value follows, in order. -/
def Json.followed : Json → List String
  | .object members =>
    if h : Json.isUnresolvedNode members then
      have := Fragment.weight_ofJson_lt h
      (Fragment.ofJson (.object members)).followed
    else Json.followedInMembers members
  | .array items => Json.followedInItems items
  | _ => []
termination_by value => 4 * value.weight
decreasing_by
  all_goals simp only [Json.weight] at *; omega

def Json.followedInItems : List Json → List String
  | [] => []
  | item :: rest => item.followed ++ Json.followedInItems rest
termination_by items => 4 * Json.weightOfItems items + 1
decreasing_by
  all_goals
    have := item.weight_pos
    simp only [Json.weightOfItems]; omega

def Json.followedInMembers : List (String × Json) → List String
  | [] => []
  | (_, value) :: rest => value.followed ++ Json.followedInMembers rest
termination_by members => 4 * Json.weightOfMembers members + 1
decreasing_by
  all_goals
    have := value.weight_pos
    simp only [Json.weightOfMembers]; omega

def Json.followedInChoices : Option (List Json) → List String
  | none => []
  | some choices => Json.followedInItems choices
termination_by choices => 4 * Json.weightOfItems (choices.getD []) + 2
decreasing_by simp only [Option.getD_some]; omega

end

end EventSchema
