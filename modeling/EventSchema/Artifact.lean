import EventSchema.Language
import EventSchema.Python.Artifact
import EventSchema.TypeScript.Artifact

/-!
# Artifacts

The text that is generated for a plan. In JSON it is the bare schema table.
-/

set_option autoImplicit false

namespace EventSchema.Plan

def tableText (plan : Plan) : String := (Json.object plan.schemas).pretty ++ "\n"

def render (plan : Plan) : Language → String
  | .python => Python.render plan
  | .typescript => TypeScript.render plan
  | .json => tableText plan

end EventSchema.Plan
