import EventSchema.Language

/-!
# What a watcher looks at

The directory that holds every file a pattern can match, and the extensions of schema files.
-/

set_option autoImplicit false

namespace EventSchema.Watch

def isWildcard (c : Char) : Bool :=
  c = '*' || c = '?' || c = '[' || c = '{'

def Component.hasWildcard : Path.Component → Bool
  | .name text => text.toList.any isWildcard
  | _ => false

/-- The components in front of the first wildcard; without one, the directory as spelled. -/
def root (pattern : Path) : Path :=
  let components := pattern.components
  let base :=
    if components.any Component.hasWildcard then
      Path.ofComponents (components.takeWhile fun part ↦ !Component.hasWildcard part)
    else pattern.spelledDirectory
  if base.text = "" then ⟨"."⟩ else base

def schemaExtensions : List String := ["json", "yaml", "yml"]

def isSchemaFile (path : Path) : Bool :=
  match path.extension? with
  | some extension => schemaExtensions.contains (Language.lower extension.toList)
  | none => false

end EventSchema.Watch
