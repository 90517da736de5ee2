import EventSchema.FileSystem
import EventSchema.Glob

/-!
# The paths that match a pattern

A pattern is expanded name by name. Names without wildcards are looked up and not searched for, so
they may also be dots.
-/

set_option autoImplicit false

namespace EventSchema.Glob

variable {m : Type → Type} [Monad m] [FileSystem m]

/-- No path leads through more directories. -/
def depthLimit : Nat := 4096

/-- A name in a directory; the working directory is not spelled out. -/
def below (directory : Path) (name : String) : Path :=
  if directory.same ⟨"."⟩ then ⟨name⟩ else directory.join ⟨name⟩

/-- What is in a directory, as paths; nothing where there is no directory. -/
def childrenOf (path : Path) : ExceptT Fault m (List Path) := do
  if ← (FileSystem.isDirectory path : m Bool) then
    let names ← ExceptT.mk (FileSystem.names path : m (Except Fault (List String)))
    return names.map (below path)
  else return []

def matchesPath (tokens : List Token) (path : Path) : Bool :=
  match path.fileName? with
  | some name => matchesName tokens name.toList
  | none => false

/-- The dots that match a pattern with a dot in front. -/
def dotsIn (tokens : List Token) (path : Path) : List Path :=
  if tokens.head? = some (.literal '.') then
    ([".", ".."].filter fun dots ↦ matchesName tokens dots.toList).map fun dots ↦ path.join ⟨dots⟩
  else []

/-- Visits a path and all that is below it. With `last`, the directories themselves are wanted. -/
def descend (visit : Path → ExceptT Fault m (List Path)) (last : Bool) :
    Nat → Path → ExceptT Fault m (List Path)
  | 0, _ => return []
  | depth + 1, path => do
    let isDirectory ← (FileSystem.isDirectory path : m Bool)
    let inner ← (← childrenOf path).mapM (descend visit last depth)
    let own ← if last then pure (if isDirectory then [path] else []) else visit path
    return own ++ inner.flatten

/-- The paths below a directory that match the components. -/
def expandFrom : List Component → Path → ExceptT Fault m (List Path)
  | [], path => return [path]
  | .name text :: rest, path => do
    let next := below path text
    let found ←
      if text = "." || text = ".." then (FileSystem.isDirectory path : m Bool)
      else (FileSystem.pathExists next : m Bool)
    if found then expandFrom rest next else return []
  | .wildcard tokens :: rest, path => do
    let matching := (← childrenOf path).filter (matchesPath tokens)
    let dots := if ← (FileSystem.isDirectory path : m Bool) then dotsIn tokens path else []
    return (← (dots ++ matching).mapM (expandFrom rest)).flatten
  | [.anyDirectories], path => do
    let found ← (← childrenOf path).mapM (descend (fun _ ↦ return []) true depthLimit)
    return found.flatten
  | .anyDirectories :: component :: rest, path => do
    let visit (child : Path) : ExceptT Fault m (List Path) :=
      if matchesPath component.tokens child then expandFrom rest child else return []
    let found ← (← childrenOf path).mapM (descend visit false depthLimit)
    return found.flatten

/-- The paths that match, in the order of the search. -/
def expand (glob : Glob) : ExceptT Fault m (List Path) := do
  let found ← expandFrom glob.components ⟨if glob.absolute then "/" else "."⟩
  if glob.onlyDirectories then
    found.filterM fun path ↦ (FileSystem.isDirectory path : m Bool)
  else return found

end EventSchema.Glob
