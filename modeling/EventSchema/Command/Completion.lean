import EventSchema.Command.Report

/-!
# Completion for shells
-/

set_option autoImplicit false

namespace EventSchema

inductive Shell where
  | bash
  | zsh
  | fish
  | powershell
  | elvish
deriving DecidableEq, Repr

namespace Shell

/-- Reads a name in any case. -/
def ofName (name : String) : Except CommandError Shell :=
  match Language.lower name.toList with
  | "" => .error .shellMissing
  | "bash" => .ok bash
  | "zsh" => .ok zsh
  | "fish" => .ok fish
  | "powershell" => .ok powershell
  | "elvish" => .ok elvish
  | _ => .error (.unsupportedShell name)

def commandNames : List String := ["generate", "init", "validate", "watch", "completion", "help"]

/-- A script that completes the names of the commands. -/
def script (shell : Shell) : String :=
  let words := " ".intercalate commandNames
  match shell with
  | bash => s!"complete -W '{words}' hogtyped"
  | zsh => s!"compdef '_arguments \"1:command:({words})\"' hogtyped"
  | fish => s!"complete -c hogtyped -f -n __fish_use_subcommand -a '{words}'"
  | powershell =>
    let quoted := commandNames.map fun name ↦ "'" ++ name ++ "'"
    "Register-ArgumentCompleter -Native -CommandName hogtyped -ScriptBlock \x7b " ++
      ", ".intercalate quoted ++ " \x7d"
  | elvish =>
    "set edit:completion:arg-completer[hogtyped] = \x7b|@words| put " ++ words ++ " \x7d"

end Shell

namespace Completion

def run (name : String) : Report :=
  match Shell.ofName name with
  | .ok shell => { output := [shell.script] }
  | .error error => Report.failed "Completion generation failed" error

end Completion

end EventSchema
