import EventSchema.Json.Printer
import EventSchema.Text

/-!
# TypeScript literals

String literals are JSON strings, and a property key is quoted unless it is an identifier.
-/

set_option autoImplicit false

namespace EventSchema.TypeScript

/-- Reserved and strict-mode words, and the names of the primitive types. -/
def reservedWords : List String := [
  "any", "arguments", "boolean", "break", "case", "catch", "class", "const", "continue",
  "debugger", "default", "delete", "do", "else", "enum", "eval", "export", "extends", "false",
  "finally", "for", "function", "if", "implements", "import", "in", "instanceof", "interface",
  "let", "never", "new", "null", "number", "package", "private", "protected", "public",
  "return", "static", "string", "super", "switch", "symbol", "this", "throw", "true", "try",
  "typeof", "undefined", "unknown", "var", "void", "while", "with", "yield"]

def isIdentifierStart (c : Char) : Bool := Text.isAsciiLetter c || c = '_' || c = '$'

def isIdentifierChar (c : Char) : Bool := isIdentifierStart c || Text.isAsciiDigit c

/-- Whether the name can be a property key without quotes. -/
def isIdentifier (name : String) : Bool :=
  match name.toList with
  | [] => false
  | first :: rest => isIdentifierStart first && rest.all isIdentifierChar

def quote (text : String) : String := String.ofList (Json.quote text)

def propertyKey (name : String) : String := if isIdentifier name then name else quote name

/-- Breaks every end of a comment in the text. -/
def commentChars : List Char → List Char
  | '*' :: '/' :: rest => '*' :: '\\' :: '/' :: commentChars rest
  | c :: rest => c :: commentChars rest
  | [] => []

def comment (text : String) : String := String.ofList (commentChars text.toList)

end EventSchema.TypeScript
