import EventSchema.Json.Printer
import EventSchema.Text

/-!
# Python literals

JSON values as Python expressions. A list of scalars stays on one line; other lists and all
dictionaries take a line for every entry, indented from the given level.
-/

set_option autoImplicit false

namespace EventSchema.Python

def keywords : List String := [
  "False", "None", "True", "and", "as", "assert", "async", "await", "break", "class",
  "continue", "def", "del", "elif", "else", "except", "finally", "for", "from", "global",
  "if", "import", "in", "is", "lambda", "nonlocal", "not", "or", "pass", "raise", "return",
  "try", "while", "with", "yield"]

def isIdentifierStart (c : Char) : Bool := Text.isAsciiLetter c || c = '_'

def isIdentifierChar (c : Char) : Bool := isIdentifierStart c || Text.isAsciiDigit c

/-- Whether the name can be that of an attribute: an ASCII identifier, and no keyword. -/
def isIdentifier (name : String) : Bool :=
  match name.toList with
  | [] => false
  | first :: rest => isIdentifierStart first && rest.all isIdentifierChar && !keywords.contains name

def isControl (c : Char) : Bool := c.toNat < 0x20 || (0x7F ≤ c.toNat && c.toNat < 0xA0)

def escapeChar (c : Char) : List Char :=
  if c = '"' then ['\\', '"']
  else if c = '\\' then ['\\', '\\']
  else if c = '\n' then ['\\', 'n']
  else if c = '\r' then ['\\', 'r']
  else if c = '\t' then ['\\', 't']
  else if isControl c then
    ['\\', 'u', '0', '0', Json.hexDigit (c.toNat / 16), Json.hexDigit (c.toNat % 16)]
  else [c]

def quoteChars (text : List Char) : List Char := '"' :: text.flatMap escapeChar ++ ['"']

/-- A string literal in double quotes. -/
def quote (text : String) : String := String.ofList (quoteChars text.toList)

/-- In a docstring every quote is escaped, so that none can join the closing ones. -/
def docstringChars (text : List Char) : List Char :=
  text.flatMap fun c ↦ if c = '\\' then ['\\', '\\'] else if c = '"' then ['\\', '"'] else [c]

def docstring (text : String) : String := String.ofList (docstringChars text.toList)

def isScalar : Json → Bool
  | .array _ | .object _ => false
  | _ => true

def scalarChars : Json → List Char
  | .null => "None".toList
  | .bool true => "True".toList
  | .bool false => "False".toList
  | .number n => n.text
  | .string text => quoteChars text.toList
  | .array _ => "[]".toList
  | .object _ => ['{', '}']

def indent (level : Nat) : List Char := List.replicate (4 * level) ' '

mutual

def literalChars (level : Nat) : Json → List Char
  | .array (item :: rest) =>
    if (item :: rest).all isScalar then '[' :: inlineItems true (item :: rest) ++ [']']
    else '[' :: itemLines (level + 1) true (item :: rest) ++ '\n' :: indent level ++ [']']
  | .object (entry :: rest) =>
    '{' :: memberLines (level + 1) true (entry :: rest) ++ '\n' :: indent level ++ ['}']
  | value => scalarChars value

/-- Scalars with commas between them. -/
def inlineItems (first : Bool) : List Json → List Char
  | [] => []
  | item :: rest =>
    (if first then [] else [',', ' ']) ++ scalarChars item ++ inlineItems false rest

def itemLines (level : Nat) (first : Bool) : List Json → List Char
  | [] => []
  | item :: rest =>
    (if first then [] else [',']) ++ '\n' :: indent level ++ literalChars level item ++
      itemLines level false rest

def memberLines (level : Nat) (first : Bool) : List (String × Json) → List Char
  | [] => []
  | (key, value) :: rest =>
    (if first then [] else [',']) ++ '\n' :: indent level ++ quoteChars key.toList ++
      ':' :: ' ' :: literalChars level value ++ memberLines level false rest

end

/-- The value as an expression whose first line is indented by `level` steps. -/
def literal (value : Json) (level : Nat) : String := String.ofList (literalChars level value)

end EventSchema.Python
