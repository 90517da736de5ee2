import EventSchema.Pointer
import EventSchema.Regex.Parser
import EventSchema.Schema.Format.Address
import EventSchema.Schema.Format.Moment
import EventSchema.Text.Blank

/-!
# Formats of strings

The named formats that a schema can ask for. A name that is not known asks for nothing.
-/

set_option autoImplicit false

namespace EventSchema.Format

/-- Every tilde is followed by `0` or `1`. -/
def tildesEscaped : List Char → Bool
  | [] => true
  | '~' :: c :: rest => (c = '0' || c = '1') && tildesEscaped rest
  | ['~'] => false
  | _ :: rest => tildesEscaped rest

def isPointer (text : List Char) : Bool :=
  text.isEmpty || (text.head? == some '/' && tildesEscaped text)

/-- A number of steps up, then a hash or a pointer. -/
def isRelativePointer (text : List Char) : Bool :=
  let digits := text.takeWhile Text.isAsciiDigit
  let rest := text.drop digits.length
  !digits.isEmpty && (digits = ['0'] || digits.head? != some '0') &&
    (rest = ['#'] || isPointer rest)

/-- Neither blanks nor backslashes. -/
def isReference (text : List Char) : Bool := text.all fun c ↦ !Text.isBlank c && c ≠ '\\'

def isTemplateName (c : Char) : Bool :=
  Text.isAsciiDigit c || ('a' ≤ c && c ≤ 'z') || c = '_'

def isLowerHex (c : Char) : Bool := Text.isAsciiDigit c || ('a' ≤ c && c ≤ 'f')

def isEscapedText (allowed : Char → Bool) : List Char → Bool
  | [] => true
  | '%' :: a :: b :: rest => isLowerHex a && isLowerHex b && isEscapedText allowed rest
  | c :: rest => allowed c && isEscapedText allowed rest

/-- A variable, perhaps with a length or a star. -/
def isTemplateVariable (text : List Char) : Bool :=
  let name := text.takeWhile fun c ↦ c ≠ ':' && c ≠ '*'
  !name.isEmpty && isEscapedText isTemplateName name &&
    match text.drop name.length with
    | [] | ['*'] => true
    | ':' :: digits =>
      !digits.isEmpty && digits.length ≤ 4 && digits.all Text.isAsciiDigit &&
        digits.head? != some '0'
    | _ => false

def isTemplateExpression (text : List Char) : Bool :=
  let body := match text with
    | c :: rest =>
      if ['+', '#', '.', '/', ';', '?', '&', '=', ',', '!', '@', '|'].contains c then rest else text
    | [] => []
  (Text.split (· = ',') body).all isTemplateVariable

def isTemplateLiteral (c : Char) : Bool :=
  32 < c.toNat && !(['"', Char.ofNat 39, '<', '>', '%', '\\', '^', Char.ofNat 96, '{', '|',
    '}'].contains c)

/-- Literal text and expressions in braces. -/
def isUriTemplate (text : List Char) : Bool :=
  match Text.split (· = '{') text with
  | [] => true
  | literal :: rest =>
    isEscapedText isTemplateLiteral literal && rest.all fun part ↦
      match Text.splitOnce '}' part with
      | some (expression, literal) =>
        isTemplateExpression expression && isEscapedText isTemplateLiteral literal
      | none => false

/-- The test of a format. -/
def test? (name : String) : Option (List Char → Bool) :=
  match name with
  | "date" => some isDate
  | "time" => some isTime
  | "date-time" => some isDateTime
  | "email" | "idn-email" => some isEmail
  | "hostname" | "idn-hostname" => some isHostname
  | "ipv4" => some isIpv4
  | "ipv6" => some isIpv6
  | "uri" | "iri" => some isUrl
  | "uri-reference" | "iri-reference" => some isReference
  | "uri-template" => some isUriTemplate
  | "json-pointer" => some isPointer
  | "relative-json-pointer" => some isRelativePointer
  | "regex" => some fun text ↦ (Regex.parse? (String.ofList text)).isSome
  | _ => none

/-- Whether the text has the named format. -/
def accepts (name text : String) : Bool :=
  match test? name with
  | some test => test text.toList
  | none => true

end EventSchema.Format
