import EventSchema.Text
import EventSchema.Text.Alphanumeric
import EventSchema.Text.Blank
import EventSchema.Text.LetterCase

/-!
# Type names

The name of the type that is generated for an event: the words of the event name, each with its
first letter in upper case and the others in lower case, without what is not alphanumeric.
-/

set_option autoImplicit false

namespace EventSchema.TypeName

def isSeparator (c : Char) : Bool := c = '-' || c = '_' || c = '.' || Text.isBlank c

def capitalize (word : List Char) : List Char :=
  match word.filter Text.isAlphanumeric with
  | [] => []
  | first :: rest => Text.toUpper first ++ rest.flatMap Text.toLower

/-- A leading digit is hidden behind a word. -/
def guardDigit (name : List Char) : List Char :=
  match name with
  | first :: _ => if Text.isAsciiDigit first then "Event".toList ++ name else name
  | [] => []

def ofChars (eventName : List Char) : List Char :=
  guardDigit ((Text.split isSeparator eventName).flatMap capitalize) ++ "Properties".toList

def ofEvent (eventName : String) : String := String.ofList (ofChars eventName.toList)

end EventSchema.TypeName
