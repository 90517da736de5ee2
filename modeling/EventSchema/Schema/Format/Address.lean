import EventSchema.Text
import EventSchema.Text.Alphanumeric

/-!
# Addresses

Mail addresses, host names, addresses of the internet protocol, and absolute URLs.
-/

set_option autoImplicit false

namespace EventSchema.Format

/-- Whether a sign comes, behind something, with neither two dots nor a dot and the sign in front.
What follows the sign is not looked at. -/
def reachesSign : List Char → Bool
  | '.' :: '.' :: _ | '.' :: '@' :: _ => false
  | _ :: '@' :: _ => true
  | _ :: rest => reachesSign rest
  | [] => false

/-- A part in front of a sign that neither starts nor ends with a dot and has no two in a row. -/
def isEmail (text : List Char) : Bool := text.head? != some '.' && reachesSign text

def isHostname (text : List Char) : Bool :=
  !text.isEmpty && text.head? != some '-' && text.getLast? != some '-' && text.length ≤ 255 &&
    text.all (fun c ↦ Text.isAlphanumeric c || c = '-' || c = '.') &&
    (Text.split (· = '.') text).all fun part ↦ part.length ≤ 63

/-- A number below 256 without leading zeros. -/
def isOctet (text : List Char) : Bool :=
  text.length ≤ 3 && (text.length = 1 || text.head? != some '0') &&
    match Text.digits? text with
    | some n => n < 256
    | none => false

def isDottedQuad (text : List Char) : Bool :=
  let parts := Text.split (· = '.') text
  parts.length = 4 && parts.all isOctet

/-- Four octets, of which the first is not zero. -/
def isIpv4 (text : List Char) : Bool := text.head? != some '0' && isDottedQuad text

def isHexDigit (c : Char) : Bool :=
  Text.isAsciiDigit c || ('a' ≤ c && c ≤ 'f') || ('A' ≤ c && c ≤ 'F')

def isHexGroup (text : List Char) : Bool :=
  1 ≤ text.length && text.length ≤ 4 && text.all isHexDigit

/-- The number of 16-bit groups that are written, where the last two may be a dotted quad. -/
def groupCount? : List (List Char) → Option Nat
  | [] => some 0
  | [part] => if isHexGroup part then some 1 else if isDottedQuad part then some 2 else none
  | part :: rest => if isHexGroup part then (groupCount? rest).map (· + 1) else none

/-- The texts around the first double colon. -/
def splitAtGap : List Char → Option (List Char × List Char)
  | ':' :: ':' :: rest => some ([], rest)
  | c :: rest => (splitAtGap rest).map fun (before, after) ↦ (c :: before, after)
  | [] => none

def groups (text : List Char) : List (List Char) :=
  if text.isEmpty then [] else Text.split (· = ':') text

def isIpv6 (text : List Char) : Bool :=
  match splitAtGap text with
  | none => groupCount? (groups text) == some 8
  | some (before, after) =>
    (groups before).all isHexGroup &&
      match groupCount? (groups before), groupCount? (groups after) with
      | some m, some n => m + n ≤ 7
      | _, _ => false

/-! ### Absolute URLs -/

def isSchemeChar (c : Char) : Bool :=
  Text.isAsciiLetter c || Text.isAsciiDigit c || c = '+' || c = '-' || c = '.'

/-- Characters that no host has. -/
def isForbiddenInHost (c : Char) : Bool :=
  c.toNat ≤ 32 || c.toNat = 127 ||
    ['#', '/', ':', '<', '>', '?', '@', '[', '\\', ']', '^', '|'].contains c

def isPort (text : List Char) : Bool :=
  text.isEmpty || match Text.digits? text with
    | some n => n < 65536
    | none => false

/-- The host and the port of an authority, which may have credentials in front. -/
def hostAndPort (authority : List Char) : List Char × List Char :=
  let reversed := authority.reverse
  let server := (reversed.takeWhile (· ≠ '@')).reverse
  let port := (server.reverse.takeWhile fun c ↦ c ≠ ':' && c ≠ ']').reverse
  if port.length < server.length && (server.reverse.drop port.length).head? = some ':' then
    (server.take (server.length - port.length - 1), port)
  else (server, [])

def isBracketedHost (host : List Char) : Bool :=
  match host with
  | '[' :: rest => rest.getLast? == some ']' && isIpv6 rest.dropLast
  | _ => false

/-- A host of one of the schemes of the web. One whose last part is a number is an address. -/
def isWebHost (host : List Char) : Bool :=
  isBracketedHost host ||
    (!host.isEmpty && host.all (fun c ↦ !isForbiddenInHost c && c ≠ '%') &&
      match (Text.split (· = '.') host).getLast? with
      | some last =>
        if !last.isEmpty && last.all Text.isAsciiDigit then
          isDottedQuad host || (Text.split (· = '.') host).length ≤ 3
        else true
      | none => true)

def isOpaqueHost (host : List Char) : Bool :=
  isBracketedHost host || host.all fun c ↦ !isForbiddenInHost c

def webSchemes : List String := ["http", "https", "ws", "wss", "ftp"]

/-- Whether a scheme and what it needs are there. -/
def isUrl (text : List Char) : Bool :=
  let isPadding (c : Char) : Bool := c.toNat ≤ 32
  let trimmed := ((text.dropWhile isPadding).reverse.dropWhile isPadding).reverse
  let trimmed := trimmed.filter fun c ↦ c ≠ '\t' && c ≠ '\n' && c ≠ '\r'
  match Text.splitOnce ':' trimmed with
  | none => false
  | some (scheme, rest) =>
    let schemeName := String.ofList (scheme.map Text.lowerAscii)
    scheme.head?.any Text.isAsciiLetter && scheme.all isSchemeChar &&
      if webSchemes.contains schemeName then
        let authority := (rest.dropWhile fun c ↦ c = '/' || c = '\\').takeWhile fun c ↦
          c ≠ '/' && c ≠ '\\' && c ≠ '?' && c ≠ '#'
        let (host, port) := hostAndPort authority
        isWebHost host && isPort port
      else if schemeName = "file" then true
      else match rest with
        | '/' :: '/' :: rest =>
          let authority := rest.takeWhile fun c ↦ c ≠ '/' && c ≠ '?' && c ≠ '#'
          let (host, port) := hostAndPort authority
          isOpaqueHost host && isPort port && (authority.isEmpty || !host.isEmpty)
        | _ => true

end EventSchema.Format
