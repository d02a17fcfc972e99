import LineScript.Error
import LineScript.Locator.Path
import LineScript.Text.Digit

/-!
# Authorities of addresses

An authority names a host, with a user before it and a port behind it where they are given.
The host is a name, or a numeric address of the longer form in brackets.  Brackets come in
pairs and hold nothing else, nothing stands before them, and only a port stands behind them.
No character of an authority may stand for one of the marks that divide an address when it
is written in its compatible form.

## Main definitions

* `Authority.isShort`, `Authority.isLong` — the two forms of numeric addresses.
* `Authority.hidesMark` — characters that stand for a dividing mark.
* `Authority.bracketed` — what the brackets of an authority hold.
* `Authority.check` — why an authority is refused.
-/

namespace LineScript
namespace Authority

/-! ### Numeric addresses -/

/-- A number below 256, in at most three digits and without a needless zero. -/
def isOctet (s : List Char) : Bool :=
  !s.isEmpty && s.length ≤ 3 && s.all Char.isDigit && (s.length == 1 || s.head? != some '0') &&
    readNat s ≤ 255

/-- Four numbers with points between them. -/
def isShort (s : List Char) : Bool :=
  let parts := splitOn '.' s
  parts.length == 4 && parts.all isOctet

/-- A hexadecimal digit. -/
def isHexDigit (c : Char) : Bool :=
  c.isDigit || ('a' ≤ c && c ≤ 'f') || ('A' ≤ c && c ≤ 'F')

/-- One to four hexadecimal digits. -/
def isGroup (s : List Char) : Bool := !s.isEmpty && s.length ≤ 4 && s.all isHexDigit

/-- How many groups a long address has. -/
def groupTotal : Nat := 8

/-- The parts of a long address in which an address of the short form at the end has become
two groups; nothing when it is malformed. -/
def withoutShort (parts : List (List Char)) : Option (List (List Char)) :=
  match parts.getLast? with
  | some last =>
    if last.contains '.' then
      if isShort last then some (parts.dropLast ++ [['0'], ['0']]) else none
    else some parts
  | none => some parts

/-- How many groups stand on one side of a gap: none where the address begins or ends with
the gap. -/
def sideGroups? (side : List (List Char)) : Option Nat :=
  if side == [[]] then some 0 else if side.all isGroup then some side.length else none

/-- Groups between colons: all of them, or fewer with one gap. -/
def isGrouped (parts : List (List Char)) : Bool :=
  let inner := parts.drop 1 |>.dropLast
  match inner.count [] with
  | 0 => parts.length == groupTotal && parts.all isGroup
  | 1 =>
    let before := inner.takeWhile fun p => !p.isEmpty
    match sideGroups? (parts.take (before.length + 1)), sideGroups? (parts.drop (before.length + 2)) with
    | some m, some n => m + n < groupTotal
    | _, _ => false
  | _ => false

/-- A numeric address of the long form, without a zone. -/
def isLongBare (s : List Char) : Bool :=
  let parts := splitOn ':' s
  3 ≤ parts.length &&
    match withoutShort parts with
    | some parts => parts.length ≤ groupTotal + 1 && isGrouped parts
    | none => false

/-- A numeric address of the long form; a zone may follow it behind a percent sign. -/
def isLong (s : List Char) : Bool :=
  match s.span (· != '%') with
  | (address, []) => isLongBare address
  | (address, _ :: zone) => !zone.isEmpty && !zone.contains '%' && isLongBare address

/-- An address of a form to come: a version in hexadecimal digits, a point and anything. -/
def isFuture (s : List Char) : Bool :=
  match (s.drop 1).span isHexDigit with
  | (_ :: _, '.' :: _ :: _) => true
  | _ => false

/-- Why what stands in brackets is refused. -/
def checkBracketed (s : List Char) : Except Fault Unit :=
  if s.head? == some 'v' then
    if isFuture s then .ok () else .error ⟨.value, "IPvFuture address is invalid"⟩
  else if isShort s then .error ⟨.value, "An IPv4 address cannot be in brackets"⟩
  else if isLong s then .ok ()
  else
    .error ⟨.value, quote (String.ofList s) ++ " does not appear to be an IPv4 or IPv6 address"⟩

/-! ### Authorities -/

/-- The characters whose compatible form holds a mark that divides an address. -/
def disguises : List Nat :=
  [0x2047, 0x2048, 0x2049, 0x2100, 0x2101, 0x2105, 0x2106, 0x2A74, 0xFE13, 0xFE16, 0xFE55, 0xFE56,
    0xFE5F, 0xFE6B, 0xFF03, 0xFF0F, 0xFF1A, 0xFF1F, 0xFF20]

/-- Whether a character stands for a mark that divides an address. -/
def hidesMark (c : Char) : Bool := disguises.contains c.toNat

/-- Brackets that are not paired, or not around the host. -/
def misplaced : Fault := ⟨.value, "Invalid IPv6 URL"⟩

/-- The host and the port of an authority: what stands behind the last at sign. -/
def place (authority : List Char) : List Char := (splitAtLast '@' authority).2

/-- What the brackets of an authority hold.  Where only the user has brackets, the bare host
is held to the same rules. -/
def bracketed (authority : List Char) : Except Fault (List Char) :=
  match (place authority).span (· != '[') with
  | (host, []) => .ok (splitAtFirst ':' host).1
  | ([], _ :: rest) =>
    match splitAtFirst ']' rest with
    | (host, []) | (host, ':' :: _) => .ok host
    | _ => .error misplaced
  | _ => .error misplaced

/-- Why an authority is refused. -/
def check (authority : List Char) : Except Fault Unit := do
  if authority.contains '[' != authority.contains ']' then throw misplaced
  if authority.contains '[' then checkBracketed (← bracketed authority)
  if authority.any hidesMark then
    throw ⟨.value, "netloc '" ++ String.ofList authority ++
      "' contains invalid characters under NFKC normalization"⟩

end Authority
end LineScript
