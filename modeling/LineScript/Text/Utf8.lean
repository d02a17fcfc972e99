import LineScript.Text.Quoted

/-!
# Bytes as text

A file holds bytes, which are read as UTF-8.  Bytes that are no text are reported with
their position: a byte that begins no character, a character broken off by another byte, or
one broken off by the end.

## Main definitions

* `DecodeError` — where and why bytes are no text.
* `decodeUtf8` — the text of a list of bytes.
* `universalNewlines` — a text with every line end written as a line feed.
-/

namespace LineScript

/-- Where and why bytes are no text. -/
structure DecodeError where
  /-- The position of the first byte that is no text. -/
  start : Nat
  /-- How many bytes are no text. -/
  count : Nat
  /-- The first of these bytes. -/
  byte : UInt8
  /-- Why they are no text. -/
  reason : String
  deriving DecidableEq, Repr, Inhabited

/-- The wording of an error. -/
def DecodeError.message (e : DecodeError) : String :=
  if e.count == 1 then
    s!"'utf-8' codec can't decode byte 0x{String.ofList (hexDigits 2 e.byte.toNat)} in position {e.start}: " ++
      e.reason
  else
    s!"'utf-8' codec can't decode bytes in position {e.start}-{e.start + e.count - 1}: " ++ e.reason

/-- A byte that continues a character. -/
def isContinuation (b : UInt8) : Bool := 0x80 ≤ b && b ≤ 0xBF

/-- How many bytes follow a first byte; nothing if it begins no character. -/
def continuations? (b : UInt8) : Option Nat :=
  if b < 0x80 then some 0
  else if 0xC2 ≤ b && b ≤ 0xDF then some 1
  else if 0xE0 ≤ b && b ≤ 0xEF then some 2
  else if 0xF0 ≤ b && b ≤ 0xF4 then some 3
  else none

/-- Whether a second byte can follow a first one: some combinations would be too long a
form, a surrogate, or beyond the last code point. -/
def secondFits (first second : UInt8) : Bool :=
  isContinuation second &&
    (if first == 0xE0 then 0xA0 ≤ second
    else if first == 0xED then second ≤ 0x9F
    else if first == 0xF0 then 0x90 ≤ second
    else if first == 0xF4 then second ≤ 0x8F
    else true)

/-- How many of the `n` bytes wanted behind a first byte are there and fit. -/
def fitting (first : UInt8) (n : Nat) (rest : List UInt8) : Nat :=
  match rest.take n with
  | [] => 0
  | second :: more =>
    if secondFits first second then 1 + (more.takeWhile isContinuation).length else 0

/-- The bits that a first byte gives to its character. -/
def leadBits (b : UInt8) : Nat :=
  if b < 0x80 then b.toNat
  else if b < 0xE0 then b.toNat % 0x20
  else if b < 0xF0 then b.toNat % 0x10
  else b.toNat % 0x08

/-- The character of a first byte and the bytes behind it. -/
def charOfBytes (first : UInt8) (more : List UInt8) : Char :=
  Char.ofNat (more.foldl (fun n b => n * 0x40 + b.toNat % 0x40) (leadBits first))

/-- The text of bytes, the first of which is at position `pos`.  At most `n` characters are
read; every character takes a byte, so the number of bytes is enough. -/
def decodeUpTo : Nat → Nat → List UInt8 → Except DecodeError (List Char)
  | 0, _, _ => .ok []
  | _, _, [] => .ok []
  | n + 1, pos, b :: rest =>
    match continuations? b with
    | none => .error ⟨pos, 1, b, "invalid start byte"⟩
    | some wanted =>
      let found := fitting b wanted rest
      if found == wanted then
        (decodeUpTo n (pos + 1 + wanted) (rest.drop wanted)).map (charOfBytes b (rest.take wanted) :: ·)
      else if found == rest.length then .error ⟨pos, 1 + found, b, "unexpected end of data"⟩
      else .error ⟨pos, 1 + found, b, "invalid continuation byte"⟩

/-- The text of a list of bytes. -/
def decodeUtf8 (bytes : List UInt8) : Except DecodeError (List Char) :=
  decodeUpTo bytes.length 0 bytes

/-- The text with every line end written as a line feed. -/
def universalNewlines : List Char → List Char
  | [] => []
  | '\r' :: '\n' :: rest => '\n' :: universalNewlines rest
  | '\r' :: rest => '\n' :: universalNewlines rest
  | c :: rest => c :: universalNewlines rest

end LineScript
