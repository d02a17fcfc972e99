/-!
# Decimal digits of all scripts

Numbers may be written with the digits of any script.  Every script that has its own
digits lists them in one run of ten, from zero to nine, so a table of the zeros is enough.

## Main definitions

* `digitZeros` — the zero of every script.
* `digitValue?` — the value of a digit.
* `readNat` — the number a run of digits stands for.
-/

namespace LineScript

/-- The code points of the digit zero of each script, in increasing order. -/
def digitZeros : List Nat :=
  [
    0x30, 0x660, 0x6F0, 0x7C0, 0x966, 0x9E6, 0xA66, 0xAE6, 0xB66, 0xBE6, 0xC66, 0xCE6, 0xD66,
    0xDE6, 0xE50, 0xED0, 0xF20, 0x1040, 0x1090, 0x17E0, 0x1810, 0x1946, 0x19D0, 0x1A80, 0x1A90,
    0x1B50, 0x1BB0, 0x1C40, 0x1C50, 0xA620, 0xA8D0, 0xA900, 0xA9D0, 0xA9F0, 0xAA50, 0xABF0,
    0xFF10, 0x104A0, 0x10D30, 0x11066, 0x110F0, 0x11136, 0x111D0, 0x112F0, 0x11450, 0x114D0,
    0x11650, 0x116C0, 0x11730, 0x118E0, 0x11950, 0x11C50, 0x11D50, 0x11DA0, 0x16A60, 0x16AC0,
    0x16B50, 0x1D7CE, 0x1D7D8, 0x1D7E2, 0x1D7EC, 0x1D7F6, 0x1E140, 0x1E2F0, 0x1E950, 0x1FBF0]

/-- The value of a decimal digit, or nothing for any other character. -/
def digitValue? (c : Char) : Option Nat :=
  if c.toNat < 0x80 then
    if 0x30 ≤ c.toNat && c.toNat ≤ 0x39 then some (c.toNat - 0x30) else none
  else
    digitZeros.findSome? fun first =>
      if first ≤ c.toNat && c.toNat ≤ first + 9 then some (c.toNat - first) else none

/-- A decimal digit of some script. -/
def isDigit (c : Char) : Bool := (digitValue? c).isSome

/-- The number that a run of digits stands for, most significant first; a character
that is no digit counts as zero. -/
def readNat (s : List Char) : Nat :=
  s.foldl (fun n c => 10 * n + (digitValue? c).getD 0) 0

@[simp] theorem readNat_nil : readNat [] = 0 := rfl

/-- Appending a digit multiplies by ten and adds its value. -/
theorem readNat_append_one (s : List Char) (c : Char) :
    readNat (s ++ [c]) = 10 * readNat s + (digitValue? c).getD 0 := by
  simp [readNat, List.foldl_append]

end LineScript
