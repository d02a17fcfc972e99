import LineScript.Symbols

/-!
# The default symbols

The default table passes its own check, and the symbols it gives are written out here.

## Main definitions

* `standardSymbols` — the symbols of the default table.

## Main results

* `ofTable_standard` — they are what the check of the default table ends with.
-/

namespace LineScript

/-- The symbols of the default table. -/
def standardSymbols : Symbols where
  table := Table.standard
  comment := "\\"
  separator := ";"
  globalMark := "root."
  null := "$"
  importMark := "$"
  returnMark := "~"
  loop := "@"
  function := "#"
  conditional := "?"
  otherwise := "??"
  assign := "="
  comparison := Table.ofTexts
    [("equal", "="), ("not_equal", "!"), ("less", "<"), ("greater", ">"), ("less_equal", "<="),
      ("greater_equal", ">=")]
  logical := Table.ofTexts [("and", "&"), ("or", "|")]
  arithmetic := Table.ofTexts
    [("plus", "+"), ("subtract", "-"), ("multiply", "*"), ("divide", "/"), ("module", "%")]
  booleans := .ok ("true", "false")

/-- The default table is accepted, and gives the default symbols. -/
theorem ofTable_standard : Symbols.ofTable Table.standard = .ok standardSymbols := rfl

end LineScript
