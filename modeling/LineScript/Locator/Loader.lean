import LineScript.Error
import LineScript.Locator.Basic

/-!
# Loading texts

What a script includes is found by a loader: from a locator and the place of the script it
makes a text, or fails.  A loader may depend on a state of its own and change it.

## Main definitions

* `Loaded` — a text and where it comes from.
* `Loader` — the ways to find texts.
* `Loader.ofTexts` — texts that are held in memory.
-/

namespace LineScript

/-- A text that was loaded, and where it comes from. -/
structure Loaded where
  /-- The text; a server that was never asked gives none. -/
  text : Option (List Char)
  /-- Where it comes from. -/
  origin : String
  deriving DecidableEq, Repr, Inhabited

/-- A way to find the text of a locator, seen from a place, in a state. -/
abbrev Loader (τ : Type) := String → Option String → τ → Except Fault Loaded × τ

/-- The loader for texts that are held in memory, each under its own locator. -/
def Loader.ofTexts {τ : Type} (texts : List (String × String)) : Loader τ := fun locator _ state =>
  match texts.lookup locator with
  | some text => (.ok ⟨some text.toList, "mem://" ++ locator⟩, state)
  | none => (.error ⟨.os, "not in memory"⟩, state)

end LineScript
