import LineScript.Locator.Url

/-!
# Locators

A script names another text by a locator: an address, an absolute path, a path in the home
directory, or a path relative to the place of the script itself.

## Main definitions

* `isWeb` — whether a locator is an address.
* `Home` — the directories that locators are relative to.
* `Home.resolve` — the origin that a locator stands for.
* `originDir` — the place that locators inside a text are relative to.
-/

namespace LineScript

/-- Whether a locator is an address on the web. -/
def isWeb (locator : List Char) : Bool :=
  "http://".toList.isPrefixOf locator || "https://".toList.isPrefixOf locator

/-- The directories that locators are relative to. -/
structure Home where
  /-- The current directory. -/
  current : List Char
  /-- The home directory of the user. -/
  home : List Char
  deriving DecidableEq, Repr, Inhabited

namespace Home

/-- A path whose first name begins with a tilde: a tilde alone stands for the home
directory, and no other user is known. -/
def expand (h : Home) (path : List Char) : List Char :=
  match path with
  | ['~'] => root (strip h.home)
  | '~' :: '/' :: rest => root (strip h.home ++ '/' :: rest)
  | path => path
where
  /-- The directory without slashes at its end. -/
  strip (s : List Char) : List Char := (s.reverse.dropWhile (· == '/')).reverse
  /-- The path, or the root in place of an empty one. -/
  root (s : List Char) : List Char := if s.isEmpty then ['/'] else s

/-- A path seen from the current directory, without detours. -/
def absolute (h : Home) (path : String) : String :=
  String.ofList (Path.normalize (Path.join h.current path.toList))

/-- The place that a base stands for: without one, the current directory. -/
def place (h : Home) (base : Option (List Char)) : List Char :=
  match base with
  | some b => if b.isEmpty then h.current else b
  | none => h.current

/-- The origin that a locator stands for, seen from the place `base`. -/
def resolve (h : Home) (locator : List Char) (base : Option (List Char)) : Except Fault (List Char) :=
  if isWeb locator then .ok locator
  else
    let rest := if "file://".toList.isPrefixOf locator then locator.drop 7 else locator
    match rest with
    | '/' :: tail => .ok ('/' :: tail.dropWhile (· == '/'))
    | '~' :: _ => .ok (h.expand rest)
    | _ =>
      let place := h.place base
      if isWeb place then Url.join place rest else .ok (Path.normalize (Path.join place rest))

end Home

/-- The place that locators inside the text of an origin are relative to. -/
def originDir (origin : Option (List Char)) (fallback : Option (List Char)) : Option (List Char) :=
  match origin with
  | none | some [] => fallback
  | some o =>
    if isWeb o then
      let head := (splitAtLast '/' o).1
      some (head.dropLast ++ ['/'])
    else
      let dir := Path.parent o
      if dir.isEmpty then fallback else some dir

end LineScript
