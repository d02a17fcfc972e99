import LineScript.Text.Split

/-!
# Paths of files

A path is a text of names between slashes.  Joining and normalising work on the text alone
and never ask whether a file exists.

## Main definitions

* `Path.join`, `Path.normalize`, `Path.parent` — the usual operations.
-/

namespace LineScript

namespace Path

/-- A path behind another one; an absolute path stands for itself. -/
def join (base path : List Char) : List Char :=
  if path.head? == some '/' then path
  else if base.isEmpty || base.getLast? == some '/' then base ++ path
  else base ++ '/' :: path

/-- How many slashes a normalised path begins with: two are kept, more are one. -/
def leadingSlashes (path : List Char) : Nat :=
  match path with
  | '/' :: '/' :: '/' :: _ => 1
  | '/' :: '/' :: _ => 2
  | '/' :: _ => 1
  | _ => 0

/-- The names kept so far, the latest first, after one more name. -/
def step (absolute : Bool) (kept : List (List Char)) (name : List Char) : List (List Char) :=
  if name.isEmpty || name == ['.'] then kept
  else if name == ['.', '.'] then
    match kept with
    | [] => if absolute then [] else [name]
    | last :: before => if last == ['.', '.'] then name :: kept else before
  else name :: kept

/-- The path without empty names, without single points, and with every double point
resolved against the name before it. -/
def normalize (path : List Char) : List Char :=
  let slashes := leadingSlashes path
  let names := ((splitOn '/' path).foldl (step (slashes != 0)) []).reverse
  let result := List.replicate slashes '/' ++ joinWith ['/'] names
  if result.isEmpty then ['.'] else result

/-- The directory of a path: what stands before its last slash. -/
def parent (path : List Char) : List Char :=
  let head := (splitAtLast '/' path).1
  if head.all (· == '/') then head else (head.reverse.dropWhile (· == '/')).reverse

end Path

end LineScript
