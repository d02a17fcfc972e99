/-!
# Parts of texts

A text is split at a separator, everywhere or in one place.

## Main definitions

* `splitOn`, `joinWith` — the parts of a text between separators, and back.
* `splitAtFirst`, `splitAtLast` — the two sides of a separator.
-/

namespace LineScript

/-- The parts of a text between the characters `sep`; there is always at least one. -/
def splitOn (sep : Char) : List Char → List (List Char)
  | [] => [[]]
  | c :: rest =>
    if c == sep then [] :: splitOn sep rest
    else
      match splitOn sep rest with
      | part :: parts => (c :: part) :: parts
      | [] => [[c]]

/-- Parts put together with a separator between them. -/
def joinWith (sep : List Char) : List (List Char) → List Char
  | [] => []
  | [part] => part
  | part :: parts => part ++ sep ++ joinWith sep parts

@[simp] theorem splitOn_nil (sep : Char) : splitOn sep [] = [[]] := rfl

theorem splitOn_ne_nil (sep : Char) (s : List Char) : splitOn sep s ≠ [] := by
  cases s with
  | nil => simp [splitOn]
  | cons c rest =>
    rw [splitOn]
    split
    · simp
    · split <;> simp

/-- The parts of a text with the separator between them are the text again. -/
theorem joinWith_splitOn (sep : Char) (s : List Char) : joinWith [sep] (splitOn sep s) = s := by
  induction s with
  | nil => rfl
  | cons c rest ih =>
    obtain ⟨part, parts, hp⟩ := List.exists_cons_of_ne_nil (splitOn_ne_nil sep rest)
    rw [hp] at ih
    rw [splitOn, hp]
    by_cases h : c = sep
    · simp [h, joinWith, ih]
    · cases parts <;> simp_all [joinWith]

/-- What stands before the last `sep`, that `sep` included, and what stands behind it. -/
def splitAtLast (sep : Char) (s : List Char) : List Char × List Char :=
  let tail := (s.reverse.takeWhile (· != sep)).reverse
  (s.take (s.length - tail.length), tail)

/-- What stands before the first `sep`, and behind it. -/
def splitAtFirst (sep : Char) (s : List Char) : List Char × List Char :=
  match s.span (· != sep) with
  | (head, _ :: tail) => (head, tail)
  | (head, []) => (head, [])

end LineScript
