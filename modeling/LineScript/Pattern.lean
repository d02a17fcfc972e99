/-!
# Patterns

Statements are recognised by patterns: sequences, choices and repetitions of characters
and fixed texts, with named groups.  A pattern may match a text in several ways, and the
order of these ways is part of its meaning: a choice prefers its first alternative, a
greedy repetition prefers more rounds and a lazy one fewer.  The first way that lets the
rest of the pattern match is taken.

## Main definitions

* `Pattern` — the patterns.
* `Cursor` — a position in a text, with the groups found so far.
* `longestFirst`, `shortestFirst` — runs of characters, in the two orders.
* `Pattern.run` — all ways of matching, tried in order by a continuation.
* `Pattern.match?` — the first match at the front of a text.
-/

namespace LineScript

/-- A pattern. -/
inductive Pattern where
  /-- The empty text. -/
  | nothing
  /-- One character of a class. -/
  | one (accepts : Char → Bool)
  /-- A fixed text. -/
  | text (s : List Char)
  /-- One pattern behind another. -/
  | seq (first second : Pattern)
  /-- One of two patterns, the first one preferred. -/
  | either (first second : Pattern)
  /-- Any number of characters, each accepted together with what follows it: as many as
  possible if greedy, else as few as possible. -/
  | chars (greedy : Bool) (accepts : Char → List Char → Bool)
  /-- As many rounds as possible. -/
  | many (item : Pattern)
  /-- A pattern whose match is kept under a name. -/
  | group (name : String) (inner : Pattern)
  /-- The empty text, where the pattern does not match. -/
  | unless (inner : Pattern)
  /-- The empty text at the end, or before a line feed that ends the text. -/
  | finish

/-- A position in a text. -/
structure Cursor where
  /-- How many characters are behind it. -/
  position : Nat
  /-- The characters before it. -/
  rest : List Char
  /-- The groups found so far, the latest first: name, start and end. -/
  groups : List (String × Nat × Nat) := []
  deriving DecidableEq, Repr, Inhabited

/-- The cursor `n` characters further on. -/
def Cursor.advance (c : Cursor) (n : Nat) : Cursor :=
  { c with position := c.position + n, rest := c.rest.drop n }

/-- The cursor with one more group, from `start` to its position. -/
def Cursor.capture (c : Cursor) (name : String) (start : Nat) : Cursor :=
  { c with groups := (name, start, c.position) :: c.groups }

/-- A way on from a cursor: where the whole match ends, if it succeeds. -/
abbrev Continuation := Cursor → Option Cursor

/-- Goes on behind as many accepted characters as possible, and then behind fewer and fewer of
them, until the continuation succeeds. -/
def longestFirst (accepts : Char → List Char → Bool) (groups : List (String × Nat × Nat))
    (next : Continuation) (position : Nat) : List Char → Option Cursor
  | [] => next ⟨position, [], groups⟩
  | ch :: rest =>
    if accepts ch rest then
      match longestFirst accepts groups next (position + 1) rest with
      | some c => some c
      | none => next ⟨position, ch :: rest, groups⟩
    else next ⟨position, ch :: rest, groups⟩

/-- Goes on behind no character, and then behind more and more accepted ones, until the
continuation succeeds. -/
def shortestFirst (accepts : Char → List Char → Bool) (groups : List (String × Nat × Nat))
    (next : Continuation) (position : Nat) : List Char → Option Cursor
  | [] => next ⟨position, [], groups⟩
  | ch :: rest =>
    match next ⟨position, ch :: rest, groups⟩ with
    | some c => some c
    | none =>
      if accepts ch rest then shortestFirst accepts groups next (position + 1) rest else none

@[simp] theorem longestFirst_nil (accepts : Char → List Char → Bool)
    (groups : List (String × Nat × Nat)) (next : Continuation) (position : Nat) :
    longestFirst accepts groups next position [] = next ⟨position, [], groups⟩ := rfl

@[simp] theorem shortestFirst_nil (accepts : Char → List Char → Bool)
    (groups : List (String × Nat × Nat)) (next : Continuation) (position : Nat) :
    shortestFirst accepts groups next position [] = next ⟨position, [], groups⟩ := rfl

/-- A character that is not accepted ends a run. -/
theorem longestFirst_cons_of_not {accepts : Char → List Char → Bool} {ch : Char} {rest : List Char}
    (h : accepts ch rest = false) (groups : List (String × Nat × Nat)) (next : Continuation)
    (position : Nat) :
    longestFirst accepts groups next position (ch :: rest) = next ⟨position, ch :: rest, groups⟩ := by
  simp [longestFirst, h]

/-- Rounds of `item`, each of which has to move on; at most one for each character of a
text. -/
def repeatWithin (item : Cursor → Continuation → Option Cursor) :
    List Char → Cursor → Continuation → Option Cursor
  | [], c, next => next c
  | _ :: within, c, next =>
    match item c fun c' => if c.position < c'.position then repeatWithin item within c' next else none with
    | some c => some c
    | none => next c

namespace Pattern

/-- Matches the pattern at a cursor in every way, in order, until the continuation
succeeds. -/
def run : Pattern → Cursor → Continuation → Option Cursor
  | .nothing, c, next => next c
  | .one accepts, c, next =>
    match c.rest with
    | ch :: _ => if accepts ch then next (c.advance 1) else none
    | [] => none
  | .text s, c, next => if s.isPrefixOf c.rest then next (c.advance s.length) else none
  | .seq first second, c, next => first.run c fun c' => second.run c' next
  | .either first second, c, next => (first.run c next).orElse fun _ => second.run c next
  | .chars true accepts, c, next => longestFirst accepts c.groups next c.position c.rest
  | .chars false accepts, c, next => shortestFirst accepts c.groups next c.position c.rest
  | .many item, c, next => repeatWithin item.run c.rest c next
  | .group name inner, c, next => inner.run c fun c' => next (c'.capture name c.position)
  | .unless inner, c, next => if (inner.run c some).isSome then none else next c
  | .finish, c, next =>
    match c.rest with
    | [] => next c
    | [ch] => if ch == '\n' then next c else none
    | _ => none

/-- The first match at the front of a text. -/
def match? (p : Pattern) (s : List Char) : Option Cursor := p.run ⟨0, s, []⟩ some

/-- The names of the groups of a pattern. -/
def groupNames : Pattern → List String
  | .seq first second | .either first second => first.groupNames ++ second.groupNames
  | .many item => item.groupNames
  | .group name inner => name :: inner.groupNames
  | .nothing | .one _ | .text _ | .chars .. | .unless _ | .finish => []

/-! ### Derived patterns -/

/-- Several patterns, one behind the other. -/
def all : List Pattern → Pattern
  | [] => .nothing
  | [p] => p
  | p :: ps => .seq p (all ps)

/-- One of several patterns, earlier ones preferred; none of them if the list is empty. -/
def anyOf : List Pattern → Pattern
  | [] => .one fun _ => false
  | [p] => p
  | p :: ps => .either p (anyOf ps)

/-- The pattern or nothing, the pattern preferred. -/
def optional (p : Pattern) : Pattern := .either p .nothing

/-- Any number of characters of a class. -/
def charsOf (greedy : Bool) (accepts : Char → Bool) : Pattern := .chars greedy fun c _ => accepts c

/-- One character of a class or more. -/
def oneOrMore (greedy : Bool) (accepts : Char → Bool) : Pattern :=
  .seq (.one accepts) (charsOf greedy accepts)

end Pattern

end LineScript
