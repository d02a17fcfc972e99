import LineScript.Block
import LineScript.Locator.Loader

/-!
# Source texts

A source text is cut into lines, a line into statements, and the statements are handed to a
builder.  An inclusion stands for the statements of another text, whose own locators are
relative to the place it comes from; a text that is being included cannot include itself.

## Main definitions

* `SourceStatement`, `statementsOf` — the statements of a text, in order.
* `Place` — where a text comes from, and through which inclusions.
* `feedItem`, `feedAll`, `feed` — handing statements to a builder.
* `parse` — the script that a text is.
-/

namespace LineScript

/-! ### Statements of a text -/

/-- The place of a line, for people. -/
def SourceLine.describe (l : SourceLine) : String :=
  let place := match l.origin with
    | none | some "" => "line "
    | some origin => s!"{origin}:"
  s!"{place}{l.number}: {String.ofList (strip l.text.toList)}"

/-- A statement of a source text. -/
structure SourceStatement where
  /-- The line it stands on. -/
  line : SourceLine
  /-- Its text. -/
  text : List Char
  /-- What it is. -/
  item : Item
  deriving DecidableEq, Repr, Inhabited

/-- The statements on one line. -/
def lineStatements (s : Symbols) (line : SourceLine) : List SourceStatement :=
  let text := line.text.toList
  if (strip text).isEmpty || isComment s.comment.toList text then []
  else
    let parts := (splitStatements s.separator.toList text).map strip
    (parts.filter fun part => !part.isEmpty).flatMap fun part =>
      (expand s part).map fun (text, item) => ⟨line, text, item⟩

/-- The lines of a text, numbered from `n`. -/
def numberLines (origin : Option String) : Nat → List (List Char) → List SourceLine
  | _, [] => []
  | n, line :: rest => ⟨n, String.ofList line, origin⟩ :: numberLines origin (n + 1) rest

/-- The lines of a text. -/
def sourceLines (origin : Option String) (source : List Char) : List SourceLine :=
  numberLines origin 1 (splitLines source)

/-- The statements of a text. -/
def statementsOf (s : Symbols) (origin : Option String) (source : List Char) : List SourceStatement :=
  (sourceLines origin source).flatMap (lineStatements s)

/-! ### Inclusions -/

/-- Where a text stands. -/
structure Place where
  /-- Where the text comes from, when it was loaded. -/
  origin : Option String := none
  /-- The place that its locators are relative to. -/
  base : Option String := none
  /-- The origins of the texts that are being included, the outermost first. -/
  chain : List String := []
  deriving DecidableEq, Repr, Inhabited

/-- The place of a text that is included from another place. -/
def Place.inside (p : Place) (origin : String) : Place where
  origin := some origin
  base := (originDir (some origin.toList) (p.base.map String.toList)).map String.ofList
  chain := p.chain ++ [origin]

/-- Whether a failure to load a text is an error of the script that includes it. -/
def FaultClass.spoilsInclusion : FaultClass → Bool
  | .os | .fileNotFound | .isADirectory | .notADirectory | .decoding | .running | .recursion
  | .connect | .readTimeout => true
  | _ => false

/-- The failure of an inclusion. -/
def inclusionFailure (line : SourceLine) (locator : String) (f : Fault) : Failure :=
  if f.cls.spoilsInclusion then .atLine (.cannotInclude locator f.message) line else .fault f

/-- The failure for a loaded text that is missing. -/
def missingText : Fault := ⟨.attribute, "'NoneType' object has no attribute 'splitlines'"⟩

/-- The failure for inclusions nested too deeply. -/
def tooDeep : Fault := ⟨.recursion, "maximum recursion depth exceeded"⟩

/-- Ways to hand a text at a place to a builder, in the state of a loader. -/
abbrev Feeder (τ : Type) := Place → List Char → Builder → τ → Except Failure Builder × τ

/-- Hand the text that an inclusion stands for to a builder; `inner` does so for its text. -/
def feedInclusion {τ : Type} (load : Loader τ) (inner : Feeder τ) (p : Place) (line : SourceLine)
    (locator : String) (b : Builder) (t : τ) : Except Failure Builder × τ :=
  match load locator p.base t with
  | (.error f, t) => (.error (inclusionFailure line locator f), t)
  | (.ok loaded, t) =>
    if p.chain.contains loaded.origin then
      (.error (.atLine (.circularInclude loaded.origin) line), t)
    else
      match loaded.text with
      | none => (.error (.fault missingText), t)
      | some text => inner (p.inside loaded.origin) text b t

/-- Hand one statement to a builder. -/
def feedItem {τ : Type} (s : Symbols) (load : Loader τ) (inner : Feeder τ) (p : Place)
    (st : SourceStatement) (b : Builder) (t : τ) : Except Failure Builder × τ :=
  match st.item with
  | .inclusion locator =>
    feedInclusion load inner p st.line (String.ofList (unescape locator)) b t
  | item => (b.apply s st.line st.text item, t)

/-- Hand statements to a builder, one after the other, up to the first failure. -/
def feedAll {τ : Type} (s : Symbols) (load : Loader τ) (inner : Feeder τ) (p : Place) :
    List SourceStatement → Builder → τ → Except Failure Builder × τ
  | [], b, t => (.ok b, t)
  | st :: rest, b, t =>
    match feedItem s load inner p st b t with
    | (.ok b, t) => feedAll s load inner p rest b t
    | (.error f, t) => (.error f, t)

/-- Hand a text to a builder, with inclusions nested less than `n` deep. -/
def feed {τ : Type} (s : Symbols) (load : Loader τ) : Nat → Feeder τ
  | 0, _, _, _, t => (.error (.fault tooDeep), t)
  | n + 1, p, source, b, t =>
    feedAll s load (feed s load n) p (statementsOf s p.origin source) b t

/-! ### Scripts -/

/-- How deep inclusions may be nested. -/
def inclusionLimit : Nat := 320

/-- The line that a whole text is known by: its first one, unless it is blank. -/
def firstLine (origin : Option String) (source : List Char) : SourceLine :=
  let text := if (strip source).isEmpty then [] else (splitLines source).headD []
  ⟨1, String.ofList text, origin⟩

/-- The place of a text that nothing includes. -/
def Place.outermost (base origin : Option String) : Place where
  origin := origin
  base := base
  chain := match origin with
    | none | some "" => []
    | some o => [o]

/-- The script that a text is, with inclusions nested less than `n` deep. -/
def parseWithin {τ : Type} (s : Symbols) (load : Loader τ) (n : Nat) (base origin : Option String)
    (source : String) (t : τ) : Except Failure Script × τ :=
  let text := source.toList
  match feed s load n (.outermost base origin) text {} t with
  | (.ok b, t) => (b.finish.map fun body => ⟨firstLine origin text, body⟩, t)
  | (.error f, t) => (.error f, t)

/-- The script that a text is. -/
def parse {τ : Type} (s : Symbols) (load : Loader τ) (base origin : Option String) (source : String)
    (t : τ) : Except Failure Script × τ :=
  parseWithin s load inclusionLimit base origin source t

end LineScript
