import LineScript.Locator.Path
import LineScript.Value.View

/-!
# Namespaces of the host

A script imports a namespace of the host by its path: the longest beginning of the path that
is a module is imported, and the rest of the path names members.  A name that is bound in no
scope is looked up in the imported namespaces, the most recent first.

## Main definitions

* `memberAt` — the member at the end of a path.
* `Namespaces` — the imported namespaces.
* `Namespaces.importing` — one import more.
* `Namespaces.resolve` — what a name stands for.
-/

namespace LineScript

/-- What stands between the points of a path. -/
def pathParts (path : String) : List String := (splitOn '.' path.toList).map String.ofList

/-- The names of a path, which are parted by points. -/
def pathNames (path : String) : List String :=
  ((splitOn '.' path.toList).filter fun part => !part.isEmpty).map String.ofList

/-- What stands before the first point of a path, and what stands after it. -/
def splitHead (path : String) : String × String :=
  let (head, rest) := path.toList.span (· != '.')
  (String.ofList head, String.ofList rest.tail)

/-- What stands after the last point of a path. -/
def lastName (path : String) : String := String.ofList (splitAtLast '.' path.toList).2

/-- The member at the end of a path of names. -/
def memberAt (view : HostView) : HostValue → List String → Except Failure HostValue
  | h, [] => .ok h
  | h, name :: rest =>
    match h.member view name with
    | .found m => memberAt view m rest
    | .missing => .error (.ofCause (.noMember (h.className view) name))
    | .broken f => .error f

/-- An imported namespace. -/
structure Namespace where
  /-- The path it was imported by. -/
  path : String
  /-- What was found there. -/
  object : HostValue
  deriving Inhabited

/-- The imported namespaces, the most recent first. -/
abbrev Namespaces := List Namespace

namespace Namespaces

/-- The namespace that the first `n` parts of a path and the names behind them lead to, or
else a shorter beginning of the path. -/
def importFrom (modules : String → Lookup) (view : HostView) (path : String) (parts : List String) :
    Nat → Except Failure HostValue
  | 0 => .error (.ofCause (.cannotImport path))
  | n + 1 =>
    match modules (String.intercalate "." (parts.take (n + 1))) with
    | .found h => memberAt view h ((parts.drop (n + 1)).filter (· != ""))
    | .missing => importFrom modules view path parts n
    | .broken f => .error f

/-- The object that a path leads to. -/
def locate (modules : String → Lookup) (view : HostView) (path : String) : Except Failure HostValue :=
  let parts := pathParts path
  importFrom modules view path parts parts.length

/-- The namespaces with one more in front. -/
def add (path : String) (object : HostValue) (ns : Namespaces) : Namespaces :=
  ⟨path, object⟩ :: ns.filter fun n => n.path != path

/-- The namespaces after the import of a path. -/
def importing (modules : String → Lookup) (view : HostView) (path : String) (ns : Namespaces) :
    Except Failure Namespaces :=
  (locate modules view path).map fun object => ns.add path object

/-- What a name stands for in one namespace, if the namespace claims it: by its path, by the
beginning of the name, by its last name, or by a member. -/
def lookIn (view : HostView) (name : String) (n : Namespace) : Except Failure (Option HostValue) :=
  let (head, rest) := splitHead name
  if name == n.path then .ok (some n.object)
  else
    match Symbols.afterMark? (n.path ++ ".").toList name.toList with
    | some below => (memberAt view n.object (pathNames (String.ofList below))).map some
    | none =>
      if head == lastName n.path then (memberAt view n.object (pathNames rest)).map some
      else
        match n.object.member view head with
        | .found m => (memberAt view m (pathNames rest)).map some
        | .missing => .ok none
        | .broken f => .error f

/-- What a name stands for in the most recent namespace that claims it. -/
def resolve (view : HostView) (name : String) : Namespaces → Except Failure (Option HostValue)
  | [] => .ok none
  | n :: rest =>
    match lookIn view name n with
    | .ok none => resolve view name rest
    | r => r

/-- The paths of the namespaces. -/
def paths (ns : Namespaces) : List String := ns.map Namespace.path

end Namespaces

end LineScript
