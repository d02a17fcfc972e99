import LineScript.Locator.Authority

/-!
# Addresses on the web

An address has a scheme, an authority, a path with parameters, a query and a fragment.  An address
given relative to another one is resolved by putting the missing parts in from that one.
An address whose authority is malformed has no parts at all.

## Main definitions

* `Url`, `Url.parse`, `Url.text` — addresses and their written form.
* `Url.join` — an address resolved against a base.
-/

namespace LineScript

/-- An address. -/
structure Url where
  /-- The scheme, in lower case. -/
  scheme : List Char
  /-- The host, with its user and its port. -/
  authority : List Char
  /-- The path. -/
  path : List Char
  /-- What follows a semicolon in the last name of the path. -/
  params : List Char
  /-- What follows a question mark. -/
  query : List Char
  /-- What follows a hash. -/
  fragment : List Char
  deriving DecidableEq, Repr, Inhabited

namespace Url

/-- A character that can stand in a scheme. -/
def isSchemeChar (c : Char) : Bool := c.isAlphanum || c == '+' || c == '-' || c == '.'

/-- The scheme at the front of an address, if there is one, and the rest. -/
def splitScheme (fallback s : List Char) : List Char × List Char :=
  match s.span (· != ':') with
  | (c :: name, ':' :: rest) =>
    if c.isAlpha && name.all isSchemeChar then ((c :: name).map Char.toLower, rest) else (fallback, s)
  | _ => (fallback, s)

/-- The authority behind two slashes, if there is one, and the rest. -/
def splitAuthority : List Char → List Char × List Char
  | '/' :: '/' :: rest => rest.span fun c => !(c == '/' || c == '?' || c == '#')
  | s => ([], s)

/-- The parameters in the last name of a path, and the path without them. -/
def splitParams (path : List Char) : List Char × List Char :=
  let (head, last) := splitAtLast '/' path
  let (name, params) := splitAtFirst ';' last
  (head ++ name, params)

/-- The parts of an address; the scheme `fallback` is taken when it names none. -/
def parse (fallback s : List Char) : Except Fault Url := do
  let visible := (s.dropWhile fun c => c.toNat ≤ 0x20).filter fun c =>
    !(c == '\t' || c == '\r' || c == '\n')
  let (scheme, rest) := splitScheme fallback visible
  let (authority, rest) := splitAuthority rest
  Authority.check authority
  let (rest, fragment) := splitAtFirst '#' rest
  let (rest, query) := splitAtFirst '?' rest
  let (path, params) := splitParams rest
  return ⟨scheme, authority, path, params, query, fragment⟩

/-- An optional part behind its mark. -/
def part (mark : List Char) (s : List Char) : List Char := if s.isEmpty then [] else mark ++ s

/-- The written form of an address.  An empty authority is left out, with the slashes before it,
when the path itself begins with two slashes. -/
def text (u : Url) : List Char :=
  let path := u.path ++ part [';'] u.params
  let place :=
    if u.authority.isEmpty && ['/', '/'].isPrefixOf path then path
    else
      let rooted := if path.isEmpty || path.head? == some '/' then path else '/' :: path
      '/' :: '/' :: u.authority ++ rooted
  u.scheme ++ ':' :: place ++ part ['?'] u.query ++ part ['#'] u.fragment

/-- The list without its empty inner parts; the first and the last one stay. -/
def dropEmptyInside (parts : List (List Char)) : List (List Char) :=
  match parts with
  | [] => []
  | first :: rest =>
    match rest.getLast? with
    | some last => first :: (rest.dropLast.filter fun p => !p.isEmpty) ++ [last]
    | none => [first]

/-- The names of a resolved path, the latest first, after one more name. -/
def resolveStep (kept : List (List Char)) (name : List Char) : List (List Char) :=
  if name == ['.', '.'] then kept.tail
  else if name == ['.'] then kept
  else name :: kept

/-- The path `path` resolved against the path `base`. -/
def resolvePath (base path : List Char) : List Char :=
  let baseNames := splitOn '/' base
  let directory := if baseNames.getLast? == some [] then baseNames else baseNames.dropLast
  let names :=
    if path.head? == some '/' then splitOn '/' path
    else dropEmptyInside (directory ++ splitOn '/' path)
  let resolved := (names.foldl resolveStep []).reverse
  let atDirectory := names.getLast? == some ['.'] || names.getLast? == some ['.', '.']
  let result := joinWith ['/'] (if atDirectory then resolved ++ [[]] else resolved)
  if result.isEmpty then ['/'] else result

/-- The address `s` resolved against the address `base`. -/
def join (base s : List Char) : Except Fault (List Char) := do
  if s.isEmpty then return base
  let b ← parse [] base
  let u ← parse b.scheme s
  if u.scheme != b.scheme then return s
  else if !u.authority.isEmpty then return u.text
  else if u.path.isEmpty && u.params.isEmpty then
    return text { b with query := if u.query.isEmpty then b.query else u.query, fragment := u.fragment }
  else return text { u with authority := b.authority, path := resolvePath b.path u.path }

end Url

end LineScript
