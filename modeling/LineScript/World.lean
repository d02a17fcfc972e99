import LineScript.Locator.Loader
import LineScript.Table.Json
import LineScript.Text.Utf8

/-!
# Files and the web

The texts that scripts include come from files and from the web.  A world holds the files
that exist and the replies that servers will give, and it keeps a record of what was asked.

## Main definitions

* `World` — files, replies and the record of requests.
* `World.readFile` — the text of a file.
* `FetchConfig` — how often to ask a server, and how long to wait.
* `World.fetch` — the text at an address, asked for again after failures.
* `World.load` — the text that a locator stands for.
-/

namespace LineScript

/-- What a file holds. -/
inductive FileData where
  /-- A text. -/
  | text (s : List Char)
  /-- Bytes, which may be no text. -/
  | bytes (b : List UInt8)

/-- What a server replies. -/
inductive Reply where
  /-- A status and a body. -/
  | response (status : Int) (body : String)
  /-- No reply at all. -/
  | failure (f : Fault)
  deriving DecidableEq, Repr, Inhabited

/-- What was done on the web. -/
inductive WebEvent where
  /-- A connection was prepared, with this limit of time. -/
  | opened (timeout : Double)
  /-- An address was asked for, and this was sent along. -/
  | asked (url headers : String)
  /-- There was a pause, in seconds. -/
  | paused (seconds : Double)

/-- The files and servers around a script. -/
structure World where
  /-- The directories that locators are relative to. -/
  home : Home
  /-- The files by their paths without detours. -/
  files : List (String × FileData) := []
  /-- The replies to each address, in turn; the last one is repeated. -/
  routes : List (String × List Reply) := []
  /-- The addresses asked for, each time. -/
  served : List String := []
  /-- What was done on the web, in order. -/
  events : List WebEvent := []
  /-- The paths of the files that were looked for and are not there, the last one first. -/
  missed : List String := []

instance : Inhabited World := ⟨{ home := default }⟩

namespace World

/-! ### Files -/

/-- The failure to open a path. -/
def openFault (cls : FaultClass) (number : Nat) (reason path : String) : Fault :=
  ⟨cls, s!"[Errno {number}] {reason}: {quote path}"⟩

/-- Whether a path lies below another one. -/
def isBelow (directory path : List Char) : Bool :=
  if directory == ['/'] then path.head? == some '/' && path != ['/']
  else (directory ++ ['/']).isPrefixOf path

/-- The text of what a file holds. -/
def textOf : FileData → Except Fault (List Char)
  | .text s => .ok (universalNewlines s)
  | .bytes b =>
    match decodeUtf8 b with
    | .ok s => .ok (universalNewlines s)
    | .error e => .error ⟨.decoding, e.message⟩

/-- A path without detours, by which a file is known. -/
def plainPath (path : String) : String := String.ofList (Path.normalize path.toList)

/-- The text of a file. -/
def readFile (w : World) (path : String) : Except Fault (List Char) :=
  let place := plainPath path
  match w.files.lookup place with
  | some data => textOf data
  | none =>
    if w.files.any fun f => isBelow place.toList f.1.toList then
      .error (openFault .isADirectory 21 "Is a directory" place)
    else if w.files.any fun f => isBelow f.1.toList place.toList then
      .error (openFault .notADirectory 20 "Not a directory" place)
    else .error (openFault .fileNotFound 2 "No such file or directory" place)

/-! ### The web -/

/-- The next reply for an address. -/
def ask (w : World) (url : String) : Reply × World :=
  let count := w.served.count url
  let replies := (w.routes.lookup url).getD []
  let reply := (replies[count]?.orElse fun _ => replies.getLast?).getD (.response 404 "not found")
  (reply, { w with served := url :: w.served })

/-- The world with one more event. -/
def note (w : World) (e : WebEvent) : World := { w with events := w.events ++ [e] }

end World

/-- How to ask a server. -/
structure FetchConfig where
  /-- The limit of time for a reply, in seconds. -/
  timeout : Double
  /-- How often to ask again. -/
  retries : Int
  /-- The first pause between two requests, in seconds; each later pause is twice as long. -/
  backoff : Double
  /-- What to send along. -/
  headers : Table

namespace FetchConfig

/-- A whole number as a binary number. -/
def realOfInt (n : Int) : Except Fault Double :=
  let d := Double.ofInt n
  if d.isFinite then .ok d else .error ⟨.tooLarge, "int too large to convert to float"⟩

/-- A setting as a binary number. -/
def realOf : Setting → Except Fault Double
  | .integer n => realOfInt n
  | .boolean b => realOfInt (if b then 1 else 0)
  | .float t | .text t => readDouble t
  | s => .error ⟨.type, s!"float() argument must be a string or a real number, not '{s.typeName}'"⟩

/-- A binary number as a whole number, without its fraction. -/
def wholeOfReal : Double → Except Fault Int
  | .infinite _ => .error ⟨.tooLarge, "cannot convert float infinity to integer"⟩
  | .nan => .error ⟨.value, "cannot convert float NaN to integer"⟩
  | d => .ok (d.truncate?.getD 0)

/-- A setting as a whole number. -/
def wholeOf : Setting → Except Fault Int
  | .integer n => .ok n
  | .boolean b => .ok (if b then 1 else 0)
  | .float t => do wholeOfReal (← readDouble t)
  | .text t => readWhole t
  | s =>
    .error ⟨.type, "int() argument must be a string, a bytes-like object or a real number, not " ++
      s!"'{s.typeName}'"⟩

/-- The configuration that settings give; what they do not say is taken from the defaults. -/
def ofSettings (settings : Setting) : Except Fault FetchConfig := do
  let given ← if settings.isTruthy then settings.asTable else .ok .nil
  let timeout ← realOf ((given.get? "timeout").getD (.float "5.0"))
  let retries ← wholeOf ((given.get? "retries").getD (.integer 2))
  let backoff ← realOf ((given.get? "backoff").getD (.float "0.2"))
  let headers ← ((given.get? "headers").getD (.table .nil)).asTable
  return ⟨timeout, retries, backoff, headers⟩

/-- The pause after request number `i`.  The factor has to be a binary number. -/
def pause (config : FetchConfig) (i : Nat) : Except Fault Double := do
  let _ ← realOfInt (2 ^ i)
  return config.backoff.scale i

end FetchConfig

namespace World

/-- The body of a reply with a status of success; otherwise the failure it means. -/
def outcome (url : String) : Reply → Except Fault String
  | .response status body =>
    if 200 ≤ status && status < 300 then .ok body
    else
      .error ⟨.running, s!"HTTP {intText status} for {url}: {String.ofList (body.toList.take 200)}"⟩
  | .failure f => .error f

/-- One request: its body, or why there is none. -/
def request (config : FetchConfig) (url : String) (w : World) : Except Fault String × World :=
  match config.headers.json with
  | .error f => (.error f, w)
  | .ok headers =>
    let (reply, w) := (w.note (.asked url headers)).ask url
    (outcome url reply, w)

/-- At most `n` requests, the first of which is number `i`, with a pause between each two.
The answer is the first body, or the failure of the last request; without a request there
is no answer. -/
def fetchUpTo (config : FetchConfig) (url : String) :
    Nat → Nat → World → Except Fault (Option String) × World
  | 0, _, w => (.ok none, w)
  | n + 1, i, w =>
    match request config url w with
    | (.ok body, w) => (.ok (some body), w)
    | (.error f, w) =>
      if n == 0 then (.error f, w)
      else
        match config.pause i with
        | .error f => (.error f, w)
        | .ok seconds => fetchUpTo config url n (i + 1) (w.note (.paused seconds))

/-- The text at an address. -/
def fetch (w : World) (url : String) (settings : Setting) : Except Fault (Option String) × World :=
  match FetchConfig.ofSettings settings with
  | .error f => (.error f, w)
  | .ok config =>
    fetchUpTo config url (config.retries + 1).toNat 0 (w.note (.opened config.timeout))

end World

/-- The text that a locator stands for, seen from the place `base`. -/
def World.load (settings : Setting) : Loader World := fun locator base w =>
  match w.home.resolve locator.toList (base.map String.toList) with
  | .error f => (.error f, w)
  | .ok resolved =>
    let origin := String.ofList resolved
    if isWeb resolved then
      let (result, w) := w.fetch origin settings
      (result.map fun body => ⟨body.map String.toList, origin⟩, w)
    else
      match w.readFile origin with
      | .ok text => (.ok ⟨some text, origin⟩, w)
      | .error f => (.error f, { w with missed := plainPath origin :: w.missed })

/-- An event as a line of a record. -/
def WebEvent.line : WebEvent → String
  | .opened timeout => s!"open timeout={timeout.text} redirects=True"
  | .asked url headers => s!"get {url} {headers}"
  | .paused seconds => s!"sleep {seconds.text}"

end LineScript
