import RecollFilters.Markup

/-! # A CHM file and its text decoding

The CHM file is what pychm exposes of it: the internal objects by path, the Topics catalog,
the home path and the title. `rclCHM.fixencoding` rewrites an ASCII charset declaration to
windows-1252 with `asciito1252re`, then decodes the page with the charset `findcharsetre`
finds; both patterns are written out here as `re` matches them.
-/

namespace RecollFilters.Chm

set_option autoImplicit false

open Markup

/-- The parts of a loaded CHM file the filter reads. `ResolveObject` succeeds for the paths of
`objects`, and `RetrieveObject` then gives their bytes. -/
structure ChmFile where
  objects : List (Bytes × Bytes)
  topics : Bytes
  home : Bytes
  title : Bytes

def ChmFile.retrieve (f : ChmFile) (path : Bytes) : Option Bytes := f.objects.lookup path

/-- `getfile(chmfile, path)`: the object's bytes, empty when the path does not resolve. -/
def getfile (f : ChmFile) (path : Bytes) : Bytes := (f.retrieve path).getD []

/-- What the CHM code uses besides the file: the codec registry, the start tags `html.parser`
reports for a text, and how many walkers deep Python's recursion limit lets `ChmWalker`s nest
below the home page's; that depends on the interpreter and the frames under `openfile`. -/
structure ChmEnv where
  codecs : Codecs
  starttags : Str → List StartTag
  maxNesting : Nat

def peekfile (C : Codecs) (f : ChmFile) (path charset : Str) : Except PyError Bool :=
  (C.encode charset path).map fun p => (f.retrieve p).isSome

/-! ### The charset declaration patterns

The pieces of `asciito1252re` and `findcharsetre`, each read at the start of a text and
ignoring ASCII case. -/

def metaHead (s : List Char) : Option (List Char) :=
  (ciStrip "<meta".toList s).bind fun r =>
    (ciStrip "http-equiv".toList (dropSpaces r)).bind fun r =>
      (ciStrip "=".toList (dropSpaces r)).bind fun r =>
        ciStrip "\"content-type\"".toList (dropSpaces r)

def charsetHead (s : List Char) : Option (List Char) :=
  (ciStrip "charset".toList s).bind fun r => (ciStrip "=".toList (dropSpaces r)).map dropSpaces

def closesTag (s : List Char) : Bool :=
  ((ciStrip "\"".toList (dropSpaces s)).bind fun r => ciStrip ">".toList (dropSpaces r)).isSome

/-- `((us-)?ascii)( *" *>)` at the start of `s`: the length of the second group. -/
def asciiValue (s : List Char) : Option Nat :=
  match ciStrip "us-ascii".toList s with
  | some r => if closesTag r then some 8 else none
  | none =>
    match ciStrip "ascii".toList s with
    | some r => if closesTag r then some 5 else none
    | none => none

def isCharsetChar (c : Char) : Bool := c.isAlphanum || c = '-'

/-- `([a-z0-9-]+) *" *>` at the start of `s`: the group. The run is greedy, and a shorter one
leaves a class character where ` *"` needs a space or a quote. -/
def charsetValue (s : List Char) : Option (List Char) :=
  let run := s.takeWhile isCharsetChar
  if run ≠ [] ∧ closesTag (s.drop run.length) then some run else none

/-- `asciito1252re.sub(rb"\1windows-1252\4", text, 1)`: the value of the first ASCII
declaration is replaced, the rest of the text kept. -/
def asciito1252Sub (text : Bytes) : Bytes :=
  match search (fun p => (metaHead p).bind fun r =>
      dotStar false (fun t => (charsetHead t).bind fun u => (asciiValue u).map fun n => (u, n)) r)
      text with
  | some (_, _, u, n) => text.take (text.length - u.length) ++ "windows-1252".toList ++ u.drop n
  | none => text

def findcharset (text : Bytes) : Option Bytes :=
  (search (fun p => (metaHead p).bind fun r =>
      dotStar false (fun t => (charsetHead t).bind charsetValue) r) text).map fun m => m.2.2

/-- `rclCHM.fixencoding` on `bytes`: the decoded text and the charset it was decoded with
(`m.group(1).decode("cp1252")` leaves the ASCII group as it is). -/
def fixencoding (C : Codecs) (text : Bytes) : Except PyError (Str × Str) :=
  let text := asciito1252Sub text
  let charset := (findcharset text).getD "cp1252".toList
  (C.decodeReplace charset text).map fun t => (t, charset)

end RecollFilters.Chm
