import RecollFilters.Session
import RecollFilters.Posix

/-! # The GNU info filter

`InfoSimpleSplitter.splitinfo` cuts the output of `info --subnodes` into nodes in one pass
over its lines and then, in a second pass over the finished node table, titles each node by
its `Up` chain. `InfoExtractor` serves the titled nodes through the shared cursor session.
-/

namespace RecollFilters

set_option autoImplicit false

/-- A node name as `splitinfo` holds it: a header's `Node` value, or `str(index)` for a
header without one, which is a `str` where every other name is `bytes`. -/
inductive NodeName
  | bytes (b : Bytes)
  | str (s : Str)
  deriving DecidableEq, Repr

namespace InfoSimpleSplitter

/-! ### The scanning loop -/

/-- What the `for pair in pairs` loop of a header line writes. -/
structure HeaderFields where
  nodename : NodeName
  up : Bytes
  infofile : Bytes

/-- The `for pair in pairs` loop: a pair that does not split into exactly a name and a value
raises `ValueError`, and the error carries `infofile` as the loop had written it by then. -/
def readPairs (f : HeaderFields) : List Bytes → Except Bytes HeaderFields
  | [] => .ok f
  | pair :: rest =>
    match split ':' pair with
    | [name, value] =>
      let name := strip [' '] name
      let value := strip [' '] value
      let f := if name = "Node".toList then { f with nodename := .bytes value } else f
      let f := if name = "Up".toList then { f with up := value } else f
      let f := if name = "File".toList then { f with infofile := value } else f
      readPairs f rest
    | _ => .error f.infofile

/-- The local variables of `splitinfo` between two lines; `nodeDict` lists the assignments
to `node_dict`, latest first, so that `lookup` reads the dictionary. -/
structure Scan where
  gotblankline : Bool
  index : Nat
  listout : List (NodeName × Bytes)
  nodeDict : List (NodeName × Bytes)
  node : Bytes
  infofile : Bytes
  nodename : NodeName

def Scan.addLine (st : Scan) (line : Bytes) : Scan :=
  { st with gotblankline := rstrip ['\n', '\r'] line = [], node := st.node ++ line }

def Scan.isHeader (st : Scan) (line : Bytes) : Bool :=
  st.gotblankline && "File: ".toList.isPrefixOf (lstrip [' '] line)

/-- One iteration of `for line in fin`. A header whose fields do not parse is kept as node
text without its line terminator, and `continue` skips the blank-line update. -/
def Scan.step (st : Scan) (line : Bytes) : Scan :=
  if st.isHeader line then
    let prevnodename := st.nodename
    let line := rstrip ['\n', '\r'] line
    match readPairs ⟨.str (pyStr st.index), "Top".toList, st.infofile⟩ (split ',' line) with
    | .error infofile => { st with infofile, nodename := prevnodename, node := st.node ++ line }
    | .ok f =>
      Scan.addLine
        { st with
          nodename := f.nodename
          infofile := f.infofile
          nodeDict := (f.nodename, f.up) :: st.nodeDict
          listout := if st.index ≠ 0 then st.listout ++ [(prevnodename, st.node)] else st.listout
          node := []
          index := st.index + 1 } line
  else st.addLine line

def Scan.init (filename : Bytes) : Scan :=
  ⟨true, 0, [], [], [], Posix.basename filename, .bytes "Unknown".toList⟩

def scan (filename : Bytes) (lines : List Bytes) : List (NodeName × Bytes) × Scan :=
  let st := lines.foldl Scan.step (Scan.init filename)
  (if st.node ≠ [] then st.listout ++ [(st.nodename, st.node)] else st.listout, st)

/-! ### What the scanning loop computes

A line is examined as a header when it starts with `File: ` after its leading spaces and it
comes first, follows a blank line or follows a rejected examined header; an examined header is
accepted when each of its fields splits into exactly a name and a value. `Scan.finish` says
what the loop yields from any state on the lines left, so that the fold is proved against it
one line at a time. -/

def isBlank (line : Bytes) : Bool := rstrip ['\n', '\r'] line = []

def startsFile (line : Bytes) : Bool := "File: ".toList.isPrefixOf (lstrip [' '] line)

def fieldsSplit (line : Bytes) : Bool :=
  (split ',' (rstrip ['\n', '\r'] line)).all fun pair => (split ':' pair).length == 2

inductive Mark
  | plain
  | rejected
  | accepted
  deriving DecidableEq, Repr

/-- The mark of a line, `may` telling whether it may be examined as a header. -/
def markOf (may : Bool) (line : Bytes) : Mark :=
  if may && startsFile line then if fieldsSplit line then .accepted else .rejected else .plain

/-- The line after `line` may be examined when `line` is blank or a rejected examined header. -/
def nextMay (may : Bool) (line : Bytes) : Bool := markOf may line = .rejected || isBlank line

def marked : Bool → List Bytes → List (Mark × Bytes)
  | _, [] => []
  | may, line :: rest => (markOf may line, line) :: marked (nextMay may line) rest

def Mark.text : Mark → Bytes → Bytes
  | .plain, line => line
  | .rejected, line => rstrip ['\n', '\r'] line
  | .accepted, line => rstrip ['\n', '\r'] line

def markedText (ml : List (Mark × Bytes)) : Bytes := (ml.map fun p => p.1.text p.2).flatten

/-- A marked stream cut before each accepted header: the lines before the first one, and each
accepted header's line with the lines up to the next one. -/
def cut : List (Mark × Bytes) → List (Mark × Bytes) × List (Bytes × List (Mark × Bytes))
  | [] => ([], [])
  | (m, line) :: rest =>
    if m = .accepted then ([], (line, (cut rest).1) :: (cut rest).2)
    else ((m, line) :: (cut rest).1, (cut rest).2)

def nodeField (pair : Bytes) : Option Bytes :=
  match split ':' pair with
  | [name, value] => if strip [' '] name = "Node".toList then some (strip [' '] value) else none
  | _ => none

def nodeValue : List Bytes → Option Bytes
  | [] => none
  | pair :: rest => (nodeValue rest).or (nodeField pair)

def headerName (k : Nat) (header : Bytes) : NodeName :=
  (nodeValue (split ',' (rstrip ['\n', '\r'] header))).elim (.str (pyStr k)) .bytes

/-- The records of the accepted headers from the `k`-th on, each with the lines up to the
next one. -/
def records : Nat → List (Bytes × List (Mark × Bytes)) → List (NodeName × Bytes)
  | _, [] => []
  | k, (header, body) :: segs =>
    (headerName k header, rstrip ['\n', '\r'] header ++ markedText body) :: records (k + 1) segs

def Scan.finish (st : Scan) (rest : List Bytes) : List (NodeName × Bytes) :=
  let c := cut (marked st.gotblankline rest)
  let node := st.node ++ markedText c.1
  if c.2 = [] then (if node ≠ [] then st.listout ++ [(st.nodename, node)] else st.listout)
  else st.listout ++ (if st.index ≠ 0 then [(st.nodename, node)] else []) ++ records st.index c.2

@[simp] theorem markedText_nil : markedText [] = [] := rfl

@[simp] theorem markedText_cons (m : Mark) (line : Bytes) (ml : List (Mark × Bytes)) :
    markedText ((m, line) :: ml) = m.text line ++ markedText ml := rfl

theorem markedText_append (ml ml' : List (Mark × Bytes)) :
    markedText (ml ++ ml') = markedText ml ++ markedText ml' := by
  simp [markedText]

theorem readPairs_error {f : HeaderFields} {pairs : List Bytes} {e : Bytes}
    (h : readPairs f pairs = .error e) : (pairs.all fun pair => (split ':' pair).length == 2) = false := by
  induction pairs generalizing f with
  | nil => cases h
  | cons pair rest ih =>
    rcases hs : split ':' pair with _ | ⟨a, _ | ⟨b, _ | ⟨c, cs⟩⟩⟩ <;> simp only [readPairs, hs] at h
    · simp [hs]
    · simp [hs]
    · simp [hs, ih h]
    · simp [hs]

theorem readPairs_ok {f f' : HeaderFields} {pairs : List Bytes} (h : readPairs f pairs = .ok f') :
    (pairs.all fun pair => (split ':' pair).length == 2) = true ∧
      f'.nodename = (nodeValue pairs).elim f.nodename .bytes := by
  induction pairs generalizing f with
  | nil => cases h; simp [nodeValue]
  | cons pair rest ih =>
    rcases hs : split ':' pair with _ | ⟨a, _ | ⟨b, _ | ⟨c, cs⟩⟩⟩ <;> simp only [readPairs, hs] at h
    · cases h
    · cases h
    · obtain ⟨hall, hname⟩ := ih h
      refine ⟨by simp [hs, hall], ?_⟩
      rw [hname, nodeValue, nodeField, hs]
      cases nodeValue rest
      · dsimp only [Option.or, Option.elim]
        split_ifs <;> rfl
      · rfl
    · cases h

theorem cut_fst_ne : ∀ (ml : List (Mark × Bytes)), ∀ p ∈ (cut ml).1, p.1 ≠ .accepted
  | [], _, hp => nomatch hp
  | (m, line) :: rest, p, hp => by
    unfold cut at hp
    split_ifs at hp with hm
    · cases hp
    · rcases List.mem_cons.mp hp with rfl | hp
      · exact hm
      · exact cut_fst_ne rest p hp

theorem cut_snd_ne : ∀ (ml : List (Mark × Bytes)), ∀ s ∈ (cut ml).2, ∀ p ∈ s.2, p.1 ≠ .accepted
  | [], _, hs => nomatch hs
  | (m, line) :: rest, s, hs => by
    unfold cut at hs
    split_ifs at hs
    · rcases List.mem_cons.mp hs with rfl | hs
      · exact cut_fst_ne rest
      · exact cut_snd_ne rest s hs
    · exact cut_snd_ne rest s hs

theorem cut_snd_flatten : ∀ (ml : List (Mark × Bytes)),
    ml.dropWhile (·.1 ≠ .accepted) = ((cut ml).2.map fun s => (.accepted, s.1) :: s.2).flatten ∧
      ml = (cut ml).1 ++ ((cut ml).2.map fun s => (.accepted, s.1) :: s.2).flatten
  | [] => ⟨rfl, rfl⟩
  | (m, line) :: rest => by
    obtain ⟨h1, h2⟩ := cut_snd_flatten rest
    unfold cut
    by_cases hm : m = .accepted
    · subst hm
      simp [← h2]
    · simpa [hm, ← h2] using h1

theorem cut_snd_eq_nil {ml : List (Mark × Bytes)} :
    (cut ml).2 = [] ↔ ∀ p ∈ ml, p.1 ≠ .accepted := by
  constructor
  · intro h
    rw [(cut_snd_flatten ml).2, h, List.map_nil, List.flatten_nil, List.append_nil]
    exact cut_fst_ne ml
  · intro h
    have hd := (cut_snd_flatten ml).1
    rw [List.dropWhile_eq_nil_iff.mpr (by simpa using h)] at hd
    cases hc : (cut ml).2 with
    | nil => rfl
    | cons s segs => simp [hc] at hd

theorem records_text : ∀ (k : Nat) (segs : List (Bytes × List (Mark × Bytes))),
    ((records k segs).map Prod.snd).flatten =
      markedText ((segs.map fun s => (.accepted, s.1) :: s.2).flatten)
  | _, [] => rfl
  | k, (header, body) :: segs => by
    simp only [records, List.map_cons, List.flatten_cons, records_text (k + 1) segs,
      markedText_append, markedText_cons, Mark.text, List.append_assoc]

theorem startsFile_rstrip_ne_nil {line : Bytes} (h : startsFile line = true) :
    rstrip ['\n', '\r'] line ≠ [] := by
  intro hnil
  have hF : 'F' ∈ lstrip [' '] line :=
    (List.isPrefixOf_iff_prefix.mp h).subset (by decide)
  have := (List.rdropWhile_eq_nil_iff.mp hnil) 'F' ((List.dropWhile_suffix _).subset hF)
  simp at this

theorem Scan.finish_step (st : Scan) (line : Bytes) (rest : List Bytes) :
    st.finish (line :: rest) = (st.step line).finish rest := by
  by_cases hh : st.isHeader line = true
  · obtain ⟨hg, hs⟩ : st.gotblankline = true ∧ startsFile line = true := by
      simpa [Scan.isHeader, startsFile] using hh
    have hne := startsFile_rstrip_ne_nil hs
    rcases hr : readPairs ⟨.str (pyStr st.index), "Top".toList, st.infofile⟩
      (split ',' (rstrip ['\n', '\r'] line)) with infofile | f
    · have hm : markOf true line = .rejected := by
        simp [markOf, hs, fieldsSplit, readPairs_error hr]
      rw [Scan.step, if_pos hh]; dsimp only; rw [hr]
      simp [Scan.finish, marked, hg, hm, nextMay, cut, Mark.text, List.append_assoc]
    · obtain ⟨hall, hname⟩ := readPairs_ok hr
      have hm : markOf true line = .accepted := by
        simp [markOf, hs, fieldsSplit, hall]
      have hb : isBlank line = false := by simp [isBlank, hne]
      rw [Scan.step, if_pos hh]; dsimp only; rw [hr]
      have hrr : rstrip ['\n', '\r'] (rstrip ['\n', '\r'] line) = rstrip ['\n', '\r'] line :=
        List.rdropWhile_idempotent _ _
      simp [Scan.finish, marked, hg, hm, nextMay, hb, cut, Scan.addLine, hrr, hne, records, hname,
        headerName]
      split_ifs <;> simp_all [records]
  · have hm : markOf st.gotblankline line = .plain := by
      simp_all [markOf, Scan.isHeader, startsFile]
    rw [Scan.step, if_neg hh]
    simp [Scan.finish, marked, hm, nextMay, cut, Scan.addLine, isBlank, Mark.text, List.append_assoc]

theorem Scan.finish_nil (st : Scan) :
    st.finish [] = if st.node ≠ [] then st.listout ++ [(st.nodename, st.node)] else st.listout := by
  simp [Scan.finish, marked, cut]

theorem Scan.finish_eq_foldl : ∀ (lines : List Bytes) (st : Scan),
    st.finish lines = (lines.foldl Scan.step st).finish []
  | [], _ => rfl
  | line :: rest, st => by rw [Scan.finish_step, List.foldl_cons, Scan.finish_eq_foldl rest]

theorem scan_eq_finish (filename : Bytes) (lines : List Bytes) :
    (scan filename lines).1 = (Scan.init filename).finish lines := by
  rw [Scan.finish_eq_foldl, Scan.finish_nil]; rfl

/-- The records of the scanning loop partition the stream at its accepted headers. With no
accepted header, the whole text, examined headers without their CR/LF, is one record named
`Unknown`, or no record when that text is empty. Otherwise the stream from the first accepted
header on is cut before each accepted header, and the `k`-th piece is the `k`-th record: named
by its header's `Node` value or `str(k)`, its bytes the piece's with only the examined headers'
CR/LF removed. -/
theorem scan_partitions (filename : Bytes) (lines : List Bytes) :
    ((∀ p ∈ marked true lines, p.1 ≠ .accepted) →
      (scan filename lines).1 =
        if markedText (marked true lines) = [] then []
        else [(.bytes "Unknown".toList, markedText (marked true lines))]) ∧
    ((∃ p ∈ marked true lines, p.1 = .accepted) →
      ∃ segs : List (Bytes × List (Mark × Bytes)),
        (marked true lines).dropWhile (·.1 ≠ .accepted) =
          (segs.map fun s => (.accepted, s.1) :: s.2).flatten ∧
        (∀ s ∈ segs, ∀ p ∈ s.2, p.1 ≠ .accepted) ∧
        (scan filename lines).1 = records 0 segs ∧
        ((scan filename lines).1.map Prod.snd).flatten =
          markedText ((marked true lines).dropWhile (·.1 ≠ .accepted))) := by
  have hsplit := cut_snd_flatten (marked true lines)
  rw [scan_eq_finish]
  constructor
  · intro h
    have hnil := cut_snd_eq_nil.mpr h
    have hfst : (cut (marked true lines)).1 = marked true lines := by
      simpa [hnil] using hsplit.2.symm
    simp [Scan.finish, Scan.init, hnil, hfst]
  · rintro ⟨p, hp, hacc⟩
    have hne : (cut (marked true lines)).2 ≠ [] := fun h => cut_snd_eq_nil.mp h p hp hacc
    have hrec : (Scan.init filename).finish lines = records 0 (cut (marked true lines)).2 := by
      simp [Scan.finish, Scan.init, hne]
    refine ⟨_, hsplit.1, cut_snd_ne _, hrec, ?_⟩
    rw [hrec, records_text, hsplit.1]

/-- A rejected header loses its terminator, and an empty stream gives no record. -/
theorem scan_rejected_header_loses_terminator :
    (scan "f".toList []).1 = [] ∧
      (scan "f".toList ["File: a: b\n".toList]).1 = [(.bytes "Unknown".toList, "File: a: b".toList)] := by
  decide

/-! ### The title pass -/

/-- The `while nodename != b"Top"` loop for one record, with `budget` the iterations left
before `loop > 50`: the title built so far once `Top` is reached, `none` when the record is
dropped, `TypeError` when a `str` name meets the `bytes` concatenation. -/
def upTitle (nodeDict : List (NodeName × Bytes)) : Nat → NodeName → Bytes →
    Except PyError (Option Bytes)
  | budget, name, title =>
    if name = .bytes "Top".toList then .ok (some title)
    else
      match name with
      | .str _ => .error .typeError
      | .bytes b =>
        match nodeDict.lookup name with
        | none => .ok none
        | some up =>
          match budget with
          | 0 => .ok none
          | budget + 1 => upTitle nodeDict budget (.bytes up) (b ++ " / ".toList ++ title)

/-- The title of one record, prefixed by the display name and `rstrip(b" / ")`-ed. -/
def titleOf (nodeDict : List (NodeName × Bytes)) (infofile : Bytes) (name : NodeName) :
    Except PyError (Option Bytes) := do
  match ← upTitle nodeDict 50 name [] with
  | none => pure none
  | some title =>
    let title := if title = [] then infofile else infofile ++ " / ".toList ++ title
    pure (some (rstrip [' ', '/'] title))

def titlePass (nodeDict : List (NodeName × Bytes)) (infofile : Bytes) :
    List (NodeName × Bytes) → Except PyError (List (Bytes × Bytes))
  | [] => .ok []
  | (name, node) :: rest => do
    let t ← titleOf nodeDict infofile name
    let out ← titlePass nodeDict infofile rest
    pure (match t with
      | some title => (title, node) :: out
      | none => out)

/-! ### What the title pass computes -/

/-- The `Up` chain of a node, the node first and `Top` left out, when it reaches `Top` through
names the table knows within `budget` lookups. -/
def upChain (nodeDict : List (NodeName × Bytes)) : Nat → Bytes → Option (List Bytes)
  | budget, name =>
    if name = "Top".toList then some []
    else
      match nodeDict.lookup (.bytes name) with
      | none => none
      | some up =>
        match budget with
        | 0 => none
        | budget + 1 => (upChain nodeDict budget up).map (name :: ·)

def chainPath (chain : List Bytes) : Bytes := (chain.reverse.map (· ++ " / ".toList)).flatten

def chainTitle (infofile : Bytes) (chain : List Bytes) : Bytes :=
  if chain = [] then infofile else infofile ++ " / ".toList ++ chainPath chain

theorem chainPath_eq_nil {chain : List Bytes} : chainPath chain = [] ↔ chain = [] := by
  cases chain using List.reverseRecOn <;> simp [chainPath]

theorem upTitle_bytes (nodeDict : List (NodeName × Bytes)) :
    ∀ (budget : Nat) (name title : Bytes), upTitle nodeDict budget (.bytes name) title =
      .ok ((upChain nodeDict budget name).map (chainPath · ++ title))
  | budget, name, title => by
    rw [upTitle, upChain]
    by_cases ht : name = "Top".toList
    · simp [ht, chainPath]
    · simp only [NodeName.bytes.injEq, ht, if_false]
      cases nodeDict.lookup (.bytes name) with
      | none => rfl
      | some up =>
        cases budget with
        | zero => rfl
        | succ budget =>
          dsimp only
          rw [upTitle_bytes nodeDict budget up]
          cases upChain nodeDict budget up <;> simp [chainPath]

theorem titleOf_bytes (nodeDict : List (NodeName × Bytes)) (infofile name : Bytes) :
    titleOf nodeDict infofile (.bytes name) =
      .ok ((upChain nodeDict 50 name).map (rstrip [' ', '/'] <| chainTitle infofile ·)) := by
  rw [titleOf, upTitle_bytes]
  cases upChain nodeDict 50 name <;> simp [chainTitle, chainPath_eq_nil, bind, Except.bind, pure,
    Except.pure]

/-- On records named by `bytes`, the title pass never raises: it keeps, in order, the records
whose `Up` chain reaches `Top` within 50 lookups through known names, and titles each by the
display name and its chain, with trailing spaces and slashes stripped. -/
theorem titlePass_bytes (nodeDict : List (NodeName × Bytes)) (infofile : Bytes)
    (records : List (Bytes × Bytes)) :
    titlePass nodeDict infofile (records.map fun r => (.bytes r.1, r.2)) =
      .ok (records.filterMap fun r =>
        (upChain nodeDict 50 r.1).map fun chain => (rstrip [' ', '/'] (chainTitle infofile chain), r.2)) := by
  induction records with
  | nil => rfl
  | cons r records ih =>
    simp only [List.map_cons, List.filterMap_cons, titlePass, titleOf_bytes, ih, bind, Except.bind]
    cases upChain nodeDict 50 r.1 <;> rfl

/-- A node named `a/` under `Top`: its title loses the `/` ending its name, as
`rstrip(b" / ")` strips a set of characters. -/
theorem titlePass_strips_trailing_slash :
    titlePass [(.bytes "a/".toList, "Top".toList)] "info".toList [(.bytes "a/".toList, "x".toList)] =
      .ok [("info / a".toList, "x".toList)] := by
  decide

def splitinfo (filename : Bytes) (lines : List Bytes) : Except PyError (List (Bytes × Bytes)) :=
  let (listout, st) := scan filename lines
  titlePass st.nodeDict st.infofile listout

/-- A header line without a `Node` field names its node `str(0)`, a `str`, and the title
pass raises `TypeError` on it. -/
theorem splitinfo_header_without_node_raises :
    splitinfo "f".toList ["File: a\n".toList] = .error .typeError := by
  decide

end InfoSimpleSplitter

namespace InfoExtractor

variable (htmlescape : Bytes → Bytes)

def nodePage (nodename docdata : Bytes) : Bytes :=
  "\n<html>\n  <head>\n      <title>".toList ++ htmlescape nodename ++ "</title>\n".toList ++
    "      <meta name=\"rclaptg\" content=\"gnuinfo\">\n".toList ++
    "   </head>\n   <body>\n".toList ++ "   <pre style=\"white-space: pre-wrap\">\n   ".toList ++
    htmlescape docdata ++ "\n   </pre></body>\n</html>\n".toList

abbrev State := Session Unit (Bytes × Bytes)

/-- `InfoExtractor.extractone`: a negative index reads from the end of the list. -/
def extractone (s : State) (index : Int) : Except PyError (Answer × State) :=
  if (s.contents.length : Int) ≤ index then .ok (⟨false, [], [], .bareTrue⟩, s)
  else do
    let (nodename, docdata) ← pyGetItem s.contents index
    pure (⟨true, nodePage htmlescape nodename docdata, pyStr index, s.iseof⟩,
      s.setmimetype "text/html".toList)

/-- `InfoExtractor.getipath`: the ipath is read with `int()`. -/
def getipath (s : State) (ipath : Bytes) : Except PyError (Answer × State) :=
  match pyInt ipath with
  | none => .ok (⟨false, [], [], .bareTrue⟩, s)
  | some index => extractone htmlescape s index

def filter : CursorFilter Unit (Bytes × Bytes) where
  closes := false
  selfType := "text/plain".toList
  selfData _ := []
  extractone := extractone htmlescape
  entry _ i a := ⟨true, nodePage htmlescape a.1 a.2, pyStr i⟩
  entryType _ _ _ := some "text/html".toList
  extractone_eq s i a _ hi ha := by
    have hlt : i < s.contents.length := (List.getElem?_eq_some_iff.mp ha).1
    simp only [extractone, pyGetItem_of_getElem? ha,
      if_neg (show ¬(s.contents.length : Int) ≤ i by omega)]
    rfl

theorem extractone_frame {s t : State} {i : Int} {r : Answer}
    (h : extractone htmlescape s i = .ok (r, t)) : Session.Frame s t := by
  unfold extractone at h
  split_ifs at h
  · cases h; exact .refl s
  · obtain ⟨⟨_, _⟩, -, h⟩ := except_bind_eq_ok.mp h
    cases h; exact .setmimetype s _

theorem getipath_pyStr (s : State) {i : Nat} {a : Bytes × Bytes} (ha : s.contents[i]? = some a)
    (hd : (pyStr i).length ≤ 4300) :
    getipath htmlescape s (pyStr i) = .ok (⟨true, nodePage htmlescape a.1 a.2, pyStr i, s.iseof⟩,
      s.setmimetype "text/html".toList) := by
  have hlt : i < s.contents.length := (List.getElem?_eq_some_iff.mp ha).1
  rw [getipath, pyInt_pyStr hd]
  simp only [extractone, if_neg (show ¬(s.contents.length : Int) ≤ i by omega),
    pyGetItem_of_getElem? ha]
  rfl

theorem getipath_frame : CursorFilter.GetipathFrame (getipath htmlescape) := by
  intro s a r t h
  unfold getipath at h
  split at h
  · cases h; exact .refl s
  · exact extractone_frame htmlescape h

def getnext : State → Except PyError (Answer × State) := (filter htmlescape).getnext

/-- `InfoExtractor.openfile` once `info` has written `lines`: `isfile` is `os.path.isfile`. -/
def openfile (filename : Bytes) (isfile : Bool) (lines : List Bytes) (s : State) :
    Except PyError (Bool × State) :=
  if !isfile then .ok (false, s)
  else do
    let contents ← InfoSimpleSplitter.splitinfo filename lines
    pure (true, { s with currentindex := -1, contents })

theorem openfile_opened {filename : Bytes} {isfile : Bool} {lines : List Bytes} {s s' : State}
    (h : openfile filename isfile lines s = .ok (true, s')) : s'.currentindex = -1 := by
  unfold openfile at h
  split_ifs at h
  · cases h
  · obtain ⟨_, -, h⟩ := except_bind_eq_ok.mp h
    cases h; rfl

end InfoExtractor

end RecollFilters
