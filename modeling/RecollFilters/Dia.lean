import RecollFilters.Markup

/-! # The Dia filter

`rcldia.py` collects the text of a Dia diagram. Expat reports the start tags, end tags and
character data of the diagram's XML, and the `Parser` keeps each piece of character data that
comes right after a `dia:string` start tag, with the `#` marks Dia puts around a string taken
off by three regular expressions. `DiaExtractor.html_text` joins what it kept in one `<pre>`
block. Expat is taken at the events it reports: it may report one text in several pieces.

The kept pieces are those whose last element event before them is a `dia:string` start tag
(`feed_string`), and on a line each piece loses a leading `#` with the spaces after it and a
final `#`, but not the spaces before that final `#`.
-/

namespace RecollFilters

set_option autoImplicit false

namespace Dia

open Markup

/-- What expat reports to the handlers `Parser` installs. -/
inductive XmlEvent
  | startElement (name : Str)
  | endElement (name : Str)
  | characterData (data : Str)
  deriving DecidableEq, Repr

/-! ### The regular expressions -/

/-- `rhs.sub(r"\1", data)` for `rhs = re.compile(r"^#\s*(.*)")`. The pattern is anchored at
the start, so it matches at most once; the group `(.*)` matches the empty string, so `\s*`
keeps its whole run; the match is replaced by the group and the text after it stays. -/
def rhsSub (data : Str) : Str :=
  match data with
  | '#' :: rest =>
    let r := rest.dropWhile isStrSpace
    let group := r.takeWhile (· ≠ '\n')
    group ++ r.drop group.length
  | _ => data

/-- `\s*#$`, the end of `rhe`: `#` is not a space, so only the whole run of spaces can come
before it, and `$` matches at the end of the text or before its final newline. What follows
the match. -/
def rheTail (r : Str) : Option Str :=
  match r.dropWhile isStrSpace with
  | '#' :: rest => if rest = [] ∨ rest = ['\n'] then some rest else none
  | _ => none

/-- `rhe.sub(r"\1", data)` for `rhe = re.compile(r"(.*)\s*#$")`: the leftmost match, with its
greedy group kept. A match ends at the end of the text or before its final newline, where no
other match starts (`rheTail_no_rematch`). -/
def rheSub (data : Str) : Str :=
  match search (dotStar false rheTail) data with
  | some (pre, group, rest) => pre ++ group ++ rest
  | none => data

def dropHash : Str → Str
  | '#' :: r => r
  | r => r

/-- `rempty.search(data)` for `rempty = re.compile(r"^#?\s*#?$")`, anchored at the start.
Each `#?` takes its `#` when there is one and `\s*` takes its whole run: a shorter choice
leaves a `#` or a space that the rest matches only when it is a final newline, and then the
longer choice matches too. -/
def remptySearch (data : Str) : Bool :=
  let r := dropHash ((dropHash data).dropWhile isStrSpace)
  r = [] ∨ r = ['\n']

/-- The text `chardata` keeps for a piece of character data. -/
def clean (data : Str) : Str := rheSub (rhsSub data)

/-! ### The parser -/

/-- The `Parser`'s state: the strings kept so far, and `handlethis`. -/
structure Parser where
  string : List Str
  handlethis : Bool
  deriving DecidableEq, Repr

def Parser.init : Parser := ⟨[], false⟩

def Parser.startelement (p : Parser) (name : Str) : Parser :=
  { p with handlethis := name = "dia:string".toList }

def Parser.chardata (p : Parser) (data : Str) : Parser :=
  if p.handlethis ∧ remptySearch data = false then { p with string := p.string ++ [clean data] }
  else p

def Parser.endelement (p : Parser) (_name : Str) : Parser := { p with handlethis := false }

def Parser.handle (p : Parser) : XmlEvent → Parser
  | .startElement name => p.startelement name
  | .endElement name => p.endelement name
  | .characterData data => p.chardata data

def Parser.feed (p : Parser) (events : List XmlEvent) : Parser := events.foldl Parser.handle p

/-- `DiaExtractor.html_text`, given the events expat reports for the diagram's XML (read
through gzip when the file is compressed), an error where expat raises. -/
def htmlText (htmlescape : Str → Str) (events : Except PyError (List XmlEvent)) :
    Except PyError Str :=
  events.map fun evs =>
    "<html><head><title></title></head><body><pre>".toList ++
      htmlescape (['\n'].intercalate (Parser.init.feed evs).string) ++
      "</pre></body></html>".toList

/-! ### What the parser keeps -/

def XmlEvent.isElement : XmlEvent → Bool
  | .startElement _ => true
  | .endElement _ => true
  | .characterData _ => false

/-- Character data after `pre` is in a `dia:string`: the last element event of `pre` is a
`dia:string` start tag. -/
def InString (pre : List XmlEvent) : Prop :=
  (pre.filter XmlEvent.isElement).getLast? = some (.startElement "dia:string".toList)

instance (pre : List XmlEvent) : Decidable (InString pre) :=
  inferInstanceAs (Decidable (_ = _))

/-- What an event after the history `pre` adds to the kept strings: a piece of character data
in a `dia:string` that `rempty` does not find empty, cleaned. -/
def keptPiece (pre : List XmlEvent) : XmlEvent → List Str
  | .startElement _ => []
  | .endElement _ => []
  | .characterData data => if InString pre ∧ remptySearch data = false then [clean data] else []

def keptFrom (pre : List XmlEvent) : List XmlEvent → List Str
  | [] => []
  | e :: rest => keptPiece pre e ++ keptFrom (pre ++ [e]) rest

theorem inString_append_startElement (pre : List XmlEvent) (name : Str) :
    InString (pre ++ [.startElement name]) ↔ name = "dia:string".toList := by
  simp [InString, XmlEvent.isElement]

theorem inString_append_endElement (pre : List XmlEvent) (name : Str) :
    ¬ InString (pre ++ [.endElement name]) := by
  simp [InString, XmlEvent.isElement]

theorem inString_append_characterData (pre : List XmlEvent) (data : Str) :
    InString (pre ++ [.characterData data]) ↔ InString pre := by
  simp [InString, XmlEvent.isElement]

theorem handle_handlethis {p : Parser} {pre : List XmlEvent}
    (h : p.handlethis = decide (InString pre)) (e : XmlEvent) : (p.handle e).handlethis = decide (InString (pre ++ [e])) := by
  cases e with
  | startElement name =>
    simp [Parser.handle, Parser.startelement, inString_append_startElement]
  | endElement name =>
    simp [Parser.handle, Parser.endelement, inString_append_endElement]
  | characterData data =>
    rw [decide_eq_decide.mpr (inString_append_characterData pre data), ← h]
    simp only [Parser.handle, Parser.chardata]
    split <;> rfl

/-- Over a whole run `handlethis` stays `InString` of the events so far. -/
theorem feed_handlethis : ∀ (events pre : List XmlEvent) (p : Parser),
    p.handlethis = decide (InString pre) →
    (p.feed events).handlethis = decide (InString (pre ++ events))
  | [], pre, p, h => by rw [List.append_nil]; exact h
  | e :: rest, pre, p, h => by
    rw [Parser.feed, List.foldl_cons, ← Parser.feed,
      feed_handlethis rest (pre ++ [e]) (p.handle e) (handle_handlethis h e), List.append_assoc,
      List.singleton_append]

theorem feed_keptFrom : ∀ (events pre : List XmlEvent) (p : Parser),
    p.handlethis = decide (InString pre) →
    (p.feed events).string = p.string ++ keptFrom pre events
  | [], _, p, _ => by simp [Parser.feed, keptFrom]
  | e :: rest, pre, p, h => by
    rw [Parser.feed, List.foldl_cons, ← Parser.feed,
      feed_keptFrom rest (pre ++ [e]) (p.handle e) (handle_handlethis h e), keptFrom,
      ← List.append_assoc]
    congr 1
    cases e with
    | startElement name => simp [Parser.handle, Parser.startelement, keptPiece]
    | endElement name => simp [Parser.handle, Parser.endelement, keptPiece]
    | characterData data =>
      by_cases hc : InString pre ∧ remptySearch data = false <;>
        simp [Parser.handle, Parser.chardata, keptPiece, h, hc]

/-- The parser keeps, in order, the pieces of character data whose last element event before
them is a `dia:string` start tag and that `rempty` does not find empty, each cleaned. -/
theorem feed_string (events : List XmlEvent) :
    (Parser.init.feed events).string = keptFrom [] events :=
  feed_keptFrom events [] Parser.init (by decide)

/-! ### What the regular expressions do to one line -/

theorem drop_takeWhile_length (p : Char → Bool) (r : Str) :
    r.drop (r.takeWhile p).length = r.dropWhile p := by
  calc r.drop (r.takeWhile p).length
      = (r.takeWhile p ++ r.dropWhile p).drop (r.takeWhile p).length := by
        rw [List.takeWhile_append_dropWhile]
    _ = r.dropWhile p := List.drop_left _ _

theorem rhsSub_eq (data : Str) :
    rhsSub data = if data.head? = some '#' then data.tail.dropWhile isStrSpace else data := by
  by_cases hc : data.head? = some '#'
  · obtain ⟨rest, rfl⟩ : ∃ rest, data = '#' :: rest := by
      cases data <;> simp_all
    simp [rhsSub, drop_takeWhile_length]
  · rw [if_neg hc]
    unfold rhsSub
    split
    · simp at hc
    · rfl

theorem rheTail_no_rematch :
    search (dotStar false rheTail) [] = none ∧ search (dotStar false rheTail) ['\n'] = none := by
  decide

theorem not_mem_of_suffix {r s : Str} (h : r <:+ s) (hn : '\n' ∉ s) : '\n' ∉ r :=
  fun hr => hn (h.subset hr)

theorem rheTail_of_not_mem {r rest : Str} (hn : '\n' ∉ r) (h : rheTail r = some rest) :
    r.getLast? = some '#' := by
  unfold rheTail at h
  split at h
  · rename_i rest' hd
    split_ifs at h with hr
    have hs : '#' :: rest' <:+ r := hd ▸ List.dropWhile_suffix isStrSpace
    have hr' : rest' = [] := hr.resolve_right fun h' =>
      not_mem_of_suffix hs hn (by simp [h'])
    rw [← List.takeWhile_append_dropWhile isStrSpace r, hd, hr', List.getLast?_append]
    rfl
  · cases h

theorem dotStar_rheTail_of_last : ∀ {s : Str}, '\n' ∉ s → s.getLast? = some '#' →
    dotStar false rheTail s = some (s.dropLast, [])
  | [c], _, hl => by
    obtain rfl : c = '#' := by simpa using hl
    rfl
  | c :: c' :: cs, hn, hl => by
    have hc : c ≠ '\n' := fun h => hn (h ▸ List.mem_cons_self c _)
    have ih := dotStar_rheTail_of_last (s := c' :: cs) (fun h => hn (List.mem_cons_of_mem c h))
      (by rwa [List.getLast?_cons_cons] at hl)
    rw [dotStar, if_neg (by simp [hc]), ih]
    rfl

theorem dotStar_rheTail_none : ∀ {s : Str}, '\n' ∉ s → s.getLast? ≠ some '#' →
    dotStar false rheTail s = none
  | [], _, _ => rfl
  | c :: cs, hn, hl => by
    have hc : c ≠ '\n' := fun h => hn (h ▸ List.mem_cons_self c _)
    have hcs : cs.getLast? ≠ some '#' := fun h => hl (by
      cases cs with
      | nil => cases h
      | cons d ds => rwa [List.getLast?_cons_cons])
    have ih := dotStar_rheTail_none (fun h => hn (List.mem_cons_of_mem c h)) hcs
    have hm : rheTail (c :: cs) = none := by
      cases h : rheTail (c :: cs) with
      | none => rfl
      | some rest => exact absurd (rheTail_of_not_mem hn h) hl
    rw [dotStar, if_neg (by simp [hc]), ih, hm]
    rfl

theorem search_rheTail_none : ∀ {s : Str}, '\n' ∉ s → s.getLast? ≠ some '#' →
    search (dotStar false rheTail) s = none
  | [], _, _ => rfl
  | c :: cs, hn, hl => by
    have hcs : cs.getLast? ≠ some '#' := fun h => hl (by
      cases cs with
      | nil => cases h
      | cons d ds => rwa [List.getLast?_cons_cons])
    rw [search, dotStar_rheTail_none hn hl,
      search_rheTail_none (fun h => hn (List.mem_cons_of_mem c h)) hcs]
    rfl

theorem rheSub_of_not_mem {d : Str} (hn : '\n' ∉ d) :
    rheSub d = if d.getLast? = some '#' then d.dropLast else d := by
  unfold rheSub
  split_ifs with hl
  · obtain ⟨c, cs, rfl⟩ := List.exists_cons_of_ne_nil fun h : d = [] => by simp [h] at hl
    rw [search, dotStar_rheTail_of_last hn hl]
    simp
  · rw [search_rheTail_none hn hl]

/-- On a line, `chardata` keeps the text without a leading `#` and the spaces after it, and
without one final `#`; the spaces before that final `#` stay, as `.*` in `rhe` is greedy. -/
theorem clean_of_not_mem {d : Str} (hn : '\n' ∉ d) :
    clean d =
      let r := if d.head? = some '#' then d.tail.dropWhile isStrSpace else d
      if r.getLast? = some '#' then r.dropLast else r := by
  have hr : '\n' ∉ (if d.head? = some '#' then d.tail.dropWhile isStrSpace else d) := by
    split
    · exact not_mem_of_suffix ((List.dropWhile_suffix _).trans (List.tail_suffix d)) hn
    · exact hn
  rw [clean, rhsSub_eq, rheSub_of_not_mem hr]

theorem clean_of_not_mem_spaced_note :
    '\n' ∉ "# note #".toList ∧ clean "# note #".toList = "note ".toList :=
  ⟨by decide, (clean_of_not_mem (by decide)).trans (by decide)⟩

/-- `html_text` on a diagram expat reads: the kept pieces, joined by newlines and escaped, in
one `<pre>` block; and after any events the parser's `handlethis` says whether the last element
event among them is a `dia:string` start tag. -/
theorem htmlText_keptFrom (htmlescape : Str → Str) (events : List XmlEvent) :
    htmlText htmlescape (.ok events) =
      .ok ("<html><head><title></title></head><body><pre>".toList ++
        htmlescape (['\n'].intercalate (keptFrom [] events)) ++ "</pre></body></html>".toList) ∧
    ∀ pre : List XmlEvent, (Parser.init.feed pre).handlethis = true ↔ InString pre := by
  refine ⟨by rw [htmlText, ← feed_string]; rfl, fun pre => ?_⟩
  rw [feed_handlethis pre [] Parser.init rfl, List.nil_append, decide_eq_true_iff]

end Dia

end RecollFilters
