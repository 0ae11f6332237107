import RecollFilters.Markup
import Mathlib.Data.Rat.Defs
import Mathlib.Algebra.Order.Field.Rat
import Mathlib.Tactic.NormNum.Ineq

/-! # The karaoke filter

`KarTextExtractor.html_text` reads the events of a MIDI karaoke file: text-meta events carry
the lyrics and, after `@T`, `@L` and `@I`, the title, author, language and information lines;
lyrics and track-name events carry lyrics. Every piece is kept twice, cut at its first null
byte and whole. The encoding then comes from the file name, the `chardet` detector or the
default `__init__` computed, and the four fields are decoded with it into an HTML page.
`Loop.reading` says what the loop ends with, read off the events themselves.

The loop reads `nl` before any track-name event has bound it, `titleN` and `authorN` are bound
only by `@T` events, and the detector's encoding is lower-cased even when it is `None`; each
of these is an exception of `html_text`. The MIDI reader, the detector, the stopword
classifier, the codec registry and `htmlescape` are parameters.
-/

namespace RecollFilters.Kar

set_option autoImplicit false

open Markup

/-! ### The encoding from the file name and `__init__` -/

/-- `\.[a-zA-Z]+$` at the start of `s`; `$` also matches before a last newline. -/
def extAtEnd : List Char → Bool
  | '.' :: rest =>
    let run := rest.takeWhile fun c => c.isAlpha
    run ≠ [] && (rest.drop run.length = [] || rest.drop run.length = ['\n'])
  | _ => false

/-- `\(([^\)]+)\)\.[a-zA-Z]+$` at the start of `s`: the group. `[^\)]+` takes the whole run
before the next `)`, as a shorter run would leave no `)` after it. -/
def parenGroup : List Char → Option Bytes
  | '(' :: rest =>
    let group := rest.takeWhile (· ≠ ')')
    match rest.drop group.length with
    | ')' :: ext => if group ≠ [] ∧ extAtEnd ext then some group else none
    | _ => none
  | _ => none

/-- `KarTextExtractor.encodingfromfilename`: the group of the first match, as `bytes`. -/
def encodingfromfilename (fn : Bytes) : Option Bytes := (search parenGroup fn).map (·.2)

/-- The encoding `html_text` takes from the file name. The group is `bytes`, so
`codecs.lookup` raises `TypeError` on it, and the `except` clause clears it. -/
def filenameEncoding (fn : Bytes) : Str :=
  match encodingfromfilename fn with
  | some _ => []
  | none => []

def lower (s : Str) : Str := s.map Char.toLower

/-- `KarTextExtractor.__init__`'s `defaultencoding`: the file system encoding (`none` when the
call returns `None`, and then `sys.getdefaultencoding()`), replaced by `cp1252` when empty, an
ASCII variant, or unknown to the registry. -/
def initDefault (fsencoding : Option Str) (sysdefault : Str) (known : Str → Bool) : Str :=
  let enc := fsencoding.getD sysdefault
  let enc :=
    if enc = [] ∨ (lower enc).tails.any ("ascii".toList.isPrefixOf ·) then "cp1252".toList else enc
  if known enc then enc else "cp1252".toList

theorem initDefault_checked (fsencoding : Option Str) (sysdefault : Str) (known : Str → Bool) :
    initDefault fsencoding sysdefault known = "cp1252".toList ∨
      (known (initDefault fsencoding sysdefault known) = true ∧
        initDefault fsencoding sysdefault known ≠ [] ∧
        (lower (initDefault fsencoding sysdefault known)).tails.any
          ("ascii".toList.isPrefixOf ·) = false) := by
  simp only [initDefault]
  split_ifs with h1 h2 <;> simp_all

def acceptnullencodings : List Str :=
  ["csucs4", "csunicode", "csunicode11", "iso-10646-ucs-2", "iso-10646-ucs-4", "u16", "u32",
    "ucs-2", "ucs-2-internal", "ucs-2-swapped", "ucs-2be", "ucs-2le", "ucs-4", "ucs-4-internal",
    "ucs-4-swapped", "ucs-4be", "ucs-4le", "unicode-1-1", "unicodebig", "unicodelittle",
    "utf-16", "utf-16be", "utf-16le", "utf-32", "utf-32be", "utf-32le", "utf16", "utf32",
    "utf_16", "utf_16_be", "utf_16_le", "utf_32", "utf_32_be", "utf_32_le"].map String.toList

/-! ### The event loop -/

inductive MidiEvent
  | textMeta (data : Bytes)
  | lyrics (data : Bytes)
  | trackName (data : Bytes)
  | other
  deriving DecidableEq, Repr

/-- `KarTextExtractor.nulltrunc`: the data up to its first null byte, and whether it had one
(`hadnulls`). -/
def nulltrunc (data : Bytes) : Bytes × Bool :=
  if '\x00' ∈ data then (data.takeWhile (· ≠ '\x00'), true) else (data, false)

/-- The loop's variables; `none` is a variable not yet bound (`title`, `author` and `language`
start as `None` and are bound from the start, so `none` is `None` for them). -/
structure Loop where
  title : Option Bytes
  author : Option Bytes
  language : Option Bytes
  lyrics : Bytes
  lyricsN : Bytes
  titleN : Option Bytes
  authorN : Option Bytes
  nl : Option Bytes
  hadnulls : Bool

def Loop.init : Loop := ⟨none, none, none, [], [], none, none, none, false⟩

def Loop.trunc (st : Loop) (data : Bytes) : Bytes × Loop :=
  ((nulltrunc data).1, { st with hadnulls := st.hadnulls || (nulltrunc data).2 })

def Loop.add (st : Loop) (edata : Bytes) : Loop :=
  let (t, st) := st.trunc edata
  { st with lyrics := st.lyrics ++ t, lyricsN := st.lyricsN ++ edata }

/-- A lyrics or track-name event with its data: `nl` is read, and raises when unbound. -/
def Loop.lyricLine (st : Loop) (data : Bytes) : Except PyError Loop :=
  match data, st.nl with
  | [], _ => .ok st
  | _ :: _, none => .error .unboundLocalError
  | c :: rest, some nl =>
    .ok (st.add (if c = '/' ∨ c = '\\' then '\n' :: rest ++ nl else data ++ nl))

/-- An `@` text-meta event `@` `d` `body`: `@I` is an information line, `@L` the language and
the first two `@T` the title and author; other ones add nothing. -/
def Loop.atLine (st : Loop) (d : Char) (body : Bytes) : Loop :=
  if d = 'I' then st.add (body ++ ['\n'])
  else if d = 'L' then
    let (l, st) := st.trunc body
    { st with language := some l }
  else if d = 'T' then
    if st.title = none then
      let (t, st) := st.trunc body
      { st with title := some t, titleN := some body }
    else if st.author = none then
      let (a, st) := st.trunc body
      { st with author := some a, authorN := some body }
    else st
  else st

def Loop.step (st : Loop) : MidiEvent → Except PyError Loop
  | .textMeta [] => .ok st
  | .textMeta (c :: rest) =>
    if c = '/' ∨ c = '\\' then .ok (st.add ('\n' :: rest))
    else if c = '[' ∨ c = ']' then .ok (st.add rest)
    else if c = '@' then
      match rest with
      | [] => .ok st
      | d :: body => .ok (st.atLine d body)
    else .ok (st.add (c :: rest))
  | .lyrics data => st.lyricLine data
  | .trackName data => { st with nl := some ['\n'] }.lyricLine data
  | .other => .ok st

/-! ### When the loop raises -/

def MidiEvent.bindsNl : MidiEvent → Bool
  | .trackName _ => true
  | _ => false

def MidiEvent.readsNl : MidiEvent → Bool
  | .lyrics (_ :: _) => true
  | _ => false

@[simp] theorem Loop.add_nl (st : Loop) (edata : Bytes) : (st.add edata).nl = st.nl := rfl

@[simp] theorem Loop.atLine_nl (st : Loop) (d : Char) (body : Bytes) :
    (st.atLine d body).nl = st.nl := by
  unfold Loop.atLine; split_ifs <;> rfl

theorem MidiEvent.bindsNl_eq_false {ev : MidiEvent} (h : ev.readsNl = true) :
    ev.bindsNl = false := by
  cases ev <;> first | rfl | cases h

theorem Loop.step_textMeta (st : Loop) (data : Bytes) :
    ∃ st', st.step (.textMeta data) = .ok st' ∧ st'.nl = st.nl := by
  rcases data with _ | ⟨c, _ | ⟨d, body⟩⟩
  · exact ⟨st, rfl, rfl⟩
  all_goals simp only [Loop.step]; split_ifs <;> simp

/-- One event raises exactly when it reads an unbound `nl`; otherwise `nl` is bound by a
track name and kept by every other event. -/
theorem Loop.step_cases (st : Loop) (ev : MidiEvent) :
    (st.nl = none ∧ ev.readsNl ∧ st.step ev = .error .unboundLocalError) ∨
    (¬(st.nl = none ∧ ev.readsNl) ∧
      ∃ st', st.step ev = .ok st' ∧ st'.nl = if ev.bindsNl then some ['\n'] else st.nl) := by
  cases ev with
  | textMeta d =>
    right
    refine ⟨by simp [MidiEvent.readsNl], ?_⟩
    exact Loop.step_textMeta st d
  | lyrics d =>
    rcases d with _ | ⟨c, rest⟩
    · exact .inr ⟨by simp [MidiEvent.readsNl], st, rfl, rfl⟩
    · rcases h : st.nl with _ | nl
      · exact .inl ⟨rfl, rfl, by simp [Loop.step, Loop.lyricLine, h]⟩
      · exact .inr ⟨by simp, _, by simp only [Loop.step, Loop.lyricLine, h]; rfl, by simp [h, MidiEvent.bindsNl]⟩
  | trackName d =>
    right
    refine ⟨by simp [MidiEvent.readsNl], ?_⟩
    rcases d with _ | ⟨c, rest⟩ <;> simp [Loop.step, Loop.lyricLine, MidiEvent.bindsNl]
  | other => exact .inr ⟨by simp [MidiEvent.readsNl], st, rfl, rfl⟩

/-- The loop raises, and then with `UnboundLocalError`, exactly when `nl` is unbound and a
lyrics event with data comes before the first track-name event. -/
theorem Loop.foldlM_step_error_iff (events : List MidiEvent) (st : Loop) (e : PyError) :
    events.foldlM Loop.step st = .error e ↔
      e = .unboundLocalError ∧ st.nl = none ∧
        (events.takeWhile fun ev => !ev.bindsNl).any MidiEvent.readsNl := by
  induction events generalizing st with
  | nil => simp [pure, Except.pure]
  | cons ev rest ih =>
    rcases Loop.step_cases st ev with ⟨hn, hr, hs⟩ | ⟨hn, st', hs, hnl⟩
    · have hb : ev.bindsNl = false := by cases ev <;> simp_all [MidiEvent.readsNl, MidiEvent.bindsNl]
      simp [hs, hb, hn, hr, bind, Except.bind, eq_comm]
    · rw [List.foldlM_cons, hs]
      refine (ih st').trans ?_
      cases hb : ev.bindsNl <;> simp_all

/-! ### What a run of the loop computes -/

def MidiEvent.edata : MidiEvent → Bytes
  | .textMeta [] => []
  | .textMeta (c :: rest) =>
    if c = '/' ∨ c = '\\' then '\n' :: rest
    else if c = '[' ∨ c = ']' then rest
    else if c = '@' then
      match rest with
      | 'I' :: body => body ++ ['\n']
      | _ => []
    else c :: rest
  | .lyrics [] | .trackName [] => []
  | .lyrics (c :: rest) | .trackName (c :: rest) =>
    if c = '/' ∨ c = '\\' then '\n' :: rest ++ ['\n'] else c :: rest ++ ['\n']
  | .other => []

def MidiEvent.atBody (d : Char) : MidiEvent → Option Bytes
  | .textMeta ('@' :: d' :: body) => if d' = d then some body else none
  | _ => none

/-- The variables after `events`, read off the events: the lyrics are the events' texts,
whole and cut at their first null byte; the title and author are the first two `@T` bodies
and the language the last `@L` body, cut; `hadnulls` says whether one of the pieces
`nulltrunc` saw had a null byte; a track name binds `nl`. -/
def Loop.reading (events : List MidiEvent) : Loop :=
  let texts := events.map MidiEvent.edata
  let ts := events.filterMap (MidiEvent.atBody 'T')
  let ls := events.filterMap (MidiEvent.atBody 'L')
  { title := ts.head?.map fun t => (nulltrunc t).1
    author := ts[1]?.map fun t => (nulltrunc t).1
    language := ls.getLast?.map fun t => (nulltrunc t).1
    lyrics := (texts.map fun t => (nulltrunc t).1).flatten
    lyricsN := texts.flatten
    titleN := ts.head?
    authorN := ts[1]?
    nl := if events.any MidiEvent.bindsNl then some ['\n'] else none
    hadnulls := (texts ++ ls ++ ts.take 2).any fun t => (nulltrunc t).2 }

@[simp] theorem nulltrunc_nil : nulltrunc [] = ([], false) := rfl

theorem Loop.reading_nl (events : List MidiEvent) :
    (Loop.reading events).nl = if events.any MidiEvent.bindsNl then some ['\n'] else none := rfl

theorem Loop.add_nil (st : Loop) : st.add [] = st := by
  simp [Loop.add, Loop.trunc]

theorem Loop.reading_snoc {events : List MidiEvent} {ev : MidiEvent}
    (hT : ev.atBody 'T' = none) (hL : ev.atBody 'L' = none) :
    Loop.reading (events ++ [ev]) =
      { Loop.reading events with
        nl := if ev.bindsNl then some ['\n'] else (Loop.reading events).nl }.add ev.edata := by
  simp [Loop.reading, Loop.add, Loop.trunc, hT, hL, List.filterMap_append, Bool.or_comm,
    Bool.or_left_comm, Bool.or_assoc]
  split_ifs <;> simp_all

theorem Loop.reading_snoc_of_bindsNl {events : List MidiEvent} {ev : MidiEvent}
    (hT : ev.atBody 'T' = none) (hL : ev.atBody 'L' = none) (hb : ev.bindsNl = false) :
    Loop.reading (events ++ [ev]) = (Loop.reading events).add ev.edata := by
  rw [Loop.reading_snoc hT hL, hb]; rfl

theorem Loop.reading_snoc_at (events : List MidiEvent) (d : Char) (body : Bytes) :
    Loop.reading (events ++ [.textMeta ('@' :: d :: body)]) =
      (Loop.reading events).atLine d body := by
  by_cases hI : d = 'I'
  · subst hI
    rw [Loop.reading_snoc_of_bindsNl (by rfl) (by rfl) (by rfl)]; rfl
  by_cases hL : d = 'L'
  · subst hL
    simp [Loop.reading, Loop.atLine, Loop.trunc, MidiEvent.atBody, MidiEvent.edata,
      MidiEvent.bindsNl, List.filterMap_append, Bool.or_comm, Bool.or_left_comm, Bool.or_assoc]
  by_cases hT : d = 'T'
  · -- the title is taken when no `@T` came before, the author when one did
    subst hT
    rcases hts : events.filterMap (MidiEvent.atBody 'T') with _ | ⟨x, _ | ⟨y, r⟩⟩
    all_goals simp [Loop.reading, Loop.atLine, Loop.trunc, MidiEvent.atBody, MidiEvent.edata,
      MidiEvent.bindsNl, List.filterMap_append, hts, Bool.or_comm, Bool.or_left_comm, Bool.or_assoc]
  · have he : (MidiEvent.textMeta ('@' :: d :: body)).edata = [] := by
      simp only [MidiEvent.edata, if_neg (by decide : ¬('@' = '/' ∨ '@' = '\\')),
        if_neg (by decide : ¬('@' = '[' ∨ '@' = ']')), if_pos rfl]
      split <;> simp_all
    rw [Loop.reading_snoc_of_bindsNl (by simp [MidiEvent.atBody, hT])
      (by simp [MidiEvent.atBody, hL]) (by rfl), he, Loop.add_nil]
    simp [Loop.atLine, hI, hL, hT]

theorem Loop.step_reading (events : List MidiEvent) (ev : MidiEvent) :
    (Loop.reading events).step ev =
      if events.any MidiEvent.bindsNl = false ∧ ev.readsNl = true then .error .unboundLocalError
      else .ok (Loop.reading (events ++ [ev])) := by
  cases ev with
  | other =>
    simp [Loop.step, MidiEvent.readsNl, Loop.reading_snoc_of_bindsNl, MidiEvent.atBody,
      MidiEvent.edata, MidiEvent.bindsNl, Loop.add_nil]
  | lyrics data =>
    rcases data with _ | ⟨c, rest⟩
    · simp [Loop.step, Loop.lyricLine, MidiEvent.readsNl, Loop.reading_snoc_of_bindsNl,
        MidiEvent.atBody, MidiEvent.edata, MidiEvent.bindsNl, Loop.add_nil]
    · by_cases h : events.any MidiEvent.bindsNl = true
      · simp [Loop.step, Loop.lyricLine, MidiEvent.readsNl, Loop.reading_snoc_of_bindsNl,
          MidiEvent.atBody, MidiEvent.edata, MidiEvent.bindsNl, h, Loop.reading_nl]
      · simp [Loop.step, Loop.lyricLine, MidiEvent.readsNl, h, Loop.reading_nl]
  | trackName data =>
    rcases data with _ | ⟨c, rest⟩ <;>
      simp [Loop.step, Loop.lyricLine, MidiEvent.readsNl, Loop.reading_snoc, MidiEvent.atBody,
        MidiEvent.edata, MidiEvent.bindsNl, Loop.add_nil]
  | textMeta data =>
    rcases data with _ | ⟨c, rest⟩
    · simp [Loop.step, MidiEvent.readsNl, Loop.reading_snoc_of_bindsNl, MidiEvent.atBody,
        MidiEvent.edata, MidiEvent.bindsNl, Loop.add_nil]
    by_cases hc : c = '@'
    · subst hc
      rcases rest with _ | ⟨d, body⟩
      · simp [Loop.step, MidiEvent.readsNl, Loop.reading_snoc_of_bindsNl, MidiEvent.atBody,
          MidiEvent.edata, MidiEvent.bindsNl, Loop.add_nil]
      · simp [Loop.step, MidiEvent.readsNl, Loop.reading_snoc_at]
    · have hb : ∀ d, (MidiEvent.textMeta (c :: rest)).atBody d = none := by
        intro d; unfold MidiEvent.atBody; split <;> simp_all
      rw [if_neg (by simp [MidiEvent.readsNl]),
        Loop.reading_snoc_of_bindsNl (hb _) (hb _) (by rfl)]
      simp only [Loop.step, MidiEvent.edata, hc, if_false]
      split_ifs <;> rfl

theorem Loop.foldlM_reading (events rest : List MidiEvent) :
    rest.foldlM Loop.step (Loop.reading events) =
      if events.any MidiEvent.bindsNl = false ∧
          (rest.takeWhile fun ev => !ev.bindsNl).any MidiEvent.readsNl = true
      then .error .unboundLocalError else .ok (Loop.reading (events ++ rest)) := by
  induction rest generalizing events with
  | nil => simp [pure, Except.pure]
  | cons ev rest ih =>
    rw [List.foldlM_cons, Loop.step_reading]
    by_cases h : events.any MidiEvent.bindsNl = false ∧ ev.readsNl = true
    · simp [h, MidiEvent.bindsNl_eq_false h.2, bind, Except.bind]
    · rw [if_neg h]
      show rest.foldlM Loop.step (Loop.reading (events ++ [ev])) = _
      rw [ih, List.append_assoc, List.singleton_append]
      refine if_congr ?_ rfl rfl
      -- a track name binds `nl` for the rest; any other event leaves the question to the rest
      rw [List.any_append, List.takeWhile_cons]
      cases hb : ev.bindsNl
      · cases he : events.any MidiEvent.bindsNl
        · have hr : ev.readsNl = false := by simpa [he] using h
          simp [hr, hb]
        · simp [hb]
      · simp [hb]

/-- The loop of `html_text` over a file's events either raises, when a lyrics event with data
comes before the first track name, or ends with the variables `Loop.reading` reads off the
events. -/
theorem Loop.foldlM_init_eq_reading (events : List MidiEvent) :
    events.foldlM Loop.step Loop.init =
      if (events.takeWhile fun ev => !ev.bindsNl).any MidiEvent.readsNl then
        .error .unboundLocalError
      else .ok (Loop.reading events) := by
  simpa using Loop.foldlM_reading [] events

/-- `@T` bodies past the second are dropped, and a null byte cuts the lyrics but not the
untruncated copy. -/
example :
    let st := Loop.reading [.textMeta "@Tt".toList, .textMeta "@Ta".toList,
      .textMeta "@Tz\x00".toList, .trackName "x\x00y".toList]
    st.title = some "t".toList ∧ st.author = some "a".toList ∧ st.lyrics = "x".toList ∧
      st.lyricsN = "x\x00y\n".toList ∧ st.hadnulls = true := by decide

/-! ### The encoding and the page -/

/-- What the filter uses besides the events: `chardet.detect` (the encoding, `none` for `None`,
and the confidence), the stopword classifier (its code and match count, `none` when it cannot
be built or fails), the codec registry's `decode(name, "ignore")` and `lookup`,
`rclexecm.htmlescape`, whether `chardet` imported, and the two encodings of `sys` that
`__init__` reads. -/
structure KarEnv where
  detect : Bytes → Option Str × ℚ
  classify : Bytes → Option (Str × Nat)
  decodeIgnore : Str → Bytes → Except PyError Str
  known : Str → Bool
  htmlescape : Bytes → Bytes
  hasChardet : Bool
  fsencoding : Option Str
  sysdefault : Str

variable (env : KarEnv)

/-- `KarTextExtractor.chardet_detect`: `iso-8859-2` answers are passed to the classifier,
whose code wins with a positive count. A `None` encoding raises `AttributeError` at
`encoding.lower()`. -/
def chardetDetect (text : Bytes) : Except PyError (Str × ℚ) :=
  match env.detect text with
  | (none, _) => .error .attributeError
  | (some enc, conf) =>
    if lower enc = "iso-8859-2".toList then
      match env.classify text with
      | some (code, count) => if 0 < count then .ok (code, 1) else .ok (enc, conf)
      | none => .ok (enc, conf)
    else .ok (enc, conf)

/-- The threshold `0.6`, as the rational `3/5`, which every double compares with as with the
double `0.6`. -/
def threshold : ℚ := 3 / 5

/-- The detection with nulls: the encoding found on the untruncated lyrics when it is one of
`acceptnullencodings` and the detector is sure enough, and then the untruncated lyrics, title
and author, whose reading raises when `titleN` or `authorN` is unbound. -/
def wideGuess (st : Loop) : Except PyError (Str × Bytes × Option Bytes × Option Bytes) := do
  let (enc, conf) ← chardetDetect env st.lyricsN
  if threshold < conf ∧ lower enc ∈ acceptnullencodings then
    match st.titleN, st.authorN with
    | some t, some a => pure (enc, st.lyricsN, some t, some a)
    | _, _ => throw .unboundLocalError
  else pure ([], st.lyrics, st.title, st.author)

/-- The guessing of `html_text` from the encoding the file name gave: the encoding, then the
lyrics, title and author to decode. -/
def guess (encoding : Str) (st : Loop) :
    Except PyError (Str × Bytes × Option Bytes × Option Bytes) := do
  if encoding = [] ∧ env.hasChardet then
    let (encoding, lyrics, title, author) ←
      if st.hadnulls then wideGuess env st else pure ([], st.lyrics, st.title, st.author)
    if encoding = [] then
      let (enc, conf) ← chardetDetect env lyrics
      pure (if threshold < conf then enc else [], lyrics, title, author)
    else pure (encoding, lyrics, title, author)
  else pure (encoding, st.lyrics, st.title, st.author)

/-- `KarTextExtractor.reencode` of a `bytes` field: empty data is returned as it is, and `%s`
writes it `b''`; a failed decode gives the empty text. -/
def reencode (encoding : Str) (data : Bytes) : Except PyError Str :=
  if data = [] then .ok "b''".toList
  else
    match env.decodeIgnore encoding data with
    | .error _ => .ok []
    | .ok text =>
      match utf8Decode (env.htmlescape (utf8Encode text)) with
      | some t => .ok (strReplace "\n".toList "<br>\n".toList t)
      | none => .error .unicodeError

def reencodeField (encoding : Str) : Option Bytes → Except PyError Str
  | none => .ok []
  | some data => reencode env encoding data

def page (title author language lyrics : Str) : Str :=
  "\n<html>\n  <head>\n    <meta http-equiv=\"content-type\" content=\"text/html; charset=utf-8\">\n    <title>".toList ++
    title ++ "</title>\n      <meta name=\"author\" content=\"".toList ++ author ++
    "\">\n      <meta name=\"language\" content=\"".toList ++ language ++
    "\">\n   </head>\n   <body>\n   ".toList ++ lyrics ++ "\n   </body>\n</html>\n".toList

/-- `KarTextExtractor.html_text` on the events `midi.read_midifile` reads from `filename`. -/
def htmlText (filename : Bytes) (events : List MidiEvent) : Except PyError Str := do
  let st ← events.foldlM Loop.step Loop.init
  let (encoding, lyrics, title, author) ← guess env (filenameEncoding filename) st
  let encoding :=
    if encoding = [] then initDefault env.fsencoding env.sysdefault env.known else encoding
  let title ← reencodeField env encoding title
  let author ← reencodeField env encoding author
  let lyrics ← reencode env encoding lyrics
  let language ← reencodeField env encoding st.language
  pure (page title author language lyrics)

/-! ### What `html_text` does -/

theorem filenameEncoding_eq_nil (fn : Bytes) : filenameEncoding fn = [] := by
  unfold filenameEncoding; split <;> rfl

theorem htmlText_filename_ignored (env : KarEnv) (filename : Bytes) (events : List MidiEvent) :
    htmlText env filename events = htmlText env [] events := by
  simp only [htmlText, filenameEncoding_eq_nil]

/-- `html_text` raises on a lyrics event before any track-name event (`nl` unbound), on a
detector that finds no encoding (`None.lower()`), and on null bytes the detector reads as
UTF-16 when no `@T` event bound `titleN`. -/
theorem htmlText_raises (env : KarEnv) (filename : Bytes) (conf : ℚ) :
    htmlText env filename [.lyrics "la".toList] = .error .unboundLocalError ∧
    (env.hasChardet = true → env.detect "x\n".toList = (none, conf) →
      htmlText env filename [.trackName "x".toList] = .error .attributeError) ∧
    (env.hasChardet = true → env.detect "\x00\n".toList = (some "utf-16le".toList, 9 / 10) →
      htmlText env filename [.trackName "\x00".toList] = .error .unboundLocalError) := by
  refine ⟨rfl, fun hc hd => ?_, fun hc hd => ?_⟩
  · have hst : [MidiEvent.trackName "x".toList].foldlM Loop.step Loop.init =
        .ok ⟨none, none, none, "x\n".toList, "x\n".toList, none, none, some ['\n'], false⟩ := rfl
    unfold htmlText
    rw [hst]
    have hd' : env.detect ['x', '\n'] = (none, conf) := hd
    simp [guess, filenameEncoding_eq_nil, hc, chardetDetect, hd', bind, Except.bind, pure, Except.pure]
  · have hst : [MidiEvent.trackName "\x00".toList].foldlM Loop.step Loop.init =
        .ok ⟨none, none, none, [], "\x00\n".toList, none, none, some ['\n'], true⟩ := rfl
    have hth : threshold < 9 / 10 := by norm_num [threshold]
    unfold htmlText
    rw [hst]
    have hd' : env.detect ['\x00', '\n'] = (some "utf-16le".toList, 9 / 10) := hd
    simp [guess, wideGuess, filenameEncoding_eq_nil, hc, chardetDetect, hd', bind, pure, Except.pure,
      Except.bind, hth, lower, acceptnullencodings, throw, throwThe, MonadExceptOf.throw]

/-- The encoding is never the one the file name gives, and when the untruncated lyrics are
read as UTF-16, the title, author and lyrics are decoded untruncated but the language is not:
`@Lfr\x00x` is decoded as `fr`. -/
theorem htmlText_encoding_choice (env : KarEnv) (filename : Bytes) (events : List MidiEvent) :
    htmlText env filename events = htmlText env [] events ∧
    (env.hasChardet = true → env.detect "\x00y\n".toList = (some "utf-16le".toList, 9 / 10) →
      htmlText env filename [.textMeta "@Tt".toList, .textMeta "@Ta".toList,
          .textMeta "@Lfr\x00x".toList, .trackName "\x00y".toList] =
        (do
          let title ← reencode env "utf-16le".toList "t".toList
          let author ← reencode env "utf-16le".toList "a".toList
          let lyrics ← reencode env "utf-16le".toList "\x00y\n".toList
          let language ← reencode env "utf-16le".toList "fr".toList
          pure (page title author language lyrics))) := by
  refine ⟨htmlText_filename_ignored env filename events, fun hc hd => ?_⟩
  have hst : [MidiEvent.textMeta "@Tt".toList, .textMeta "@Ta".toList,
      .textMeta "@Lfr\x00x".toList, .trackName "\x00y".toList].foldlM Loop.step Loop.init =
      .ok ⟨some "t".toList, some "a".toList, some "fr".toList, [], "\x00y\n".toList,
        some "t".toList, some "a".toList, some ['\n'], true⟩ := rfl
  have hd' : env.detect ['\x00', 'y', '\n'] = (some "utf-16le".toList, 9 / 10) := hd
  have hth : threshold < 9 / 10 := by norm_num [threshold]
  unfold htmlText
  rw [hst]
  simp [guess, wideGuess, filenameEncoding_eq_nil, hc, chardetDetect, hd', bind, Except.bind, pure,
    Except.pure, hth, lower, acceptnullencodings, reencodeField]

end RecollFilters.Kar
