import RecollFilters.Chm.Walker
import RecollFilters.Session
import Mathlib.Data.List.Dedup

/-! # The CHM filter

`rclCHM.openfile` lists the file's pages, from the Topics catalog when there is one and by
walking the links of the home page otherwise, and drops repeated addresses. The pages are
served through the shared cursor session; `extractone` itself never sets the MIME type hint.
With `chmcatenate` set, `getnext` answers the whole file at once with `dumpall`.
-/

namespace RecollFilters.Chm

set_option autoImplicit false

open Markup Posix Url

/-! ### The Topics catalog -/

section Topics

variable (E : ChmEnv) (f : ChmFile) (charset : Str)

/-- `ChmTopicsParser.handle_starttag`: the address a `param` tag named `Local` adds, encoded in
the working charset. A valueless `value` makes `unquote` raise `TypeError`. -/
def topicsPath (tag : StartTag) : Except PyError (Option Bytes) :=
  if tag.tag ≠ "param".toList then .ok none
  else
    let name := tag.attr "name".toList
    let value := tag.attr "value".toList
    if name ≠ some "Local".toList ∨ value = some [] then .ok none
    else
      match value with
      | none => .error .typeError
      | some value => do
        let value := unquote value
        let localpath ← match split ':' value with
          | [_] => pure value
          | [_, l1, _, l3] =>
            if l3 ≠ [] ∧ l1 ≠ [] then
              (peekfile E.codecs f l3 charset).map fun ok => if ok then l3 else []
            else pure []
          | _ => pure []
        if localpath ≠ [] ∧ '#' ∉ localpath then
          let localpath := if localpath.head? = some '/' then localpath else '/' :: localpath
          (E.codecs.encode charset localpath).map some
        else pure none

/-- The Topics branch of `openfile`: the catalog is decoded, its charset becomes the working
charset, and the addresses of its `Local` records are listed in order. Nothing catches an
exception. -/
def topicsContents : Except PyError (List Bytes) := do
  let (text, charset) ← fixencoding E.codecs f.topics
  let paths ← (E.starttags text).mapM (topicsPath E f charset)
  pure (paths.filterMap id)

end Topics

def dropDuplicates (contents : List Bytes) : List Bytes :=
  contents.foldl (fun ct t => if t ∈ ct then ct else ct ++ [t]) []

/-- The loop keeps the first occurrence of each address: `List.dedup` keeps the last one, so
it runs on the reversed list. -/
theorem dropDuplicates_eq (contents : List Bytes) :
    dropDuplicates contents = contents.reverse.dedup.reverse := by
  induction contents using List.reverseRecOn with
  | nil => rfl
  | append_singleton l a ih =>
    have hmem : a ∈ dropDuplicates l ↔ a ∈ l := by simp [ih]
    rw [dropDuplicates, List.foldl_append, ← dropDuplicates, List.reverse_append,
      List.reverse_singleton, List.singleton_append]
    by_cases ha : a ∈ l
    · simp [hmem.mpr ha, List.dedup_cons_of_mem (List.mem_reverse.mpr ha), ih, ha]
    · simp [hmem, ha, List.dedup_cons_of_not_mem (mt List.mem_reverse.mp ha), ih]

theorem localpath_added {C : Codecs} {charset y : Str} {e : Bytes}
    (h : (if y ≠ [] ∧ '#' ∉ y then
        Except.map some (C.encode charset (if y.head? = some '/' then y else '/' :: y))
        else pure none) = Except.ok (some e)) :
    ∃ p : Str, p.head? = some '/' ∧ '#' ∉ p ∧ C.encode charset p = .ok e := by
  by_cases hy : y ≠ [] ∧ '#' ∉ y
  · rw [if_pos hy] at h
    refine ⟨if y.head? = some '/' then y else '/' :: y, ?_, ?_, ?_⟩
    · split_ifs with hh
      · exact hh
      · rfl
    · split_ifs
      · exact hy.2
      · simpa using hy.2
    · cases hc : C.encode charset (if y.head? = some '/' then y else '/' :: y) <;>
        simp only [hc, Except.map, Except.ok.injEq, Option.some.injEq, reduceCtorEq] at h ⊢
      exact h
  · rw [if_neg hy] at h
    cases h

theorem topicsPath_some {E : ChmEnv} {f : ChmFile} {charset : Str} {tag : StartTag} {e : Bytes}
    (h : topicsPath E f charset tag = .ok (some e)) :
    ∃ p : Str, p.head? = some '/' ∧ '#' ∉ p ∧ E.codecs.encode charset p = .ok e := by
  unfold topicsPath at h
  split_ifs at h
  · cases h
  dsimp only at h
  split_ifs at h
  · cases h
  split at h
  · cases h
  split at h
  · obtain ⟨_, -, h⟩ := except_bind_eq_ok.mp h
    exact localpath_added h
  · split_ifs at h <;> obtain ⟨_, -, h⟩ := except_bind_eq_ok.mp h <;> exact localpath_added h
  · obtain ⟨_, -, h⟩ := except_bind_eq_ok.mp h
    exact localpath_added h

/-! ### The session -/

/-- The session's container: the loaded file and the `chmcatenate` setting read in
`__init__`. -/
structure Container where
  chm : ChmFile
  catenate : Bool

abbrev State := Session Container Bytes

/-- `self._headtagre.sub(b'<meta name="rclaptg" content="chm"></head>', doc)`. -/
def tagHead (doc : Bytes) : Bytes :=
  sub (ciLit "</head>".toList) (fun _ => "<meta name=\"rclaptg\" content=\"chm\"></head>".toList)
    0 doc

/-- What `extractone` reports for a path, apart from its eof flag: `ResolveObject` fails on a
closed file, and an empty object is reported as a failure. -/
def entry (c : Container) (closed norclaptag : Bool) (path : Bytes) : Reply :=
  match if closed then none else c.chm.retrieve path with
  | some doc =>
    if doc = [] then ⟨false, [], path⟩ else ⟨true, if norclaptag then doc else tagHead doc, path⟩
  | none => ⟨false, [], path⟩

def extractone (s : State) (path : Bytes) (norclaptag : Bool) : Answer :=
  (entry s.container s.closed norclaptag path).withEof s.iseof

def getipath (s : State) (ipath : Bytes) : Except PyError (Answer × State) :=
  .ok (extractone s ipath false, s)

theorem getipath_frame : CursorFilter.GetipathFrame getipath := by
  intro s a r t h
  cases h; exact .refl s

def filter : CursorFilter Container Bytes where
  closes := true
  selfType := "text/plain".toList
  selfData _ := []
  extractone s i := do
    let path ← pyGetItem s.contents i
    pure (extractone s path false, s)
  entry c _ path := entry c false false path
  entryType _ _ _ := none
  extractone_eq s i a hc _ ha := by
    simp only [pyGetItem_of_getElem? ha, extractone, hc rfl]
    rfl

/-! ### Catenation -/

def headerMatches (doc : Bytes) : Bool :=
  (search (fun s => (ciStrip "<head".toList s).bind (dotStar true (ciStrip "</head>".toList)))
    doc).isSome

/-- `self._bodyre.search(doc)[1]`: the group of `<body[^>]*>(.*)</body>` under
`re.IGNORECASE | re.DOTALL`. -/
def bodyOf (doc : Bytes) : Option Bytes :=
  (search (fun s => (ciStrip "<body".toList s).bind fun r => (tagRest r).bind fun n =>
    (dotStar true (ciStrip "</body>".toList) (r.drop n)).map Prod.fst) doc).map Prod.snd

/-- The replacement `re.sub` makes of a template without group references: one without a
backslash is taken as it is; `expand` is what `re` makes of the escapes of one with a
backslash, or the `re.error` it raises. -/
def reTemplate (expand : Bytes → Except PyError Bytes) (repl : Bytes) : Except PyError Bytes :=
  if '\\' ∈ repl then expand repl else .ok repl

/-- `re.sub(rb"<title.*</title>", b"<title>" + title + b"</title>", doc, re.IGNORECASE |
re.DOTALL)`: the flags land in `count`, so up to 18 case-sensitive, single-line matches in
the whole page are replaced. -/
def titleSub (expand : Bytes → Except PyError Bytes) (title doc : Bytes) :
    Except PyError Bytes :=
  (reTemplate expand ("<title>".toList ++ title ++ "</title>".toList)).map fun repl =>
    sub (fun s => (litStrip "<title".toList s).bind fun r =>
        (dotStar false (litStrip "</title>".toList) r).map fun p => 6 + p.1.length + 8)
      (fun _ => repl) 18 doc

/-- The loop of `dumpall` from a page on, `first` still set until a fetched page has a head
region: what it adds to `alltxt`. -/
def dumpPages (expand : Bytes → Except PyError Bytes) (c : Container) (closed : Bool) :
    Bool → List Bytes → Except PyError Bytes
  | _, [] => .ok []
  | first, pth :: rest =>
    let r := entry c closed true pth
    if !r.ok then dumpPages expand c closed first rest
    else do
      let (header, first) ← if first ∧ headerMatches r.data then
          (titleSub expand c.chm.title r.data).map fun h => (h ++ "<body>".toList, false)
        else pure ([], first)
      let alltxt ← dumpPages expand c closed first rest
      pure (header ++ (bodyOf r.data).getD [] ++ alltxt)

def dumpall (expand : Bytes → Except PyError Bytes) (s : State) : Except PyError Bytes :=
  (dumpPages expand s.container s.closed true s.contents).map (· ++ "</body></html>".toList)

def getnext (expand : Bytes → Except PyError Bytes) (s : State) :
    Except PyError (Answer × State) :=
  if s.container.catenate then do
    let alltxt ← dumpall expand s
    pure (if alltxt ≠ [] then ⟨true, alltxt, [], .eofnext⟩ else ⟨false, [], [], .eofnow⟩,
      s.closefile)
  else filter.getnext s

theorem getnext_of_not_catenate (expand : Bytes → Except PyError Bytes) {s : State}
    (h : s.container.catenate = false) : getnext expand s = filter.getnext s := by
  simp [getnext, h]

/-- After the self document and a first page, the CHM hint is still `text/plain`:
`extractone` never sets one. -/
theorem page_hint_stays_plain (expand : Bytes → Except PyError Bytes) (f : ChmFile)
    (p m : Bytes) :
    runCalls (getnext expand) getipath ⟨⟨f, false⟩, [p], -1, false, m⟩ [.getnext, .getnext] =
      ([.ok ⟨true, [], [], .noteof⟩, .ok ((entry ⟨f, false⟩ false false p).withEof .eofnext)],
        ⟨⟨f, false⟩, [p], 1, true, "text/plain".toList⟩) :=
  rfl

/-- `rclCHM.openfile`, given the file `LoadCHM` loads (`none` when it fails). The walk from
the home page is given the number of the file's objects as fuel, which it never exhausts. -/
def openfile (E : ChmEnv) (file : Option ChmFile) (s : State) : Except PyError (Bool × State) :=
  let s := { s with currentindex := -1, contents := [] }
  match file with
  | none => .ok (false, s)
  | some f =>
    let s := { s with container := { s.container with chm := f }, closed := false }
    if f.topics ≠ [] then do
      let contents ← topicsContents E f
      pure (true, { s with contents := dropDuplicates contents })
    else if f.home = [] then .ok (false, s)
    else if getfile f (homeAddress f.home) = [] then .ok (false, s)
    else
      match walkHome E f f.objects.length with
      | some ⟨contents, none⟩ => .ok (true, { s with contents := dropDuplicates contents })
      | some ⟨_, some e⟩ => .error e
      | none => .ok (false, s)

theorem openfile_opened {E : ChmEnv} {file : Option ChmFile} {s s' : State}
    (h : openfile E file s = .ok (true, s')) : s'.currentindex = -1 ∧ s'.closed = false ∧
      s'.container.catenate = s.container.catenate := by
  unfold openfile at h
  split at h
  · cases h
  · split_ifs at h
    · obtain ⟨_, -, h⟩ := except_bind_eq_ok.mp h
      cases h; exact ⟨rfl, rfl, rfl⟩
    · cases h
    · cases h
    · split at h <;> cases h
      exact ⟨rfl, rfl, rfl⟩

theorem openfile_of_topics {E : ChmEnv} {f : ChmFile} {s : State} (ht : f.topics ≠ []) :
    openfile E (some f) s = (topicsContents E f).map fun c =>
      (true, ⟨{ s.container with chm := f }, dropDuplicates c, -1, false, s.mimetype⟩) := by
  simp only [openfile, ht, ne_eq, not_false_eq_true, if_true]
  cases topicsContents E f <;> rfl

/-- Through the Topics branch, `openfile` lists the addresses the catalog's `Local` records
add, in document order, each kept at its first occurrence only; each is the encoding, in the
catalog's charset, of a path that starts with `/` and holds no `#`. -/
theorem openfile_topics_contents {E : ChmEnv} {f : ChmFile} {s s' : State} (ht : f.topics ≠ [])
    (h : openfile E (some f) s = .ok (true, s')) :
    ∃ (text charset : Str) (paths : List (Option Bytes)),
      fixencoding E.codecs f.topics = .ok (text, charset) ∧
      (E.starttags text).mapM (topicsPath E f charset) = .ok paths ∧
      s'.contents = (paths.filterMap id).reverse.dedup.reverse ∧
      s'.contents.Nodup ∧
      (∀ a, a ∈ s'.contents ↔ a ∈ paths.filterMap id) ∧
      s'.contents.Sublist (paths.filterMap id) ∧
      ∀ e ∈ s'.contents, ∃ p : Str, p.head? = some '/' ∧ '#' ∉ p ∧
        E.codecs.encode charset p = .ok e := by
  rw [openfile_of_topics ht] at h
  obtain ⟨c, hc, hs⟩ : ∃ c, topicsContents E f = .ok c ∧ s'.contents = dropDuplicates c := by
    cases hc : topicsContents E f with
    | error _ => simp [hc, Except.map] at h
    | ok c =>
      simp only [hc, Except.map, Except.ok.injEq, Prod.mk.injEq, true_and] at h
      exact ⟨c, rfl, by rw [← h]⟩
  obtain ⟨⟨text, charset⟩, hfix, hc⟩ := except_bind_eq_ok.mp hc
  obtain ⟨paths, hpaths, hc⟩ := except_bind_eq_ok.mp hc
  cases hc
  rw [dropDuplicates_eq] at hs
  refine ⟨text, charset, paths, hfix, hpaths, hs, ?_, ?_, ?_, ?_⟩
  · rw [hs]
    exact List.nodup_reverse.mpr (List.nodup_dedup _)
  · intro a
    rw [hs, List.mem_reverse, List.mem_dedup, List.mem_reverse]
  · rw [hs]
    simpa using (List.dedup_sublist (paths.filterMap id).reverse).reverse
  · intro e he
    rw [hs, List.mem_reverse, List.mem_dedup, List.mem_reverse, List.mem_filterMap] at he
    obtain ⟨_, hp, rfl⟩ := he
    obtain ⟨_, -, htag⟩ := mapM_ok_mem hpaths _ hp
    exact topicsPath_some htag

set_option maxRecDepth 20000 in
/-- A Topics catalog in `utf-16-le` that declares so: `html.parser` reports its one `param`
tag, whose path `ģ` (U+0123) holds no `#`, yet the address `openfile` lists is
`b"/\x00#\x01"`, which holds a `#` byte; in `cp037` the address would not even begin with `/`. -/
theorem openfile_topics_utf16le_hash_byte :
    (openfile ⟨⟨fun name => if name = "utf-16-le".toList then some utf16le else none⟩,
        fun _ => [⟨"param".toList, [("name".toList, some "Local".toList),
          ("value".toList, some "ģ".toList)]⟩], 0⟩
      (some ⟨[], "<meta http-equiv=\"content-type\" content=\"text/html; charset=utf-16-le\">\n".toList ++
        utf16leEncode "<param name=\"Local\" value=\"ģ\">".toList, [], []⟩)
      ⟨⟨⟨[], [], [], []⟩, false⟩, [], -1, false, []⟩).map (·.2.contents) =
      .ok [['/', '\x00', '#', '\x01']] := by
  decide

theorem openfile_topics_contents_repeated_local :
    "x".toList ≠ [] ∧
      openfile ⟨⟨fun _ => some ⟨fun b => b, fun t => .ok t⟩⟩, fun _ => [⟨"param".toList, [("name".toList, some "Local".toList), ("value".toList, some "a".toList)]⟩,
          ⟨"param".toList, [("name".toList, some "Local".toList), ("value".toList, some "a".toList)]⟩], 0⟩
        (some ⟨[], "x".toList, [], []⟩) ⟨⟨⟨[], [], [], []⟩, false⟩, [], -1, false, []⟩ =
        .ok (true, ⟨⟨⟨[], "x".toList, [], []⟩, false⟩, ["/a".toList], -1, false, []⟩) ∧
      ∃ (text charset : Str) (paths : List (Option Bytes)),
        fixencoding ⟨fun _ => some ⟨fun b => b, fun t => .ok t⟩⟩ "x".toList = .ok (text, charset) ∧
        ((fun _ => [⟨"param".toList, [("name".toList, some "Local".toList), ("value".toList, some "a".toList)]⟩,
          ⟨"param".toList, [("name".toList, some "Local".toList), ("value".toList, some "a".toList)]⟩]) text).mapM
          (topicsPath ⟨⟨fun _ => some ⟨fun b => b, fun t => .ok t⟩⟩, fun _ => [⟨"param".toList, [("name".toList, some "Local".toList), ("value".toList, some "a".toList)]⟩,
          ⟨"param".toList, [("name".toList, some "Local".toList), ("value".toList, some "a".toList)]⟩], 0⟩ ⟨[], "x".toList, [], []⟩ charset) = .ok paths ∧
        ["/a".toList] = (paths.filterMap id).reverse.dedup.reverse ∧
        ["/a".toList].Nodup ∧
        (∀ a, a ∈ ["/a".toList] ↔ a ∈ paths.filterMap id) ∧
        ["/a".toList].Sublist (paths.filterMap id) ∧
        ∀ e ∈ ["/a".toList], ∃ p : Str, p.head? = some '/' ∧ '#' ∉ p ∧
          Codecs.encode ⟨fun _ => some ⟨fun b => b, fun t => .ok t⟩⟩ charset p = .ok e := by
  have h : openfile ⟨⟨fun _ => some ⟨fun b => b, fun t => .ok t⟩⟩, fun _ => [⟨"param".toList, [("name".toList, some "Local".toList), ("value".toList, some "a".toList)]⟩,
          ⟨"param".toList, [("name".toList, some "Local".toList), ("value".toList, some "a".toList)]⟩], 0⟩
      (some ⟨[], "x".toList, [], []⟩) ⟨⟨⟨[], [], [], []⟩, false⟩, [], -1, false, []⟩ =
      .ok (true, ⟨⟨⟨[], "x".toList, [], []⟩, false⟩, ["/a".toList], -1, false, []⟩) := rfl
  exact ⟨by decide, h, openfile_topics_contents (by decide) h⟩

theorem openfile_of_walkHome {E : ChmEnv} {f : ChmFile} {s : State} {c : List Bytes}
    (ht : f.topics = []) (hh : f.home ≠ []) (hg : getfile f (homeAddress f.home) ≠ [])
    (hw : walkHome E f f.objects.length = some ⟨c, none⟩) :
    openfile E (some f) s =
      .ok (true, ⟨{ s.container with chm := f }, dropDuplicates c, -1, false, s.mimetype⟩) := by
  simp only [openfile, ht, hh, hg, hw, ne_eq, not_true_eq_false, not_false_eq_true, if_false]

/-- A Topics catalog declaring a charset the registry does not know makes `openfile` raise. -/
theorem openfile_unknown_charset_raises (E : ChmEnv) (s : State)
    (h : E.codecs.lookup "foo".toList = none) :
    openfile E (some ⟨[], "<meta http-equiv=\"content-type\" content=\"text/html; charset=foo\">".toList,
      [], []⟩) s = .error .lookupError := by
  have hfix : fixencoding E.codecs
      "<meta http-equiv=\"content-type\" content=\"text/html; charset=foo\">".toList =
        .error .lookupError := by
    simp only [fixencoding, Option.getD_some, Codecs.decodeReplace, h,
      show asciito1252Sub "<meta http-equiv=\"content-type\" content=\"text/html; charset=foo\">".toList
        = "<meta http-equiv=\"content-type\" content=\"text/html; charset=foo\">".toList by decide,
      show findcharset "<meta http-equiv=\"content-type\" content=\"text/html; charset=foo\">".toList
        = some "foo".toList by decide]
    rfl
  rw [openfile_of_topics (by decide), topicsContents, hfix]
  rfl

theorem openfile_unknown_charset_raises_empty_registry :
    (⟨fun _ => none⟩ : Codecs).lookup "foo".toList = none ∧
      openfile ⟨⟨fun _ => none⟩, fun _ => [], 0⟩
        (some ⟨[], "<meta http-equiv=\"content-type\" content=\"text/html; charset=foo\">".toList,
          [], []⟩) ⟨⟨⟨[], [], [], []⟩, false⟩, [], -1, false, []⟩ = .error .lookupError :=
  ⟨rfl, openfile_unknown_charset_raises _ _ rfl⟩

/-- A home page whose only link has the `ms-its` scheme: the walk records the home page alone,
though the linked page resolves. -/
theorem openfile_skips_ms_its_link (E : ChmEnv) (s : State)
    (hdec : E.codecs.decodeReplace "cp1252".toList "<a href=\"ms-its:x.chm::/b.htm\">".toList =
      .ok "<a href=\"ms-its:x.chm::/b.htm\">".toList)
    (htags : E.starttags "<a href=\"ms-its:x.chm::/b.htm\">".toList =
      [⟨"a".toList, [("href".toList, some "ms-its:x.chm::/b.htm".toList)]⟩]) :
    (openfile E (some ⟨[("/a.htm".toList, "<a href=\"ms-its:x.chm::/b.htm\">".toList),
        ("/b.htm".toList, "b".toList)], [], "/a.htm".toList, []⟩) s).map (·.2.contents) =
      .ok ["/a.htm".toList] := by
  have hfix : fixencoding E.codecs "<a href=\"ms-its:x.chm::/b.htm\">".toList =
      .ok ("<a href=\"ms-its:x.chm::/b.htm\">".toList, "cp1252".toList) := by
    simp only [fixencoding, Option.getD_none, hdec,
      show asciito1252Sub "<a href=\"ms-its:x.chm::/b.htm\">".toList
        = "<a href=\"ms-its:x.chm::/b.htm\">".toList by decide,
      show findcharset "<a href=\"ms-its:x.chm::/b.htm\">".toList = none by decide]
    rfl
  rw [openfile_of_walkHome rfl (by decide) (by decide) ?hw]
  case hw =>
    refine walkHome_of_linkPath_none hfix ?_
    rw [htags]
    intro tag ht
    rw [List.mem_singleton.mp ht]
    exact linkPath_of_scheme_ne_nil rfl rfl (by decide)
  rfl

theorem openfile_skips_ms_its_link_identity_codec :
    (⟨⟨fun _ => some ⟨fun b => b, fun t => .ok t⟩⟩,
        fun _ => [⟨"a".toList, [("href".toList, some "ms-its:x.chm::/b.htm".toList)]⟩], 0⟩ :
        ChmEnv).codecs.decodeReplace "cp1252".toList "<a href=\"ms-its:x.chm::/b.htm\">".toList =
      .ok "<a href=\"ms-its:x.chm::/b.htm\">".toList ∧
    (openfile ⟨⟨fun _ => some ⟨fun b => b, fun t => .ok t⟩⟩,
        fun _ => [⟨"a".toList, [("href".toList, some "ms-its:x.chm::/b.htm".toList)]⟩], 0⟩
      (some ⟨[("/a.htm".toList, "<a href=\"ms-its:x.chm::/b.htm\">".toList),
        ("/b.htm".toList, "b".toList)], [], "/a.htm".toList, []⟩)
      ⟨⟨⟨[], [], [], []⟩, false⟩, [], -1, false, []⟩).map (·.2.contents) = .ok ["/a.htm".toList] :=
  ⟨rfl, openfile_skips_ms_its_link _ _ rfl rfl⟩

/-- One fetched page with a head and a body: its body comes out twice, after the whole page;
and with no page at all the answer is still not empty. -/
theorem dumpall_repeats_first_body (expand : Bytes → Except PyError Bytes) :
    (getnext expand ⟨⟨⟨[("/a".toList, "<head></head><body>X</body>".toList)], [], [], []⟩, true⟩,
        ["/a".toList], -1, false, []⟩).map Prod.fst =
      .ok ⟨true, "<head></head><body>X</body><body>X</body></html>".toList, [], .eofnext⟩ ∧
    dumpall expand ⟨⟨⟨[], [], [], []⟩, true⟩, [], -1, false, []⟩ = .ok "</body></html>".toList :=
  ⟨rfl, rfl⟩

end RecollFilters.Chm
