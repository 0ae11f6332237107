import RecollFilters.Session
import RecollFilters.Markup

/-! # The EPUB filter

`rclEPUB` lists the manifest's XHTML items and serves them through the shared cursor session,
after a self document made of the book's metadata; with `epubcatenate` set, `getnext`
answers the whole book at once, and raises when one XHTML item of the reading order cannot be
read. The book is what the `epub` module reads from the archive.
-/

namespace RecollFilters

set_option autoImplicit false

namespace RclEpub

open Markup

/-- A manifest item: its media type and what `book.read_item` returns, `none` when the
archive member cannot be read. -/
structure EpubItem where
  mediaType : Str
  content : Option Bytes

/-- The parts of an opened book the filter reads: `opf.manifest` in order, `opf.spine` (its
itemrefs, `none` when the book has none), and the metadata. -/
structure EpubBook where
  manifest : List (Str × EpubItem)
  spine : Option (List Str)
  titles : List Str
  creators : List Str
  description : Str
  subjects : List Str

/-- The session's container: the book and the `epubcatenate` setting read in `__init__`. -/
structure Container where
  book : EpubBook
  catenate : Bool

abbrev State := Session Container Str

def htmlMtype : Bytes := "text/html".toList

def EpubBook.getItem (b : EpubBook) (id : Str) : Option EpubItem := b.manifest.lookup id

variable (htmlescape : Bytes → Bytes)

def docheader (b : EpubBook) : Bytes :=
  let title := (b.titles.map (· ++ [' '])).flatten
  let author := (b.creators.map (· ++ [' '])).flatten
  let data := "<html>\n<head>\n".toList
  let data := if title ≠ [] then data ++ "<title>".toList ++ htmlescape title ++ "</title>\n".toList
    else data
  let data := if author ≠ [] then
      data ++ "<meta name=\"author\" content=\"".toList ++ stripWs (htmlescape author) ++
        "\">\n".toList
    else data
  let data := if b.description ≠ [] then
      data ++ "<meta name=\"description\" content=\"".toList ++ htmlescape b.description ++
        "\">\n".toList
    else data
  let data := data ++ (b.subjects.map fun v =>
    "<meta name=\"dc:subject\" content=\"".toList ++ htmlescape v ++ "\">\n".toList).flatten
  utf8Encode (data ++ "</head>".toList)

def tagHead (doc : Bytes) : Bytes :=
  sub (ciLit "</head>".toList)
    (fun _ => "<meta name=\"rclaptg\" content=\"epub\"></head>".toList) 0 doc

/-- What `extractone` reports for an item, apart from its eof flag: a closed book reads
nothing. -/
def entry (c : Container) (closed : Bool) (id : Str) : Reply :=
  match if closed then none else (c.book.getItem id).bind (·.content) with
  | some doc => ⟨true, tagHead doc, id⟩
  | none => ⟨false, [], id⟩

/-- `rclEPUB.extractone`: a failure to find or read the item is caught and reported. -/
def extractone (s : State) (id : Str) : Answer × State :=
  let r := entry s.container s.closed id
  (r.withEof s.iseof, if r.ok then s.setmimetype htmlMtype else s)

/-- `rclEPUB.getipath`: the ipath is decoded as UTF-8, which raises on invalid bytes. -/
def getipath (s : State) (ipath : Bytes) : Except PyError (Answer × State) :=
  match utf8Decode ipath with
  | some id => .ok (extractone s id)
  | none => .error .unicodeError

theorem getipath_frame : CursorFilter.GetipathFrame getipath := by
  intro s a r t h
  unfold getipath at h
  split at h
  · simp only [extractone, Except.ok.injEq, Prod.mk.injEq] at h
    rw [← h.2]
    split
    · exact .setmimetype s _
    · exact .refl s
  · cases h

theorem getipath_utf8Encode (s : State) (id : Str) :
    getipath s (utf8Encode id) = .ok (extractone s id) := by
  rw [getipath, utf8Decode_encode]

def filter : CursorFilter Container Str where
  closes := true
  selfType := "text/html".toList
  selfData c := docheader htmlescape c.book
  extractone s i := do
    let id ← pyGetItem s.contents i
    pure (extractone s id)
  entry c _ id := entry c false id
  entryType c _ id := if (entry c false id).ok then some htmlMtype else none
  extractone_eq s i a hc _ ha := by
    simp only [pyGetItem_of_getElem? ha, extractone, hc rfl, Session.setmimetype?]
    split <;> simp_all

/-! ### Catenation -/

/-- `re.sub(rb"<\?.*\?>", b"", doc)`. -/
def dropPI (doc : Bytes) : Bytes :=
  sub (fun s => (litStrip "<?".toList s).bind fun r =>
      (dotStar false (litStrip "?>".toList) r).map fun p => 2 + p.1.length + 2)
    (fun _ => []) 0 doc

/-- `re.sub(rb"<html.*<body[^>]*>", b"", doc, 1, flags=re.DOTALL | re.I)`. -/
def dropHtmlHead (doc : Bytes) : Bytes :=
  sub (fun s => (ciStrip "<html".toList s).bind fun r =>
      (dotStar true (fun t => (ciStrip "<body".toList t).bind tagRest) r).map
        fun (p : List Char × Nat) => 5 + p.1.length + 5 + p.2)
    (fun _ => []) 1 doc

def catBody (doc : Bytes) : Bytes :=
  sub (ciLit "</html>".toList) (fun _ => []) 0
    (sub (ciLit "</body>".toList) (fun _ => []) 0 (dropHtmlHead (dropPI doc)))

/-- `rclEPUB._catbodies`: the spine's items in order, else the manifest's; an XHTML item
that cannot be read raises out of it. -/
def catbodies (b : EpubBook) (closed : Bool) : Except PyError Bytes := do
  let ids := match b.spine with
    | some refs => refs
    | none => b.manifest.map Prod.fst
  let docs ← ids.mapM fun id =>
    match b.getItem id with
    | some item =>
      if item.mediaType = "application/xhtml+xml".toList then
        match if closed then none else item.content with
        | some doc => .ok (catBody doc)
        | none => .error .keyError
      else .ok []
    | none => .ok []
  pure ("<body>".toList ++ docs.flatten ++ "</body></html>".toList)

def dumpall (s : State) : Except PyError Bytes := do
  let bodies ← catbodies s.container.book s.closed
  pure (docheader htmlescape s.container.book ++ bodies)

def getnext (s : State) : Except PyError (Answer × State) :=
  if s.container.catenate then do
    let alltxt ← dumpall htmlescape s
    pure (if alltxt ≠ [] then ⟨true, alltxt, [], .eofnext⟩ else ⟨false, [], [], .eofnow⟩,
      s.closefile)
  else (filter htmlescape).getnext s

theorem getnext_of_not_catenate {s : State} (h : s.container.catenate = false) :
    getnext htmlescape s = (filter htmlescape).getnext s := by
  simp [getnext, h]

theorem dumpall_ne_nil {s : State} {t : Bytes} (h : dumpall htmlescape s = .ok t) : t ≠ [] := by
  unfold dumpall at h
  obtain ⟨bodies, hb, h⟩ := except_bind_eq_ok.mp h
  cases h
  unfold catbodies at hb
  dsimp only at hb
  obtain ⟨docs, -, hb⟩ := except_bind_eq_ok.mp hb
  cases hb
  simp

/-- With `epubcatenate` set, `getnext` answers the whole book, never the `eofnow` failure:
`_catbodies` always opens with `<body>`. -/
theorem getnext_of_catenate {s : State} (h : s.container.catenate = true) :
    getnext htmlescape s =
      (dumpall htmlescape s).map fun t => (⟨true, t, [], .eofnext⟩, s.closefile) := by
  rw [getnext, if_pos h]
  cases hd : dumpall htmlescape s with
  | error e => rfl
  | ok t => simp [bind, Except.bind, pure, Except.pure, Except.map, dumpall_ne_nil htmlescape hd]

/-! ### When catenation raises -/

/-- The ids `_catbodies` walks: the spine's itemrefs, else the manifest's ids. -/
def readingOrder (b : EpubBook) : List Str :=
  match b.spine with
  | some refs => refs
  | none => b.manifest.map Prod.fst

theorem mapM_eq_error {α β : Type} {f : α → Except PyError β} {e : PyError}
    (hf : ∀ x e', f x = .error e' → e' = e) :
    ∀ (l : List α) (e' : PyError), l.mapM f = .error e' ↔ e' = e ∧ ∃ x ∈ l, ∃ e'', f x = .error e''
  | [], e' => by rw [List.mapM_nil]; simp [pure, Except.pure]
  | x :: l, e' => by
    rw [List.mapM_cons]
    rcases hx : f x with e₁ | b
    · simp only [bind, Except.bind, Except.error.injEq, List.mem_cons]
      refine ⟨fun h => ⟨h ▸ hf x e₁ hx, x, .inl rfl, e₁, hx⟩, fun ⟨h, _⟩ => ?_⟩
      rw [h, hf x e₁ hx]
    · simp only [bind, Except.bind]
      rcases hl : l.mapM f with e₂ | bs
      · simp only [Except.error.injEq]
        have := (mapM_eq_error hf l e₂).1 hl
        constructor
        · rintro rfl
          obtain ⟨he, y, hy, e'', h''⟩ := this
          exact ⟨he, y, List.mem_cons_of_mem _ hy, e'', h''⟩
        · rintro ⟨rfl, -⟩
          exact this.1
      · simp only [pure, Except.pure, reduceCtorEq, false_iff, not_and, not_exists]
        intro _ y hy e'' h''
        rcases List.mem_cons.1 hy with rfl | hy
        · rw [hx] at h''; cases h''
        · have := (mapM_eq_error hf l e'').2 ⟨hf y e'' h'', y, hy, e'', h''⟩
          rw [hl] at this; cases this

theorem bind_mapM_eq_error {α β γ : Type} {g : α → Except PyError β} {k : List β → γ}
    {P : α → Prop} (hg : ∀ x e', g x = .error e' ↔ e' = .keyError ∧ P x) (l : List α)
    (e : PyError) :
    (l.mapM g >>= fun docs => pure (k docs)) = .error e ↔ e = .keyError ∧ ∃ x ∈ l, P x := by
  have hm := mapM_eq_error (fun x e' h => ((hg x e').1 h).1) l e
  rcases hl : l.mapM g with e' | docs
  · rw [hl] at hm
    simp only [bind, Except.bind, Except.error.injEq] at hm ⊢
    refine hm.trans (and_congr_right fun _ => exists_congr fun x => and_congr_right fun _ => ?_)
    exact ⟨fun ⟨e'', h⟩ => ((hg x e'').1 h).2, fun hp => ⟨_, (hg x _).2 ⟨rfl, hp⟩⟩⟩
  · rw [hl] at hm
    simp only [bind, Except.bind, pure, Except.pure, reduceCtorEq, false_iff]
    intro ⟨he, x, hx, hp⟩
    exact absurd (hm.2 ⟨he, x, hx, _, (hg x _).2 ⟨rfl, hp⟩⟩) (by simp)

/-- `_catbodies` raises, and then `KeyError`, exactly when an XHTML item of the reading order
cannot be read (every one, once the book is closed). -/
theorem catbodies_eq_error (b : EpubBook) (closed : Bool) (e : PyError) :
    catbodies b closed = .error e ↔ e = .keyError ∧ ∃ id ∈ readingOrder b, ∃ item,
      b.getItem id = some item ∧ item.mediaType = "application/xhtml+xml".toList ∧
        (closed = true ∨ item.content = none) := by
  unfold catbodies
  refine bind_mapM_eq_error (fun id e' => ?_) (readingOrder b) e
  rcases b.getItem id with _ | item
  · simp
  simp only [Option.some.injEq, exists_eq_left']
  by_cases hx : item.mediaType = "application/xhtml+xml".toList
  · simp only [hx, if_true, true_and]
    cases closed <;> cases item.content <;> simp [eq_comm]
  · rw [if_neg hx]
    simp only [reduceCtorEq, false_iff, not_and]
    exact fun _ h => absurd h hx

theorem dumpall_eq_error (htmlescape : Bytes → Bytes) (s : State) (e : PyError) :
    dumpall htmlescape s = .error e ↔ catbodies s.container.book s.closed = .error e := by
  unfold dumpall
  cases catbodies s.container.book s.closed <;> simp [bind, Except.bind, pure, Except.pure]

/-- With `epubcatenate` set, `getnext` raises exactly when an XHTML item of the reading order
(the spine, else the manifest) cannot be read, or names any XHTML item once the book is
closed: that one item costs the whole book, where without catenation `extractone` answers it
alone as a failure. -/
theorem getnext_catenate_raises (htmlescape : Bytes → Bytes) {s : State}
    (h : s.container.catenate = true) :
    (∃ e, getnext htmlescape s = .error e) ↔ ∃ id ∈ readingOrder s.container.book,
      ∃ item, s.container.book.getItem id = some item ∧
        item.mediaType = "application/xhtml+xml".toList ∧
        (s.closed = true ∨ item.content = none) ∧ (entry s.container s.closed id).ok = false := by
  rw [getnext_of_catenate htmlescape h]
  have hm : ∀ e, ((dumpall htmlescape s).map
      fun t => ((⟨true, t, [], .eofnext⟩ : Answer), s.closefile)) = .error e ↔
        catbodies s.container.book s.closed = .error e := fun e => by
    rw [← dumpall_eq_error htmlescape]
    cases dumpall htmlescape s <;> simp [Except.map]
  simp only [hm, catbodies_eq_error, exists_eq_left]
  refine exists_congr fun id => and_congr_right fun _ => exists_congr fun item => ?_
  constructor
  · rintro ⟨hi, hx, hc⟩
    refine ⟨hi, hx, hc, ?_⟩
    unfold entry
    rcases hc with hc | hc <;> simp [hc, hi]
  · exact fun ⟨hi, hx, hc, _⟩ => ⟨hi, hx, hc⟩

theorem getnext_catenate_unreadable_chapter :
    ∃ e, getnext (fun x => x)
      ⟨⟨⟨[("c1".toList, ⟨"application/xhtml+xml".toList, none⟩)], none, [], [], [], []⟩, true⟩,
        ["c1".toList], -1, false, []⟩ = .error e :=
  (getnext_catenate_raises _ rfl).2
    ⟨"c1".toList, List.mem_singleton_self _, _, rfl, rfl, .inr rfl, rfl⟩

/-- `rclEPUB.openfile`, given the book `epub.open_epub` returns (`none` when it raises). The
cursor and the list are reset before the book is opened. -/
def openfile (catenate : Bool) (book : Option EpubBook) (s : State) : Bool × State :=
  let s := { s with currentindex := -1, contents := [] }
  match book with
  | none => (false, s)
  | some b =>
    (true, { s with
      container := ⟨b, catenate⟩
      closed := false
      contents := (b.manifest.filter fun p => p.2.mediaType = "application/xhtml+xml".toList).map
        Prod.fst })

theorem openfile_opened {catenate : Bool} {book : Option EpubBook} {s s' : State}
    (h : openfile catenate book s = (true, s')) :
    s'.currentindex = -1 ∧ s'.closed = false ∧ s'.container.catenate = catenate := by
  unfold openfile at h
  split at h
  · cases h
  · cases h; exact ⟨rfl, rfl, rfl⟩

end RclEpub

end RecollFilters
