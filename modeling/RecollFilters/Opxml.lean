import RecollFilters.Markup
import Mathlib.Data.List.Sort

/-! # The Office Open XML filter

`OXExtractor.html_text` reads an OOXML archive: the document metadata, the Word text and the
Excel strings, then the slides and notes pages of a presentation and the pages of a Visio
drawing, each part turned into HTML by an XSLT style sheet (`rclxslt.apply_sheet_data`, a
parameter here, which may raise). Each stage sits in its own `try ... except: pass`: an
exception ends the stage, and what the stage had appended stays.

The slide, notes and page parts are the names `re.match(prefix + "[0-9]+" + ".xml", name)`
accepts, whose `.` is any character and which has no end anchor, ordered by the `int()` of
`name[len(prefix) : len(name) - 4]`; every key is computed before the sort, so one name whose
slice `int()` refuses ends the stage before any part of it is read. A stage that ends without
an exception emitted the transforms of the parts it selected, by ascending key and, for equal
keys, in archive order.
-/

namespace RecollFilters.Opxml

set_option autoImplicit false

open Markup

/-! ### The archive and the style sheets -/

/-- A zip archive: its members in order, each with what `ZipFile.read` gives for it, its bytes
or the exception a damaged member raises. -/
structure Zip where
  members : List (Str × Except PyError Bytes)

def Zip.namelist (z : Zip) : List Str := z.members.map Prod.fst

/-- `zip.read(name)`: the last member of that name, as the archive's name table keeps it, and
`KeyError` for a name the archive lacks. -/
def Zip.read (z : Zip) (name : Str) : Except PyError Bytes :=
  (z.members.reverse.lookup name).getD (.error .keyError)

structure SheetParts where
  xmlnsDecls : Str
  tagmatch : Str
  moretemplates : Str

structure Sheets where
  meta : Str
  content : Str
  word : SheetParts
  xl : SheetParts
  pp : SheetParts
  vs : SheetParts

def computestylesheet (content : Str) (parts : SheetParts) : Str :=
  let stylesheet := strReplace "@XMLNS_DECLS@".toList parts.xmlnsDecls content
  let stylesheet := strReplace "@TAGMATCH@".toList parts.tagmatch stylesheet
  strReplace "@MORETEMPLATES@".toList parts.moretemplates stylesheet

/-! ### The part names and their order -/

def dotXml : List Char → Bool
  | c :: rest => c ≠ '\n' && "xml".toList.isPrefixOf rest
  | [] => false

/-- `[0-9]+.xml` at the start of `s`, anything after: the run of digits may end at any of its
digits, the `.` then taking the next character. -/
def digitsDotXml : List Char → Bool
  | c :: rest => c.isDigit && (dotXml rest || digitsDotXml rest)
  | [] => false

def partMatch (pfx name : Str) : Bool :=
  match litStrip pfx name with
  | some rest => digitsDotXml rest
  | none => false

/-- The sort key `int(name[len(pfx) : len(name) - 4])` of a name the pattern accepted, which is
at least five characters longer than `pfx`; `ValueError` where `int` refuses the slice. -/
def sortKey (pfx name : Str) : Except PyError Int :=
  match pyIntStr ((name.take (name.length - 4)).drop pfx.length) with
  | some k => .ok k
  | none => .error .valueError

/- The pattern's `.` takes an Arabic-Indic digit three, which `int()` of the slice reads. -/
example : partMatch "ppt/slides/slide".toList "ppt/slides/slide1\u0663xmlZ".toList = true ∧
    sortKey "ppt/slides/slide".toList "ppt/slides/slide1\u0663xmlZ".toList = .ok 13 := by
  decide

/-- `sorted(names, key=...)`: the keys are computed in order first, the first `int` error
propagating, and the sort is stable, as insertion sort is. -/
def sortedParts (pfx : Str) (names : List Str) : Except PyError (List Str) := do
  let keyed ← names.mapM fun n => (sortKey pfx n).map (n, ·)
  pure ((keyed.insertionSort fun a b => a.2 ≤ b.2).map Prod.fst)


theorem mapM_sortKey {pfx : Str} : ∀ {names : List Str} {keyed : List (Str × Int)},
    names.mapM (fun n => (sortKey pfx n).map (n, ·)) = .ok keyed →
      keyed.map Prod.fst = names ∧ ∀ p ∈ keyed, sortKey pfx p.1 = .ok p.2
  | [], keyed, h => by
    simp only [List.mapM_nil, pure, Except.pure, Except.ok.injEq] at h
    subst h; simp
  | n :: names, keyed, h => by
    rw [List.mapM_cons] at h
    obtain ⟨p, hp, h⟩ := except_bind_eq_ok.mp h
    obtain ⟨ps, hps, h⟩ := except_bind_eq_ok.mp h
    simp only [pure, Except.pure, Except.ok.injEq] at h
    subst h
    obtain ⟨hfst, hkeys⟩ := mapM_sortKey hps
    cases hk : sortKey pfx n with
    | error e => simp [hk, Except.map] at hp
    | ok k =>
      simp only [hk, Except.map, Except.ok.injEq] at hp
      subst hp
      refine ⟨by simp [hfst], ?_⟩
      intro q hq
      rcases List.mem_cons.mp hq with rfl | hq
      · exact hk
      · exact hkeys q hq

/-- Insertion sort by key is stable: the elements of one key keep their order. -/
theorem filter_insertionSort_key (keyed : List (Str × Int)) (k : Int) :
    (keyed.insertionSort fun a b => a.2 ≤ b.2).filter (fun p => p.2 = k) =
      keyed.filter fun p => p.2 = k := by
  let r : Str × Int → Str × Int → Prop := fun a b => a.2 ≤ b.2
  have hr : (keyed.filter fun p => p.2 = k).Pairwise r :=
    List.pairwise_filter.mpr (List.pairwise_of_forall fun _ _ ha hb =>
      (ha.trans hb.symm).le)
  have hsub := (List.sublist_insertionSort hr (List.filter_sublist keyed)).filter
    (fun p : Str × Int => decide (p.2 = k))
  rw [List.filter_filter, List.filter_congr fun p _ => Bool.and_self _] at hsub
  exact (hsub.eq_of_length ((List.perm_insertionSort r keyed).filter _).length_eq.symm).symm

theorem sortedParts_eq_ok {pfx : Str} {names ns : List Str} (h : sortedParts pfx names = .ok ns) :
    ∃ keyed : List (Str × Int), ns = keyed.map Prod.fst ∧ (keyed.map Prod.fst).Perm names ∧
      (∀ p ∈ keyed, sortKey pfx p.1 = .ok p.2) ∧ (keyed.map Prod.snd).Sorted (· ≤ ·) ∧
      ∀ k, (keyed.filter fun p => p.2 = k).map Prod.fst =
        names.filter fun n => sortKey pfx n = .ok k := by
  obtain ⟨keyed, hk, h⟩ := except_bind_eq_ok.mp h
  simp only [pure, Except.pure, Except.ok.injEq] at h
  subst h
  obtain ⟨hfst, hkeys⟩ := mapM_sortKey hk
  let r : Str × Int → Str × Int → Prop := fun a b => a.2 ≤ b.2
  haveI : IsTotal (Str × Int) r := ⟨fun a b => le_total a.2 b.2⟩
  haveI : IsTrans (Str × Int) r := ⟨fun _ _ _ => le_trans⟩
  have hperm := List.perm_insertionSort r keyed
  refine ⟨keyed.insertionSort r, rfl, hfst ▸ hperm.map Prod.fst, fun p hp => hkeys p (hperm.subset hp),
    List.pairwise_map.mpr (List.sorted_insertionSort r keyed), fun k => ?_⟩
  -- the names of key `k` come in the order the keys were computed, which is the names' order
  rw [filter_insertionSort_key, ← hfst, List.filter_map]
  congr 1
  exact List.filter_congr fun p hp => by simp [hkeys p hp]

/-! ### The stages -/

section Stages

variable (Z : Zip) (applySheet : Str → Bytes → Except PyError Bytes)

def emitParts (stl : Str) (preview : Bool) : List Str → Bytes → Bytes × Option PyError
  | [], docdata => (docdata, none)
  | fn :: rest, docdata =>
    match Z.read fn with
    | .error e => (docdata, some e)
    | .ok content =>
      let docdata :=
        if preview then docdata ++ "<h2>".toList ++ utf8Encode fn ++ "</h2>".toList else docdata
      match applySheet stl content with
      | .error e => (docdata, some e)
      | .ok out => emitParts stl preview rest (docdata ++ out)

def emitPrefix (stl : Str) (preview : Bool) (pfx : Str) (docdata : Bytes) :
    Bytes × Option PyError :=
  match sortedParts pfx (Z.namelist.filter (partMatch pfx)) with
  | .error e => (docdata, some e)
  | .ok names => emitParts Z applySheet stl preview names docdata

/-- The slides stage: slides, then notes pages, both under the `pp` sheet; an exception in the
slides ends the stage before the notes. -/
def slidesStage (stl : Str) (preview : Bool) (docdata : Bytes) : Bytes :=
  match emitPrefix Z applySheet stl preview "ppt/slides/slide".toList docdata with
  | (docdata, some _) => docdata
  | (docdata, none) =>
    (emitPrefix Z applySheet stl preview "ppt/notesSlides/notesSlide".toList docdata).1

def visioStage (stl : Str) (docdata : Bytes) : Bytes :=
  (emitPrefix Z applySheet stl false "visio/pages/page".toList docdata).1

def onePart (name stl : Str) (docdata : Bytes) : Bytes :=
  match Z.read name with
  | .ok content =>
    match applySheet stl content with
    | .ok out => docdata ++ out
    | .error _ => docdata
  | .error _ => docdata

/-- The metadata stage: like `onePart`, but empty metadata is not transformed. -/
def metaStage (stl : Str) (docdata : Bytes) : Bytes :=
  match Z.read "docProps/core.xml".toList with
  | .ok metadata =>
    if metadata ≠ [] then
      match applySheet stl metadata with
      | .ok res => docdata ++ res
      | .error _ => docdata
    else docdata
  | .error _ => docdata

end Stages

/-! ### What a finished stage emitted -/

section Finished

variable (Z : Zip) (applySheet : Str → Bytes → Except PyError Bytes)

def partOutput (stl fn : Str) : Except PyError Bytes := Z.read fn >>= applySheet stl

theorem emitParts_none (stl : Str) : ∀ {names : List Str} {docdata out : Bytes},
    emitParts Z applySheet stl false names docdata = (out, none) →
      ∃ outs, names.mapM (partOutput Z applySheet stl) = .ok outs ∧ out = docdata ++ outs.flatten
  | [], docdata, out, h => ⟨[], rfl, by simpa [emitParts] using h.symm⟩
  | fn :: names, docdata, out, h => by
    simp only [emitParts, Bool.false_eq_true, if_false] at h
    rcases hr : Z.read fn with e | content
    · simp [hr] at h
    · rcases ha : applySheet stl content with e | o
      · simp [hr, ha] at h
      · simp only [hr, ha] at h
        obtain ⟨outs, hm, rfl⟩ := emitParts_none stl h
        have hp : partOutput Z applySheet stl fn = .ok o := by
          rw [partOutput, hr]; exact ha
        refine ⟨o :: outs, ?_, by simp⟩
        rw [List.mapM_cons, hp, hm]
        rfl

/-- Slides 2, 1 and 01 in archive order; 1 and 01 share the key 1. -/
def slidesOutOfOrder : Zip :=
  ⟨[("ppt/slides/slide2.xml".toList, .ok "b".toList),
    ("ppt/slides/slide1.xml".toList, .ok "a".toList),
    ("ppt/slides/slide01.xml".toList, .ok "c".toList)]⟩

example : (emitPrefix slidesOutOfOrder (fun _ d => .ok d) [] false
    "ppt/slides/slide".toList []).1 = "acb".toList := by decide

end Finished

/-- `OXExtractor.html_text` on an opened archive; `preview` is `RECOLL_FILTER_FORPREVIEW`
being `yes`. -/
def htmlText (S : Sheets) (applySheet : Str → Bytes → Except PyError Bytes) (preview : Bool)
    (Z : Zip) : Bytes :=
  let docdata := metaStage Z applySheet S.meta "<html><head>".toList
  let docdata := docdata ++ "</head><body>".toList
  let docdata := onePart Z applySheet "word/document.xml".toList
    (computestylesheet S.content S.word) docdata
  let docdata := onePart Z applySheet "xl/sharedStrings.xml".toList
    (computestylesheet S.content S.xl) docdata
  let docdata := slidesStage Z applySheet (computestylesheet S.content S.pp) preview docdata
  let docdata := visioStage Z applySheet (computestylesheet S.content S.vs) docdata
  docdata ++ "</body></html>".toList

/-- Names of other shapes than `prefix + digits + ".xml"` change the slides: next to
`slide1.xml`, a `slide1.xml.bak` whose key slice `1.xml` `int()` refuses ends the stage before
any slide is read, whatever the parts hold; a lone `slide1Axml` is a part; and a slide whose
transformation raises ends the stage, so the slide after it is lost. -/
theorem htmlText_name_shapes (S : Sheets) (applySheet : Str → Bytes → Except PyError Bytes)
    (preview : Bool) (c₁ c₂ : Bytes) :
    htmlText S applySheet preview ⟨[("ppt/slides/slide1.xml".toList, .ok c₁),
        ("ppt/slides/slide1.xml.bak".toList, .ok c₂)]⟩ =
      "<html><head></head><body></body></html>".toList ∧
    htmlText S (fun _ d => .ok d) false ⟨[("ppt/slides/slide1Axml".toList, .ok "x".toList)]⟩ =
      "<html><head></head><body>x</body></html>".toList ∧
    htmlText S (fun _ d => if d = "bad".toList then .error .valueError else .ok d) false
      ⟨[("ppt/slides/slide1.xml".toList, .ok "bad".toList),
        ("ppt/slides/slide2.xml".toList, .ok "y".toList)]⟩ =
      "<html><head></head><body></body></html>".toList :=
  ⟨rfl, rfl, rfl⟩

end RecollFilters.Opxml
