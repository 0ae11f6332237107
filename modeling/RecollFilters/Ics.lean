import RecollFilters.Session

/-! # The ICS calendar filter

`ICalSimpleSplitter.splitcalendar` (the internal splitter, the one `usemodule` selects) cuts
the calendar's lines into `VTODO`, `VEVENT` and `VJOURNAL` blocks; `IcalExtractor` serves the
blocks through the shared cursor session, addressed by their index.
-/

namespace RecollFilters

set_option autoImplicit false

namespace ICalSimpleSplitter

def interesting : List Bytes := ["VTODO".toList, "VEVENT".toList, "VJOURNAL".toList]

/-- `b.upper()` on `bytes`: ASCII letters only. -/
def upper (b : Bytes) : Bytes := b.map Char.toUpper

/-- The loop variables of `splitcalendar`. -/
structure Split where
  curblkname : Bytes
  curblk : Bytes
  lo : List Bytes

def Split.step (st : Split) (line : Bytes) : Split :=
  let line := line.rdropWhile isPySpace
  if line = [] then st
  else
    let st := if st.curblkname ≠ [] then { st with curblk := st.curblk ++ line ++ ['\n'] } else st
    match split ':' line with
    | l0 :: l1 :: _ =>
      let st :=
        if st.curblkname = [] ∧ upper l0 = "BEGIN".toList ∧ upper l1 ∈ interesting then
          { st with curblkname := upper l1, curblk := st.curblk ++ line ++ ['\n'] }
        else st
      if st.curblkname ≠ [] ∧ upper l0 = "END".toList ∧ upper l1 = st.curblkname then
        { st with lo := st.lo ++ [st.curblk], curblkname := [], curblk := [] }
      else st
    | _ => st

/-- `ICalSimpleSplitter.splitcalendar`: an unterminated last block is kept. -/
def splitcalendar (lines : List Bytes) : List Bytes :=
  let st := lines.foldl Split.step ⟨[], [], []⟩
  if st.curblk ≠ [] then st.lo ++ [st.curblk] else st.lo

/-! ### What the splitter computes

On the normalized lines, the splitter's output is the blocks of the one segmentation
`Segmented` describes; `blocks` computes that segmentation, and `Split.Holds` relates the loop
variables to the component it has open. -/

def normalize (lines : List Bytes) : List Bytes :=
  (lines.map (·.rdropWhile isPySpace)).filter (· ≠ [])

def block (seg : List Bytes) : Bytes := (seg.map (· ++ ['\n'])).flatten

/-- The component a line begins: its first two `:`-fields are `BEGIN` and an interesting name,
in any letter case. -/
def beginName (line : Bytes) : Option Bytes :=
  match split ':' line with
  | l0 :: l1 :: _ =>
    if upper l0 = "BEGIN".toList ∧ upper l1 ∈ interesting then some (upper l1) else none
  | _ => none

/-- A line ends component `x`: its first two `:`-fields are `END` and `x`, in any letter case. -/
def endsBlock (x line : Bytes) : Bool :=
  match split ':' line with
  | l0 :: l1 :: _ => upper l0 = "END".toList ∧ upper l1 = x
  | _ => false

/-- How normalized lines cut into blocks: a line outside every block that begins no component
is skipped; a block runs from a line beginning a component to the first later line ending it,
or to the end of the input. -/
inductive Segmented : List Bytes → List (List Bytes) → Prop
  | nil : Segmented [] []
  | skip {line : Bytes} {rest : List Bytes} {segs : List (List Bytes)} :
    beginName line = none → Segmented rest segs → Segmented (line :: rest) segs
  | closed {line x last : Bytes} {body rest : List Bytes} {segs : List (List Bytes)} :
    beginName line = some x → (∀ l ∈ body, endsBlock x l = false) → endsBlock x last = true →
    Segmented rest segs → Segmented (line :: body ++ last :: rest) ((line :: body ++ [last]) :: segs)
  | unclosed {line x : Bytes} {body : List Bytes} :
    beginName line = some x → (∀ l ∈ body, endsBlock x l = false) →
    Segmented (line :: body) [line :: body]

def blocks : Option (Bytes × List Bytes) → List Bytes → List (List Bytes)
  | none, [] => []
  | some (_, seg), [] => [seg]
  | none, line :: rest =>
    match beginName line with
    | some x => blocks (some (x, [line])) rest
    | none => blocks none rest
  | some (x, seg), line :: rest =>
    if endsBlock x line then (seg ++ [line]) :: blocks none rest
    else blocks (some (x, seg ++ [line])) rest

theorem blocks_begin {line x : Bytes} (rest : List Bytes) (hb : beginName line = some x) :
    blocks none (line :: rest) = blocks (some (x, [line])) rest := by
  simp only [blocks, hb]

theorem blocks_skip {line : Bytes} (rest : List Bytes) (hb : beginName line = none) :
    blocks none (line :: rest) = blocks none rest := by
  simp only [blocks, hb]

theorem blocks_open_append {x : Bytes} : ∀ {body : List Bytes} (seg rest : List Bytes),
    (∀ l ∈ body, endsBlock x l = false) →
      blocks (some (x, seg)) (body ++ rest) = blocks (some (x, seg ++ body)) rest
  | [], seg, rest, _ => by simp
  | l :: body, seg, rest, h => by
    rw [List.cons_append, blocks, if_neg (by simp [h l (by simp)]),
      blocks_open_append _ _ fun m hm => h m (List.mem_cons_of_mem l hm)]
    simp

theorem Segmented.eq_blocks {lines : List Bytes} {segs : List (List Bytes)}
    (h : Segmented lines segs) : segs = blocks none lines := by
  induction h with
  | nil => rfl
  | skip hb _ ih => rw [blocks_skip _ hb, ih]
  | @closed line x last body rest segs hb hbody hlast _ ih =>
    rw [List.cons_append line body (last :: rest), blocks_begin _ hb, blocks_open_append _ _ hbody, blocks,
      if_pos hlast, ih]
    rfl
  | @unclosed line x body hb hbody =>
    rw [blocks_begin _ hb, ← List.append_nil body, blocks_open_append _ _ hbody]
    simp [blocks]

theorem segmented_blocks : ∀ (rest : List Bytes),
    Segmented rest (blocks none rest) ∧
      ∀ (line x : Bytes) (body : List Bytes), beginName line = some x →
        (∀ l ∈ body, endsBlock x l = false) →
        Segmented (line :: body ++ rest) (blocks (some (x, line :: body)) rest)
  | [] => ⟨.nil, fun _ _ _ hb h => by simpa [blocks] using Segmented.unclosed hb h⟩
  | l :: rest => by
    obtain ⟨ih, ihOpen⟩ := segmented_blocks rest
    refine ⟨?_, fun line x body hb h => ?_⟩
    · cases hl : beginName l with
      | none => rw [blocks_skip _ hl]; exact .skip hl ih
      | some y => rw [blocks_begin _ hl]; simpa using ihOpen l y [] hl (by simp)
    · by_cases he : endsBlock x l = true
      · rw [blocks, if_pos he]
        exact .closed hb h he ih
      · rw [blocks, if_neg he]
        have hbody : ∀ m ∈ body ++ [l], endsBlock x m = false := by
          simpa [or_imp, forall_and] using ⟨h, eq_false_of_ne_true he⟩
        simpa using ihOpen line x (body ++ [l]) hb hbody

def Split.close (st : Split) : List Bytes := if st.curblk ≠ [] then st.lo ++ [st.curblk] else st.lo

theorem splitcalendar_eq_close (lines : List Bytes) :
    splitcalendar lines = (lines.foldl Split.step ⟨[], [], []⟩).close := rfl

/-- The loop variables hold the open component `p` of `blocks`: none, or its name and its
lines so far. -/
def Split.Holds (st : Split) : Option (Bytes × List Bytes) → Prop
  | none => st.curblkname = [] ∧ st.curblk = []
  | some (x, seg) => st.curblkname = x ∧ x ≠ [] ∧ st.curblk = block seg ∧ seg ≠ []

theorem Split.step_blank (st : Split) {line : Bytes} (h : line.rdropWhile isPySpace = []) :
    st.step line = st := by
  simp [Split.step, h]

theorem Split.step_outside {st : Split} {line : Bytes} (hn : st.curblkname = [])
    (hl : line.rdropWhile isPySpace ≠ []) :
    st.step line = match beginName (line.rdropWhile isPySpace) with
      | some x => { st with curblkname := x, curblk := st.curblk ++ line.rdropWhile isPySpace ++ ['\n'] }
      | none => st := by
  rw [Split.step, if_neg hl, beginName]
  rcases hs : split ':' (line.rdropWhile isPySpace) with _ | ⟨l0, _ | ⟨l1, ls⟩⟩
  · simp [hn]
  · simp [hn]
  · by_cases hb : upper l0 = "BEGIN".toList ∧ upper l1 ∈ interesting
    · have hx : upper l1 ≠ [] := by
        rintro h; rw [h] at hb; simp [interesting] at hb
      simp [hb, hx, hn, show upper l0 ≠ "END".toList by rw [hb.1]; decide]
    · simp only [hn, hb, and_false, if_false, ne_eq, not_true_eq_false, false_and]

theorem Split.step_inside {st : Split} {line : Bytes} (hn : st.curblkname ≠ [])
    (hl : line.rdropWhile isPySpace ≠ []) :
    st.step line =
      if endsBlock st.curblkname (line.rdropWhile isPySpace) then
        { st with lo := st.lo ++ [st.curblk ++ line.rdropWhile isPySpace ++ ['\n']],
                  curblkname := [], curblk := [] }
      else { st with curblk := st.curblk ++ line.rdropWhile isPySpace ++ ['\n'] } := by
  rw [Split.step, if_neg hl, endsBlock]
  rcases hs : split ':' (line.rdropWhile isPySpace) with _ | ⟨l0, _ | ⟨l1, ls⟩⟩
  · simp [hn]
  · simp [hn]
  · simp [hn]

theorem normalize_cons_blank {line : Bytes} (rest : List Bytes) (h : line.rdropWhile isPySpace = []) :
    normalize (line :: rest) = normalize rest := by
  simp [normalize, h]

theorem normalize_cons {line : Bytes} (rest : List Bytes) (h : line.rdropWhile isPySpace ≠ []) :
    normalize (line :: rest) = line.rdropWhile isPySpace :: normalize rest := by
  simp [normalize, h]

theorem beginName_ne_nil {line x : Bytes} (h : beginName line = some x) : x ≠ [] := by
  unfold beginName at h
  split at h
  · split_ifs at h with hb
    cases h
    intro hx
    rw [hx] at hb
    simp [interesting] at hb
  · cases h

@[simp] theorem block_append (seg : List Bytes) (line : Bytes) :
    block (seg ++ [line]) = block seg ++ line ++ ['\n'] := by
  simp [block]

theorem block_ne_nil {seg : List Bytes} (h : seg ≠ []) : block seg ≠ [] := by
  cases seg with
  | nil => exact absurd rfl h
  | cons line seg => simp [block]

theorem Split.foldl_close : ∀ (rest : List Bytes) (st : Split) (p : Option (Bytes × List Bytes)),
    st.Holds p → (rest.foldl Split.step st).close = st.lo ++ (blocks p (normalize rest)).map block
  | [], st, none, ⟨_, hc⟩ => by simp [Split.close, hc, normalize, blocks]
  | [], st, some (x, seg), ⟨_, _, hc, hs⟩ => by
    simp [Split.close, hc, normalize, blocks, block_ne_nil hs]
  | line :: rest, st, p, h => by
    rw [List.foldl_cons]
    by_cases hl : line.rdropWhile isPySpace = []
    · rw [Split.step_blank st hl, normalize_cons_blank rest hl]
      exact Split.foldl_close rest st p h
    rw [normalize_cons rest hl]
    cases p with
    | none =>
      obtain ⟨hn, hc⟩ := h
      rw [Split.step_outside hn hl]
      cases hb : beginName (line.rdropWhile isPySpace) with
      | none =>
        rw [blocks_skip _ hb]
        exact Split.foldl_close rest st none ⟨hn, hc⟩
      | some x =>
        rw [blocks_begin _ hb]
        exact Split.foldl_close rest _ (some (x, [_]))
          ⟨rfl, beginName_ne_nil hb, by simp [hc, block], by simp⟩
    | some p =>
      obtain ⟨x, seg⟩ := p
      obtain ⟨hn, hx, hc, hs⟩ := h
      rw [Split.step_inside (hn ▸ hx) hl, hn, blocks]
      split_ifs
      · rw [Split.foldl_close rest _ none ⟨rfl, rfl⟩]
        simp [hc]
      · exact Split.foldl_close rest _ (some (x, seg ++ [_])) ⟨rfl, hx, by simp [hc], by simp⟩

theorem Segmented.sublist {lines : List Bytes} {segs : List (List Bytes)}
    (h : Segmented lines segs) : segs.flatten.Sublist lines := by
  induction h with
  | nil => exact .slnil
  | skip _ _ ih => exact ih.cons _
  | @closed line x last body rest segs _ _ _ _ ih =>
    rw [List.flatten_cons, show line :: body ++ last :: rest = (line :: body ++ [last]) ++ rest by simp]
    exact ih.append_left _
  | unclosed _ _ => simp

/-- `splitcalendar` returns the blocks of the one segmentation of the normalized lines: the
blocks are disjoint runs of those lines in input order, each line of a run once in its block
with one newline, and no skipped line in any block. -/
theorem splitcalendar_segments (lines : List Bytes) :
    ∃ segs, Segmented (normalize lines) segs ∧ segs.flatten.Sublist (normalize lines) ∧
      splitcalendar lines = segs.map block ∧
      ∀ segs', Segmented (normalize lines) segs' → segs' = segs :=
  have h := (segmented_blocks (normalize lines)).1
  ⟨_, h, h.sublist, by rw [splitcalendar_eq_close, Split.foldl_close lines _ none ⟨rfl, rfl⟩]; rfl,
    fun _ h' => h'.eq_blocks⟩

end ICalSimpleSplitter

namespace IcalExtractor

abbrev State := Session Unit Bytes

/-- `IcalExtractor.extractone`: a negative index reads from the end of the list. -/
def extractone (s : State) (index : Int) : Except PyError (Answer × State) :=
  if (s.contents.length : Int) ≤ index then .ok (⟨false, [], [], .bareTrue⟩, s)
  else do
    let docdata ← pyGetItem s.contents index
    pure (⟨true, docdata, pyStr index, s.iseof⟩, s.setmimetype "text/plain".toList)

/-- `IcalExtractor.getipath`: an empty ipath is entry 0, any other is read with `int()`. -/
def getipath (s : State) (ipath : Bytes) : Except PyError (Answer × State) :=
  if ipath = [] then extractone s 0
  else
    match pyInt ipath with
    | none => .ok (⟨false, [], [], .bareTrue⟩, s)
    | some index => extractone s index

theorem extractone_frame {s t : State} {i : Int} {r : Answer}
    (h : extractone s i = .ok (r, t)) : Session.Frame s t := by
  unfold extractone at h
  split_ifs at h
  · cases h; exact .refl s
  · obtain ⟨_, -, h⟩ := except_bind_eq_ok.mp h
    cases h; exact .setmimetype s _

theorem getipath_frame : CursorFilter.GetipathFrame getipath := by
  intro s a r t h
  unfold getipath at h
  split_ifs at h
  · exact extractone_frame h
  · split at h
    · cases h; exact .refl s
    · exact extractone_frame h

theorem getipath_pyStr (s : State) {i : Nat} {a : Bytes} (ha : s.contents[i]? = some a)
    (hd : (pyStr i).length ≤ 4300) :
    getipath s (pyStr i) = .ok (⟨true, a, pyStr i, s.iseof⟩, s.setmimetype "text/plain".toList) := by
  have hlt : i < s.contents.length := (List.getElem?_eq_some_iff.mp ha).1
  rw [getipath, if_neg (pyStr_ofNat_ne_nil i), pyInt_pyStr hd]
  simp only [extractone, if_neg (show ¬(s.contents.length : Int) ≤ i by omega),
    pyGetItem_of_getElem? ha]
  rfl

/-- The ICS filter in the shared cursor session; the self document's `b"text/plain"` and the
blocks' `"text/plain"` are the same hint once sent. -/
def filter : CursorFilter Unit Bytes where
  closes := false
  selfType := "text/plain".toList
  selfData _ := []
  extractone := extractone
  entry _ i a := ⟨true, a, pyStr i⟩
  entryType _ _ _ := some "text/plain".toList
  extractone_eq s i a _ hi ha := by
    have hlt : i < s.contents.length := (List.getElem?_eq_some_iff.mp ha).1
    simp only [extractone, pyGetItem_of_getElem? ha,
      if_neg (show ¬(s.contents.length : Int) ≤ i by omega)]
    rfl

def getnext : State → Except PyError (Answer × State) := filter.getnext

/-- `IcalExtractor.openfile`: `lines` is the file read in binary, `none` when `open` fails. -/
def openfile (lines : Option (List Bytes)) (s : State) : Bool × State :=
  match lines with
  | none => (false, s)
  | some lines =>
    (true, { s with currentindex := -1, contents := ICalSimpleSplitter.splitcalendar lines })

theorem openfile_opened {lines : Option (List Bytes)} {s s' : State}
    (h : openfile lines s = (true, s')) : s'.currentindex = -1 := by
  unfold openfile at h
  split at h
  · cases h
  · cases h; rfl

/-- On a calendar of one block, `getipath(b"-1")` answers the block under the address `-1`,
which no `getnext` call produces, and `getipath(b"-2")` raises `IndexError`. -/
theorem getipath_negative_index (s : State) :
    (getipath (openfile (some ["BEGIN:VEVENT".toList, "END:VEVENT".toList]) s).2
        "-1".toList).map Prod.fst =
      .ok ⟨true, "BEGIN:VEVENT\nEND:VEVENT\n".toList, "-1".toList, .noteof⟩ ∧
    (getipath (openfile (some ["BEGIN:VEVENT".toList, "END:VEVENT".toList]) s).2
        "-2".toList).map Prod.fst = .error .indexError :=
  ⟨rfl, rfl⟩

end IcalExtractor

end RecollFilters
