import RecollFilters.Chm.File
import RecollFilters.Url
import RecollFilters.Posix
import Mathlib.Data.List.Nodup
import Mathlib.Logic.Relation

/-! # The CHM link walker

Without a Topics catalog, `rclCHM.openfile` walks the links of the home page: a `ChmWalker`
records its page in the contents list all walkers share, and for each `a` tag starts a
nested walker on the page the link leads to, when that page is not recorded yet and has
content. An exception in a nested walk is caught where that walk was started, and what it
recorded stays; one on the home page escapes `openfile`. Python's recursion limit stops the
nesting: a walker started `maxNesting` levels below the home page's raises `RecursionError`,
which the walker that started it swallows. The walk also carries a fuel argument, and the
number of the file's objects is enough fuel. The pages it records are reachable from the home
page by the links it follows, and they are all of them when no page raises and the walk
records no more pages than the recursion limit lets walkers nest.
-/

namespace RecollFilters.Chm

set_option autoImplicit false

open Posix Url

/-- `res.scheme.lower == "ms-its"`: a bound method never equals a `str`. -/
def schemeLowerIsMsIts (_scheme : Str) : Bool := false

/-- The address `openfile` reads the home page at: the home with a leading `/`. -/
def homeAddress (home : Bytes) : Bytes := if home.head? = some '/' then home else '/' :: home

/-- The state a walk leaves: the shared contents list, and the exception that ended it. -/
structure Walked where
  contents : List Bytes
  raised : Option PyError

section Walk

variable (E : ChmEnv) (f : ChmFile) (charset : Str)

def hrefPath (res : SplitResult) : Except PyError Str :=
  if res.scheme = [] || schemeLowerIsMsIts res.scheme then
    match split ':' res.path with
    | [_, _, p] => (peekfile E.codecs f p charset).map fun ok => if ok then p else []
    | [p] => .ok p
    | _ => .ok []
  else .ok []

/-- `ChmWalker.handle_starttag` up to its visited test: the normalized path an `a` tag leads
to from directory `dir`, `none` when the tag is not followed. A valueless `href` makes
`urlparse` return `bytes`, whose `split(":")` raises. -/
def linkPath (dir : Bytes) (tag : StartTag) : Except PyError (Option Bytes) :=
  if tag.tag ≠ "a".toList then .ok none
  else
    match tag.attr "href".toList with
    | none => .error .typeError
    | some href => do
      let path ← hrefPath E f charset (← urlparse href)
      if path = [] then pure none
      else
        let bpath ← E.codecs.encode charset path
        pure (some (if path.head? = some '/' then normpath bpath else normpath (join dir bpath)))

/-- `feed` of a walker in directory `dir` over its page's start tags; `walkPage` is a nested
walker, whose exception is caught. -/
def feed (walkPage : Bytes → Bytes → List Bytes → Option Walked) (dir : Bytes) :
    List StartTag → List Bytes → Option Walked
  | [], contents => some ⟨contents, none⟩
  | tag :: tags, contents =>
    match linkPath E f charset dir tag with
    | .error e => some ⟨contents, some e⟩
    | .ok none => feed walkPage dir tags contents
    | .ok (some npath) =>
      if npath ∈ contents ∨ getfile f npath = [] then feed walkPage dir tags contents
      else (walkPage npath (getfile f npath) contents).bind fun w => feed walkPage dir tags w.contents

/-- A nested walker on `path` with text `text`, `room` levels above the recursion limit:
`ChmWalker(rclchm, path, contents)` records the page, `fixencoding` decodes it and `feed` walks
its links. At the limit, building the walker raises before it records anything. -/
def walk : Nat → Nat → Bytes → Bytes → List Bytes → Option Walked
  | 0, _, _, _, _ => none
  | _ + 1, 0, _, _, contents => some ⟨contents, some .recursionError⟩
  | fuel + 1, room + 1, path, text, contents =>
    let path := normpath path
    let contents := contents ++ [path]
    match fixencoding E.codecs text with
    | .error e => some ⟨contents, some e⟩
    | .ok (t, _) => feed E f charset (walk fuel room) (dirname path) (E.starttags t) contents

end Walk

/-- The walk `openfile` starts on the home page: the home is recorded as given, its text's
charset becomes the charset of the whole walk, and no exception is caught. -/
def walkHome (E : ChmEnv) (f : ChmFile) (fuel : Nat) : Option Walked :=
  let contents := [normpath f.home]
  match fixencoding E.codecs (getfile f (homeAddress f.home)) with
  | .error e => some ⟨contents, some e⟩
  | .ok (t, charset) =>
    feed E f charset (walk E f charset fuel E.maxNesting) (dirname (normpath f.home))
      (E.starttags t) contents

/-! ### The contents list a walk builds -/

/-- The pages with content that `c` does not record yet; each nested walk records one. -/
def unrecorded (f : ChmFile) (c : List Bytes) : Nat :=
  (f.objects.map Prod.fst).countP fun p => getfile f p ≠ [] ∧ p ∉ c

/-- The walker's invariant on the contents list: no path twice, content behind every path
after the home page's. -/
structure Recorded (f : ChmFile) (c : List Bytes) : Prop where
  nodup : c.Nodup
  getfile_tail : ∀ a ∈ c.tail, getfile f a ≠ []
  ne_nil : c ≠ []

section Laws

variable {E : ChmEnv} {f : ChmFile} {charset : Str}

theorem mem_keys_of_getfile_ne_nil {p : Bytes} (h : getfile f p ≠ []) :
    p ∈ f.objects.map Prod.fst := by
  have hs : (f.objects.lookup p).isSome := by
    cases hr : f.objects.lookup p
    · simp [getfile, ChmFile.retrieve, hr] at h
    · rfl
  obtain ⟨q, hq, hpq⟩ := List.lookup_isSome_iff.mp hs
  exact List.mem_map.mpr ⟨q, hq, (beq_iff_eq.mp hpq).symm⟩

private theorem countP_lt_of_mem {α : Type} {p q : α → Bool} {a : α} :
    ∀ {l : List α}, (∀ x ∈ l, p x → q x) → a ∈ l → q a → ¬p a → l.countP p < l.countP q
  | [], _, ha, _, _ => absurd ha (List.not_mem_nil a)
  | y :: l, h, ha, hq, hp => by
    have hle := List.countP_mono_left fun x hx => h x (List.mem_cons_of_mem y hx)
    have hy := h y (List.mem_cons_self y l)
    simp only [List.countP_cons]
    rcases List.mem_cons.mp ha with rfl | ha
    · rw [if_pos hq, if_neg hp]
      omega
    · have := countP_lt_of_mem (fun x hx => h x (List.mem_cons_of_mem y hx)) ha hq hp
      split_ifs with h1 h2 <;> first | omega | exact absurd (hy h1) h2

theorem unrecorded_le_length (c : List Bytes) : unrecorded f c ≤ f.objects.length :=
  (List.countP_le_length _).trans_eq (List.length_map _ _)

theorem unrecorded_antitone {c c' : List Bytes} (h : c <+: c') :
    unrecorded f c' ≤ unrecorded f c :=
  List.countP_mono_left fun _ _ hx => by
    simp only [decide_eq_true_eq] at hx ⊢
    exact ⟨hx.1, fun hc => hx.2 (h.subset hc)⟩

theorem unrecorded_append_lt {c : List Bytes} {p : Bytes} (hp : p ∉ c) (hg : getfile f p ≠ []) :
    unrecorded f (c ++ [p]) < unrecorded f c :=
  countP_lt_of_mem (fun _ _ hx => by
      simp only [decide_eq_true_eq, List.mem_append, not_or] at hx ⊢
      exact ⟨hx.1, hx.2.1⟩)
    (mem_keys_of_getfile_ne_nil hg) (by simpa using ⟨hg, hp⟩) (by simp)

theorem Recorded.append {c : List Bytes} {p : Bytes} (h : Recorded f c) (hp : p ∉ c)
    (hg : getfile f p ≠ []) : Recorded f (c ++ [p]) where
  nodup := List.concat_eq_append c p ▸ h.nodup.concat hp
  getfile_tail a ha := by
    rw [List.tail_append_of_ne_nil h.ne_nil, List.mem_append, List.mem_singleton] at ha
    rcases ha with ha | rfl
    · exact h.getfile_tail a ha
    · exact hg
  ne_nil := by simp

theorem recorded_singleton (p : Bytes) : Recorded f [p] :=
  ⟨List.nodup_singleton p, by simp, by simp⟩

theorem linkPath_normal {dir : Bytes} {tag : StartTag} {p : Bytes}
    (h : linkPath E f charset dir tag = .ok (some p)) : normpath p = p := by
  unfold linkPath at h
  split_ifs at h
  · cases h
  split at h
  · cases h
  obtain ⟨res, -, h⟩ := except_bind_eq_ok.mp h
  obtain ⟨path, -, h⟩ := except_bind_eq_ok.mp h
  by_cases hp : path = []
  · rw [if_pos hp] at h
    cases h
  rw [if_neg hp] at h
  obtain ⟨b, -, h⟩ := except_bind_eq_ok.mp h
  cases h
  split <;> exact normpath_normpath _

theorem linkPath_of_scheme_ne_nil {dir : Bytes} {tag : StartTag} {href : Str} {res : SplitResult}
    (htag : tag.attr "href".toList = some href) (hres : urlparse href = .ok res)
    (hs : res.scheme ≠ []) : linkPath E f charset dir tag = .ok none := by
  have hpath : hrefPath E f charset res = .ok [] := by simp [hrefPath, schemeLowerIsMsIts, hs]
  unfold linkPath
  split_ifs
  · rfl
  · rw [htag]
    simp only [bind, Except.bind, hres, hpath, if_pos]
    rfl

variable {g g' : Bytes → Bytes → List Bytes → Option Walked} {dir : Bytes}

theorem feed_of_linkPath_none {tags : List StartTag} {c : List Bytes}
    (h : ∀ tag ∈ tags, linkPath E f charset dir tag = .ok none) :
    feed E f charset g dir tags c = some ⟨c, none⟩ := by
  induction tags with
  | nil => rfl
  | cons tag tags ih =>
    rw [feed, h tag (List.mem_cons_self tag tags)]
    exact ih fun t ht => h t (List.mem_cons_of_mem tag ht)

/-- What one start tag can do to a walk: end it by an exception, leave it (no link, or a link
to a recorded page or one without content), or walk a new page with content. -/
theorem feed_cons_cases {tag : StartTag} {tags : List StartTag} {c : List Bytes} {w : Walked}
    (h : feed E f charset g dir (tag :: tags) c = some w) :
    (∃ e, linkPath E f charset dir tag = .error e ∧ w = ⟨c, some e⟩) ∨
      (linkPath E f charset dir tag = .ok none ∧ feed E f charset g dir tags c = some w) ∨
      (∃ p, linkPath E f charset dir tag = .ok (some p) ∧ (p ∈ c ∨ getfile f p = []) ∧
        feed E f charset g dir tags c = some w) ∨
      ∃ p w', linkPath E f charset dir tag = .ok (some p) ∧ p ∉ c ∧ getfile f p ≠ [] ∧
        g p (getfile f p) c = some w' ∧ feed E f charset g dir tags w'.contents = some w := by
  rw [feed] at h
  split at h
  · exact .inl ⟨_, ‹_›, (Option.some.inj h).symm⟩
  · exact .inr (.inl ⟨‹_›, h⟩)
  · rename_i p hp
    split_ifs at h with hc
    · exact .inr (.inr (.inl ⟨p, hp, hc, h⟩))
    · obtain ⟨w', hw', h⟩ := Option.bind_eq_some.mp h
      push_neg at hc
      exact .inr (.inr (.inr ⟨p, w', hp, hc.1, hc.2, hw', h⟩))

theorem feed_extends (hg : ∀ p t c w, g p t c = some w → c <+: w.contents) :
    ∀ {tags c w}, feed E f charset g dir tags c = some w → c <+: w.contents
  | [], _, _, h => by cases h; exact List.prefix_refl _
  | _ :: _, c, _, h => by
    rcases feed_cons_cases h with ⟨e, -, rfl⟩ | ⟨-, h⟩ | ⟨p, -, -, h⟩ |
      ⟨p, w', -, -, -, hw', h⟩
    · exact List.prefix_refl c
    · exact feed_extends hg h
    · exact feed_extends hg h
    · exact (hg _ _ _ _ hw').trans (feed_extends hg h)

theorem walk_extends :
    ∀ {fuel room p t c w}, walk E f charset fuel room p t c = some w → c <+: w.contents
  | 0, _, _, _, _, _, h => by cases h
  | _ + 1, 0, _, _, c, _, h => by cases h; exact List.prefix_refl c
  | fuel + 1, room + 1, p, t, c, w, h => by
    rw [walk] at h
    have hc : c <+: c ++ [normpath p] := List.prefix_append c _
    split at h
    · cases h; exact hc
    · exact hc.trans (feed_extends (fun _ _ _ _ => walk_extends) h)

theorem feed_recorded
    (hg : ∀ p t c w, g p t c = some w → normpath p ∉ c → getfile f (normpath p) ≠ [] →
      Recorded f c → Recorded f w.contents) :
    ∀ {tags c w}, feed E f charset g dir tags c = some w → Recorded f c → Recorded f w.contents
  | [], _, _, h, hc => by cases h; exact hc
  | _ :: _, _, _, h, hc => by
    rcases feed_cons_cases h with ⟨e, -, rfl⟩ | ⟨-, h⟩ | ⟨p, -, -, h⟩ |
      ⟨p, w', hl, hp, hgp, hw', h⟩
    · exact hc
    · exact feed_recorded hg h hc
    · exact feed_recorded hg h hc
    · have hn := linkPath_normal hl
      exact feed_recorded hg h (hg _ _ _ _ hw' (hn.symm ▸ hp) (hn.symm ▸ hgp) hc)

theorem walk_recorded : ∀ {fuel room p t c w}, walk E f charset fuel room p t c = some w →
    normpath p ∉ c → getfile f (normpath p) ≠ [] → Recorded f c → Recorded f w.contents
  | 0, _, _, _, _, _, h => by cases h
  | _ + 1, 0, _, _, _, _, h => fun _ _ hc => by cases h; exact hc
  | fuel + 1, room + 1, p, t, c, w, h => fun hp hgp hc => by
    rw [walk] at h
    split at h
    · cases h; exact hc.append hp hgp
    · exact feed_recorded (fun _ _ _ _ => walk_recorded) h (hc.append hp hgp)

theorem feed_mono (hg : ∀ p t c w, g p t c = some w → g' p t c = some w) :
    ∀ {tags c w}, feed E f charset g dir tags c = some w → feed E f charset g' dir tags c = some w
  | [], _, _, h => h
  | _ :: _, c, w, h => by
    rw [feed] at h ⊢
    split
    · rename_i heq; rwa [heq] at h
    · rename_i heq; rw [heq] at h; exact feed_mono hg h
    · rename_i npath heq
      simp only [heq] at h
      split_ifs at h ⊢
      · exact feed_mono hg h
      · obtain ⟨w', hw', h⟩ := Option.bind_eq_some.mp h
        rw [hg _ _ _ _ hw', Option.some_bind]
        exact feed_mono hg h

theorem walk_succ : ∀ {fuel room p t c w}, walk E f charset fuel room p t c = some w →
    walk E f charset (fuel + 1) room p t c = some w
  | 0, _, _, _, _, _, h => by cases h
  | _ + 1, 0, _, _, _, _, h => h
  | fuel + 1, room + 1, p, t, c, w, h => by
    rw [walk] at h ⊢
    split
    · rename_i heq; rwa [heq] at h
    · rename_i heq; rw [heq] at h; exact feed_mono (fun _ _ _ _ => walk_succ) h

theorem walk_mono {fuel fuel' room : Nat} {p t : Bytes} {c : List Bytes} {w : Walked}
    (hle : fuel ≤ fuel') (h : walk E f charset fuel room p t c = some w) :
    walk E f charset fuel' room p t c = some w := by
  induction hle with
  | refl => exact h
  | step _ ih => exact walk_succ ih

theorem feed_isSome {c : List Bytes}
    (hg : ∀ p c', c <+: c' → p ∉ c' → getfile f p ≠ [] → normpath p = p →
      ∃ w, g p (getfile f p) c' = some w ∧ c' <+: w.contents) :
    ∀ tags c', c <+: c' → ∃ w, feed E f charset g dir tags c' = some w
  | [], _, _ => ⟨_, rfl⟩
  | tag :: tags, c', hc => by
    rw [feed]
    split
    · exact ⟨_, rfl⟩
    · exact feed_isSome hg tags c' hc
    · rename_i npath heq
      split_ifs with hin
      · exact feed_isSome hg tags c' hc
      · push_neg at hin
        obtain ⟨w', hw', hpre⟩ := hg npath c' hc hin.1 hin.2 (linkPath_normal heq)
        rw [hw', Option.some_bind]
        exact feed_isSome hg tags _ (hc.trans hpre)

theorem walk_isSome : ∀ {fuel room p t c}, unrecorded f c ≤ fuel → normpath p ∉ c →
    getfile f (normpath p) ≠ [] → ∃ w, walk E f charset fuel room p t c = some w
  | 0, _, _, _, _, hu, hp, hgp => absurd hu (by have := unrecorded_append_lt hp hgp; omega)
  | _ + 1, 0, _, _, _, _, _, _ => ⟨_, rfl⟩
  | fuel + 1, room + 1, p, t, c, hu, hp, hgp => by
    have hlt := unrecorded_append_lt hp hgp
    rw [walk]
    split
    · exact ⟨_, rfl⟩
    · refine feed_isSome (fun q c' hc' hq hgq hn => ?_) _ _ (List.prefix_refl _)
      obtain ⟨w, hw⟩ := walk_isSome (t := getfile f q)
        (show unrecorded f c' ≤ fuel by have := unrecorded_antitone (f := f) hc'; omega)
        (hn.symm ▸ hq) (hn.symm ▸ hgq)
      exact ⟨w, hw, walk_extends hw⟩

end Laws

/-! ### The walk from the home page -/

section Home

variable {E : ChmEnv} {f : ChmFile}

theorem walkHome_mono {fuel fuel' : Nat} {w : Walked} (hle : fuel ≤ fuel')
    (h : walkHome E f fuel = some w) : walkHome E f fuel' = some w := by
  rw [walkHome] at h ⊢
  split
  · rename_i heq; rwa [heq] at h
  · rename_i heq; rw [heq] at h; exact feed_mono (fun _ _ _ _ => walk_mono hle) h

theorem walkHome_isSome {fuel : Nat} (hfuel : f.objects.length ≤ fuel) :
    ∃ w, walkHome E f fuel = some w := by
  rw [walkHome]
  split
  · exact ⟨_, rfl⟩
  · refine feed_isSome (fun q c' _ hq hgq hn => ?_) _ _ (List.prefix_refl _)
    obtain ⟨w, hw⟩ := walk_isSome (E := E) (c := c') (t := getfile f q)
      ((unrecorded_le_length c').trans hfuel) (hn.symm ▸ hq) (hn.symm ▸ hgq)
    exact ⟨w, hw, walk_extends hw⟩

theorem walkHome_of_linkPath_none {fuel : Nat} {t charset : Str}
    (hfix : fixencoding E.codecs (getfile f (homeAddress f.home)) = .ok (t, charset))
    (h : ∀ tag ∈ E.starttags t, linkPath E f charset (dirname (normpath f.home)) tag = .ok none) :
    walkHome E f fuel = some ⟨[normpath f.home], none⟩ := by
  rw [walkHome, hfix]
  exact feed_of_linkPath_none h

theorem walkHome_recorded {fuel : Nat} {w : Walked} (h : walkHome E f fuel = some w) :
    Recorded f w.contents ∧ [normpath f.home] <+: w.contents := by
  rw [walkHome] at h
  split at h
  · cases h; exact ⟨recorded_singleton _, List.prefix_refl _⟩
  · exact ⟨feed_recorded (fun _ _ _ _ => walk_recorded) h (recorded_singleton _),
      feed_extends (fun _ _ _ _ => walk_extends) h⟩

/-- The walk from the home page ends, on every link graph, once the fuel covers the file's
objects, with the same contents list for all such fuel: the home page first, no path twice,
and content behind every later path. -/
theorem walkHome_terminates (E : ChmEnv) (f : ChmFile) :
    ∃ w : Walked, (∀ fuel, f.objects.length ≤ fuel → walkHome E f fuel = some w) ∧
      w.contents.head? = some (normpath f.home) ∧ w.contents.Nodup ∧
      ∀ a ∈ w.contents.tail, getfile f a ≠ [] := by
  obtain ⟨w, hw⟩ := walkHome_isSome (E := E) (le_refl f.objects.length)
  obtain ⟨hrec, hpre⟩ := walkHome_recorded hw
  obtain ⟨d, hd⟩ := hpre
  exact ⟨w, fun _ h => walkHome_mono h hw, by simp [← hd], hrec.nodup, hrec.getfile_tail⟩

end Home

/-! ### The walk records the pages reachable from the home page -/

/-- The text the walk reads for a recorded page: the home page at its home address, any other
page at its path. -/
def pageText (f : ChmFile) (q : Bytes) : Bytes :=
  if q = normpath f.home then getfile f (homeAddress f.home) else getfile f q

/-- The walk goes from page `q` to page `p`: `p` has content, and a start tag of `q`'s decoded
text links to it. -/
def Step (E : ChmEnv) (f : ChmFile) (charset : Str) (q p : Bytes) : Prop :=
  getfile f p ≠ [] ∧ ∃ t cs, fixencoding E.codecs (pageText f q) = .ok (t, cs) ∧
    ∃ tag ∈ E.starttags t, linkPath E f charset (dirname q) tag = .ok (some p)

def Reachable (E : ChmEnv) (f : ChmFile) (charset : Str) (p : Bytes) : Prop :=
  Relation.ReflTransGen (Step E f charset) (normpath f.home) p

/-- Page `q` is walked without an exception: its text decodes and none of its start tags
raises. -/
def WalksCleanly (E : ChmEnv) (f : ChmFile) (charset : Str) (q : Bytes) : Prop :=
  ∃ t cs, fixencoding E.codecs (pageText f q) = .ok (t, cs) ∧
    ∀ tag ∈ E.starttags t, ∃ r, linkPath E f charset (dirname q) tag = .ok r

/-- The soundness invariant of a walk's contents: the home page is recorded, and every recorded
page is reachable. -/
structure Sound (E : ChmEnv) (f : ChmFile) (charset : Str) (c : List Bytes) : Prop where
  home : normpath f.home ∈ c
  reachable : ∀ a ∈ c, Reachable E f charset a

def Closed (E : ChmEnv) (f : ChmFile) (charset : Str) (c : List Bytes) (q : Bytes) : Prop :=
  ∀ p, Step E f charset q p → p ∈ c

section Reach

variable {E : ChmEnv} {f : ChmFile} {charset : Str}
  {g : Bytes → Bytes → List Bytes → Option Walked} {dir : Bytes}

theorem pageText_of_ne {q : Bytes} {c : List Bytes} (hq : q ∉ c) (hh : normpath f.home ∈ c) :
    pageText f q = getfile f q :=
  if_neg fun (h : q = normpath f.home) => hq (h ▸ hh)

theorem Sound.append {c : List Bytes} {p : Bytes} (h : Sound E f charset c)
    (hp : Reachable E f charset p) : Sound E f charset (c ++ [p]) where
  home := List.mem_append_left _ h.home
  reachable a ha := by
    rcases List.mem_append.mp ha with ha | ha
    · exact h.reachable a ha
    · exact (List.mem_singleton.mp ha) ▸ hp

theorem feed_sound
    (hg : ∀ p c w, g p (getfile f p) c = some w → normpath p = p → p ∉ c →
      Reachable E f charset p → Sound E f charset c → Sound E f charset w.contents) :
    ∀ {tags c w}, feed E f charset g dir tags c = some w →
      (∀ tag ∈ tags, ∀ p, linkPath E f charset dir tag = .ok (some p) → getfile f p ≠ [] →
        Reachable E f charset p) →
      Sound E f charset c → Sound E f charset w.contents
  | [], _, _, h, _, hc => by cases h; exact hc
  | tag :: _, _, _, h, hl, hc => by
    have hl' := fun t ht => hl t (List.mem_cons_of_mem tag ht)
    rcases feed_cons_cases h with ⟨e, -, rfl⟩ | ⟨-, h⟩ | ⟨p, -, -, h⟩ |
      ⟨p, w', hp, hpc, hgp, hw', h⟩
    · exact hc
    · exact feed_sound hg h hl' hc
    · exact feed_sound hg h hl' hc
    · exact feed_sound hg h hl' (hg _ _ _ hw' (linkPath_normal hp) hpc
        (hl tag (List.mem_cons_self tag _) p hp hgp) hc)

theorem walk_sound : ∀ {fuel room p c w}, walk E f charset fuel room p (getfile f p) c = some w →
    normpath p = p → p ∉ c → Reachable E f charset p → Sound E f charset c →
    Sound E f charset w.contents
  | 0, _, _, _, _, h => by cases h
  | _ + 1, 0, _, _, _, h => fun _ _ _ hc => by cases h; exact hc
  | fuel + 1, room + 1, p, c, w, h => fun hn hp hr hc => by
    rw [walk, hn] at h
    split at h
    · cases h; exact hc.append hr
    · rename_i t cs hfix
      refine feed_sound (fun _ _ _ => walk_sound) h (fun tag htag q hl hgq => ?_) (hc.append hr)
      exact hr.tail ⟨hgq, t, cs, by rwa [pageText_of_ne hp hc.home], tag, htag, hl⟩

theorem walkHome_sound {fuel : Nat} {t charset : Str} {w : Walked}
    (hfix : fixencoding E.codecs (getfile f (homeAddress f.home)) = .ok (t, charset))
    (hw : walkHome E f fuel = some w) : Sound E f charset w.contents := by
  rw [walkHome, hfix] at hw
  refine feed_sound (fun _ _ _ => walk_sound) hw (fun tag htag q hl hgq => ?_)
    ⟨List.mem_singleton_self _, fun a ha => List.mem_singleton.mp ha ▸ .refl⟩
  exact .single ⟨hgq, t, charset, by rwa [pageText, if_pos rfl], tag, htag, hl⟩

theorem Closed.mono {c c' : List Bytes} {q : Bytes} (h : Closed E f charset c q)
    (hc : c <+: c') : Closed E f charset c' q :=
  fun p hp => hc.subset (h p hp)

theorem closed_of_links {q : Bytes} {t cs : Str} {c : List Bytes}
    (hfix : fixencoding E.codecs (pageText f q) = .ok (t, cs))
    (h : ∀ tag ∈ E.starttags t, ∀ p, linkPath E f charset (dirname q) tag = .ok (some p) →
      getfile f p ≠ [] → p ∈ c) : Closed E f charset c q := by
  rintro p ⟨hgp, t', cs', hfix', tag, htag, hl⟩
  rw [hfix] at hfix'
  cases hfix'
  exact h tag htag p hl hgp

theorem WalksCleanly.decodes {q : Bytes} (h : WalksCleanly E f charset q) (e : PyError) :
    fixencoding E.codecs (pageText f q) ≠ .error e := by
  obtain ⟨t, cs, hfix, -⟩ := h
  rw [hfix]
  exact nofun

theorem WalksCleanly.links_ok {q : Bytes} {t cs : Str} (h : WalksCleanly E f charset q)
    (hfix : fixencoding E.codecs (pageText f q) = .ok (t, cs)) :
    ∀ tag ∈ E.starttags t, ∃ r, linkPath E f charset (dirname q) tag = .ok r := by
  obtain ⟨t', cs', hfix', hok⟩ := h
  rw [hfix] at hfix'
  cases hfix'
  exact hok

/-- A feed whose start tags raise nothing, in a walk whose recorded pages are all walked
cleanly and whose nested walkers stay below the recursion limit, records every page with
content its tags lead to, and the pages it records are closed. -/
theorem feed_closed (hext : ∀ p t c w, g p t c = some w → c <+: w.contents) {room : Nat}
    (hg : ∀ p c w, g p (getfile f p) c = some w → normpath p = p → p ∉ c →
      normpath f.home ∈ c → w.contents.length < c.length + room →
      (∀ q ∈ w.contents, WalksCleanly E f charset q) →
      p ∈ w.contents ∧ ∀ q ∈ w.contents, q ∉ c → Closed E f charset w.contents q) :
    ∀ {tags c w}, feed E f charset g dir tags c = some w → normpath f.home ∈ c →
      w.contents.length < c.length + room →
      (∀ q ∈ w.contents, WalksCleanly E f charset q) →
      (∀ tag ∈ tags, ∃ r, linkPath E f charset dir tag = .ok r) →
      (∀ tag ∈ tags, ∀ p, linkPath E f charset dir tag = .ok (some p) → getfile f p ≠ [] →
        p ∈ w.contents) ∧ ∀ q ∈ w.contents, q ∉ c → Closed E f charset w.contents q
  | [], _, _, h, _, _, _, _ => by cases h; exact ⟨nofun, fun _ hq hqc => absurd hq hqc⟩
  | tag :: _, c, w, h, hh, hlen, hcl, hok => by
    have hok' := fun t ht => hok t (List.mem_cons_of_mem tag ht)
    rcases feed_cons_cases h with ⟨e, he, rfl⟩ | ⟨hn, h⟩ | ⟨p, hp, hpc, h⟩ |
      ⟨p, w', hp, hpc, hgp, hw', h⟩
    · obtain ⟨r, hr⟩ := hok tag (List.mem_cons_self _ _)
      rw [hr] at he
      cases he
    · obtain ⟨ih1, ih2⟩ := feed_closed hext hg h hh hlen hcl hok'
      refine ⟨List.forall_mem_cons.mpr ⟨fun q hl _ => ?_, ih1⟩, ih2⟩
      rw [hn] at hl
      cases hl
    · obtain ⟨ih1, ih2⟩ := feed_closed hext hg h hh hlen hcl hok'
      refine ⟨List.forall_mem_cons.mpr ⟨fun q hl hgq => ?_, ih1⟩, ih2⟩
      rw [hp] at hl
      cases hl
      exact (feed_extends hext h).subset (hpc.resolve_right hgq)
    · have hw'w := feed_extends hext h
      have hcw' := hext _ _ _ _ hw'
      obtain ⟨hpw', hcl'⟩ := hg _ _ _ hw' (linkPath_normal hp) hpc hh
        (lt_of_le_of_lt hw'w.length_le hlen) fun q hq => hcl q (hw'w.subset hq)
      obtain ⟨ih1, ih2⟩ := feed_closed hext hg h (hcw'.subset hh)
        (lt_of_lt_of_le hlen (by have := hcw'.length_le; omega)) hcl hok'
      refine ⟨List.forall_mem_cons.mpr ⟨fun q hl _ => ?_, ih1⟩, fun q hq hqc => ?_⟩
      · rw [hp] at hl
        cases hl
        exact hw'w.subset hpw'
      · by_cases hq' : q ∈ w'.contents
        · exact (hcl' q hq' hqc).mono hw'w
        · exact ih2 q hq hq'

theorem walk_closed : ∀ {fuel room p c w}, walk E f charset fuel room p (getfile f p) c = some w →
    normpath p = p → p ∉ c → normpath f.home ∈ c → w.contents.length < c.length + room →
    (∀ q ∈ w.contents, WalksCleanly E f charset q) →
    p ∈ w.contents ∧ ∀ q ∈ w.contents, q ∉ c → Closed E f charset w.contents q
  | 0, _, _, _, _, h => by cases h
  | _ + 1, 0, _, c, _, h => fun _ _ _ hlen _ => by cases h; exact absurd hlen (Nat.lt_irrefl _)
  | fuel + 1, room + 1, p, c, w, h => fun hn hp hh hlen hcl => by
    have htext := pageText_of_ne hp hh
    rw [walk, hn] at h
    split at h
    · rename_i e hfix
      cases h
      exact absurd (htext ▸ hfix) ((hcl p (by simp)).decodes e)
    · rename_i t cs hfix
      have hpw : p ∈ w.contents :=
        (feed_extends (fun _ _ _ _ => walk_extends) h).subset (by simp)
      have hfix' : fixencoding E.codecs (pageText f p) = .ok (t, cs) := htext ▸ hfix
      obtain ⟨h1, h2⟩ := feed_closed (fun _ _ _ _ => walk_extends) (fun _ _ _ => walk_closed) h
        (List.mem_append_left _ hh) (by simpa [Nat.add_right_comm] using hlen) hcl
        ((hcl p hpw).links_ok hfix')
      refine ⟨hpw, fun q hq hqc => ?_⟩
      by_cases hqp : q = p
      · exact hqp ▸ closed_of_links hfix' h1
      · exact h2 q hq (by simp [hqc, hqp])

theorem walkHome_closed {fuel : Nat} {t charset : Str} {w : Walked}
    (hfix : fixencoding E.codecs (getfile f (homeAddress f.home)) = .ok (t, charset))
    (hw : walkHome E f fuel = some w) (hcl : ∀ q ∈ w.contents, WalksCleanly E f charset q)
    (hlen : w.contents.length ≤ E.maxNesting) :
    ∀ q ∈ w.contents, Closed E f charset w.contents q := by
  have hfix' : fixencoding E.codecs (pageText f (normpath f.home)) = .ok (t, charset) := by
    rwa [pageText, if_pos rfl]
  rw [walkHome, hfix] at hw
  have hhw := (feed_extends (fun _ _ _ _ => walk_extends) hw).subset (List.mem_singleton_self _)
  obtain ⟨h1, h2⟩ := feed_closed (fun _ _ _ _ => walk_extends) (fun _ _ _ => walk_closed) hw
    (List.mem_singleton_self _) (by simp only [List.length_singleton]; omega) hcl
    ((hcl _ hhw).links_ok hfix')
  intro q hq
  by_cases hqh : q = normpath f.home
  · exact hqh ▸ closed_of_links hfix' h1
  · exact h2 q hq (by simpa using hqh)

/-- The walk records exactly the pages reachable from the home page: every recorded page is
reachable, and once every recorded page is walked without an exception and no more pages are
recorded than walkers can nest, every reachable page is recorded. -/
theorem walkHome_records_reachable (E : ChmEnv) (f : ChmFile) {fuel : Nat} {t charset : Str}
    {w : Walked} (hfix : fixencoding E.codecs (getfile f (homeAddress f.home)) = .ok (t, charset))
    (hw : walkHome E f fuel = some w) :
    (∀ p ∈ w.contents, Reachable E f charset p) ∧
      ((∀ q ∈ w.contents, WalksCleanly E f charset q) → w.contents.length ≤ E.maxNesting →
        ∀ p, Reachable E f charset p → p ∈ w.contents) := by
  refine ⟨(walkHome_sound hfix hw).reachable, fun hcl hlen p hp => ?_⟩
  induction hp with
  | refl => exact (walkHome_sound hfix hw).home
  | tail _ hstep ih => exact walkHome_closed hfix hw hcl hlen _ ih _ hstep

theorem walkHome_records_reachable_linked_page :
    let E : ChmEnv := ⟨⟨fun _ => some ⟨fun b => b, fun t => .ok t⟩⟩,
      fun t => if t = "<a href=\"b.htm\">".toList then
        [⟨"a".toList, [("href".toList, some "b.htm".toList)]⟩] else [], 2⟩
    let f : ChmFile := ⟨[("/a.htm".toList, "<a href=\"b.htm\">".toList),
      ("/b.htm".toList, "b".toList)], [], "/a.htm".toList, []⟩
    fixencoding E.codecs (getfile f (homeAddress f.home)) =
        .ok ("<a href=\"b.htm\">".toList, "cp1252".toList) ∧
      walkHome E f 2 = some ⟨["/a.htm".toList, "/b.htm".toList], none⟩ ∧
      (∀ p ∈ ["/a.htm".toList, "/b.htm".toList], Reachable E f "cp1252".toList p) ∧
      ((∀ q ∈ ["/a.htm".toList, "/b.htm".toList], WalksCleanly E f "cp1252".toList q) →
        ["/a.htm".toList, "/b.htm".toList].length ≤ E.maxNesting →
        ∀ p, Reachable E f "cp1252".toList p → p ∈ ["/a.htm".toList, "/b.htm".toList]) :=
  ⟨rfl, rfl, walkHome_records_reachable (w := ⟨["/a.htm".toList, "/b.htm".toList], none⟩) _ _
    (by exact rfl) (by exact (rfl : walkHome _ _ 2 = _))⟩

/- Under a recursion limit that lets no walker nest, the linked page is not recorded. -/
example :
    walkHome ⟨⟨fun _ => some ⟨fun b => b, fun t => .ok t⟩⟩,
        fun t => if t = "<a href=\"b.htm\">".toList then
          [⟨"a".toList, [("href".toList, some "b.htm".toList)]⟩] else [], 0⟩
      ⟨[("/a.htm".toList, "<a href=\"b.htm\">".toList), ("/b.htm".toList, "b".toList)], [],
        "/a.htm".toList, []⟩ 2 = some ⟨["/a.htm".toList], none⟩ := rfl

end Reach

end RecollFilters.Chm
