import RecollFilters.Info
import RecollFilters.Ics
import RecollFilters.Epub
import RecollFilters.Chm.Filter

/-! # Runs of the cursor-driven filters

From the state a successful `openfile` leaves (catenation off), every run of calls into the
CHM, EPUB, info or ICS filter answers its `getnext` calls as `CursorFilter.expected` gives
them, whatever the `getipath` calls in between answer or raise, and no call changes the
contents. The CHM and EPUB entries are reported under their path, the info and ICS ones under
their index.
-/

namespace RecollFilters

set_option autoImplicit false

open CursorFilter

theorem chm_followsCursor (expand : Bytes → Except PyError Bytes) {E : Chm.ChmEnv}
    {file : Option Chm.ChmFile} {s s' : Chm.State} (hcat : s.container.catenate = false)
    (h : Chm.openfile E file s = .ok (true, s')) :
    Chm.filter.FollowsCursor (Chm.getnext expand) Chm.getipath s' := by
  obtain ⟨hi, hc, hk⟩ := Chm.openfile_opened h
  exact Chm.filter.followsCursor_of_opened _ _
    (fun t ht => Chm.getnext_of_not_catenate expand (by rw [ht, hk, hcat]))
    Chm.getipath_frame hi fun _ => hc

theorem epub_followsCursor (htmlescape : Bytes → Bytes) {book : Option RclEpub.EpubBook}
    {s s' : RclEpub.State} (h : RclEpub.openfile false book s = (true, s')) :
    (RclEpub.filter htmlescape).FollowsCursor (RclEpub.getnext htmlescape) RclEpub.getipath s' := by
  obtain ⟨hi, hc, hk⟩ := RclEpub.openfile_opened h
  exact (RclEpub.filter htmlescape).followsCursor_of_opened _ _
    (fun t ht => RclEpub.getnext_of_not_catenate htmlescape (by rw [ht, hk]))
    RclEpub.getipath_frame hi fun _ => hc

theorem info_followsCursor (htmlescape : Bytes → Bytes) {filename : Bytes} {isfile : Bool}
    {lines : List Bytes} {s s' : InfoExtractor.State}
    (h : InfoExtractor.openfile filename isfile lines s = .ok (true, s')) :
    (InfoExtractor.filter htmlescape).FollowsCursor (InfoExtractor.getnext htmlescape)
      (InfoExtractor.getipath htmlescape) s' :=
  (InfoExtractor.filter htmlescape).followsCursor_of_opened _ _ (fun _ _ => rfl)
    (InfoExtractor.getipath_frame htmlescape) (InfoExtractor.openfile_opened h) nofun

theorem ics_followsCursor {lines : Option (List Bytes)} {s s' : IcalExtractor.State}
    (h : IcalExtractor.openfile lines s = (true, s')) :
    IcalExtractor.filter.FollowsCursor IcalExtractor.getnext IcalExtractor.getipath s' :=
  IcalExtractor.filter.followsCursor_of_opened _ _ (fun _ _ => rfl)
    IcalExtractor.getipath_frame (IcalExtractor.openfile_opened h) nofun

theorem chm_entry_ipath (c : Chm.Container) (i : Nat) (path : Bytes) :
    (Chm.filter.entry c i path).ipath = path := by
  show (Chm.entry c false false path).ipath = path
  unfold Chm.entry
  split
  · split <;> rfl
  · rfl

theorem epub_entry_ipath (htmlescape : Bytes → Bytes) (c : RclEpub.Container) (i : Nat)
    (id : Str) : ((RclEpub.filter htmlescape).entry c i id).ipath = id := by
  show (RclEpub.entry c false id).ipath = id
  unfold RclEpub.entry
  split <;> rfl

/-- The four cursor-driven filters answer every run of calls from an opened state (catenation
off) as the cursor prescribes: the self document, then each entry under its address with
`eofnext` on the last, then `eofnow`; `getipath` moves neither the cursor nor the contents. -/
theorem cursor_filters_follow_contents :
    (∀ (E : Chm.ChmEnv) (expand : Bytes → Except PyError Bytes) (file : Option Chm.ChmFile)
        (s s' : Chm.State), s.container.catenate = false →
        Chm.openfile E file s = .ok (true, s') →
        Chm.filter.FollowsCursor (Chm.getnext expand) Chm.getipath s') ∧
    (∀ (htmlescape : Bytes → Bytes) (book : Option RclEpub.EpubBook) (s s' : RclEpub.State),
        RclEpub.openfile false book s = (true, s') →
        (RclEpub.filter htmlescape).FollowsCursor (RclEpub.getnext htmlescape)
          RclEpub.getipath s') ∧
    (∀ (htmlescape : Bytes → Bytes) (filename : Bytes) (isfile : Bool) (lines : List Bytes)
        (s s' : InfoExtractor.State), InfoExtractor.openfile filename isfile lines s = .ok (true, s') →
        (InfoExtractor.filter htmlescape).FollowsCursor (InfoExtractor.getnext htmlescape)
          (InfoExtractor.getipath htmlescape) s') ∧
    (∀ (lines : Option (List Bytes)) (s s' : IcalExtractor.State),
        IcalExtractor.openfile lines s = (true, s') →
        IcalExtractor.filter.FollowsCursor IcalExtractor.getnext IcalExtractor.getipath s') ∧
    (GetipathFrame Chm.getipath ∧ GetipathFrame RclEpub.getipath ∧
      (∀ htmlescape, GetipathFrame (InfoExtractor.getipath htmlescape)) ∧
      GetipathFrame IcalExtractor.getipath) ∧
    (∀ c i path, (Chm.filter.entry c i path).ipath = path) ∧
    (∀ htmlescape c i id, ((RclEpub.filter htmlescape).entry c i id).ipath = id) ∧
    (∀ htmlescape c i a, ((InfoExtractor.filter htmlescape).entry c i a).ipath = pyStr i) ∧
    (∀ c i a, (IcalExtractor.filter.entry c i a).ipath = pyStr i) :=
  ⟨fun _ expand _ _ _ hcat h => chm_followsCursor expand hcat h,
    fun htmlescape _ _ _ h => epub_followsCursor htmlescape h,
    fun htmlescape _ _ _ _ _ h => info_followsCursor htmlescape h,
    fun _ _ _ h => ics_followsCursor h,
    ⟨Chm.getipath_frame, RclEpub.getipath_frame, InfoExtractor.getipath_frame,
      IcalExtractor.getipath_frame⟩,
    chm_entry_ipath, epub_entry_ipath, fun _ _ _ _ => rfl, fun _ _ _ => rfl⟩

/-- Each cursor-driven filter answers `getipath` at the address under which `getnext` reports
entry `i` (the CHM path, the UTF-8 encoding of the EPUB item id, `str(i)` for the info and ICS
filters, with at most 4300 digits, the most `int()` reads) with the success, data and address of
that `getnext` answer, while the container is open; its eof flag follows the cursor. -/
theorem getipath_agrees_with_getnext :
    (∀ (s : Chm.State) (i : Nat) (path : Bytes), s.contents[i]? = some path →
        s.closed = false →
        (Chm.getipath s path).map (fun r => (r.1.ok, r.1.data, r.1.ipath)) =
          .ok (let e := Chm.filter.expected s.container s.contents (i + 1)
            (e.ok, e.data, e.ipath))) ∧
    (∀ (htmlescape : Bytes → Bytes) (s : RclEpub.State) (i : Nat) (id : Str),
        s.contents[i]? = some id → s.closed = false →
        (RclEpub.getipath s (utf8Encode id)).map (fun r => (r.1.ok, r.1.data, r.1.ipath)) =
          .ok (let e := (RclEpub.filter htmlescape).expected s.container s.contents (i + 1)
            (e.ok, e.data, e.ipath))) ∧
    (∀ (htmlescape : Bytes → Bytes) (s : InfoExtractor.State) (i : Nat) (a : Bytes × Bytes),
        s.contents[i]? = some a → (pyStr i).length ≤ 4300 →
        (InfoExtractor.getipath htmlescape s (pyStr i)).map (fun r => (r.1.ok, r.1.data, r.1.ipath)) =
          .ok (let e := (InfoExtractor.filter htmlescape).expected () s.contents (i + 1)
            (e.ok, e.data, e.ipath))) ∧
    (∀ (s : IcalExtractor.State) (i : Nat) (a : Bytes), s.contents[i]? = some a →
        (pyStr i).length ≤ 4300 →
        (IcalExtractor.getipath s (pyStr i)).map (fun r => (r.1.ok, r.1.data, r.1.ipath)) =
          .ok (let e := IcalExtractor.filter.expected () s.contents (i + 1)
            (e.ok, e.data, e.ipath))) := by
  refine ⟨fun s i path ha hc => ?_, fun htmlescape s i id ha hc => ?_,
    fun htmlescape s i a ha hd => ?_, fun s i a ha hd => ?_⟩
  · rw [Chm.filter.expected_entry ha]
    simp only [Chm.getipath, Chm.extractone, hc]
    rfl
  · rw [RclEpub.getipath_utf8Encode, (RclEpub.filter htmlescape).expected_entry ha]
    simp only [RclEpub.extractone, hc]
    rfl
  · rw [InfoExtractor.getipath_pyStr htmlescape s ha hd,
      (InfoExtractor.filter htmlescape).expected_entry ha]
    rfl
  · rw [IcalExtractor.getipath_pyStr s ha hd, IcalExtractor.filter.expected_entry ha]
    rfl

/-- The hint in effect when the info, ICS and EPUB filters answer from an opened state
(catenation off): the self document's type with the self document, each entry's type with
each entry. -/
theorem hints_follow_answers :
    (∀ (htmlescape : Bytes → Bytes) (filename : Bytes) (isfile : Bool) (lines : List Bytes)
        (s s' : InfoExtractor.State), InfoExtractor.openfile filename isfile lines s = .ok (true, s') →
        ∀ k, k ≤ s'.contents.length →
          (runCalls (InfoExtractor.getnext htmlescape) (InfoExtractor.getipath htmlescape) s'
            (List.replicate (k + 1) .getnext)).2.mimetype =
            if k = 0 then "text/plain".toList else "text/html".toList) ∧
    (∀ (lines : Option (List Bytes)) (s s' : IcalExtractor.State),
        IcalExtractor.openfile lines s = (true, s') → ∀ k,
          (runCalls IcalExtractor.getnext IcalExtractor.getipath s'
            (List.replicate (k + 1) .getnext)).2.mimetype = "text/plain".toList) ∧
    (∀ (htmlescape : Bytes → Bytes) (book : Option RclEpub.EpubBook) (s s' : RclEpub.State),
        RclEpub.openfile false book s = (true, s') → ∀ k,
          (runCalls (RclEpub.getnext htmlescape) RclEpub.getipath s'
            (List.replicate (k + 1) .getnext)).2.mimetype = "text/html".toList) := by
  refine ⟨fun htmlescape _ _ _ _ s' h k hk => ?_, fun _ _ s' h k => ?_,
    fun htmlescape _ _ s' h k => ?_⟩
  · rw [(InfoExtractor.filter htmlescape).runCalls_hints (InfoExtractor.getnext htmlescape)
      (InfoExtractor.getipath htmlescape) (fun _ _ => rfl) (k + 1) 0 s'
      (.opened (InfoExtractor.openfile_opened h) nofun)]
    split_ifs with hk0
    · subst hk0; rfl
    · exact (InfoExtractor.filter htmlescape).hints_entry (fun _ _ => rfl) (by omega) hk _
  · rw [IcalExtractor.filter.runCalls_hints IcalExtractor.getnext IcalExtractor.getipath
      (fun _ _ => rfl) (k + 1) 0 s'
      (.opened (IcalExtractor.openfile_opened h) nofun)]
    exact IcalExtractor.filter.hints_const rfl (fun _ _ => .inl rfl) k _
  · obtain ⟨hi, hc, hk⟩ := RclEpub.openfile_opened h
    rw [(RclEpub.filter htmlescape).runCalls_hints (RclEpub.getnext htmlescape) RclEpub.getipath
      (fun t ht => RclEpub.getnext_of_not_catenate htmlescape (by rw [ht, hk])) (k + 1) 0 s'
      (.opened hi fun _ => hc)]
    refine (RclEpub.filter htmlescape).hints_const (t := "text/html".toList) rfl (fun _ _ => ?_) k _
    show (if _ then _ else _) = _ ∨ (if _ then _ else _) = _
    split <;> simp [RclEpub.htmlMtype]

end RecollFilters
