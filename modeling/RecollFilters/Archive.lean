import RecollFilters.Session
import RecollFilters.Posix

/-! # The zip and rar filters

`ZipExtractor` and `RarExtractor` read one archive member by name in `extractone`; their
`getnext` and `getipath` come from `ArchiveExtractor`, which is not part of the filters, so
only `extractone`, `openfile` and `closefile` are modelled. The archive readers are given by
their entries.

The two differ at the edges. The zip filter closes the archive on the answer for the last
entry, after which `extractone` raises (it asks the closed archive for its name list outside
its `try`), and it leaves the handler's fields alone when a member cannot be read. The rar
filter answers a name it cannot look up, or a closed archive, as a success with no data, and
only a member whose bytes cannot be read as a failure.
-/

namespace RecollFilters

set_option autoImplicit false

/-! ### Zip -/

namespace ZipExtractor

/-- An entry of the archive, as the filter reads it: its name as `zipfile` decoded it, its
`file_size`, `int(datetime(*date_time).timestamp())` in the local time zone (`none` where it
raises), and what `zip.read(name)` returns (`none` where it raises). -/
structure ZipInfo where
  filename : Str
  fileSize : Nat
  timestamp : Option Int
  data : Option Bytes

/-- `ZipFile.getinfo(name)`: the last entry of that name, the one `NameToInfo` keeps; `none`
where it raises `KeyError`. -/
def getinfo (entries : List ZipInfo) (name : Str) : Option ZipInfo :=
  entries.reverse.find? (·.filename = name)

structure State where
  zip : Option (List ZipInfo)
  currentindex : Int
  fields : List (Str × Str)

def setfield (fields : List (Str × Str)) (name value : Str) : List (Str × Str) :=
  (name, value) :: fields.filter (·.1 ≠ name)

def closefile (s : State) : State := { s with zip := none }

def readMember (maxmembersize : Nat) (s : State) (ipath : Str) : Bool × Bytes × List (Str × Str) :=
  match s.zip.bind (getinfo · ipath) with
  | none => (false, [], s.fields)
  | some info =>
    match if maxmembersize < info.fileSize then some [] else info.data with
    | none => (false, [], s.fields)
    | some docdata =>
      let fields := setfield s.fields "filename".toList (Posix.basename ipath)
      (true, docdata, match info.timestamp with
        | some t => setfield fields "modificationdate".toList (pyStr t)
        | none => fields)

/-- `ZipExtractor.extractone`: the answer for the last entry of `namelist()` closes the
archive; on a closed archive `self.zip.namelist()` raises `AttributeError`, outside the
`try`. The ipath is `makebytes(ipath)`, the UTF-8 encoding of the name. -/
def extractone (maxmembersize : Nat) (s : State) (ipath : Str) : Except PyError (Answer × State) :=
  let (ok, docdata, fields) := readMember maxmembersize s ipath
  match s.zip with
  | none => .error .attributeError
  | some entries =>
    let s := { s with fields := fields }
    if (entries.length : Int) - 1 ≤ s.currentindex then
      .ok (⟨ok, docdata, utf8Encode ipath, .eofnext⟩, closefile s)
    else .ok (⟨ok, docdata, utf8Encode ipath, .noteof⟩, s)

/-- `ZipExtractor.openfile`, given the entries `ZipFile` reads (`none` where opening raises):
the old archive is closed and the cursor reset first. -/
def openfile (archive : Option (List ZipInfo)) (s : State) : Bool × State :=
  let s := { closefile s with currentindex := -1 }
  match archive with
  | some entries => (true, { s with zip := some entries })
  | none => (false, s)

theorem extractone_closed (maxmembersize : Nat) (s : State) (ipath : Str) (h : s.zip = none) :
    extractone maxmembersize s ipath = .error .attributeError := by
  simp [extractone, h]

theorem extractone_eq_ok {maxmembersize : Nat} {s t : State} {ipath : Str} {a : Answer}
    (h : extractone maxmembersize s ipath = .ok (a, t)) :
    (t.zip = none ↔ a.eof = .eofnext) ∧ t.currentindex = s.currentindex ∧
      (a.ok = false → t.fields = s.fields) := by
  unfold extractone at h
  rcases hz : s.zip with _ | entries
  · simp [hz] at h
  simp only [hz] at h
  have hread : (readMember maxmembersize s ipath).1 = false →
      (readMember maxmembersize s ipath).2.2 = s.fields := by
    unfold readMember
    split
    · intro; rfl
    · split
      · intro; rfl
      · simp
  split_ifs at h <;> (simp only [Except.ok.injEq, Prod.mk.injEq] at h; obtain ⟨rfl, rfl⟩ := h)
  · exact ⟨by simp [closefile], rfl, hread⟩
  · exact ⟨by simp [hz], rfl, hread⟩

end ZipExtractor

/-! ### Rar -/

namespace RarExtractor

/-- An entry of the archive, as the filter reads it: its name, whether it is a directory
(`flag_bits & 0x20` with `unrar`, `isdir()` with `rarfile`), its `file_size`, and what
`rar.read(name)` returns (`none` where it raises). -/
structure RarInfo where
  filename : Str
  isdir : Bool
  fileSize : Nat
  data : Option Bytes

/-- `rar.getinfo(name)`: an entry of that name, the first one; `none` where it raises. -/
def getinfo (entries : List RarInfo) (name : Str) : Option RarInfo :=
  entries.find? (·.filename = name)

structure State where
  rar : Option (List RarInfo)
  currentindex : Int
  mimetype : Bytes

/-- `RarExtractor.extractone` on a name given as `str`: a failed lookup, a closed archive
included, returns `(True, "", ipath, False)` at once, with the `str` itself where the other
answers carry `makebytes(ipath)`; a directory is answered with no data and the MIME type
`application/x-fsdirectory`; only a read that raises is a failure. -/
def extractone (maxmembersize : Nat) (s : State) (ipath : Str) : Answer × State :=
  match s.rar, s.rar.bind (getinfo · ipath) with
  | some entries, some info =>
    let eof := if (entries.length : Int) - 1 ≤ s.currentindex then .eofnext else .noteof
    if info.isdir then
      (⟨true, [], utf8Encode ipath, eof⟩, { s with mimetype := "application/x-fsdirectory".toList })
    else
      match if maxmembersize < info.fileSize then some [] else info.data with
      | some docdata => (⟨true, docdata, utf8Encode ipath, eof⟩, s)
      | none => (⟨false, [], utf8Encode ipath, eof⟩, s)
  | _, _ => (⟨true, [], ipath, .bareFalse⟩, s)

def closefile (s : State) : State := { s with rar := none }

/-- `RarExtractor.openfile`, given the entries the rar reader finds (`none` where it raises):
the cursor is reset, and the archive replaced only when it opens. -/
def openfile (archive : Option (List RarInfo)) (s : State) : Bool × State :=
  let s := { s with currentindex := -1 }
  match archive with
  | some entries => (true, { s with rar := some entries })
  | none => (false, s)

end RarExtractor

end RecollFilters
