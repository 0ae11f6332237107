import RecollFilters.Session
import RecollFilters.Posix

/-! # The WAR filter

`WarExtractor` walks a (gzipped) tar archive with `tar.next()` and answers each member as it
comes. An extraction that raises is answered with `eofnow`, and `getnext` closes the archive
on that answer. `tarfile.extractfile` gives no file object for a directory, a device or a FIFO,
so reading such a member raises; it reads a link through to the member the link names, and to
find that member it first reads the whole archive, after which `tar.next()` has nothing left.
So the stream is the regular files up to the first member that is not one, that member's
answer, and then its end: nothing after it is returned.
-/

namespace RecollFilters

set_option autoImplicit false

namespace WarExtractor

open Posix

/-- The kind of a tar member, as far as `tarfile.extractfile` tells them apart: a member it
reads (a regular file, or one of a type it does not know), a directory, a hard or symbolic
link with the name it holds, and the kinds it gives no file object for. -/
inductive MemberKind
  | regular (data : Bytes)
  | directory
  | hardlink (linkname : Str)
  | symlink (linkname : Str)
  | other
  deriving DecidableEq, Repr

def MemberKind.isLink : MemberKind → Bool
  | .hardlink _ | .symlink _ => true
  | _ => false

structure TarInfo where
  name : Str
  kind : MemberKind
  deriving DecidableEq, Repr

structure TarFile where
  members : List TarInfo
  pos : Nat

def TarFile.next (t : TarFile) : Option TarInfo × TarFile :=
  match t.members[t.pos]? with
  | some m => (some m, { t with pos := t.pos + 1 })
  | none => (none, t)

/-- The filter's state: the cursor (only -1 and 0 are used) and `self.tar`, which
`closefile` sets to `None`. -/
structure State where
  currentindex : Int
  tar : Option TarFile

/-! ### Reading a member -/

/-- `_getmember(name, normalize=True)` over the members before `limit`: the index of the last
one whose normalized name is the normalized `name`. -/
def lastMember (members : List TarInfo) (limit : Nat) (name : Str) : Option Nat :=
  ((members.take limit).enum.reverse.find? fun im => normpath im.2.name = normpath name).map
    Prod.fst

def symlinkTarget (name linkname : Str) : Str :=
  if dirname name = [] then linkname
  else if linkname = [] then dirname name
  else dirname name ++ '/' :: linkname

/-- `_find_link_target` for the member at `index`: a symbolic link's target is looked for in
the whole archive, from the link's directory; a hard link's among the members before it. -/
def findLinkTarget (members : List TarInfo) (index : Nat) (tarinfo : TarInfo) : Option Nat :=
  match tarinfo.kind with
  | .symlink linkname => lastMember members members.length (symlinkTarget tarinfo.name linkname)
  | .hardlink linkname => lastMember members index linkname
  | _ => none

/-- `tar.extractfile(tarinfo).read()` for the member at `index`, `none` where it raises: no file
object, a link whose target is missing (`KeyError`), or a chain of links that comes back on
itself (`RecursionError`). A chain that does not visits each member once at most, so the number
of members is enough fuel. -/
def extractfile (members : List TarInfo) : Nat → Nat → TarInfo → Option Bytes
  | 0, _, tarinfo =>
    match tarinfo.kind with
    | .regular data => some data
    | _ => none
  | fuel + 1, index, tarinfo =>
    match tarinfo.kind with
    | .regular data => some data
    | .hardlink _ | .symlink _ =>
      (findLinkTarget members index tarinfo).bind fun j =>
        members[j]?.bind (extractfile members fuel j)
    | .directory | .other => none

@[simp] theorem extractfile_regular (members : List TarInfo) (fuel index : Nat) (name : Str)
    (data : Bytes) : extractfile members fuel index ⟨name, .regular data⟩ = some data := by
  cases fuel <;> rfl

theorem isLink_of_extractfile {members : List TarInfo} {fuel index : Nat} {m : TarInfo}
    {d : Bytes} (h : extractfile members fuel index m = some d)
    (hm : ∀ data, m.kind ≠ .regular data) : m.kind.isLink = true := by
  rcases hk : m.kind with data | _ | _ | _ | _
  · exact absurd hk (hm data)
  · cases fuel <;> simp [extractfile, hk] at h
  · rfl
  · rfl
  · cases fuel <;> simp [extractfile, hk] at h

/-- `WarExtractor.extractone` for the member at `index`, every exception caught and answered
with `eofnow`; on a closed archive `self.tar.extractfile` raises as well. A link loads the
whole archive. -/
def extractone (s : State) (index : Nat) (tarinfo : TarInfo) : Answer × State :=
  match s.tar with
  | none => (⟨false, [], tarinfo.name, .eofnow⟩, s)
  | some t =>
    let s := if tarinfo.kind.isLink then { s with tar := some { t with pos := t.members.length } }
      else s
    match extractfile t.members t.members.length index tarinfo with
    | some data => (⟨true, data, tarinfo.name, .noteof⟩, s)
    | none => (⟨false, [], tarinfo.name, .eofnow⟩, s)

/-- `WarExtractor.getnext`; on a closed archive `self.tar.next()` raises `AttributeError`. -/
def getnext (s : State) : Except PyError (Answer × State) :=
  if s.currentindex = -1 then .ok (⟨true, [], [], .noteof⟩, { s with currentindex := 0 })
  else
    match s.tar with
    | none => .error .attributeError
    | some t =>
      match t.next with
      | (none, _) => .ok (⟨false, [], [], .eofnow⟩, { s with tar := none })
      | (some tarinfo, t') =>
        let r := extractone { s with tar := some t' } t.pos tarinfo
        .ok (r.1, if r.1.eof.ends then { r.2 with tar := none } else r.2)

/-- `WarExtractor.getipath`: the ipath arrives as `bytes`, so `tar.getmember` raises on
`name.rstrip('/')` (or `self.tar` is `None`); the exception is caught. -/
def getipath (s : State) (ipath : Bytes) : Except PyError (Answer × State) :=
  .ok (⟨false, [], ipath, .noteof⟩, s)

/-- `WarExtractor.openfile`, given the members `tarfile.open` finds (`none` when it raises). -/
def openfile (archive : Option (List TarInfo)) (s : State) : Bool × State :=
  match archive with
  | some ms => (true, ⟨-1, some ⟨ms, 0⟩⟩)
  | none => (false, { s with currentindex := -1 })

/-! ### The stream -/

theorem getnext_self (t : Option TarFile) :
    getnext ⟨-1, t⟩ = .ok (⟨true, [], [], .noteof⟩, ⟨0, t⟩) := rfl

theorem getnext_member {ms : List TarInfo} {k : Nat} {m : TarInfo} (h : ms[k]? = some m) :
    getnext ⟨0, some ⟨ms, k⟩⟩ =
      .ok (match extractfile ms ms.length k m with
        | some data =>
          (⟨true, data, m.name, .noteof⟩,
            ⟨0, some ⟨ms, if m.kind.isLink then ms.length else k + 1⟩⟩)
        | none => (⟨false, [], m.name, .eofnow⟩, ⟨0, none⟩)) := by
  simp only [getnext, TarFile.next, h, extractone, if_neg (show (0 : Int) ≠ -1 by decide)]
  cases extractfile ms ms.length k m <;> cases m.kind.isLink <;> rfl

theorem getnext_regular {ms : List TarInfo} {k : Nat} {name : Str} {data : Bytes}
    (h : ms[k]? = some ⟨name, .regular data⟩) :
    getnext ⟨0, some ⟨ms, k⟩⟩ = .ok (⟨true, data, name, .noteof⟩, ⟨0, some ⟨ms, k + 1⟩⟩) := by
  rw [getnext_member h, extractfile_regular]
  rfl

theorem getnext_past_end {ms : List TarInfo} {k : Nat} (h : ms[k]? = none) :
    getnext ⟨0, some ⟨ms, k⟩⟩ = .ok (⟨false, [], [], .eofnow⟩, ⟨0, none⟩) := by
  simp [getnext, TarFile.next, h]

theorem regular_run (ms : List TarInfo) :
    ∀ (files : List (Str × Bytes)) (k : Nat),
      files.map (fun r => ⟨r.1, .regular r.2⟩) <+: ms.drop k →
      runCalls getnext getipath ⟨0, some ⟨ms, k⟩⟩ (List.replicate files.length .getnext) =
        (files.map fun r => .ok ⟨true, r.2, r.1, .noteof⟩, ⟨0, some ⟨ms, k + files.length⟩⟩)
  | [], k, _ => rfl
  | r :: files, k, h => by
    obtain ⟨tail, ht⟩ := h
    have hk : ms[k]? = some ⟨r.1, .regular r.2⟩ := by
      rw [← List.head?_drop, ← ht]
      rfl
    have hd : files.map (fun r => ⟨r.1, .regular r.2⟩) <+: ms.drop (k + 1) :=
      ⟨tail, by rw [← List.tail_drop, ← ht]; rfl⟩
    rw [List.length_cons, List.replicate_succ, runCalls, getnext_regular hk]
    simp only [regular_run ms files (k + 1) hd, List.map_cons, Nat.add_right_comm k 1,
      Nat.add_assoc]

theorem regular_stream_from (ms : List TarInfo) (rest : List (Str × Bytes)) (k : Nat)
    (h : ms.drop k = rest.map (fun r => ⟨r.1, .regular r.2⟩)) :
    (runCalls getnext getipath ⟨0, some ⟨ms, k⟩⟩ (List.replicate (rest.length + 1) .getnext)).1 =
      rest.map (fun r => .ok ⟨true, r.2, r.1, .noteof⟩) ++ [.ok ⟨false, [], [], .eofnow⟩] := by
  have hend : ms[k + rest.length]? = none := by
    rw [List.getElem?_eq_none_iff]
    have := congrArg List.length h
    simp only [List.length_drop, List.length_map] at this
    omega
  rw [List.replicate_succ', runCalls_append, regular_run ms rest k (h ▸ List.prefix_refl _)]
  simp [runCalls, getnext_past_end hend]

/-- An archive of regular files is returned whole: the self document, then every member in
archive order with its bytes and name, then `eofnow`. -/
theorem regular_archive_stream (files : List (Str × Bytes)) (s : State) :
    (runCalls getnext getipath (openfile (some (files.map fun r => ⟨r.1, .regular r.2⟩)) s).2
      (List.replicate (files.length + 2) .getnext)).1 =
      .ok ⟨true, [], [], .noteof⟩ :: files.map (fun r => .ok ⟨true, r.2, r.1, .noteof⟩) ++
        [.ok ⟨false, [], [], .eofnow⟩] := by
  have h :=
    regular_stream_from (files.map fun (r : Str × Bytes) => ⟨r.1, .regular r.2⟩) files 0 rfl
  rw [List.replicate_succ, openfile, runCalls, getnext_self]
  simp only [h, List.cons_append]

/-- An archive whose first member is a directory: the stream ends there with `eofnow`, the
next `getnext` raises, and the regular file after the directory is never returned. -/
theorem directory_member_ends_stream (s : State) :
    (runCalls getnext getipath
      (openfile (some [⟨"d/".toList, .directory⟩, ⟨"d/f".toList, .regular "x".toList⟩]) s).2
      [.getnext, .getnext, .getnext]).1 =
      [.ok ⟨true, [], [], .noteof⟩, .ok ⟨false, [], "d/".toList, .eofnow⟩, .error .attributeError] :=
  rfl

example :
    (runCalls getnext getipath
        (openfile (some [⟨"a".toList, .regular "x".toList⟩, ⟨"b".toList, .symlink "a".toList⟩,
          ⟨"c".toList, .regular "y".toList⟩]) ⟨-1, none⟩).2
        (List.replicate 5 .getnext)).1 =
      [.ok ⟨true, [], [], .noteof⟩, .ok ⟨true, "x".toList, "a".toList, .noteof⟩,
        .ok ⟨true, "x".toList, "b".toList, .noteof⟩, .ok ⟨false, [], [], .eofnow⟩,
        .error .attributeError] := by
  decide

end WarExtractor

end RecollFilters
