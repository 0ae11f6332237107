import RecollFilters.Session

/-! # The tar filter

`TarExtractor` reads a member by the name `tarfile` gives it, a `str` that `os.fsdecode`
made of the header's bytes, and answers it under the ipath `os.fsencode(name)`. `getipath`
decodes an ipath with `os.fsdecode` and, when extraction fails, decodes it once more as
strict UTF-8 and tries again.

With the UTF-8 file system encoding, `os.fsdecode` is UTF-8 decoding whose undecodable bytes
become lone surrogates (`surrogateescape`), and `os.fsencode` writes them back. The first
part proves that `os.fsencode` undoes `os.fsdecode` on every byte string, from the fact that
every character the UTF-8 decoder reads is the encoding of the bytes it took. From it: an
ipath the filter answers under leads `getipath` back to the same answer, and the second try
of `getipath` never changes what it returns. The tar reader is given by its members; the
next-member loop of `getnext` belongs to `ArchiveExtractor`, which is not part of the filter.
-/

namespace RecollFilters

set_option autoImplicit false

/-! ### What the UTF-8 decoder reads is an encoding -/

theorem except_ite_eq_ok {α ε : Type} {p : Prop} [Decidable p] {x y : α} {e : ε}
    (h : (if p then Except.ok x else Except.error e) = .ok y) : p ∧ x = y := by
  by_cases hp : p
  · rw [if_pos hp] at h
    exact ⟨hp, Except.ok.inj h⟩
  · rw [if_neg hp] at h
    cases h

theorem toNat_ofNat_of_valid {m : Nat} (h : m < 0xD800 ∨ (0xDFFF < m ∧ m < 0x110000)) :
    (Char.ofNat m).toNat = m := by
  have hv : m.isValidChar := h
  simp only [Char.ofNat, hv, dite_true, Char.ofNatAux, Char.toNat, UInt32.toNat,
    BitVec.toNat_ofNatLt]

theorem ofNat_eq_of_toNat {m : Nat} {b : Char} (h : m = b.toNat) : Char.ofNat m = b := by
  rw [h, Char.ofNat_toNat]

abbrev seqValue (bits : Nat) (cs : List Char) : Nat :=
  cs.foldl (fun acc c => acc * 64 + (c.toNat - 0x80)) bits

/-- A multi-byte sequence the decoder accepts: the lead byte's entry in `utf8Lead`, a first
continuation byte in its range, the others plain continuation bytes, and the character their
value bits spell. -/
theorem utf8Head_cons_eq_ok {b c : Char} {rest : Bytes} {n : Nat} (ha : ¬ b.toNat < 0x80)
    (h : utf8Head (b :: rest) = .ok (c, n)) :
    ∃ lo hi bits c1 cs, utf8Lead b.toNat = (n, lo, hi, bits) ∧ rest.take (n - 1) = c1 :: cs ∧
      cs.length + 2 = n ∧ contIn lo hi c1 ∧ (∀ y ∈ cs, contIn 0x80 0xBF y) ∧
      c = Char.ofNat (seqValue bits (c1 :: cs)) := by
  simp only [utf8Head, if_neg ha] at h
  generalize utf8Lead b.toNat = L at h
  obtain ⟨len, lo, hi, bits⟩ := L
  obtain ⟨⟨hlen, hgood⟩, hx⟩ := except_ite_eq_ok h
  dsimp only at hlen hgood hx
  rw [Prod.mk.injEq] at hx
  obtain ⟨rfl, rfl⟩ := hx
  have htl := List.length_take (len - 1) rest
  rcases ht : rest.take (len - 1) with _ | ⟨c1, cs⟩
  · rw [ht] at hgood; simp at hgood; omega
  rw [ht] at hgood htl
  dsimp only at hgood
  by_cases hc1 : contIn lo hi c1
  · rw [if_pos hc1] at hgood
    have hw := (List.takeWhile_prefix (contIn 0x80 0xBF) (l := cs)).length_le
    simp only [List.length_cons] at htl
    -- the run of continuation bytes covers all of them
    have hall : cs.takeWhile (contIn 0x80 0xBF) = cs :=
      (List.takeWhile_prefix _).eq_of_length (by omega)
    exact ⟨lo, hi, bits, c1, cs, rfl, rfl, by omega, hc1, List.takeWhile_eq_self_iff.1 hall, rfl⟩
  · rw [if_neg hc1] at hgood; omega

theorem utf8Encode_two {b c1 : Char} (hb : 0xC2 ≤ b.toNat ∧ b.toNat ≤ 0xDF)
    (h1 : contIn 0x80 0xBF c1) :
    utf8Encode [Char.ofNat (seqValue (b.toNat - 0xC0) [c1])] = [b, c1] := by
  rw [contIn_iff] at h1
  have hv := toNat_ofNat_of_valid (m := seqValue (b.toNat - 0xC0) [c1]) (by simp; omega)
  simp only [utf8Encode, List.flatMap_cons, List.flatMap_nil, List.append_nil, hv]
  simp only [seqValue, List.foldl_cons, List.foldl_nil]
  rw [if_neg (by omega), if_pos (by omega), ofNat_eq_of_toNat (b := b) (by omega),
    ofNat_eq_of_toNat (b := c1) (by omega)]

theorem utf8Encode_three {b c1 c2 : Char} (hb : 0xE0 ≤ b.toNat ∧ b.toNat ≤ 0xEF)
    (h1 : contIn (if b.toNat = 0xE0 then 0xA0 else 0x80)
      (if b.toNat = 0xED then 0x9F else 0xBF) c1)
    (h2 : contIn 0x80 0xBF c2) :
    utf8Encode [Char.ofNat (seqValue (b.toNat - 0xE0) [c1, c2])] = [b, c1, c2] := by
  rw [contIn_iff] at h1 h2
  have h1' : (b.toNat = 0xE0 → 0xA0 ≤ c1.toNat) ∧ (b.toNat = 0xED → c1.toNat ≤ 0x9F) ∧
      0x80 ≤ c1.toNat ∧ c1.toNat ≤ 0xBF := by
    split_ifs at h1 <;> omega
  have hv := toNat_ofNat_of_valid (m := seqValue (b.toNat - 0xE0) [c1, c2]) (by simp; omega)
  simp only [utf8Encode, List.flatMap_cons, List.flatMap_nil, List.append_nil, hv]
  simp only [seqValue, List.foldl_cons, List.foldl_nil]
  rw [if_neg (by omega), if_neg (by omega), if_pos (by omega),
    ofNat_eq_of_toNat (b := b) (by omega), ofNat_eq_of_toNat (b := c1) (by omega),
    ofNat_eq_of_toNat (b := c2) (by omega)]

theorem utf8Encode_four {b c1 c2 c3 : Char} (hb : 0xF0 ≤ b.toNat ∧ b.toNat ≤ 0xF4)
    (h1 : contIn (if b.toNat = 0xF0 then 0x90 else 0x80)
      (if b.toNat = 0xF4 then 0x8F else 0xBF) c1)
    (h2 : contIn 0x80 0xBF c2) (h3 : contIn 0x80 0xBF c3) :
    utf8Encode [Char.ofNat (seqValue (b.toNat - 0xF0) [c1, c2, c3])] = [b, c1, c2, c3] := by
  rw [contIn_iff] at h1 h2 h3
  have h1' : (b.toNat = 0xF0 → 0x90 ≤ c1.toNat) ∧ (b.toNat = 0xF4 → c1.toNat ≤ 0x8F) ∧
      0x80 ≤ c1.toNat ∧ c1.toNat ≤ 0xBF := by
    split_ifs at h1 <;> omega
  have hv :=
    toNat_ofNat_of_valid (m := seqValue (b.toNat - 0xF0) [c1, c2, c3]) (by simp; omega)
  simp only [utf8Encode, List.flatMap_cons, List.flatMap_nil, List.append_nil, hv]
  simp only [seqValue, List.foldl_cons, List.foldl_nil]
  rw [if_neg (by omega), if_neg (by omega), if_neg (by omega),
    ofNat_eq_of_toNat (b := b) (by omega), ofNat_eq_of_toNat (b := c1) (by omega),
    ofNat_eq_of_toNat (b := c2) (by omega), ofNat_eq_of_toNat (b := c3) (by omega)]

/-- The character the decoder reads at the head of a byte string is encoded as the bytes it
took; one case per length of the sequence. -/
theorem utf8Head_eq_ok {s : Bytes} {c : Char} {n : Nat} (h : utf8Head s = .ok (c, n)) :
    s = utf8Encode [c] ++ s.drop n ∧ 0 < n := by
  rcases s with _ | ⟨b, rest⟩
  · cases h
  by_cases ha : b.toNat < 0x80
  · simp only [utf8Head, if_pos ha, Except.ok.injEq, Prod.mk.injEq] at h
    obtain ⟨rfl, rfl⟩ := h
    simp [utf8Encode, ha]
  obtain ⟨lo, hi, bits, c1, cs, hlead, ht, hlen, hc1, hcs, rfl⟩ := utf8Head_cons_eq_ok ha h
  refine ⟨?_, by omega⟩
  have hrest : rest = c1 :: cs ++ rest.drop (n - 1) := by rw [← ht, List.take_append_drop]
  suffices he : utf8Encode [Char.ofNat (seqValue bits (c1 :: cs))] = b :: c1 :: cs by
    obtain ⟨k, rfl⟩ : ∃ k, n = k + 1 := ⟨n - 1, by omega⟩
    rw [he, List.drop_succ_cons, Nat.add_sub_cancel] at *
    exact congrArg (b :: ·) hrest
  by_cases h2 : 0xC2 ≤ b.toNat ∧ b.toNat ≤ 0xDF
  · rw [utf8Lead_two h2.1 h2.2] at hlead
    obtain ⟨rfl, rfl, rfl, rfl⟩ : 2 = n ∧ 0x80 = lo ∧ 0xBF = hi ∧ b.toNat - 0xC0 = bits := by
      simpa using hlead
    rw [List.length_eq_zero.1 (by omega : cs.length = 0)]
    exact utf8Encode_two h2 hc1
  by_cases h3 : 0xE0 ≤ b.toNat ∧ b.toNat ≤ 0xEF
  · rw [utf8Lead_three h3.1 h3.2] at hlead
    obtain ⟨rfl, rfl, rfl, rfl⟩ := by simpa using hlead
    obtain ⟨c2, rfl⟩ := List.length_eq_one.1 (by omega : cs.length = 1)
    exact utf8Encode_three h3 hc1 (hcs c2 (List.mem_singleton_self _))
  by_cases h4 : 0xF0 ≤ b.toNat ∧ b.toNat ≤ 0xF4
  · rw [utf8Lead_four h4.1 h4.2] at hlead
    obtain ⟨rfl, rfl, rfl, rfl⟩ := by simpa using hlead
    obtain ⟨c2, c3, rfl⟩ := List.length_eq_two.1 (by omega : cs.length = 2)
    exact utf8Encode_four h4 hc1 (hcs c2 (by simp)) (hcs c3 (by simp))
  -- no other byte leads a sequence
  have h1 : utf8Lead b.toNat = (1, 0, 0, 0) := by
    simp only [utf8Lead]
    rw [if_neg h2, if_neg (by omega), if_neg (by omega), if_neg (by omega), if_neg (by omega),
      if_neg (by omega), if_neg (by omega)]
  rw [h1] at hlead
  obtain ⟨rfl, -⟩ := by simpa using hlead
  omega

theorem utf8Head_eq_error {s : Bytes} {n : Nat} (h : utf8Head s = .error n) : 0 < n := by
  rcases s with _ | ⟨b, rest⟩
  · cases h; decide
  simp only [utf8Head] at h
  split_ifs at h
  cases h
  omega

/-! ### `os.fsdecode` and `os.fsencode` -/

/-- A code point of a `str` that `os.fsdecode` returns: a character, or the lone surrogate
`U+DC00 + b` that the `surrogateescape` handler writes for a byte `b` it cannot decode. A
decoding error only ever covers bytes from `0x80` on, the ones the handler escapes. -/
inductive FsChar
  | char (c : Char)
  | escape (b : Char)
  deriving DecidableEq, Repr

abbrev FsStr := List FsChar

/-- `data.decode("utf-8", "surrogateescape")` with `fuel` the length: each byte of a maximal
invalid subpart is escaped. -/
def fsdecodeAux : Nat → Bytes → FsStr
  | _, [] => []
  | 0, _ :: _ => []
  | fuel + 1, s =>
    match utf8Head s with
    | .ok (c, n) => .char c :: fsdecodeAux fuel (s.drop n)
    | .error n => (s.take n).map .escape ++ fsdecodeAux fuel (s.drop n)

def fsdecode (s : Bytes) : FsStr := fsdecodeAux s.length s

/-- `os.fsencode`: `encode("utf-8", "surrogateescape")`, an escaped byte written back as it
was. -/
def fsencode (s : FsStr) : Bytes :=
  s.flatMap fun
    | .char c => utf8Encode [c]
    | .escape b => [b]

@[simp] theorem fsencode_nil : fsencode [] = [] := rfl

@[simp] theorem fsencode_append (s t : FsStr) : fsencode (s ++ t) = fsencode s ++ fsencode t := by
  simp [fsencode]

@[simp] theorem fsencode_char_cons (c : Char) (s : FsStr) :
    fsencode (.char c :: s) = utf8Encode [c] ++ fsencode s := rfl

@[simp] theorem fsencode_map_escape (s : Bytes) : fsencode (s.map .escape) = s := by
  induction s with
  | nil => rfl
  | cons b s ih => exact congrArg (b :: ·) ih

theorem fsencode_fsdecodeAux : ∀ (fuel : Nat) (s : Bytes), s.length ≤ fuel →
    fsencode (fsdecodeAux fuel s) = s
  | _, [], _ => by cases ‹Nat› <;> rfl
  | 0, _ :: _, h => absurd h (by simp)
  | fuel + 1, b :: rest, h => by
    have hdrop : ∀ n, 0 < n → ((b :: rest).drop n).length ≤ fuel := fun n hn => by
      simp only [List.length_drop, List.length_cons] at h ⊢; omega
    simp only [fsdecodeAux]
    rcases hc : utf8Head (b :: rest) with n | ⟨c, n⟩
    · rw [fsencode_append, fsencode_map_escape,
        fsencode_fsdecodeAux fuel _ (hdrop n (utf8Head_eq_error hc)), List.take_append_drop]
    · obtain ⟨hs, hn⟩ := utf8Head_eq_ok hc
      rw [fsencode_char_cons, fsencode_fsdecodeAux fuel _ (hdrop n hn)]
      exact hs.symm

/-- `os.fsencode` undoes `os.fsdecode`: every byte string comes back, valid UTF-8 or not. -/
theorem fsencode_fsdecode (s : Bytes) : fsencode (fsdecode s) = s :=
  fsencode_fsdecodeAux s.length s le_rfl

/-- An `é` between two bytes that do not decode: both are escaped, and written back. -/
example : fsdecode ['\xC3', '\xC3', '\xA9', '\xFF'] =
    [.escape '\xC3', .char 'é', .escape '\xFF'] := by decide

theorem fsdecodeAux_of_utf8DecodeAux : ∀ (fuel : Nat) (s : Bytes) (t : Str),
    utf8DecodeAux fuel s = some t → fsdecodeAux fuel s = t.map .char
  | _, [], t, h => by
    cases ‹Nat› <;> (simp only [utf8DecodeAux, Option.some.injEq] at h; subst h; rfl)
  | 0, _ :: _, _, h => by cases h
  | fuel + 1, b :: rest, t, h => by
    simp only [utf8DecodeAux] at h
    simp only [fsdecodeAux]
    rcases hc : utf8Head (b :: rest) with n | ⟨c, n⟩
    · simp only [hc] at h
      cases h
    · simp only [hc] at h
      obtain ⟨t', ht', rfl⟩ := Option.map_eq_some'.1 h
      simp only [List.map_cons, fsdecodeAux_of_utf8DecodeAux fuel _ t' ht']

theorem fsdecode_of_utf8Decode {s : Bytes} {t : Str} (h : utf8Decode s = some t) :
    fsdecode s = t.map .char :=
  fsdecodeAux_of_utf8DecodeAux s.length s t h

/-! ### The filter -/

namespace TarExtractor

/-- A member of the archive, as the filter reads it: its name, which `tarfile` decodes from
the header with the file system encoding and `surrogateescape` (so that it is an
`os.fsdecode` of bytes), its size, whether it is a regular file, and what
`extractfile(name).read()` returns for it, `none` where `extractfile` gives `None`. -/
structure TarMember where
  name : FsStr
  size : Nat
  isfile : Bool
  data : Option Bytes

/-- `TarFile.getmember(name)`: the last member of that name, trailing slashes of the name
dropped; `none` where it raises `KeyError`. -/
def getmember (members : List TarMember) (name : FsStr) : Option TarMember :=
  members.reverse.find? fun m => m.name = name.rdropWhile (· = .char '/')

/-- The filter's state: `self.tar` (`None` after `closefile`), `self.namen` and the cursor. -/
structure State where
  tar : Option (List TarMember)
  namen : List FsStr
  currentindex : Int

/-- `TarExtractor.extractone`: a member past `maxmembersize` is answered with no data; every
exception of the lookup and the read is caught (`ok` false), and the ipath is
`os.fsencode(ipath)`. -/
def extractone (maxmembersize : Nat) (s : State) (ipath : FsStr) : Answer :=
  let (ok, docdata) : Bool × Bytes :=
    match s.tar.bind (getmember · ipath) with
    | none => (false, [])
    | some info =>
      if maxmembersize < info.size then (true, [])
      else
        match info.data with
        | some data => (true, data)
        | none => (false, [])
  ⟨ok, docdata, fsencode ipath,
    if (s.namen.length : Int) - 1 ≤ s.currentindex then .eofnext else .noteof⟩

/-- `TarExtractor.getipath`: the ipath is decoded with `os.fsdecode`; when extraction fails,
the ipath of that answer is decoded again as strict UTF-8 and extracted once more, and a
decoding error returns the first answer. -/
def getipath (maxmembersize : Nat) (s : State) (ipath : Bytes) : Answer :=
  let r := extractone maxmembersize s (fsdecode ipath)
  if r.ok then r
  else
    match utf8Decode r.ipath with
    | some name => extractone maxmembersize s (name.map .char)
    | none => r

def closefile (s : State) : State := ⟨none, [], s.currentindex⟩

/-- `TarExtractor.openfile`, given the members `tarfile.open` reads (`none` where it raises):
the cursor is reset, and the archive and the names of its regular files replace the old
ones only when it opens. -/
def openfile (archive : Option (List TarMember)) (s : State) : Bool × State :=
  match archive with
  | some members => (true, ⟨some members, (members.filter (·.isfile)).map (·.name), -1⟩)
  | none => (false, { s with currentindex := -1 })

@[simp] theorem extractone_ipath (maxmembersize : Nat) (s : State) (ipath : FsStr) :
    (extractone maxmembersize s ipath).ipath = fsencode ipath := rfl

/-- `getipath` answers as `extractone` does on `os.fsdecode(ipath)`: the second try decodes
the same bytes again, to the same name when they are valid UTF-8, so it never changes the
answer. -/
theorem getipath_eq_extractone (maxmembersize : Nat) (s : State) (ipath : Bytes) :
    getipath maxmembersize s ipath = extractone maxmembersize s (fsdecode ipath) := by
  simp only [getipath, extractone_ipath, fsencode_fsdecode]
  split_ifs
  · rfl
  · split
    · next name h => rw [fsdecode_of_utf8Decode h]
    · rfl

/-- A name `os.fsdecode` makes of the bytes `raw`, valid UTF-8 or not, is answered under the
ipath `raw` itself, and `getipath` at any ipath answers as `extractone` on its `os.fsdecode`:
the strict UTF-8 second try never changes the answer. -/
theorem getipath_round_trip (maxmembersize : Nat) (s : State) (raw : Bytes) :
    (extractone maxmembersize s (fsdecode raw)).ipath = raw ∧
      getipath maxmembersize s raw = extractone maxmembersize s (fsdecode raw) :=
  ⟨fsencode_fsdecode raw, getipath_eq_extractone maxmembersize s raw⟩

end TarExtractor

end RecollFilters
