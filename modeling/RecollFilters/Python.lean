import Mathlib.Data.List.DropRight

/-! # The Python values the filters handle

A `bytes` value and a `str` value are both lists of characters: one character per byte
(each below 256) for `bytes`, one per code point for `str`. The library calls the filters
make (`int()`, list indexing, the codec registry, `html.parser`) are modelled at the
interface the filters use, and a raised exception is a `PyError` value.
-/

namespace RecollFilters

set_option autoImplicit false

/-- A Python `bytes` value, one character per byte. -/
abbrev Bytes := List Char

/-- A Python `str` value, one character per code point. -/
abbrev Str := List Char

/-- The exception classes the modelled code can raise. -/
inductive PyError
  | typeError
  | valueError
  | indexError
  | attributeError
  | lookupError
  | unicodeError
  | keyError
  | unboundLocalError
  | recursionError
  deriving DecidableEq, Repr

instance instDecidableEqExcept {ε α : Type} [DecidableEq ε] [DecidableEq α] :
    DecidableEq (Except ε α)
  | .error a, .error b => decidable_of_iff (a = b) (by simp)
  | .ok a, .ok b => decidable_of_iff (a = b) (by simp)
  | .error _, .ok _ => isFalse nofun
  | .ok _, .error _ => isFalse nofun

theorem except_bind_eq_ok {ε α β : Type} {x : Except ε α} {g : α → Except ε β} {b : β} :
    x >>= g = .ok b ↔ ∃ a, x = .ok a ∧ g a = .ok b := by
  cases x <;> simp [bind, Except.bind]

theorem mapM_ok_mem {α β ε : Type} {g : α → Except ε β} :
    ∀ {l : List α} {r : List β}, l.mapM g = .ok r → ∀ b ∈ r, ∃ a ∈ l, g a = .ok b
  | [], r, h, b, hb => by
    cases h
    cases hb
  | a :: l, r, h, b, hb => by
    rw [List.mapM_cons] at h
    obtain ⟨b', hb', h⟩ := except_bind_eq_ok.mp h
    obtain ⟨r', hr', h⟩ := except_bind_eq_ok.mp h
    cases h
    rcases List.mem_cons.mp hb with rfl | hb
    · exact ⟨a, List.mem_cons_self a l, hb'⟩
    · obtain ⟨a', ha', h⟩ := mapM_ok_mem hr' b hb
      exact ⟨a', List.mem_cons_of_mem a ha', h⟩

/-! ### Builtin string methods -/

def lstrip (chars s : List Char) : List Char := s.dropWhile (· ∈ chars)

/-- `s.rstrip(chars)`: `chars` is a set of characters, not a suffix. -/
def rstrip (chars s : List Char) : List Char := s.rdropWhile (· ∈ chars)

def strip (chars s : List Char) : List Char := rstrip chars (lstrip chars s)

def split (sep : Char) (s : List Char) : List (List Char) := s.splitOn sep

/-- The characters `str.isspace` accepts, which `str.strip()` removes. -/
def isStrSpace (c : Char) : Bool :=
  c = ' ' || ('\t' ≤ c && c ≤ '\r') || ('\x1c' ≤ c && c ≤ '\x1f') || c = '\x85' || c = '\xa0' ||
    c = '\u1680' || ('\u2000' ≤ c && c ≤ '\u200a') || c = '\u2028' || c = '\u2029' ||
    c = '\u202f' || c = '\u205f' || c = '\u3000'

def stripWs (s : Str) : Str := (s.dropWhile isStrSpace).rdropWhile isStrSpace

def pyStr (i : Int) : Str := (toString i).toList

/-! ### UTF-8 -/

/-- `s.encode("UTF-8")`; a `Char` is never a lone surrogate, so this cannot fail. -/
def utf8Encode (s : Str) : Bytes :=
  s.flatMap fun c =>
    let n := c.toNat
    if n < 0x80 then [c]
    else if n < 0x800 then [Char.ofNat (0xC0 + n / 64), Char.ofNat (0x80 + n % 64)]
    else if n < 0x10000 then
      [Char.ofNat (0xE0 + n / 4096), Char.ofNat (0x80 + n / 64 % 64), Char.ofNat (0x80 + n % 64)]
    else
      [Char.ofNat (0xF0 + n / 262144), Char.ofNat (0x80 + n / 4096 % 64),
        Char.ofNat (0x80 + n / 64 % 64), Char.ofNat (0x80 + n % 64)]

def contIn (lo hi : Nat) (b : Char) : Bool := lo ≤ b.toNat && b.toNat ≤ hi

/-- The UTF-8 sequence a lead byte opens: its length, the range of its first continuation
byte (narrowed where overlong forms, surrogates and code points past `U+10FFFF` start), and
the value bits of the lead byte. Length 1 for a byte that cannot lead. -/
def utf8Lead (n : Nat) : Nat × Nat × Nat × Nat :=
  if 0xC2 ≤ n ∧ n ≤ 0xDF then (2, 0x80, 0xBF, n - 0xC0)
  else if n = 0xE0 then (3, 0xA0, 0xBF, 0)
  else if n = 0xED then (3, 0x80, 0x9F, 0x0D)
  else if 0xE1 ≤ n ∧ n ≤ 0xEF then (3, 0x80, 0xBF, n - 0xE0)
  else if n = 0xF0 then (4, 0x90, 0xBF, 0)
  else if n = 0xF4 then (4, 0x80, 0x8F, 4)
  else if 0xF1 ≤ n ∧ n ≤ 0xF3 then (4, 0x80, 0xBF, n - 0xF0)
  else (1, 0, 0, 0)

/-- The character at the head of a byte string and the bytes it takes, or the length of the
maximal invalid subpart there (at least one byte), as CPython's UTF-8 decoder reads them. -/
def utf8Head : Bytes → Except Nat (Char × Nat)
  | [] => .error 1
  | b :: rest =>
    if b.toNat < 0x80 then .ok (b, 1)
    else
      let (len, lo, hi, bits) := utf8Lead b.toNat
      let conts := rest.take (len - 1)
      let good := match conts with
        | c :: cs => if contIn lo hi c then 1 + (cs.takeWhile (contIn 0x80 0xBF)).length else 0
        | [] => 0
      if 1 < len ∧ good = len - 1 then
        .ok (Char.ofNat (conts.foldl (fun acc c => acc * 64 + (c.toNat - 0x80)) bits), len)
      else .error (good + 1)

/-- `data.decode("UTF-8")`, `none` where it raises `UnicodeDecodeError`; `fuel` is the length. -/
def utf8DecodeAux : Nat → Bytes → Option Str
  | _, [] => some []
  | 0, _ :: _ => none
  | fuel + 1, s =>
    match utf8Head s with
    | .ok (c, n) => (utf8DecodeAux fuel (s.drop n)).map (c :: ·)
    | .error _ => none

def utf8Decode (s : Bytes) : Option Str := utf8DecodeAux s.length s

/-- `data.decode("utf-8", errors="replace")` with `fuel` the length: each maximal invalid
subpart becomes one `U+FFFD`. -/
def utf8DecodeReplaceAux : Nat → Bytes → Str
  | _, [] => []
  | 0, _ :: _ => []
  | fuel + 1, s =>
    match utf8Head s with
    | .ok (c, n) => c :: utf8DecodeReplaceAux fuel (s.drop n)
    | .error n => '\uFFFD' :: utf8DecodeReplaceAux fuel (s.drop n)

def utf8DecodeReplace (s : Bytes) : Str := utf8DecodeReplaceAux s.length s

/-! ### UTF-8 decoding reads back the encoding -/

theorem toNat_ofNat_of_lt {m : Nat} (h : m < 0xD800) : (Char.ofNat m).toNat = m := by
  have hv : m.isValidChar := Or.inl h
  simp only [Char.ofNat, hv, dite_true, Char.ofNatAux, Char.toNat, UInt32.toNat,
    BitVec.toNat_ofNatLt]

@[simp] theorem contIn_iff (lo hi : Nat) (b : Char) :
    contIn lo hi b ↔ lo ≤ b.toNat ∧ b.toNat ≤ hi := by
  simp [contIn]

theorem utf8Lead_two {m : Nat} (h1 : 0xC2 ≤ m) (h2 : m ≤ 0xDF) :
    utf8Lead m = (2, 0x80, 0xBF, m - 0xC0) := if_pos ⟨h1, h2⟩

theorem utf8Lead_three {m : Nat} (h1 : 0xE0 ≤ m) (h2 : m ≤ 0xEF) :
    utf8Lead m = (3, if m = 0xE0 then 0xA0 else 0x80, if m = 0xED then 0x9F else 0xBF,
      m - 0xE0) := by
  rw [utf8Lead, if_neg (by omega)]
  by_cases h0 : m = 0xE0
  · subst h0; rfl
  by_cases hd : m = 0xED
  · subst hd; rfl
  rw [if_neg h0, if_neg hd, if_pos ⟨by omega, h2⟩, if_neg h0, if_neg hd]

theorem utf8Lead_four {m : Nat} (h1 : 0xF0 ≤ m) (h2 : m ≤ 0xF4) :
    utf8Lead m = (4, if m = 0xF0 then 0x90 else 0x80, if m = 0xF4 then 0x8F else 0xBF,
      m - 0xF0) := by
  rw [utf8Lead, if_neg (by omega), if_neg (by omega), if_neg (by omega), if_neg (by omega)]
  by_cases h0 : m = 0xF0
  · subst h0; rfl
  by_cases h4 : m = 0xF4
  · subst h4; rfl
  rw [if_neg h0, if_neg h4, if_pos ⟨by omega, by omega⟩, if_neg h0, if_neg h4]

theorem utf8Head_seq {b c x : Char} {cs rest : List Char} {k lo hi bits : Nat}
    (hb : 0x80 ≤ b.toNat) (hlead : utf8Lead b.toNat = (k + 2, lo, hi, bits))
    (hlen : cs.length = k) (hc : contIn lo hi c) (hcs : ∀ y ∈ cs, contIn 0x80 0xBF y)
    (hx : (c :: cs).foldl (fun acc c => acc * 64 + (c.toNat - 0x80)) bits = x.toNat) :
    utf8Head ((b :: c :: cs) ++ rest) = .ok (x, k + 2) := by
  have htake : (c :: (cs ++ rest)).take (k + 2 - 1) = c :: cs := by simp [← hlen]
  have hwhile : cs.takeWhile (contIn 0x80 0xBF) = cs := List.takeWhile_eq_self_iff.2 hcs
  simp only [List.cons_append, utf8Head, if_neg (show ¬ b.toNat < 0x80 by omega), hlead, htake,
    hc, if_true, hwhile, hlen, hx, Char.ofNat_toNat]
  rw [if_pos (by omega)]

/-- The decoder reads one encoded character back, whatever follows it; one case per length of
the encoding, the lead byte's narrowed ranges checked against the code point's range. -/
theorem utf8Head_encode (c : Char) (rest : Bytes) :
    utf8Head (utf8Encode [c] ++ rest) = .ok (c, (utf8Encode [c]).length) := by
  have hv : c.toNat < 0xD800 ∨ (0xDFFF < c.toNat ∧ c.toNat < 0x110000) := c.valid
  have hmax : c.toNat < 0x110000 := by omega
  have hsur : c.toNat / 4096 = 0xD → c.toNat < 0xD800 := by omega
  clear hv
  simp only [utf8Encode, List.flatMap_cons, List.flatMap_nil, List.append_nil]
  split_ifs with h1 h2 h3
  · simp [utf8Head, h1]
  · have e0 : (Char.ofNat (0xC0 + c.toNat / 64)).toNat = 0xC0 + c.toNat / 64 :=
      toNat_ofNat_of_lt (by omega)
    have e1 : (Char.ofNat (0x80 + c.toNat % 64)).toNat = 0x80 + c.toNat % 64 :=
      toNat_ofNat_of_lt (by omega)
    refine utf8Head_seq (by omega) (by rw [e0]; exact utf8Lead_two (by omega) (by omega))
      rfl ?_ nofun ?_
    · simp only [contIn_iff, e1]; omega
    · simp only [List.foldl_cons, List.foldl_nil, e1]; omega
  · have e0 : (Char.ofNat (0xE0 + c.toNat / 4096)).toNat = 0xE0 + c.toNat / 4096 :=
      toNat_ofNat_of_lt (by omega)
    have e1 : (Char.ofNat (0x80 + c.toNat / 64 % 64)).toNat = 0x80 + c.toNat / 64 % 64 :=
      toNat_ofNat_of_lt (by omega)
    have e2 : (Char.ofNat (0x80 + c.toNat % 64)).toNat = 0x80 + c.toNat % 64 :=
      toNat_ofNat_of_lt (by omega)
    refine utf8Head_seq (by omega) (by rw [e0]; exact utf8Lead_three (by omega) (by omega))
      rfl ?_ ?_ ?_
    · simp only [contIn_iff, e1]; split_ifs <;> omega
    · simp only [List.forall_mem_cons, List.not_mem_nil, false_implies, implies_true, and_true,
        contIn_iff, e2]; omega
    · simp only [List.foldl_cons, List.foldl_nil, e1, e2]; omega
  · have e0 : (Char.ofNat (0xF0 + c.toNat / 262144)).toNat = 0xF0 + c.toNat / 262144 :=
      toNat_ofNat_of_lt (by omega)
    have e1 : (Char.ofNat (0x80 + c.toNat / 4096 % 64)).toNat = 0x80 + c.toNat / 4096 % 64 :=
      toNat_ofNat_of_lt (by omega)
    have e2 : (Char.ofNat (0x80 + c.toNat / 64 % 64)).toNat = 0x80 + c.toNat / 64 % 64 :=
      toNat_ofNat_of_lt (by omega)
    have e3 : (Char.ofNat (0x80 + c.toNat % 64)).toNat = 0x80 + c.toNat % 64 :=
      toNat_ofNat_of_lt (by omega)
    refine utf8Head_seq (by omega) (by rw [e0]; exact utf8Lead_four (by omega) (by omega))
      rfl ?_ ?_ ?_
    · simp only [contIn_iff, e1]; split_ifs <;> omega
    · simp only [List.forall_mem_cons, List.not_mem_nil, false_implies, implies_true, and_true,
        contIn_iff, e2, e3]; omega
    · simp only [List.foldl_cons, List.foldl_nil, e1, e2, e3]; omega

theorem utf8Encode_cons (c : Char) (s : Str) :
    utf8Encode (c :: s) = utf8Encode [c] ++ utf8Encode s := by
  simp [utf8Encode]

theorem utf8Encode_singleton_ne_nil (c : Char) : utf8Encode [c] ≠ [] := by
  simp only [utf8Encode, List.flatMap_cons, List.flatMap_nil, List.append_nil]
  split_ifs <;> simp

theorem utf8DecodeAux_encode : ∀ (s : Str) (fuel : Nat), (utf8Encode s).length ≤ fuel →
    utf8DecodeAux fuel (utf8Encode s) = some s
  | [], fuel, _ => by cases fuel <;> rfl
  | c :: s, fuel, h => by
    obtain ⟨b, bs, hb⟩ := List.exists_cons_of_ne_nil (utf8Encode_singleton_ne_nil c)
    rw [utf8Encode_cons] at h ⊢
    obtain ⟨fuel, rfl⟩ : ∃ f, fuel = f + 1 := ⟨fuel - 1, by simp [hb] at h; omega⟩
    rw [hb, List.cons_append, utf8DecodeAux, ← List.cons_append, ← hb, utf8Head_encode]
    · simp only [List.drop_left, Option.map_eq_some']
      exact ⟨s, utf8DecodeAux_encode s fuel (by simp [hb] at h ⊢; omega), rfl⟩
    · exact nofun

/-- Decoding the UTF-8 encoding of a string gives the string back. -/
theorem utf8Decode_encode (s : Str) : utf8Decode (utf8Encode s) = some s :=
  utf8DecodeAux_encode s _ le_rfl

/-! ### `int()` of a byte string -/

def isPySpace (c : Char) : Bool :=
  c = ' ' || c = '\t' || c = '\n' || c = '\x0b' || c = '\x0c' || c = '\r'

/-- The digits of `digit (_? digit)*`, the body `int()` accepts in base 10. -/
def parseDigits : List Char → Option (List Nat)
  | [] => none
  | c :: rest =>
    if c.isDigit then
      match rest with
      | [] => some [c.toNat - 48]
      | '_' :: rest' => (parseDigits rest').map fun ds => (c.toNat - 48) :: ds
      | rest => (parseDigits rest).map fun ds => (c.toNat - 48) :: ds
    else none

def digitsValue (ds : List Nat) : Nat := ds.foldl (fun acc d => 10 * acc + d) 0

def pySign : List Char → Bool × List Char
  | '-' :: b => (true, b)
  | '+' :: b => (false, b)
  | b => (false, b)

/-- `int(s)` for a byte string, or `none` where it raises `ValueError`; CPython refuses more
than 4300 digits by default. -/
def pyInt (s : Bytes) : Option Int :=
  let (neg, body) := pySign ((s.dropWhile isPySpace).rdropWhile isPySpace)
  match parseDigits body with
  | none => none
  | some ds =>
    if 4300 < ds.length then none
    else some (if neg then -(digitsValue ds : Int) else digitsValue ds)

/-! ### `int()` of a `str` -/

/-- The decimal digits zero of Unicode 15.0, each the first of ten consecutive digits. -/
def decimalZeros : List Nat :=
  [0x30, 0x660, 0x6F0, 0x7C0, 0x966, 0x9E6, 0xA66, 0xAE6, 0xB66, 0xBE6, 0xC66, 0xCE6, 0xD66,
    0xDE6, 0xE50, 0xED0, 0xF20, 0x1040, 0x1090, 0x17E0, 0x1810, 0x1946, 0x19D0, 0x1A80, 0x1A90,
    0x1B50, 0x1BB0, 0x1C40, 0x1C50, 0xA620, 0xA8D0, 0xA900, 0xA9D0, 0xA9F0, 0xAA50, 0xABF0,
    0xFF10, 0x104A0, 0x10D30, 0x11066, 0x110F0, 0x11136, 0x111D0, 0x112F0, 0x11450, 0x114D0,
    0x11650, 0x116C0, 0x11730, 0x118E0, 0x11950, 0x11C50, 0x11D50, 0x11DA0, 0x11F50, 0x16A60,
    0x16AC0, 0x16B50, 0x1D7CE, 0x1D7D8, 0x1D7E2, 0x1D7EC, 0x1D7F6, 0x1E140, 0x1E2F0, 0x1E4F0,
    0x1E950, 0x1FBF0]

def toDecimal (c : Char) : Option Nat :=
  (decimalZeros.find? fun z => z ≤ c.toNat ∧ c.toNat < z + 10).map (c.toNat - ·)

/-- `Py_UNICODE_ISSPACE` above the ASCII range. -/
def isUnicodeSpace (c : Char) : Bool :=
  c.toNat ∈ [0x85, 0xA0, 0x1680, 0x2028, 0x2029, 0x202F, 0x205F, 0x3000] ||
    (0x2000 ≤ c.toNat && c.toNat ≤ 0x200A)

/-- `_PyUnicode_TransformDecimalAndSpaceToASCII` on one character: below 127 it is kept, a
space becomes ` `, a decimal digit its ASCII digit, and anything else `?`, which no `int`
literal holds (the C code ends the text there). -/
def decimalAndSpaceToAscii (c : Char) : Char :=
  if c.toNat < 127 then c
  else if isUnicodeSpace c then ' '
  else
    match toDecimal c with
    | some d => Char.ofNat (48 + d)
    | none => '?'

/-- `int(s)` for a `str`: the text made ASCII as above, then read as `bytes` are. -/
def pyIntStr (s : Str) : Option Int := pyInt (s.map decimalAndSpaceToAscii)

example : pyIntStr "\u0661\u0663".toList = some 13 ∧ pyIntStr "\u00A07".toList = some 7 ∧
    pyIntStr "\u00B2".toList = none := by
  decide

/-! ### `int()` reads back `str()` -/

theorem digitChar_digit :
    ∀ k < 10, (Nat.digitChar k).isDigit ∧ (Nat.digitChar k).toNat - 48 = k := by
  decide

theorem digitsValue_append (ds : List Nat) (d : Nat) :
    digitsValue (ds ++ [d]) = 10 * digitsValue ds + d := by
  simp [digitsValue, List.foldl_append]

theorem toDigitsCore_succ (fuel n : Nat) (ds : List Char) :
    Nat.toDigitsCore 10 (fuel + 1) n ds =
      if n / 10 = 0 then Nat.digitChar (n % 10) :: ds
      else Nat.toDigitsCore 10 fuel (n / 10) (Nat.digitChar (n % 10) :: ds) := rfl

theorem toDigitsCore_digits : ∀ (fuel n : Nat) (ds : List Char), n < fuel →
    ∃ cs : List Char, Nat.toDigitsCore 10 fuel n ds = cs ++ ds ∧ cs ≠ [] ∧
      (∀ c ∈ cs, c.isDigit) ∧ digitsValue (cs.map (·.toNat - 48)) = n
  | 0, n, _, h => absurd h (Nat.not_lt_zero n)
  | fuel + 1, n, ds, h => by
    obtain ⟨hd, hv⟩ := digitChar_digit (n % 10) (Nat.mod_lt _ (by decide))
    rw [toDigitsCore_succ]
    split_ifs with h0
    · refine ⟨[Nat.digitChar (n % 10)], rfl, by simp, by simpa using hd, ?_⟩
      simp only [List.map_cons, List.map_nil, digitsValue, List.foldl, hv]
      omega
    · obtain ⟨cs, hcs, hne, hdig, hval⟩ :=
        toDigitsCore_digits fuel (n / 10) (Nat.digitChar (n % 10) :: ds) (by omega)
      refine ⟨cs ++ [Nat.digitChar (n % 10)], by simp [hcs], by simp, ?_, ?_⟩
      · simpa [or_imp, forall_and] using ⟨hdig, hd⟩
      · rw [List.map_append, List.map_singleton, digitsValue_append, hval, hv]
        omega

theorem parseDigits_of_isDigit : ∀ {cs : List Char}, cs ≠ [] → (∀ c ∈ cs, c.isDigit) →
    parseDigits cs = some (cs.map (·.toNat - 48))
  | [], h, _ => absurd rfl h
  | [c], _, hd => by simp [parseDigits, hd c (List.mem_singleton_self c)]
  | c :: d :: cs, _, hd => by
    have hdd : d.isDigit := hd d (by simp)
    have hne : d ≠ '_' := by rintro rfl; exact absurd hdd (by decide)
    rw [parseDigits, if_pos (hd c (List.mem_cons_self c _)),
      parseDigits_of_isDigit (List.cons_ne_nil d cs) fun x hx => hd x (List.mem_cons_of_mem c hx)]
    · rfl
    · exact List.cons_ne_nil d cs
    · exact fun _ h => hne (List.cons.inj h).1

theorem pyStr_ofNat (n : Nat) : ∃ cs : List Char, pyStr n = cs ∧ cs ≠ [] ∧
    (∀ c ∈ cs, c.isDigit) ∧ digitsValue (cs.map (·.toNat - 48)) = n := by
  simpa using toDigitsCore_digits (n + 1) n [] (Nat.lt_succ_self n)

theorem pyStr_ofNat_ne_nil (n : Nat) : pyStr n ≠ [] := by
  obtain ⟨cs, h, hne, -⟩ := pyStr_ofNat n
  rwa [h]

theorem pySign_of_isDigit {c : Char} {rest : List Char} (h : c.isDigit) :
    pySign (c :: rest) = (false, c :: rest) := by
  have h1 : c ≠ '-' := by rintro rfl; exact absurd h (by decide)
  have h2 : c ≠ '+' := by rintro rfl; exact absurd h (by decide)
  simp [pySign, h1, h2]

theorem isPySpace_of_isDigit {c : Char} (h : c.isDigit) : isPySpace c = false := by
  simp only [isPySpace, Bool.or_eq_false_iff, decide_eq_false_iff_not]
  refine ⟨⟨⟨⟨⟨?_, ?_⟩, ?_⟩, ?_⟩, ?_⟩, ?_⟩ <;> rintro rfl <;> revert h <;> decide

/-- `int(str(n))` is `n` for a natural number of at most 4300 digits. -/
theorem pyInt_pyStr {n : Nat} (h : (pyStr n).length ≤ 4300) :
    pyInt (pyStr n) = some (n : Int) := by
  obtain ⟨cs, hcs, hne, hdig, hval⟩ := pyStr_ofNat n
  rw [hcs] at h ⊢
  have hsp : ∀ c ∈ cs, isPySpace c = false := fun c hc => isPySpace_of_isDigit (hdig c hc)
  have ht : (cs.dropWhile isPySpace).rdropWhile isPySpace = cs := by
    rw [List.dropWhile_eq_self_iff.mpr fun hl => by simpa using hsp _ (List.getElem_mem hl),
      List.rdropWhile_eq_self_iff.mpr fun hl => by simp [hsp _ (List.getLast_mem hl)]]
  obtain ⟨c, rest, rfl⟩ := List.exists_cons_of_ne_nil hne
  simp only [pyInt, ht, pySign_of_isDigit (hdig c (List.mem_cons_self c rest)),
    parseDigits_of_isDigit hne hdig, List.length_map, if_neg (Nat.not_lt.mpr h), hval]
  rfl

/-! ### List indexing -/

/-- The position `l[i]` reads in a list of length `n`: a negative index counts from the end. -/
def pyIndex (n : Nat) (i : Int) : Option Nat :=
  let j := if i < 0 then i + n else i
  if 0 ≤ j ∧ j < n then some j.toNat else none

def pyGetItem {α : Type} (l : List α) (i : Int) : Except PyError α :=
  match (pyIndex l.length i).bind (l[·]?) with
  | some a => .ok a
  | none => .error .indexError

theorem pyIndex_of_lt {n i : Nat} (h : i < n) : pyIndex n i = some i := by
  have hi : ¬(i : Int) < 0 := by omega
  simp only [pyIndex, hi, if_false]
  rw [if_pos (by omega)]
  simp

theorem pyGetItem_of_getElem? {α : Type} {l : List α} {i : Nat} {a : α} (h : l[i]? = some a) :
    pyGetItem l i = .ok a := by
  have hlt : i < l.length := (List.getElem?_eq_some_iff.mp h).1
  simp [pyGetItem, pyIndex_of_lt hlt, h]

theorem pyIndex_eq_some {n : Nat} {i : Int} {j : Nat} (h : pyIndex n i = some j) :
    j < n ∧ (i = j ∨ i = j - n) := by
  unfold pyIndex at h
  by_cases hi : i < 0
  · simp only [hi, if_true] at h
    split_ifs at h with hj
    obtain rfl := Option.some.inj h
    omega
  · simp only [hi, if_false] at h
    split_ifs at h with hj
    obtain rfl := Option.some.inj h
    omega

/-! ### Library interfaces -/

structure Codec where
  /-- `data.decode(name, errors="replace")`, which never raises -/
  decodeReplace : Bytes → Str
  /-- `text.encode(name)` -/
  encode : Str → Except PyError Bytes

/-- The codec registry: a name it does not know makes `decode` and `encode` raise
`LookupError`. -/
structure Codecs where
  lookup : Str → Option Codec

namespace Codecs

def decodeReplace (C : Codecs) (name : Str) (data : Bytes) : Except PyError Str :=
  match C.lookup name with
  | some c => .ok (c.decodeReplace data)
  | none => .error .lookupError

def encode (C : Codecs) (name : Str) (text : Str) : Except PyError Bytes :=
  match C.lookup name with
  | some c => c.encode text
  | none => .error .lookupError

end Codecs

/-! ### The `utf-16-le` codec -/

/-- `text.encode("utf-16-le")`: each code unit low byte first, a character beyond the BMP as a
surrogate pair. -/
def utf16leEncode (s : Str) : Bytes :=
  s.flatMap fun c =>
    let unit (u : Nat) : Bytes := [Char.ofNat (u % 256), Char.ofNat (u / 256)]
    if c.toNat < 0x10000 then unit c.toNat
    else unit (0xD800 + (c.toNat - 0x10000) / 0x400) ++ unit (0xDC00 + (c.toNat - 0x10000) % 0x400)

def utf16leUnits : Bytes → List (Option Nat)
  | a :: b :: rest => some (a.toNat + 256 * b.toNat) :: utf16leUnits rest
  | [_] => [none]
  | [] => []

/-- The characters of `utf-16-le` code units under `errors="replace"`, `high` a high surrogate
waiting for its low one: a surrogate without its partner and an odd last byte are U+FFFD. -/
def utf16leChars (high : Option Nat) : List (Option Nat) → Str
  | [] => if high.isSome then ['\uFFFD'] else []
  | none :: rest => (if high.isSome then ['\uFFFD'] else []) ++ '\uFFFD' :: utf16leChars none rest
  | some u :: rest =>
    if 0xD800 ≤ u ∧ u < 0xDC00 then
      (if high.isSome then ['\uFFFD'] else []) ++ utf16leChars (some u) rest
    else if 0xDC00 ≤ u ∧ u ≤ 0xDFFF then
      match high with
      | some h => Char.ofNat (0x10000 + (h - 0xD800) * 0x400 + (u - 0xDC00)) :: utf16leChars none rest
      | none => '\uFFFD' :: utf16leChars none rest
    else (if high.isSome then ['\uFFFD'] else []) ++ Char.ofNat u :: utf16leChars none rest

def utf16le : Codec where
  decodeReplace data := utf16leChars none (utf16leUnits data)
  encode text := .ok (utf16leEncode text)

/-- A start tag as `html.parser.HTMLParser` hands it to `handle_starttag`: tag and attribute
names lower-cased, values unescaped, `none` for an attribute written without a value. -/
structure StartTag where
  tag : Str
  attrs : List (Str × Option Str)
  deriving DecidableEq, Repr

/-- What the loop `for nm, val in attrs: if nm == key: v = val` leaves in `v`, which starts
as `""`: the last value given for `key`. -/
def StartTag.attr (t : StartTag) (key : Str) : Option Str :=
  t.attrs.foldl (fun v a => if a.1 = key then a.2 else v) (some [])

end RecollFilters
