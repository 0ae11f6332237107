import RecollFilters.Python

/-! # `urllib.parse` on `str`

`urlparse` as CPython 3.12 computes the two fields the CHM walker reads (`scheme`, `path`),
and `unquote` with its UTF-8 decoding of percent-escapes. `urlsplit` raises `ValueError` on
three network locations: unbalanced IPv6 brackets; a bracketed host that
`_check_bracketed_host` refuses, that is neither an IPv6 address (`ipaddress.ip_address`) nor
an IPvFuture one; and a non-ASCII one that `_checknetloc` finds to hold one of `/?#@:` under
NFKC normalization.

NFKC is not computed here. Composition never produces an ASCII character and these five have
no canonical composition, so the normalized text holds one of them exactly when some character
of the text has a compatibility decomposition holding one; `nfkcDelimiter` lists those
characters (Unicode 15.0).
-/

namespace RecollFilters.Url

set_option autoImplicit false

structure SplitResult where
  scheme : Str
  netloc : Str
  path : Str
  query : Str
  fragment : Str
  deriving DecidableEq, Repr

def isSchemeChar (c : Char) : Bool := c.isAlphanum || c = '+' || c = '-' || c = '.'

def partitionAt (c : Char) (s : Str) : Option (Str × Str) :=
  if c ∈ s then some (s.takeWhile (· ≠ c), (s.dropWhile (· ≠ c)).drop 1) else none

/-- The scheme split off `url`: a leading ASCII letter, then scheme characters up to the
first `:`, lower-cased. -/
def splitScheme (url : Str) : Str × Str :=
  let pre := url.takeWhile (· ≠ ':')
  match url.head? with
  | some c =>
    if pre.length < url.length ∧ 0 < pre.length ∧ c.isAlpha ∧ pre.all isSchemeChar then
      (pre.map Char.toLower, url.drop (pre.length + 1))
    else ([], url)
  | none => ([], url)

/-- `_splitnetloc(url, 2)` on what follows `//`: up to the first `/`, `?` or `#`. -/
def splitNetloc (url : Str) : Str × Str :=
  (url.takeWhile fun c => c ≠ '/' ∧ c ≠ '?' ∧ c ≠ '#',
    url.dropWhile fun c => c ≠ '/' ∧ c ≠ '?' ∧ c ≠ '#')

def hexVal (c : Char) : Option Nat :=
  if '0' ≤ c ∧ c ≤ '9' then some (c.toNat - 48)
  else if 'a' ≤ c ∧ c ≤ 'f' then some (c.toNat - 87)
  else if 'A' ≤ c ∧ c ≤ 'F' then some (c.toNat - 55)
  else none

/-! ### The host in brackets -/

/-- `_BaseV4._parse_octet` succeeds: one to three ASCII digits, no leading zero unless the
octet is `0`, at most 255. -/
def octetValid (s : Str) : Bool :=
  s ≠ [] && s.all Char.isDigit && s.length ≤ 3 && (s = ['0'] || s.head? ≠ some '0') &&
    digitsValue (s.map (·.toNat - 48)) ≤ 255

def ipv4Valid (s : Str) : Bool :=
  '/' ∉ s && s ≠ [] && ((split '.' s).length = 4 && (split '.' s).all octetValid)

/-- `_BaseV6._parse_hextet` succeeds; `int("", 16)` raises. -/
def hextetValid (s : Str) : Bool :=
  s ≠ [] && s.all (fun c => (hexVal c).isSome) && s.length ≤ 4

/-- The checks `_BaseV6._ip_int_from_string` makes on the `:`-separated parts: at most nine,
at most one empty part between the ends, which is the `::`; an empty end only as part of
that `::`; fewer than eight parts around it; and every part it reads a hextet. -/
def ipv6Parts (parts : List Str) : Bool :=
  let n := parts.length
  let first := parts.headD []
  let last := parts.getLastD []
  let middle := (parts.drop 1).dropLast
  if 9 < n ∨ 1 < middle.countP (· = []) then false
  else
    match middle.findIdx? (· = []) with
    | some j =>
      let hi := if first = [] then j else j + 1
      let lo := if last = [] then n - j - 3 else n - j - 2
      (first ≠ [] || j = 0) && (last ≠ [] || n - j - 2 = 1) && hi + lo < 8 &&
        (parts.take hi).all hextetValid && (parts.drop (n - lo)).all hextetValid
    | none => n = 8 && first ≠ [] && last ≠ [] && parts.all hextetValid

/-- `_BaseV6._ip_int_from_string(s)` succeeds. An IPv4 suffix stands for the two hextets
`'%x'` writes of its halves, which are always valid. -/
def ipv6BodyValid (s : Str) : Bool :=
  let parts := split ':' s
  if s = [] ∨ parts.length < 3 then false
  else if '.' ∈ parts.getLastD [] then
    ipv4Valid (parts.getLastD []) && ipv6Parts (parts.dropLast ++ [['0'], ['0']])
  else ipv6Parts parts

def ipv6Valid (s : Str) : Bool :=
  '/' ∉ s &&
    match partitionAt '%' s with
    | some (addr, scope) => scope ≠ [] && '%' ∉ scope && ipv6BodyValid addr
    | none => ipv6BodyValid s

/-- `_check_bracketed_host(hostname)` does not raise: after a `v`, `\Av[a-fA-F0-9]+\..+\Z`
matches; otherwise `ip_address` reads an address that is not IPv4. -/
def bracketedHostValid (h : Str) : Bool :=
  match h with
  | 'v' :: rest =>
    let hex := rest.takeWhile fun c => (hexVal c).isSome
    match rest.drop hex.length with
    | '.' :: tail => hex ≠ [] && tail ≠ [] && '\n' ∉ tail
    | _ => false
  | _ => !ipv4Valid h && ipv6Valid h

def bracketedHost (netloc : Str) : Str :=
  ((netloc.dropWhile (· ≠ '[')).drop 1).takeWhile (· ≠ ']')

/-! ### NFKC -/

/-- The characters whose NFKC form holds one of `/?#@:`. -/
def nfkcDelimiter (c : Char) : Bool :=
  c.toNat ∈ [0x2047, 0x2048, 0x2049, 0x2100, 0x2101, 0x2105, 0x2106, 0x2A74, 0xFE13, 0xFE16,
    0xFE55, 0xFE56, 0xFE5F, 0xFE6B, 0xFF03, 0xFF0F, 0xFF1A, 0xFF1F, 0xFF20]

/-- `_checknetloc(netloc)` does not raise: the network location is empty or ASCII, or none of
its characters has an NFKC form holding one of `/?#@:`. -/
def checknetloc (netloc : Str) : Bool :=
  netloc = [] || netloc.all (·.toNat < 128) || !netloc.any nfkcDelimiter

/-! ### `urlsplit` and `urlparse` -/

def urlsplit (url : Str) : Except PyError SplitResult :=
  let url := (url.dropWhile fun c => c.toNat ≤ 0x20).filter fun c => c ≠ '\t' ∧ c ≠ '\r' ∧ c ≠ '\n'
  let (scheme, url) := splitScheme url
  let (netloc, url) := if url.take 2 = ['/', '/'] then splitNetloc (url.drop 2) else ([], url)
  if ('[' ∈ netloc ∧ ']' ∉ netloc) ∨ (']' ∈ netloc ∧ '[' ∉ netloc) then .error .valueError
  else if '[' ∈ netloc ∧ ']' ∈ netloc ∧ bracketedHostValid (bracketedHost netloc) = false then
    .error .valueError
  else
    let (url, fragment) := (partitionAt '#' url).getD (url, [])
    let (url, query) := (partitionAt '?' url).getD (url, [])
    if checknetloc netloc then .ok ⟨scheme, netloc, url, query, fragment⟩ else .error .valueError

def usesParams : List Str :=
  ["", "ftp", "hdl", "prospero", "http", "imap", "https", "shttp", "rtsp", "rtsps", "rtspu",
    "sip", "sips", "mms", "sftp", "tel"].map String.toList

/-- `_splitparams(url)`: the path without its `;params`, looked for after the last `/`. -/
def splitParams (url : Str) : Str :=
  if '/' ∈ url then
    let tail := (url.reverse.takeWhile (· ≠ '/')).reverse
    let head := url.take (url.length - tail.length)
    if ';' ∈ tail then head ++ tail.takeWhile (· ≠ ';') else url
  else url.takeWhile (· ≠ ';')

def urlparse (url : Str) : Except PyError SplitResult := do
  let r ← urlsplit url
  pure (if r.scheme ∈ usesParams ∧ ';' ∈ r.path then { r with path := splitParams r.path } else r)

/- A bracketed host that is not an IP address, an IPv4 address in brackets and a fullwidth
solidus, which NFKC turns into `/`, are refused; an IPv6 address with a scope passes. -/
example :
    urlsplit "//[x]/b.htm".toList = .error .valueError ∧
      urlsplit "//[1.2.3.4]/b.htm".toList = .error .valueError ∧
      urlsplit "//a\uFF0Fb/c.htm".toList = .error .valueError ∧
      (urlsplit "//[fe80::1%25]/b.htm".toList).map (·.path) = .ok "/b.htm".toList := by
  decide

/-! ### `unquote` -/

/-- `_unquote_impl` on an ASCII run: each `%XX` with two hex digits becomes that byte. -/
def unquoteRun : List Char → Bytes
  | '%' :: a :: b :: rest =>
    match hexVal a, hexVal b with
    | some x, some y => Char.ofNat (16 * x + y) :: unquoteRun rest
    | _, _ => '%' :: unquoteRun (a :: b :: rest)
  | c :: rest => c :: unquoteRun rest
  | [] => []

def unquoteGo : List Char → Str → Str
  | run, [] => utf8DecodeReplace (unquoteRun run.reverse)
  | run, c :: cs =>
    if c.toNat < 128 then unquoteGo (c :: run) cs
    else utf8DecodeReplace (unquoteRun run.reverse) ++ c :: unquoteGo [] cs

/-- `unquote(string)` for a `str`: each maximal ASCII run is unescaped and decoded as UTF-8
with replacement, the other characters are kept. -/
def unquote (s : Str) : Str := if '%' ∉ s then s else unquoteGo [] s

end RecollFilters.Url
