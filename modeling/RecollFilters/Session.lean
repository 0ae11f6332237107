import RecollFilters.Python

/-! # The extraction session of the execm protocol

A filter answers `getnext` and `getipath` calls with `(ok, data, ipath, eof)`. rclCHM,
rclEPUB, InfoExtractor and IcalExtractor share one `getnext`: a cursor `currentindex` that
starts at -1 for the self document, walks the content list, and then answers `eofnow`.
`CursorFilter` holds what each of them puts into that shape; its field `extractone_eq` is
the contract each member's `extractone` meets on the entry under the cursor.
-/

namespace RecollFilters

set_option autoImplicit false

/-- The end-of-stream flag of an answer (`RclExecM.noteof`, `eofnext`, `eofnow`); `bareTrue`
is the `True` the info and ICS `extractone` put there for an index past the end, and
`bareFalse` the `False` of RarExtractor's answer to a name it cannot look up. -/
inductive EofState
  | noteof
  | eofnext
  | eofnow
  | bareTrue
  | bareFalse
  deriving DecidableEq, Repr

def EofState.ends (e : EofState) : Bool := e = .eofnext || e = .eofnow

/-- A filter's answer to one call: `(ok, data, ipath, eof)`. -/
structure Answer where
  ok : Bool
  data : Bytes
  ipath : Bytes
  eof : EofState
  deriving DecidableEq, Repr

structure Reply where
  ok : Bool
  data : Bytes
  ipath : Bytes
  deriving DecidableEq, Repr

def Reply.withEof (r : Reply) (e : EofState) : Answer := ⟨r.ok, r.data, r.ipath, e⟩

/-- The state of a cursor-driven filter, with the MIME type hint the protocol handler `em`
holds since the last `em.setmimetype`. -/
structure Session (γ α : Type) where
  container : γ
  contents : List α
  currentindex : Int
  closed : Bool
  mimetype : Bytes

namespace Session

variable {γ α : Type}

def closefile (s : Session γ α) : Session γ α := { s with closed := true }

def setmimetype (s : Session γ α) (t : Bytes) : Session γ α := { s with mimetype := t }

def closefileIf (s : Session γ α) (cond : Bool) : Session γ α := if cond then s.closefile else s

/-- The flag `extractone` computes: `eofnext` once `currentindex >= len(contents) - 1`. -/
def iseof (s : Session γ α) : EofState :=
  if (s.contents.length : Int) - 1 ≤ s.currentindex then .eofnext else .noteof

/-- The fields a call may not touch: the container, its open state, the content list and the
cursor. -/
structure Frame (s t : Session γ α) : Prop where
  container : t.container = s.container
  closed : t.closed = s.closed
  contents : t.contents = s.contents
  currentindex : t.currentindex = s.currentindex

theorem Frame.refl (s : Session γ α) : Frame s s := ⟨rfl, rfl, rfl, rfl⟩

theorem Frame.setmimetype (s : Session γ α) (t : Bytes) : Frame s (s.setmimetype t) :=
  ⟨rfl, rfl, rfl, rfl⟩

@[simp] theorem closefile_container (s : Session γ α) : s.closefile.container = s.container := rfl
@[simp] theorem closefile_contents (s : Session γ α) : s.closefile.contents = s.contents := rfl
@[simp] theorem closefile_currentindex (s : Session γ α) :
    s.closefile.currentindex = s.currentindex := rfl
@[simp] theorem closefileIf_container (s : Session γ α) (b : Bool) :
    (s.closefileIf b).container = s.container := by cases b <;> rfl
@[simp] theorem closefileIf_contents (s : Session γ α) (b : Bool) :
    (s.closefileIf b).contents = s.contents := by cases b <;> rfl
@[simp] theorem closefileIf_currentindex (s : Session γ α) (b : Bool) :
    (s.closefileIf b).currentindex = s.currentindex := by cases b <;> rfl
@[simp] theorem setmimetype_closed (s : Session γ α) (t : Bytes) :
    (s.setmimetype t).closed = s.closed := rfl
@[simp] theorem setmimetype_container (s : Session γ α) (t : Bytes) :
    (s.setmimetype t).container = s.container := rfl
@[simp] theorem setmimetype_contents (s : Session γ α) (t : Bytes) :
    (s.setmimetype t).contents = s.contents := rfl
@[simp] theorem setmimetype_currentindex (s : Session γ α) (t : Bytes) :
    (s.setmimetype t).currentindex = s.currentindex := rfl
@[simp] theorem setmimetype_mimetype (s : Session γ α) (t : Bytes) :
    (s.setmimetype t).mimetype = t := rfl

def setmimetype? (s : Session γ α) : Option Bytes → Session γ α
  | some t => s.setmimetype t
  | none => s

@[simp] theorem setmimetype?_container (s : Session γ α) (t : Option Bytes) :
    (s.setmimetype? t).container = s.container := by cases t <;> rfl
@[simp] theorem setmimetype?_contents (s : Session γ α) (t : Option Bytes) :
    (s.setmimetype? t).contents = s.contents := by cases t <;> rfl
@[simp] theorem setmimetype?_closed (s : Session γ α) (t : Option Bytes) :
    (s.setmimetype? t).closed = s.closed := by cases t <;> rfl
@[simp] theorem setmimetype?_mimetype (s : Session γ α) (t : Option Bytes) :
    (s.setmimetype? t).mimetype = t.getD s.mimetype := by cases t <;> rfl
@[simp] theorem closefileIf_mimetype (s : Session γ α) (b : Bool) :
    (s.closefileIf b).mimetype = s.mimetype := by cases b <;> rfl
@[simp] theorem closefileIf_closed (s : Session γ α) (b : Bool) :
    (s.closefileIf b).closed = (b || s.closed) := by cases b <;> rfl
@[simp] theorem setmimetype?_currentindex (s : Session γ α) (t : Option Bytes) :
    (s.setmimetype? t).currentindex = s.currentindex := by cases t <;> rfl

end Session

/-- The parts in which the cursor-driven filters differ. `extractone` is the call `getnext`
makes on the cursor; on an entry in range of an open container it answers `entry` with the
cursor's eof flag and sets the hint to `entryType`, if that is given. A filter that never
closes its container (`closes = false`) meets it whatever the `closed` field says. -/
structure CursorFilter (γ α : Type) where
  closes : Bool
  selfType : Bytes
  selfData : γ → Bytes
  extractone : Session γ α → Int → Except PyError (Answer × Session γ α)
  entry : γ → Nat → α → Reply
  entryType : γ → Nat → α → Option Bytes
  extractone_eq : ∀ (s : Session γ α) (i : Nat) (a : α), (closes = true → s.closed = false) →
    s.currentindex = i → s.contents[i]? = some a →
    extractone s i = .ok ((entry s.container i a).withEof s.iseof,
      s.setmimetype? (entryType s.container i a))

namespace CursorFilter

variable {γ α : Type} (F : CursorFilter γ α)

/-- The shared `getnext` (catenation off): the self document at -1, then the entry under the
cursor, then `eofnow` for good. -/
def getnext (s : Session γ α) : Except PyError (Answer × Session γ α) :=
  if s.currentindex = -1 then
    let s := ({ s with currentindex := 0 } : Session γ α).setmimetype F.selfType
    if s.contents.length = 0 then
      .ok (⟨true, F.selfData s.container, [], .eofnext⟩, s.closefileIf F.closes)
    else .ok (⟨true, F.selfData s.container, [], .noteof⟩, s)
  else if (s.contents.length : Int) ≤ s.currentindex then
    .ok (⟨false, [], [], .eofnow⟩, s.closefileIf F.closes)
  else do
    let (ret, s') ← F.extractone s s.currentindex
    let s' := s'.closefileIf (F.closes && ret.eof.ends)
    pure (ret, { s' with currentindex := s'.currentindex + 1 })

/-- The answer to the `k`-th `getnext` call of a session opened on `contents` (the self
document is call 0). -/
def expected (c : γ) (contents : List α) (k : Nat) : Answer :=
  if k = 0 then ⟨true, F.selfData c, [], if contents.length = 0 then .eofnext else .noteof⟩
  else
    match contents[k - 1]? with
    | some a => (F.entry c (k - 1) a).withEof (if k = contents.length then .eofnext else .noteof)
    | none => ⟨false, [], [], .eofnow⟩

/-- The hint after the `m`-th `getnext` call, `prev` the hint before it: the self document's
type, then the type of each entry that has one. -/
def hintStep (c : γ) (contents : List α) (m : Nat) (prev : Bytes) : Bytes :=
  if m = 0 then F.selfType
  else
    match contents[m - 1]? with
    | some a => (F.entryType c (m - 1) a).getD prev
    | none => prev

def cursorAfter (n m : Nat) : Int := (min m (n + 1) : Nat) - 1

/-- The session invariant after `m` calls of `getnext` from an opened state on container
`c` and entries `cs`; a filter that closes its container keeps it open until the end. -/
structure Reached (closes : Bool) (c : γ) (cs : List α) (m : Nat) (s : Session γ α) : Prop where
  container : s.container = c
  contents : s.contents = cs
  currentindex : s.currentindex = cursorAfter cs.length m
  closed : closes = true → m ≤ cs.length → s.closed = false

theorem Reached.opened {closes : Bool} {s : Session γ α} (hi : s.currentindex = -1)
    (hc : closes = true → s.closed = false) : Reached closes s.container s.contents 0 s :=
  ⟨rfl, rfl, by simp [cursorAfter, hi], fun hF _ => hc hF⟩

theorem Reached.of_frame {closes : Bool} {c : γ} {cs : List α} {m : Nat} {s t : Session γ α}
    (h : Reached closes c cs m s) (hf : Session.Frame s t) : Reached closes c cs m t :=
  ⟨hf.container.trans h.container, hf.contents.trans h.contents,
    hf.currentindex.trans h.currentindex, fun hF hm => hf.closed.trans (h.closed hF hm)⟩

theorem expected_entry {c : γ} {cs : List α} {i : Nat} {a : α} (ha : cs[i]? = some a) :
    F.expected c cs (i + 1) =
      (F.entry c i a).withEof (if i + 1 = cs.length then .eofnext else .noteof) := by
  simp [expected, ha]

theorem getnext_self (s : Session γ α) (h : s.currentindex = -1) :
    F.getnext s = .ok (F.expected s.container s.contents 0,
      (({ s with currentindex := 0 } : Session γ α).setmimetype F.selfType).closefileIf
        (F.closes && s.contents.length = 0)) := by
  unfold getnext expected
  rw [if_pos h]
  by_cases hn : s.contents.length = 0 <;> simp [hn, Session.closefileIf]

theorem getnext_end (s : Session γ α) (h1 : s.currentindex ≠ -1)
    (h2 : (s.contents.length : Int) ≤ s.currentindex) :
    F.getnext s = .ok (⟨false, [], [], .eofnow⟩, s.closefileIf F.closes) := by
  unfold getnext
  rw [if_neg h1, if_pos h2]

theorem getnext_entry (s : Session γ α) (i : Nat) (a : α)
    (hc : F.closes = true → s.closed = false)
    (hi : s.currentindex = i) (ha : s.contents[i]? = some a) :
    F.getnext s = .ok ((F.entry s.container i a).withEof s.iseof,
      { (s.setmimetype? (F.entryType s.container i a)).closefileIf (F.closes && s.iseof.ends) with
        currentindex := i + 1 }) := by
  have hlt : i < s.contents.length := (List.getElem?_eq_some_iff.mp ha).1
  unfold getnext
  rw [if_neg (by omega), if_neg (by omega), hi, F.extractone_eq s i a hc hi ha]
  simp [bind, Except.bind, pure, Except.pure, Reply.withEof, hi]

/-- One `getnext` call from the invariant gives the expected answer, the next invariant and
the next hint. -/
theorem getnext_reached {c : γ} {cs : List α} {m : Nat} {s : Session γ α}
    (h : Reached F.closes c cs m s) :
    ∃ s', F.getnext s = .ok (F.expected c cs m, s') ∧ Reached F.closes c cs (m + 1) s' ∧
      s'.mimetype = F.hintStep c cs m s.mimetype := by
  obtain ⟨rfl, rfl, hi, hcl⟩ := h
  unfold cursorAfter at hi
  cases m with
  | zero =>
    refine ⟨_, F.getnext_self s (by simpa using hi),
      ⟨by simp, by simp, by simp [cursorAfter], ?_⟩, by simp [hintStep]⟩
    intro hF h1
    simp only [Session.closefileIf_closed, Session.setmimetype_closed, Bool.or_eq_false_iff]
    have hlen : s.contents.length ≠ 0 := by omega
    exact ⟨by simp [hlen], hcl hF (Nat.zero_le _)⟩
  | succ k =>
    by_cases hn : s.contents.length ≤ k
    · have hget : s.contents[k]? = none := List.getElem?_eq_none hn
      have hex : F.expected s.container s.contents (k + 1) = ⟨false, [], [], .eofnow⟩ := by
        simp [expected, hget]
      refine ⟨_, hex ▸ F.getnext_end s (by omega) (by omega),
        ⟨by simp, by simp, ?_, fun _ h => absurd h (by omega)⟩, by simp [hintStep, hget]⟩
      simp only [Session.closefileIf_currentindex, cursorAfter]
      omega
    · have hget : s.contents[k]? = some s.contents[k] := List.getElem?_eq_getElem (by omega)
      have heof : s.iseof = if k + 1 = s.contents.length then .eofnext else .noteof := by
        have hiff : (s.contents.length : Int) - 1 ≤ s.currentindex ↔ k + 1 = s.contents.length :=
          by omega
        simp only [Session.iseof, hiff]
      have hex : F.expected s.container s.contents (k + 1) =
          (F.entry s.container k s.contents[k]).withEof s.iseof := by
        rw [F.expected_entry hget, heof]
      refine ⟨_, hex ▸ F.getnext_entry s k _ (fun hF => hcl hF (by omega)) (by omega) hget,
        ⟨by simp, by simp, by simp only [cursorAfter]; omega, ?_⟩, by simp [hintStep, hget]⟩
      intro hF h1
      have hne : s.iseof = .noteof := by rw [heof, if_neg (by omega)]
      simp [hne, EofState.ends, hcl hF (by omega)]

end CursorFilter

inductive Call
  | getnext
  | getipath (ipath : Bytes)

def Call.countNext : List Call → Nat
  | [] => 0
  | .getnext :: cs => countNext cs + 1
  | .getipath _ :: cs => countNext cs

/-- The answers of the `getnext` calls of a run, in order, and the final state. A call that
raises leaves the state as it was: every modelled call raises before it writes. -/
def runCalls {σ : Type} (getnext : σ → Except PyError (Answer × σ))
    (getipath : σ → Bytes → Except PyError (Answer × σ)) :
    σ → List Call → List (Except PyError Answer) × σ
  | s, [] => ([], s)
  | s, .getnext :: cs =>
    match getnext s with
    | .ok (r, s') => let p := runCalls getnext getipath s' cs; (.ok r :: p.1, p.2)
    | .error e => let p := runCalls getnext getipath s cs; (.error e :: p.1, p.2)
  | s, .getipath a :: cs =>
    match getipath s a with
    | .ok (_, s') => runCalls getnext getipath s' cs
    | .error _ => runCalls getnext getipath s cs

theorem runCalls_append {σ : Type} (getnext : σ → Except PyError (Answer × σ))
    (getipath : σ → Bytes → Except PyError (Answer × σ)) :
    ∀ (s : σ) (cs cs' : List Call), runCalls getnext getipath s (cs ++ cs') =
      ((runCalls getnext getipath s cs).1 ++
          (runCalls getnext getipath (runCalls getnext getipath s cs).2 cs').1,
        (runCalls getnext getipath (runCalls getnext getipath s cs).2 cs').2)
  | _, [], _ => rfl
  | s, .getnext :: cs, cs' => by
    rw [List.cons_append]
    simp only [runCalls]
    split <;> simp only [runCalls_append getnext getipath _ cs cs', List.cons_append]
  | s, .getipath _ :: cs, cs' => by
    rw [List.cons_append]
    simp only [runCalls]
    split <;> exact runCalls_append getnext getipath _ cs cs'

namespace CursorFilter

variable {γ α : Type} (F : CursorFilter γ α)

def GetipathFrame (getipath : Session γ α → Bytes → Except PyError (Answer × Session γ α)) :
    Prop :=
  ∀ s a r t, getipath s a = .ok (r, t) → Session.Frame s t

/-- Over any run of calls, the `getnext` answers are the expected ones in order, whatever the
`getipath` calls in between answer or raise. `getnext'` is the filter's own `getnext`, equal
to the shared one on the container. -/
theorem runCalls_reached {c : γ} {cs : List α}
    (getnext' : Session γ α → Except PyError (Answer × Session γ α))
    (getipath : Session γ α → Bytes → Except PyError (Answer × Session γ α))
    (hnext : ∀ s : Session γ α, s.container = c → getnext' s = F.getnext s)
    (hframe : GetipathFrame getipath) (calls : List Call) :
    ∀ (m : Nat) (s : Session γ α), Reached F.closes c cs m s →
      (runCalls getnext' getipath s calls).1 =
        (List.range' m (Call.countNext calls)).map (fun k => .ok (F.expected c cs k)) ∧
      Reached F.closes c cs (m + Call.countNext calls) (runCalls getnext' getipath s calls).2 := by
  induction calls with
  | nil => intro m s h; simpa [runCalls, Call.countNext] using h
  | cons call calls ih =>
    intro m s h
    cases call with
    | getnext =>
      obtain ⟨s', hs', hr, -⟩ := F.getnext_reached h
      obtain ⟨h1, h2⟩ := ih (m + 1) s' hr
      simp only [runCalls, hnext s h.container, hs', Call.countNext, List.range'_succ,
        List.map_cons, h1, true_and]
      simpa [Nat.add_assoc, Nat.add_comm 1] using h2
    | getipath a =>
      simp only [runCalls, Call.countNext]
      split
      · exact ih m _ (h.of_frame (hframe _ _ _ _ ‹_›))
      · exact ih m s h

def hints (c : γ) (cs : List α) : Nat → Nat → Bytes → Bytes
  | _, 0, prev => prev
  | m, k + 1, prev => hints c cs (m + 1) k (F.hintStep c cs m prev)

theorem hints_succ (c : γ) (cs : List α) :
    ∀ (m k : Nat) (prev : Bytes),
      F.hints c cs m (k + 1) prev = F.hintStep c cs (m + k) (F.hints c cs m k prev)
  | _, 0, _ => rfl
  | m, k + 1, prev => by
    rw [hints, hints_succ c cs (m + 1) k, Nat.add_right_comm]
    rfl

theorem runCalls_hints {c : γ} {cs : List α}
    (getnext' : Session γ α → Except PyError (Answer × Session γ α))
    (getipath : Session γ α → Bytes → Except PyError (Answer × Session γ α))
    (hnext : ∀ s : Session γ α, s.container = c → getnext' s = F.getnext s) :
    ∀ (k m : Nat) (s : Session γ α), Reached F.closes c cs m s →
      (runCalls getnext' getipath s (List.replicate k .getnext)).2.mimetype =
        F.hints c cs m k s.mimetype
  | 0, _, _, _ => rfl
  | k + 1, m, s, h => by
    obtain ⟨s', hs', hr, hmt⟩ := F.getnext_reached h
    simp only [List.replicate_succ, runCalls, hnext s h.container, hs', hints, ← hmt]
    exact runCalls_hints getnext' getipath hnext k (m + 1) s' hr

theorem hints_entry {c : γ} {cs : List α} {t : Bytes} (ht : ∀ i a, F.entryType c i a = some t)
    {k : Nat} (hk : 1 ≤ k) (hn : k ≤ cs.length) (prev : Bytes) :
    F.hints c cs 0 (k + 1) prev = t := by
  have hget : cs[k - 1]? = some cs[k - 1] := List.getElem?_eq_getElem (by omega)
  rw [hints_succ, Nat.zero_add, hintStep, if_neg (by omega), hget]
  simp [ht]

theorem hints_const {c : γ} {cs : List α} {t : Bytes} (hself : F.selfType = t)
    (ht : ∀ i a, F.entryType c i a = some t ∨ F.entryType c i a = none) :
    ∀ (k : Nat) (prev : Bytes), F.hints c cs 0 (k + 1) prev = t
  | 0, _ => hself
  | k + 1, prev => by
    rw [hints_succ, hints_const hself ht k prev, Nat.zero_add, hintStep, if_neg (by omega)]
    split
    · rename_i a _
      rcases ht (k + 1 - 1) a with h | h <;> rw [h] <;> rfl
    · rfl

/-- Every run of calls from `s` answers its `k`-th `getnext` call with `F.expected` and leaves
the contents as they were. -/
def FollowsCursor (getnext : Session γ α → Except PyError (Answer × Session γ α))
    (getipath : Session γ α → Bytes → Except PyError (Answer × Session γ α)) (s : Session γ α) :
    Prop :=
  ∀ calls : List Call,
    (runCalls getnext getipath s calls).1 =
      (List.range (Call.countNext calls)).map (fun k => .ok (F.expected s.container s.contents k)) ∧
    (runCalls getnext getipath s calls).2.contents = s.contents

/-- A state with the cursor at -1 and, for a filter that closes, an open container, follows the
cursor. -/
theorem followsCursor_of_opened {s : Session γ α}
    (getnext' : Session γ α → Except PyError (Answer × Session γ α))
    (getipath : Session γ α → Bytes → Except PyError (Answer × Session γ α))
    (hnext : ∀ t : Session γ α, t.container = s.container → getnext' t = F.getnext t)
    (hframe : GetipathFrame getipath) (hi : s.currentindex = -1)
    (hc : F.closes = true → s.closed = false) : F.FollowsCursor getnext' getipath s := by
  intro calls
  obtain ⟨h1, h2⟩ := F.runCalls_reached getnext' getipath hnext hframe calls 0 s (.opened hi hc)
  exact ⟨by rw [h1, List.range_eq_range'], h2.contents⟩

end CursorFilter

end RecollFilters
