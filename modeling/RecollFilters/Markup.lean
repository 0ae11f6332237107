import RecollFilters.Python

/-! # The regular expressions of the filters

The patterns the filters hand to Python's `re` are each written out as the function `re`
computes on them, from the pieces below: `search` takes the leftmost position at which the
rest of the pattern matches, `dotStar` is a greedy `.*` (the longest run first, stopping at
`\n` unless `re.DOTALL`), and `re.IGNORECASE` on `bytes` folds ASCII letters only. The
lemmas at the end say at which position `search` and `dotStar` answer, and what a literal reads.
-/

namespace RecollFilters.Markup

set_option autoImplicit false

def ciEq (a b : Char) : Bool := a.toLower == b.toLower

def ciStrip : List Char → List Char → Option (List Char)
  | [], s => some s
  | _ :: _, [] => none
  | p :: ps, c :: cs => if ciEq p c then ciStrip ps cs else none

def litStrip (pat s : List Char) : Option (List Char) :=
  if pat.isPrefixOf s then some (s.drop pat.length) else none

/-- ` *`: the spaces at the start of `s` are skipped (every pattern here follows ` *` by a
character that is not a space, so the greedy run is the only one that can match). -/
def dropSpaces (s : List Char) : List Char := s.dropWhile (· = ' ')

/-- `re.search` of a pattern whose match at a position is `m`: the text before the leftmost
position where `m` succeeds, and `m`'s result there. -/
def search {β : Type} (m : List Char → Option β) : List Char → Option (List Char × β)
  | [] => (m []).map fun b => ([], b)
  | c :: cs =>
    match m (c :: cs) with
    | some b => some ([], b)
    | none => (search m cs).map fun p => (c :: p.1, p.2)

/-- `.*` followed by the rest `m` of a pattern: the longest run the dot can take after which
`m` succeeds, and `m`'s result there. Without `dotall` the run stops at `\n`. -/
def dotStar {β : Type} (dotall : Bool) (m : List Char → Option β) :
    List Char → Option (List Char × β)
  | [] => (m []).map fun b => ([], b)
  | c :: cs =>
    if c = '\n' ∧ !dotall then (m (c :: cs)).map fun b => ([], b)
    else
      match dotStar dotall m cs with
      | some p => some (c :: p.1, p.2)
      | none => (m (c :: cs)).map fun b => ([], b)

/-- `re.sub` with at most `count` replacements of a pattern that, at a position, matches `m`
characters (`m` gives a positive length) and is replaced by `rep` applied to the matched text;
`skip` characters of the last match are still to pass. -/
def subAux (m : List Char → Option Nat) (rep : List Char → List Char) :
    Nat → Nat → List Char → List Char
  | _, _, [] => []
  | count, skip + 1, _ :: cs => subAux m rep count skip cs
  | 0, 0, s => s
  | count + 1, 0, c :: cs =>
    match m (c :: cs) with
    | some n => rep ((c :: cs).take n) ++ subAux m rep count (n - 1) cs
    | none => c :: subAux m rep (count + 1) 0 cs

/-- `re.sub(pattern, repl, s, count)` (`count = 0` means every match, bounded here by the
length of `s`, which no run of non-empty matches can exceed). -/
def sub (m : List Char → Option Nat) (rep : List Char → List Char) (count : Nat)
    (s : List Char) : List Char :=
  subAux m rep (if count = 0 then s.length + 1 else count) 0 s

def ciLit (pat : List Char) (s : List Char) : Option Nat :=
  (ciStrip pat s).map fun _ => pat.length

def tagRest (s : List Char) : Option Nat :=
  let run := s.takeWhile (· ≠ '>')
  if run.length < s.length then some (run.length + 1) else none

/-- `s.replace(old, new)` for a non-empty `old`: every occurrence, left to right. -/
def strReplace (old new s : Str) : Str :=
  sub (fun t => (litStrip old t).map fun _ => old.length) (fun _ => new) 0 s

/-! ### What `search` and `dotStar` find -/

section Positions

variable {β : Type} {m : List Char → Option β}

theorem search_eq_none : ∀ {s : List Char}, search m s = none → ∀ x y, s = x ++ y → m y = none
  | [], h, x, y, hs => by
    obtain ⟨-, rfl⟩ := List.append_eq_nil.mp hs.symm
    simpa [search] using h
  | c :: cs, h, x, y, hs => by
    simp only [search] at h
    split at h
    · simp at h
    · rcases x with _ | ⟨d, x⟩
      · rwa [← List.nil_append y, ← hs]
      · simp only [Option.map_eq_none'] at h
        exact search_eq_none h x y (List.cons.inj hs).2

/-- `search` answers at the leftmost position where `m` succeeds. -/
theorem search_eq_some : ∀ {s pre : List Char} {b : β}, search m s = some (pre, b) →
    ∃ t, s = pre ++ t ∧ m t = some b ∧ ∀ x y, s = x ++ y → x.length < pre.length → m y = none
  | [], pre, b, h => by
    simp only [search, Option.map_eq_some', Prod.mk.injEq] at h
    obtain ⟨b, hb, rfl, rfl⟩ := h
    exact ⟨[], rfl, hb, fun x _ _ hx => absurd hx (Nat.not_lt_zero _)⟩
  | c :: cs, pre, b, h => by
    simp only [search] at h
    split at h
    · obtain ⟨rfl, rfl⟩ := Prod.mk.inj (Option.some.inj h)
      exact ⟨c :: cs, rfl, by assumption, fun x _ _ hx => absurd hx (Nat.not_lt_zero _)⟩
    · rename_i hm
      simp only [Option.map_eq_some', Prod.mk.injEq] at h
      obtain ⟨⟨p, b'⟩, hp, rfl, rfl⟩ := h
      obtain ⟨t, rfl, ht, hfirst⟩ := search_eq_some hp
      refine ⟨t, rfl, ht, fun x y hs hx => ?_⟩
      rcases x with _ | ⟨d, x⟩
      · rw [← List.nil_append y, ← hs]; exact hm
      · exact hfirst x y (List.cons.inj hs).2 (by simpa using hx)

theorem search_isSome {x y : List Char} (h : (m y).isSome) :
    ∃ pre b, search m (x ++ y) = some (pre, b) ∧ pre.length ≤ x.length := by
  rcases hs : search m (x ++ y) with _ | ⟨pre, b⟩
  · simp [search_eq_none hs x y rfl] at h
  · refine ⟨pre, b, rfl, Nat.not_lt.mp fun hx => ?_⟩
    obtain ⟨_, _, _, hfirst⟩ := search_eq_some hs
    simp [hfirst x y rfl hx] at h

theorem dotStar_eq_none : ∀ {r : List Char}, dotStar false m r = none →
    ∀ x y, r = x ++ y → '\n' ∉ x → m y = none
  | [], h, x, y, hs, _ => by
    obtain ⟨-, rfl⟩ := List.append_eq_nil.mp hs.symm
    simpa [dotStar] using h
  | c :: cs, h, x, y, hs, hx => by
    rcases x with _ | ⟨d, x⟩
    · simp only [List.nil_append] at hs
      subst hs
      simp only [dotStar] at h
      split_ifs at h
      · simpa using h
      · split at h <;> simp_all
    · obtain ⟨rfl, hcs⟩ := List.cons.inj hs
      have hc : c ≠ '\n' := fun hd => hx (hd ▸ List.mem_cons_self _ _)
      simp only [dotStar, hc, false_and, if_false] at h
      split at h
      · simp at h
      · exact dotStar_eq_none (by assumption) x y hcs (fun hn => hx (List.mem_cons_of_mem _ hn))

/-- A greedy `.*` answers after the longest run without a newline after which `m`
succeeds. -/
theorem dotStar_eq_some : ∀ {r run : List Char} {b : β}, dotStar false m r = some (run, b) →
    '\n' ∉ run ∧ ∃ t, r = run ++ t ∧ m t = some b ∧
      ∀ x y, r = x ++ y → run.length < x.length → '\n' ∉ x → m y = none
  | [], run, b, h => by
    simp only [dotStar, Option.map_eq_some', Prod.mk.injEq] at h
    obtain ⟨b, hb, rfl, rfl⟩ := h
    refine ⟨List.not_mem_nil _, [], rfl, hb, fun x y hs hx => ?_⟩
    simp [(List.append_eq_nil.mp hs.symm).1] at hx
  | c :: cs, run, b, h => by
    by_cases hc : c = '\n'
    · simp only [dotStar, hc, Bool.not_false, and_self, if_true, Option.map_eq_some',
        Prod.mk.injEq] at h
      obtain ⟨b, hb, rfl, rfl⟩ := h
      refine ⟨List.not_mem_nil _, _, rfl, hc ▸ hb, fun x y hs hx hn => ?_⟩
      rcases x with _ | ⟨d, x⟩
      · exact absurd hx (Nat.lt_irrefl 0)
      · exact absurd ((List.cons.inj hs).1 ▸ hc ▸ List.mem_cons_self _ _) hn
    · simp only [dotStar, hc, false_and, if_false] at h
      split at h
      · rename_i p hp
        obtain ⟨rfl, rfl⟩ := Prod.mk.inj (Option.some.inj h)
        obtain ⟨hrun, t, rfl, ht, hlast⟩ := dotStar_eq_some hp
        refine ⟨by simp [Ne.symm hc, hrun], t, rfl, ht, fun x y hs hx hn => ?_⟩
        rcases x with _ | ⟨d, x⟩
        · exact absurd hx (Nat.not_lt_zero _)
        · exact hlast x y (List.cons.inj hs).2 (by simpa using hx)
            (fun h' => hn (List.mem_cons_of_mem _ h'))
      · rename_i hnone
        simp only [Option.map_eq_some', Prod.mk.injEq] at h
        obtain ⟨b, hb, rfl, rfl⟩ := h
        refine ⟨List.not_mem_nil _, _, rfl, hb, fun x y hs _ hn => ?_⟩
        rcases x with _ | ⟨d, x⟩
        · simp at *
        · exact dotStar_eq_none hnone x y (List.cons.inj hs).2
            (fun h' => hn (List.mem_cons_of_mem _ h'))

theorem dotStar_isSome {x y : List Char} (hx : '\n' ∉ x) (h : (m y).isSome) :
    ∃ run b, dotStar false m (x ++ y) = some (run, b) ∧ x.length ≤ run.length := by
  rcases hd : dotStar false m (x ++ y) with _ | ⟨run, b⟩
  · simp [dotStar_eq_none hd x y rfl hx] at h
  · refine ⟨run, b, rfl, Nat.not_lt.mp fun hlt => ?_⟩
    obtain ⟨_, _, _, _, hlast⟩ := dotStar_eq_some hd
    simp [hlast x y rfl hlt hx] at h

/-- Two patterns after the same `.*`, the second succeeding only where the first does: where
the second succeeds after the first one's run, it answers with that run. -/
theorem dotStar_of_last {γ : Type} {m' : List Char → Option γ}
    (hmono : ∀ t, (m' t).isSome → (m t).isSome) {r run t : List Char} {b : β} {b' : γ}
    (h : dotStar false m r = some (run, b)) (hr : r = run ++ t) (h' : m' t = some b') :
    dotStar false m' r = some (run, b') := by
  subst hr
  obtain ⟨hrun, -, -, -, hlast⟩ := dotStar_eq_some h
  obtain ⟨run', b'', hd, hle⟩ := dotStar_isSome (m := m') hrun (y := t) (by simp [h'])
  obtain ⟨hrun', t', hr', ht', -⟩ := dotStar_eq_some hd
  have heq : run'.length = run.length := by
    refine le_antisymm (Nat.not_lt.mp fun hlt => ?_) hle
    have := hmono t' (by simp [ht'])
    simp [hlast run' t' hr' hlt hrun'] at this
  obtain ⟨rfl, rfl⟩ := List.append_inj hr' heq.symm
  rw [hd, ← Option.some.inj (ht'.symm.trans h')]

end Positions

/-! ### What a literal reads -/

theorem ciStrip_of_map_toLower : ∀ {pat k : List Char}, k.map Char.toLower = pat.map Char.toLower →
    ∀ z, ciStrip pat (k ++ z) = some z
  | [], [], _, _ => rfl
  | [], _ :: _, h, _ => by simp at h
  | _ :: _, [], h, _ => by simp at h
  | p :: ps, c :: cs, h, z => by
    simp only [List.map_cons, List.cons.injEq] at h
    simp [ciStrip, ciEq, h.1, ciStrip_of_map_toLower h.2]

theorem ciStrip_eq_some : ∀ {pat s r : List Char}, ciStrip pat s = some r →
    ∃ k, s = k ++ r ∧ k.map Char.toLower = pat.map Char.toLower
  | [], s, r, h => ⟨[], by simpa [ciStrip] using h, rfl⟩
  | _ :: _, [], _, h => by simp [ciStrip] at h
  | p :: ps, c :: cs, r, h => by
    simp only [ciStrip, ciEq] at h
    split_ifs at h with hc
    obtain ⟨k, rfl, hk⟩ := ciStrip_eq_some h
    exact ⟨c :: k, rfl, by simp [hk, (beq_iff_eq.mp hc).symm]⟩

theorem dropSpaces_eq (s : List Char) :
    ∃ k, s = k ++ dropSpaces s ∧ (∀ c ∈ k, c = ' ') ∧
      ∀ z, z.head? ≠ some ' ' → dropSpaces (k ++ z) = z := by
  have hk : ∀ c ∈ s.takeWhile (· = ' '), c = ' ' := fun c hc => by
    simpa using List.mem_takeWhile_imp hc
  refine ⟨_, (List.takeWhile_append_dropWhile _ s).symm, hk, fun z hz => ?_⟩
  rw [dropSpaces, List.dropWhile_append_of_pos (fun c hc => by simpa using hk c hc)]
  cases z <;> simp_all

theorem dropSpaces_head (s : List Char) : (dropSpaces s).head? ≠ some ' ' := by
  induction s with
  | nil => simp [dropSpaces]
  | cons c s ih => by_cases hc : c = ' ' <;> simp_all [dropSpaces, List.dropWhile_cons]

theorem ciStrip_dropSpaces_eq_some {pat s r : List Char} (hne : pat ≠ [])
    (hp : ∀ p ∈ pat.head?, p.toLower ≠ ' ') (h : ciStrip pat (dropSpaces s) = some r) :
    ∃ k, s = k ++ r ∧ k ≠ [] ∧ (∀ c ∈ k, c.toLower ∈ ' ' :: pat.map Char.toLower) ∧
      ∀ z, ciStrip pat (dropSpaces (k ++ z)) = some z := by
  obtain ⟨k₀, hs, hk₀, hdrop⟩ := dropSpaces_eq s
  obtain ⟨k, hr, hk⟩ := ciStrip_eq_some h
  have hk' : k ≠ [] := fun h => hne (by simpa [h] using hk.symm)
  refine ⟨k₀ ++ k, by rw [hs, hr, List.append_assoc], by simp [hk'], fun d hd => ?_, fun z => ?_⟩
  · rcases List.mem_append.mp hd with hd | hd
    · simp [hk₀ d hd]
    · exact List.mem_cons_of_mem _ (hk ▸ List.mem_map_of_mem _ hd)
  · have hhead : (k ++ z).head? ≠ some ' ' := by
      obtain ⟨p, ps, rfl⟩ := List.exists_cons_of_ne_nil hne
      obtain ⟨c, k, rfl⟩ := List.exists_cons_of_ne_nil hk'
      have hc : c.toLower = p.toLower := (List.cons.inj hk).1
      simp only [List.cons_append, List.head?_cons, ne_eq, Option.some.injEq]
      rintro rfl
      exact hp p rfl (hc ▸ rfl)
    rw [List.append_assoc, hdrop _ hhead, ciStrip_of_map_toLower hk]

end RecollFilters.Markup
