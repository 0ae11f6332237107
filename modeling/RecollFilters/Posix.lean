import RecollFilters.Python
import Mathlib.Data.List.Basic

/-! # `posixpath` on byte strings

`basename`, `dirname`, `join` and `normpath` as CPython's `posixpath` computes them on
`bytes`. The one property the filters rely on is that `normpath` is idempotent: the CHM
walker checks a normalised path against its list and then records it normalised again.
-/

namespace RecollFilters.Posix

set_option autoImplicit false

def basename (p : Bytes) : Bytes := (p.reverse.takeWhile (· ≠ '/')).reverse

/-- `posixpath.dirname`: up to the last `/`, trailing slashes removed unless it is all slashes. -/
def dirname (p : Bytes) : Bytes :=
  let head := (p.reverse.dropWhile (· ≠ '/')).reverse
  if head ≠ [] ∧ ¬head.all (· = '/') then rstrip ['/'] head else head

def join (a b : Bytes) : Bytes :=
  if ['/'].isPrefixOf b then b
  else if a = [] ∨ a.getLast? = some '/' then a ++ b
  else a ++ '/' :: b

/-- The leading slashes `normpath` keeps: one, or two when exactly two are given. -/
def initialSlashes (p : Bytes) : Nat :=
  if ['/', '/'].isPrefixOf p ∧ ¬['/', '/', '/'].isPrefixOf p then 2
  else if ['/'].isPrefixOf p then 1 else 0

def normStep (initial : Nat) (acc : List Bytes) (comp : Bytes) : List Bytes :=
  if comp = [] ∨ comp = ['.'] then acc
  else if comp ≠ ['.', '.'] ∨ (initial = 0 ∧ acc = []) ∨ acc.head? = some ['.', '.'] then
    comp :: acc
  else acc.tail

def normComps (initial : Nat) (comps : List Bytes) : List Bytes :=
  (comps.foldl (normStep initial) []).reverse

def normpath (p : Bytes) : Bytes :=
  if p = [] then ['.']
  else
    let k := initialSlashes p
    let path := List.replicate k '/' ++ ['/'].intercalate (normComps k (split '/' p))
    if path = [] then ['.'] else path

/-! ### The shape of a normalised path -/

/-- The components `normpath` can leave: none empty, `.` or holding `/`, and `..` only as a
leading run, with none at all under a leading slash. Kept reversed, as the loop's stack. -/
structure Normal (initial : Nat) (acc : List Bytes) : Prop where
  comp : ∀ c ∈ acc, c ≠ [] ∧ c ≠ ['.'] ∧ '/' ∉ c
  rooted : initial ≠ 0 → ['.', '.'] ∉ acc
  dotdot : ∃ rest j, acc = rest ++ List.replicate j ['.', '.'] ∧ ['.', '.'] ∉ rest

theorem normal_nil (initial : Nat) : Normal initial [] :=
  ⟨by simp, by simp, ⟨[], 0, rfl, by simp⟩⟩

theorem normStep_normal {initial : Nat} {acc : List Bytes} (h : Normal initial acc)
    (comp : Bytes) (hc : '/' ∉ comp) : Normal initial (normStep initial acc comp) := by
  obtain ⟨rest, j, hacc, hrest⟩ := h.dotdot
  unfold normStep
  split_ifs with h1 h2
  · exact h
  · refine ⟨?_, ?_, ?_⟩
    · intro c hc'
      rcases List.mem_cons.mp hc' with rfl | hc'
      · exact ⟨fun e => h1 (.inl e), fun e => h1 (.inr e), hc⟩
      · exact h.comp c hc'
    · intro hi hmem
      rcases List.mem_cons.mp hmem with e | hmem
      · subst e
        rcases h2 with h2 | h2 | h2
        · exact h2 rfl
        · exact hi h2.1
        · exact h.rooted hi (List.mem_of_mem_head? h2)
      · exact h.rooted hi hmem
    · by_cases hd : comp = ['.', '.']
      · subst hd
        rcases h2 with h2 | h2 | h2
        · exact absurd rfl h2
        · exact ⟨[], 1, by simp [h2.2], by simp⟩
        · cases rest with
          | nil => exact ⟨[], j + 1, by simp [hacc, List.replicate_succ], by simp⟩
          | cons a rest =>
            subst hacc
            simp only [List.cons_append, List.head?_cons, Option.some.injEq] at h2
            exact absurd (h2 ▸ List.mem_cons_self _ _) hrest
      · exact ⟨comp :: rest, j, by simp [hacc], by simp [Ne.symm hd, hrest]⟩
  · refine ⟨fun c hc' => h.comp c (List.mem_of_mem_tail hc'), fun hi hm => h.rooted hi
      (List.mem_of_mem_tail hm), ?_⟩
    cases rest with
    | nil => exact ⟨[], j - 1, by simp [hacc, List.tail_replicate], by simp⟩
    | cons a rest =>
      exact ⟨rest, j, by simp [hacc], fun hm => hrest (List.mem_cons_of_mem _ hm)⟩

theorem normal_foldl {k : Nat} {acc : List Bytes} (h : Normal k acc) (comps : List Bytes)
    (hc : ∀ c ∈ comps, '/' ∉ c) : Normal k (comps.foldl (normStep k) acc) := by
  induction comps generalizing acc with
  | nil => exact h
  | cons c cs ih =>
    exact ih (normStep_normal h c (hc c (List.mem_cons_self _ _)))
      (fun x hx => hc x (List.mem_cons_of_mem _ hx))

theorem not_mem_of_mem_splitOn {a : Char} {l x : List Char} (hx : x ∈ l.splitOn a) : a ∉ x := by
  induction l generalizing x with
  | nil => simp_all
  | cons b l ih =>
    simp only [List.splitOn, List.splitOnP_cons] at hx ih
    split_ifs at hx with hb
    · rcases List.mem_cons.mp hx with rfl | hx
      · simp
      · exact ih hx
    · obtain ⟨y, t, hyt⟩ := List.exists_cons_of_ne_nil (List.splitOnP_ne_nil (· == a) l)
      rw [hyt] at hx ih
      simp only [List.modifyHead_cons, List.mem_cons] at hx
      rcases hx with rfl | hx
      · simp only [beq_iff_eq] at hb
        exact fun hm => (List.mem_cons.mp hm).elim (fun e => hb e.symm)
          (ih (List.mem_cons_self _ _))
      · exact ih (List.mem_cons_of_mem _ hx)

theorem foldl_normStep_dotdot (j : Nat) :
    (List.replicate j ['.', '.']).foldl (normStep 0) [] = List.replicate j ['.', '.'] := by
  suffices ∀ i, (List.replicate j ['.', '.']).foldl (normStep 0) (List.replicate i ['.', '.']) =
      List.replicate (j + i) ['.', '.'] by simpa using this 0
  induction j with
  | zero => simp
  | succ j ih =>
    intro i
    have hstep : normStep 0 (List.replicate i ['.', '.']) ['.', '.'] =
        List.replicate (i + 1) ['.', '.'] := by
      cases i <;> simp [normStep, List.replicate_succ]
    rw [List.replicate_succ, List.foldl_cons, hstep, ih]
    congr 1
    omega

theorem foldl_normStep_plain (k : Nat) (acc rest : List Bytes)
    (h : ∀ c ∈ rest, c ≠ [] ∧ c ≠ ['.'] ∧ c ≠ ['.', '.']) :
    rest.foldl (normStep k) acc = rest.reverse ++ acc := by
  induction rest generalizing acc with
  | nil => rfl
  | cons c rest ih =>
    obtain ⟨h1, h2, h3⟩ := h c (List.mem_cons_self _ _)
    rw [List.foldl_cons, ih _ (fun x hx => h x (List.mem_cons_of_mem _ hx))]
    simp [normStep, h1, h2, h3]

theorem foldl_normStep_empty (k m : Nat) (acc : List Bytes) :
    (List.replicate m ([] : Bytes)).foldl (normStep k) acc = acc := by
  induction m generalizing acc with
  | zero => rfl
  | succ m ih => simp [List.replicate_succ, normStep, ih]

theorem normComps_normal {k : Nat} {cs : List Bytes} (h : Normal k cs.reverse) :
    normComps k cs = cs := by
  obtain ⟨rest, j, hcs, hrest⟩ := h.dotdot
  have hcs' : cs = List.replicate j ['.', '.'] ++ rest.reverse := by
    simpa using congrArg List.reverse hcs
  have hplain : ∀ c ∈ rest.reverse, c ≠ [] ∧ c ≠ ['.'] ∧ c ≠ ['.', '.'] := by
    intro c hc
    have hc' : c ∈ cs.reverse := by
      rw [hcs]; exact List.mem_append_left _ (List.mem_reverse.mp hc)
    exact ⟨(h.comp c hc').1, (h.comp c hc').2.1, fun e => hrest (e ▸ List.mem_reverse.mp hc)⟩
  have hk : j = 0 ∨ k = 0 := by
    rcases Nat.eq_zero_or_pos j with hj | hj
    · exact .inl hj
    · refine .inr (Decidable.byContradiction fun hk => h.rooted hk ?_)
      rw [hcs]
      exact List.mem_append_right _ (List.mem_replicate.mpr ⟨by omega, rfl⟩)
  unfold normComps
  rw [hcs', List.foldl_append]
  rcases hk with rfl | rfl
  · simp [foldl_normStep_plain _ _ _ hplain]
  · rw [foldl_normStep_dotdot, foldl_normStep_plain _ _ _ hplain]
    simp

theorem initialSlashes_le (p : Bytes) : initialSlashes p ≤ 2 := by
  unfold initialSlashes
  split_ifs <;> omega

theorem initialSlashes_replicate_append {k : Nat} (hk : k ≤ 2) {X : Bytes}
    (hX : X.head? ≠ some '/') : initialSlashes (List.replicate k '/' ++ X) = k := by
  obtain rfl | rfl | rfl : k = 0 ∨ k = 1 ∨ k = 2 := by omega
  all_goals
    cases X with
    | nil => decide
    | cons x X =>
      simp only [List.head?_cons, ne_eq, Option.some.injEq] at hX
      simp [initialSlashes, Ne.symm hX]

theorem split_replicate_append (k : Nat) (X : Bytes) :
    split '/' (List.replicate k '/' ++ X) = List.replicate k [] ++ split '/' X := by
  induction k with
  | zero => rfl
  | succ k ih =>
    simp only [split, List.replicate_succ, List.cons_append, List.splitOn, List.splitOnP_cons,
      beq_self_eq_true, if_true] at ih ⊢
    rw [ih]

theorem head?_intercalate_ne {cs : List Bytes} (h : ∀ c ∈ cs, c ≠ [] ∧ '/' ∉ c) :
    (['/'].intercalate cs).head? ≠ some '/' := by
  cases cs with
  | nil => exact fun h => Option.noConfusion h
  | cons c cs =>
    obtain ⟨hne, hsl⟩ := h c (List.mem_cons_self _ _)
    obtain ⟨x, c', rfl⟩ := List.exists_cons_of_ne_nil hne
    have hx : x ≠ '/' := fun e => hsl (e ▸ List.mem_cons_self x c')
    cases cs with
    | nil =>
      have h1 : (['/'].intercalate [x :: c']).head? = some x := rfl
      simpa [h1] using hx
    | cons d cs => simpa [List.intercalate, List.intersperse_cons_cons] using hx

theorem normpath_dot : normpath ['.'] = ['.'] := by decide

/-- `posixpath.normpath` is idempotent. -/
theorem normpath_normpath (p : Bytes) : normpath (normpath p) = normpath p := by
  by_cases hp : p = []
  · subst hp
    exact normpath_dot
  set k := initialSlashes p with hkdef
  set cs := normComps k (split '/' p) with hcsdef
  have hN : Normal k cs.reverse := by
    rw [hcsdef, normComps, List.reverse_reverse]
    exact normal_foldl (normal_nil k) _ (fun c hc => not_mem_of_mem_splitOn hc)
  have hcomp : ∀ c ∈ cs, c ≠ [] ∧ '/' ∉ c := fun c hc =>
    ⟨(hN.comp c (List.mem_reverse.mpr hc)).1, (hN.comp c (List.mem_reverse.mpr hc)).2.2⟩
  have hval : normpath p =
      if List.replicate k '/' ++ ['/'].intercalate cs = [] then ['.']
      else List.replicate k '/' ++ ['/'].intercalate cs := by
    simp only [normpath, hp, if_false, hkdef, hcsdef]
  by_cases hq : List.replicate k '/' ++ ['/'].intercalate cs = []
  · rw [hval, if_pos hq, normpath_dot]
  rw [hval, if_neg hq]
  have hk : initialSlashes (List.replicate k '/' ++ ['/'].intercalate cs) = k :=
    initialSlashes_replicate_append (initialSlashes_le p) (head?_intercalate_ne hcomp)
  have hsplit : split '/' (List.replicate k '/' ++ ['/'].intercalate cs) =
      List.replicate k [] ++ (if cs = [] then [[]] else cs) := by
    rw [split_replicate_append]
    split_ifs with hc
    · rw [hc]
      rfl
    · rw [split, List.splitOn_intercalate cs '/' (fun c hc => (hcomp c hc).2) hc]
  have hcomps : normComps k (split '/' (List.replicate k '/' ++ ['/'].intercalate cs)) = cs := by
    rw [hsplit, normComps, List.foldl_append, foldl_normStep_empty]
    split_ifs with hc
    · simp [hc, normStep]
    · exact normComps_normal hN
  simp only [normpath, hq, if_false, hk, hcomps]

end RecollFilters.Posix
