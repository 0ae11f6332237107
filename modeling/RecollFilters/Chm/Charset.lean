import RecollFilters.Chm.File

/-! # The charset `fixencoding` decodes with

`rclCHM.fixencoding` rewrites the value of the declaration `asciito1252re` matches first to
`windows-1252`, then decodes with the charset of the declaration `findcharsetre` matches first.
Both patterns start with `<meta *http-equiv *= *"content-type".*`: each takes the leftmost such
tag and, by the greedy `.*`, the last declaration of its line that the rest of the pattern
accepts, and a declaration `asciito1252re` accepts is one `findcharsetre` accepts. What either
pattern reads of a declaration stops before a `w`, so a match of the rewritten text is one of
the original text. The two choices therefore agree: the charset is never an ASCII name, and it
is `windows-1252` whenever the first declaration of the original text names ASCII.
-/

namespace RecollFilters.Chm

set_option autoImplicit false

open Markup

/-! ### Characters -/

theorem isCharsetChar_toLower (c : Char) : isCharsetChar c.toLower = isCharsetChar c := by
  unfold Char.toLower
  dsimp only
  split_ifs with h
  · -- an upper-case letter and the lower-case one are both in the class
    have hn : (Char.ofNat (c.toNat + 32)).toNat = c.toNat + 32 := toNat_ofNat_of_lt (by omega)
    have hu : c.isUpper = true := by
      simp only [Char.isUpper, Bool.and_eq_true, decide_eq_true_eq]; exact h
    have hl : (Char.ofNat (c.toNat + 32)).isLower = true := by
      simp only [Char.isLower, Bool.and_eq_true, decide_eq_true_eq]
      show 97 ≤ (Char.ofNat (c.toNat + 32)).toNat ∧ (Char.ofNat (c.toNat + 32)).toNat ≤ 122
      omega
    simp only [isCharsetChar, Char.isAlphanum, Char.isAlpha, hu, hl, Bool.true_or, Bool.or_true]
  · rfl

/-! ### What each part of the patterns reads -/

/-- What `asciito1252re` matches after its `.*`: the value it replaces and the value's length. -/
def asciiDecl (t : List Char) : Option (List Char × Nat) :=
  (charsetHead t).bind fun u => (asciiValue u).map fun n => (u, n)

/-- What `findcharsetre` matches after its `.*`: the charset name. -/
def charsetDecl (t : List Char) : Option (List Char) := (charsetHead t).bind charsetValue

/-- A name that is `ascii` or `us-ascii` in some letter case. -/
def asciiName (v : Bytes) : Bool :=
  v.map Char.toLower == "ascii".toList || v.map Char.toLower == "us-ascii".toList

theorem asciiName_chars {v : Bytes} (h : asciiName v) :
    v ≠ [] ∧ 'w' ∉ v ∧ ∀ c ∈ v, isCharsetChar c := by
  have key : ∀ L : List Char, v.map Char.toLower = L → (∀ x ∈ L, x ≠ 'w' ∧ isCharsetChar x) →
      L ≠ [] → v ≠ [] ∧ 'w' ∉ v ∧ ∀ c ∈ v, isCharsetChar c := by
    rintro L hL hx hne
    refine ⟨fun hv => hne (by simp [← hL, hv]), fun hw => ?_, fun c hc => ?_⟩
    · exact (hx _ (hL ▸ List.mem_map_of_mem Char.toLower hw)).1 rfl
    · rw [← isCharsetChar_toLower]; exact (hx _ (hL ▸ List.mem_map_of_mem Char.toLower hc)).2
  simp only [asciiName, Bool.or_eq_true, beq_iff_eq] at h
  rcases h with h | h <;> exact key _ h (by decide) (by decide)

theorem charsetHead_cons_none {c : Char} (hc : c.toLower ≠ 'c') (s : List Char) :
    charsetHead (c :: s) = none := by
  simp [charsetHead, ciStrip, ciEq, Ne.symm hc]

theorem metaHead_eq_some {s r : List Char} (h : metaHead s = some r) :
    ∃ hd, s = hd ++ r ∧ 'w' ∉ hd ∧ ∀ z, metaHead (hd ++ z) = some z := by
  simp only [metaHead, Option.bind_eq_some] at h
  obtain ⟨r₁, h₁, r₂, h₂, r₃, h₃, h₄⟩ := h
  obtain ⟨k₁, rfl, hk₁⟩ := ciStrip_eq_some h₁
  obtain ⟨k₂, rfl, -, hc₂, hk₂⟩ := ciStrip_dropSpaces_eq_some (by decide) (by decide) h₂
  obtain ⟨k₃, rfl, -, hc₃, hk₃⟩ := ciStrip_dropSpaces_eq_some (by decide) (by decide) h₃
  obtain ⟨k₄, rfl, -, hc₄, hk₄⟩ := ciStrip_dropSpaces_eq_some (by decide) (by decide) h₄
  refine ⟨k₁ ++ k₂ ++ k₃ ++ k₄, by simp, fun hw => ?_, fun z => ?_⟩
  · simp only [List.mem_append] at hw
    rcases hw with ((hw | hw) | hw) | hw
    · exact absurd (hk₁ ▸ List.mem_map_of_mem Char.toLower hw) (by decide)
    · exact absurd (hc₂ _ hw) (by decide)
    · exact absurd (hc₃ _ hw) (by decide)
    · exact absurd (hc₄ _ hw) (by decide)
  · simp only [metaHead, List.append_assoc, ciStrip_of_map_toLower hk₁, Option.some_bind, hk₂, hk₃,
      hk₄]

theorem append_split_of_not_mem {hd r x y : List Char} {c : Char} (he : hd ++ r = x ++ c :: y)
    (hc : c ∉ hd) : ∃ x₁, x = hd ++ x₁ ∧ r = x₁ ++ c :: y := by
  rcases List.append_eq_append_iff.mp he with ⟨x₁, rfl, hr⟩ | ⟨e, rfl, hy⟩
  · exact ⟨x₁, rfl, hr⟩
  · -- `hd` reaches past `x`
    rcases e with _ | ⟨d, e⟩
    · exact ⟨[], by simp, by simpa using hy.symm⟩
    · exact absurd (by rw [(List.cons.inj hy).1]; exact List.mem_append_right _ (List.mem_cons_self d e)) hc

theorem charsetHead_eq_some {t u : List Char} (h : charsetHead t = some u) :
    ∃ hd, t = hd ++ u ∧ hd ≠ [] ∧ 'w' ∉ hd ∧ '\n' ∉ hd ∧ (∀ c ∈ hd.tail, c.toLower ≠ 'c') ∧
      u.head? ≠ some ' ' ∧ ∀ z, z.head? ≠ some ' ' → charsetHead (hd ++ z) = some z := by
  simp only [charsetHead, Option.bind_eq_some, Option.map_eq_some'] at h
  obtain ⟨r₁, h₁, r₂, h₂, rfl⟩ := h
  obtain ⟨k₁, rfl, hk₁⟩ := ciStrip_eq_some h₁
  obtain ⟨k₂, rfl, -, hc₂, hk₂⟩ := ciStrip_dropSpaces_eq_some (by decide) (by decide) h₂
  obtain ⟨k₃, hs, hc₃, hdrop⟩ := dropSpaces_eq r₂
  obtain ⟨c₀, k₁, rfl⟩ := List.exists_cons_of_ne_nil (fun h : k₁ = [] => by simp [h] at hk₁)
  have hk₁' : k₁.map Char.toLower = "harset".toList := (List.cons.inj hk₁).2.trans (by decide)
  have hc₁ : ∀ c ∈ k₁, c.toLower ∈ "harset".toList := fun c hc => hk₁' ▸ List.mem_map_of_mem _ hc
  have hc₀ : c₀.toLower = 'c' := (List.cons.inj hk₁).1
  have hmid : ∀ c ∈ k₁ ++ k₂ ++ k₃, c.toLower ∈ "harset= ".toList := by
    intro c hc
    simp only [List.mem_append] at hc
    rcases hc with (hc | hc) | hc
    · exact (by decide : ∀ x ∈ "harset".toList, x ∈ "harset= ".toList) _ (hc₁ c hc)
    · exact (by decide : ∀ x ∈ [' ', '='], x ∈ "harset= ".toList) _ (hc₂ c hc)
    · simp [hc₃ c hc]
  refine ⟨c₀ :: (k₁ ++ k₂ ++ k₃), ?_, by simp, fun hw => ?_, fun hn => ?_,
    fun c hc => ?_, dropSpaces_head r₂, fun z hz => ?_⟩
  · simp only [List.append_assoc, List.cons_append]
    rw [← hs]
  · rcases List.mem_cons.mp hw with hw | hw
    · exact absurd (hw ▸ hc₀) (by decide)
    · exact absurd (hmid _ hw) (by decide)
  · rcases List.mem_cons.mp hn with hn | hn
    · exact absurd (hn ▸ hc₀) (by decide)
    · exact absurd (hmid _ hn) (by decide)
  · exact fun h => absurd (h ▸ hmid c hc) (by decide)
  · have h₁' : ciStrip "charset".toList ((c₀ :: k₁) ++ (k₂ ++ (k₃ ++ z))) = some (k₂ ++ (k₃ ++ z)) :=
      ciStrip_of_map_toLower hk₁ _
    simp only [charsetHead, List.append_assoc, List.cons_append] at h₁' ⊢
    simp only [h₁', Option.some_bind, hk₂, Option.map_some', hdrop z hz]

theorem closesTag_eq_true {s : List Char} (h : closesTag s = true) :
    ∃ k rest, s = k ++ rest ∧ k ≠ [] ∧ (∀ c ∈ k, c ≠ 'w' ∧ c ≠ '\n' ∧ isCharsetChar c = false) ∧
      ∀ z, closesTag (k ++ z) = true := by
  simp only [closesTag, Option.isSome_iff_exists, Option.bind_eq_some] at h
  obtain ⟨r, r₁, h₁, h₂⟩ := h
  obtain ⟨k₁, rfl, hne, hc₁, hk₁⟩ := ciStrip_dropSpaces_eq_some (by decide) (by decide) h₁
  obtain ⟨k₂, rfl, -, hc₂, hk₂⟩ := ciStrip_dropSpaces_eq_some (by decide) (by decide) h₂
  have hc : ∀ c ∈ k₁ ++ k₂, c.toLower ∈ " \">".toList := by
    intro c hc
    rcases List.mem_append.mp hc with hc | hc
    · exact (by decide : ∀ x ∈ [' ', '"'], x ∈ " \">".toList) _ (hc₁ c hc)
    · exact (by decide : ∀ x ∈ [' ', '>'], x ∈ " \">".toList) _ (hc₂ c hc)
  refine ⟨k₁ ++ k₂, r, by simp, by simp [hne], fun c hc' => ⟨?_, ?_, ?_⟩, fun z => ?_⟩
  · exact fun h => absurd (h ▸ hc c hc') (by decide)
  · exact fun h => absurd (h ▸ hc c hc') (by decide)
  · rw [← isCharsetChar_toLower]
    exact (by decide : ∀ x ∈ " \">".toList, isCharsetChar x = false) _ (hc c hc')
  · simp only [closesTag, List.append_assoc, hk₁, Option.some_bind, hk₂, Option.isSome_some]

theorem charsetValue_of {v w : List Char} (hv : ∀ c ∈ v, isCharsetChar c) (hne : v ≠ [])
    (hw : closesTag w = true) : charsetValue (v ++ w) = some v := by
  obtain ⟨k, rest, rfl, hk, hc, -⟩ := closesTag_eq_true hw
  obtain ⟨c, k, rfl⟩ := List.exists_cons_of_ne_nil hk
  have hrun : (v ++ (c :: k ++ rest)).takeWhile isCharsetChar = v := by
    rw [List.takeWhile_append_of_pos hv, List.cons_append,
      List.takeWhile_cons_of_neg (by simp [(hc c (List.mem_cons_self c k)).2.2]), List.append_nil]
  unfold charsetValue
  simp only [hrun, List.drop_left]
  exact if_pos ⟨hne, hw⟩

theorem charsetValue_eq_some {u v : List Char} (h : charsetValue u = some v) :
    u = v ++ u.drop v.length ∧ v = u.takeWhile isCharsetChar ∧ v ≠ [] ∧
      closesTag (u.drop v.length) = true := by
  simp only [charsetValue] at h
  split_ifs at h with hc
  obtain rfl := Option.some.inj h
  obtain ⟨t, ht⟩ := List.takeWhile_prefix isCharsetChar (l := u)
  have hdrop : u.drop (u.takeWhile isCharsetChar).length = t := by
    conv_lhs => arg 2; rw [← ht]
    exact List.drop_left _ t
  exact ⟨by rw [hdrop, ht], rfl, hc⟩

theorem asciiValue_of_asciiName {v w : List Char} (hv : asciiName v = true)
    (hw : closesTag w = true) : asciiValue (v ++ w) = some v.length := by
  simp only [asciiName, Bool.or_eq_true, beq_iff_eq] at hv
  rcases hv with hv | hv
  · -- `ascii`: the `us-ascii` alternative fails at the first character
    have hus : ciStrip "us-ascii".toList (v ++ w) = none := by
      obtain ⟨c, v', rfl⟩ := List.exists_cons_of_ne_nil (fun h : v = [] => by simp [h] at hv)
      have hc : c.toLower = 'a' := (List.cons.inj hv).1
      simp [ciStrip, ciEq, hc]
    have hlen : v.length = 5 := by simpa using congrArg List.length hv
    simp only [asciiValue, hus, ciStrip_of_map_toLower
      (hv.trans (by decide : "ascii".toList = "ascii".toList.map Char.toLower)) w,
      hw, if_true, hlen]
  · have hlen : v.length = 8 := by simpa using congrArg List.length hv
    simp only [asciiValue, ciStrip_of_map_toLower
      (hv.trans (by decide : "us-ascii".toList = "us-ascii".toList.map Char.toLower)) w,
      hw, if_true, hlen]

theorem asciiValue_eq_some {u : List Char} {n : Nat} (h : asciiValue u = some n) :
    ∃ v w, u = v ++ w ∧ n = v.length ∧ asciiName v = true ∧ closesTag w = true := by
  unfold asciiValue at h
  split at h
  · rename_i r hr
    split_ifs at h with hcl
    obtain ⟨v, rfl, hv⟩ := ciStrip_eq_some hr
    refine ⟨v, r, rfl, ?_, by simp [asciiName, hv.trans (by decide : _ = "us-ascii".toList)], hcl⟩
    rw [← Option.some.inj h]; simpa using (congrArg List.length hv).symm
  · split at h
    · rename_i r hr
      split_ifs at h with hcl
      obtain ⟨v, rfl, hv⟩ := ciStrip_eq_some hr
      refine ⟨v, r, rfl, ?_, by simp [asciiName, hv.trans (by decide : _ = "ascii".toList)], hcl⟩
      rw [← Option.some.inj h]; simpa using (congrArg List.length hv).symm
    · simp at h

theorem asciiDecl_eq_some {t u : List Char} {n : Nat} :
    asciiDecl t = some (u, n) ↔ charsetHead t = some u ∧ asciiValue u = some n := by
  simp only [asciiDecl, Option.bind_eq_some, Option.map_eq_some', Prod.mk.injEq]
  constructor
  · rintro ⟨u', hu, n', hn, rfl, rfl⟩; exact ⟨hu, hn⟩
  · rintro ⟨hu, hn⟩; exact ⟨u, hu, n, hn, rfl, rfl⟩

theorem charsetDecl_of_asciiDecl {t u : List Char} {n : Nat} (h : asciiDecl t = some (u, n)) :
    charsetDecl t = some (u.take n) := by
  obtain ⟨hh, hv⟩ := asciiDecl_eq_some.mp h
  obtain ⟨v, w, rfl, rfl, hname, hcl⟩ := asciiValue_eq_some hv
  obtain ⟨hne, -, hch⟩ := asciiName_chars hname
  rw [charsetDecl, hh, Option.some_bind, charsetValue_of hch hne hcl, List.take_left]

theorem asciiDecl_of_charsetDecl {t v : List Char} (h : charsetDecl t = some v)
    (hv : asciiName v = true) : (asciiDecl t).isSome := by
  simp only [charsetDecl, Option.bind_eq_some] at h
  obtain ⟨u, hh, hval⟩ := h
  obtain ⟨hu, -, -, hcl⟩ := charsetValue_eq_some hval
  simp only [asciiDecl, hh, Option.some_bind]
  rw [hu, asciiValue_of_asciiName hv hcl]
  rfl

theorem charsetHead_windows {f e : List Char} (he : "windows-1252".toList = f ++ e) (hne : e ≠ [])
    (z : List Char) : charsetHead (e ++ z) = none := by
  obtain ⟨c, e, rfl⟩ := List.exists_cons_of_ne_nil hne
  have hc : c ∈ "windows-1252".toList := he ▸ List.mem_append_right f (List.mem_cons_self c e)
  rw [List.cons_append]
  exact charsetHead_cons_none ((by decide : ∀ x ∈ "windows-1252".toList, x.toLower ≠ 'c') c hc) _

theorem windows_append (w : List Char) :
    "windows-1252".toList ++ w = 'w' :: ("indows-1252".toList ++ w) := rfl

/-! ### From the rewritten text back to the original -/

theorem asciiDecl_transfer {x w : List Char} (a : List Char)
    (h : (asciiDecl (x ++ "windows-1252".toList ++ w)).isSome) : (asciiDecl (x ++ a ++ w)).isSome := by
  obtain ⟨⟨u, n⟩, hd⟩ := Option.isSome_iff_exists.mp h
  obtain ⟨hh, hv⟩ := asciiDecl_eq_some.mp hd
  obtain ⟨v, w', rfl, rfl, hname, hcl⟩ := asciiValue_eq_some hv
  obtain ⟨k, rest, rfl, -, hk, hkz⟩ := closesTag_eq_true hcl
  obtain ⟨hd₁, ht, -, hw₁, -, -, -, hstrong⟩ := charsetHead_eq_some hh
  obtain ⟨hvne, hvw, hvch⟩ := asciiName_chars hname
  obtain ⟨x₁, rfl, hx₁⟩ := append_split_of_not_mem (ht.symm.trans (by rw [List.append_assoc, windows_append])) hw₁
  have hwk : 'w' ∉ v ++ k := by
    simp only [List.mem_append, not_or]; exact ⟨hvw, fun h => (hk _ h).1 rfl⟩
  obtain ⟨x₂, rfl, -⟩ := append_split_of_not_mem (by rw [← hx₁, List.append_assoc]) hwk
  have hhead : (v ++ (k ++ (x₂ ++ (a ++ w)))).head? ≠ some ' ' := by
    obtain ⟨c, v, rfl⟩ := List.exists_cons_of_ne_nil hvne
    simpa using fun h => absurd (h ▸ hvch _ (List.mem_cons_self _ _)) (by decide)
  simp only [asciiDecl, List.append_assoc, hstrong _ hhead, Option.some_bind,
    asciiValue_of_asciiName hname (hkz _), Option.map_some', Option.isSome_some]

theorem takeWhile_append_of_not_all {p : Char → Bool} {l : List Char} (h : ∃ c ∈ l, p c = false)
    (l' : List Char) : (l ++ l').takeWhile p = l.takeWhile p := by
  rw [List.takeWhile_append, if_neg]
  intro hlen
  obtain ⟨c, hc, hpc⟩ := h
  have : l.takeWhile p = l := (List.prefix_iff_eq_take.mp (List.takeWhile_prefix p)).trans
    (by rw [hlen, List.take_length])
  exact absurd (List.mem_takeWhile_imp (this ▸ hc)) (by simp [hpc])

theorem charsetDecl_transfer {x w a : List Char} (ha : ∀ c ∈ a, isCharsetChar c) (hane : a ≠ [])
    (hw : closesTag w = true) (h : (charsetDecl (x ++ "windows-1252".toList ++ w)).isSome) :
    (charsetDecl (x ++ a ++ w)).isSome := by
  obtain ⟨v₁, hd⟩ := Option.isSome_iff_exists.mp h
  simp only [charsetDecl, Option.bind_eq_some] at hd
  obtain ⟨u₁, hh, hval⟩ := hd
  obtain ⟨hd₁, ht, -, hw₁, -, -, hu₁, hstrong⟩ := charsetHead_eq_some hh
  obtain ⟨x₃, rfl, rfl⟩ := append_split_of_not_mem (ht.symm.trans (by rw [List.append_assoc, windows_append])) hw₁
  have hhead : (x₃ ++ (a ++ w)).head? ≠ some ' ' := by
    rcases x₃ with _ | ⟨c, x₃⟩
    · obtain ⟨c, a, rfl⟩ := List.exists_cons_of_ne_nil hane
      simpa using fun h => absurd (h ▸ ha _ (List.mem_cons_self _ _)) (by decide)
    · simpa using hu₁
  simp only [charsetDecl, List.append_assoc, hstrong _ hhead, Option.some_bind]
  by_cases hall : ∀ c ∈ x₃, isCharsetChar c
  · -- the name runs through the value
    rw [← List.append_assoc, charsetValue_of (by simp only [List.mem_append]; rintro c (hc | hc) <;> simp_all) (by simp [hane]) hw]
    rfl
  · -- the name ends before the value, and so does the end of the tag
    push_neg at hall
    have hnot : ∃ c ∈ x₃, isCharsetChar c = false := by
      obtain ⟨c, hc, hc'⟩ := hall; exact ⟨c, hc, by simpa using hc'⟩
    obtain ⟨-, hv₁, hne, hcl⟩ := charsetValue_eq_some hval
    rw [← windows_append, takeWhile_append_of_not_all hnot] at hv₁
    have hle : v₁.length ≤ x₃.length := hv₁ ▸ (List.takeWhile_prefix _).length_le
    rw [← windows_append, List.drop_append_of_le_length hle] at hcl
    obtain ⟨k, rest, hk, -, hkc, hkz⟩ := closesTag_eq_true hcl
    have hwk : 'w' ∉ k := fun h => (hkc _ h).1 rfl
    obtain ⟨x₅, hx₅, -⟩ := append_split_of_not_mem (by rw [← hk, windows_append]) hwk
    unfold charsetValue
    simp only [takeWhile_append_of_not_all hnot, ← hv₁, List.drop_append_of_le_length hle, hx₅,
      List.append_assoc, hkz, ne_eq, hne, not_false_eq_true, and_self, if_true, Option.isSome_some]

/-! ### Declarations at a position -/

/-- The declaration a pattern `<meta *http-equiv *= *"content-type".*` followed by `D` finds at
a position: the run its `.*` takes, and `D`'s answer. -/
def declAt {β : Type} (D : List Char → Option β) (p : List Char) : Option (List Char × β) :=
  (metaHead p).bind (dotStar false D)

theorem asciito1252Sub_eq (text : Bytes) : asciito1252Sub text =
    match search (declAt asciiDecl) text with
    | some (_, _, u, n) => text.take (text.length - u.length) ++ "windows-1252".toList ++ u.drop n
    | none => text := rfl

theorem findcharset_eq (text : Bytes) :
    findcharset text = (search (declAt charsetDecl) text).map fun m => m.2.2 := rfl

theorem declAt_ascii_of_charset {p run v : List Char} (h : declAt charsetDecl p = some (run, v))
    (hv : asciiName v = true) : ∃ b, declAt asciiDecl p = some (run, b) := by
  simp only [declAt, Option.bind_eq_some] at h ⊢
  obtain ⟨r, hm, hd⟩ := h
  obtain ⟨-, t, ht, hct, -⟩ := dotStar_eq_some hd
  obtain ⟨b, hb⟩ := Option.isSome_iff_exists.mp (asciiDecl_of_charsetDecl hct hv)
  refine ⟨b, r, hm, dotStar_of_last (fun t ht' => ?_) hd ht hb⟩
  obtain ⟨⟨u, n⟩, h'⟩ := Option.isSome_iff_exists.mp ht'
  simp [charsetDecl_of_asciiDecl h']

theorem declAt_charset_of_ascii {p : List Char} (h : (declAt asciiDecl p).isSome) :
    (declAt charsetDecl p).isSome := by
  obtain ⟨⟨run, b⟩, hb⟩ := Option.isSome_iff_exists.mp h
  simp only [declAt, Option.bind_eq_some] at hb
  obtain ⟨r, hm, hd⟩ := hb
  obtain ⟨hrun, t, rfl, ht, -⟩ := dotStar_eq_some hd
  obtain ⟨run', b', hd', -⟩ :=
    dotStar_isSome (m := charsetDecl) (y := t) hrun (by simp [charsetDecl_of_asciiDecl ht])
  simp [declAt, hm, hd']

section Rewritten

variable {β : Type} {D : List Char → Option β} {a w : List Char}
  (hD : ∀ x, (D (x ++ "windows-1252".toList ++ w)).isSome → (D (x ++ a ++ w)).isSome)
  (hW : ∀ f e z, "windows-1252".toList = f ++ e → e ≠ [] → D (e ++ z) = none)
  (ha : '\n' ∉ a)
include hD hW ha

theorem declAt_transfer {x : List Char} (h : (declAt D (x ++ "windows-1252".toList ++ w)).isSome) :
    (declAt D (x ++ a ++ w)).isSome := by
  obtain ⟨⟨run, b⟩, hb⟩ := Option.isSome_iff_exists.mp h
  simp only [declAt, Option.bind_eq_some] at hb
  obtain ⟨r, hm, hd⟩ := hb
  obtain ⟨hm₀, hs, hw₀, hstrong⟩ := metaHead_eq_some hm
  obtain ⟨x₁, rfl, rfl⟩ :=
    append_split_of_not_mem (hs.symm.trans (by rw [List.append_assoc, windows_append])) hw₀
  rw [← windows_append] at hd
  obtain ⟨hrun, t, ht, hDt, -⟩ := dotStar_eq_some hd
  simp only [declAt, List.append_assoc, hstrong, Option.some_bind]
  have hsome : ∀ x y, x₁ ++ (a ++ w) = x ++ y → '\n' ∉ x → (D y).isSome →
      (dotStar false D (x₁ ++ (a ++ w))).isSome := fun x y he hx hy => by
    obtain ⟨_, _, h', -⟩ := dotStar_isSome hx hy
    rw [he, h']; rfl
  rcases List.append_eq_append_iff.mp ht with ⟨e, rfl, hWw⟩ | ⟨c, rfl, rfl⟩
  · -- the run reaches past the text before `windows-1252`
    have hx₁ : '\n' ∉ x₁ := fun h => hrun (List.mem_append_left _ h)
    rcases List.append_eq_append_iff.mp hWw with ⟨e₂, rfl, rfl⟩ | ⟨e₃, hW₃, rfl⟩
    · -- and past the value, into the rest of the line
      refine hsome (x₁ ++ a ++ e₂) t (by simp) ?_ (by rw [hDt]; rfl)
      simp only [List.mem_append, not_or] at hrun ⊢
      exact ⟨⟨hx₁, ha⟩, hrun.2.2⟩
    · -- or stops inside `windows-1252`, where no declaration starts
      rcases eq_or_ne e₃ [] with rfl | he₃
      · exact hsome (x₁ ++ a) w (by simp) (by simp [hx₁, ha]) (by rw [← List.nil_append w, hDt]; rfl)
      · simp [hW e e₃ w hW₃ he₃] at hDt
  · -- the declaration starts before `windows-1252`
    exact hsome run (c ++ a ++ w) (by simp) hrun (hD c (by rw [List.append_assoc, hDt]; rfl))

theorem declAt_before (pre x₀ : List Char)
    (hfirst : ∀ x y, pre ++ x₀ ++ a ++ w = x ++ y → x.length < pre.length → declAt D y = none) :
    ∀ x y, pre ++ x₀ ++ "windows-1252".toList ++ w = x ++ y → x.length < pre.length →
      declAt D y = none := by
  intro x y h hx
  rw [List.append_assoc, List.append_assoc] at h
  rcases List.append_eq_append_iff.mp h with ⟨e, rfl, -⟩ | ⟨y₀, rfl, rfl⟩
  · simp only [List.length_append] at hx; omega
  · rcases hy : declAt D (y₀ ++ (x₀ ++ ("windows-1252".toList ++ w))) with _ | _
    · rfl
    · have := declAt_transfer hD hW ha (x := y₀ ++ x₀) (by rw [List.append_assoc, List.append_assoc, hy]; rfl)
      rw [hfirst x (y₀ ++ x₀ ++ a ++ w) (by simp) hx] at this
      contradiction

end Rewritten

/-- On the line of the rewritten declaration, `findcharsetre`'s `.*` ends at that declaration,
whose charset is `windows-1252`, or at a later one past its value. -/
theorem dotStar_rewritten {run hd w run' v : List Char} (hrun : '\n' ∉ run)
    (hdtail : ∀ c ∈ hd.tail, c.toLower ≠ 'c')
    (hW : charsetDecl (hd ++ "windows-1252".toList ++ w) = some "windows-1252".toList)
    (h : dotStar false charsetDecl (run ++ hd ++ "windows-1252".toList ++ w) = some (run', v)) :
    v = "windows-1252".toList ∨ ∃ e t, w = e ++ t ∧ '\n' ∉ e ∧ charsetDecl t = some v := by
  have hW' : charsetDecl (hd ++ ("windows-1252".toList ++ w)) = some "windows-1252".toList := by
    rw [← hW, List.append_assoc]
  simp only [List.append_assoc] at h
  obtain ⟨hrun', t, ht, hv, -⟩ := dotStar_eq_some h
  obtain ⟨run₂, v₂, h₂, hle⟩ := dotStar_isSome (m := charsetDecl) hrun (by rw [hW']; rfl)
  obtain ⟨rfl, rfl⟩ := Prod.mk.inj (Option.some.inj (h₂.symm.trans h))
  rcases List.append_eq_append_iff.mp ht with ⟨e, rfl, he⟩ | ⟨c, hc, rfl⟩
  · rcases List.append_eq_append_iff.mp he with ⟨e₁, rfl, he₁⟩ | ⟨e₂, hde, rfl⟩
    · rcases List.append_eq_append_iff.mp he₁ with ⟨e₃, rfl, rfl⟩ | ⟨e₄, hW₄, rfl⟩
      · -- a declaration after the value
        exact .inr ⟨e₃, t, rfl, fun h' => hrun' (by simp [h']), hv⟩
      · rcases eq_or_ne e₄ [] with rfl | he₄
        · exact .inr ⟨[], w, rfl, by simp, by simpa using hv⟩
        · -- inside `windows-1252`
          simp [charsetDecl, charsetHead_windows hW₄ he₄] at hv
    · rcases eq_or_ne e [] with rfl | hne
      · -- the rewritten declaration itself
        simp only [List.nil_append] at hde
        subst hde
        exact .inl (Option.some.inj (hv.symm.trans hW'))
      · rcases e₂ with _ | ⟨c, e₂⟩
        · -- at `windows-1252`
          rw [List.nil_append, charsetDecl, charsetHead_windows (f := []) (e := "windows-1252".toList) rfl
            (by decide)] at hv
          simp at hv
        · -- inside the head of the declaration
          have hc : c ∈ hd.tail := by
            rw [hde, List.tail_append_of_ne_nil hne]; simp
          simp [charsetDecl, List.cons_append, charsetHead_cons_none (hdtail c hc)] at hv
  · -- the run is not shorter than the one to the rewritten declaration
    obtain rfl : c = [] := by
      have := congrArg List.length hc; simp only [List.length_append] at this
      exact List.length_eq_zero.mp (by omega)
    exact .inl (Option.some.inj (hv.symm.trans (by simpa using hW')))

theorem findcharset_of_no_ascii {T : Bytes} (hA : search (declAt asciiDecl) T = none) :
    ∀ v, findcharset T = some v → asciiName v = false := by
  intro v hv
  rw [findcharset_eq, Option.map_eq_some'] at hv
  obtain ⟨⟨pre, run, v⟩, hs, rfl⟩ := hv
  obtain ⟨p, rfl, hp, -⟩ := search_eq_some hs
  by_contra hname
  obtain ⟨b, hb⟩ := declAt_ascii_of_charset hp (by simpa using hname)
  simp [search_eq_none hA pre p rfl] at hb

theorem charsetAt_first_ascii {pre p run preF runF v : List Char} {b : List Char × Nat}
    (hA : search (declAt asciiDecl) (pre ++ p) = some (pre, run, b))
    (hF : search (declAt charsetDecl) (pre ++ p) = some (preF, runF, v)) (hv : asciiName v = true) :
    preF = pre ∧ declAt charsetDecl p = some (run, v) := by
  obtain ⟨p', hT, hp, hfirst⟩ := search_eq_some hA
  obtain rfl := List.append_cancel_left hT
  obtain ⟨pF, hTF, hpF, hfirstF⟩ := search_eq_some hF
  obtain ⟨b', hb'⟩ := declAt_ascii_of_charset hpF hv
  have hge : pre.length ≤ preF.length := Nat.not_lt.mp fun hlt => by
    rw [hfirst preF pF hTF hlt] at hb'; contradiction
  have hle : preF.length ≤ pre.length := Nat.not_lt.mp fun hlt => by
    have hc := declAt_charset_of_ascii (p := p) (by rw [hp]; rfl)
    rw [hfirstF pre p rfl hlt] at hc; contradiction
  obtain ⟨rfl, rfl⟩ := List.append_inj hTF.symm (le_antisymm hle hge)
  obtain rfl := (Prod.mk.inj (Option.some.inj (hb'.symm.trans hp))).1
  exact ⟨rfl, hpF⟩

/-- `findcharsetre` in the text `asciito1252re.sub` leaves never finds an ASCII name, and when
its first declaration in the original text names one, it finds `windows-1252` instead. -/
theorem findcharset_asciito1252Sub (T : Bytes) :
    (∀ v, findcharset (asciito1252Sub T) = some v → asciiName v = false) ∧
    (∀ v, findcharset T = some v → asciiName v = true →
      findcharset (asciito1252Sub T) = some "windows-1252".toList) := by
  rcases hA : search (declAt asciiDecl) T with _ | ⟨pre, run, u, n⟩
  · -- no ASCII declaration: the text is kept, and none of its declarations names ASCII
    have hkeep := findcharset_of_no_ascii hA
    rw [asciito1252Sub_eq, hA]
    exact ⟨hkeep, fun v hv hname => absurd hname (by simp [hkeep v hv])⟩
  -- the first ASCII declaration, at `pre`, and the parts of its line
  obtain ⟨p, rfl, hp, hfirst⟩ := search_eq_some hA
  simp only [declAt, Option.bind_eq_some] at hp
  obtain ⟨r, hm, hdot⟩ := hp
  obtain ⟨hm₀, rfl, -, hmeta⟩ := metaHead_eq_some hm
  obtain ⟨hrun, t, rfl, ht, hlast⟩ := dotStar_eq_some hdot
  obtain ⟨hh, hv⟩ := asciiDecl_eq_some.mp ht
  obtain ⟨hd, rfl, hdne, -, hdn, hdtail, -, hdstrong⟩ := charsetHead_eq_some hh
  obtain ⟨a, w, rfl, rfl, hname, hcl⟩ := asciiValue_eq_some hv
  obtain ⟨hane, -, hach⟩ := asciiName_chars hname
  have han : '\n' ∉ a := fun h => absurd (hach _ h) (by decide)
  have hd_pos : 0 < hd.length := List.length_pos.mpr hdne
  have hT' : asciito1252Sub (pre ++ (hm₀ ++ (run ++ (hd ++ (a ++ w))))) =
      pre ++ hm₀ ++ run ++ hd ++ "windows-1252".toList ++ w := by
    have hX : pre ++ (hm₀ ++ (run ++ (hd ++ (a ++ w)))) = pre ++ hm₀ ++ run ++ hd ++ (a ++ w) := by
      simp
    rw [asciito1252Sub_eq, hA]
    dsimp only
    rw [hX, List.length_append, Nat.add_sub_cancel, List.take_left, List.drop_left]
  -- in the rewritten text, the declaration at `pre` is one of `windows-1252`
  have hWdecl : charsetDecl (hd ++ "windows-1252".toList ++ w) = some "windows-1252".toList := by
    rw [charsetDecl, List.append_assoc, hdstrong _ (by rw [windows_append]; simp), Option.some_bind,
      charsetValue_of (by decide) (by decide) hcl]
  have hat : (declAt charsetDecl (hm₀ ++ (run ++ hd ++ "windows-1252".toList ++ w))).isSome := by
    obtain ⟨_, _, h, -⟩ := dotStar_isSome (m := charsetDecl) (y := hd ++ "windows-1252".toList ++ w)
      hrun (by rw [hWdecl]; rfl)
    simp only [declAt, hmeta, Option.some_bind, List.append_assoc] at h ⊢
    rw [h]; rfl
  obtain ⟨pre', ⟨run', v'⟩, hs', hle⟩ := search_isSome (x := pre) hat
  obtain ⟨q, hq, hcq, -⟩ := search_eq_some hs'
  have hfind : findcharset (pre ++ hm₀ ++ run ++ hd ++ "windows-1252".toList ++ w) = some v' := by
    rw [findcharset_eq, show pre ++ hm₀ ++ run ++ hd ++ "windows-1252".toList ++ w =
      pre ++ (hm₀ ++ (run ++ hd ++ "windows-1252".toList ++ w)) by simp, hs']; rfl
  -- if it answers at `pre`, with the charset of the rewritten declaration or of a later one
  have hatpre : pre'.length = pre.length →
      v' = "windows-1252".toList ∨ ∃ e t, w = e ++ t ∧ '\n' ∉ e ∧ charsetDecl t = some v' := by
    intro hlen
    obtain ⟨rfl, rfl⟩ := List.append_inj hq.symm hlen
    simp only [declAt, hmeta, Option.some_bind] at hcq
    exact dotStar_rewritten hrun hdtail hWdecl (by simpa using hcq)
  have hwin : ∀ f e z, "windows-1252".toList = f ++ e → e ≠ [] → charsetDecl (e ++ z) = none :=
    fun f e z he hne => by simp [charsetDecl, charsetHead_windows he hne]
  have hT : pre ++ (hm₀ ++ (run ++ (hd ++ (a ++ w)))) = pre ++ (hm₀ ++ run ++ hd) ++ a ++ w := by simp
  rw [hT']
  refine ⟨fun v hv => ?_, fun v₀ hv₀ hname₀ => ?_⟩
  · -- no ASCII name: an earlier declaration would be an ASCII one of the original text
    obtain rfl : v = v' := Option.some.inj (hv.symm.trans hfind)
    by_contra hn
    replace hn : asciiName v = true := by simpa using hn
    rcases Nat.lt_or_ge pre'.length pre.length with hlt | hge
    · obtain ⟨b, hb⟩ := declAt_ascii_of_charset hcq hn
      have hnone := declAt_before (D := asciiDecl) (a := a) (w := w) (fun x => asciiDecl_transfer a)
        (fun f e z he hne => by simp [asciiDecl, charsetHead_windows he hne]) han
        pre (hm₀ ++ run ++ hd) (fun x y hxy hx => hfirst x y (hT.trans hxy) hx)
        pre' q (by rw [← hq]; simp) hlt
      rw [hnone] at hb; contradiction
    · rcases hatpre (le_antisymm hle hge) with rfl | ⟨e, t, rfl, hen, hct⟩
      · exact absurd hn (by decide)
      · have := asciiDecl_of_charsetDecl hct hn
        rw [hlast (run ++ hd ++ a ++ e) t (by simp) (by simp only [List.length_append]; omega)
          (by simp [hrun, hdn, han, hen])] at this
        contradiction
  · -- the first declaration of the original text is the ASCII one, and its charset is rewritten
    rw [findcharset_eq, Option.map_eq_some'] at hv₀
    obtain ⟨⟨preF, runF, v₀⟩, hsF, rfl⟩ := hv₀
    obtain ⟨hpre, hpF⟩ := charsetAt_first_ascii hA hsF hname₀
    subst preF
    obtain ⟨-, -, -, hfirstF⟩ := search_eq_some hsF
    simp only [declAt, hmeta, Option.some_bind] at hpF
    obtain ⟨-, -, -, -, hlastF⟩ := dotStar_eq_some hpF
    have hnone := declAt_before (D := charsetDecl) (a := a) (w := w)
      (fun x h => charsetDecl_transfer hach hane hcl h) hwin han
      pre (hm₀ ++ run ++ hd) (fun x y hxy hx => hfirstF x y (hT.trans hxy) hx)
    have hlen : pre'.length = pre.length := le_antisymm hle (Nat.not_lt.mp fun hlt => by
      rw [hnone pre' q (by rw [← hq]; simp) hlt] at hcq; contradiction)
    rcases hatpre hlen with rfl | ⟨e, t, rfl, hen, hct⟩
    · exact hfind
    · rw [hlastF (run ++ hd ++ a ++ e) t (by simp) (by simp only [List.length_append]; omega)
        (by simp [hrun, hdn, han, hen])] at hct
      contradiction

/-! ### The charset -/

/-- `rclCHM.fixencoding` never decodes with an ASCII charset, and decodes a text whose first
charset declaration names ASCII as `windows-1252`, however many declarations the text has and
on however many lines. -/
theorem fixencoding_never_ascii (C : Codecs) (T : Bytes) (text charset : Str)
    (h : fixencoding C T = .ok (text, charset)) :
    asciiName charset = false ∧
      ∀ v, findcharset T = some v → asciiName v = true → charset = "windows-1252".toList := by
  have hcs : charset = (findcharset (asciito1252Sub T)).getD "cp1252".toList := by
    simp only [fixencoding] at h
    revert h
    cases C.decodeReplace _ _ <;> simp [Except.map, eq_comm]
  obtain ⟨hnot, hwin⟩ := findcharset_asciito1252Sub T
  subst hcs
  refine ⟨?_, fun v hv hname => by rw [hwin v hv hname]; rfl⟩
  cases hf : findcharset (asciito1252Sub T) with
  | none => rfl
  | some v => exact hnot v hf

theorem fixencoding_us_ascii_declaration :
    fixencoding ⟨fun _ => some ⟨fun b => b, fun t => .ok t⟩⟩
        "<META HTTP-EQUIV=\"Content-Type\" CONTENT=\"text/html; charset=US-ASCII\">".toList =
      .ok ("<META HTTP-EQUIV=\"Content-Type\" CONTENT=\"text/html; charset=windows-1252\">".toList,
        "windows-1252".toList) ∧
    (asciiName "windows-1252".toList = false ∧
      ∀ v, findcharset "<META HTTP-EQUIV=\"Content-Type\" CONTENT=\"text/html; charset=US-ASCII\">".toList =
          some v → asciiName v = true → "windows-1252".toList = "windows-1252".toList) :=
  have h : fixencoding ⟨fun _ => some ⟨fun b => b, fun t => .ok t⟩⟩
        "<META HTTP-EQUIV=\"Content-Type\" CONTENT=\"text/html; charset=US-ASCII\">".toList =
      .ok ("<META HTTP-EQUIV=\"Content-Type\" CONTENT=\"text/html; charset=windows-1252\">".toList,
        "windows-1252".toList) := by decide
  ⟨h, fixencoding_never_ascii _ _ _ _ h⟩

end RecollFilters.Chm
