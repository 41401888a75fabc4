import Locator.Proofs.Text.Mark
import Locator.Url.Scheme

namespace Locator

namespace Text

theorem isUpper_iff_toNat {c : Char} : c.isUpper = true ↔ 65 ≤ c.toNat ∧ c.toNat ≤ 90 :=
  decide_eq_true_iff.trans (isUpper_iff c)

theorem isLower_iff_toNat {c : Char} : c.isLower = true ↔ 97 ≤ c.toNat ∧ c.toNat ≤ 122 := by
  change (c.val ≥ 'a'.val && c.val ≤ 'z'.val) = true ↔ _
  simp [UInt32.le_iff_toNat_le, ← Char.toNat_val]

theorem isAlpha_iff {c : Char} : c.isAlpha = true ↔ c.isUpper = true ∨ c.isLower = true := by
  change (c.isUpper || c.isLower) = true ↔ _
  rw [Bool.or_eq_true]

theorem toLower_of_isLower {c : Char} (h : c.isLower = true) : c.toLower = c := by
  have hrange := isLower_iff_toNat.1 h
  exact toLower_of_not_upper (by omega)

theorem isLower_toLower {c : Char} (h : c.isAlpha = true) : c.toLower.isLower = true := by
  obtain hupper | hlower := isAlpha_iff.1 h
  · have hrange := isUpper_iff_toNat.1 hupper
    have hvalue := toNat_toLower hrange
    exact isLower_iff_toNat.2 (by omega)
  · rwa [toLower_of_isLower hlower]

end Text

namespace Scheme

open Text

/-- The characters of a scheme behind its first, as they are written. -/
def IsLowerTail (c : Char) : Prop :=
  c.isLower = true ∨ c.isDigit = true ∨ c = '+' ∨ c = '-' ∨ c = '.'

/-- A scheme as it is written: a small letter and at least one character more,
    each of them a small letter, a digit, or one of three marks. -/
def IsLowerName : Text → Prop
  | first :: second :: rest => first.isLower = true ∧ ∀ c ∈ second :: rest, IsLowerTail c
  | _ => False

theorem isTail_of_isLowerTail {c : Char} (h : IsLowerTail c) : isTail c = true := by
  obtain h | h | rfl | rfl | rfl := h
  · simp [isTail, Char.isAlphanum, isAlpha_iff.2 (Or.inr h)]
  · simp [isTail, Char.isAlphanum, h]
  all_goals decide

theorem toLower_of_isLowerTail {c : Char} (h : IsLowerTail c) : c.toLower = c := by
  obtain h | h | rfl | rfl | rfl := h
  · exact toLower_of_isLower h
  · refine toLower_of_not_upper fun hrange => ?_
    have hdigit : 48 ≤ c.toNat ∧ c.toNat ≤ 57 := by
      simpa [Char.isDigit, UInt32.le_iff_toNat_le, ← Char.toNat_val] using h
    omega
  all_goals decide

theorem isLowerTail_toLower {c : Char} (h : isTail c = true) : IsLowerTail c.toLower := by
  simp only [isTail, Char.isAlphanum, Bool.or_eq_true, beq_iff_eq] at h
  obtain (((halpha | hdigit) | rfl) | rfl) | rfl := h
  · exact Or.inl (isLower_toLower halpha)
  · have hlower : IsLowerTail c := Or.inr (Or.inl hdigit)
    rwa [toLower_of_isLowerTail hlower]
  · exact Or.inr (Or.inr (Or.inl (by decide)))
  · exact Or.inr (Or.inr (Or.inr (Or.inl (by decide))))
  · exact Or.inr (Or.inr (Or.inr (Or.inr (by decide))))

theorem IsLowerName.isName {scheme : Text} (h : IsLowerName scheme) : isName scheme = true := by
  match scheme, h with
  | first :: second :: rest, ⟨hfirst, htail⟩ =>
    simp only [Scheme.isName, Bool.and_eq_true, List.all_eq_true]
    exact ⟨isAlpha_iff.2 (Or.inr hfirst), fun c hc => isTail_of_isLowerTail (htail c hc)⟩

theorem IsLowerName.lower {scheme : Text} (h : IsLowerName scheme) : lower scheme = scheme := by
  match scheme, h with
  | first :: second :: rest, ⟨hfirst, htail⟩ =>
    refine (List.map_congr_left fun c hc => ?_).trans (List.map_id' _)
    obtain rfl | hc := List.mem_cons.1 hc
    · exact toLower_of_isLower hfirst
    · exact toLower_of_isLowerTail (htail c hc)

theorem isLowerName_lower {name : Text} (h : isName name = true) : IsLowerName (lower name) := by
  match name, h with
  | first :: second :: rest, h =>
    simp only [isName, Bool.and_eq_true, List.all_eq_true] at h
    refine ⟨isLower_toLower h.1, fun c hc => ?_⟩
    obtain ⟨d, hd, rfl⟩ := List.mem_map.1 (show c ∈ (second :: rest).map Char.toLower from hc)
    exact isLowerTail_toLower (h.2 d hd)

theorem isTail_of_mem {name : Text} (h : isName name = true) {c : Char} (hc : c ∈ name) : isTail c = true := by
  match name, h with
  | first :: second :: rest, h =>
    simp only [isName, Bool.and_eq_true, List.all_eq_true] at h
    obtain rfl | hc := List.mem_cons.1 hc
    · simp [isTail, Char.isAlphanum, h.1]
    · exact h.2 c hc

theorem notMem_of_isName {name : Text} (h : isName name = true) {c : Char} (hc : isTail c = false) : c ∉ name := by
  intro hmem
  rw [isTail_of_mem h hmem] at hc
  cases hc

theorem IsLowerName.ne_nil {scheme : Text} (h : IsLowerName scheme) : scheme ≠ [] := by
  rintro rfl
  exact h

theorem cut_name_append {name : Text} (h : isName name = true) (rest : Text) :
    cut (name ++ ':' :: rest) = (lower name, rest) := by
  have hcolon : ':' ∉ name := notMem_of_isName h (by decide)
  have hbefore : before ':' (name ++ ':' :: rest) = name := before_append_mark_cons hcolon rest
  rw [cut, if_pos ⟨by simp, hbefore.symm ▸ h⟩, hbefore, after_append_mark_cons hcolon]

theorem IsLowerName.cut_append {scheme : Text} (h : IsLowerName scheme) (rest : Text) :
    cut (scheme ++ ':' :: rest) = (scheme, rest) := by
  rw [cut_name_append h.isName, h.lower]

/-- A text begins with a scheme and its colon, or is left whole. -/
theorem cut_cases (s : Text) :
    (∃ name rest, isName name = true ∧ s = name ++ ':' :: rest ∧ cut s = (lower name, rest)) ∨ cut s = ([], s) := by
  by_cases h : ':' ∈ s ∧ isName (before ':' s) = true
  · refine Or.inl ⟨before ':' s, after ':' s, h.2, (before_append_after h.1).symm, ?_⟩
    rw [cut, if_pos h]
  · exact Or.inr (by rw [cut, if_neg h])

theorem cut_eq_of_fst {s : Text} (h : (cut s).1 = []) : cut s = ([], s) := by
  obtain ⟨name, rest, hname, rfl, hcut⟩ | hcut := cut_cases s
  · rw [hcut] at h
    exact absurd h (isLowerName_lower hname).ne_nil
  · exact hcut

theorem isLowerName_cut (s : Text) : (cut s).1 = [] ∨ IsLowerName (cut s).1 := by
  obtain ⟨name, rest, hname, rfl, hcut⟩ | hcut := cut_cases s
  · rw [hcut]
    exact Or.inr (isLowerName_lower hname)
  · exact Or.inl (by rw [hcut])

/-- No scheme arises where a text without one goes on with a character that no
    scheme holds. -/
theorem cut_append_cons {s : Text} (h : (cut s).1 = []) {c : Char} (hc : isTail c = false) (hcolon : c ≠ ':')
    (rest : Text) : cut (s ++ c :: rest) = ([], s ++ c :: rest) := by
  obtain ⟨name, r, hname, heq, hcut⟩ | hcut := cut_cases (s ++ c :: rest)
  · obtain ⟨x, hx, hrest⟩ | ⟨x, rfl, hrest⟩ := List.append_eq_append_iff.1 heq
    · cases x with
      | nil => simp_all
      | cons d x =>
        have hmem : c ∈ name := by simp_all
        exact absurd hmem (notMem_of_isName hname hc)
    · cases x with
      | nil => simp_all
      | cons d x =>
        obtain ⟨rfl, rfl⟩ : ':' = d ∧ r = x ++ c :: rest := by simpa using hrest
        rw [cut_name_append hname] at h
        exact absurd h (isLowerName_lower hname).ne_nil
  · exact hcut

theorem cut_append_slash {s : Text} (h : (cut s).1 = []) (rest : Text) :
    cut (s ++ '/' :: rest) = ([], s ++ '/' :: rest) :=
  cut_append_cons h (by decide) (by decide) rest

theorem cut_append_query {s : Text} (h : (cut s).1 = []) (query : Text) :
    cut (s ++ marked '?' query) = ([], s ++ marked '?' query) := by
  unfold marked
  split
  · rw [List.append_nil]
    exact cut_eq_of_fst h
  · exact cut_append_cons h (by decide) (by decide) query

theorem cut_slash (rest : Text) : cut ('/' :: rest) = ([], '/' :: rest) :=
  cut_append_slash (s := []) rfl rest

/-- No scheme holds a separator, so that it is the same whichever one the text
    is written with. -/
theorem cut_forward (s : Text) : cut (forward s) = ((cut s).1, forward (cut s).2) := by
  obtain ⟨name, rest, hname, rfl, hcut⟩ | hcut := cut_cases s
  · have hback : '\\' ∉ name := notMem_of_isName hname (by decide)
    have htext : forward (name ++ ':' :: rest) = name ++ ':' :: forward rest := by
      rw [forward_append, forward_of_notMem hback]
      rfl
    rw [hcut, htext, cut_name_append hname]
  · obtain ⟨name, rest, hname, htext, -⟩ | hwhole := cut_cases (forward s)
    · -- the scheme and its colon stand in the text as it was, which would then be cut as well
      rw [← List.singleton_append, ← List.append_assoc] at htext
      obtain ⟨front, r, rfl, hfront, -⟩ := List.map_eq_append_iff.1 htext
      have hslash : '/' ∉ forward front := by
        rw [forward, hfront]
        simp [notMem_of_isName hname (show isTail '/' = false by decide)]
      have hsame : front = name ++ [':'] := (forward_of_slash_notMem hslash).symm.trans hfront
      rw [hsame, List.append_assoc, List.singleton_append, cut_name_append hname] at hcut
      exact absurd (congrArg Prod.fst hcut) (isLowerName_lower hname).ne_nil
    · rw [hwhole, hcut]

theorem after_cut {mark : Char} (hmark : isTail mark = false) (hcolon : mark ≠ ':') (s : Text) :
    after mark (cut s).2 = after mark s := by
  obtain ⟨name, rest, hname, rfl, hcut⟩ | hcut := cut_cases s
  · have hsign : mark ∉ [':'] := by simpa using hcolon
    rw [hcut, after_append_of_notMem (notMem_of_isName hname hmark)]
    exact (after_append_of_notMem hsign rest).symm
  · rw [hcut]

/-- Cutting a text at a mark that no scheme holds leaves its scheme as it was. -/
theorem cut_before {mark : Char} (hmark : isTail mark = false) (hcolon : mark ≠ ':') (s : Text) :
    cut (before mark s) = ((cut s).1, before mark (cut s).2) := by
  obtain ⟨name, rest, hname, rfl, hcut⟩ | hcut := cut_cases s
  · have hcons : before mark (':' :: rest) = ':' :: before mark rest := by simp [before, hcolon.symm]
    rw [hcut, before_append_of_notMem (notMem_of_isName hname hmark), hcons, cut_name_append hname]
  · rw [hcut]
    apply cut_eq_of_fst
    by_contra hne
    by_cases hmem : mark ∈ s
    · obtain ⟨a, b, ha, rfl⟩ := exists_of_mem hmem
      rw [before_append_mark_cons ha] at hne
      obtain ⟨name, rest, hname, rfl, -⟩ | hwhole := cut_cases a
      · rw [List.append_assoc, List.cons_append, cut_name_append hname] at hcut
        exact (isLowerName_lower hname).ne_nil (congrArg Prod.fst hcut)
      · exact hne (by rw [hwhole])
    · rw [before_of_notMem hmem, hcut] at hne
      exact hne rfl

end Scheme

end Locator
