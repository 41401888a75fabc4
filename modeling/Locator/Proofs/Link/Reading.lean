import Locator.Link.Header
import Locator.Proofs.Text.Blank

namespace Locator.Link

open Text

variable {s rest target value : Text} {p : Text × Text}

theorem not_isBlank_of_inToken {c : Char} (h : inToken c = true) : isBlank c = false := by
  simp only [inToken, Bool.and_eq_true, Bool.not_eq_true'] at h
  exact h.2

theorem not_isBlank_of_inKey {c : Char} (h : inKey c = true) : isBlank c = false := by
  simp only [inKey, Bool.and_eq_true, Bool.not_eq_true'] at h
  exact h.2

theorem head?_append_of_forall {α : Type} {p : α → Prop} {xs ys : List α} (hne : xs ≠ []) (h : ∀ x ∈ xs, p x) :
    ∀ x ∈ (xs ++ ys).head?, p x := by
  obtain ⟨first, more, rfl⟩ := List.exists_cons_of_ne_nil hne
  rintro x ⟨⟩
  exact h first List.mem_cons_self

theorem length_of_target? (h : target? s = some (target, rest)) : rest.length < s.length := by
  have hfront := length_trimLeft_le s
  unfold target? at h
  split at h
  · next r hs =>
    split at h
    · cases h
      have hafter := length_after_le '>' r
      have hbehind := length_trimLeft_le (after '>' r)
      rw [hs, List.length_cons] at hfront
      omega
    · cases h
  · cases h

theorem length_of_quotedValue? (h : quotedValue? s = some (value, rest)) : rest.length ≤ s.length := by
  unfold quotedValue? at h
  split at h
  · next r =>
    split at h
    · cases h
      have hafter := length_after_le '"' r
      rw [List.length_cons]
      omega
    · cases h
  · cases h

theorem length_of_token? (h : token? s = some (value, rest)) : rest.length ≤ s.length := by
  unfold token? at h
  split at h
  · cases h
  · cases h
    exact (List.dropWhile_suffix _).length_le

theorem length_of_value (h : (quotedValue? s).or (token? s) = some (value, rest)) : rest.length ≤ s.length := by
  cases hquoted : quotedValue? s with
  | none =>
    rw [hquoted, Option.none_or] at h
    exact length_of_token? h
  | some found =>
    rw [hquoted, Option.some_or] at h
    cases h
    exact length_of_quotedValue? hquoted

theorem length_of_parameter? (h : parameter? s = some (p, rest)) : rest.length < s.length := by
  unfold parameter? at h
  split at h
  · next r =>
    dsimp only at h
    split at h
    · next first more behindSign _ hsign =>
      obtain ⟨⟨value, behind⟩, hvalue, hp⟩ := Option.map_eq_some_iff.1 h
      obtain rfl : trimLeft behind = rest := congrArg Prod.snd hp
      have hlead := length_trimLeft_le r
      have hkey := (List.dropWhile_suffix (l := trimLeft r) inKey).length_le
      have hequals := length_trimLeft_le ((trimLeft r).dropWhile inKey)
      have hspace := length_trimLeft_le behindSign
      have hread := length_of_value hvalue
      have htrail := length_trimLeft_le behind
      rw [hsign, List.length_cons] at hequals
      rw [List.length_cons]
      omega
    · cases h
  · cases h

theorem quotedValue?_eq_some_iff :
    quotedValue? s = some (value, rest) ↔ value ≠ [] ∧ '"' ∉ value ∧ s = '"' :: (value ++ '"' :: rest) := by
  constructor
  · intro h
    unfold quotedValue? at h
    split at h
    · split at h
      · next r hquote =>
        cases h
        refine ⟨hquote.2, notMem_before '"' r, ?_⟩
        rw [before_append_after hquote.1]
      · cases h
    · cases h
  · rintro ⟨hne, hquote, rfl⟩
    have hmem : '"' ∈ value ++ '"' :: rest := by simp
    rw [quotedValue?, before_append_mark_cons hquote, after_append_mark_cons hquote, if_pos ⟨hmem, hne⟩]

theorem quotedValue?_eq_none_iff :
    quotedValue? s = none ↔ ∀ inner behind, s = '"' :: (inner ++ '"' :: behind) → '"' ∉ inner → inner = [] := by
  constructor
  · intro h inner behind hs hquote
    by_contra hne
    rw [quotedValue?_eq_some_iff.2 ⟨hne, hquote, hs⟩] at h
    cases h
  · intro h
    cases hread : quotedValue? s with
    | none => rfl
    | some found =>
      obtain ⟨hne, hquote, hs⟩ := quotedValue?_eq_some_iff.1 hread
      exact absurd (h _ _ hs hquote) hne

theorem token?_eq_some_iff :
    token? s = some (value, rest) ↔
      value ≠ [] ∧ (∀ c ∈ value, inToken c = true) ∧ (∀ c ∈ rest.head?, inToken c = false) ∧ s = value ++ rest := by
  constructor
  · intro h
    unfold token? at h
    split at h
    · cases h
    · next hne =>
      cases h
      exact ⟨hne, fun _ hc => List.mem_takeWhile_imp hc, head?_dropWhile inToken s,
        List.takeWhile_append_dropWhile.symm⟩
  · rintro ⟨hne, htoken, hends, rfl⟩
    rw [token?, takeWhile_append_of_head? htoken hends, dropWhile_append_of_head? htoken hends, if_neg hne]

/-- What is read behind the key and the sign of a parameter is its value. -/
theorem parameter?_key_append {lead key beforeSign : Text} (hlead : ∀ c ∈ lead, isBlank c = true) (hne : key ≠ [])
    (hkey : ∀ c ∈ key, inKey c = true) (hbefore : ∀ c ∈ beforeSign, isBlank c = true) (s : Text) :
    parameter? (';' :: (lead ++ (key ++ (beforeSign ++ '=' :: s)))) =
      ((quotedValue? (trimLeft s)).or (token? (trimLeft s))).map
        fun (value, rest) => ((key, value), trimLeft rest) := by
  have hfirst : ∀ c ∈ (key ++ (beforeSign ++ '=' :: s)).head?, isBlank c = false :=
    head?_append_of_forall hne fun c hc => not_isBlank_of_inKey (hkey c hc)
  have hend : ∀ c ∈ (beforeSign ++ '=' :: s).head?, inKey c = false := by
    cases beforeSign with
    | nil =>
      rintro c ⟨⟩
      rfl
    | cons first more =>
      rintro c ⟨⟩
      simp [inKey, hbefore first List.mem_cons_self]
  have hsign : ∀ c ∈ ('=' :: s).head?, isBlank c = false := by
    rintro c ⟨⟩
    rfl
  obtain ⟨first, more, rfl⟩ := List.exists_cons_of_ne_nil hne
  rw [parameter?]
  simp only [trimLeft_append_of_blank hlead, trimLeft_of_head? hfirst, takeWhile_append_of_head? hkey hend,
    dropWhile_append_of_head? hkey hend, trimLeft_append_of_blank hbefore, trimLeft_of_head? hsign]

/-- A target is what stands between two angles. -/
theorem target?_angle_append {lead target : Text} (hlead : ∀ c ∈ lead, isBlank c = true) (hne : target ≠ [])
    (hangle : '>' ∉ target) (s : Text) :
    target? (lead ++ '<' :: (target ++ '>' :: s)) = some (target, trimLeft s) := by
  have hopen : ∀ c ∈ ('<' :: (target ++ '>' :: s)).head?, isBlank c = false := by
    rintro c ⟨⟩
    rfl
  have hmem : '>' ∈ target ++ '>' :: s := by simp
  rw [target?, trimLeft_append_of_blank hlead, trimLeft_of_head? hopen]
  simp only [before_append_mark_cons hangle, after_append_mark_cons hangle]
  exact if_pos ⟨hmem, hne⟩

theorem takeParameters_of_none (h : parameter? s = none) : takeParameters s = ([], s) := by
  rw [takeParameters, h]

/-- A parameter is taken, then all behind it: what it leaves is always shorter. -/
theorem takeParameters_of_some (h : parameter? s = some (p, rest)) :
    takeParameters s = (p :: (takeParameters rest).1, (takeParameters rest).2) := by
  rw [takeParameters, h]
  simp only [if_pos (length_of_parameter? h)]

theorem length_takeParameters_le (s : Text) : (takeParameters s).2.length ≤ s.length := by
  induction hlength : s.length using Nat.strong_induction_on generalizing s with
  | _ length ih =>
    cases hparameter : parameter? s with
    | none =>
      rw [takeParameters_of_none hparameter]
      exact hlength.le
    | some found =>
      have hshorter := length_of_parameter? hparameter
      have hrest := ih found.2.length (by omega) found.2 rfl
      rw [takeParameters_of_some hparameter]
      dsimp only
      omega

/-- The links behind a comma, and none behind anything else. -/
def further : Text → List Link
  | ',' :: more => list more
  | _ => []

theorem further_comma (more : Text) : further (',' :: more) = list more := rfl

theorem further_of_ne (h : ∀ more, s ≠ ',' :: more) : further s = [] := by
  unfold further
  split
  · next more => exact absurd rfl (h more)
  · rfl

theorem list_of_none (h : target? s = none) : list s = [] := by
  rw [list, h]

/-- A link is its target with the parameters behind it, and only a comma leads
    on to another. -/
theorem list_of_some (h : target? s = some (target, rest)) :
    list s = ⟨target, (takeParameters rest).1⟩ :: further (takeParameters rest).2 := by
  have htarget := length_of_target? h
  have hparameters := length_takeParameters_le rest
  rw [list, h]
  simp only [List.cons.injEq, true_and]
  generalize (takeParameters rest).2 = behind at hparameters
  split
  · next more =>
    rw [List.length_cons] at hparameters
    rw [if_pos (by omega), further_comma]
  · next hcomma => exact (further_of_ne hcomma).symm

theorem isNext_iff {link : Link} : link.isNext = true ↔ ("rel".toList, "next".toList) ∈ link.parameters :=
  List.contains_iff_mem

theorem find?_isNext_append {front : List Link} (h : ∀ link ∈ front, link.isNext = false) (links : List Link) :
    (front ++ links).find? isNext = links.find? isNext := by
  have hnone : front.find? isNext = none := by
    rw [List.find?_eq_none]
    intro link hlink
    rw [h link hlink]
    exact Bool.false_ne_true
  rw [List.find?_append, hnone, Option.none_or]

end Locator.Link
