import Locator.Proofs.Link.Reading

namespace Locator.Link

open Text

variable {blanks : Text}

theorem target?_trimLeft (s : Text) : target? (trimLeft s) = target? s := by
  rw [target?, target?, trimLeft_trimLeft]

theorem target?_append_blanks (h : ∀ c ∈ blanks, isBlank c = true) (s : Text) :
    target? (s ++ blanks) = (target? s).map fun (target, rest) => (target, padded blanks rest) := by
  have hangle : '>' ∉ blanks := notMem_of_forall h rfl
  rw [target?, target?, trimLeft_append_blanks h]
  rcases trimLeft s with _ | ⟨c, r⟩
  · rfl
  · rw [padded_cons]
    by_cases hopen : c = '<'
    · subst hopen
      by_cases hmem : '>' ∈ r
      · simp only [List.mem_append, hmem, true_or, before_append_of_mem hmem, after_append_of_mem hmem,
          trimLeft_append_blanks h, true_and]
        split <;> rfl
      · simp [hmem, hangle]
    · simp [hopen]

theorem quotedValue?_append_blanks (h : ∀ c ∈ blanks, isBlank c = true) (s : Text) :
    quotedValue? (s ++ blanks) = (quotedValue? s).map fun (value, rest) => (value, rest ++ blanks) := by
  have hquote : '"' ∉ blanks := notMem_of_forall h rfl
  cases s with
  | nil =>
    have hnone : quotedValue? blanks = none := by
      apply quotedValue?_eq_none_iff.2
      rintro inner behind rfl
      exact absurd List.mem_cons_self hquote
    exact hnone
  | cons c r =>
    rw [List.cons_append, quotedValue?.eq_def, quotedValue?.eq_def]
    by_cases hopen : c = '"'
    · subst hopen
      by_cases hmem : '"' ∈ r
      · simp only [List.mem_append, hmem, true_or, before_append_of_mem hmem, after_append_of_mem hmem, true_and]
        split <;> rfl
      · simp [hmem, hquote]
    · simp [hopen]

theorem token?_append_blanks (h : ∀ c ∈ blanks, isBlank c = true) (s : Text) :
    token? (s ++ blanks) = (token? s).map fun (value, rest) => (value, rest ++ blanks) := by
  have hends : ∀ c ∈ blanks, inToken c = false := fun c hc => by simp [inToken, h c hc]
  rw [token?, token?, takeWhile_append_of_forall hends, dropWhile_append_of_forall hends]
  split <;> rfl

theorem value_padded (h : ∀ c ∈ blanks, isBlank c = true) (s : Text) :
    (quotedValue? (padded blanks s)).or (token? (padded blanks s)) =
      ((quotedValue? s).or (token? s)).map fun (value, rest) => (value, rest ++ blanks) := by
  cases s with
  | nil => rfl
  | cons c r =>
    have happend : padded blanks (c :: r) = c :: r ++ blanks := rfl
    rw [happend, quotedValue?_append_blanks h, token?_append_blanks h, Option.map_or]

/-- Behind the value of a parameter its blanks are skipped, so that more of them
    make no difference. -/
theorem parameter?_padded (h : ∀ c ∈ blanks, isBlank c = true) (s : Text) :
    parameter? (padded blanks s) = (parameter? s).map fun (p, rest) => (p, padded blanks rest) := by
  have hends : ∀ c ∈ blanks, inKey c = false := fun c hc => by simp [inKey, h c hc]
  have hkey (t : Text) : (padded blanks t).takeWhile inKey = t.takeWhile inKey := by
    cases t with
    | nil => rfl
    | cons c r => exact takeWhile_append_of_forall hends
  have hsign (t : Text) :
      trimLeft ((padded blanks t).dropWhile inKey) = padded blanks (trimLeft (t.dropWhile inKey)) := by
    cases t with
    | nil => rfl
    | cons c r =>
      have hdrop : (padded blanks (c :: r)).dropWhile inKey = (c :: r).dropWhile inKey ++ blanks :=
        dropWhile_append_of_forall hends
      rw [hdrop, trimLeft_append_blanks h]
  cases s with
  | nil => rfl
  | cons c body =>
    rw [padded_cons, parameter?.eq_def, parameter?.eq_def]
    by_cases hsemicolon : c = ';'
    · subst hsemicolon
      simp only [trimLeft_append_blanks h, hkey, hsign]
      generalize (trimLeft body).takeWhile inKey = key
      rcases trimLeft ((trimLeft body).dropWhile inKey) with _ | ⟨sign, behind⟩
      · cases key <;> rfl
      rcases key with _ | ⟨first, more⟩
      · rfl
      rw [padded_cons]
      by_cases hequals : sign = '='
      · subst hequals
        simp only [trimLeft_append_blanks h, value_padded h, Option.map_map]
        congr 1
        funext found
        exact congrArg (Prod.mk (first :: more, found.1)) (trimLeft_append_blanks h found.2)
      · simp [hequals]
    · simp [hsemicolon]

theorem takeParameters_padded (h : ∀ c ∈ blanks, isBlank c = true) (s : Text) :
    takeParameters (padded blanks s) = ((takeParameters s).1, padded blanks (takeParameters s).2) := by
  induction hlength : s.length using Nat.strong_induction_on generalizing s with
  | _ length ih =>
    have hread := parameter?_padded h s
    cases hparameter : parameter? s with
    | none =>
      rw [hparameter] at hread
      rw [takeParameters_of_none hread, takeParameters_of_none hparameter]
    | some found =>
      have hshorter := length_of_parameter? hparameter
      rw [hparameter] at hread
      rw [takeParameters_of_some hread, takeParameters_of_some hparameter, ih found.2.length (by omega) found.2 rfl]

/-- Blanks behind a header value change no link of it, wherever the value breaks
    off. -/
theorem list_append_blanks (h : ∀ c ∈ blanks, isBlank c = true) (s : Text) : list (s ++ blanks) = list s := by
  induction hlength : s.length using Nat.strong_induction_on generalizing s with
  | _ length ih =>
    have hread := target?_append_blanks h s
    cases htarget : target? s with
    | none =>
      rw [htarget] at hread
      rw [list_of_none hread, list_of_none htarget]
    | some found =>
      have hshorter := length_of_target? htarget
      have hbehind := length_takeParameters_le found.2
      rw [htarget] at hread
      rw [list_of_some hread, list_of_some htarget, takeParameters_padded h]
      congr 1
      dsimp only
      generalize (takeParameters found.2).2 = behind at hbehind ⊢
      rcases behind with _ | ⟨c, more⟩
      · rfl
      · rw [padded_cons]
        by_cases hcomma : c = ','
        · subst hcomma
          rw [List.length_cons] at hbehind
          exact ih more.length (by omega) more rfl
        · rw [further_of_ne (by simp [hcomma]), further_of_ne (by simp [hcomma])]

theorem list_trimLeft (s : Text) : list (trimLeft s) = list s := by
  have hread := target?_trimLeft s
  cases htarget : target? s with
  | none => rw [list_of_none (hread.trans htarget), list_of_none htarget]
  | some found => rw [list_of_some (hread.trans htarget), list_of_some htarget]

theorem list_blanks_append (h : ∀ c ∈ blanks, isBlank c = true) (s : Text) : list (blanks ++ s) = list s := by
  rw [← list_trimLeft, trimLeft_append_of_blank h, list_trimLeft]

theorem list_trimRight (s : Text) : list (trimRight s) = list s := by
  obtain ⟨blanks, hblanks, hs⟩ := exists_trimRight s
  have hread := list_append_blanks hblanks (trimRight s)
  rw [← hs] at hread
  exact hread.symm

/-- A header value is read as if it were trimmed. -/
theorem list_trim (s : Text) : list (trim s) = list s := by
  rw [trim, list_trimRight, list_trimLeft]

end Locator.Link
