namespace Locator

/-- A text is worked on as its characters, first to last. -/
abbrev Text := List Char

namespace Text

/-- The part in front of the first `mark`: the whole text when there is none. -/
def before (mark : Char) (s : Text) : Text :=
  s.takeWhile (· != mark)

/-- The part behind the first `mark`: empty when there is none. -/
def after (mark : Char) (s : Text) : Text :=
  (s.dropWhile (· != mark)).tail

theorem before_of_notMem {mark : Char} {s : Text} (h : mark ∉ s) : before mark s = s := by
  induction s with
  | nil => rfl
  | cons c r ih =>
    have hc : c ≠ mark := fun e => h (by simp [e])
    simp only [before, bne_iff_ne, ne_eq, hc, not_false_eq_true, List.takeWhile_cons_of_pos]
    exact congrArg _ (ih fun hm => h (by simp [hm]))

theorem after_of_notMem {mark : Char} {s : Text} (h : mark ∉ s) : after mark s = [] := by
  induction s with
  | nil => rfl
  | cons c r ih =>
    simp only [List.mem_cons, not_or] at h
    simpa [after, Ne.symm h.1] using ih h.2

theorem notMem_before (mark : Char) (s : Text) : mark ∉ before mark s := by
  intro h
  have hne := List.all_eq_true.1 (List.all_takeWhile (l := s)) mark h
  simp at hne

/-- A text that holds the mark is cut there and nothing else is lost. -/
theorem before_append_after {mark : Char} {s : Text} (h : mark ∈ s) :
    before mark s ++ mark :: after mark s = s := by
  induction s with
  | nil => simp at h
  | cons c r ih =>
    by_cases hc : c = mark
    · simp [before, after, hc]
    · have hr : mark ∈ r := by simpa [Ne.symm hc] using h
      simpa [before, after, hc] using ih hr

/-- The letters of ASCII in lower case, every other character as it is. -/
def lower (s : Text) : Text :=
  s.map Char.toLower

theorem isUpper_iff (c : Char) : c.val ≥ 'A'.val ∧ c.val ≤ 'Z'.val ↔ 65 ≤ c.toNat ∧ c.toNat ≤ 90 := by
  rw [ge_iff_le, UInt32.le_iff_toNat_le, UInt32.le_iff_toNat_le]
  exact Iff.rfl

theorem toLower_of_not_upper {c : Char} (h : ¬ (65 ≤ c.toNat ∧ c.toNat ≤ 90)) : c.toLower = c :=
  dif_neg (mt (isUpper_iff c).1 h)

theorem toNat_toLower {c : Char} (h : 65 ≤ c.toNat ∧ c.toNat ≤ 90) : c.toLower.toNat = c.toNat + 32 := by
  have hlower : c.toLower.toNat = (c.val + 32).toNat := congrArg Char.toNat (dif_pos ((isUpper_iff c).2 h))
  have hle : c.val.toNat ≤ 90 := h.2
  have hstep : (32 : UInt32).toNat = 32 := rfl
  rw [hlower, UInt32.toNat_add]
  change _ = c.val.toNat + 32
  omega

/-- Both separators become the forward one. -/
def forward (s : Text) : Text :=
  s.map fun c => if c = '\\' then '/' else c

theorem backslash_notMem_forward (s : Text) : '\\' ∉ forward s := by
  simp only [forward, List.mem_map, not_exists, not_and]
  intro c _ h
  split at h
  · exact absurd h (by decide)
  · contradiction

theorem forward_of_notMem {s : Text} (h : '\\' ∉ s) : forward s = s := by
  induction s with
  | nil => rfl
  | cons c r ih =>
    simp only [List.mem_cons, not_or] at h
    simp only [forward, List.map_cons, if_neg (Ne.symm h.1)]
    exact congrArg _ (ih h.2)

/-- `s` behind its mark, and nothing at all for an empty part. -/
def marked (mark : Char) (s : Text) : Text :=
  if s = [] then [] else mark :: s

/-- A line of output. -/
def line (s : Text) : Text :=
  s ++ ['\n']

end Text

end Locator
