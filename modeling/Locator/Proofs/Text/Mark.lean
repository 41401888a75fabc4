import Locator.Text.Basic
import Mathlib.Data.List.Basic
import Mathlib.Data.List.TakeWhile

namespace Locator.Text

variable {mark other : Char} {a b s : Text}

theorem mem_of_mem_before {c : Char} (h : c ∈ before mark s) : c ∈ s :=
  (List.takeWhile_prefix _).subset h

theorem mem_of_mem_after {c : Char} (h : c ∈ after mark s) : c ∈ s :=
  (List.dropWhile_suffix _).subset (List.mem_of_mem_tail h)

/-- A text of one kind holds no character of another. -/
theorem notMem_of_forall {p : Char → Bool} (h : ∀ c ∈ s, p c = true) {c : Char} (hc : p c = false) : c ∉ s := by
  intro hmem
  rw [h c hmem] at hc
  cases hc

/-- Where a run has been cut off, a character of another kind stands in front. -/
theorem head?_dropWhile (p : Char → Bool) (s : Text) : ∀ c ∈ (s.dropWhile p).head?, p c = false := by
  intro c hc
  have hhead := List.head?_dropWhile_not p s
  rw [Option.mem_def.1 hc] at hhead
  exact hhead

/-- A run of characters of a kind is cut off where a character of another kind
    follows. -/
theorem takeWhile_append_of_head? {p : Char → Bool} (ha : ∀ c ∈ a, p c = true) (hb : ∀ c ∈ b.head?, p c = false) :
    (a ++ b).takeWhile p = a := by
  rw [List.takeWhile_append_of_pos ha]
  cases b with
  | nil => simp
  | cons c r => simp [hb c rfl]

theorem dropWhile_append_of_head? {p : Char → Bool} (ha : ∀ c ∈ a, p c = true) (hb : ∀ c ∈ b.head?, p c = false) :
    (a ++ b).dropWhile p = b := by
  rw [List.dropWhile_append_of_pos ha]
  cases b with
  | nil => rfl
  | cons c r => simp [hb c rfl]

/-- A run is cut off the same whatever stands behind the text that is of no such
    kind. -/
theorem takeWhile_append_of_forall {p : Char → Bool} (hb : ∀ c ∈ b, p c = false) :
    (a ++ b).takeWhile p = a.takeWhile p := by
  have hend : b.takeWhile p = [] := by
    cases b with
    | nil => rfl
    | cons c r => exact List.takeWhile_cons_of_neg (by simp [hb c List.mem_cons_self])
  rw [List.takeWhile_append, hend, List.append_nil]
  split
  · next hlength => exact ((List.takeWhile_prefix p).eq_of_length hlength).symm
  · rfl

theorem dropWhile_append_of_forall {p : Char → Bool} (hb : ∀ c ∈ b, p c = false) :
    (a ++ b).dropWhile p = a.dropWhile p ++ b := by
  have hkept : b.dropWhile p = b := by
    cases b with
    | nil => rfl
    | cons c r => exact List.dropWhile_cons_of_neg (by simp [hb c List.mem_cons_self])
  rw [List.dropWhile_append, hkept]
  split
  · next hnone => rw [List.isEmpty_iff.1 hnone, List.nil_append]
  · rfl

/-- Cutting a run off the front of a text leaves its last character, if it
    leaves any. -/
theorem getLast?_dropWhile {p : Char → Bool} (h : s.dropWhile p ≠ []) : (s.dropWhile p).getLast? = s.getLast? := by
  have hwhole := congrArg List.getLast? (List.takeWhile_append_dropWhile (p := p) (l := s))
  rwa [List.getLast?_append_of_ne_nil _ h] at hwhole

theorem forward_append (a b : Text) : forward (a ++ b) = forward a ++ forward b :=
  List.map_append

/-- A text that shows no slash once its separators are forward ones has none. -/
theorem forward_of_slash_notMem (h : '/' ∉ forward s) : forward s = s :=
  forward_of_notMem fun hmem => h (List.mem_map.2 ⟨'\\', hmem, rfl⟩)

theorem mem_of_mem_forward {c : Char} (hc : c ≠ '/') (h : c ∈ forward s) : c ∈ s := by
  obtain ⟨d, hd, heq⟩ := List.mem_map.1 h
  split at heq
  · exact absurd heq.symm hc
  · rwa [← heq]

theorem notMem_forward {c : Char} (hc : c ≠ '/') (h : c ∉ s) : c ∉ forward s :=
  fun hmem => h (mem_of_mem_forward hc hmem)

theorem map_forward_of_notMem {texts : List Text} (h : ∀ text ∈ texts, '\\' ∉ text) : texts.map forward = texts :=
  (List.map_congr_left fun text htext => forward_of_notMem (h text htext)).trans (List.map_id _)

theorem length_before_le (mark : Char) (s : Text) : (before mark s).length ≤ s.length :=
  (List.takeWhile_prefix _).length_le

/-- A text that is no shorter in front of a mark does not hold the mark. -/
theorem notMem_of_length_le_before (h : s.length ≤ (before mark s).length) : mark ∉ s := by
  have hwhole : before mark s = s := (List.takeWhile_prefix _).eq_of_length_le h
  rw [← hwhole]
  exact notMem_before mark s

theorem before_append_of_notMem (h : mark ∉ a) (b : Text) : before mark (a ++ b) = a ++ before mark b := by
  apply List.takeWhile_append_of_pos
  intro c hc
  simpa using fun e : c = mark => h (e ▸ hc)

theorem after_append_of_notMem (h : mark ∉ a) (b : Text) : after mark (a ++ b) = after mark b := by
  have hkept : ∀ c ∈ a, (c != mark) = true := by
    intro c hc
    simpa using fun e : c = mark => h (e ▸ hc)
  simp only [after, List.dropWhile_append_of_pos hkept]

@[simp] theorem before_mark_cons (mark : Char) (s : Text) : before mark (mark :: s) = [] := by
  simp [before]

@[simp] theorem after_mark_cons (mark : Char) (s : Text) : after mark (mark :: s) = s := by
  simp [after]

theorem before_append_mark_cons (h : mark ∉ a) (b : Text) : before mark (a ++ mark :: b) = a := by
  rw [before_append_of_notMem h, before_mark_cons, List.append_nil]

theorem after_append_mark_cons (h : mark ∉ a) (b : Text) : after mark (a ++ mark :: b) = b := by
  rw [after_append_of_notMem h, after_mark_cons]

theorem before_append_marked (h : mark ∉ a) (b : Text) : before mark (a ++ marked mark b) = a := by
  unfold marked
  split
  · rw [List.append_nil, before_of_notMem h]
  · exact before_append_mark_cons h b

theorem after_append_marked (h : mark ∉ a) (b : Text) : after mark (a ++ marked mark b) = b := by
  unfold marked
  split
  · next hb => rw [List.append_nil, after_of_notMem h, hb]
  · exact after_append_mark_cons h b

/-- A text with the mark in it is that mark between two parts, and the first
    part has none. -/
theorem exists_of_mem (h : mark ∈ s) : ∃ a b, mark ∉ a ∧ s = a ++ mark :: b :=
  ⟨before mark s, after mark s, notMem_before mark s, (before_append_after h).symm⟩

theorem before_append_of_mem (h : mark ∈ a) (b : Text) : before mark (a ++ b) = before mark a := by
  obtain ⟨x, y, hx, rfl⟩ := exists_of_mem h
  rw [List.append_assoc, List.cons_append, before_append_mark_cons hx, before_append_mark_cons hx]

theorem after_append_of_mem (h : mark ∈ a) (b : Text) : after mark (a ++ b) = after mark a ++ b := by
  obtain ⟨x, y, hx, rfl⟩ := exists_of_mem h
  rw [List.append_assoc, List.cons_append, after_append_mark_cons hx, after_append_mark_cons hx]

theorem mem_head?_of_before {c : Char} (h : c ∈ (before mark s).head?) : c ∈ s.head? := by
  cases s with
  | nil => exact h
  | cons d r =>
    by_cases hd : d = mark
    · simp [hd] at h
    · simpa [before, hd] using h

theorem marked_eq_nil_iff : marked mark s = [] ↔ s = [] := by
  unfold marked
  split
  · simp [*]
  · simp [*]

theorem notMem_marked (hne : other ≠ mark) (h : other ∉ s) : other ∉ marked mark s := by
  unfold marked
  split
  · exact List.not_mem_nil
  · simp [hne, h]

/-- Two cuts at the front commute. -/
theorem before_before (mark other : Char) (s : Text) :
    before mark (before other s) = before other (before mark s) := by
  simp only [before, List.takeWhile_takeWhile, and_comm]

/-- What stands behind a mark and in front of another: nothing, when the other
    comes first. -/
theorem after_before (hne : mark ≠ other) (s : Text) :
    after mark (before other s) = if other ∈ before mark s then [] else before other (after mark s) := by
  by_cases hm : mark ∈ s
  · obtain ⟨a, b, ha, rfl⟩ := exists_of_mem hm
    rw [before_append_mark_cons ha, after_append_mark_cons ha]
    split
    · next ho =>
      obtain ⟨x, y, hx, rfl⟩ := exists_of_mem ho
      rw [List.append_assoc, List.cons_append, before_append_mark_cons hx]
      exact after_of_notMem fun hmem => ha (List.mem_append_left _ hmem)
    · next ho =>
      rw [before_append_of_notMem ho]
      have hcons : before other (mark :: b) = mark :: before other b := by simp [before, hne]
      rw [hcons, after_append_mark_cons ha]
  · rw [after_of_notMem hm, after_of_notMem fun hmem => hm (mem_of_mem_before hmem)]
    exact (ite_self _).symm

/-- The part behind a mark is put back by its marked form just when something
    stands there. -/
theorem append_marked_after_eq_iff (h : mark ∉ a) :
    a ++ marked mark (after mark s) = s ↔ a = before mark s ∧ (mark ∈ s → after mark s ≠ []) := by
  by_cases hm : mark ∈ s
  · obtain ⟨x, y, hx, rfl⟩ := exists_of_mem hm
    rw [before_append_mark_cons hx, after_append_mark_cons hx, marked]
    split
    · next hy =>
      rw [List.append_nil]
      constructor
      · intro hsame
        exact absurd (hsame ▸ hm) h
      · rintro ⟨-, hne⟩
        exact absurd hy (hne hm)
    · next hy => simp [hy]
  · simp [before_of_notMem hm, after_of_notMem hm, hm, marked]

theorem prefix_before_iff (h : mark ∉ a) : a <+: before mark s ↔ a <+: s := by
  constructor
  · intro hprefix
    exact hprefix.trans (List.takeWhile_prefix _)
  · rintro ⟨rest, rfl⟩
    rw [before_append_of_notMem h]
    exact List.prefix_append a _

/-- Nothing stands behind the first mark when the text holds none but at its
    end. -/
theorem after_eq_nil_iff : after mark s = [] ↔ mark ∉ s.dropLast := by
  by_cases hm : mark ∈ s
  · obtain ⟨a, b, ha, rfl⟩ := exists_of_mem hm
    rw [after_append_mark_cons ha]
    cases b with
    | nil => simpa using ha
    | cons c r => simp
  · simpa [after_of_notMem hm] using fun hmem => hm (List.dropLast_subset _ hmem)

end Locator.Text
