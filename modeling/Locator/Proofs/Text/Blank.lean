import Locator.Proofs.Text.Mark
import Locator.Text.Blank

namespace Locator.Text

variable {s blanks : Text} {mark : Char}

theorem trimLeft_append_of_blank (h : ∀ c ∈ blanks, isBlank c = true) (s : Text) :
    trimLeft (blanks ++ s) = trimLeft s :=
  List.dropWhile_append_of_pos h

theorem trimLeft_of_head? (h : ∀ c ∈ s.head?, isBlank c = false) : trimLeft s = s := by
  cases s with
  | nil => rfl
  | cons c r => simp [trimLeft, h c rfl]

theorem head?_trimLeft (s : Text) : ∀ c ∈ (trimLeft s).head?, isBlank c = false :=
  head?_dropWhile isBlank s

theorem length_trimLeft_le (s : Text) : (trimLeft s).length ≤ s.length :=
  (List.dropWhile_suffix _).length_le

theorem length_after_le (mark : Char) (s : Text) : (after mark s).length ≤ s.length := by
  have hdrop := (List.dropWhile_suffix (l := s) (· != mark)).length_le
  rw [after, List.length_tail]
  omega

/-- A text with blanks behind it. Behind nothing they are skipped. -/
def padded (blanks s : Text) : Text :=
  if s = [] then [] else s ++ blanks

@[simp] theorem padded_cons (blanks : Text) (c : Char) (s : Text) : padded blanks (c :: s) = c :: (s ++ blanks) := rfl

theorem trimLeft_append_blanks (h : ∀ c ∈ blanks, isBlank c = true) (s : Text) :
    trimLeft (s ++ blanks) = padded blanks (trimLeft s) := by
  have hnone : trimLeft blanks = [] := List.dropWhile_eq_nil_iff.2 h
  rw [trimLeft, List.dropWhile_append]
  split
  · next hempty => rw [trimLeft, List.isEmpty_iff.1 hempty]; exact hnone
  · next hkept => exact (if_neg fun hempty => hkept (List.isEmpty_iff.2 hempty)).symm

theorem trimLeft_trimLeft (s : Text) : trimLeft (trimLeft s) = trimLeft s :=
  trimLeft_of_head? (head?_trimLeft s)

theorem exists_trimRight (s : Text) : ∃ blanks, (∀ c ∈ blanks, isBlank c = true) ∧ s = trimRight s ++ blanks := by
  refine ⟨(s.reverse.takeWhile isBlank).reverse, ?_, ?_⟩
  · intro c hc
    exact List.mem_takeWhile_imp (List.mem_reverse.1 hc)
  · rw [trimRight, ← List.reverse_append, List.takeWhile_append_dropWhile, List.reverse_reverse]

/-- Blanks on one side of a character that is none are trimmed on that side
    only. -/
theorem trimLeft_append_mark_cons (h : isBlank mark = false) (a b : Text) :
    trimLeft (a ++ mark :: b) = trimLeft a ++ mark :: b := by
  have hmark : trimLeft (mark :: b) = mark :: b := by simp [trimLeft, h]
  rw [trimLeft, List.dropWhile_append]
  split
  · next hempty => rw [trimLeft, List.isEmpty_iff.1 hempty, List.nil_append]; exact hmark
  · rfl

theorem trimRight_append_mark_cons (h : isBlank mark = false) (a b : Text) :
    trimRight (a ++ mark :: b) = a ++ mark :: trimRight b := by
  have hreverse : (a ++ mark :: b).reverse = b.reverse ++ mark :: a.reverse := by simp
  have hleft := trimLeft_append_mark_cons h b.reverse a.reverse
  rw [trimLeft, trimLeft] at hleft
  rw [trimRight, hreverse, hleft, trimRight]
  simp

theorem trim_append_mark_cons (h : isBlank mark = false) (a b : Text) :
    trim (a ++ mark :: b) = trimLeft a ++ mark :: trimRight b := by
  rw [trim, trimLeft_append_mark_cons h, trimRight_append_mark_cons h]

end Locator.Text
