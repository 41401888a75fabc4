import Locator.Proofs.Download.Name
import Locator.Proofs.Text.Fitting

namespace Locator.Download

variable {style : Style} {maxBytes : Nat} {name : Text}

theorem unreserved_eq_self_iff : unreserved style name = name ↔ ∀ c ∈ name, isReserved style c = false := by
  constructor
  · intro h c hc
    rw [← h] at hc
    exact isReserved_of_mem_unreserved hc
  · intro h
    refine (List.map_congr_left fun c hc => ?_).trans (List.map_id _)
    rw [h c hc]
    rfl

/-- Cleaning leaves the names that hold no reserved character and are within the
    limit, and no others. -/
theorem clean_eq_self_iff :
    clean style maxBytes name = name ↔
      (∀ c ∈ name, isReserved style c = false) ∧ (Utf8.encode name).length ≤ maxBytes := by
  constructor
  · intro h
    refine ⟨fun c hc => ?_, ?_⟩
    · rw [← h] at hc
      exact isReserved_of_mem_clean hc
    · rw [← h]
      exact (Utf8.isLongestFit_fitting maxBytes _).fits
  · rintro ⟨hfree, hlength⟩
    rw [clean_eq_fitting, unreserved_eq_self_iff.2 hfree, Utf8.fitting_of_length_le hlength]

/-- What has been cleaned is only cut when it is cleaned again. -/
theorem clean_clean_eq_clean_min (style : Style) (n m : Nat) (name : Text) :
    clean style m (clean style n name) = clean style (min n m) name := by
  have hfree : unreserved style (clean style n name) = clean style n name :=
    unreserved_eq_self_iff.2 fun c hc => isReserved_of_mem_clean hc
  rw [clean_eq_fitting style m, hfree]
  exact Utf8.fitting_fitting n m _

/-- A cleaned name is the longest part of whole characters that is within the
    limit of the name with its reserved characters replaced, and it ends where
    stepping back from the limit byte by byte does: at a boundary between two
    characters. Cleaning once more gives what the smaller of the two limits does,
    so that a second time changes nothing. -/
theorem isLongestFit_clean_iff (style : Style) (n m : Nat) (name : Text) :
    (∀ front, Utf8.IsLongestFit n (unreserved style name) front ↔ front = clean style n name) ∧
    (Utf8.cut n (Utf8.encode (unreserved style name)) = Utf8.encode (clean style n name) ∧
      Utf8.lastBoundary n (Utf8.encode (unreserved style name)) = (Utf8.encode (clean style n name)).length) ∧
    clean style m (clean style n name) = clean style (min n m) name ∧
    clean style n (clean style n name) = clean style n name := by
  have hidem : clean style n (clean style n name) = clean style n name := by
    rw [clean_clean_eq_clean_min, Nat.min_self]
  exact ⟨fun _ => Utf8.isLongestFit_iff, ⟨Utf8.cut_encode n _, Utf8.lastBoundary_encode n _⟩,
    clean_clean_eq_clean_min style n m name, hidem⟩

/-- The limit falls within the second letter. -/
example : clean .posix 3 "éé".toList = "é".toList := rfl

end Locator.Download
