import Locator.Proofs.Local.RoundTrip

namespace Locator

namespace Url

theorem read_canonical (s : Text) : read (canonical s) = read s :=
  (wellFormed_read s).read_write

theorem canonical_canonical (s : Text) : canonical (canonical s) = canonical s :=
  congrArg write (read_canonical s)

end Url

namespace Place

variable {place : Place} {s : Text}

theorem recognized_fileUrl (place : Place) (path : Text) : (Url.read (place.fileUrl path)).recognized = true := by
  rw [read_fileUrl]
  rfl

/-- The address of a local path is written in the one way that addresses are:
    its path is rooted and escaped, so that it opens no host and ends at no
    mark. -/
theorem canonical_fileUrl (place : Place) (path : Text) : Url.canonical (place.fileUrl path) = place.fileUrl path := by
  rw [Url.canonical, read_fileUrl, FileUrl.write_of_rooted rfl]
  exact (List.append_nil _).trans (List.append_nil _)

theorem address_of_recognized (h : (Url.read s).recognized = true) (place : Place) :
    place.address s = Url.canonical s :=
  if_pos h

theorem address_of_unrecognized (h : (Url.read s).recognized = false) (place : Place) :
    place.address s = place.fileUrl s :=
  if_neg (Bool.eq_false_iff.1 h)

/-- What a text is promoted to, whichever of the two it was taken for, is an
    address with a recognized scheme in canonical form. -/
theorem address_isCanonical (place : Place) (s : Text) :
    (Url.read (place.address s)).recognized = true ∧ Url.canonical (place.address s) = place.address s := by
  cases h : (Url.read s).recognized with
  | true =>
    rw [address_of_recognized h, Url.read_canonical]
    exact ⟨h, Url.canonical_canonical s⟩
  | false =>
    rw [address_of_unrecognized h]
    exact ⟨recognized_fileUrl place s, canonical_fileUrl place s⟩

/-- The texts that are promoted to themselves are the same at every place. -/
theorem address_eq_self_iff :
    place.address s = s ↔ (Url.read s).recognized = true ∧ Url.canonical s = s := by
  constructor
  · intro h
    have hcanonical := address_isCanonical place s
    rwa [h] at hcanonical
  · rintro ⟨hrecognized, hcanonical⟩
    rw [address_of_recognized hrecognized, hcanonical]

/-- Promotion lands on an address in canonical form, where promotion at any place
    leaves it. -/
theorem address_address (place : Place) (s : Text) :
    (Url.read (place.address s)).recognized = true ∧
      Url.canonical (place.address s) = place.address s ∧
      ∀ other : Place, other.address (place.address s) = place.address s := by
  obtain ⟨hrecognized, hcanonical⟩ := address_isCanonical place s
  exact ⟨hrecognized, hcanonical, fun other => address_eq_self_iff.2 ⟨hrecognized, hcanonical⟩⟩

example : (make .windows "C:\\me".toList).address "a?b".toList = "file:///C:/me/a%3Fb".toList := by decide +kernel

end Place

end Locator
