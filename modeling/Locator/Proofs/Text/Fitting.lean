import Locator.Text.Utf8.Lemmas
import Mathlib.Data.Nat.Find

namespace Locator.Utf8

variable {room i : Nat} {s front : Text}

theorem encode_prefix_encode (h : front <+: s) : encode front <+: encode s := by
  obtain ⟨rest, rfl⟩ := h
  exact ⟨encode rest, (encode_append front rest).symm⟩

/-- A part of whole characters at the front of a text, no larger than the room
    in bytes and the longest such part. -/
structure IsLongestFit (room : Nat) (s front : Text) : Prop where
  opens : front <+: s
  fits : (encode front).length ≤ room
  longest : ∀ other, other <+: s → (encode other).length ≤ room → other <+: front

theorem prefix_fitting (hfront : front <+: s) (hfits : size front ≤ room) : front <+: fitting room s := by
  induction s generalizing room front with
  | nil => exact hfront
  | cons c r ih =>
    cases front with
    | nil => exact List.nil_prefix
    | cons d rest =>
      obtain ⟨rfl, hrest⟩ := List.cons_prefix_cons.1 hfront
      rw [size] at hfits
      rw [fitting, if_pos (by omega)]
      exact List.cons_prefix_cons.2 ⟨rfl, ih hrest (by omega)⟩

theorem isLongestFit_fitting (room : Nat) (s : Text) : IsLongestFit room s (fitting room s) where
  opens := fitting_prefix room s
  fits := by
    rw [length_encode]
    exact size_fitting_le room s
  longest := by
    intro other hother hfits
    rw [length_encode] at hfits
    exact prefix_fitting hother hfits

/-- No other part is the longest that fits. -/
theorem isLongestFit_iff : IsLongestFit room s front ↔ front = fitting room s := by
  have hfitting := isLongestFit_fitting room s
  constructor
  · intro h
    have hle : front <+: fitting room s := hfitting.longest front h.opens h.fits
    have hge : fitting room s <+: front := h.longest (fitting room s) hfitting.opens hfitting.fits
    exact hle.eq_of_length_le hge.length_le
  · rintro rfl
    exact hfitting

theorem fitting_of_length_le (h : (encode s).length ≤ room) : fitting room s = s :=
  (isLongestFit_iff.1 ⟨List.prefix_rfl, h, fun _ hother _ => hother⟩).symm

/-- What fits into one room and then into another fits into the smaller one. -/
theorem fitting_fitting (n m : Nat) (s : Text) : fitting m (fitting n s) = fitting (min n m) s := by
  have hn := isLongestFit_fitting n s
  have hm := isLongestFit_fitting m (fitting n s)
  apply isLongestFit_iff.1
  refine ⟨hm.opens.trans hn.opens, ?_, ?_⟩
  · have hle := (encode_prefix_encode hm.opens).length_le
    exact Nat.le_min.2 ⟨Nat.le_trans hle hn.fits, hm.fits⟩
  · intro other hother hfits
    have hfirst : other <+: fitting n s := hn.longest other hother (Nat.le_trans hfits (Nat.min_le_left n m))
    exact hm.longest other hfirst (Nat.le_trans hfits (Nat.min_le_right n m))

/-- A place in bytes that cuts no character, as the bytes alone tell it: either
    end, or in front of a byte that is not an inner one. -/
def isBoundary (bytes : List UInt8) (i : Nat) : Bool :=
  i == 0 || i == bytes.length || bytes[i]?.any (!isInner ·)

/-- The last boundary within the room, found by stepping back from the limit. -/
def lastBoundary (room : Nat) (bytes : List UInt8) : Nat :=
  Nat.findGreatest (fun i => isBoundary bytes i = true) room

/-- The bytes that are kept where there is room for so many. -/
def cut (room : Nat) (bytes : List UInt8) : List UInt8 :=
  if room < bytes.length then bytes.take (lastBoundary room bytes) else bytes

theorem isBoundary_iff {bytes : List UInt8} :
    isBoundary bytes i = true ↔ i = 0 ∨ i = bytes.length ∨ ∃ b, bytes[i]? = some b ∧ isInner b = false := by
  simp only [isBoundary, Bool.or_eq_true, beq_iff_eq, Option.any_eq_true, Bool.not_eq_true', or_assoc]

theorem isBoundary_length_encode (h : front <+: s) : isBoundary (encode s) (encode front).length = true := by
  obtain ⟨rest, rfl⟩ := h
  rw [isBoundary_iff, encode_append]
  cases rest with
  | nil => exact Or.inr (Or.inl (congrArg List.length (List.append_nil _).symm))
  | cons c rest =>
    obtain ⟨b, inner, hencode, hb, -⟩ := exists_encodeChar_eq_cons c
    refine Or.inr (Or.inr ⟨b, ?_, hb⟩)
    rw [encode_cons, hencode, List.getElem?_append_right (Nat.le_refl _), Nat.sub_self]
    rfl

theorem isBoundary_within_char {c : Char} (hpos : 0 < i) (hlt : i < (String.utf8EncodeChar c).length)
    (r : List UInt8) : isBoundary (String.utf8EncodeChar c ++ r) i = false := by
  obtain ⟨b, inner, hencode, -, hinner⟩ := exists_encodeChar_eq_cons c
  rw [hencode] at hlt ⊢
  obtain ⟨j, rfl⟩ := Nat.exists_eq_add_one_of_ne_zero (Nat.ne_of_gt hpos)
  have hj : j < inner.length := Nat.lt_of_succ_lt_succ hlt
  have hbyte : (b :: inner ++ r)[j + 1]? = some inner[j] := by
    rw [List.cons_append, List.getElem?_cons_succ, List.getElem?_append_left hj, List.getElem?_eq_getElem hj]
  rw [Bool.eq_false_iff, ne_eq, isBoundary_iff, hbyte]
  rintro (hstart | hend | ⟨d, hd, hfirst⟩)
  · cases hstart
  · rw [List.length_append] at hend
    omega
  · obtain rfl := Option.some.inj hd
    rw [hinner _ (List.getElem_mem hj)] at hfirst
    cases hfirst

theorem isBoundary_of_append {a b : List UInt8} (h : isBoundary (a ++ b) (a.length + i) = true) :
    isBoundary b i = true := by
  rw [isBoundary_iff] at h ⊢
  obtain hstart | hend | hbyte := h
  · exact Or.inl (by omega)
  · rw [List.length_append] at hend
    exact Or.inr (Or.inl (by omega))
  · rw [List.getElem?_append_right (Nat.le_add_right _ _), Nat.add_sub_cancel_left] at hbyte
    exact Or.inr (Or.inr hbyte)

/-- The boundaries in the bytes of a text are the ends of its parts of whole
    characters. -/
theorem isBoundary_encode_iff :
    isBoundary (encode s) i = true ↔ ∃ front, front <+: s ∧ (encode front).length = i := by
  constructor
  · intro h
    -- a place within the first character is no boundary, and one behind it is a boundary of the rest
    induction s generalizing i with
    | nil =>
      have hi : i = 0 := by simpa [isBoundary, encode] using h
      exact ⟨[], List.nil_prefix, hi.symm⟩
    | cons c r ih =>
      rw [encode_cons] at h
      by_cases hzero : i = 0
      · exact ⟨[], List.nil_prefix, hzero.symm⟩
      by_cases hwithin : i < (String.utf8EncodeChar c).length
      · rw [isBoundary_within_char (Nat.pos_of_ne_zero hzero) hwithin] at h
        cases h
      · obtain ⟨j, rfl⟩ := Nat.exists_eq_add_of_le (Nat.le_of_not_lt hwithin)
        obtain ⟨front, hfront, hlength⟩ := ih (isBoundary_of_append h)
        refine ⟨c :: front, List.cons_prefix_cons.2 ⟨rfl, hfront⟩, ?_⟩
        rw [encode_cons, List.length_append, hlength]
  · rintro ⟨front, hfront, rfl⟩
    exact isBoundary_length_encode hfront

/-- Stepping back ends where the longest part that fits does. -/
theorem lastBoundary_encode (room : Nat) (s : Text) :
    lastBoundary room (encode s) = (encode (fitting room s)).length := by
  have hfitting := isLongestFit_fitting room s
  apply Nat.le_antisymm
  · have hstart : isBoundary (encode s) 0 = true := rfl
    have hlast : isBoundary (encode s) (lastBoundary room (encode s)) = true :=
      Nat.findGreatest_spec (P := fun i => isBoundary (encode s) i = true) (Nat.zero_le room) hstart
    obtain ⟨front, hfront, hlength⟩ := isBoundary_encode_iff.1 hlast
    have hfits : (encode front).length ≤ room := by
      rw [hlength]
      exact Nat.findGreatest_le room
    rw [← hlength]
    exact (encode_prefix_encode (hfitting.longest front hfront hfits)).length_le
  · exact Nat.le_findGreatest hfitting.fits (isBoundary_length_encode hfitting.opens)

/-- The bytes kept of a text are those of the longest part that fits. -/
theorem cut_encode (room : Nat) (s : Text) : cut room (encode s) = encode (fitting room s) := by
  unfold cut
  split
  · have hfront := encode_prefix_encode (isLongestFit_fitting room s).opens
    rw [lastBoundary_encode]
    exact (List.prefix_iff_eq_take.1 hfront).symm
  · next hfits => rw [fitting_of_length_le (Nat.le_of_not_lt hfits)]

end Locator.Utf8
