import Locator.Proofs.Path.Absorption

namespace Locator.Path

variable {anchored : Bool} {names : List Text}

/-- Names that no dot name is left among but climbs in front, and behind an
    anchor not even those. -/
def Resolved (anchored : Bool) (names : List Text) : Prop :=
  ∃ climbs below, names = List.replicate climbs ['.', '.'] ++ below ∧ (∀ name ∈ below, Plain name) ∧
    (anchored = true → climbs = 0)

/-- Carrying out the dot names resolves any segments. -/
theorem resolved_removeDots (anchored : Bool) (segments : List Text) :
    Resolved anchored (removeDots anchored segments) := by
  have hplain : ∀ name ∈ (trail segments).names.reverse, Plain name :=
    fun name hname => (trail segments).plain name (List.mem_reverse.1 hname)
  cases anchored with
  | false => exact ⟨(trail segments).climbs, _, removeDots_unanchored segments, hplain, nofun⟩
  | true => exact ⟨0, _, removeDots_anchored segments, hplain, fun _ => rfl⟩

/-- What is resolved stays as it is. -/
theorem Resolved.removeDots_eq (h : Resolved anchored names) : removeDots anchored names = names := by
  obtain ⟨climbs, below, rfl, hplain, hanchored⟩ := h
  cases anchored with
  | false =>
    obtain ⟨hclimbs, hnames⟩ := trail_climbs_append climbs hplain
    rw [removeDots_unanchored, hclimbs, hnames, List.reverse_reverse]
  | true =>
    obtain rfl : climbs = 0 := hanchored rfl
    exact removeDots_of_plain hplain

theorem removeDots_eq_self_iff : removeDots anchored names = names ↔ Resolved anchored names := by
  constructor
  · intro h
    rw [← h]
    exact resolved_removeDots anchored names
  · exact Resolved.removeDots_eq

theorem removeDots_removeDots (anchored : Bool) (segments : List Text) :
    removeDots anchored (removeDots anchored segments) = removeDots anchored segments :=
  (resolved_removeDots anchored segments).removeDots_eq

/-- The front of a path may be cleared of its dot names beforehand. -/
theorem removeDots_removeDots_append (anchored : Bool) (xs ys : List Text) :
    removeDots anchored (removeDots anchored xs ++ ys) = removeDots anchored (xs ++ ys) := by
  rw [removeDots_append, removeDots_removeDots, ← removeDots_append]

/-- An anchor takes the climbs in front away and nothing else. -/
theorem removeDots_true_eq_dropWhile (segments : List Text) :
    removeDots true segments = (removeDots false segments).dropWhile (· = ['.', '.']) := by
  have hclimbs : ∀ name ∈ List.replicate (trail segments).climbs ['.', '.'], decide (name = ['.', '.']) = true := by
    intro name hname
    exact decide_eq_true (List.eq_of_mem_replicate hname)
  have hplain : ∀ name ∈ removeDots true segments, Plain name := fun name hname => plain_of_mem_removeDots hname
  rw [removeDots_unanchored, List.dropWhile_append_of_pos hclimbs, ← removeDots_anchored]
  cases hnames : removeDots true segments with
  | nil => rfl
  | cons first rest =>
    rw [hnames] at hplain
    have hfirst : first ≠ ['.', '.'] := (hplain first List.mem_cons_self).2.2.2
    exact (List.dropWhile_cons_of_neg (by simpa using hfirst)).symm

/-- Dot names may be carried out beforehand on either side of a join: in front as
    the whole path is, at the back always as in a relative path, whose climbs
    are still to be made. What is resolved is exactly what stays as it is. -/
theorem removeDots_append_absorbs (anchored : Bool) (xs ys : List Text) :
    removeDots anchored (removeDots anchored xs ++ ys) = removeDots anchored (xs ++ ys) ∧
      removeDots anchored (xs ++ removeDots false ys) = removeDots anchored (xs ++ ys) ∧
      removeDots anchored (removeDots anchored xs) = removeDots anchored xs ∧
      (removeDots anchored xs = xs ↔ Resolved anchored xs) ∧
      removeDots true xs = (removeDots false xs).dropWhile (· = ['.', '.']) := by
  refine ⟨?_, ?_, ?_, ?_, ?_⟩
  · exact removeDots_removeDots_append anchored xs ys
  · exact removeDots_append_removeDots anchored xs ys
  · exact removeDots_removeDots anchored xs
  · exact removeDots_eq_self_iff
  · exact removeDots_true_eq_dropWhile xs

/-- At the back an anchor would lose the climbs. -/
example : removeDots true ([['a']] ++ removeDots true [['.', '.'], ['b']]) ≠
    removeDots true ([['a']] ++ [['.', '.'], ['b']]) := by decide

end Locator.Path
