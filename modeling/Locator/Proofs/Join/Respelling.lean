import Locator.Proofs.Join.Onto
import Locator.Proofs.Path.Absorption
import Mathlib.Logic.Relation

namespace Locator.Join

open Text

variable {cs ds : List Text}

/-- A spelling of components and one that differs from it in a single place: a
    component cut in two at a separator, one that only says here or says nothing,
    or a name that is climbed out of again. -/
inductive Respelled : List Text → List Text → Prop where
  | cut (front back : List Text) (a b : Text) (separator : Char) (h : separator = '/' ∨ separator = '\\') :
    Respelled (front ++ (a ++ separator :: b) :: back) (front ++ a :: b :: back)
  | here (front back : List Text) : Respelled (front ++ ['.'] :: back) (front ++ back)
  | empty (front back : List Text) : Respelled (front ++ [] :: back) (front ++ back)
  | detour (front back : List Text) {name : Text} (hplain : Path.Plain name) (hname : '/' ∉ name ∧ '\\' ∉ name) :
    Respelled (front ++ (name ++ "/..".toList) :: back) (front ++ back)

theorem names_detour {name : Text} (hplain : Path.Plain name) (hname : '/' ∉ name ∧ '\\' ∉ name) :
    Path.names (forward (name ++ "/..".toList)) = [name, ['.', '.']] := by
  have hnames : Path.AreNames [name] := by simpa [Path.AreNames] using ⟨hplain.1, hname.1⟩
  have hself : Path.names name = [name] := by
    have hslashed := hnames.names_slashed
    rwa [Path.slashed_singleton] at hslashed
  have hforward : forward (name ++ "/..".toList) = name ++ '/' :: ['.', '.'] := by
    rw [forward_append, forward_of_notMem hname.2]
    rfl
  rw [hforward, Path.names_append_slash, hself]
  rfl

/-- Another spelling follows the same trail, wherever it sets out. -/
theorem Respelled.foldl_follow (h : Respelled cs ds) (t : Path.Trail) :
    ((cs.map forward).flatMap Path.names).foldl Path.Trail.follow t =
      ((ds.map forward).flatMap Path.names).foldl Path.Trail.follow t := by
  cases h with
  | cut front back a b separator h =>
    have hforward : forward (a ++ separator :: b) = forward a ++ '/' :: forward b := by
      rw [forward_append]
      obtain rfl | rfl := h <;> rfl
    simp [hforward, Path.names_append_slash]
  | here front back =>
    have hnames : Path.names (forward ['.']) = [['.']] := by decide
    have hskip (t : Path.Trail) : t.follow ['.'] = t := Path.Trail.follow_of_skipped (Or.inr (Or.inl rfl)) t
    simp [hnames, hskip]
  | empty front back =>
    have hnames : Path.names (forward []) = [] := by decide
    simp [hnames]
  | detour front back hplain hname =>
    simp only [List.map_append, List.map_cons, List.flatMap_append, List.flatMap_cons, List.foldl_append,
      names_detour hplain hname, Path.foldl_follow_detour hplain]

theorem trail_eq_of_respelled (h : Relation.EqvGen Respelled cs ds) :
    Path.trail ((cs.map forward).flatMap Path.names) = Path.trail ((ds.map forward).flatMap Path.names) := by
  induction h with
  | rel cs ds h => exact h.foldl_follow Path.Trail.start
  | refl cs => rfl
  | symm cs ds _ ih => exact ih.symm
  | trans cs ds es _ _ ih ih' => exact ih.trans ih'

/-- Whatever the base, relative components are joined onto one address. -/
theorem exists_join_eq_onto (place : Place) (mode : Mode) (base : Text) :
    ∃ u, ∀ components ≠ [], (∀ component ∈ components, anchor? [forward component] = none) →
      join place mode base components = (onto mode u (components.map forward)).write := by
  cases hbase : (Url.readPlain (forward base)).absolute with
  | true =>
    exact ⟨_, fun _ hne hrelative => join_of_readPlain_absolute place mode hbase hne hrelative⟩
  | false =>
    refine ⟨Url.read (forward base), fun components _ hrelative => ?_⟩
    have hnone : anchor? ((base :: components).map forward) = none :=
      anchor?_eq_none_iff.2 (List.forall_mem_cons.2 ⟨hbase, relative_of_anchor?_eq_none hrelative⟩)
    exact join_of_relative place mode hnone

/-- Components of one trail leave the same names of any base. -/
theorem onto_eq_onto_of_trail_eq (mode : Mode) (base : Url) {xs ys : List Text}
    (h : Path.trail (xs.flatMap Path.names) = Path.trail (ys.flatMap Path.names)) :
    onto mode base xs = onto mode base ys := by
  have hnames : joinedNames mode base xs = joinedNames mode base ys :=
    Path.removeDots_append_eq_of_trail_eq h base.absolute _
  simp only [onto, hnames]

/-- A join sees relative components only by what they come to as a relative path:
    two lists of them that come to the same give the same join, and so do two
    spellings of one list. -/
theorem join_eq_join_of_removeDots_eq (place : Place) (mode : Mode) (base : Text) (hcs : cs ≠ []) (hds : ds ≠ [])
    (hcsRelative : ∀ c ∈ cs, anchor? [forward c] = none) (hdsRelative : ∀ d ∈ ds, anchor? [forward d] = none) :
    (Path.removeDots false ((cs.map forward).flatMap Path.segments) =
        Path.removeDots false ((ds.map forward).flatMap Path.segments) →
      join place mode base cs = join place mode base ds) ∧
    (Relation.EqvGen Respelled cs ds → join place mode base cs = join place mode base ds) := by
  obtain ⟨u, hjoin⟩ := exists_join_eq_onto place mode base
  have htrail (h : Path.trail ((cs.map forward).flatMap Path.names) =
      Path.trail ((ds.map forward).flatMap Path.names)) :
      join place mode base cs = join place mode base ds := by
    rw [hjoin cs hcs hcsRelative, hjoin ds hds hdsRelative, onto_eq_onto_of_trail_eq mode u h]
  constructor
  · intro h
    rw [← Path.trail_eq_trail_iff, Path.trail_flatMap_segments, Path.trail_flatMap_segments] at h
    exact htrail h
  · intro h
    exact htrail (trail_eq_of_respelled h)

/-- Components that climb above the bucket, grouped in two ways, move to the
    same other one. -/
theorem join_eq_join_of_climbing :
    Path.removeDots false ((["../../c/./d".toList, "e\\f/../".toList].map forward).flatMap Path.segments) =
        ["..".toList, "..".toList, "c".toList, "d".toList, "e".toList] ∧
      join (Place.make .posix ['/']) .follow "s3://b/k/x".toList ["../../c/./d".toList, "e\\f/../".toList] =
        join (Place.make .posix ['/']) .follow "s3://b/k/x".toList ["..\\..".toList, "c".toList, "d//e".toList] ∧
      join (Place.make .posix ['/']) .follow "s3://b/k/x".toList ["../../c/./d".toList, "e\\f/../".toList] =
        "s3://c/d/e".toList ∧
      join (Place.make .posix ['/']) .follow "s3://b/k/x".toList ["..\\c".toList, "d".toList] =
        join (Place.make .posix ['/']) .follow "s3://b/k/x".toList ["..".toList, "c".toList, "d".toList] := by
  refine ⟨by decide, ?_, by decide, ?_⟩
  · exact (join_eq_join_of_removeDots_eq (Place.make .posix ['/']) .follow "s3://b/k/x".toList (by decide) (by decide)
      (by decide) (by decide)).1 (by decide)
  · exact (join_eq_join_of_removeDots_eq (Place.make .posix ['/']) .follow "s3://b/k/x".toList (by decide) (by decide)
      (by decide) (by decide)).2
      (.rel _ _ (Respelled.cut [] ["d".toList] "..".toList "c".toList '\\' (Or.inr rfl)))

end Locator.Join
