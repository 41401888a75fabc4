import Locator.Proofs.Join.Relative
import Locator.Proofs.Local.RoundTrip
import Locator.Proofs.Path.Absorption

namespace Locator

open Text

variable {place : Place} {path base : Text} {components : List Text}

namespace Place

theorem areNames_fullNames (place : Place) (path : Text) : Path.AreNames (place.fullNames path) := by
  intro name hname
  unfold fullNames at hname
  exact Path.mem_names (Path.mem_of_mem_removeDots hname)

/-- Two full paths are the same when their names are. -/
theorem fullPath_eq_fullPath_iff {other : Place} {q : Text} :
    place.fullPath path = other.fullPath q ↔ place.fullNames path = other.fullNames q := by
  constructor
  · intro h
    rw [← (place.areNames_fullNames path).names_rooted, ← (other.areNames_fullNames q).names_rooted]
    exact congrArg Path.names h
  · intro h
    rw [fullPath, fullPath, h]

theorem fullNames_of_absolute (h : isAbsolute place.style (separated place.style path) = true) :
    place.fullNames path = Path.removeDots true (Path.names (separated place.style path)) := by
  simp only [fullNames, h, if_true]

/-- A relative path goes behind the working directory. -/
theorem fullNames_of_relative (h : isAbsolute place.style (separated place.style path) = false) :
    place.fullNames path =
      Path.removeDots true (Path.names place.cwd ++ Path.names (separated place.style path)) := by
  simp only [fullNames, h, Bool.false_eq_true, if_false, Path.names_append_slash]

theorem fullNames_of_posix (hstyle : place.style = .posix) (path : Text) :
    place.fullNames path =
      if Path.rooted path then Path.removeDots true (Path.names path)
      else Path.removeDots true (Path.names place.cwd ++ Path.names path) := by
  have hseparated : separated place.style path = path := by rw [hstyle, separated]
  have habsolute : isAbsolute place.style path = Path.rooted path := by simp [hstyle, isAbsolute]
  split
  · next h => rw [fullNames_of_absolute (by rwa [hseparated, habsolute]), hseparated]
  · next h => rw [fullNames_of_relative (by simpa [hseparated, habsolute] using h), hseparated]

end Place

namespace Join

section Relative

variable (hmarks : ∀ arg ∈ base :: components, '\\' ∉ arg ∧ '?' ∉ arg ∧ '#' ∉ arg)
  (hscheme : (Url.read base).scheme = []) (hrelative : anchor? (base :: components) = none)

include hmarks hscheme hrelative

/-- A relative local path is its own path, but for two bare slashes. -/
theorem path_of_local_base : base = "//".toList ∨ (Url.readPlain base).path = base ∧ Path.rooted base = false := by
  obtain ⟨-, hquestion, hhash⟩ := hmarks base List.mem_cons_self
  rw [Url.read_of_hash_notMem hhash] at hscheme
  exact Url.path_of_relative (anchor?_eq_none_iff.1 hrelative base List.mem_cons_self) hscheme hquestion

/-- Relative local paths are joined by name: the names of all of them are followed
    as one relative path. -/
theorem join_of_local (place : Place) :
    join place .append base components =
      Path.slashed (Path.removeDots false ((base :: components).flatMap Path.names)) := by
  obtain ⟨hback, hquestion, hhash⟩ := hmarks base List.mem_cons_self
  have hread := Url.read_of_hash_notMem hhash
  have hplain := anchor?_eq_none_iff.1 hrelative base List.mem_cons_self
  have hquery : (Url.readPlain base).query = [] := Url.query_readPlain_of_notMem hquestion
  have hpath : Path.names (Url.readPlain base).path = Path.names base := by
    obtain rfl | ⟨hpath, -⟩ := path_of_local_base hmarks hscheme hrelative
    · rfl
    · rw [hpath]
  have hbucket : bucketNames (Url.readPlain base) = [] := by
    rw [hread] at hscheme
    exact if_neg fun h => absurd (hscheme.symm.trans h.1) (by decide)
  have hnames : joinedNames .append (Url.readPlain base) components =
      Path.removeDots false ((base :: components).flatMap Path.names) := by
    rw [joinedNames, hplain, hbucket, baseNames, hpath, List.nil_append, List.flatMap_cons]
  have hargs : (base :: components).map forward = base :: components :=
    map_forward_of_notMem fun arg harg => (hmarks arg harg).1
  have hcomponents : components.map forward = components := (List.cons.inj hargs).2
  rw [join_of_relative place .append (by rwa [hargs]), forward_of_notMem hback, hcomponents,
    write_onto_of_relative (Url.wellFormed_read base) (by rwa [hread]), Url.schemeMark, if_pos hscheme, hread,
    hnames, hquery]
  simp [marked]

theorem fullNames_join_of_local (place host : Place) (hstyle : place.style = .posix) :
    place.fullNames (join host .append base components) =
      Path.removeDots true (Path.names place.cwd ++ (base :: components).flatMap Path.names) := by
  have hnames : Path.AreNames (Path.removeDots false ((base :: components).flatMap Path.names)) := by
    intro name hname
    obtain ⟨arg, -, harg⟩ := List.mem_flatMap.1 (Path.mem_of_mem_removeDots hname)
    exact Path.mem_names harg
  rw [join_of_local hmarks hscheme hrelative, Place.fullNames_of_posix hstyle,
    Path.rooted_eq_false hnames.head?_slashed, if_neg Bool.false_ne_true, hnames.names_slashed,
    Path.removeDots_append_removeDots]

/-- Relative local paths joined and then resolved lead where the file system takes
    them, one after the other from the working directory. Two slashes alone are
    the root to a file system and name nothing to a join: with them in front both
    lead to one place only when the rest climbs out of the whole directory. -/
theorem fullPath_join_eq_iff (place host : Place) (hstyle : place.style = .posix) (hne : base ≠ []) :
    place.fullPath (join host .append base components) = place.fullPath (Path.slashed (base :: components)) ↔
      (base = "//".toList → (place.fullNames []).length ≤ (Path.trail (components.flatMap Path.names)).climbs) := by
  rw [Place.fullPath_eq_fullPath_iff, fullNames_join_of_local hmarks hscheme hrelative place host hstyle,
    Place.fullNames_of_posix hstyle, Path.rooted_slashed_cons hne, Path.names_slashed_eq_flatMap]
  obtain rfl | ⟨-, hrooted⟩ := path_of_local_base hmarks hscheme hrelative
  · have hnothing : ("//".toList :: components).flatMap Path.names = components.flatMap Path.names := rfl
    have hdirectory : place.fullNames [] = Path.removeDots true (Path.names place.cwd) := by
      rw [Place.fullNames_of_posix hstyle, if_neg (by decide)]
      exact congrArg (Path.removeDots true) (List.append_nil _)
    rw [if_pos (by decide), hnothing, hdirectory, Path.removeDots_append_eq_iff]
    exact ⟨fun hclimbs _ => hclimbs, fun hclimbs => hclimbs rfl⟩
  · have hslashes : base ≠ "//".toList := by
      rintro rfl
      exact absurd hrooted (by decide)
    rw [if_neg (by simp [hrooted])]
    exact iff_of_true rfl fun h => absurd h hslashes

end Relative

/-- Climbs out of the base, out of the joined path and out of the directory. -/
theorem fullPath_join_of_climbing :
    (∀ arg ∈ "x/./y:z".toList :: ["../../..".toList, "t//".toList, "../../../w".toList],
      '\\' ∉ arg ∧ '?' ∉ arg ∧ '#' ∉ arg) ∧
    anchor? ("x/./y:z".toList :: ["../../..".toList, "t//".toList, "../../../w".toList]) = none ∧
    join (Place.make .posix ['/']) .append "x/./y:z".toList ["../../..".toList, "t//".toList, "../../../w".toList] =
      "../../../w".toList ∧
    (Place.make .posix "/u/v".toList).fullPath (join (Place.make .posix ['/']) .append "x/./y:z".toList
        ["../../..".toList, "t//".toList, "../../../w".toList]) =
      (Place.make .posix "/u/v".toList).fullPath "x/./y:z/../../../t///../../../w".toList :=
  ⟨by decide, by decide, by decide, (fullPath_join_eq_iff (by decide) (by decide) (by decide)
    (Place.make .posix "/u/v".toList) (Place.make .posix ['/']) rfl (by decide)).2 (by decide)⟩

/-- Two bare slashes are joined as nothing, which leads to `/work/b`, and are the
    root when they are resolved, which leads to `/b`. -/
theorem fullPath_join_ne :
    "//".toList ≠ [] ∧ (∀ arg ∈ "//".toList :: ["b".toList], '\\' ∉ arg ∧ '?' ∉ arg ∧ '#' ∉ arg) ∧
      (Url.read "//".toList).scheme = [] ∧ anchor? ("//".toList :: ["b".toList]) = none ∧
      (Place.make .posix "/work".toList).fullPath (join (Place.make .posix ['/']) .append "//".toList ["b".toList]) ≠
        (Place.make .posix "/work".toList).fullPath (Path.slashed ("//".toList :: ["b".toList])) := by
  decide

end Join

end Locator
