import Locator.Proofs.Local.FullPath
import Locator.Proofs.Path.Resolved

namespace Locator.Place

open Text

variable {place : Place} {path : Text} {names : List Text}

/-- A rooted path that is written in one way only: one slash in front, names that
    stand for themselves, and no slash at the end but that of the root. -/
structure IsFull (path : Text) : Prop where
  rooted : path.head? = some '/'
  once : path.tail.head? ≠ some '/'
  named : path ≠ Path.root → ∀ piece ∈ path.tail.splitOn '/', piece ≠ [] ∧ piece ≠ ['.'] ∧ piece ≠ ['.', '.']
  final : path ≠ Path.root → path.getLast? ≠ some '/'

/-- Such a path is that of its names. -/
theorem IsFull.exists_names (h : IsFull path) :
    ∃ names, path = '/' :: Path.slashed names ∧ Path.AreNames names ∧ ∀ name ∈ names, Path.Plain name := by
  obtain ⟨rest, rfl⟩ := List.head?_eq_some_iff.1 h.rooted
  by_cases hrest : rest = []
  · exact ⟨[], by rw [hrest]; rfl, List.forall_mem_nil _, List.forall_mem_nil _⟩
  · have hnamed := h.named fun hroot => hrest (List.cons_injective hroot)
    refine ⟨rest.splitOn '/', ?_, ?_, ?_⟩
    · rw [Path.slashed, List.intercalate_splitOn]
    · intro piece hpiece
      exact ⟨(hnamed piece hpiece).1, Path.slash_notMem_of_mem_splitOn hpiece⟩
    · intro piece hpiece
      have hslash := Path.slash_notMem_of_mem_splitOn hpiece
      exact (Path.plain_iff_of_slash_notMem hslash).2 (by simpa using hnamed piece hpiece)

theorem isFull_slashed (h : Path.AreNames names) (hplain : ∀ name ∈ names, Path.Plain name) :
    IsFull ('/' :: Path.slashed names) where
  rooted := rfl
  once := h.head?_slashed
  named := by
    intro hroot piece hpiece
    have hne : names ≠ [] := by
      rintro rfl
      exact hroot rfl
    rw [List.tail_cons, h.splitOn_slashed hne] at hpiece
    obtain ⟨hnone, hdot, -, hclimb⟩ := hplain piece hpiece
    exact ⟨hnone, hdot, hclimb⟩
  final := by
    intro hroot hlast
    have hsome : Path.slashed names ≠ [] := fun hnone => hroot (congrArg ('/' :: ·) hnone)
    obtain ⟨c, rest, hcons⟩ := List.exists_cons_of_ne_nil hsome
    apply h.getLast?_slashed
    rwa [hcons, ← List.getLast?_cons_cons, ← hcons]

theorem isFull_fullPath (place : Place) (path : Text) : IsFull (place.fullPath path) :=
  isFull_slashed (place.areNames_fullNames path) fun _ hname => plain_of_mem_fullNames hname

/-- The directory and, where it is a separator, the backslash of a path leave no
    backslash behind. -/
theorem backslash_notMem_fullPath (h : place.style = .posix → '\\' ∉ path) : '\\' ∉ place.fullPath path := by
  apply notMem_fullPath_of_separated (by decide) place.backslash_notMem
  unfold separated
  split
  · next hstyle => exact h hstyle
  · exact backslash_notMem_forward path

theorem backslash_notMem_fullPath_of_windows (h : place.style = .windows) (path : Text) :
    '\\' ∉ place.fullPath path := by
  apply backslash_notMem_fullPath
  intro hposix
  rw [h] at hposix
  cases hposix

theorem separated_of_notMem (h : place.style = .windows → '\\' ∉ path) : separated place.style path = path := by
  unfold separated
  split
  · rfl
  · next hstyle => exact forward_of_notMem (h hstyle)

/-- A full path means itself wherever it is read. -/
theorem IsFull.fullPath_eq (h : IsFull path) (hmark : place.style = .windows → '\\' ∉ path) :
    place.fullPath path = path := by
  obtain ⟨names, rfl, hnames, hplain⟩ := h.exists_names
  have hseparated := separated_of_notMem hmark
  have habsolute : isAbsolute place.style (separated place.style ('/' :: Path.slashed names)) = true := by
    rw [hseparated]
    rfl
  rw [fullPath, fullNames_of_absolute habsolute, hseparated, hnames.names_rooted, Path.removeDots_of_plain hplain]

/-- The paths that mean themselves are the same at every place of a style. -/
theorem fullPath_eq_self_iff :
    place.fullPath path = path ↔ IsFull path ∧ (place.style = .windows → '\\' ∉ path) := by
  constructor
  · intro h
    refine ⟨h ▸ isFull_fullPath place path, ?_⟩
    intro hstyle
    rw [← h]
    exact backslash_notMem_fullPath_of_windows hstyle path
  · rintro ⟨hfull, hmark⟩
    exact hfull.fullPath_eq hmark

theorem separated_append_slash (style : Style) (path next : Text) :
    separated style (path ++ '/' :: next) = separated style path ++ '/' :: separated style next := by
  cases style with
  | posix => rfl
  | windows => exact forward_append path ('/' :: next)

theorem separated_ne_nil (h : path ≠ []) (style : Style) : separated style path ≠ [] := by
  cases style with
  | posix => exact h
  | windows => simpa [separated, forward] using h

/-- What goes behind a path and a slash does not make it absolute. -/
theorem isAbsolute_append_slash (style : Style) (h : path ≠ []) (next : Text) :
    isAbsolute style (path ++ '/' :: next) = isAbsolute style path := by
  have hdrive : hasDrive (path ++ '/' :: next) = hasDrive path := by
    match path with
    | [] => exact absurd rfl h
    | [_] => rfl
    | _ :: ':' :: _ => rfl
    | _ :: mark :: _ => by_cases hmark : mark = ':' <;> simp [hasDrive, hmark]
  rw [isAbsolute, isAbsolute, Path.rooted_append h, hdrive]

/-- The names behind a slash are followed from where the path in front of it
    leads. -/
theorem fullNames_append_slash (place : Place) (h : path ≠ []) (next : Text) :
    place.fullNames (path ++ '/' :: next) =
      Path.removeDots true (place.fullNames path ++ Path.names (separated place.style next)) := by
  have hseparated := separated_append_slash place.style path next
  have hsame := isAbsolute_append_slash place.style (separated_ne_nil h place.style) (separated place.style next)
  rw [← hseparated] at hsame
  cases habsolute : isAbsolute place.style (separated place.style path) with
  | true =>
    rw [habsolute] at hsame
    rw [fullNames_of_absolute hsame, fullNames_of_absolute habsolute, hseparated, Path.names_append_slash,
      Path.removeDots_removeDots_append]
  | false =>
    rw [habsolute] at hsame
    rw [fullNames_of_relative hsame, fullNames_of_relative habsolute, hseparated, Path.names_append_slash,
      Path.removeDots_removeDots_append, List.append_assoc]

/-- A full path serves as the directory that relative paths start from. -/
theorem fullNames_make_fullPath (hmark : '\\' ∉ place.fullPath path) {next : Text}
    (hnext : isAbsolute place.style (separated place.style next) = false) :
    (make place.style (place.fullPath path)).fullNames next =
      Path.removeDots true (place.fullNames path ++ Path.names (separated place.style next)) := by
  have hcwd : (make place.style (place.fullPath path)).cwd = place.fullPath path := forward_of_notMem hmark
  have hnames : Path.names (place.fullPath path) = place.fullNames path :=
    (place.areNames_fullNames path).names_rooted
  have hrelative : isAbsolute (make place.style (place.fullPath path)).style
      (separated (make place.style (place.fullPath path)).style next) = false := hnext
  rw [fullNames_of_relative hrelative, hcwd, hnames]
  rfl

/-- A local path leads to a path in normal form, which every place of the same
    style leaves as it is. Going on from there with a relative path leads where
    both lead when they are written behind each other. -/
theorem fullPath_isFull_and_composes (place : Place) (path : Text) :
    IsFull (place.fullPath path) ∧
      (place.fullPath path = path ↔ IsFull path ∧ (place.style = .windows → '\\' ∉ path)) ∧
      (∀ other : Place, other.style = place.style → other.fullPath (place.fullPath path) = place.fullPath path) ∧
      ∀ next, path ≠ [] → isAbsolute place.style (separated place.style next) = false →
        (place.style = .posix → '\\' ∉ path) →
        place.fullPath (path ++ '/' :: next) = (make place.style (place.fullPath path)).fullPath next := by
  refine ⟨isFull_fullPath place path, fullPath_eq_self_iff, ?_, ?_⟩
  · intro other hstyle
    apply (isFull_fullPath place path).fullPath_eq
    intro hwindows
    rw [hstyle] at hwindows
    exact backslash_notMem_fullPath_of_windows hwindows path
  · intro next hne hnext hmark
    have hdirectory := fullNames_make_fullPath (backslash_notMem_fullPath hmark) hnext
    rw [fullPath_eq_fullPath_iff, fullNames_append_slash place hne next, hdirectory]

/-- Out of the directory and down from its drive, with either separator. -/
theorem fullPath_composes_below_drive :
    (make .windows "D:\\".toList).style = (make .windows "C:\\u\\v".toList).style ∧
      "..\\w/.".toList ≠ [] ∧
      isAbsolute .windows (separated .windows "../..\\y//".toList) = false ∧
      (make .windows "D:\\".toList).fullPath ((make .windows "C:\\u\\v".toList).fullPath "..\\w/.".toList) =
        "/C:/u/w".toList ∧
      (make .windows "C:\\u\\v".toList).fullPath ("..\\w/.".toList ++ '/' :: "../..\\y//".toList) = "/C:/y".toList := by
  obtain ⟨-, -, hstable, hcomposes⟩ :=
    fullPath_isFull_and_composes (make .windows "C:\\u\\v".toList) "..\\w/.".toList
  have hnext := hcomposes "../..\\y//".toList (by decide) (by decide) nofun
  exact ⟨rfl, by decide, by decide, (hstable _ rfl).trans (by decide), hnext.trans (by decide)⟩

end Locator.Place
