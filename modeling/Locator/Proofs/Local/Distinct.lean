import Locator.Proofs.Local.RoundTrip

namespace Locator

open Text

namespace FileUrl

variable {name raw : Text} {names stored : List Text}

/-- An address holds such names as they are: no character of theirs is dropped,
    and none of them is written anew as a drive. -/
def Faithful (names : List Text) : Prop :=
  (∀ name ∈ names, Kept name) ∧ ∀ first ∈ names.head?, NoBar first

theorem kept_cleaned (raw : Text) : Kept (cleaned raw) := by
  intro c hc
  have hkept := (List.mem_filter.1 hc).2
  rwa [Bool.not_eq_true'] at hkept

theorem isDropped_of_isAlpha {letter : Char} (h : letter.isAlpha = true) : isDropped letter = false := by
  simp only [isDropped, Bool.or_eq_false_iff, beq_eq_false_iff_ne]
  refine ⟨⟨?_, ?_⟩, ?_⟩
  all_goals
    rintro rfl
    exact absurd h (by decide)

theorem kept_drive {letter : Char} (h : isDropped letter = false) : Kept [letter, ':'] := by
  intro c hc
  obtain rfl | rfl : c = letter ∨ c = ':' := by simpa using hc
  · exact h
  · decide

theorem kept_of_cutDrive? {drive rest : Text} (h : cutDrive? raw = some (drive, rest)) : Kept drive ∧ Kept rest := by
  unfold cutDrive? at h
  split at h
  · split at h
    · split at h
      · next hdrive =>
        cases h
        simp only [Bool.and_eq_true] at hdrive
        exact ⟨kept_drive (isDropped_of_isAlpha hdrive.1.1), kept_cleaned _⟩
      · cases h
    · cases h
  · cases h

theorem kept_of_mem_storeFirst (h : name ∈ storeFirst raw) : Kept name := by
  unfold storeFirst at h
  split at h
  · next hcut =>
    obtain ⟨hdrive, hrest⟩ := kept_of_cutDrive? hcut
    obtain rfl | rfl : name = _ ∨ name = _ := by simpa using h
    · exact hrest
    · exact hdrive
  · split at h
    · obtain rfl := List.mem_singleton.1 h
      intro c hc
      obtain hletter | hcolon := List.mem_append.1 hc
      · exact kept_cleaned raw c (List.mem_of_mem_take hletter)
      · obtain rfl := List.mem_singleton.1 hcolon
        decide
    · obtain rfl := List.mem_singleton.1 h
      exact kept_cleaned raw

/-- One step stores nothing that an address would drop. -/
theorem kept_of_mem_store (hstored : ∀ name ∈ stored, Kept name) (h : name ∈ store stored raw) : Kept name := by
  unfold store at h
  split at h
  · exact hstored name h
  split at h
  · split at h
    · exact absurd h List.not_mem_nil
    · split at h
      · exact hstored name h
      · exact hstored name (List.mem_cons_of_mem _ h)
  split at h
  · exact kept_of_mem_storeFirst h
  · obtain rfl | hmem := List.mem_cons.1 h
    · exact kept_cleaned raw
    · exact hstored name hmem

theorem kept_of_mem_foldl_store (hstored : ∀ name ∈ stored, Kept name) (h : name ∈ names.foldl store stored) :
    Kept name := by
  induction names generalizing stored with
  | nil => exact hstored name h
  | cons first rest ih => exact ih (fun _ hmem => kept_of_mem_store hstored hmem) h

theorem kept_of_mem_held (h : name ∈ held names) : Kept name := by
  have hmem := (List.dropWhile_suffix _).subset h
  split at hmem
  · obtain hstored | hempty := List.mem_append.1 hmem
    · exact kept_of_mem_foldl_store (List.forall_mem_nil _) (List.mem_reverse.1 hstored)
    · obtain rfl := List.mem_singleton.1 hempty
      exact List.forall_mem_nil _
  · exact kept_of_mem_foldl_store (List.forall_mem_nil _) (List.mem_reverse.1 hmem)

/-- A bar in front gives way to the colon of a drive, and nothing else changes. -/
theorem held_of_bar {letter : Char} (hletter : letter.isAlpha = true)
    (hplain : ∀ name ∈ [letter, '|'] :: names, Path.Plain name) (hkept : ∀ name ∈ [letter, '|'] :: names, Kept name) :
    held ([letter, '|'] :: names) = [letter, ':'] :: names := by
  have hends := endsInDots_of_plain hplain hkept
  obtain ⟨hplainFirst, hplainRest⟩ := List.forall_mem_cons.1 hplain
  obtain ⟨hkeptFirst, hkeptRest⟩ := List.forall_mem_cons.1 hkept
  have hfirst : store [] [letter, '|'] = [[letter, ':']] := by
    obtain ⟨-, hdot, -, hclimb⟩ := hplainFirst
    rw [store, hkeptFirst.cleaned, if_neg hdot, if_neg hclimb, if_pos rfl, storeFirst, hkeptFirst.cutDrive?,
      hkeptFirst.cleaned]
    simp [isDrive, hletter]
  have hrest := foldl_store hplainRest hkeptRest fun h => absurd h (List.cons_ne_nil [letter, ':'] [])
  rw [held, hends, if_neg Bool.false_ne_true, List.foldl_cons, hfirst, hrest, List.reverse_append,
    List.reverse_reverse]
  exact List.dropWhile_cons_of_neg (by simp)

/-- What an address holds of plain names is written like them only if it holds
    them as they are. -/
theorem faithful_of_slashed_held (hplain : ∀ name ∈ names, Path.Plain name)
    (h : Path.slashed (held names) = Path.slashed names) : Faithful names := by
  have hkept : ∀ name ∈ names, Kept name := by
    intro name hname c hc
    have hmem : c ∈ Path.slashed (held names) := by
      rw [h]
      exact Path.mem_slashed_of_mem hname hc
    obtain rfl | ⟨other, hother, hcother⟩ := Path.mem_of_mem_slashed hmem
    · decide
    · exact kept_of_mem_held hother c hcother
  refine ⟨hkept, ?_⟩
  rintro first hfirst letter hletter rfl
  obtain ⟨rest, rfl⟩ := List.head?_eq_some_iff.1 hfirst
  rw [held_of_bar hletter hplain hkept, Path.slashed_cons, Path.slashed_cons] at h
  simp at h

end FileUrl

namespace Place

variable {place : Place}

/-- An address leads back to the names that it holds. -/
theorem localPath_fileUrl_of_posix (hstyle : place.style = .posix) (path : Text) :
    place.localPath (place.fileUrl path) = '/' :: Path.slashed (FileUrl.held (place.fullNames path)) := by
  rw [localPath, read_fileUrl, FileUrl.path_eq_escape, Percent.unescape_escape (by decide), hstyle]
  rfl

/-- An address leads back to the full path exactly when it holds the names of
    that path as they are. -/
theorem localPath_fileUrl_eq_fullPath_iff (hstyle : place.style = .posix) (path : Text) :
    place.localPath (place.fileUrl path) = place.fullPath path ↔ FileUrl.Faithful (place.fullNames path) := by
  constructor
  · intro h
    rw [localPath_fileUrl_of_posix hstyle] at h
    exact FileUrl.faithful_of_slashed_held (fun _ => plain_of_mem_fullNames) (List.cons.inj h).2
  · rintro ⟨hkept, hbar⟩
    rw [localPath_fileUrl_of_posix hstyle, FileUrl.held_of_plain (fun _ => plain_of_mem_fullNames) hkept hbar]
    rfl

theorem fileUrl_eq_of_localPath_eq (hstyle : place.style = .posix) {p q : Text}
    (h : place.localPath (place.fileUrl p) = place.localPath (place.fileUrl q)) : place.fileUrl p = place.fileUrl q := by
  rw [localPath_fileUrl_of_posix hstyle, localPath_fileUrl_of_posix hstyle] at h
  unfold fileUrl
  rw [FileUrl.path_eq_escape, FileUrl.path_eq_escape]
  exact congrArg (fun path => "file://".toList ++ Percent.escape FileUrl.mustEscape path) h

/-- Files whose names an address holds as they are have one address only if they
    are the same file. In general two local paths share an address exactly when
    it leads both back to one path, and it leads a path back to itself exactly
    when no tab or line end is dropped from it and no bar is read as the colon of
    a drive. -/
theorem fileUrl_eq_fileUrl_iff (hstyle : place.style = .posix) (p q : Text) :
    (FileUrl.Faithful (place.fullNames p) → FileUrl.Faithful (place.fullNames q) →
      (place.fileUrl p = place.fileUrl q ↔ place.fullPath p = place.fullPath q)) ∧
    (place.fileUrl p = place.fileUrl q ↔
      place.localPath (place.fileUrl p) = place.localPath (place.fileUrl q)) ∧
    (place.localPath (place.fileUrl p) = place.fullPath p ↔ FileUrl.Faithful (place.fullNames p)) := by
  have hshared : place.fileUrl p = place.fileUrl q ↔
      place.localPath (place.fileUrl p) = place.localPath (place.fileUrl q) :=
    ⟨congrArg place.localPath, fileUrl_eq_of_localPath_eq hstyle⟩
  refine ⟨fun hp hq => ?_, hshared, localPath_fileUrl_eq_fullPath_iff hstyle p⟩
  rw [hshared, (localPath_fileUrl_eq_fullPath_iff hstyle p).2 hp, (localPath_fileUrl_eq_fullPath_iff hstyle q).2 hq]

/-- A sign that looks like an escape keeps two files apart, and a bar does no
    harm behind more than a letter. -/
theorem fileUrl_ne_of_percent_sign :
    FileUrl.Faithful ((make .posix ['/']).fullNames "/cc|/a%41".toList) ∧
      FileUrl.Faithful ((make .posix ['/']).fullNames "/cc|/aA".toList) ∧
      (make .posix ['/']).fullPath "/cc|/a%41".toList ≠ (make .posix ['/']).fullPath "/cc|/aA".toList ∧
      (make .posix ['/']).fileUrl "/cc|/a%41".toList ≠ (make .posix ['/']).fileUrl "/cc|/aA".toList := by
  have hbar : ∀ first ∈ (some "cc|".toList), FileUrl.NoBar first := by
    rintro first ⟨⟩ letter - ⟨⟩
  have hp : FileUrl.Faithful ((make .posix ['/']).fullNames "/cc|/a%41".toList) := ⟨by decide, hbar⟩
  have hq : FileUrl.Faithful ((make .posix ['/']).fullNames "/cc|/aA".toList) := ⟨by decide, hbar⟩
  have hpaths : (make .posix ['/']).fullPath "/cc|/a%41".toList ≠ (make .posix ['/']).fullPath "/cc|/aA".toList := by
    decide
  exact ⟨hp, hq, hpaths, fun h => hpaths (((fileUrl_eq_fileUrl_iff rfl _ _).1 hp hq).1 h)⟩

/-- A tab within a name, a tab that keeps two dots apart and a bar in the place
    of a colon each give one address to two files. -/
theorem fileUrl_eq_fileUrl_of_dropped_tab :
    (make .posix ['/']).fileUrl "/a\tb".toList = (make .posix ['/']).fileUrl "/ab".toList ∧
      (make .posix ['/']).fullPath "/a\tb".toList ≠ (make .posix ['/']).fullPath "/ab".toList ∧
      (make .posix ['/']).fileUrl "/a/.\t./b".toList = (make .posix ['/']).fileUrl "/b".toList ∧
      (make .posix ['/']).fullPath "/a/.\t./b".toList ≠ (make .posix ['/']).fullPath "/b".toList ∧
      (make .posix ['/']).fileUrl "/c|".toList = (make .posix ['/']).fileUrl "/c:".toList ∧
      (make .posix ['/']).fullPath "/c|".toList ≠ (make .posix ['/']).fullPath "/c:".toList := by
  decide

end Place

end Locator
