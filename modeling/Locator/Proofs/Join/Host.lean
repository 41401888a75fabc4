import Locator.Proofs.Join.Absolute

namespace Locator.Join

open Text

variable {mode : Mode} {base : Url} {relatives : List Text}

/-- A path of names behind one slash leaves scheme and host where they were. -/
theorem headed_withRootedPath (h : base.Headed) (path : Text) :
    Url.Headed { base with path := '/' :: path, fragment := [] } := by
  refine ⟨h.scheme, h.authority, fun _ => Or.inr (by simp [Path.rooted]), fun _ _ => ?_⟩
  simp only [Scheme.cut_slash]

theorem read_write_onto_host (h : base.WellFormed) (hscheme : base.scheme ≠ Scheme.bucket)
    (habsolute : base.absolute = true) :
    (Url.read (onto mode base relatives).write).scheme = base.scheme ∧
      (Url.read (onto mode base relatives).write).authority = base.authority := by
  rw [onto_of_absolute hscheme habsolute]
  have hheaded := headed_withRootedPath h.toHeaded (Path.slashed (joinedNames mode base relatives))
  rw [Url.read_scheme, Url.read_authority, hheaded.readPlain_write rfl]
  exact ⟨rfl, before_of_notMem h.authority_hash⟩

/-- Components that are relative alone never change scheme or host of an
    absolute base that is no bucket, whatever characters they hold. -/
theorem read_join_host (place : Place) (mode : Mode) {base : Text} {components : List Text}
    (hscheme : (Url.read (forward base)).scheme ≠ Scheme.bucket)
    (habsolute : (Url.read (forward base)).absolute = true) (hne : components ≠ [])
    (hrelative : ∀ component ∈ components, anchor? [forward component] = none) :
    (Url.read (join place mode base components)).scheme = (Url.read (forward base)).scheme ∧
      (Url.read (join place mode base components)).authority = (Url.read (forward base)).authority := by
  rw [join_of_absolute place mode habsolute hne hrelative]
  exact read_write_onto_host (Url.wellFormed_read _) hscheme habsolute

/-- Components that climb, and that hold marks, hosts and schemes behind their
    first name. -/
theorem read_join_host_of_climbing :
    (∀ component ∈ ["..\\..\\..//evil?x#y".toList, "./ftp://k".toList], anchor? [forward component] = none) ∧
      (Url.read (join (Place.make .posix ['/']) .follow "HTTP://h/a/b".toList
        ["..\\..\\..//evil?x#y".toList, "./ftp://k".toList])).scheme = "http".toList ∧
      (Url.read (join (Place.make .posix ['/']) .follow "HTTP://h/a/b".toList
        ["..\\..\\..//evil?x#y".toList, "./ftp://k".toList])).authority = ['h'] :=
  ⟨by decide, read_join_host (Place.make .posix ['/']) .follow (by decide) (by decide) (by decide) (by decide)⟩

end Locator.Join
