import Locator.Proofs.Join.Parts

namespace Locator.Join

open Text

variable {mode : Mode} {base : Url} {relatives : List Text}

/-- The bucket of a base is the lowest of the names that components climb over. -/
theorem joinedNames_of_bucket (hscheme : base.scheme = Scheme.bucket) (hbucket : Path.Plain base.authority)
    (mode : Mode) (relatives : List Text) :
    let trail := Path.trail (keptSegments mode base.path ++ relatives.flatMap Path.belowRoot)
    joinedNames mode base relatives =
      if trail.climbs = 0 then base.authority :: trail.names.reverse else trail.names.reverse := by
  have hnames : bucketNames base = [base.authority] := if_pos ⟨hscheme, hbucket.1⟩
  rw [joinedNames_eq_removeDots, absolute_of_bucket hscheme, hnames, List.singleton_append]
  exact Path.removeDots_cons_anchored hbucket _

/-- Names that climb out of a bucket and land on nothing leave it empty, and those
    that land on a name move to the bucket of that name. -/
theorem onto_of_bucket (hscheme : base.scheme = Scheme.bucket) (hbucket : Path.Plain base.authority)
    (mode : Mode) (relatives : List Text) :
    let trail := Path.trail (keptSegments mode base.path ++ relatives.flatMap Path.belowRoot)
    let names := trail.names.reverse
    onto mode base relatives =
      if trail.climbs = 0 ∨ names = [] then ⟨Scheme.bucket, base.authority, keyPath names, base.query, []⟩
      else ⟨Scheme.bucket, names.headD [], keyPath names.tail, base.query, []⟩ := by
  intro trail names
  have hjoined : joinedNames mode base relatives = if trail.climbs = 0 then base.authority :: names else names :=
    joinedNames_of_bucket hscheme hbucket mode relatives
  by_cases hclimbs : trail.climbs = 0
  · rw [if_pos hclimbs] at hjoined
    rw [if_pos (Or.inl hclimbs), onto_of_bucket_cons hscheme hjoined, hscheme]
    rfl
  · rw [if_neg hclimbs] at hjoined
    cases hnames : names with
    | nil =>
      rw [if_pos (Or.inr rfl), onto_of_bucket_nil hscheme (hjoined.trans hnames), hscheme]
      rfl
    | cons bucket key =>
      have hstays : ¬ (trail.climbs = 0 ∨ bucket :: key = []) := by simp [hclimbs]
      rw [if_neg hstays, onto_of_bucket_cons hscheme (hjoined.trans hnames), hscheme]
      rfl

/-- Below a bucket the segments that a base keeps and those of the components are
    followed as a relative path. What they enter becomes the path, unless they
    climb above the root of the bucket: then the first name that they land on is
    the bucket. -/
theorem read_join_bucket (place : Place) (mode : Mode) {base : Text} {components : List Text}
    (hscheme : (Url.read (forward base)).scheme = Scheme.bucket)
    (hbucket : (Url.read (forward base)).authority ∉ [[], ['.'], ['.', '.']]) (hne : components ≠ [])
    (hrelative : ∀ component ∈ components, anchor? [forward component] = none)
    (hmarks : ∀ component ∈ components, '?' ∉ component ∧ '#' ∉ component) :
    let u := Url.read (forward base)
    let collapsed :=
      Path.removeDots false (keptSegments mode u.path ++ (components.map forward).flatMap Path.belowRoot)
    (∃ climbs names, collapsed = List.replicate climbs ['.', '.'] ++ names ∧ ['.', '.'] ∉ names) ∧
    ∀ climbs names, collapsed = List.replicate climbs ['.', '.'] ++ names → ['.', '.'] ∉ names →
      Url.read (join place mode base components) =
        if climbs = 0 ∨ names = [] then ⟨Scheme.bucket, u.authority, keyPath names, u.query, []⟩
        else ⟨Scheme.bucket, names.headD [], keyPath names.tail, u.query, []⟩ := by
  intro u collapsed
  have hslash : '/' ∉ u.authority := (Url.wellFormed_read (forward base)).authority.1
  have hplain : Path.Plain u.authority := (Path.plain_iff_of_slash_notMem hslash).2 hbucket
  refine ⟨⟨_, _, Path.removeDots_unanchored _, Path.climb_notMem_trail _⟩, fun climbs names hcollapsed hnames => ?_⟩
  -- the climbs and the names can only be those of the trail
  obtain ⟨rfl, rfl⟩ := (Path.removeDots_unanchored_eq_iff hnames).1 hcollapsed
  rw [read_join_of_absolute place mode (absolute_of_bucket hscheme) hne hrelative hmarks]
  exact onto_of_bucket hscheme hplain mode (components.map forward)

/-- In a document whose own path repeats a slash, one climb leaves the inner of its
    two directories, and three leave both and the bucket, for another one. -/
theorem read_join_bucket_of_climbing :
    (Url.read (forward "S3://b/x//y/k?v=1#t".toList)).scheme = Scheme.bucket ∧
    (Url.read (forward "S3://b/x//y/k?v=1#t".toList)).authority ∉ [[], ['.'], ['.', '.']] ∧
    (∀ component ∈ ["..\\c".toList, "..\\../../c".toList, "d/../e".toList],
      anchor? [forward component] = none ∧ '?' ∉ component ∧ '#' ∉ component) ∧
    Url.read (join (Place.make .posix ['/']) .follow "S3://b/x//y/k?v=1#t".toList
        ["..\\c".toList, "d/../e".toList]) =
      ⟨"s3".toList, ['b'], "/x/c/e".toList, "v=1".toList, []⟩ ∧
    Url.read (join (Place.make .posix ['/']) .follow "S3://b/x//y/k?v=1#t".toList
        ["..\\../../c".toList, "d/../e".toList]) =
      ⟨"s3".toList, ['c'], "/e".toList, "v=1".toList, []⟩ := by
  have hscheme : (Url.read (forward "S3://b/x//y/k?v=1#t".toList)).scheme = Scheme.bucket := by decide
  have hbucket : (Url.read (forward "S3://b/x//y/k?v=1#t".toList)).authority ∉ [[], ['.'], ['.', '.']] := by decide
  obtain ⟨-, hkeeps⟩ := read_join_bucket (Place.make .posix ['/']) .follow hscheme hbucket
    (show ["..\\c".toList, "d/../e".toList] ≠ [] by decide) (by decide) (by decide)
  obtain ⟨-, hleaves⟩ := read_join_bucket (Place.make .posix ['/']) .follow hscheme hbucket
    (show ["..\\../../c".toList, "d/../e".toList] ≠ [] by decide) (by decide) (by decide)
  refine ⟨hscheme, hbucket, by decide, ?_, ?_⟩
  · exact (hkeeps 0 [['x'], ['c'], ['e']] (by decide) (by decide)).trans (by decide)
  · exact (hleaves 1 [['c'], ['e']] (by decide) (by decide)).trans (by decide)

/-- Appended, the same component leaves the document itself first. -/
example :
    join (Place.make .posix ['/']) .append "S3://b/x//y/k?v=1#t".toList ["..\\../../c".toList] =
      "s3://b/c?v=1".toList := by
  decide

end Locator.Join
