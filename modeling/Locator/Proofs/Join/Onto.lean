import Locator.Proofs.Join.Anchor

namespace Locator.Join

open Text

variable {mode : Mode} {base : Url} {relatives : List Text}

theorem onto_withFragment (mode : Mode) (base : Url) (fragment : Text) (relatives : List Text) :
    onto mode { base with fragment } relatives = onto mode base relatives := rfl

/-- A join takes from its base what stands in front of the first hash. -/
theorem onto_read (mode : Mode) (s : Text) (relatives : List Text) :
    onto mode (Url.read s) relatives = onto mode (Url.readPlain s).beforeHash relatives := by
  rw [Url.read_eq_beforeHash, onto_withFragment]

/-- The query of a base takes no part in a join. -/
theorem onto_withQuery (mode : Mode) (base : Url) (query : Text) (relatives : List Text) :
    onto mode { base with query } relatives = { onto mode base relatives with query } := by
  have hnames : joinedNames mode { base with query } relatives = joinedNames mode base relatives := rfl
  have habsolute : Url.absolute { base with query } = base.absolute := rfl
  unfold onto
  rw [hnames, habsolute]
  split
  · cases joinedNames mode base relatives with
    | nil => rfl
    | cons bucket key => cases key <;> rfl
  · split <;> rfl

theorem onto_of_absolute (hscheme : base.scheme ≠ Scheme.bucket) (habsolute : base.absolute = true) :
    onto mode base relatives =
      { base with path := '/' :: Path.slashed (joinedNames mode base relatives), fragment := [] } := by
  simp only [onto, if_neg hscheme, habsolute, if_true]

theorem absolute_of_bucket (hscheme : base.scheme = Scheme.bucket) : base.absolute = true := by
  have hrecognized : base.recognized = true := by
    rw [Url.recognized, hscheme]
    decide
  exact Url.absolute_of_recognized hrecognized

theorem onto_of_relative (habsolute : base.absolute = false) :
    onto mode base relatives =
      { base with path := Path.slashed (joinedNames mode base relatives), fragment := [] } := by
  have hscheme : base.scheme ≠ Scheme.bucket := fun h => by
    rw [absolute_of_bucket h] at habsolute
    cases habsolute
  simp only [onto, if_neg hscheme, habsolute, Bool.false_eq_true, if_false]

theorem onto_of_bucket_nil (hscheme : base.scheme = Scheme.bucket) (hnames : joinedNames mode base relatives = []) :
    onto mode base relatives = { base with path := [], fragment := [] } := by
  simp only [onto, if_pos hscheme, hnames]

/-- The first name becomes the bucket and the others its key. -/
theorem onto_of_bucket_cons (hscheme : base.scheme = Scheme.bucket) {bucket : Text} {key : List Text}
    (hnames : joinedNames mode base relatives = bucket :: key) :
    onto mode base relatives =
      { base with
        authority := bucket
        path := if key = [] then [] else '/' :: Path.slashed key
        fragment := [] } := by
  simp only [onto, if_pos hscheme, hnames]
  cases key <;> rfl

/-- A join leaves all of its base but host, path and fragment. -/
theorem exists_onto_with (mode : Mode) (base : Url) (relatives : List Text) :
    ∃ authority path, onto mode base relatives = { base with authority, path, fragment := [] } := by
  by_cases hscheme : base.scheme = Scheme.bucket
  · cases hnames : joinedNames mode base relatives with
    | nil => exact ⟨_, _, onto_of_bucket_nil hscheme hnames⟩
    | cons bucket key => exact ⟨_, _, onto_of_bucket_cons hscheme hnames⟩
  · cases habsolute : base.absolute with
    | true => exact ⟨_, _, onto_of_absolute hscheme habsolute⟩
    | false => exact ⟨_, _, onto_of_relative habsolute⟩

/-- The query of the base goes behind what is joined without it. -/
theorem write_onto_eq_append_query (mode : Mode) (base : Url) (relatives : List Text) :
    (onto mode base relatives).write =
      (onto mode { base with query := [], fragment := [] } relatives).write ++ marked '?' base.query := by
  obtain ⟨authority, path, honto⟩ := exists_onto_with mode base relatives
  have hbare : onto mode { base with query := [], fragment := [] } relatives =
      { onto mode base relatives with query := [] } := onto_withQuery mode { base with fragment := [] } [] relatives
  rw [hbare, honto, Url.write_eq_append_query rfl]

theorem mem_of_mem_baseNames {path name : Text} (h : name ∈ baseNames mode path) : name ∈ Path.names path := by
  unfold baseNames at h
  cases mode with
  | append => exact h
  | follow =>
    dsimp only at h
    split at h
    · exact h
    · exact List.dropLast_subset _ h

theorem mem_bucketNames {name : Text} (h : name ∈ bucketNames base) : name = base.authority ∧ name ≠ [] := by
  unfold bucketNames at h
  split at h
  · next hbucket =>
    obtain rfl := List.mem_singleton.1 h
    exact ⟨rfl, hbucket.2⟩
  · simp at h

/-- A name in a join is the bucket, or comes from the path of the base or from
    one of the components. -/
theorem mem_of_mem_joinedNames {name : Text} (h : name ∈ joinedNames mode base relatives) :
    (name = base.authority ∧ name ≠ []) ∨ name ∈ Path.names base.path ∨
      ∃ arg ∈ relatives, name ∈ Path.names arg := by
  have hmem := Path.mem_of_mem_removeDots h
  simp only [List.mem_append, List.mem_flatMap] at hmem
  obtain (hbucket | hbase) | hrelative := hmem
  · exact Or.inl (mem_bucketNames hbucket)
  · exact Or.inr (Or.inl (mem_of_mem_baseNames hbase))
  · exact Or.inr (Or.inr hrelative)

theorem areNames_joinedNames (h : '/' ∉ base.authority) : Path.AreNames (joinedNames mode base relatives) := by
  intro name hname
  obtain ⟨rfl, hne⟩ | hbase | ⟨arg, -, hrelative⟩ := mem_of_mem_joinedNames hname
  · exact ⟨hne, h⟩
  · exact Path.mem_names hbase
  · exact Path.mem_names hrelative

end Locator.Join
