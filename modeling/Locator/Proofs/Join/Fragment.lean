import Locator.Proofs.Join.Onto

namespace Locator.Join

open Text

variable {mode : Mode} {base : Url} {relatives : List Text}

/-- In front of the host and the path of an address there is no hash. -/
theorem after_hash_write {u : Url} (hscheme : u.scheme = [] ∨ Scheme.IsLowerName u.scheme)
    (hfragment : u.fragment = []) :
    after '#' u.write = after '#' (u.authority ++ (u.gap ++ (u.path ++ marked '?' u.query))) := by
  have hfront : '#' ∉ u.schemeMark ++ u.slashes := by
    have hmark : '#' ∉ u.schemeMark := Url.notMem_schemeMark (by decide) (by decide) hscheme
    simp [hmark, Url.notMem_slashes]
  have hwrite : u.write =
      (u.schemeMark ++ u.slashes) ++ (u.authority ++ (u.gap ++ (u.path ++ marked '?' u.query))) := by
    simp [Url.write, hfragment, marked]
  rw [hwrite, after_append_of_notMem hfront]

theorem hash_notMem_gap (u : Url) : '#' ∉ u.gap := by
  unfold Url.gap
  split <;> decide

theorem after_hash_write_of_notMem {u : Url} (hscheme : u.scheme = [] ∨ Scheme.IsLowerName u.scheme)
    (hfragment : u.fragment = []) (hauth : '#' ∉ u.authority) :
    after '#' u.write = after '#' (u.path ++ marked '?' u.query) := by
  rw [after_hash_write hscheme hfragment, after_append_of_notMem hauth, after_append_of_notMem (hash_notMem_gap u)]

/-- The fragment of relative components joined onto a base is what stands behind
    the first hash among the names of the join and the query of the base. -/
theorem fragment_read_write_onto (h : base.WellFormed) :
    (Url.read (onto mode base relatives).write).fragment =
      after '#' (Path.slashed (joinedNames mode base relatives) ++ marked '?' base.query) := by
  change after '#' (onto mode base relatives).write = _
  by_cases hscheme : base.scheme = Scheme.bucket
  · cases hnames : joinedNames mode base relatives with
    | nil =>
      rw [onto_of_bucket_nil hscheme hnames]
      exact after_hash_write_of_notMem h.scheme rfl h.authority_hash
    | cons bucket key =>
      have honto := onto_of_bucket_cons hscheme hnames
      have hgap : (onto mode base relatives).gap = [] := by
        rw [honto, Url.gap]
        cases key <;> simp [Path.rooted]
      rw [after_hash_write (by rw [honto]; exact h.scheme) (by rw [honto]), hgap, honto, Path.slashed_cons]
      simp only [List.nil_append, List.append_assoc]
  · cases habsolute : base.absolute with
    | true =>
      rw [onto_of_absolute hscheme habsolute]
      apply Eq.trans
      · exact after_hash_write_of_notMem h.scheme rfl h.authority_hash
      · exact after_append_of_notMem (a := ['/']) (by decide) _
    | false =>
      rw [onto_of_relative habsolute]
      exact after_hash_write_of_notMem h.scheme rfl h.authority_hash

/-- Hashes come into the names of a join from its components only. -/
theorem hash_notMem_names (h : base.WellFormed) (hrelative : ∀ arg ∈ relatives, '#' ∉ arg) :
    '#' ∉ Path.slashed (joinedNames mode base relatives) ++ marked '?' base.query := by
  simp only [List.mem_append, not_or]
  refine ⟨fun hmem => ?_, notMem_marked (by decide) h.query⟩
  obtain hslash | ⟨name, hname, hhash⟩ := Path.mem_of_mem_slashed hmem
  · cases hslash
  · obtain ⟨rfl, -⟩ | hbase | ⟨arg, harg, hnames⟩ := mem_of_mem_joinedNames hname
    · exact h.authority_hash hhash
    · exact h.path.2 (Path.mem_of_mem_names hbase hhash)
    · exact hrelative arg harg (Path.mem_of_mem_names hnames hhash)

/-- The join of a local path or of the address of a file with nothing behind it
    keeps its hashes, for there they belong to the name. -/
def keepsHash (base : Text) (components : List Text) : Bool :=
  (anchor? (base :: components)).any fun anchor =>
    anchor.index == components.length && (anchor.url.scheme == [] || anchor.url.scheme == Scheme.file)

/-- The names and the query that the join of arguments is written with. -/
def carried (mode : Mode) (base : Text) (components : List Text) : Text :=
  Path.slashed (joinedNames mode (operands base components).1 (operands base components).2) ++
    marked '?' (operands base components).1.query

theorem fragment_alone {place : Place} {u : Url} (hscheme : u.scheme ≠ []) (hfile : u.scheme ≠ Scheme.file) :
    (Url.read (alone place u)).fragment = [] := by
  have halone : alone place u = Url.write { Url.read u.write with fragment := [] } := by
    simp only [alone, if_neg (not_or.2 ⟨hscheme, hfile⟩)]
  rw [halone, ((Url.wellFormed_read u.write).withFragment []).read_write]

theorem fragment_ofArgs (place : Place) (mode : Mode) {base : Text} {components : List Text}
    (h : keepsHash base components = false) :
    (Url.read (ofArgs place mode base components)).fragment = after '#' (carried mode base components) := by
  by_cases hlone : ∃ anchor, anchor? (base :: components) = some anchor ∧ anchor.index = components.length
  · obtain ⟨anchor, hanchor, hlast⟩ := hlone
    have hremote : anchor.url.scheme ≠ [] ∧ anchor.url.scheme ≠ Scheme.file := by
      simpa [keepsHash, hanchor, hlast] using h
    have hnone : (operands base components).2 = [] := by
      simp [operands, hanchor, hlast]
    rw [ofArgs_eq_alone place mode hanchor hlast, fragment_alone hremote.1 hremote.2]
    refine (after_of_notMem (hash_notMem_names (wellFormed_operands base components) ?_)).symm
    simp [hnone]
  · rw [ofArgs_eq_onto place mode fun anchor hanchor hlast => hlone ⟨anchor, hanchor, hlast⟩]
    exact fragment_read_write_onto (wellFormed_operands base components)

/-- A join has no fragment exactly when the names and the query that it is
    written with hold no hash but at their very end. It never has one when the
    components behind the anchor are free of hashes. -/
theorem fragment_join_eq_nil_iff (place : Place) (mode : Mode) (base : Text) (components : List Text)
    (h : keepsHash (forward base) (components.map forward) = false) :
    ((Url.read (join place mode base components)).fragment = [] ↔
      '#' ∉ (carried mode (forward base) (components.map forward)).dropLast) ∧
    ((∀ arg ∈ (operands (forward base) (components.map forward)).2, '#' ∉ arg) →
      (Url.read (join place mode base components)).fragment = []) := by
  rw [join, fragment_ofArgs place mode h]
  constructor
  · exact after_eq_nil_iff
  · intro hrelative
    exact after_of_notMem (hash_notMem_names (wellFormed_operands _ _) hrelative)

/-- A hash goes with the name that the next component climbs out of. -/
theorem fragment_join_of_trailing_hash :
    keepsHash "s3://b/k?v=1#top".toList ["../c#".toList, "..".toList, "d".toList] = false ∧
      (Url.read (join (Place.make .posix ['/']) .append "s3://b/k?v=1#top".toList
        ["../c#".toList, "..".toList, "d".toList])).fragment = [] :=
  ⟨by decide, (fragment_join_eq_nil_iff (Place.make .posix ['/']) .append _ _ (by decide)).1.2 (by decide)⟩

/-- A component with a hash in it gives the join a fragment, where the same hash
    behind a rooted component would be dropped. -/
theorem fragment_join_ne_nil :
    keepsHash "http://h/a".toList ["b#c".toList] = false ∧
      (Url.read (join (Place.make .posix ['/']) .append "http://h/a".toList ["b#c".toList])).fragment = ['c'] ∧
      (Url.read (join (Place.make .posix ['/']) .append "http://h/a".toList ["/b#c".toList])).fragment = [] := by
  decide

end Locator.Join
