import Locator.Proofs.Join.Onto

namespace Locator.Join

open Text

variable {mode : Mode} {base : Url} {relatives : List Text}

/-- The path of names below a host: none at all without a name. -/
def keyPath (names : List Text) : Text :=
  if names = [] then [] else '/' :: Path.slashed names

/-- Joined onto an absolute base, components leave its scheme and its query. The
    host is that of the base or one of the names, and the names make the path. -/
theorem exists_onto_eq (mode : Mode) (habsolute : base.absolute = true) (relatives : List Text) :
    ∃ authority path, onto mode base relatives = { base with authority, path, fragment := [] } ∧
      (authority = base.authority ∨ authority ∈ joinedNames mode base relatives) ∧
      (path = [] ∨ ∃ names, path = '/' :: Path.slashed names ∧
        ∀ name ∈ names, name ∈ joinedNames mode base relatives) := by
  by_cases hscheme : base.scheme = Scheme.bucket
  · cases hnames : joinedNames mode base relatives with
    | nil => exact ⟨base.authority, [], onto_of_bucket_nil hscheme hnames, Or.inl rfl, Or.inl rfl⟩
    | cons bucket key =>
      refine ⟨bucket, keyPath key, onto_of_bucket_cons hscheme hnames, Or.inr List.mem_cons_self, ?_⟩
      unfold keyPath
      split
      · exact Or.inl rfl
      · exact Or.inr ⟨key, rfl, fun name hname => List.mem_cons_of_mem _ hname⟩
  · exact ⟨base.authority, _, onto_of_absolute hscheme habsolute, Or.inl rfl, Or.inr ⟨_, rfl, fun _ => id⟩⟩

/-- No character but a slash comes into host or path that neither the base nor a
    component holds. -/
theorem notMem_onto (mode : Mode) (habsolute : base.absolute = true) {c : Char} (hc : c ≠ '/')
    (hauth : c ∉ base.authority) (hpath : c ∉ base.path) (hrelative : ∀ arg ∈ relatives, c ∉ arg) :
    c ∉ (onto mode base relatives).authority ∧ c ∉ (onto mode base relatives).path := by
  have hnames : ∀ name ∈ joinedNames mode base relatives, c ∉ name := by
    intro name hname hmem
    obtain ⟨rfl, -⟩ | hbase | ⟨arg, harg, hnames⟩ := mem_of_mem_joinedNames hname
    · exact hauth hmem
    · exact hpath (Path.mem_of_mem_names hbase hmem)
    · exact hrelative arg harg (Path.mem_of_mem_names hnames hmem)
  obtain ⟨authority, path, honto, hauthority, hkey⟩ := exists_onto_eq mode habsolute relatives
  rw [honto]
  constructor
  · obtain rfl | hname := hauthority
    · exact hauth
    · exact hnames authority hname
  · obtain rfl | ⟨names, rfl, hkept⟩ := hkey
    · exact List.not_mem_nil
    · have hslashed := Path.notMem_slashed hc fun name hname => hnames name (hkept name hname)
      simpa [hc] using hslashed

theorem wellFormed_onto (mode : Mode) (h : base.WellFormed) (habsolute : base.absolute = true)
    (hmarks : ∀ arg ∈ relatives, '?' ∉ arg ∧ '#' ∉ arg) : (onto mode base relatives).WellFormed := by
  have hquestion := notMem_onto mode habsolute (by decide) h.authority.2 h.path.1 fun arg harg => (hmarks arg harg).1
  have hhash := notMem_onto mode habsolute (by decide) h.authority_hash h.path.2 fun arg harg => (hmarks arg harg).2
  obtain ⟨authority, path, honto, hauthority, hkey⟩ := exists_onto_eq mode habsolute relatives
  rw [honto] at hquestion hhash ⊢
  have hslash : '/' ∉ authority := by
    obtain rfl | hname := hauthority
    · exact h.authority.1
    · exact (areNames_joinedNames h.authority.1 authority hname).2
  have hrooted : path = [] ∨ Path.rooted path = true := by
    obtain rfl | ⟨names, rfl, -⟩ := hkey
    · exact Or.inl rfl
    · exact Or.inr rfl
  exact {
    scheme := h.scheme
    authority := ⟨hslash, hquestion.1⟩
    rooted := fun _ => hrooted
    schemeless := fun _ _ => Url.cut_fst_of_rooted hrooted
    authority_hash := hhash.1
    path := ⟨hquestion.2, hhash.2⟩
    query := h.query }

theorem absolute_onto (mode : Mode) (habsolute : base.absolute = true) (relatives : List Text) :
    (onto mode base relatives).absolute = true := by
  by_cases hscheme : base.scheme = Scheme.bucket
  · obtain ⟨authority, path, honto, -⟩ := exists_onto_eq mode habsolute relatives
    exact absolute_of_bucket (by rw [honto]; exact hscheme)
  · rw [onto_of_absolute hscheme habsolute]
    exact Url.absolute_of_rooted rfl

/-- A joined address names what its join left, when that is anything. -/
theorem names_onto (h : '/' ∉ base.authority) (habsolute : base.absolute = true)
    (hne : base.scheme = Scheme.bucket → joinedNames mode base relatives ≠ []) :
    bucketNames (onto mode base relatives) ++ Path.names (onto mode base relatives).path =
      joinedNames mode base relatives := by
  have hnames : Path.AreNames (joinedNames mode base relatives) := areNames_joinedNames h
  by_cases hscheme : base.scheme = Scheme.bucket
  · obtain ⟨bucket, key, hcons⟩ := List.exists_cons_of_ne_nil (hne hscheme)
    rw [hcons] at hnames ⊢
    have hbucket : bucket ≠ [] := (hnames bucket List.mem_cons_self).1
    have hkey : Path.AreNames key := fun name hname => hnames name (List.mem_cons_of_mem _ hname)
    rw [onto_of_bucket_cons hscheme hcons]
    simp only [bucketNames, hscheme, hbucket, ne_eq, not_false_eq_true, and_self, if_true, List.singleton_append]
    split
    · next hnone => rw [hnone]; rfl
    · rw [hkey.names_rooted]
  · rw [onto_of_absolute hscheme habsolute]
    simp only [bucketNames, hscheme, false_and, if_false, List.nil_append]
    exact hnames.names_rooted

section Components

variable {base : Text} {components : List Text}

/-- A join onto an absolute base goes onto the address that the base is read as. -/
theorem join_of_absolute (place : Place) (mode : Mode) (habsolute : (Url.read (forward base)).absolute = true)
    (hne : components ≠ []) (hrelative : ∀ component ∈ components, anchor? [forward component] = none) :
    join place mode base components = (onto mode (Url.read (forward base)) (components.map forward)).write := by
  rw [join_of_readPlain_absolute place mode (Url.absolute_readPlain habsolute) hne hrelative,
    Url.read_write_readPlain, onto_withFragment]

theorem marks_notMem_map_forward (h : ∀ component ∈ components, '?' ∉ component ∧ '#' ∉ component) :
    ∀ arg ∈ components.map forward, '?' ∉ arg ∧ '#' ∉ arg := by
  intro arg harg
  obtain ⟨component, hcomponent, rfl⟩ := List.mem_map.1 harg
  obtain ⟨hquestion, hhash⟩ := h component hcomponent
  exact ⟨notMem_forward (by decide) hquestion, notMem_forward (by decide) hhash⟩

/-- Without marks in its components, a join reads back as the address that it
    was written from. -/
theorem read_join_of_absolute (place : Place) (mode : Mode)
    (habsolute : (Url.read (forward base)).absolute = true) (hne : components ≠ [])
    (hrelative : ∀ component ∈ components, anchor? [forward component] = none)
    (hmarks : ∀ component ∈ components, '?' ∉ component ∧ '#' ∉ component) :
    Url.read (join place mode base components) =
      onto mode (Url.read (forward base)) (components.map forward) := by
  rw [join_of_absolute place mode habsolute hne hrelative]
  exact (wellFormed_onto mode (Url.wellFormed_read _) habsolute (marks_notMem_map_forward hmarks)).read_write

/-- The separators of a join are forward ones already. -/
theorem forward_join_of_absolute (place : Place) (mode : Mode)
    (habsolute : (Url.read (forward base)).absolute = true) (hne : components ≠ [])
    (hrelative : ∀ component ∈ components, anchor? [forward component] = none)
    (hmarks : ∀ component ∈ components, '?' ∉ component ∧ '#' ∉ component) :
    forward (join place mode base components) = join place mode base components := by
  obtain ⟨hauthBase, hpathBase, hquery⟩ := Url.notMem_read (backslash_notMem_forward base)
  have hargs : ∀ arg ∈ components.map forward, '\\' ∉ arg := by
    intro arg harg
    obtain ⟨component, -, rfl⟩ := List.mem_map.1 harg
    exact backslash_notMem_forward component
  have hwell := wellFormed_onto mode (Url.wellFormed_read _) habsolute (marks_notMem_map_forward hmarks)
  obtain ⟨hauth, hpath⟩ := notMem_onto mode habsolute (by decide) hauthBase hpathBase hargs
  obtain ⟨authority, path, honto, -⟩ := exists_onto_eq mode habsolute (components.map forward)
  rw [join_of_absolute place mode habsolute hne hrelative]
  rw [honto] at hwell hauth hpath ⊢
  exact hwell.forward_write rfl ⟨hauth, hpath, hquery⟩

end Components

end Locator.Join
