import Locator.Proofs.Join.Onto

namespace Locator.Join

open Text

variable {names rest : List Text} {first : Text}

/-- Names whose text is absolute: it begins with a recognized scheme, or with a
    scheme that is a whole name, so that the next slash roots a path. -/
def opensAbsolute : List Text → Bool
  | [] => false
  | first :: rest =>
    Scheme.recognized (Scheme.cut first).1 ||
      ((Scheme.cut first).1 ≠ [] && (Scheme.cut first).2 = [] && rest ≠ [])

/-- A text without a host is absolute by its scheme or by a root behind it. -/
theorem absolute_readPlain_of_cut {s scheme hier : Text} (hcut : Scheme.cut s = (scheme, hier))
    (hslashes : ¬ ['/', '/'] <+: hier) :
    (Url.readPlain s).absolute = (Scheme.recognized scheme || Path.rooted hier) := by
  have hrooted := Url.rooted_before (show '?' ≠ '/' by decide) hier
  simp [Url.absolute, Url.recognized, Url.readPlain, hcut, Url.cutAuthority_of_no_slashes hslashes, hrooted]

theorem not_slashes_of_head? {s : Text} (h : s.head? ≠ some '/') : ¬ ['/', '/'] <+: s := by
  rintro ⟨r, rfl⟩
  exact h rfl

theorem head?_names_append (h : Path.AreNames names) (query : Text) :
    (Path.slashed names ++ marked '?' query).head? ≠ some '/' := by
  rw [List.head?_append]
  cases hnames : (Path.slashed names).head? with
  | none =>
    unfold marked
    split <;> simp
  | some c =>
    have hc := h.head?_slashed
    rwa [hnames] at hc

theorem cut_names_append (hfirst : (Scheme.cut first).1 = []) (rest : List Text) (query : Text) :
    Scheme.cut (Path.slashed (first :: rest) ++ marked '?' query) =
      ([], Path.slashed (first :: rest) ++ marked '?' query) := by
  rw [Path.slashed_cons]
  split
  · rw [List.append_nil]
    exact Scheme.cut_append_query hfirst query
  · rw [List.append_assoc]
    exact Scheme.cut_append_slash hfirst _

/-- What stands behind a scheme in the first name is rooted when that name ends
    and another follows. It never opens a host. -/
theorem rooted_behind_colon {r : Text} (hr : '/' ∉ r) (hrest : Path.AreNames rest) (query : Text) :
    Path.rooted (Path.slashed (r :: rest) ++ marked '?' query) = decide (r = [] ∧ rest ≠ []) ∧
      ¬ ['/', '/'] <+: Path.slashed (r :: rest) ++ marked '?' query := by
  rw [Path.slashed_cons]
  cases r with
  | cons c r =>
    have hc : c ≠ '/' := fun e => hr (by simp [e])
    have hhead : (c :: r ++ (if rest = [] then [] else '/' :: Path.slashed rest) ++
        marked '?' query).head? ≠ some '/' := by
      simpa using hc
    exact ⟨by simpa using Path.rooted_eq_false hhead, not_slashes_of_head? hhead⟩
  | nil =>
    have hnext := head?_names_append hrest query
    by_cases hnone : rest = []
    · rw [hnone] at hnext ⊢
      exact ⟨by simpa using Path.rooted_eq_false hnext, not_slashes_of_head? hnext⟩
    · rw [if_neg hnone]
      refine ⟨by simp [Path.rooted, hnone], fun hslashes => hnext ?_⟩
      obtain ⟨t, ht⟩ := (List.cons_prefix_cons.1 hslashes).2
      exact congrArg List.head? ht.symm

/-- The text of names and a query is absolute exactly when the names open it so. -/
theorem absolute_readPlain_names (h : Path.AreNames names) (query : Text) :
    (Url.readPlain (Path.slashed names ++ marked '?' query)).absolute = opensAbsolute names := by
  have hhead := head?_names_append h query
  cases names with
  | nil =>
    have hcut : Scheme.cut (marked '?' query) = ([], marked '?' query) := Scheme.cut_append_query (s := []) rfl query
    rw [Path.slashed_nil, List.nil_append] at hhead ⊢
    rw [absolute_readPlain_of_cut hcut (not_slashes_of_head? hhead), Path.rooted_eq_false hhead]
    rfl
  | cons first rest =>
    have hrest : Path.AreNames rest := fun name hname => h name (List.mem_cons_of_mem _ hname)
    obtain ⟨scheme, r, hscheme, rfl, hcutFirst⟩ | hcutFirst := Scheme.cut_cases first
    · -- the colon of the first name is the first of the whole text
      have hslash : '/' ∉ r := fun hmem => (h _ List.mem_cons_self).2 (by simp [hmem])
      have htext : Path.slashed ((scheme ++ ':' :: r) :: rest) ++ marked '?' query =
          scheme ++ ':' :: (Path.slashed (r :: rest) ++ marked '?' query) := by
        simp [Path.slashed_cons]
      obtain ⟨hrooted, hslashes⟩ := rooted_behind_colon hslash hrest query
      have hne := (Scheme.isLowerName_lower hscheme).ne_nil
      rw [htext, absolute_readPlain_of_cut (Scheme.cut_name_append hscheme _) hslashes, hrooted]
      simp [opensAbsolute, hcutFirst, hne]
    · have hcut := cut_names_append (by rw [hcutFirst]) rest query
      rw [absolute_readPlain_of_cut hcut (not_slashes_of_head? hhead), Path.rooted_eq_false hhead]
      simp [opensAbsolute, hcutFirst]

/-- Without a host and a recognized scheme an unrooted path follows the scheme
    at once. -/
theorem write_of_hostless {u : Url} (hrecognized : u.recognized = false) (hauth : u.authority = [])
    (hpath : u.path.head? ≠ some '/') (hfragment : u.fragment = []) :
    u.write = u.schemeMark ++ (u.path ++ marked '?' u.query) := by
  have hnone : ¬ ['/', '/'] <+: u.path := not_slashes_of_head? hpath
  have hslashes : u.slashes = [] := by simp [Url.slashes, hauth, hrecognized, hnone]
  have hgap : u.gap = [] := by simp [Url.gap, hauth]
  simp [Url.write, hslashes, hgap, hauth, hfragment, marked]

theorem write_onto_of_relative {mode : Mode} {base : Url} {relatives : List Text} (h : base.WellFormed)
    (habsolute : base.absolute = false) :
    (onto mode base relatives).write =
      base.schemeMark ++ (Path.slashed (joinedNames mode base relatives) ++ marked '?' base.query) := by
  rw [onto_of_relative habsolute]
  obtain ⟨hrecognized, hauth, -⟩ := Url.absolute_eq_false_iff.1 habsolute
  exact write_of_hostless hrecognized hauth (areNames_joinedNames h.authority.1).head?_slashed rfl

/-- Relative components on a relative base give an absolute text only when there
    is no scheme in front of the names and these open it as absolute. -/
theorem absolute_readPlain_onto {mode : Mode} {base : Url} {relatives : List Text} (h : base.WellFormed)
    (habsolute : base.absolute = false) :
    (Url.readPlain (onto mode base relatives).write).absolute =
      (base.scheme = [] && opensAbsolute (joinedNames mode base relatives)) := by
  have hnames : Path.AreNames (joinedNames mode base relatives) := areNames_joinedNames h.authority.1
  have hhead := head?_names_append hnames base.query
  have hrecognized : Scheme.recognized base.scheme = false := (Url.absolute_eq_false_iff.1 habsolute).1
  rw [write_onto_of_relative h habsolute]
  unfold Url.schemeMark
  split
  · next hscheme => simp [absolute_readPlain_names hnames, hscheme]
  · next hscheme =>
    have hcut := (h.scheme.resolve_left hscheme).cut_append
      (Path.slashed (joinedNames mode base relatives) ++ marked '?' base.query)
    rw [List.append_assoc, List.singleton_append, absolute_readPlain_of_cut hcut (not_slashes_of_head? hhead),
      Path.rooted_eq_false hhead]
    simpa [hscheme] using hrecognized

/-- A join of relative arguments is relative unless its base has no scheme and
    the names that are left open the text as an absolute one. -/
theorem anchor?_join_eq_none_iff (place : Place) (mode : Mode) {base : Text} {components : List Text}
    (h : anchor? ((base :: components).map forward) = none) :
    anchor? [join place mode base components] = none ↔
      ¬ ((Url.read (forward base)).scheme = [] ∧
        opensAbsolute (joinedNames mode (Url.read (forward base)) (components.map forward)) = true) := by
  have hjoin := join_of_relative place mode h
  rw [List.map_cons] at h
  have hplain := anchor?_eq_none_iff.1 h (forward base) List.mem_cons_self
  have hbase : (Url.read (forward base)).absolute = false := by
    by_contra habsolute
    rw [Bool.not_eq_false] at habsolute
    rw [Url.absolute_readPlain habsolute] at hplain
    cases hplain
  rw [hjoin, anchor?_singleton_eq_none_iff, absolute_readPlain_onto (Url.wellFormed_read _) hbase]
  simp

/-- A scheme in front keeps a climb to what looks like an address relative. -/
theorem anchor?_join_of_scheme :
    anchor? (["mail:a".toList, "../http:x".toList].map forward) = none ∧
      anchor? [join (Place.make .posix ['/']) .append "mail:a".toList ["../http:x".toList]] = none :=
  ⟨by decide, (anchor?_join_eq_none_iff (Place.make .posix ['/']) .append (by decide)).2 (by decide)⟩

/-- Carrying out the dot names of relative arguments can bring a recognized
    scheme or a root to the front. -/
theorem anchor?_join_ne_none :
    anchor? (["a".toList, "../http:x".toList].map forward) = none ∧
      join (Place.make .posix ['/']) .append "a".toList ["../http:x".toList] = "http:x".toList ∧
      anchor? ["http:x".toList] ≠ none ∧
      anchor? (["./tel:".toList, "x".toList].map forward) = none ∧
      join (Place.make .posix ['/']) .append "./tel:".toList ["x".toList] = "tel:/x".toList ∧
      anchor? ["tel:/x".toList] ≠ none := by
  decide

end Locator.Join
