import Locator.Path.Segment

namespace Locator.Path

variable {names segments : List Text} {anchored : Bool}

/-- Texts that can stand between slashes: none is empty and none holds one. -/
def AreNames (names : List Text) : Prop :=
  ∀ name ∈ names, name ≠ [] ∧ '/' ∉ name

theorem areNames_names (path : Text) : AreNames (Path.names path) :=
  fun _ hname => mem_names hname

theorem names_cons_slash (path : Text) : Path.names ('/' :: path) = Path.names path :=
  names_append_slash [] path

theorem names_concat_slash (path : Text) : Path.names (path ++ ['/']) = Path.names path := by
  rw [names_append_slash]
  exact List.append_nil _

theorem rooted_append {path : Text} (h : path ≠ []) (behind : Text) : rooted (path ++ behind) = rooted path := by
  obtain ⟨c, rest, rfl⟩ := List.exists_cons_of_ne_nil h
  rfl

@[simp] theorem slashed_nil : slashed [] = [] := rfl

theorem slashed_singleton (name : Text) : slashed [name] = name :=
  List.intercalate_singleton

theorem slashed_cons_cons (first second : Text) (rest : List Text) :
    slashed (first :: second :: rest) = first ++ '/' :: slashed (second :: rest) := by
  simp [slashed, List.intercalate_cons_cons]

theorem slashed_cons (first : Text) (rest : List Text) :
    slashed (first :: rest) = first ++ if rest = [] then [] else '/' :: slashed rest := by
  cases rest with
  | nil => simp [slashed_singleton]
  | cons second rest => simp [slashed_cons_cons]

/-- The characters of a written path are slashes and those of its names. -/
theorem mem_of_mem_slashed {c : Char} (h : c ∈ slashed names) : c = '/' ∨ ∃ name ∈ names, c ∈ name := by
  induction names with
  | nil => simp at h
  | cons first rest ih =>
    cases rest with
    | nil =>
      rw [slashed_singleton] at h
      exact Or.inr ⟨first, by simp, h⟩
    | cons second rest =>
      rw [slashed_cons_cons] at h
      simp only [List.mem_append, List.mem_cons] at h
      obtain h | h | h := h
      · exact Or.inr ⟨first, by simp, h⟩
      · exact Or.inl h
      · obtain hc | ⟨name, hname, hc⟩ := ih h
        · exact Or.inl hc
        · exact Or.inr ⟨name, List.mem_cons_of_mem _ hname, hc⟩

theorem mem_slashed_of_mem {name : Text} (h : name ∈ names) {c : Char} (hc : c ∈ name) : c ∈ slashed names := by
  induction names with
  | nil => simp at h
  | cons first rest ih =>
    cases rest with
    | nil =>
      obtain rfl := List.mem_singleton.1 h
      rwa [slashed_singleton]
    | cons second rest =>
      rw [slashed_cons_cons]
      simp only [List.mem_append, List.mem_cons]
      cases List.mem_cons.1 h with
      | inl hfirst => exact Or.inl (hfirst ▸ hc)
      | inr hrest => exact Or.inr (Or.inr (ih hrest))

theorem mem_of_mem_splitOn {path piece : Text} (h : piece ∈ path.splitOn '/') {c : Char} (hc : c ∈ piece) :
    c ∈ path := by
  have hjoin : slashed (path.splitOn '/') = path := List.intercalate_splitOn '/'
  rw [← hjoin]
  exact mem_slashed_of_mem h hc

theorem mem_of_mem_names {path name : Text} (h : name ∈ Path.names path) {c : Char} (hc : c ∈ name) : c ∈ path :=
  mem_of_mem_splitOn (List.mem_filter.1 h).1 hc

theorem AreNames.head?_slashed (h : AreNames names) : (slashed names).head? ≠ some '/' := by
  cases names with
  | nil => simp
  | cons first rest =>
    obtain ⟨hne, hslash⟩ := h first (by simp)
    obtain ⟨c, r, rfl⟩ := List.exists_cons_of_ne_nil hne
    have hc : c ≠ '/' := fun e => hslash (by simp [e])
    cases rest with
    | nil => simpa [slashed_singleton] using hc
    | cons second rest => simpa [slashed_cons_cons] using hc

theorem notMem_slashed {c : Char} (hc : c ≠ '/') (h : ∀ name ∈ names, c ∉ name) : c ∉ slashed names := by
  intro hmem
  obtain hslash | ⟨name, hname, hcname⟩ := mem_of_mem_slashed hmem
  · exact hc hslash
  · exact h name hname hcname

theorem AreNames.splitOn_slashed (h : AreNames names) (hne : names ≠ []) : (slashed names).splitOn '/' = names :=
  List.splitOn_intercalate '/' (fun name hname => (h name hname).2) hne

/-- A path written by names does not end in a slash, which would name nothing
    more. -/
theorem AreNames.getLast?_slashed (h : AreNames names) : (slashed names).getLast? ≠ some '/' := by
  intro hlast
  obtain ⟨front, hfront⟩ := List.getLast?_eq_some_iff.1 hlast
  have hne : names ≠ [] := by
    rintro rfl
    simp at hfront
  have hsplit := h.splitOn_slashed hne
  rw [hfront, splitOn_append_slash] at hsplit
  have hmem : [] ∈ names := by
    rw [← hsplit]
    exact List.mem_append_right _ List.mem_cons_self
  exact (h [] hmem).1 rfl

/-- No piece of a rooted path but the one in front of its root is empty. -/
theorem AreNames.splitOn_rooted (h : AreNames names) (hne : names ≠ []) :
    ('/' :: slashed names).splitOn '/' = [] :: names := by
  rw [← List.nil_append ('/' :: slashed names), splitOn_append_slash, h.splitOn_slashed hne]
  rfl

theorem lastPiece_mem_splitOn (path : Text) : lastPiece path ∈ path.splitOn '/' := by
  have hne := List.splitOn_ne_nil '/' path
  have hlast : lastPiece path = (path.splitOn '/').getLast hne := by
    rw [lastPiece, List.getLastD_eq_getLast?, List.getLast?_eq_some_getLast hne, Option.getD_some]
  rw [hlast]
  exact List.getLast_mem hne

theorem slash_notMem_lastPiece (path : Text) : '/' ∉ lastPiece path :=
  slash_notMem_of_mem_splitOn (lastPiece_mem_splitOn path)

theorem mem_of_mem_lastPiece {path : Text} {c : Char} (hc : c ∈ lastPiece path) : c ∈ path :=
  mem_of_mem_splitOn (lastPiece_mem_splitOn path) hc

/-- Names with slashes between them read back. -/
theorem AreNames.names_slashed (h : AreNames names) : Path.names (slashed names) = names := by
  cases names with
  | nil => rfl
  | cons first rest =>
    rw [Path.names, h.splitOn_slashed (List.cons_ne_nil first rest), List.filter_eq_self]
    exact fun name hname => decide_eq_true (h name hname).1

theorem AreNames.names_rooted (h : AreNames names) : Path.names ('/' :: slashed names) = names := by
  rw [names_cons_slash, h.names_slashed]

/-- Paths with slashes between them name what each of them names. -/
theorem names_slashed_eq_flatMap (paths : List Text) : Path.names (slashed paths) = paths.flatMap Path.names := by
  induction paths with
  | nil => rfl
  | cons first rest ih =>
    cases rest with
    | nil => rw [slashed_singleton, List.flatMap_singleton]
    | cons second rest =>
      rw [slashed_cons_cons, names_append_slash, ih]
      exact List.flatMap_cons.symm

theorem rooted_slashed_cons {first : Text} (h : first ≠ []) (rest : List Text) :
    rooted (slashed (first :: rest)) = rooted first := by
  rw [slashed_cons]
  exact rooted_append h _

/-- The segments of a path but for its root. -/
def belowRoot (path : Text) : List Text :=
  (Path.segments path).filter (· ≠ root)

theorem belowRoot_eq_names (path : Text) : belowRoot path = Path.names path := by
  have hnames : (Path.names path).filter (· ≠ root) = Path.names path := by
    rw [List.filter_eq_self]
    intro name hname
    have hslash := (mem_names hname).2
    exact decide_eq_true fun hroot => hslash (by simp [hroot, root])
  unfold belowRoot Path.segments
  split
  · rw [List.filter_cons_of_neg (by simp), hnames]
  · exact hnames

theorem mem_enter {kept : List Text} {segment name : Text} (h : name ∈ enter anchored kept segment) :
    name = segment ∨ name ∈ kept := by
  unfold enter at h
  split at h
  · exact Or.inr h
  · split at h
    · split at h
      · split at h
        · exact Or.inr h
        · exact Or.inl (by simpa using h)
      · split at h
        · exact Or.inr (List.mem_cons_of_mem _ h)
        · split at h
          · exact Or.inr h
          · exact List.mem_cons.1 h
    · exact List.mem_cons.1 h

theorem mem_foldl_enter {kept : List Text} {name : Text} (h : name ∈ segments.foldl (enter anchored) kept) :
    name ∈ segments ∨ name ∈ kept := by
  induction segments generalizing kept with
  | nil => exact Or.inr h
  | cons segment rest ih =>
    obtain hrest | hkept := ih h
    · exact Or.inl (List.mem_cons_of_mem _ hrest)
    · obtain rfl | hkept := mem_enter hkept
      · exact Or.inl List.mem_cons_self
      · exact Or.inr hkept

/-- Carrying out the dot names brings no new name about. -/
theorem mem_of_mem_removeDots {name : Text} (h : name ∈ removeDots anchored segments) : name ∈ segments := by
  obtain hmem | hmem := mem_foldl_enter (List.mem_reverse.1 h)
  · exact hmem
  · simp at hmem

end Locator.Path
