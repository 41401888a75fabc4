import Locator.Proofs.Path.Peeling

namespace Locator.Path

variable {path : Text} {names : List Text}

/-- A path with one slash in the place of each run of slashes. -/
def squeeze : Text → Text
  | [] => []
  | c :: rest => if c = '/' ∧ rooted rest then squeeze rest else c :: squeeze rest

/-- A path without the slash at its end, unless it is the root. -/
def withoutFinalSlash (path : Text) : Text :=
  if path ≠ root ∧ path.getLast? = some '/' then path.dropLast else path

/-- A path whose slashes all divide: no two stand together, and none at the end
    but that of the root. -/
structure IsTidy (path : Text) : Prop where
  single : ¬ "//".toList <:+: path
  final : path ≠ root → path.getLast? ≠ some '/'

/-- Names, with the root in front of them or not. -/
def AreSegments : List Text → Prop
  | [] => True
  | first :: rest => (first = root ∨ first ≠ [] ∧ '/' ∉ first) ∧ AreNames rest

theorem rooted_squeeze (path : Text) : rooted (squeeze path) = rooted path := by
  induction path with
  | nil => rfl
  | cons c rest ih =>
    unfold squeeze
    split
    · next h =>
      obtain ⟨rfl, hrest⟩ := h
      rw [ih, hrest]
      rfl
    · rfl

theorem names_append_squeeze (front path : Text) : Path.names (front ++ squeeze path) = Path.names (front ++ path) := by
  induction path generalizing front with
  | nil => rfl
  | cons c rest ih =>
    unfold squeeze
    split
    · next h =>
      obtain ⟨rfl, hrest⟩ := h
      obtain ⟨behind, rfl⟩ := exists_of_rooted hrest
      rw [ih, names_append_slash, names_append_slash, names_cons_slash]
    · have hstep := ih (front ++ [c])
      rwa [List.append_assoc, List.append_assoc] at hstep

theorem segments_squeeze (path : Text) : segments (squeeze path) = segments path := by
  apply segments_eq_segments
  · exact rooted_squeeze path
  · exact names_append_squeeze [] path

theorem not_slashes_infix_squeeze (path : Text) : ¬ "//".toList <:+: squeeze path := by
  induction path with
  | nil => simp [squeeze]
  | cons c rest ih =>
    unfold squeeze
    split
    · exact ih
    · next h =>
      rw [List.infix_cons_iff, not_or]
      refine ⟨?_, ih⟩
      rintro ⟨behind, hbehind⟩
      obtain ⟨hc, hrest⟩ := List.cons_eq_cons.1 hbehind
      have hrooted : rooted rest = true := by
        rw [← rooted_squeeze, ← hrest]
        rfl
      exact h ⟨hc.symm, hrooted⟩

theorem withoutFinalSlash_cases (path : Text) :
    (∃ front, front ≠ [] ∧ path = front ++ ['/'] ∧ withoutFinalSlash path = front) ∨
      ((path ≠ root → path.getLast? ≠ some '/') ∧ withoutFinalSlash path = path) := by
  unfold withoutFinalSlash
  split
  · next h =>
    obtain ⟨hroot, hlast⟩ := h
    obtain ⟨front, rfl⟩ := List.getLast?_eq_some_iff.1 hlast
    refine Or.inl ⟨front, ?_, rfl, List.dropLast_concat⟩
    rintro rfl
    exact hroot rfl
  · next h =>
    rw [not_and] at h
    exact Or.inr ⟨h, rfl⟩

theorem segments_withoutFinalSlash (path : Text) : segments (withoutFinalSlash path) = segments path := by
  obtain ⟨front, hfront, rfl, hresult⟩ | ⟨-, hresult⟩ := withoutFinalSlash_cases path
  · rw [hresult]
    apply segments_eq_segments
    · exact (rooted_append hfront ['/']).symm
    · exact (names_concat_slash front).symm
  · rw [hresult]

theorem isTidy_withoutFinalSlash_squeeze (path : Text) : IsTidy (withoutFinalSlash (squeeze path)) := by
  have hsingle := not_slashes_infix_squeeze path
  obtain ⟨front, -, hwhole, hresult⟩ | ⟨hfinal, hresult⟩ := withoutFinalSlash_cases (squeeze path)
  · rw [hresult]
    rw [hwhole] at hsingle
    constructor
    · intro hrun
      exact hsingle (hrun.trans (List.prefix_append front ['/']).isInfix)
    · intro _ hlast
      -- one slash was cut off, so that another in front of it would have made a run
      obtain ⟨further, rfl⟩ := List.getLast?_eq_some_iff.1 hlast
      exact hsingle ⟨further, [], by simp⟩
  · rw [hresult]
    exact ⟨hsingle, hfinal⟩

/-- No piece of a tidy path is empty, but for the one in front of a root. -/
theorem IsTidy.nil_notMem_splitOn (h : IsTidy path) (hrooted : rooted path = false) (hne : path ≠ []) :
    [] ∉ path.splitOn '/' := by
  intro hmem
  obtain ⟨front, behind, hsplit⟩ := List.append_of_mem hmem
  have htext := below_splitOn path
  rw [hsplit, below_append, below_cons, List.nil_append] at htext
  cases front with
  | nil =>
    obtain rfl : below behind = path := List.cons_injective htext
    cases behind with
    | nil => exact hne rfl
    | cons next further => cases hrooted
  | cons first front =>
    rw [below_cons, List.cons_append] at htext
    obtain rfl := List.cons_injective htext
    cases behind with
    | nil =>
      apply h.final
      · intro hroot
        rw [hroot] at hrooted
        cases hrooted
      · exact List.getLast?_concat
    | cons next further =>
      apply h.single
      rw [below_cons]
      exact ⟨first ++ below front, next ++ below further, by simp⟩

theorem ofSegments_of_areNames (h : AreNames names) : ofSegments names = slashed names := by
  cases names with
  | nil => rfl
  | cons first rest =>
    have hroot : first ≠ root := by
      rintro rfl
      exact (h root List.mem_cons_self).2 (by simp [root])
    exact if_neg hroot

theorem IsTidy.slashed_names (h : IsTidy path) (hrooted : rooted path = false) : slashed (Path.names path) = path := by
  by_cases hne : path = []
  · rw [hne]
    rfl
  · have hnil := h.nil_notMem_splitOn hrooted hne
    have hnames : Path.names path = path.splitOn '/' := by
      rw [Path.names, List.filter_eq_self]
      intro piece hpiece
      apply decide_eq_true
      rintro rfl
      exact hnil hpiece
    rw [hnames]
    exact List.intercalate_splitOn '/'

/-- A tidy path is written as it was read. -/
theorem IsTidy.ofSegments_segments (h : IsTidy path) : ofSegments (segments path) = path := by
  by_cases hrooted : rooted path = true
  · obtain ⟨rest, rfl⟩ := exists_of_rooted hrooted
    have hrest : rooted rest = false := by
      rw [Bool.eq_false_iff]
      intro hrest
      obtain ⟨behind, rfl⟩ := exists_of_rooted hrest
      exact h.single ⟨[], behind, rfl⟩
    have htidy : IsTidy rest := by
      constructor
      · intro hrun
        exact h.single (hrun.trans (List.suffix_cons '/' rest).isInfix)
      · intro _ hlast
        have hne : rest ≠ [] := by
          rintro rfl
          cases hlast
        apply h.final
        · intro hroot
          exact hne (List.cons_injective hroot)
        · rw [List.getLast?_cons, hlast]
          rfl
    rw [segments, if_pos hrooted, names_cons_slash]
    exact congrArg ('/' :: ·) (htidy.slashed_names hrest)
  · rw [segments, if_neg hrooted, ofSegments_of_areNames (areNames_names path)]
    exact h.slashed_names (by simpa using hrooted)

/-- Written anew by its segments, a path loses what its slashes say twice. -/
theorem ofSegments_segments (path : Text) : ofSegments (segments path) = withoutFinalSlash (squeeze path) := by
  have htidy := isTidy_withoutFinalSlash_squeeze path
  have hsame : segments (withoutFinalSlash (squeeze path)) = segments path := by
    rw [segments_withoutFinalSlash, segments_squeeze]
  rw [← hsame]
  exact htidy.ofSegments_segments

theorem areSegments_segments (path : Text) : AreSegments (segments path) := by
  unfold segments
  split
  · exact ⟨Or.inl rfl, areNames_names path⟩
  · have hnames := areNames_names path
    cases hpath : Path.names path with
    | nil => trivial
    | cons first rest =>
      rw [hpath] at hnames
      obtain ⟨hfirst, hrest⟩ := List.forall_mem_cons.1 hnames
      exact ⟨Or.inr hfirst, hrest⟩

theorem AreSegments.segments_ofSegments (h : AreSegments names) : segments (ofSegments names) = names := by
  cases names with
  | nil => rfl
  | cons first rest =>
    obtain ⟨rfl | hfirst, hrest⟩ := h
    · have hrooted : rooted ('/' :: slashed rest) = true := rfl
      change segments ('/' :: slashed rest) = root :: rest
      rw [segments, if_pos hrooted, hrest.names_rooted]
    · have hnames : AreNames (first :: rest) := List.forall_mem_cons.2 ⟨hfirst, hrest⟩
      have hrooted : rooted (slashed (first :: rest)) = false := rooted_eq_false hnames.head?_slashed
      rw [ofSegments_of_areNames hnames, segments, hrooted, if_neg Bool.false_ne_true, hnames.names_slashed]

/-- Peeled off from its end, a path has the segments that lie between its
    slashes, in order, with the root in front when it is rooted. Written by
    them it is the path with its slashes tidied up, and the lists that come back
    from being written are those that a path can have. -/
theorem peel_and_ofSegments_inverse :
    (∀ path, peel path = segments path ∧
      segments path = (if path.head? = some '/' then [root] else []) ++ (path.splitOn '/').filter (· ≠ [])) ∧
    (∀ path, ofSegments (segments path) = withoutFinalSlash (squeeze path)) ∧
    ∀ names, segments (ofSegments names) = names ↔ AreSegments names := by
  refine ⟨?_, ?_, ?_⟩
  · intro path
    exact ⟨peel_eq_segments path, segments_eq_append path⟩
  · exact ofSegments_segments
  · intro names
    constructor
    · intro h
      rw [← h]
      exact areSegments_segments (ofSegments names)
    · exact AreSegments.segments_ofSegments

example : withoutFinalSlash (squeeze "//a///b//".toList) = "/a/b".toList := by decide

end Locator.Path
