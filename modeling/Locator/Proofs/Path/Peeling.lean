import Locator.Proofs.Path.Buffers

namespace Locator.Path

variable {path : Text}

/-- A path without the slashes at its end. -/
def trimmed (path : Text) : Text :=
  path.rdropWhile (· == '/')

/-- What stands behind the last slash, found from the end. -/
def lastName (path : Text) : Text :=
  path.rtakeWhile (· != '/')

theorem directory_append_lastName (path : Text) : directory path ++ lastName path = path :=
  List.rdropWhile_append_rtakeWhile

theorem trimmed_append_slashes (path : Text) : trimmed path ++ path.rtakeWhile (· == '/') = path :=
  List.rdropWhile_append_rtakeWhile

theorem slash_notMem_lastName (path : Text) : '/' ∉ lastName path := by
  intro hmem
  have hother := List.mem_rtakeWhile_imp hmem
  simp at hother

theorem lastName_trimmed_ne_nil (h : trimmed path ≠ []) : lastName (trimmed path) ≠ [] := by
  intro hnone
  have hslash := List.rtakeWhile_eq_nil_iff.1 hnone h
  have hother := List.rdropWhile_last_not (· == '/') path h
  simp only [bne_iff_ne, ne_eq, Decidable.not_not] at hslash
  exact hother (beq_iff_eq.2 hslash)

/-- In front of the last name there is nothing or a slash. -/
theorem directory_cases (path : Text) : directory path = [] ∨ ∃ front, directory path = front ++ ['/'] := by
  obtain hnone | ⟨front, last, hconcat⟩ := List.eq_nil_or_concat (directory path)
  · exact Or.inl hnone
  · rw [List.concat_eq_append] at hconcat
    have hne : directory path ≠ [] := by simp [hconcat]
    have hlast := List.rdropWhile_last_not (· != '/') path hne
    have hslash : (directory path).getLast hne = last := by simp [hconcat]
    change ¬ ((directory path).getLast hne != '/') = true at hlast
    rw [hslash] at hlast
    obtain rfl : last = '/' := by simpa using hlast
    exact Or.inr ⟨front, hconcat⟩

theorem length_directory_trimmed_lt (h : trimmed path ≠ []) : (directory (trimmed path)).length < path.length := by
  have hname := List.length_pos_iff.2 (lastName_trimmed_ne_nil h)
  have hcut := congrArg List.length (directory_append_lastName (trimmed path))
  have htrimmed := (List.rdropWhile_prefix (· == '/') path).length_le
  change (trimmed path).length ≤ path.length at htrimmed
  rw [List.length_append] at hcut
  omega

/-- Takes the names off a path one by one from its end, and its root last. Those
    taken off before stand behind. -/
def peelOnto (behind : List Text) (path : Text) : List Text :=
  if _h : trimmed path = [] then
    if rooted path then root :: behind else behind
  else peelOnto (lastName (trimmed path) :: behind) (directory (trimmed path))
termination_by path.length
decreasing_by exact length_directory_trimmed_lt ‹_›

def peel (path : Text) : List Text :=
  peelOnto [] path

theorem names_of_slashes {slashes : Text} (h : ∀ c ∈ slashes, c = '/') : names slashes = [] := by
  induction slashes with
  | nil => rfl
  | cons c rest ih =>
    obtain ⟨rfl, hrest⟩ := List.forall_mem_cons.1 h
    rw [names_cons_slash, ih hrest]

theorem names_append_slashes (path : Text) {slashes : Text} (h : ∀ c ∈ slashes, c = '/') :
    names (path ++ slashes) = names path := by
  cases slashes with
  | nil => rw [List.append_nil]
  | cons c rest =>
    obtain ⟨rfl, hrest⟩ := List.forall_mem_cons.1 h
    rw [names_append_slash, names_of_slashes hrest, List.append_nil]

/-- A rooted path keeps its root, and its names are all that is cut between
    slashes. -/
theorem segments_eq_append (path : Text) :
    segments path = (if path.head? = some '/' then [root] else []) ++ (path.splitOn '/').filter (· ≠ []) := by
  unfold segments rooted names
  by_cases hrooted : path.head? = some '/'
  · simp [hrooted]
  · simp [hrooted]

theorem segments_eq_segments {other : Text} (hrooted : rooted path = rooted other) (hnames : names path = names other) :
    segments path = segments other := by
  rw [segments, segments, hrooted, hnames]

theorem segments_of_slashes (h : trimmed path = []) : segments path = if rooted path then [root] else [] := by
  have hslashes : ∀ c ∈ path, c = '/' := fun c hc => beq_iff_eq.1 (List.rdropWhile_eq_nil_iff.1 h c hc)
  rw [segments, names_of_slashes hslashes]

theorem segments_trimmed (h : trimmed path ≠ []) : segments (trimmed path) = segments path := by
  have hslashes : ∀ c ∈ path.rtakeWhile (· == '/'), c = '/' := by
    intro c hc
    have hslash := List.mem_rtakeWhile_imp hc
    exact beq_iff_eq.1 hslash
  conv_rhs => rw [← trimmed_append_slashes path]
  apply segments_eq_segments
  · exact (rooted_append h _).symm
  · exact (names_append_slashes (trimmed path) hslashes).symm

/-- The last name of a path is its last segment, if there is such a name. -/
theorem segments_directory_append (h : lastName path ≠ []) :
    segments (directory path) ++ [lastName path] = segments path := by
  have hnames : names (lastName path) = [lastName path] := by
    have hname : AreNames [lastName path] := by
      intro name hname
      obtain rfl := List.mem_singleton.1 hname
      exact ⟨h, slash_notMem_lastName path⟩
    have hread := hname.names_slashed
    rwa [slashed_singleton] at hread
  have hwhole := directory_append_lastName path
  obtain hnone | ⟨front, hfront⟩ := directory_cases path
  · rw [hnone, List.nil_append] at hwhole
    have hrooted : rooted path = false := by
      obtain ⟨c, rest, hcons⟩ := List.exists_cons_of_ne_nil h
      have hc : c ≠ '/' := by
        rintro rfl
        exact slash_notMem_lastName path (by simp [hcons])
      rw [← hwhole, hcons]
      simpa [rooted] using hc
    rw [hwhole] at hnames
    rw [hnone, hwhole, segments, segments, hrooted, hnames]
    rfl
  · have hrooted : rooted path = rooted (front ++ ['/']) := by
      conv_lhs => rw [← hwhole, hfront]
      exact rooted_append (by simp) (lastName path)
    have hpathNames : names path = names front ++ [lastName path] := by
      conv_lhs => rw [← hwhole, hfront]
      rw [List.append_assoc, List.singleton_append, names_append_slash, hnames]
    rw [hfront, segments, segments, hrooted, names_concat_slash, hpathNames]
    split <;> simp

/-- Each round leaves the segments of the rest in front of those taken off. -/
theorem peelOnto_eq_append (behind : List Text) (path : Text) : peelOnto behind path = segments path ++ behind := by
  fun_induction peelOnto behind path with
  | case1 behind path hnone hrooted => rw [segments_of_slashes hnone, if_pos hrooted, List.singleton_append]
  | case2 behind path hnone hrooted => rw [segments_of_slashes hnone, if_neg hrooted, List.nil_append]
  | case3 behind path hsome ih =>
    have hlast := segments_directory_append (lastName_trimmed_ne_nil hsome)
    rw [ih, ← segments_trimmed hsome, ← hlast, List.append_assoc, List.singleton_append]

/-- Peeling a path from its end finds what cutting it at its slashes does. -/
theorem peel_eq_segments (path : Text) : peel path = segments path := by
  rw [peel, peelOnto_eq_append, List.append_nil]

end Locator.Path
