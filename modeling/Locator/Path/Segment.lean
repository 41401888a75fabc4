import Locator.Text.Basic

namespace Locator.Path

/-- The segment that marks a rooted path; it stands in front of the names. -/
def root : Text := ['/']

def rooted (path : Text) : Bool :=
  path.head? == some '/'

theorem head?_of_rooted {path : Text} (h : rooted path = true) : path.head? = some '/' := by
  simpa [rooted] using h

theorem exists_of_rooted {path : Text} (h : rooted path = true) : ∃ r, path = '/' :: r :=
  List.head?_eq_some_iff.1 (head?_of_rooted h)

theorem rooted_eq_false {path : Text} (h : path.head? ≠ some '/') : rooted path = false := by
  simpa [rooted] using h

/-- The names between the slashes of a path. Repeated and trailing slashes
    name nothing. -/
def names (path : Text) : List Text :=
  (path.splitOn '/').filter (· ≠ [])

theorem splitOn_append_slash (a b : Text) : (a ++ '/' :: b).splitOn '/' = a.splitOn '/' ++ b.splitOn '/' := by
  induction a with
  | nil => simp [List.splitOn_cons_eq_if_modifyHead]
  | cons c r ih =>
    obtain ⟨first, rest, hr⟩ := List.exists_cons_of_ne_nil (List.splitOn_ne_nil '/' r)
    by_cases hc : c = '/' <;> simp [List.splitOn_cons_eq_if_modifyHead, hc, ih, hr]

theorem names_append_slash (a b : Text) : names (a ++ '/' :: b) = names a ++ names b := by
  rw [names, splitOn_append_slash, List.filter_append]
  rfl

theorem slash_notMem_of_mem_splitOn {path piece : Text} (h : piece ∈ path.splitOn '/') : '/' ∉ piece := by
  induction path generalizing piece with
  | nil => simp_all
  | cons c r ih =>
    obtain ⟨first, rest, hr⟩ := List.exists_cons_of_ne_nil (List.splitOn_ne_nil '/' r)
    rw [hr] at ih
    by_cases hc : c = '/'
    · simp only [List.splitOn_cons_eq_if_modifyHead, hc, beq_self_eq_true, if_true, List.mem_cons, hr] at h
      rcases h with rfl | h
      · exact List.not_mem_nil
      · exact ih (List.mem_cons.2 h)
    · simp only [List.splitOn_cons_eq_if_modifyHead, beq_iff_eq, hc, if_false, hr, List.modifyHead_cons,
        List.mem_cons] at h
      rcases h with rfl | h
      · simpa [Ne.symm hc] using ih List.mem_cons_self
      · exact ih (List.mem_cons_of_mem _ h)

/-- A name is not empty and holds no slash. -/
theorem mem_names {path name : Text} (h : name ∈ names path) : name ≠ [] ∧ '/' ∉ name := by
  simp only [names, List.mem_filter, decide_eq_true_eq] at h
  exact ⟨h.2, slash_notMem_of_mem_splitOn h.1⟩

/-- The names of a path, with the root in front when it is rooted. -/
def segments (path : Text) : List Text :=
  if rooted path then root :: names path else names path

def slashed (names : List Text) : Text :=
  ['/'].intercalate names

/-- The path written by its segments. -/
def ofSegments : List Text → Text
  | [] => []
  | first :: rest => if first = root then '/' :: slashed rest else slashed (first :: rest)

/-- One segment upon the names kept so far, the last of them on top. Above an
    anchor there is nothing to climb to; without one a climb is kept. -/
def enter (anchored : Bool) (kept : List Text) (segment : Text) : List Text :=
  if segment = [] ∨ segment = ['.'] ∨ segment = root then kept
  else if segment = ['.', '.'] then
    match kept with
    | [] => if anchored then [] else [segment]
    | last :: below => if last ≠ ['.', '.'] then below else if anchored then kept else segment :: kept
  else segment :: kept

/-- Segments with their dot names carried out, so that none is left but climbs
    in front of a path without an anchor. -/
def removeDots (anchored : Bool) (segments : List Text) : List Text :=
  (segments.foldl (enter anchored) []).reverse

theorem removeDots_append (anchored : Bool) (xs ys : List Text) :
    removeDots anchored (xs ++ ys) = (ys.foldl (enter anchored) (removeDots anchored xs).reverse).reverse := by
  simp [removeDots]

/-- What stands behind the last slash. -/
def lastPiece (path : Text) : Text :=
  (path.splitOn '/').getLastD []

end Locator.Path
