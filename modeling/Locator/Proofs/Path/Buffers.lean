import Locator.Proofs.Path.Names
import Locator.Proofs.Path.Trail
import Locator.Proofs.Text.Mark
import Mathlib.Data.List.DropRight

namespace Locator.Path

open Text

variable {name last output rest s : Text} {kept names segments : List Text}

/-- The path up to its last slash. -/
def directory (path : Text) : Text :=
  path.rdropWhile (· != '/')

/-- The path of a reference behind that of its base, both of an address with a
    host: it takes the place of all behind the last slash. -/
def merge (path reference : Text) : Text :=
  if path = [] then '/' :: reference else directory path ++ reference

/-- A text without its last segment and the slash in front of that. -/
def withoutLast (output : Text) : Text :=
  (directory output).dropLast

theorem length_drop_succ_lt (h : s ≠ []) (n : Nat) : (s.drop (n + 1)).length < s.length := by
  have hpos := List.length_pos_iff.2 h
  rw [List.length_drop]
  omega

theorem length_behind_lt (h : s ≠ []) : ((s.drop 1).dropWhile (· != '/')).length < s.length :=
  Nat.lt_of_le_of_lt (List.dropWhile_suffix _).length_le (length_drop_succ_lt h 0)

/-- Moves the text of a path from one buffer to another, by one segment at a
    time. Dot segments are taken off the input, and two dots take the last
    segment off the output as well. -/
def moveSegments (output input : Text) : Text :=
  if input = [] then output
  else if "../".toList <+: input then moveSegments output (input.drop 3)
  else if "./".toList <+: input then moveSegments output (input.drop 2)
  else if "/./".toList <+: input then moveSegments output ('/' :: input.drop 3)
  else if input = "/.".toList then moveSegments output ['/']
  else if "/../".toList <+: input then moveSegments (withoutLast output) ('/' :: input.drop 4)
  else if input = "/..".toList then moveSegments (withoutLast output) ['/']
  else if input = ".".toList ∨ input = "..".toList then output
  else
    moveSegments (output ++ input.take 1 ++ (input.drop 1).takeWhile (· != '/'))
      ((input.drop 1).dropWhile (· != '/'))
termination_by input.length
decreasing_by
  · exact length_drop_succ_lt ‹_› 2
  · exact length_drop_succ_lt ‹_› 1
  · have hlength := List.IsPrefix.length_le ‹"/./".toList <+: input›
    simp at hlength ⊢
    omega
  · simp [‹input = "/.".toList›]
  · have hlength := List.IsPrefix.length_le ‹"/../".toList <+: input›
    simp at hlength ⊢
    omega
  · simp [‹input = "/..".toList›]
  · exact length_behind_lt ‹_›

/-- A path with its dot segments removed by moving it to another buffer. -/
def withoutDotSegments (path : Text) : Text :=
  moveSegments [] path

example : withoutDotSegments "/a/b/c/./../../g".toList = "/a/g".toList := by decide +kernel
example : withoutDotSegments "mid/content=5/../6".toList = "mid/6".toList := by decide +kernel

/-- What a slash and a dot segment are replaced by. -/
theorem moveSegments_dot (output rest : Text) :
    moveSegments output ('/' :: '.' :: '/' :: rest) = moveSegments output ('/' :: rest) := by
  rw [moveSegments]
  simp

theorem moveSegments_climb (output rest : Text) :
    moveSegments output ('/' :: '.' :: '.' :: '/' :: rest) = moveSegments (withoutLast output) ('/' :: rest) := by
  rw [moveSegments]
  simp

theorem moveSegments_nil (output : Text) : moveSegments output [] = output := by
  rw [moveSegments]
  simp

/-- Any other segment is moved as it is. -/
theorem moveSegments_segment (output : Text) (hdot : before '/' s ≠ ['.']) (hclimb : before '/' s ≠ ['.', '.']) :
    moveSegments output ('/' :: s) =
      moveSegments (output ++ '/' :: before '/' s) (s.dropWhile (· != '/')) := by
  have hdotSlash : ¬ "/./".toList <+: '/' :: s := by
    rintro ⟨rest, hrest⟩
    obtain rfl : '.' :: '/' :: rest = s := List.cons_injective hrest
    exact hdot rfl
  have hclimbSlash : ¬ "/../".toList <+: '/' :: s := by
    rintro ⟨rest, hrest⟩
    obtain rfl : '.' :: '.' :: '/' :: rest = s := List.cons_injective hrest
    exact hclimb rfl
  have hlastDot : '/' :: s ≠ "/.".toList := by
    intro hlast
    obtain rfl : s = ['.'] := List.cons_injective hlast
    exact hdot rfl
  have hlastClimb : '/' :: s ≠ "/..".toList := by
    intro hlast
    obtain rfl : s = ['.', '.'] := List.cons_injective hlast
    exact hclimb rfl
  rw [moveSegments, if_neg (List.cons_ne_nil _ _), if_neg (by simp), if_neg (by simp), if_neg hdotSlash,
    if_neg hlastDot, if_neg hclimbSlash, if_neg hlastClimb, if_neg (by simp)]
  simp [before]

/-- The text of names with a slash in front of each. -/
def below (names : List Text) : Text :=
  names.flatMap ('/' :: ·)

theorem below_cons (name : Text) (names : List Text) : below (name :: names) = '/' :: (name ++ below names) :=
  List.flatMap_cons

theorem below_append (xs ys : List Text) : below (xs ++ ys) = below xs ++ below ys :=
  List.flatMap_append

theorem below_eq_cons_slashed (h : names ≠ []) : below names = '/' :: slashed names := by
  induction names with
  | nil => exact absurd rfl h
  | cons first rest ih =>
    cases rest with
    | nil => simp [below, slashed_singleton]
    | cons second rest =>
      have hrest := ih (List.cons_ne_nil second rest)
      rw [slashed_cons_cons, ← hrest]
      rfl

theorem below_splitOn (path : Text) : below (path.splitOn '/') = '/' :: path := by
  rw [below_eq_cons_slashed (List.splitOn_ne_nil '/' path), slashed, List.intercalate_splitOn]

theorem directory_append_slash (path : Text) (h : '/' ∉ last) : directory (path ++ '/' :: last) = path ++ ['/'] := by
  have hdropped : ∀ c ∈ last.reverse, (c != '/') = true := by
    intro c hc
    simpa using fun e : c = '/' => h (e ▸ List.mem_reverse.1 hc)
  rw [directory, List.rdropWhile, List.reverse_append, List.reverse_cons, List.append_assoc,
    List.dropWhile_append_of_pos hdropped]
  simp

theorem below_concat (names : List Text) (last : Text) : below (names ++ [last]) = below names ++ '/' :: last := by
  simp [below]

theorem withoutLast_below_concat (names : List Text) (h : '/' ∉ last) :
    withoutLast (below (names ++ [last])) = below names := by
  rw [withoutLast, below_concat, directory_append_slash _ h, List.dropLast_concat]

/-- A rooted path is the text of its segments and of a last one, which is empty
    behind a trailing slash. -/
theorem exists_final {path : Text} (h : rooted path = true) :
    ∃ front final, path.splitOn '/' = [] :: (front ++ [final]) ∧ '/' ∉ final ∧ path = below front ++ '/' :: final := by
  obtain ⟨r, rfl⟩ := exists_of_rooted h
  obtain ⟨front, final, hsplit⟩ := (List.eq_nil_or_concat (r.splitOn '/')).resolve_left (List.splitOn_ne_nil '/' r)
  rw [List.concat_eq_append] at hsplit
  have hfinal : final ∈ r.splitOn '/' := by simp [hsplit]
  refine ⟨front, final, ?_, slash_notMem_of_mem_splitOn hfinal, ?_⟩
  · simp [List.splitOn_cons_eq_if_modifyHead, hsplit]
  · rw [← below_splitOn, hsplit, below_concat]

/-- The path of a base, rooted or absent, gives a reference all its segments but
    the last. -/
theorem merge_eq_below {path : Text} (h : path = [] ∨ rooted path = true) (reference : Text) :
    merge path reference = below ((path.splitOn '/').tail.dropLast ++ reference.splitOn '/') := by
  rw [below_append, below_splitOn]
  obtain rfl | hrooted := h
  · rfl
  · have hne : path ≠ [] := by
      rintro rfl
      cases hrooted
    obtain ⟨front, final, hsplit, hfinal, htext⟩ := exists_final hrooted
    rw [hsplit, merge, if_neg hne, htext, directory_append_slash _ hfinal]
    simp

/-- A segment in front of others ends at the next slash. -/
theorem before_append_below (h : '/' ∉ name) (names : List Text) :
    before '/' (name ++ below names) = name ∧ (name ++ below names).dropWhile (· != '/') = below names := by
  have hkept : ∀ c ∈ name, (c != '/') = true := by
    intro c hc
    simpa using fun e : c = '/' => h (e ▸ hc)
  rw [before_append_of_notMem h, List.dropWhile_append_of_pos hkept]
  cases names with
  | nil => simp [below, before]
  | cons first rest => simp [below, before]

theorem moveSegments_below_of_plain (h : Plain name ∧ '/' ∉ name) (output : Text) (names : List Text) :
    moveSegments output (below (name :: names)) = moveSegments (output ++ '/' :: name) (below names) := by
  obtain ⟨hbefore, hbehind⟩ := before_append_below h.2 names
  have hmove := moveSegments_segment output (s := name ++ below names) (by rw [hbefore]; exact h.1.2.1)
    (by rw [hbefore]; exact h.1.2.2.2)
  rwa [hbefore, hbehind] at hmove

/-- The two buffers go with a stack of names: the text that was moved is that of
    the names kept. -/
theorem moveSegments_below (hkept : ∀ name ∈ kept, Plain name ∧ '/' ∉ name)
    (hsegments : AreNames segments) (hlast : Plain last ∧ '/' ∉ last) :
    moveSegments (below kept.reverse) (below (segments ++ [last])) =
      below ((segments ++ [last]).foldl (enter true) kept).reverse := by
  induction segments generalizing kept with
  | nil =>
    rw [List.nil_append, moveSegments_below_of_plain hlast, ← below_concat, List.foldl_cons,
      enter_of_plain hlast.1, ← List.reverse_cons]
    exact moveSegments_nil _
  | cons segment rest ih =>
    obtain ⟨⟨hne, hslash⟩, hrest⟩ := List.forall_mem_cons.1 hsegments
    -- the last segment keeps the input of a dot segment from ending there
    have hnext := below_eq_cons_slashed (List.append_ne_nil_of_right_ne_nil rest (List.cons_ne_nil last []))
    rw [List.cons_append, List.foldl_cons]
    obtain hskip | rfl | hplain := segment_cases segment
    · obtain rfl | rfl | rfl := hskip
      · exact absurd rfl hne
      · rw [enter_of_skipped (Or.inr (Or.inl rfl)), ← ih hkept hrest, below_cons, hnext]
        exact moveSegments_dot _ _
      · exact absurd List.mem_cons_self hslash
    · have hbelow : withoutLast (below kept.reverse) = below kept.tail.reverse := by
        cases kept with
        | nil => rfl
        | cons top kept =>
          rw [List.reverse_cons]
          exact withoutLast_below_concat _ (hkept top List.mem_cons_self).2
      have hmove := moveSegments_climb (below kept.reverse) (slashed (rest ++ [last]))
      rw [hbelow, ← hnext] at hmove
      rw [enter_climb_anchored fun name hname => (hkept name hname).1,
        ← ih (fun name hname => hkept name (List.mem_of_mem_tail hname)) hrest, below_cons]
      exact hmove
    · rw [moveSegments_below_of_plain ⟨hplain, hslash⟩, ← below_concat, ← List.reverse_cons, enter_of_plain hplain]
      exact ih (List.forall_mem_cons.2 ⟨⟨hplain, hslash⟩, hkept⟩) hrest

/-- Removing the dot segments by way of two buffers leaves the text of the names
    that are left of the segments, when the last of them stands for itself. -/
theorem withoutDotSegments_below (hsegments : AreNames segments) (hlast : Plain last ∧ '/' ∉ last) :
    withoutDotSegments (below (segments ++ [last])) = below (removeDots true (segments ++ [last])) :=
  moveSegments_below (List.forall_mem_nil _) hsegments hlast

end Locator.Path
