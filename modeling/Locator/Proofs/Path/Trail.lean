import Locator.Path.Segment

namespace Locator.Path

variable {name first : Text} {kept names : List Text} {anchored : Bool}

/-- A name that stands for itself when a path is followed. -/
def Plain (name : Text) : Prop :=
  name ≠ [] ∧ name ≠ ['.'] ∧ name ≠ root ∧ name ≠ ['.', '.']

/-- A segment is skipped, climbs, or is entered. -/
theorem segment_cases (segment : Text) :
    (segment = [] ∨ segment = ['.'] ∨ segment = root) ∨ segment = ['.', '.'] ∨ Plain segment := by
  by_cases hskip : segment = [] ∨ segment = ['.'] ∨ segment = root
  · exact Or.inl hskip
  · by_cases hclimb : segment = ['.', '.']
    · exact Or.inr (Or.inl hclimb)
    · simp only [not_or] at hskip
      exact Or.inr (Or.inr ⟨hskip.1, hskip.2.1, hskip.2.2, hclimb⟩)

/-- Without a slash only the empty name and the dot names do not stand for themselves. -/
theorem plain_iff_of_slash_notMem (h : '/' ∉ name) : Plain name ↔ name ∉ [[], ['.'], ['.', '.']] := by
  have hroot : name ≠ root := by
    rintro rfl
    exact h List.mem_cons_self
  simp [Plain, hroot]

theorem enter_of_skipped {segment : Text} (h : segment = [] ∨ segment = ['.'] ∨ segment = root)
    (kept : List Text) : enter anchored kept segment = kept :=
  if_pos h

theorem enter_of_plain (h : Plain name) (kept : List Text) : enter anchored kept name = name :: kept := by
  obtain ⟨hne, hdot, hroot, hclimb⟩ := h
  simp [enter, hne, hdot, hroot, hclimb]

theorem enter_climb_of_plain (h : Plain name) (kept : List Text) :
    enter anchored (name :: kept) ['.', '.'] = kept := by
  simp [enter, root, h.2.2.2]

/-- Without an anchor a climb that takes no name back is kept. -/
theorem enter_climb_replicate (climbs : Nat) :
    enter false (List.replicate climbs ['.', '.']) ['.', '.'] = List.replicate (climbs + 1) ['.', '.'] := by
  cases climbs with
  | zero => rfl
  | succ climbs => simp [enter, root, List.replicate_succ]

/-- Behind an anchor a climb takes the last name back, if there is one. -/
theorem enter_climb_anchored (h : ∀ name ∈ kept, Plain name) : enter true kept ['.', '.'] = kept.tail := by
  cases kept with
  | nil => rfl
  | cons last below => exact enter_climb_of_plain (h last List.mem_cons_self) below

/-- What following a path comes to: how far it climbs above where it starts, and
    the names it enters below that, last on top. -/
structure Trail where
  climbs : Nat
  names : List Text
  plain : ∀ name ∈ names, Plain name

namespace Trail

def start : Trail :=
  ⟨0, [], List.forall_mem_nil _⟩

def climb : Trail → Trail
  | ⟨climbs, [], h⟩ => ⟨climbs + 1, [], h⟩
  | ⟨climbs, _ :: below, h⟩ => ⟨climbs, below, fun name hname => h name (List.mem_cons_of_mem _ hname)⟩

def follow (t : Trail) (segment : Text) : Trail :=
  if hskip : segment = [] ∨ segment = ['.'] ∨ segment = root then t
  else if hclimb : segment = ['.', '.'] then t.climb
  else
    have hplain : Plain segment := by simp_all [Plain]
    ⟨t.climbs, segment :: t.names, List.forall_mem_cons.2 ⟨hplain, t.plain⟩⟩

theorem follow_of_skipped {segment : Text} (h : segment = [] ∨ segment = ['.'] ∨ segment = root) (t : Trail) :
    t.follow segment = t :=
  dif_pos h

theorem follow_climb (t : Trail) : t.follow ['.', '.'] = t.climb := by
  simp [follow, root]

theorem follow_of_plain (h : Plain name) (t : Trail) :
    t.follow name = ⟨t.climbs, name :: t.names, List.forall_mem_cons.2 ⟨h, t.plain⟩⟩ := by
  obtain ⟨hne, hdot, hroot, hclimb⟩ := h
  simp [follow, hne, hdot, hroot, hclimb]

/-- A trail upon what lies where it starts, as far as its climbs leave it. The
    floor tells what so many climbs leave. -/
def upon (floor : Nat → List Text) (t : Trail) : List Text :=
  t.names ++ floor t.climbs

/-- Entering a segment follows it, upon any floor that a climb takes down. -/
theorem enter_upon {floor : Nat → List Text}
    (hfloor : ∀ climbs, enter anchored (floor climbs) ['.', '.'] = floor (climbs + 1)) (t : Trail)
    (segment : Text) : enter anchored (t.upon floor) segment = (t.follow segment).upon floor := by
  obtain hskip | rfl | hplain := segment_cases segment
  · rw [enter_of_skipped hskip, follow_of_skipped hskip]
  · rw [follow_climb]
    match t with
    | ⟨climbs, [], _⟩ => exact hfloor climbs
    | ⟨climbs, last :: below, h⟩ => exact enter_climb_of_plain (h last List.mem_cons_self) _
  · rw [enter_of_plain hplain, follow_of_plain hplain]
    rfl

end Trail

/-- The trail of a path, from its segments. -/
def trail (segments : List Text) : Trail :=
  segments.foldl Trail.follow Trail.start

theorem foldl_enter_floor (floor : Nat → List Text)
    (hfloor : ∀ climbs, enter anchored (floor climbs) ['.', '.'] = floor (climbs + 1)) (segments : List Text) :
    segments.foldl (enter anchored) (floor 0) = (trail segments).upon floor := by
  change segments.foldl (enter anchored) (Trail.start.upon floor) = _
  exact List.foldl_hom (Trail.upon floor) fun t segment => Trail.enter_upon hfloor t segment

/-- Behind an anchor each climb above the start takes away one of the names that
    were there before. -/
theorem foldl_enter_anchored (h : ∀ name ∈ kept, Plain name) (segments : List Text) :
    segments.foldl (enter true) kept = (trail segments).names ++ kept.drop (trail segments).climbs := by
  refine foldl_enter_floor (fun climbs => kept.drop climbs) (fun climbs => ?_) segments
  rw [enter_climb_anchored fun name hname => h name (List.mem_of_mem_drop hname), List.tail_drop]

theorem removeDots_unanchored (segments : List Text) :
    removeDots false segments =
      List.replicate (trail segments).climbs ['.', '.'] ++ (trail segments).names.reverse := by
  have hfold := foldl_enter_floor (fun climbs => List.replicate climbs ['.', '.']) enter_climb_replicate segments
  rw [removeDots, show ([] : List Text) = List.replicate 0 ['.', '.'] from rfl, hfold, Trail.upon,
    List.reverse_append, List.reverse_replicate]

theorem climb_notMem_trail (segments : List Text) : ['.', '.'] ∉ (trail segments).names.reverse := by
  intro hmem
  obtain ⟨-, -, -, hclimb⟩ := (trail segments).plain _ (List.mem_reverse.1 hmem)
  exact hclimb rfl

/-- Climbs in front of names that hold none tell how often a path climbs and what
    it enters then. -/
theorem removeDots_unanchored_eq_iff {segments : List Text} {climbs : Nat} (h : ['.', '.'] ∉ names) :
    removeDots false segments = List.replicate climbs ['.', '.'] ++ names ↔
      climbs = (trail segments).climbs ∧ names = (trail segments).names.reverse := by
  rw [removeDots_unanchored]
  constructor
  · intro hsplit
    have hcount := congrArg (List.count ['.', '.']) hsplit
    rw [List.count_append, List.count_append, List.count_replicate_self, List.count_replicate_self,
      List.count_eq_zero.2 (climb_notMem_trail segments), List.count_eq_zero.2 h] at hcount
    have hclimbs : climbs = (trail segments).climbs := hcount.symm
    rw [hclimbs] at hsplit
    exact ⟨hclimbs, (List.append_cancel_left hsplit).symm⟩
  · rintro ⟨rfl, rfl⟩
    rfl

/-- Behind an anchor the climbs above the start are lost. -/
theorem removeDots_anchored (segments : List Text) : removeDots true segments = (trail segments).names.reverse := by
  rw [removeDots, foldl_enter_anchored (List.forall_mem_nil _), List.drop_nil, List.append_nil]

/-- A name in front stays unless a climb above the start takes it away. -/
theorem removeDots_cons_anchored (h : Plain first) (segments : List Text) :
    removeDots true (first :: segments) =
      if (trail segments).climbs = 0 then first :: (trail segments).names.reverse
      else (trail segments).names.reverse := by
  have hfloor : ∀ name ∈ [first], Plain name := by simpa using h
  rw [removeDots, List.foldl_cons, enter_of_plain h, foldl_enter_anchored hfloor]
  cases (trail segments).climbs with
  | zero => simp
  | succ climbs => simp

theorem removeDots_concat (h : Plain name) (segments : List Text) :
    removeDots anchored (segments ++ [name]) = removeDots anchored segments ++ [name] := by
  rw [removeDots_append, List.foldl_cons, enter_of_plain h, List.foldl_nil, List.reverse_cons, List.reverse_reverse]

theorem plain_of_mem_removeDots (h : name ∈ removeDots true names) : Plain name := by
  rw [removeDots_anchored, List.mem_reverse] at h
  exact (trail names).plain name h

theorem foldl_enter_of_plain (h : ∀ name ∈ names, Plain name) (kept : List Text) :
    names.foldl (enter anchored) kept = names.reverse ++ kept := by
  induction names generalizing kept with
  | nil => rfl
  | cons first rest ih =>
    rw [List.foldl_cons, enter_of_plain (h first List.mem_cons_self),
      ih (fun name hname => h name (List.mem_cons_of_mem _ hname)), List.reverse_cons, List.append_assoc,
      List.singleton_append]

theorem removeDots_of_plain (h : ∀ name ∈ names, Plain name) : removeDots anchored names = names := by
  rw [removeDots, foldl_enter_of_plain h, List.append_nil, List.reverse_reverse]

end Locator.Path
