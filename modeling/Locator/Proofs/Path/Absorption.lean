import Locator.Proofs.Path.Trail
import Mathlib.Logic.Function.Iterate

namespace Locator.Path

variable {anchored : Bool} {names : List Text}

/-- Segments go upon names kept before as their trail does: the climbs first,
    then the names. -/
theorem foldl_enter_eq_upon (anchored : Bool) (kept segments : List Text) :
    segments.foldl (enter anchored) kept =
      (trail segments).upon fun climbs => (enter anchored · ['.', '.'])^[climbs] kept :=
  foldl_enter_floor (fun climbs => (enter anchored · ['.', '.'])^[climbs] kept)
    (fun climbs => (Function.iterate_succ_apply' (enter anchored · ['.', '.']) climbs kept).symm) segments

theorem trail_append (xs ys : List Text) : trail (xs ++ ys) = ys.foldl Trail.follow (trail xs) :=
  List.foldl_append

theorem Trail.eq_of_climbs_of_names {t u : Trail} (hclimbs : t.climbs = u.climbs) (hnames : t.names = u.names) :
    t = u := by
  cases t
  cases u
  cases hclimbs
  cases hnames
  rfl

theorem trail_replicate_climb (climbs : Nat) :
    trail (List.replicate climbs ['.', '.']) = ⟨climbs, [], List.forall_mem_nil _⟩ := by
  induction climbs with
  | zero => rfl
  | succ climbs ih =>
    rw [List.replicate_succ', trail_append, ih, List.foldl_cons, List.foldl_nil, Trail.follow_climb]
    rfl

theorem foldl_follow_of_plain (h : ∀ name ∈ names, Plain name) (t : Trail) :
    (names.foldl Trail.follow t).climbs = t.climbs ∧
      (names.foldl Trail.follow t).names = names.reverse ++ t.names := by
  induction names generalizing t with
  | nil => exact ⟨rfl, rfl⟩
  | cons first rest ih =>
    obtain ⟨hfirst, hrest⟩ := List.forall_mem_cons.1 h
    obtain ⟨hclimbs, hnames⟩ := ih hrest (t.follow first)
    rw [List.foldl_cons, hclimbs, hnames, Trail.follow_of_plain hfirst]
    simp

/-- Climbs with plain names behind them are a trail as they stand. -/
theorem trail_climbs_append (climbs : Nat) (h : ∀ name ∈ names, Plain name) :
    (trail (List.replicate climbs ['.', '.'] ++ names)).climbs = climbs ∧
      (trail (List.replicate climbs ['.', '.'] ++ names)).names = names.reverse := by
  obtain ⟨hclimbs, hnames⟩ := foldl_follow_of_plain h ⟨climbs, [], List.forall_mem_nil _⟩
  rw [trail_append, trail_replicate_climb]
  constructor
  · exact hclimbs
  · rw [hnames, List.append_nil]

/-- Carrying out the dot names without an anchor leaves the trail as it is. -/
theorem trail_removeDots (segments : List Text) : trail (removeDots false segments) = trail segments := by
  have hplain : ∀ name ∈ (trail segments).names.reverse, Plain name :=
    fun name hname => (trail segments).plain name (List.mem_reverse.1 hname)
  obtain ⟨hclimbs, hnames⟩ := trail_climbs_append (trail segments).climbs hplain
  rw [removeDots_unanchored]
  apply Trail.eq_of_climbs_of_names
  · exact hclimbs
  · rw [hnames, List.reverse_reverse]

/-- The back of a path may be cleared of its dot names beforehand, as a relative
    path of its own. -/
theorem removeDots_append_removeDots (anchored : Bool) (xs ys : List Text) :
    removeDots anchored (xs ++ removeDots false ys) = removeDots anchored (xs ++ ys) := by
  rw [removeDots_append, removeDots_append, foldl_enter_eq_upon, foldl_enter_eq_upon, trail_removeDots]

/-- Segments of one trail are interchangeable behind any path. -/
theorem removeDots_append_eq_of_trail_eq {xs ys : List Text} (h : trail xs = trail ys) (anchored : Bool)
    (front : List Text) : removeDots anchored (front ++ xs) = removeDots anchored (front ++ ys) := by
  rw [removeDots_append, removeDots_append, foldl_enter_eq_upon, foldl_enter_eq_upon, h]

/-- Behind an anchor the front of a path leaves nothing exactly when the back
    climbs out of all of it. -/
theorem removeDots_append_eq_iff (xs ys : List Text) :
    removeDots true (xs ++ ys) = removeDots true ys ↔ (removeDots true xs).length ≤ (trail ys).climbs := by
  have hplain : ∀ name ∈ (removeDots true xs).reverse, Plain name :=
    fun name hname => plain_of_mem_removeDots (List.mem_reverse.1 hname)
  rw [removeDots_append, removeDots_anchored ys, foldl_enter_anchored hplain, List.reverse_inj,
    List.append_right_eq_self, List.drop_eq_nil_iff, List.length_reverse]

theorem trail_eq_trail_iff {xs ys : List Text} : trail xs = trail ys ↔ removeDots false xs = removeDots false ys := by
  constructor
  · intro h
    rw [removeDots_unanchored, removeDots_unanchored, h]
  · intro h
    rw [← trail_removeDots xs, h, trail_removeDots]

/-- The root in front of a path leaves no trail. -/
theorem foldl_follow_segments (t : Trail) (path : Text) :
    (segments path).foldl Trail.follow t = (Path.names path).foldl Trail.follow t := by
  unfold segments
  split
  · rw [List.foldl_cons, Trail.follow_of_skipped (Or.inr (Or.inr rfl))]
  · rfl

theorem trail_flatMap_segments (paths : List Text) :
    trail (paths.flatMap segments) = trail (paths.flatMap Path.names) := by
  simp only [trail, List.foldl_flatMap, foldl_follow_segments]

/-- A name that is climbed out of again leaves no trail. -/
theorem foldl_follow_detour {name : Text} (h : Plain name) (t : Trail) :
    [name, ['.', '.']].foldl Trail.follow t = t := by
  rw [List.foldl_cons, List.foldl_cons, List.foldl_nil, Trail.follow_of_plain h, Trail.follow_climb]
  rfl

end Locator.Path
