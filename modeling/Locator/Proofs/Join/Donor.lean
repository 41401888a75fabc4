import Locator.Proofs.Join.Anchor

namespace Locator.Join

open Text

variable {front mid post args : List Text} {winner donor : Text}

/-- A scan ends at an absolute argument and has passed relative ones only. -/
theorem exists_of_scan {anchor : Anchor} (h : scan args = some anchor) :
    ∃ post winner earlier, args = post ++ winner :: earlier ∧ anchor.index = earlier.length ∧
      (Url.readPlain winner).absolute = true ∧ ∀ arg ∈ post, (Url.readPlain arg).absolute = false := by
  induction args with
  | nil => cases h
  | cons first rest ih =>
    cases hfirst : (Url.readPlain first).absolute with
    | true =>
      rw [scan_cons_of_absolute hfirst] at h
      cases h
      exact ⟨[], first, rest, rfl, rfl, hfirst, List.forall_mem_nil _⟩
    | false =>
      rw [scan_cons_of_relative hfirst] at h
      obtain ⟨post, winner, earlier, rfl, hindex, hwinner, hpost⟩ := ih h
      exact ⟨first :: post, winner, earlier, rfl, hindex, hwinner, List.forall_mem_cons.2 ⟨hfirst, hpost⟩⟩

/-- The anchor of arguments is an absolute one with relative ones behind it. -/
theorem exists_of_anchor? {anchor : Anchor} (h : anchor? (args.map forward) = some anchor) :
    ∃ front winner post, args = front ++ winner :: post ∧ anchor.index = front.length ∧
      (Url.readPlain (forward winner)).absolute = true ∧
      ∀ arg ∈ post, (Url.readPlain (forward arg)).absolute = false := by
  obtain ⟨back, last, earlier, hreverse, hindex, hlast, hback⟩ := exists_of_scan h
  have hargs : args.map forward = earlier.reverse ++ last :: back.reverse := by
    rw [← List.reverse_reverse (args.map forward), hreverse]
    simp
  obtain ⟨front, behind, rfl, hfront, hbehind⟩ := List.map_eq_append_iff.1 hargs
  obtain ⟨winner, post, rfl, rfl, hpost⟩ := List.map_eq_cons_iff.1 hbehind
  refine ⟨front, winner, post, rfl, ?_, hlast, ?_⟩
  · rw [hindex, ← List.length_reverse, ← hfront, List.length_map]
  · intro arg harg
    apply hback
    rw [← List.mem_reverse, ← hpost]
    exact List.mem_map_of_mem harg

/-- What becomes of the anchor of a join and the components behind it. -/
def finish (place : Place) (mode : Mode) (u : Url) (relatives : List Text) : Text :=
  if relatives = [] then alone place u else (onto mode (Url.read u.write) relatives).write

theorem ofArgs_of_append_cons (place : Place) (mode : Mode) {base : Text} {components : List Text}
    (hargs : base :: components = front ++ winner :: post) (hwinner : (Url.readPlain winner).absolute = true)
    (hpost : ∀ arg ∈ post, (Url.readPlain arg).absolute = false) :
    ofArgs place mode base components = finish place mode (settled front.reverse (Url.readPlain winner)) post := by
  have hcount : components.length = front.length + post.length := by
    have hlength := congrArg List.length hargs
    simp only [List.length_cons, List.length_append] at hlength
    omega
  have hbehind : components.drop front.length = post := by
    have hdrop := congrArg (List.drop (front.length + 1)) hargs
    rwa [List.drop_length_add_append] at hdrop
  have hlast : front.length = components.length ↔ post = [] := by
    rw [hcount, ← List.length_eq_zero_iff]
    omega
  unfold ofArgs finish
  rw [hargs, anchor?_append_cons hwinner hpost]
  simp only [hbehind, hlast]

/-- The join of a list of arguments, the first of them the base. -/
def joinAll (place : Place) (mode : Mode) : List Text → Text
  | [] => []
  | base :: components => join place mode base components

theorem joinAll_append_cons (place : Place) (mode : Mode) (hwinner : (Url.readPlain (forward winner)).absolute = true)
    (hpost : ∀ arg ∈ post, (Url.readPlain (forward arg)).absolute = false) (front : List Text) :
    joinAll place mode (front ++ winner :: post) =
      finish place mode (settled (front.map forward).reverse (Url.readPlain (forward winner))) (post.map forward) := by
  obtain ⟨base, components, hargs⟩ := List.exists_cons_of_ne_nil
    (List.append_ne_nil_of_right_ne_nil front (List.cons_ne_nil winner post))
  have hforward : forward base :: components.map forward = front.map forward ++ forward winner :: post.map forward := by
    have hmap := congrArg (List.map forward) hargs
    rw [List.map_append, List.map_cons, List.map_cons] at hmap
    exact hmap.symm
  rw [hargs]
  exact ofArgs_of_append_cons place mode hforward hwinner (List.forall_mem_map.2 hpost)

/-- The last argument, up to the one at an index, that has a recognized scheme. -/
structure IsDonor (args : List Text) (index donor : Nat) : Prop where
  le : donor ≤ index
  recognized : ∃ arg ∈ args[donor]?, (Url.readPlain (forward arg)).recognized = true
  nearest : ∀ i, donor < i → i ≤ index → ∀ arg ∈ args[i]?, (Url.readPlain (forward arg)).recognized = false

variable {index : Nat}

/-- The argument at the index itself is its own donor by its scheme alone. -/
theorem isDonor_self_iff :
    IsDonor (front ++ winner :: post) front.length front.length ↔
      (Url.readPlain (forward winner)).recognized = true := by
  have hwinner : (front ++ winner :: post)[front.length]? = some winner := by simp
  constructor
  · rintro ⟨-, ⟨arg, harg, hrecognized⟩, -⟩
    rw [hwinner] at harg
    cases harg
    exact hrecognized
  · intro hrecognized
    refine ⟨le_rfl, ⟨winner, hwinner, hrecognized⟩, fun i hlt hle => ?_⟩
    omega

/-- Behind an earlier donor, up to the index, no argument has a recognized
    scheme. -/
theorem IsDonor.exists_split {d : Nat} (h : IsDonor (front ++ winner :: post) front.length d) (hlt : d < front.length) :
    ∃ first donor mid, front = first ++ donor :: mid ∧ (front ++ winner :: post)[d]? = some donor ∧
      (Url.readPlain (forward donor)).recognized = true ∧
      (Url.readPlain (forward winner)).recognized = false ∧
      ∀ arg ∈ mid, (Url.readPlain (forward arg)).recognized = false := by
  obtain ⟨-, ⟨donor, hdonor, hrecognized⟩, hnearest⟩ := h
  have hget : (front ++ winner :: post)[d]? = some front[d] := by
    rw [List.getElem?_append_left hlt, List.getElem?_eq_getElem hlt]
  rw [hget] at hdonor
  cases hdonor
  refine ⟨front.take d, front[d], front.drop (d + 1), ?_, hget, hrecognized, ?_, ?_⟩
  · rw [← List.drop_eq_getElem_cons hlt, List.take_append_drop]
  · exact hnearest front.length hlt le_rfl winner (by simp)
  · intro arg harg
    obtain ⟨i, hi, rfl⟩ := List.mem_iff_getElem.1 harg
    rw [List.length_drop] at hi
    refine hnearest (d + 1 + i) (by omega) (by omega) _ ?_
    rw [List.getElem?_append_left (by omega), List.getElem?_eq_getElem (by omega), List.getElem_drop]
    exact Option.mem_some_self _

/-- Without a donor no argument up to the index has a recognized scheme. -/
theorem recognized_eq_false_of_not_isDonor (h : ∀ d, ¬ IsDonor args index d) :
    ∀ i ≤ index, ∀ arg ∈ args[i]?, (Url.readPlain (forward arg)).recognized = false := by
  intro i
  -- the last of them would be a donor, so the induction goes down from the index
  induction hdistance : index - i using Nat.strong_induction_on generalizing i with
  | _ distance ih =>
    intro hle arg harg
    by_contra hrecognized
    rw [Bool.not_eq_false] at hrecognized
    apply h i
    refine ⟨hle, ⟨arg, harg, hrecognized⟩, fun j hlt hj => ?_⟩
    exact ih (index - j) (by omega) j rfl hj

theorem settled_of_not_isDonor (h : ∀ d, ¬ IsDonor (front ++ winner :: post) front.length d) (u : Url) :
    settled (front.map forward).reverse u = u := by
  apply settled_of_unrecognized
  intro arg harg
  obtain ⟨raw, hraw, rfl⟩ := List.mem_map.1 (List.mem_reverse.1 harg)
  obtain ⟨i, hi, rfl⟩ := List.mem_iff_getElem.1 hraw
  apply recognized_eq_false_of_not_isDonor h i hi.le
  rw [List.getElem?_append_left hi, List.getElem?_eq_getElem hi]
  exact Option.mem_some_self _

/-- An argument with a recognized scheme settles on itself whatever stands in
    front of it. -/
theorem joinAll_front_append (place : Place) (mode : Mode)
    (hrecognized : (Url.readPlain (forward winner)).recognized = true)
    (hpost : ∀ arg ∈ post, (Url.readPlain (forward arg)).absolute = false) (front : List Text) :
    joinAll place mode (front ++ winner :: post) =
      finish place mode (Url.readPlain (forward winner)) (post.map forward) := by
  have habsolute : (Url.readPlain (forward winner)).absolute = true := Url.absolute_of_recognized hrecognized
  rw [joinAll_append_cons place mode habsolute hpost, settled_of_recognized hrecognized]

/-- An absolute argument without a recognized scheme takes over from its donor,
    whatever stands in front of the donor or between the two. -/
theorem joinAll_donor_append (place : Place) (mode : Mode)
    (hdonor : (Url.readPlain (forward donor)).recognized = true)
    (hmid : ∀ arg ∈ mid, (Url.readPlain (forward arg)).recognized = false)
    (habsolute : (Url.readPlain (forward winner)).absolute = true)
    (hrecognized : (Url.readPlain (forward winner)).recognized = false)
    (hpost : ∀ arg ∈ post, (Url.readPlain (forward arg)).absolute = false) (front : List Text) :
    joinAll place mode (front ++ donor :: mid ++ winner :: post) =
      finish place mode (inherit (Url.readPlain (forward winner)) (Url.readPlain (forward donor)))
        (post.map forward) := by
  have hearlier : ((front ++ donor :: mid).map forward).reverse =
      (mid.map forward).reverse ++ forward donor :: (front.map forward).reverse := by
    simp
  have hforward : ∀ arg ∈ mid.map forward, (Url.readPlain arg).recognized = false := List.forall_mem_map.2 hmid
  have hsettled := settled_of_donor hrecognized (fun arg harg => hforward arg (List.mem_reverse.1 harg)) hdonor
    (front.map forward).reverse
  rw [joinAll_append_cons place mode habsolute hpost, hearlier, hsettled]

/-- A join heeds its anchor, what stands behind it and, when the anchor has no
    recognized scheme, its donor. What stands in front of the donor, or without a
    recognized scheme between donor and anchor, may be anything or nothing. -/
theorem joinAll_eq_of_anchor (place : Place) (mode : Mode) {anchor : Anchor}
    (h : anchor? (args.map forward) = some anchor) :
    (IsDonor args anchor.index anchor.index ∨ (∀ d, ¬ IsDonor args anchor.index d) →
      joinAll place mode args = joinAll place mode (args.drop anchor.index)) ∧
    (∀ d < anchor.index, IsDonor args anchor.index d →
      joinAll place mode args = joinAll place mode (args[d]?.toList ++ args.drop anchor.index)) ∧
    (IsDonor args anchor.index anchor.index → ∀ front,
      joinAll place mode (front ++ args.drop anchor.index) = joinAll place mode args) ∧
    (∀ d < anchor.index, IsDonor args anchor.index d → ∀ front mid,
      (∀ arg ∈ mid, (Url.readPlain (forward arg)).recognized = false) →
        joinAll place mode (front ++ args[d]?.toList ++ mid ++ args.drop anchor.index) = joinAll place mode args) := by
  obtain ⟨front, winner, post, rfl, hindex, hwinner, hpost⟩ := exists_of_anchor? h
  have hdrop : (front ++ winner :: post).drop front.length = winner :: post := List.drop_left
  rw [hindex, hdrop, isDonor_self_iff]
  have hown : (Url.readPlain (forward winner)).recognized = true → ∀ other,
      joinAll place mode (other ++ winner :: post) = joinAll place mode (front ++ winner :: post) := by
    intro hrecognized other
    rw [joinAll_front_append place mode hrecognized hpost, joinAll_front_append place mode hrecognized hpost]
  have hdonor : ∀ d < front.length, IsDonor (front ++ winner :: post) front.length d → ∀ other mid,
      (∀ arg ∈ mid, (Url.readPlain (forward arg)).recognized = false) →
        joinAll place mode (other ++ (front ++ winner :: post)[d]?.toList ++ mid ++ winner :: post) =
          joinAll place mode (front ++ winner :: post) := by
    intro d hlt hd other mid hmid
    obtain ⟨first, donor, between, rfl, hget, hdonor, hrecognized, hbetween⟩ := hd.exists_split hlt
    rw [hget, Option.toList_some, List.append_assoc other, List.singleton_append,
      joinAll_donor_append place mode hdonor hmid hwinner hrecognized hpost,
      joinAll_donor_append place mode hdonor hbetween hwinner hrecognized hpost]
  refine ⟨?_, fun d hlt hd => ?_, hown, hdonor⟩
  · rintro (hrecognized | hnone)
    · exact (hown hrecognized []).symm
    · rw [joinAll_append_cons place mode hwinner hpost, settled_of_not_isDonor hnone,
        ← List.nil_append (winner :: post), joinAll_append_cons place mode hwinner hpost]
      rw [List.map_nil, List.reverse_nil, settled_of_unrecognized (List.forall_mem_nil _)]
  · have hshort := hdonor d hlt hd [] [] (List.forall_mem_nil _)
    rw [List.nil_append, List.append_nil] at hshort
    exact hshort.symm

/-- The bucket of the donor gives way to the first name of the anchor. -/
theorem joinAll_of_bucket_donor :
    (anchor? (["ftp://f".toList, "S3://b/k?v".toList, "/q".toList, "\\z/w".toList, "..".toList].map forward)).map
        Anchor.index = some 3 ∧
      IsDonor ["ftp://f".toList, "S3://b/k?v".toList, "/q".toList, "\\z/w".toList, "..".toList] 3 1 ∧
      joinAll (Place.make .posix ['/']) .append
          ["ftp://f".toList, "S3://b/k?v".toList, "/q".toList, "\\z/w".toList, "..".toList] = "s3://z".toList ∧
      joinAll (Place.make .posix ['/']) .append
          ["ftp://f".toList, "S3://b/k?v".toList, "/q".toList, "\\z/w".toList, "..".toList] =
        joinAll (Place.make .posix ['/']) .append ["S3://b/k?v".toList, "\\z/w".toList, "..".toList] ∧
      joinAll (Place.make .posix ['/']) .append
          ["//h".toList, "S3://b/k?v".toList, "a".toList, "b:c".toList, "\\z/w".toList, "..".toList] =
        joinAll (Place.make .posix ['/']) .append
          ["ftp://f".toList, "S3://b/k?v".toList, "/q".toList, "\\z/w".toList, "..".toList] := by
  have hscan : (anchor? (["ftp://f".toList, "S3://b/k?v".toList, "/q".toList, "\\z/w".toList, "..".toList].map
      forward)).map Anchor.index = some 3 := by decide
  obtain ⟨anchor, hanchor, hindex⟩ := Option.map_eq_some_iff.1 hscan
  have hdonor : IsDonor ["ftp://f".toList, "S3://b/k?v".toList, "/q".toList, "\\z/w".toList, "..".toList] 3 1 := by
    refine ⟨by decide, ⟨"S3://b/k?v".toList, rfl, by decide⟩, fun i hlt hle => ?_⟩
    obtain rfl | rfl : i = 2 ∨ i = 3 := by omega
    · decide
    · decide
  obtain ⟨-, hshort, -, hother⟩ := joinAll_eq_of_anchor (Place.make .posix ['/']) .append hanchor
  rw [hindex] at hshort hother
  exact ⟨hscan, hdonor, by decide, hshort 1 (by decide) hdonor,
    hother 1 (by decide) hdonor ["//h".toList] ["a".toList, "b:c".toList] (by decide)⟩

end Locator.Join
