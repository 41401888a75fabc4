import Locator.Join.Basic
import Locator.Proofs.Path.Names
import Locator.Proofs.Url.Hash

namespace Locator.Join

open Text

variable {args mid post : List Text} {arg winner donor : Text} {u : Url}

theorem scan_cons_of_relative (h : (Url.readPlain arg).absolute = false) (earlier : List Text) :
    scan (arg :: earlier) = scan earlier := by
  have hrecognized : (Url.readPlain arg).recognized = false := (Url.absolute_eq_false_iff.1 h).1
  rw [scan, hrecognized, h]
  rfl

theorem scan_append_of_relative (h : ∀ arg ∈ args, (Url.readPlain arg).absolute = false) (earlier : List Text) :
    scan (args ++ earlier) = scan earlier := by
  induction args with
  | nil => rfl
  | cons arg rest ih =>
    rw [List.cons_append, scan_cons_of_relative (h arg List.mem_cons_self)]
    exact ih fun other hother => h other (List.mem_cons_of_mem _ hother)

/-- The address of an absolute argument, the earlier arguments given last first:
    without a recognized scheme it takes over from its donor. -/
def settled (earlier : List Text) (u : Url) : Url :=
  if u.recognized then u else (donor? earlier).elim u (inherit u)

theorem settled_of_recognized (h : u.recognized = true) (earlier : List Text) : settled earlier u = u :=
  if_pos h

theorem donor?_append_of_unrecognized (h : ∀ arg ∈ mid, (Url.readPlain arg).recognized = false)
    (earlier : List Text) : donor? (mid ++ earlier) = donor? earlier := by
  have hnone : (mid.map Url.readPlain).find? Url.recognized = none := by
    rw [List.find?_eq_none]
    intro v hv
    obtain ⟨arg, harg, rfl⟩ := List.mem_map.1 hv
    rw [h arg harg]
    exact Bool.false_ne_true
  rw [donor?, List.map_append, List.find?_append, hnone, Option.none_or]
  rfl

/-- Only arguments without a recognized scheme stand between a donor and the
    argument that takes over from it. -/
theorem settled_of_donor (hu : u.recognized = false) (hmid : ∀ arg ∈ mid, (Url.readPlain arg).recognized = false)
    (hdonor : (Url.readPlain donor).recognized = true) (earlier : List Text) :
    settled (mid ++ donor :: earlier) u = inherit u (Url.readPlain donor) := by
  have hfound : donor? (donor :: earlier) = some (Url.readPlain donor) := by
    rw [donor?, List.map_cons, List.find?_cons_of_pos hdonor]
  rw [settled, hu, donor?_append_of_unrecognized hmid, hfound]
  rfl

theorem settled_of_unrecognized (h : ∀ arg ∈ mid, (Url.readPlain arg).recognized = false) (u : Url) :
    settled mid u = u := by
  have hnone : donor? mid = none := by
    have happend := donor?_append_of_unrecognized h []
    rwa [List.append_nil] at happend
  rw [settled, hnone]
  exact ite_self u

theorem scan_cons_of_absolute (h : (Url.readPlain winner).absolute = true) (earlier : List Text) :
    scan (winner :: earlier) = some ⟨earlier.length, settled earlier (Url.readPlain winner)⟩ := by
  rw [scan, h, settled]
  split <;> rfl

/-- A scan stops at an absolute argument, if not before. -/
theorem scan_ne_none (habsolute : (Url.readPlain arg).absolute = true) (h : arg ∈ args) : scan args ≠ none := by
  induction args with
  | nil => simp at h
  | cons first rest ih =>
    cases hfirst : (Url.readPlain first).absolute with
    | true =>
      rw [scan_cons_of_absolute hfirst]
      exact Option.some_ne_none _
    | false =>
      rw [scan_cons_of_relative hfirst]
      cases List.mem_cons.1 h with
      | inl heq =>
        rw [← heq, habsolute] at hfirst
        cases hfirst
      | inr hrest => exact ih hrest

theorem scan_of_relative (h : ∀ arg ∈ args, (Url.readPlain arg).absolute = false) : scan args = none := by
  have hscan := scan_append_of_relative h []
  rwa [List.append_nil] at hscan

/-- A scan sees its arguments only as they are read. -/
theorem scan_congr (h : args.map Url.readPlain = mid.map Url.readPlain) : scan args = scan mid := by
  induction args generalizing mid with
  | nil =>
    rw [List.map_eq_nil_iff.1 h.symm]
  | cons first rest ih =>
    obtain ⟨other, others, rfl, hfirst, hrest⟩ := List.map_eq_cons_iff.1 h.symm
    have hcount : others.length = rest.length := by simpa using congrArg List.length hrest
    have hdonor : donor? others = donor? rest := congrArg (List.find? Url.recognized) hrest
    rw [scan, scan, hfirst, hcount, hdonor, ih hrest.symm]

/-- There is no anchor exactly when every argument is relative. -/
theorem anchor?_eq_none_iff : anchor? args = none ↔ ∀ arg ∈ args, (Url.readPlain arg).absolute = false := by
  constructor
  · intro h arg harg
    by_contra habsolute
    rw [Bool.not_eq_false] at habsolute
    exact scan_ne_none habsolute (List.mem_reverse.2 harg) h
  · intro h
    exact scan_of_relative fun arg harg => h arg (List.mem_reverse.1 harg)

theorem anchor?_singleton_eq_none_iff : anchor? [arg] = none ↔ (Url.readPlain arg).absolute = false := by
  rw [anchor?_eq_none_iff]
  simp

theorem relative_of_anchor?_eq_none (h : ∀ arg ∈ args, anchor? [forward arg] = none) :
    ∀ arg ∈ args.map forward, (Url.readPlain arg).absolute = false :=
  List.forall_mem_map.2 fun arg harg => anchor?_singleton_eq_none_iff.1 (h arg harg)

/-- The last absolute argument is the anchor. -/
theorem anchor?_append_cons (hwinner : (Url.readPlain winner).absolute = true)
    (hpost : ∀ arg ∈ post, (Url.readPlain arg).absolute = false) (front : List Text) :
    anchor? (front ++ winner :: post) = some ⟨front.length, settled front.reverse (Url.readPlain winner)⟩ := by
  have hreverse : (front ++ winner :: post).reverse = post.reverse ++ winner :: front.reverse := by simp
  rw [anchor?, hreverse, scan_append_of_relative fun arg harg => hpost arg (List.mem_reverse.1 harg),
    scan_cons_of_absolute hwinner, List.length_reverse]

/-- An absolute base in front of relative components is their anchor as it was
    read. -/
theorem anchor?_cons_of_relative {base : Text} (hbase : (Url.readPlain base).absolute = true)
    (h : ∀ arg ∈ args, (Url.readPlain arg).absolute = false) :
    anchor? (base :: args) = some ⟨0, Url.readPlain base⟩ := by
  have hanchor := anchor?_append_cons hbase h []
  rwa [List.reverse_nil, settled_of_unrecognized (List.forall_mem_nil _)] at hanchor

/-- The address that relative components go onto, and these components: what
    stands behind the anchor, or all behind the base when there is none. -/
def operands (base : Text) (components : List Text) : Url × List Text :=
  match anchor? (base :: components) with
  | some anchor => (Url.read anchor.url.write, components.drop anchor.index)
  | none => (Url.read base, components)

theorem wellFormed_operands (base : Text) (components : List Text) : (operands base components).1.WellFormed := by
  unfold operands
  split <;> exact Url.wellFormed_read _

theorem ofArgs_eq_onto (place : Place) (mode : Mode) {base : Text} {components : List Text}
    (h : ∀ anchor, anchor? (base :: components) = some anchor → anchor.index ≠ components.length) :
    ofArgs place mode base components =
      (onto mode (operands base components).1 (operands base components).2).write := by
  unfold ofArgs operands
  cases hanchor : anchor? (base :: components) with
  | none => rfl
  | some anchor =>
    have hindex := h anchor hanchor
    simp only [if_neg hindex]

theorem ofArgs_eq_alone (place : Place) (mode : Mode) {base : Text} {components : List Text} {anchor : Anchor}
    (hanchor : anchor? (base :: components) = some anchor) (hlast : anchor.index = components.length) :
    ofArgs place mode base components = alone place anchor.url := by
  unfold ofArgs
  simp only [hanchor, if_pos hlast]

theorem join_nil_of_absolute (place : Place) (mode : Mode) {x : Text}
    (h : (Url.readPlain (forward x)).absolute = true) :
    join place mode x [] = alone place (Url.readPlain (forward x)) :=
  ofArgs_eq_alone place mode (anchor?_cons_of_relative h (List.forall_mem_nil _)) rfl

/-- A join onto a base that is absolute by its plain reading, which is read once
    more from its text. -/
theorem join_of_readPlain_absolute (place : Place) (mode : Mode) {base : Text} {components : List Text}
    (hbase : (Url.readPlain (forward base)).absolute = true) (hne : components ≠ [])
    (hrelative : ∀ component ∈ components, anchor? [forward component] = none) :
    join place mode base components =
      (onto mode (Url.read (Url.readPlain (forward base)).write) (components.map forward)).write := by
  have hanchor := anchor?_cons_of_relative hbase (relative_of_anchor?_eq_none hrelative)
  have hcount : (components.map forward).length ≠ 0 := by simpa using hne
  rw [join, ofArgs, hanchor]
  simp only [if_neg hcount.symm, List.drop_zero]

theorem join_of_relative (place : Place) (mode : Mode) {base : Text} {components : List Text}
    (h : anchor? ((base :: components).map forward) = none) :
    join place mode base components = (onto mode (Url.read (forward base)) (components.map forward)).write := by
  rw [List.map_cons] at h
  unfold join ofArgs
  simp only [h]

end Locator.Join
