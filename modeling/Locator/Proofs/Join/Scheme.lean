import Locator.Proofs.Join.Donor

namespace Locator.Join

variable {args earlier : List Text} {anchor : Anchor} {arg : Text} {u : Url}

theorem scheme_inherit (u donor : Url) : (inherit u donor).scheme = donor.scheme := by
  unfold inherit
  split
  · rfl
  · split <;> rfl

theorem exists_donor? (harg : arg ∈ earlier) (hrecognized : (Url.readPlain arg).recognized = true) :
    ∃ donor, donor? earlier = some donor ∧ donor.recognized = true := by
  have hsome : (donor? earlier).isSome = true :=
    List.find?_isSome.2 ⟨Url.readPlain arg, List.mem_map_of_mem harg, hrecognized⟩
  obtain ⟨donor, hdonor⟩ := Option.isSome_iff_exists.1 hsome
  exact ⟨donor, hdonor, List.find?_some hdonor⟩

/-- An address keeps its scheme when this is recognized or when there is no
    donor. Nothing else keeps it: a donor has a recognized scheme, which is then
    another one. -/
theorem scheme_settled_eq_iff :
    (settled earlier u).scheme = u.scheme ↔
      u.recognized = true ∨ ∀ arg ∈ earlier, (Url.readPlain arg).recognized = false := by
  constructor
  · intro hkept
    by_contra hnot
    simp only [not_or, Bool.not_eq_true, not_forall, Bool.not_eq_false] at hnot
    obtain ⟨hu, arg, harg, hrecognized⟩ := hnot
    obtain ⟨donor, hdonor, hdonorRecognized⟩ := exists_donor? harg hrecognized
    have hsettled : settled earlier u = inherit u donor := by simp [settled, hu, hdonor]
    rw [hsettled, scheme_inherit] at hkept
    rw [Url.recognized, hkept, ← Url.recognized, hu] at hdonorRecognized
    cases hdonorRecognized
  · rintro (hrecognized | hnone)
    · rw [settled_of_recognized hrecognized]
    · rw [settled_of_unrecognized hnone]

theorem url_of_anchor? (h : anchor? args = some anchor) (harg : args[anchor.index]? = some arg) :
    anchor.url = settled (args.take anchor.index).reverse (Url.readPlain arg) := by
  obtain ⟨back, winner, front, hreverse, hindex, hwinner, hback⟩ := exists_of_scan h
  have hargs : args = front.reverse ++ winner :: back.reverse := by
    rw [← List.reverse_reverse args, hreverse]
    simp
  have hlength : anchor.index = front.reverse.length := by rw [hindex, List.length_reverse]
  have hanchor := anchor?_append_cons hwinner (fun arg hmem => hback arg (List.mem_reverse.1 hmem)) front.reverse
  have hself : arg = winner := by
    rw [hargs, hlength, List.getElem?_append_right le_rfl, Nat.sub_self] at harg
    exact (Option.some.inj harg).symm
  rw [← hargs, h, Option.some.injEq] at hanchor
  rw [hself, hlength, hargs, List.take_left]
  exact congrArg Anchor.url hanchor

/-- The anchor of a join has the scheme and the host of the argument it was read
    from exactly when that argument has a recognized scheme or none in front of
    it has one. Then it is that argument as it was read. -/
theorem anchor?_keeps_scheme_iff (h : anchor? args = some anchor) (harg : args[anchor.index]? = some arg) :
    (anchor.url.scheme = (Url.readPlain arg).scheme ∧ anchor.url.authority = (Url.readPlain arg).authority ↔
      (Url.readPlain arg).recognized = true ∨
        ∀ earlier ∈ args.take anchor.index, (Url.readPlain earlier).recognized = false) ∧
    ((Url.readPlain arg).recognized = true ∨
        (∀ earlier ∈ args.take anchor.index, (Url.readPlain earlier).recognized = false) →
      anchor.url = Url.readPlain arg) := by
  have hurl := url_of_anchor? h harg
  have hscheme := @scheme_settled_eq_iff (args.take anchor.index).reverse (Url.readPlain arg)
  simp only [List.mem_reverse, ← hurl] at hscheme
  have hkept : (Url.readPlain arg).recognized = true ∨
      (∀ earlier ∈ args.take anchor.index, (Url.readPlain earlier).recognized = false) →
      anchor.url = Url.readPlain arg := by
    rintro (hrecognized | hnone)
    · rw [hurl, settled_of_recognized hrecognized]
    · rw [hurl, settled_of_unrecognized fun earlier hmem => hnone earlier (List.mem_reverse.1 hmem)]
  refine ⟨⟨fun hsame => hscheme.1 hsame.1, fun hcondition => ?_⟩, hkept⟩
  rw [hkept hcondition]
  exact ⟨rfl, rfl⟩

/-- A scheme that is not recognized is kept behind others that are not. -/
theorem anchor?_keeps_scheme_of_unrecognized :
    ∃ anchor, anchor? ["hg://h/p".toList, "tel:1".toList, "svn+ssh://x/y?q".toList, "z".toList] = some anchor ∧
      anchor.index = 2 ∧ anchor.url.scheme = "svn+ssh".toList ∧ anchor.url.authority = "x".toList := by
  have hanchor : anchor? ["hg://h/p".toList, "tel:1".toList, "svn+ssh://x/y?q".toList, "z".toList] =
      some ⟨2, Url.readPlain "svn+ssh://x/y?q".toList⟩ := rfl
  obtain ⟨hscheme, hauthority⟩ := (anchor?_keeps_scheme_iff hanchor rfl).1.2 (Or.inr (by decide))
  exact ⟨_, hanchor, rfl, hscheme, hauthority⟩

/-- Behind an address with a recognized scheme another scheme is lost, though
    its argument has a host of its own, and under the scheme of buckets a rooted
    argument loses its empty host as well. -/
theorem anchor?_takes_scheme :
    (∃ anchor, anchor? ["https://h/a".toList, "svn://x/y".toList] = some anchor ∧ anchor.index = 1 ∧
      (Url.readPlain "svn://x/y".toList).scheme = "svn".toList ∧ anchor.url.scheme = "https".toList) ∧
    (∃ anchor, anchor? ["s3://b/k".toList, "svn:/x/y".toList] = some anchor ∧ anchor.index = 1 ∧
      (Url.readPlain "svn:/x/y".toList).scheme = "svn".toList ∧
      (Url.readPlain "svn:/x/y".toList).authority = [] ∧
      anchor.url.scheme = "s3".toList ∧ anchor.url.authority = "x".toList) :=
  ⟨⟨_, rfl, rfl, by decide, by decide⟩, ⟨_, rfl, rfl, by decide, by decide, by decide, by decide⟩⟩

end Locator.Join
