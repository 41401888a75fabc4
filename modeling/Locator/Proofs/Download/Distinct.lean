import Locator.Proofs.Download.Cleaned
import Locator.Proofs.Url.RoundTrip

namespace Locator.Download

open Text

variable {style : Style} {maxBytes : Nat} {name u v : Text}

/-- The parts of an address that its download is named after. -/
def nameParts (url : Text) : Text × Text × Text :=
  (Path.lastPiece (Url.read url).path, (Url.read url).query, (Url.read url).fragment)

/-- No part holds a mark that stands behind it, so that the name cut at its
    marks gives the parts back. -/
theorem nameParts_eq_cut (url : Text) :
    nameParts url =
      (before '?' (before '#' (rawName url)), after '?' (before '#' (rawName url)), after '#' (rawName url)) := by
  have hwell := Url.wellFormed_read url
  have hquestion : '?' ∉ Path.lastPiece (Url.read url).path := fun hmem => hwell.path.1 (Path.mem_of_mem_lastPiece hmem)
  have hhash : '#' ∉ Path.lastPiece (Url.read url).path ++ marked '?' (Url.read url).query := by
    rw [List.mem_append, not_or]
    exact ⟨fun hmem => hwell.path.2 (Path.mem_of_mem_lastPiece hmem), notMem_marked (by decide) hwell.query⟩
  have hbefore : before '#' (rawName url) = Path.lastPiece (Url.read url).path ++ marked '?' (Url.read url).query :=
    before_append_marked hhash _
  have hafter : after '#' (rawName url) = (Url.read url).fragment := after_append_marked hhash _
  rw [hafter, hbefore, before_append_marked hquestion, after_append_marked hquestion]
  rfl

theorem rawName_eq_rawName_iff : rawName u = rawName v ↔ nameParts u = nameParts v := by
  constructor
  · intro h
    rw [nameParts_eq_cut, nameParts_eq_cut, h]
  · exact congrArg fun parts : Text × Text × Text => parts.1 ++ marked '?' parts.2.1 ++ marked '#' parts.2.2

theorem IsSafe.isReserved_eq_false (h : IsSafe style maxBytes name) {c : Char} (hc : c ∈ name) :
    isReserved style c = false := by
  have hslash : (c == '/') = false := beq_false_of_ne fun e => h.slash_notMem (e ▸ hc)
  rw [isReserved, hslash, h.control c hc]
  cases style with
  | posix => rfl
  | windows =>
    rw [Bool.eq_false_iff]
    intro hreserved
    exact h.windows rfl c (List.contains_iff_mem.1 hreserved) hc

theorem unhidden_of_head? (h : name.head? ≠ some '.') : unhidden name = name := by
  cases name with
  | nil => rfl
  | cons first rest => exact if_neg fun e => h (congrArg some e)

/-- A download takes the name that its address spells, whatever the fallback,
    exactly when that name is safe. -/
theorem name_eq_rawName_iff (style : Style) (maxBytes : Nat) (url : Text) :
    (∀ fallback, Naming.name ⟨style, maxBytes, fallback⟩ url = rawName url) ↔ IsSafe style maxBytes (rawName url) := by
  constructor
  · intro h
    have hnamed : clean style maxBytes (rawName url) ≠ [] := by
      intro hnone
      have hempty := (nameWith_of_eq_nil hnone []).symm.trans (h [])
      have hother := (nameWith_of_eq_nil hnone ['x']).symm.trans (h ['x'])
      exact List.cons_ne_nil 'x' [] (hother.trans hempty.symm)
    have hname := (nameWith_of_ne_nil hnamed []).symm.trans (h [])
    rw [← hname]
    exact isSafe_unhidden_clean hnamed
  · intro h fallback
    have hclean : clean style maxBytes (rawName url) = rawName url :=
      clean_eq_self_iff.2 ⟨fun _ hc => h.isReserved_eq_false hc, h.length_le⟩
    have hnamed : clean style maxBytes (rawName url) ≠ [] := by
      rw [hclean]
      exact h.ne_nil
    rw [Naming.name, nameWith_of_ne_nil hnamed, hclean, unhidden_of_head? h.head]

/-- Two addresses that spell safe names give their downloads just these names,
    and one name only if they agree in the last piece of the path, in the query
    and in the fragment. -/
theorem name_eq_name_iff_of_isSafe (fallback : Text) (hu : IsSafe style maxBytes (rawName u))
    (hv : IsSafe style maxBytes (rawName v)) :
    Naming.name ⟨style, maxBytes, fallback⟩ u = rawName u ∧
      Naming.name ⟨style, maxBytes, fallback⟩ v = rawName v ∧
      (Naming.name ⟨style, maxBytes, fallback⟩ u = Naming.name ⟨style, maxBytes, fallback⟩ v ↔
        nameParts u = nameParts v) := by
  have hnameU := (name_eq_rawName_iff style maxBytes u).2 hu fallback
  have hnameV := (name_eq_rawName_iff style maxBytes v).2 hv fallback
  refine ⟨hnameU, hnameV, ?_⟩
  rw [hnameU, hnameV]
  exact rawName_eq_rawName_iff

/-- A question mark and a hash in the other order make another name, and both
    names fill the limit. -/
theorem name_ne_name_of_swapped_marks :
    IsSafe .posix 6 (rawName "http://h/é?y#z".toList) ∧ IsSafe .posix 6 (rawName "s3://b/k/é#y?z".toList) ∧
      nameParts "http://h/é?y#z".toList ≠ nameParts "s3://b/k/é#y?z".toList ∧
      Naming.name ⟨.posix, 6, defaultFallback⟩ "http://h/é?y#z".toList ≠
        Naming.name ⟨.posix, 6, defaultFallback⟩ "s3://b/k/é#y?z".toList := by
  have hu : IsSafe .posix 6 (rawName "http://h/é?y#z".toList) := (name_eq_rawName_iff _ _ _).1 fun _ => rfl
  have hv : IsSafe .posix 6 (rawName "s3://b/k/é#y?z".toList) := (name_eq_rawName_iff _ _ _).1 fun _ => rfl
  have hparts : nameParts "http://h/é?y#z".toList ≠ nameParts "s3://b/k/é#y?z".toList := by decide
  exact ⟨hu, hv, hparts, fun hsame => hparts ((name_eq_name_iff_of_isSafe defaultFallback hu hv).2.2.1 hsame)⟩

end Locator.Download
