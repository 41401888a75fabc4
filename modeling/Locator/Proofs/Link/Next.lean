import Locator.Proofs.Link.Written

namespace Locator.Link

open Text

variable {front back : List Written} {w : Written} {before after : List Field} {f : Field} {rest : Text}

theorem Field.isNext_iff : f.isNext = true ↔ f.parameter = ("rel".toList, "next".toList) := by
  simp only [Field.isNext, Field.parameter, Bool.and_eq_true, beq_iff_eq, Prod.mk.injEq]

/-- A written link leads on just when it is read as one that does. -/
theorem isNext_link (w : Written) : w.link.isNext = w.isNext := by
  rw [Bool.eq_iff_iff, isNext_iff, Written.isNext, List.any_eq_true]
  constructor
  · intro h
    obtain ⟨f, hf, hparameter⟩ := List.mem_map.1 h
    exact ⟨f, hf, Field.isNext_iff.2 hparameter⟩
  · rintro ⟨f, hf, hnext⟩
    exact List.mem_map.2 ⟨f, hf, Field.isNext_iff.1 hnext⟩

/-- A header value up to the end of one value in it: whole links, then a link
    that breaks off behind the value of a parameter. -/
def upTo (front : List Written) (w : Written) (before : List Field) (f : Field) : Text :=
  (front.flatMap fun other => other.write ++ [',']) ++ w.opening ++ before.flatMap Field.write ++ f.stem

theorem list_front_append (front : List Written) (s : Text) :
    list ((front.flatMap fun other => other.write ++ [',']) ++ s) = front.map Written.link ++ list s := by
  induction front with
  | nil => rfl
  | cons w front ih =>
    have hsplit : ((w :: front).flatMap fun other => other.write ++ [',']) ++ s =
        w.write ++ ',' :: ((front.flatMap fun other => other.write ++ [',']) ++ s) := by
      simp
    rw [hsplit, list_write_comma_append, ih]
    rfl

/-- Whatever stands behind it, the value that a header is broken off at is read,
    with all in front of it. -/
theorem exists_list_upTo_append (front : List Written) (w : Written) (before : List Field)
    (h : f.value.EndsAt rest) :
    ∃ parameters more, list (upTo front w before f ++ rest) =
      front.map Written.link ++ ⟨w.target, before.map Field.parameter ++ f.parameter :: parameters⟩ :: more := by
  have hmark : AtMark (f.stem ++ rest) := by
    rintro c ⟨⟩
    exact Or.inl rfl
  have htarget := w.target?_opening_append (before.flatMap Field.write ++ (f.stem ++ rest))
  rw [(atMark_fields_append before hmark).trimLeft] at htarget
  have hsplit : upTo front w before f ++ rest =
      (front.flatMap fun other => other.write ++ [',']) ++
        (w.opening ++ (before.flatMap Field.write ++ (f.stem ++ rest))) := by
    simp [upTo]
  rw [hsplit, list_front_append, list_of_some htarget, takeParameters_fields_append before hmark,
    takeParameters_stem_append f h]
  exact ⟨_, _, rfl⟩

theorem writeAll_cons (w : Written) (back : List Written) :
    writeAll (w :: back) = w.write ++ back.flatMap fun other => ',' :: other.write := by
  induction back generalizing w with
  | nil => simp [writeAll]
  | cons other back ih =>
    rw [writeAll_cons_of_ne_nil w (List.cons_ne_nil other back), ih]
    simp

theorem writeAll_append_cons (front : List Written) (w : Written) (back : List Written) :
    writeAll (front ++ w :: back) =
      (front.flatMap fun other => other.write ++ [',']) ++
        (w.write ++ back.flatMap fun other => ',' :: other.write) := by
  induction front with
  | nil => exact writeAll_cons w back
  | cons first front ih =>
    have hne : front ++ w :: back ≠ [] := List.append_ne_nil_of_right_ne_nil front (List.cons_ne_nil w back)
    rw [List.cons_append, writeAll_cons_of_ne_nil first hne, ih]
    simp

theorem atMark_back (back : List Written) : AtMark (back.flatMap fun other => ',' :: other.write) := by
  cases back with
  | nil => rintro c ⟨⟩
  | cons other back =>
    rintro c ⟨⟩
    exact Or.inr rfl

/-- A written header goes on behind each of its values as it may. -/
theorem exists_writeAll_eq_upTo (hw : w.fields = before ++ f :: after) :
    ∃ behind, f.value.EndsAt behind ∧ writeAll (front ++ w :: back) = upTo front w before f ++ behind := by
  refine ⟨f.trail.text ++ (after.flatMap Field.write ++ back.flatMap fun other => ',' :: other.write), ?_, ?_⟩
  · exact (atMark_fields_append after (atMark_back back)).endsAt f.value f.trail
  · rw [writeAll_append_cons]
    simp [upTo, Written.write, hw, Field.write]

/-- The next link of a written header is its first link with a parameter that
    says so. It stays so whatever takes the place of the text behind that
    parameter's value. -/
theorem next?_writeAll (links : List Written) :
    next? (writeAll links) = (links.find? Written.isNext).map Written.target ∧
    ∀ front w back before f after, links = front ++ w :: back → (∀ other ∈ front, other.isNext = false) →
      w.fields = before ++ f :: after → f.isNext = true →
      next? (writeAll links) = some w.target ∧
      (∃ behind, f.value.EndsAt behind ∧ writeAll links = upTo front w before f ++ behind) ∧
      ∀ behind, f.value.EndsAt behind → next? (upTo front w before f ++ behind) = some w.target := by
  constructor
  · have hnext : isNext ∘ Written.link = Written.isNext := funext isNext_link
    rw [next?, list_writeAll, List.find?_map, Option.map_map, hnext]
    rfl
  · rintro front w back before f after rfl hfront hw hnext
    have hfound (behind : Text) (h : f.value.EndsAt behind) :
        next? (upTo front w before f ++ behind) = some w.target := by
      obtain ⟨parameters, more, hlist⟩ := exists_list_upTo_append front w before h
      have hlink : isNext ⟨w.target, before.map Field.parameter ++ f.parameter :: parameters⟩ = true := by
        rw [isNext_iff, Field.isNext_iff.1 hnext]
        exact List.mem_append_right _ List.mem_cons_self
      have hlinks : ∀ link ∈ front.map Written.link, link.isNext = false := by
        intro link hmem
        obtain ⟨other, hother, rfl⟩ := List.mem_map.1 hmem
        rw [isNext_link, hfront other hother]
      rw [next?, hlist, find?_isNext_append hlinks, List.find?_cons_of_pos hlink]
      rfl
    obtain ⟨behind, hends, hwrite⟩ := exists_writeAll_eq_upTo hw
    refine ⟨?_, ⟨behind, hends, hwrite⟩, hfound⟩
    rw [hwrite]
    exact hfound behind hends

/-- Marks inside targets, keys and quotes part nothing, and a header that breaks
    off behind the value has been read far enough. -/
theorem next?_of_inner_marks :
    next? "\u2003<a;\"b> ;x,y=\"<,;>\",<c>; rel = \"prev\";rel=next;".toList = some "c".toList := by
  let tight : Gap := ⟨[], List.forall_mem_nil _⟩
  let space : Gap := ⟨[' '], List.all_eq_true.1 (by decide)⟩
  let wide : Gap := ⟨['\u2003'], List.all_eq_true.1 (by decide)⟩
  let marks : Field := ⟨"x,y".toList, .quoted "<,;>".toList (by decide) (by decide), tight, tight, tight, tight,
    by decide, List.all_eq_true.1 (by decide)⟩
  let prev : Field := ⟨"rel".toList, .quoted "prev".toList (by decide) (by decide), space, space, space, tight,
    by decide, List.all_eq_true.1 (by decide)⟩
  let next : Field := ⟨"rel".toList, .token "next".toList (by decide) (List.all_eq_true.1 (by decide)) (by decide),
    tight, tight, tight, tight,
    by decide, List.all_eq_true.1 (by decide)⟩
  let first : Written := ⟨"a;\"b".toList, [marks], wide, space, by decide, by decide⟩
  let second : Written := ⟨"c".toList, [prev, next], tight, tight, by decide, by decide⟩
  have hfirst : ∀ other ∈ [first], other.isNext = false := by decide
  have hends : next.value.EndsAt [';'] := by
    rintro c ⟨⟩
    exact Or.inl rfl
  have htext : "\u2003<a;\"b> ;x,y=\"<,;>\",<c>; rel = \"prev\";rel=next;".toList =
      upTo [first] second [prev] next ++ [';'] := by
    decide
  rw [htext]
  exact ((next?_writeAll [first, second]).2 [first] second [] [prev] next [] rfl hfirst rfl rfl).2.2 [';'] hends

end Locator.Link
