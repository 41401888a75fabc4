import Locator.Proofs.Link.Trimmed
import Locator.Proofs.Link.Written

namespace Locator.Link

open Text

/-- A header line is one of a link header when its name says so, in letters of
    either case. -/
def IsLinkRow (row : Text) : Prop :=
  ':' ∈ row ∧ lower (trim (before ':' row)) = "link".toList

variable {row name : Text}

/-- The blanks around a header line are trimmed with its name and its value. -/
theorem headerValue?_append {a : Text} (h : ':' ∉ a) (b : Text) :
    headerValue? (a ++ ':' :: b) = if lower (trim a) = "link".toList then some (trim (trimRight b)) else none := by
  have hcolon : ':' ∉ trimLeft a := fun hmem => h ((List.dropWhile_suffix _).subset hmem)
  have hname : trim (trimLeft a) = trim a := by rw [trim, trimLeft_trimLeft, trim]
  have hmem : ':' ∈ trimLeft a ++ ':' :: trimRight b := by simp
  rw [headerValue?, trim_append_mark_cons rfl, before_append_mark_cons hcolon, after_append_mark_cons hcolon, hname]
  simp only [hmem, true_and]

theorem headerValue?_of_not_isLinkRow (h : ¬ IsLinkRow row) : headerValue? row = none := by
  by_cases hmem : ':' ∈ row
  · obtain ⟨a, b, ha, rfl⟩ := exists_of_mem hmem
    rw [headerValue?_append ha, if_neg]
    intro hname
    exact h ⟨hmem, by rwa [before_append_mark_cons ha]⟩
  · have hnone : ':' ∉ trim row := by
      intro htrim
      obtain ⟨blanks, -, hright⟩ := exists_trimRight (trimLeft row)
      have hleft : ':' ∈ trimLeft row := hright ▸ List.mem_append_left blanks htrim
      exact hmem ((List.dropWhile_suffix _).subset hleft)
    rw [headerValue?, if_neg fun hrow => hnone hrow.1]

/-- No blank is a capital. -/
theorem toLower_of_isBlank {c : Char} (h : isBlank c = true) : c.toLower = c := by
  apply toLower_of_not_upper
  simp only [isBlank, Bool.or_eq_true, Bool.and_eq_true, decide_eq_true_eq, beq_iff_eq] at h
  omega

theorem not_isBlank_of_name (hname : lower name = "link".toList) : ∀ c ∈ name, isBlank c = false := by
  intro c hc
  have hletter : c.toLower ∈ "link".toList := hname ▸ List.mem_map_of_mem hc
  have hletters : "link".toList.all (fun c => !isBlank c) = true := rfl
  by_contra hblank
  rw [Bool.not_eq_false] at hblank
  rw [toLower_of_isBlank hblank] at hletter
  have hnone := List.all_eq_true.1 hletters c hletter
  rw [hblank] at hnone
  cases hnone

theorem colon_notMem_name (hname : lower name = "link".toList) : ':' ∉ name := by
  intro hc
  have hletter : ':'.toLower ∈ lower name := List.mem_map_of_mem hc
  rw [hname] at hletter
  exact absurd hletter (by decide)

theorem trim_gaps (lead trail : Gap) (hne : name ≠ []) (hname : ∀ c ∈ name, isBlank c = false) :
    trim (lead.text ++ (name ++ trail.text)) = name := by
  have htrail : ∀ c ∈ trail.text.reverse, isBlank c = true := fun c hc => trail.blank c (List.mem_reverse.1 hc)
  have hright : trimRight (name ++ trail.text) = (trimLeft (trail.text.reverse ++ name.reverse)).reverse := by
    rw [← List.reverse_append]
    rfl
  have hlast : ∀ c ∈ name.reverse.head?, isBlank c = false :=
    fun c hc => hname c (List.mem_reverse.1 (List.mem_of_mem_head? hc))
  rw [trim, trimLeft_append_of_blank lead.blank, trimLeft_of_head? (head?_append_of_forall hne hname), hright,
    trimLeft_append_of_blank htrail, trimLeft_of_head? hlast, List.reverse_reverse]

/-- Blanks around the name of a link header and around its value make no
    difference to the link that is found. -/
theorem next?_headerValue? (hname : lower name = "link".toList) (lead trail : Gap) (value : Text) :
    (headerValue? (lead.text ++ (name ++ (trail.text ++ ':' :: value)))).bind next? = next? value := by
  have hcolon : ':' ∉ lead.text ++ (name ++ trail.text) := by
    simp only [List.mem_append, not_or]
    exact ⟨notMem_of_forall lead.blank rfl, colon_notMem_name hname, notMem_of_forall trail.blank rfl⟩
  have hne : name ≠ [] := by
    rintro rfl
    cases hname
  have hsplit : lead.text ++ (name ++ (trail.text ++ ':' :: value)) =
      lead.text ++ (name ++ trail.text) ++ ':' :: value := by
    simp
  rw [hsplit, headerValue?_append hcolon, trim_gaps lead trail hne (not_isBlank_of_name hname), if_pos hname,
    Option.bind_some, next?, next?, list_trim, list_trimRight]

/-- A header line: that of a link header with its links, or any other. -/
inductive Row where
  | link (lead : Gap) (name : Text) (trail : Gap) (links : List Written) (isLink : lower name = "link".toList)
      (ne_nil : links ≠ [])
  | other (text : Text) (notLink : ¬ IsLinkRow text)

namespace Row

def write : Row → Text
  | link lead name trail links .. => lead.text ++ (name ++ (trail.text ++ ':' :: writeAll links))
  | other text _ => text

def links? : Row → Option (List Written)
  | link _ _ _ links .. => some links
  | other .. => none

end Row

theorem writeAll_append {links more : List Written} (hlinks : links ≠ []) (hmore : more ≠ []) :
    writeAll (links ++ more) = writeAll links ++ ',' :: writeAll more := by
  induction links with
  | nil => exact absurd rfl hlinks
  | cons w links ih =>
    by_cases hlast : links = []
    · rw [hlast, List.singleton_append, writeAll_cons_of_ne_nil w hmore, writeAll, writeAll, List.map_singleton,
        List.intercalate_singleton]
    · have hne : links ++ more ≠ [] := List.append_ne_nil_of_left_ne_nil hlast more
      rw [List.cons_append, writeAll_cons_of_ne_nil w hne, ih hlast, writeAll_cons_of_ne_nil w hlast]
      simp

/-- Values with commas between them are the value of all their links. -/
theorem intercalate_writeAll {values : List (List Written)} (h : ∀ links ∈ values, links ≠ []) :
    [','].intercalate (values.map writeAll) = writeAll values.flatten := by
  induction values with
  | nil => rfl
  | cons links values ih =>
    obtain ⟨hlinks, hvalues⟩ := List.forall_mem_cons.1 h
    cases values with
    | nil => simp
    | cons more values =>
      have hne : (more :: values).flatten ≠ [] := by
        rw [List.flatten_cons]
        exact List.append_ne_nil_of_left_ne_nil (hvalues more List.mem_cons_self) _
      have hsplit : (links :: more :: values).flatten = links ++ (more :: values).flatten := List.flatten_cons
      rw [hsplit, writeAll_append hlinks hne, ← ih hvalues, List.map_cons, List.map_cons, List.intercalate_cons_cons]
      simp

theorem next?_intercalate {values : List (List Written)} (h : ∀ links ∈ values, links ≠ []) :
    next? ([','].intercalate (values.map writeAll)) = values.findSome? fun links => next? (writeAll links) := by
  have hnext (links : List Written) : next? (writeAll links) = ((links.map Written.link).find? isNext).map target := by
    rw [next?, list_writeAll]
  rw [intercalate_writeAll h, hnext, List.map_flatten, List.find?_flatten, List.findSome?_map, List.map_findSome?]
  simp only [hnext]
  rfl

theorem findSome?_filterMap {α β γ : Type} (f : α → Option β) (g : β → Option γ) (xs : List α) :
    (xs.filterMap f).findSome? g = xs.findSome? fun x => (f x).bind g := by
  induction xs with
  | nil => rfl
  | cons x xs ih =>
    rw [List.findSome?_cons, ← ih]
    cases hx : f x with
    | none => rw [List.filterMap_cons_none hx, Option.bind_none]
    | some y => rw [List.filterMap_cons_some hx, List.findSome?_cons, Option.bind_some]

/-- A row that is no link header has no next link, and the others have that of
    their links. -/
theorem Row.next?_headerValue? (row : Row) :
    (headerValue? row.write).bind next? = row.links?.bind fun links => next? (writeAll links) := by
  cases row with
  | link lead name trail links hname hne => exact Link.next?_headerValue? hname lead trail (writeAll links)
  | other text hother =>
    have hnone : headerValue? (Row.other text hother).write = none := headerValue?_of_not_isLinkRow hother
    rw [hnone]
    rfl

theorem Row.ne_nil_of_links? {row : Row} {links : List Written} (h : row.links? = some links) : links ≠ [] := by
  cases row with
  | link lead name trail own hname hne =>
    cases h
    exact hne
  | other => cases h

/-- A link header may be cased and spaced in any way, and its links may be
    spread over several of its lines: what is found is the next link of the one
    value that they make up. -/
theorem nextInHeaders?_eq_next? :
    (∀ (name value : Text) (lead beforeColon afterColon trail : Gap), lower name = "link".toList →
      nextInHeaders?
        [lead.text ++ (name ++ (beforeColon.text ++ ':' :: (afterColon.text ++ (value ++ trail.text))))] =
        next? value) ∧
    ∀ rows : List Row,
      nextInHeaders? (rows.map Row.write) = next? ([','].intercalate ((rows.filterMap Row.links?).map writeAll)) := by
  constructor
  · intro name value lead beforeColon afterColon trail hname
    have htrimmed : next? (afterColon.text ++ (value ++ trail.text)) = next? value := by
      rw [next?, next?, list_blanks_append afterColon.blank, list_append_blanks trail.blank]
    rw [nextInHeaders?, List.findSome?_singleton, next?_headerValue? hname, htrimmed]
  · intro rows
    have hlinks : ∀ links ∈ rows.filterMap Row.links?, links ≠ [] := by
      intro links hmem
      obtain ⟨row, -, hrow⟩ := List.mem_filterMap.1 hmem
      exact row.ne_nil_of_links? hrow
    rw [next?_intercalate hlinks, nextInHeaders?, List.findSome?_map, findSome?_filterMap]
    exact congrArg (rows.findSome? ·) (funext Row.next?_headerValue?)

/-- The name may be in capitals and stand apart from its colon, and the value
    may break off. -/
theorem nextInHeaders?_of_capitals :
    lower "LINK".toList = "link".toList ∧
    nextInHeaders? ["\t LINK :\u2003 <c>;rel=next;=\u2003 ".toList] = next? " <c>;rel=next;=".toList := by
  let lead : Gap := ⟨['\t', ' '], List.all_eq_true.1 rfl⟩
  let space : Gap := ⟨[' '], List.all_eq_true.1 rfl⟩
  let wide : Gap := ⟨['\u2003'], List.all_eq_true.1 rfl⟩
  let trail : Gap := ⟨['\u2003', ' '], List.all_eq_true.1 rfl⟩
  have hname : lower "LINK".toList = "link".toList := rfl
  exact ⟨hname, nextInHeaders?_eq_next?.1 "LINK".toList " <c>;rel=next;=".toList lead space wide trail hname⟩

end Locator.Link
