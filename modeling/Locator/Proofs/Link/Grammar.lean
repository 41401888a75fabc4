import Locator.Proofs.Link.Written

namespace Locator.Link

open Text

/-- How a value stands in front of a text: between quotes, or as a run of
    characters up to the next mark or blank. A run may begin with a quote where
    no quoted value does. -/
inductive SpellsValue : Text → Text → Text → Prop where
  | quoted {value rest : Text} (ne_nil : value ≠ []) (quote_notMem : '"' ∉ value) :
      SpellsValue value ('"' :: (value ++ ['"'])) rest
  | run {value rest : Text} (ne_nil : value ≠ []) (inToken : ∀ c ∈ value, inToken c = true)
      (ends : ∀ c ∈ rest.head?, Link.inToken c = false)
      (unquoted : ∀ inner behind, value ++ rest = '"' :: (inner ++ '"' :: behind) → '"' ∉ inner → inner = []) :
      SpellsValue value value rest

/-- How a parameter stands in front of a text, with all blanks behind it. -/
inductive SpellsParameter : Text × Text → Text → Text → Prop where
  | mk {key value written rest : Text} (lead beforeSign afterSign trail : Gap) (ne_nil : key ≠ [])
      (inKey : ∀ c ∈ key, inKey c = true) (spells : SpellsValue value written (trail.text ++ rest))
      (ends : ∀ c ∈ rest.head?, isBlank c = false) :
      SpellsParameter (key, value)
        (';' :: (lead.text ++ (key ++ (beforeSign.text ++ '=' :: (afterSign.text ++ (written ++ trail.text)))))) rest

inductive SpellsParameters : List (Text × Text) → Text → Text → Prop where
  | nil {rest : Text} : SpellsParameters [] [] rest
  | cons {p : Text × Text} {parameters : List (Text × Text)} {written more rest : Text}
      (head : SpellsParameter p written (more ++ rest)) (tail : SpellsParameters parameters more rest) :
      SpellsParameters (p :: parameters) (written ++ more) rest

/-- How a target stands in front of a text, with all blanks behind it. -/
inductive SpellsTarget : Text → Text → Text → Prop where
  | mk {target rest : Text} (lead trail : Gap) (ne_nil : target ≠ []) (angle_notMem : '>' ∉ target)
      (ends : ∀ c ∈ rest.head?, isBlank c = false) :
      SpellsTarget target (lead.text ++ '<' :: (target ++ '>' :: trail.text)) rest

/-- How links stand in front of a text, each of them with a comma behind it. -/
inductive SpellsLinks : List Link → Text → Text → Prop where
  | nil {rest : Text} : SpellsLinks [] [] rest
  | cons {target opening written more rest : Text} {parameters : List (Text × Text)} {links : List Link}
      (head : SpellsTarget target opening (written ++ ',' :: (more ++ rest)))
      (fields : SpellsParameters parameters written (',' :: (more ++ rest)))
      (tail : SpellsLinks links more rest) :
      SpellsLinks (⟨target, parameters⟩ :: links) (opening ++ (written ++ ',' :: more)) rest

variable {s rest target value written front : Text} {p : Text × Text} {parameters : List (Text × Text)}
  {links : List Link}

theorem exists_gap (s : Text) : ∃ gap : Gap, s = gap.text ++ trimLeft s :=
  ⟨⟨s.takeWhile isBlank, fun _ hc => List.mem_takeWhile_imp hc⟩, List.takeWhile_append_dropWhile.symm⟩

theorem trimLeft_gap_append (gap : Gap) (h : ∀ c ∈ s.head?, isBlank c = false) : trimLeft (gap.text ++ s) = s := by
  rw [trimLeft_append_of_blank gap.blank, trimLeft_of_head? h]

theorem value_eq_some_iff :
    (quotedValue? s).or (token? s) = some (value, rest) ↔
      ∃ written, SpellsValue value written rest ∧ s = written ++ rest := by
  constructor
  · intro h
    cases hquoted : quotedValue? s with
    | none =>
      rw [hquoted, Option.none_or, token?_eq_some_iff] at h
      obtain ⟨hne, htoken, hends, rfl⟩ := h
      exact ⟨value, .run hne htoken hends (quotedValue?_eq_none_iff.1 hquoted), rfl⟩
    | some found =>
      rw [hquoted, Option.some_or] at h
      cases h
      obtain ⟨hne, hquote, rfl⟩ := quotedValue?_eq_some_iff.1 hquoted
      exact ⟨_, .quoted hne hquote, by simp⟩
  · rintro ⟨written, hspells, rfl⟩
    cases hspells with
    | quoted hne hquote =>
      have hread : quotedValue? ('"' :: (value ++ ['"']) ++ rest) = some (value, rest) :=
        quotedValue?_eq_some_iff.2 ⟨hne, hquote, by simp⟩
      rw [hread, Option.some_or]
    | run hne htoken hends hunquoted =>
      rw [quotedValue?_eq_none_iff.2 hunquoted, Option.none_or, token?_eq_some_iff]
      exact ⟨hne, htoken, hends, rfl⟩

theorem SpellsValue.head? (h : SpellsValue value written rest) : ∀ c ∈ (written ++ rest).head?, isBlank c = false := by
  cases h with
  | quoted hne hquote =>
    rintro c ⟨⟩
    rfl
  | run hne htoken hends hunquoted => exact head?_append_of_forall hne fun c hc => not_isBlank_of_inToken (htoken c hc)

/-- A key and a sign stand in front of every value that is read. -/
theorem exists_key_of_parameter? (h : parameter? s = some (p, rest)) :
    ∃ (lead beforeSign : Gap) (behind r : Text), p.1 ≠ [] ∧ (∀ c ∈ p.1, inKey c = true) ∧
      s = ';' :: (lead.text ++ (p.1 ++ (beforeSign.text ++ '=' :: behind))) ∧
      (quotedValue? (trimLeft behind)).or (token? (trimLeft behind)) = some (p.2, r) ∧ trimLeft r = rest := by
  unfold parameter? at h
  split at h
  · next body =>
    dsimp only at h
    split at h
    · next first more behind hkey hsign =>
      obtain ⟨⟨value, r⟩, hvalue, hp⟩ := Option.map_eq_some_iff.1 h
      cases hp
      obtain ⟨lead, hlead⟩ := exists_gap body
      obtain ⟨beforeSign, hbefore⟩ := exists_gap ((trimLeft body).dropWhile inKey)
      refine ⟨lead, beforeSign, behind, r, ?_, fun _ hc => List.mem_takeWhile_imp hc, ?_, hvalue, rfl⟩
      · rw [hkey]
        exact List.cons_ne_nil first more
      · rw [← hsign, ← hbefore, List.takeWhile_append_dropWhile, ← hlead]
    · cases h
  · cases h

theorem parameter?_eq_some_iff :
    parameter? s = some (p, rest) ↔ ∃ written, SpellsParameter p written rest ∧ s = written ++ rest := by
  constructor
  · intro h
    obtain ⟨lead, beforeSign, behind, r, hne, hkey, rfl, hvalue, rfl⟩ := exists_key_of_parameter? h
    obtain ⟨written, hspells, hwritten⟩ := value_eq_some_iff.1 hvalue
    obtain ⟨afterSign, hafter⟩ := exists_gap behind
    obtain ⟨trail, htrail⟩ := exists_gap r
    rw [htrail] at hspells
    refine ⟨_, .mk lead beforeSign afterSign trail hne hkey hspells (head?_trimLeft r), ?_⟩
    conv_lhs => rw [hafter, hwritten, htrail]
    simp
  · rintro ⟨text, hparameter, rfl⟩
    cases hparameter with
    | @mk key value written _ lead beforeSign afterSign trail hne hkey hspells hends =>
      have hread := value_eq_some_iff.2 ⟨written, hspells, rfl⟩
      have hsplit :
          ';' :: (lead.text ++ (key ++ (beforeSign.text ++
              '=' :: (afterSign.text ++ (written ++ trail.text))))) ++ rest =
            ';' :: (lead.text ++ (key ++ (beforeSign.text ++
              '=' :: (afterSign.text ++ (written ++ (trail.text ++ rest)))))) := by
        simp
      rw [hsplit, parameter?_key_append lead.blank hne hkey beforeSign.blank,
        trimLeft_gap_append afterSign hspells.head?, hread, Option.map_some]
      dsimp only
      rw [trimLeft_gap_append trail hends]

theorem target?_eq_some_iff :
    target? s = some (target, rest) ↔ ∃ written, SpellsTarget target written rest ∧ s = written ++ rest := by
  constructor
  · intro h
    unfold target? at h
    split at h
    · next r hopen =>
      split at h
      · next hangle =>
        cases h
        obtain ⟨lead, hlead⟩ := exists_gap s
        obtain ⟨trail, htrail⟩ := exists_gap (after '>' r)
        refine ⟨_, .mk lead trail hangle.2 (notMem_before '>' r) (head?_trimLeft _), ?_⟩
        conv_lhs => rw [hlead, hopen, ← before_append_after hangle.1, htrail]
        simp
      · cases h
    · cases h
  · rintro ⟨text, ⟨lead, trail, hne, hangle, hends⟩, rfl⟩
    have hsplit : lead.text ++ '<' :: (target ++ '>' :: trail.text) ++ rest =
        lead.text ++ '<' :: (target ++ '>' :: (trail.text ++ rest)) := by
      simp
    rw [hsplit, target?_angle_append lead.blank hne hangle, trimLeft_gap_append trail hends]

/-- Spelled parameters are taken, and behind them all that follow. -/
theorem SpellsParameters.takeParameters (h : SpellsParameters parameters written rest) :
    takeParameters (written ++ rest) = (parameters ++ (Link.takeParameters rest).1, (Link.takeParameters rest).2) := by
  induction h with
  | nil => rfl
  | @cons p parameters written more rest head tail ih =>
    have hread := parameter?_eq_some_iff.2 ⟨written, head, rfl⟩
    rw [List.append_assoc, takeParameters_of_some hread, ih]
    rfl

/-- The parameters that are taken off a text are spelled in it. -/
theorem exists_spellsParameters (s : Text) :
    ∃ written, SpellsParameters (takeParameters s).1 written (takeParameters s).2 ∧
      s = written ++ (takeParameters s).2 := by
  induction hlength : s.length using Nat.strong_induction_on generalizing s with
  | _ length ih =>
    cases hparameter : parameter? s with
    | none =>
      rw [takeParameters_of_none hparameter]
      exact ⟨[], .nil, rfl⟩
    | some found =>
      obtain ⟨p, behind⟩ := found
      have hshorter := length_of_parameter? hparameter
      obtain ⟨written, head, rfl⟩ := parameter?_eq_some_iff.1 hparameter
      obtain ⟨more, tail, hmore⟩ := ih behind.length (by omega) behind rfl
      rw [takeParameters_of_some hparameter]
      rw [hmore] at head
      refine ⟨written ++ more, .cons head tail, ?_⟩
      rw [List.append_assoc, ← hmore]

theorem SpellsParameters.exists_append {more : List (Text × Text)}
    (h : SpellsParameters (parameters ++ more) written rest) :
    ∃ first second, written = first ++ second ∧ SpellsParameters parameters first (second ++ rest) ∧
      SpellsParameters more second rest := by
  induction parameters generalizing written with
  | nil => exact ⟨[], written, rfl, .nil, h⟩
  | cons p parameters ih =>
    cases h with
    | @cons _ _ text back _ head tail =>
      obtain ⟨first, second, rfl, hfirst, hsecond⟩ := ih tail
      rw [List.append_assoc] at head
      exact ⟨text ++ first, second, (List.append_assoc _ _ _).symm, .cons head hfirst, hsecond⟩

/-- Links with a comma behind each are read, and behind them all that follow. -/
theorem SpellsLinks.list (h : SpellsLinks links front rest) : list (front ++ rest) = links ++ Link.list rest := by
  induction h with
  | nil => rfl
  | @cons target opening written more rest parameters links head fields tail ih =>
    have hcomma : Link.takeParameters (',' :: (more ++ rest)) = ([], ',' :: (more ++ rest)) :=
      takeParameters_of_not_semicolon fun c hc => by
        obtain rfl : ',' = c := by simpa using hc
        decide
    have hread := target?_eq_some_iff.2 ⟨opening, head, rfl⟩
    have htaken := fields.takeParameters
    rw [hcomma, List.append_nil] at htaken
    have hsplit : opening ++ (written ++ ',' :: more) ++ rest =
        opening ++ (written ++ ',' :: (more ++ rest)) := by
      simp
    rw [hsplit, list_of_some hread, htaken, further_comma, ih]
    rfl

theorem exists_of_list_eq_cons {link : Link} {more : List Link} (h : list s = link :: more) :
    ∃ r, target? s = some (link.target, r) ∧ (takeParameters r).1 = link.parameters ∧
      further (takeParameters r).2 = more := by
  cases htarget : target? s with
  | none =>
    rw [list_of_none htarget] at h
    cases h
  | some found =>
    obtain ⟨target, r⟩ := found
    rw [list_of_some htarget] at h
    cases h
    exact ⟨r, rfl, rfl, rfl⟩

theorem exists_of_further_ne_nil (h : further s ≠ []) : ∃ more, s = ',' :: more := by
  by_contra hnone
  exact h (further_of_ne fun more hs => hnone ⟨more, hs⟩)

/-- Links that are read in front of another are spelled there, each of them up
    to its comma. -/
theorem exists_spellsLinks {link : Link} {back : List Link} (h : list s = links ++ link :: back) :
    ∃ front r, s = front ++ r ∧ SpellsLinks links front r ∧ list r = link :: back := by
  induction links generalizing s with
  | nil => exact ⟨[], s, rfl, .nil, h⟩
  | cons first links ih =>
    obtain ⟨behind, htarget, hparameters, hfurther⟩ := exists_of_list_eq_cons h
    have hne : further (takeParameters behind).2 ≠ [] := by
      rw [hfurther]
      exact List.append_ne_nil_of_right_ne_nil links (List.cons_ne_nil link back)
    obtain ⟨more, hmore⟩ := exists_of_further_ne_nil hne
    rw [hmore, further_comma] at hfurther
    obtain ⟨front, r, rfl, hlinks, hr⟩ := ih hfurther
    obtain ⟨opening, hopening, rfl⟩ := target?_eq_some_iff.1 htarget
    obtain ⟨written, hwritten, hbehind⟩ := exists_spellsParameters behind
    rw [hmore, hparameters] at hwritten
    rw [hmore] at hbehind
    rw [hbehind] at hopening
    refine ⟨opening ++ (written ++ ',' :: front), r, ?_, .cons hopening hwritten hlinks, hr⟩
    rw [hbehind]
    simp

/-- The next link of any header value. In front of it stand whole links that do
    not lead on, and its parameters are well formed up to the first that does.
    Nothing else makes a next link, and nothing behind that parameter unmakes
    it. -/
theorem next?_eq_some_iff {value target : Text} :
    next? value = some target ↔
      ∃ (links : List Link) (parameters : List (Text × Text)) (front opening written behind : Text),
        value = front ++ (opening ++ (written ++ behind)) ∧
        SpellsLinks links front (opening ++ (written ++ behind)) ∧ (∀ link ∈ links, link.isNext = false) ∧
        SpellsTarget target opening (written ++ behind) ∧
        SpellsParameters (parameters ++ [("rel".toList, "next".toList)]) written behind ∧
        ("rel".toList, "next".toList) ∉ parameters := by
  constructor
  · intro h
    obtain ⟨link, hfind, rfl⟩ := Option.map_eq_some_iff.1 h
    obtain ⟨hnext, links, back, hlist, hlinks⟩ := List.find?_eq_some_iff_append.1 hfind
    obtain ⟨front, r, rfl, hfront, hr⟩ := exists_spellsLinks hlist
    obtain ⟨behind, htarget, hparameters, -⟩ := exists_of_list_eq_cons hr
    obtain ⟨parameters, more, hsplit, hfirst⟩ := List.eq_append_cons_of_mem (isNext_iff.1 hnext)
    obtain ⟨opening, hopening, rfl⟩ := target?_eq_some_iff.1 htarget
    obtain ⟨written, hwritten, hbehind⟩ := exists_spellsParameters behind
    rw [hparameters, hsplit, ← List.singleton_append, ← List.append_assoc] at hwritten
    obtain ⟨first, second, rfl, hleading, -⟩ := hwritten.exists_append
    rw [List.append_assoc] at hbehind
    have hothers : ∀ link ∈ links, link.isNext = false := by
      intro link hlink
      simpa using hlinks link hlink
    refine ⟨links, parameters, front, opening, first, second ++ (takeParameters behind).2, ?_, ?_, hothers, ?_,
      hleading, hfirst⟩
    all_goals rw [← hbehind]
    · exact hfront
    · exact hopening
  · rintro ⟨links, parameters, front, opening, written, behind, rfl, hfront, hlinks, hopening, hwritten, -⟩
    have htarget := target?_eq_some_iff.2 ⟨opening, hopening, rfl⟩
    have hnext : isNext ⟨target, (takeParameters (written ++ behind)).1⟩ = true := by
      rw [isNext_iff, hwritten.takeParameters]
      simp
    rw [next?, hfront.list, find?_isNext_append hlinks, list_of_some htarget, List.find?_cons_of_pos hnext]
    rfl

example : next? "<a>;x=\"b,<c>;rel=next\"".toList = none := by cbv

example : next? "<a>;x=\"b,<c>;rel=next".toList = some "c".toList := by cbv

end Locator.Link
