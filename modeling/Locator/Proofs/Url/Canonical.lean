import Locator.Proofs.Url.RoundTrip

namespace Locator

namespace Text

theorem toLower_eq_self_iff {c : Char} : c.toLower = c ↔ c.isUpper = false := by
  rw [← Bool.not_eq_true, isUpper_iff_toNat]
  constructor
  · intro hsame hupper
    have hshift := toNat_toLower hupper
    rw [hsame] at hshift
    omega
  · exact toLower_of_not_upper

theorem lower_eq_self_iff {s : Text} : lower s = s ↔ ∀ c ∈ s, c.isUpper = false := by
  induction s with
  | nil => simp [lower]
  | cons c r ih =>
    simp only [lower, List.map_cons, List.cons.injEq, List.forall_mem_cons, toLower_eq_self_iff]
    exact and_congr_right fun _ => ih

end Text

namespace Scheme

open Text

/-- The scheme of a text as it is spelled there, in letters of either case:
    empty when the text has none. -/
def spelled (s : Text) : Text :=
  if ':' ∈ s ∧ isName (before ':' s) then before ':' s else []

theorem spelled_name_append {name : Text} (h : isName name = true) (rest : Text) :
    spelled (name ++ ':' :: rest) = name := by
  have hcolon : ':' ∉ name := notMem_of_isName h (by decide)
  have hbefore : before ':' (name ++ ':' :: rest) = name := before_append_mark_cons hcolon rest
  rw [spelled, hbefore, if_pos ⟨by simp, h⟩]

theorem spelled_of_cut {s : Text} (h : (cut s).1 = []) : spelled s = [] := by
  apply if_neg
  intro hname
  rw [cut, if_pos hname] at h
  exact (isLowerName_lower hname.2).ne_nil h

/-- Cutting a text at a mark that no scheme holds leaves the spelling of its
    scheme. -/
theorem spelled_before {mark : Char} (hmark : isTail mark = false) (hcolon : mark ≠ ':') (s : Text) :
    spelled (before mark s) = spelled s := by
  obtain ⟨name, rest, hname, rfl, -⟩ | hcut := cut_cases s
  · have hcons : before mark (':' :: rest) = ':' :: before mark rest := by simp [before, hcolon.symm]
    rw [before_append_of_notMem (notMem_of_isName hname hmark), hcons, spelled_name_append hname,
      spelled_name_append hname]
  · have hnone : (cut (before mark s)).1 = [] := by rw [cut_before hmark hcolon, hcut]
    rw [spelled_of_cut hnone, spelled_of_cut (congrArg Prod.fst hcut)]

end Scheme

namespace Url

open Text

/-- What the one way of writing an address asks of a text: small letters in the
    scheme, something behind each mark, and two slashes just where they are
    written. -/
structure IsCanonical (s : Text) : Prop where
  scheme : ∀ c ∈ Scheme.spelled s, c.isUpper = false
  fragment : '#' ∈ s → after '#' s ≠ []
  query : '?' ∈ before '#' s → after '?' (before '#' s) ≠ []
  host : "//".toList <+: (Scheme.cut s).2 → (read s).authority = [] →
    (read s).recognized = true ∨ "////".toList <+: (Scheme.cut s).2
  hostless : ¬ "//".toList <+: (Scheme.cut s).2 →
    ¬ ((read s).recognized = true ∧ ((read s).path = [] ∨ Path.rooted (read s).path = true))

variable {s : Text}

/-- The scheme of a text is written as it is spelled exactly when no letter of
    it is a capital. -/
theorem schemeMark_append_eq_iff (s behind : Text) :
    (readPlain s).schemeMark ++ behind = s ↔
      (∀ c ∈ Scheme.spelled s, c.isUpper = false) ∧ behind = (Scheme.cut s).2 := by
  obtain ⟨name, rest, hname, rfl, hcut⟩ | hcut := Scheme.cut_cases s
  · have hmark : (readPlain (name ++ ':' :: rest)).schemeMark = lower name ++ [':'] := by
      simp only [schemeMark, readPlain, hcut, if_neg (Scheme.isLowerName_lower hname).ne_nil]
    rw [hmark, hcut, Scheme.spelled_name_append hname, ← lower_eq_self_iff, List.append_assoc, List.singleton_append]
    constructor
    · intro h
      obtain ⟨hlower, hbehind⟩ := List.append_inj h (List.length_map _)
      exact ⟨hlower, List.tail_eq_of_cons_eq hbehind⟩
    · rintro ⟨hlower, rfl⟩
      rw [hlower]
  · have hmark : (readPlain s).schemeMark = [] := by simp only [schemeMark, readPlain, hcut, if_pos]
    rw [hmark, hcut, Scheme.spelled_of_cut (congrArg Prod.fst hcut), List.nil_append]
    simp

/-- Behind the scheme stand two slashes, the host and the path, or the path
    alone. -/
theorem cut_snd_cases (hquestion : '?' ∉ s) :
    ((Scheme.cut s).2 = "//".toList ++ ((readPlain s).authority ++ (readPlain s).path) ∧
      ((readPlain s).path = [] ∨ Path.rooted (readPlain s).path = true)) ∨
    (¬ "//".toList <+: (Scheme.cut s).2 ∧ (readPlain s).authority = [] ∧ (readPlain s).path = (Scheme.cut s).2) := by
  have hnone : '?' ∉ (cutAuthority (Scheme.cut s).2).2 :=
    fun hmem => hquestion (mem_of_mem_cut_snd (mem_of_mem_cutAuthority (Or.inr hmem)))
  simp only [readPlain, before_of_notMem hnone]
  obtain ⟨a, rest, hslashes, -, hrest, hcut⟩ | ⟨hslashes, hcut⟩ := cutAuthority_cases (Scheme.cut s).2
  · rw [hcut] at hnone ⊢
    refine Or.inl ⟨hslashes, ?_⟩
    have hpath := path_of_host_end hrest
    rwa [before_of_notMem hnone] at hpath
  · rw [hcut]
    exact Or.inr ⟨hslashes, rfl, rfl⟩

/-- The slashes that are written are those of the text, unless the text opens a
    host, names none and has no other need of them, or an address that needs
    them goes without. -/
theorem slashes_append_eq_iff (hquestion : '?' ∉ s) :
    (readPlain s).slashes ++ ((readPlain s).authority ++ (readPlain s).path) = (Scheme.cut s).2 ↔
      ("//".toList <+: (Scheme.cut s).2 → (readPlain s).authority = [] →
        (readPlain s).recognized = true ∨ "////".toList <+: (Scheme.cut s).2) ∧
      (¬ "//".toList <+: (Scheme.cut s).2 →
        ¬ ((readPlain s).recognized = true ∧
          ((readPlain s).path = [] ∨ Path.rooted (readPlain s).path = true))) := by
  obtain ⟨hcut, hpath⟩ | ⟨hslashes, hauth, hpath⟩ := cut_snd_cases hquestion
  · have hopen : "//".toList <+: (Scheme.cut s).2 := ⟨_, hcut.symm⟩
    have hwritten : (readPlain s).slashes = "//".toList ↔ (readPlain s).slashes ≠ [] :=
      ⟨fun h => by simp [h], slashes_of_ne_nil⟩
    have htwice : "////".toList <+: (Scheme.cut s).2 ↔
        "//".toList <+: (readPlain s).authority ++ (readPlain s).path := by
      rw [hcut]
      exact List.prefix_append_right_inj "//".toList
    simp only [hopen, forall_true_left, not_true_eq_false, false_implies, and_true, htwice]
    rw [hcut, List.append_left_inj, hwritten, ne_eq, slashes_eq_nil_iff]
    constructor
    · intro h hauth
      rw [hauth, List.nil_append]
      by_contra hnot
      rw [not_or] at hnot
      exact h ⟨hauth, hnot.2, fun hrecognized => hnot.1 hrecognized.1⟩
    · rintro h ⟨hauth, hpathSlashes, hrecognized⟩
      obtain hscheme | hslashes := h hauth
      · exact hrecognized ⟨hscheme, hpath⟩
      · rw [hauth, List.nil_append] at hslashes
        exact hpathSlashes hslashes
  · have hpathSlashes : ¬ "//".toList <+: (readPlain s).path := by rwa [hpath]
    simp only [hslashes, not_false_eq_true, forall_true_left, false_implies, true_and]
    rw [← hpath, hauth, List.nil_append, List.append_left_eq_self, slashes_eq_nil_iff]
    exact ⟨fun h => h.2.2, fun h => ⟨hauth, hpathSlashes, h⟩⟩

/-- A text without query and fragment is written as it stands. -/
theorem write_readPlain_eq_iff (hquestion : '?' ∉ s) :
    (readPlain s).write = s ↔
      (∀ c ∈ Scheme.spelled s, c.isUpper = false) ∧
      (readPlain s).slashes ++ ((readPlain s).authority ++ (readPlain s).path) = (Scheme.cut s).2 := by
  have hquery : (readPlain s).query = [] := query_readPlain_of_notMem hquestion
  have hfragment : (readPlain s).fragment = [] := rfl
  have hwrite : (readPlain s).write =
      (readPlain s).schemeMark ++ ((readPlain s).slashes ++ ((readPlain s).authority ++ (readPlain s).path)) := by
    simp [write, (headed_readPlain s).gap, hquery, hfragment, marked]
  rw [hwrite, schemeMark_append_eq_iff]

/-- What stands in front of query and fragment is written as it stands when the
    whole is, and neither of the two is left empty behind its mark. -/
theorem canonical_eq_self_iff_of_front (s : Text) :
    canonical s = s ↔
      (readPlain (before '?' (before '#' s))).write = before '?' (before '#' s) ∧
      ('?' ∈ before '#' s → after '?' (before '#' s) ≠ []) ∧ ('#' ∈ s → after '#' s ≠ []) := by
  have hwell := wellFormed_read s
  have hhash : '#' ∉ write { read s with fragment := [] } := (hwell.withFragment []).hash_notMem_write rfl
  have hquestion : '?' ∉ write { read s with query := [], fragment := [] } :=
    hwell.withoutQuery.question_notMem_write rfl rfl
  have hfragment : (read s).fragment = after '#' s := rfl
  have hquery : (read s).query = after '?' (before '#' s) := query_readPlain (before '#' s)
  have hfront : { read s with query := [], fragment := [] } = readPlain (before '?' (before '#' s)) := by
    rw [readPlain_before_question]
    rfl
  rw [canonical, write_eq_append_marked, hfragment, append_marked_after_eq_iff hhash, write_eq_append_query rfl]
  dsimp only
  rw [hquery, append_marked_after_eq_iff hquestion, hfront, and_assoc]

/-- The addresses that are written as they stand: all that writing can change
    is excluded, and no change makes up for another. -/
theorem canonical_eq_self_iff (s : Text) : canonical s = s ↔ IsCanonical s := by
  have hspelled : Scheme.spelled (before '?' (before '#' s)) = Scheme.spelled s := by
    rw [Scheme.spelled_before (by decide) (by decide), Scheme.spelled_before (by decide) (by decide)]
  have hcut : (Scheme.cut (before '?' (before '#' s))).2 = before '?' (before '#' (Scheme.cut s).2) := by
    rw [Scheme.cut_before (by decide) (by decide), Scheme.cut_before (by decide) (by decide)]
  have hslashes : "//".toList <+: (Scheme.cut (before '?' (before '#' s))).2 ↔ "//".toList <+: (Scheme.cut s).2 := by
    rw [hcut, prefix_before_iff (by decide), prefix_before_iff (by decide)]
  have htwice : "////".toList <+: (Scheme.cut (before '?' (before '#' s))).2 ↔
      "////".toList <+: (Scheme.cut s).2 := by
    rw [hcut, prefix_before_iff (by decide), prefix_before_iff (by decide)]
  have hread : readPlain (before '?' (before '#' s)) = { readPlain (before '#' s) with query := [] } :=
    readPlain_before_question (before '#' s)
  rw [canonical_eq_self_iff_of_front, write_readPlain_eq_iff (notMem_before '?' _),
    slashes_append_eq_iff (notMem_before '?' _), hspelled, hslashes, htwice, hread]
  constructor
  · rintro ⟨⟨hscheme, hhost, hhostless⟩, hquery, hfragment⟩
    exact ⟨hscheme, hfragment, hquery, hhost, hhostless⟩
  · rintro ⟨hscheme, hfragment, hquery, hhost, hhostless⟩
    exact ⟨⟨hscheme, hhost, hhostless⟩, hquery, hfragment⟩

example : canonical "http:?#".toList = "http://".toList := by decide

end Url

end Locator
