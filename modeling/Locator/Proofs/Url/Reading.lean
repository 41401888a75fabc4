import Locator.Proofs.Url.Scheme
import Locator.Url.Printer

namespace Locator.Url

open Text

/-- Scheme and host stand where the reader looks for them, whatever the path
    and the query hold. -/
structure Headed (u : Url) : Prop where
  scheme : u.scheme = [] ∨ Scheme.IsLowerName u.scheme
  authority : '/' ∉ u.authority ∧ '?' ∉ u.authority
  rooted : u.authority ≠ [] → u.path = [] ∨ Path.rooted u.path = true
  schemeless : u.scheme = [] → u.authority = [] → (Scheme.cut u.path).1 = []

variable {u : Url} {s a rest : Text}

theorem absolute_eq_false_iff :
    u.absolute = false ↔ u.recognized = false ∧ u.authority = [] ∧ Path.rooted u.path = false := by
  simp [absolute, and_assoc]

theorem absolute_of_recognized (h : u.recognized = true) : u.absolute = true := by
  simp [absolute, h]

theorem absolute_of_host (h : u.authority ≠ []) : u.absolute = true := by
  simp [absolute, h]

theorem absolute_of_rooted (h : Path.rooted u.path = true) : u.absolute = true := by
  simp [absolute, h]

theorem scheme_ne_nil_of_recognized (h : u.recognized = true) : u.scheme ≠ [] := by
  intro hnone
  rw [recognized, hnone] at h
  cases h

theorem rooted_before {mark : Char} (h : mark ≠ '/') (path : Text) :
    Path.rooted (before mark path) = Path.rooted path := by
  cases path with
  | nil => rfl
  | cons c r =>
    by_cases hc : c = mark
    · simp [hc, h, Path.rooted]
    · simp [before, hc, Path.rooted]

/-- Nothing at the front of a path and its query goes on with a host. -/
theorem not_inAuthority_of_head? (hpath : u.path = [] ∨ Path.rooted u.path = true) {c : Char}
    (hc : c ∈ (u.path ++ marked '?' u.query).head?) : inAuthority c = false := by
  obtain hpath | hpath := hpath
  · rw [hpath, List.nil_append, marked] at hc
    split at hc
    · simp at hc
    · obtain rfl : '?' = c := by simpa using hc
      decide
  · rw [List.head?_append, Path.head?_of_rooted hpath] at hc
    obtain rfl : '/' = c := by simpa using hc
    decide

theorem not_slash_prefix_marked (query : Text) : ¬ ['/'] <+: marked '?' query := by
  unfold marked
  split <;> simp

theorem slashes_prefix_of_append {path query : Text} (h : ['/', '/'] <+: path ++ marked '?' query) :
    ['/', '/'] <+: path := by
  match path, h with
  | [], h => exact absurd (List.IsPrefix.trans ⟨['/'], rfl⟩ h) (not_slash_prefix_marked query)
  | [c], h => exact absurd (List.cons_prefix_cons.1 h).2 (not_slash_prefix_marked query)
  | c :: d :: r, h => simpa [List.cons_prefix_cons] using h

theorem cutAuthority_slashes_append (ha : ∀ c ∈ a, inAuthority c = true)
    (hrest : ∀ c ∈ rest.head?, inAuthority c = false) :
    cutAuthority ('/' :: '/' :: (a ++ rest)) = (a, rest) := by
  simp only [cutAuthority, takeWhile_append_of_head? ha hrest, dropWhile_append_of_head? ha hrest]

theorem cutAuthority_of_no_slashes (h : ¬ ['/', '/'] <+: s) : cutAuthority s = ([], s) := by
  unfold cutAuthority
  split
  · next r => exact absurd ⟨r, rfl⟩ h
  · rfl

/-- Two slashes are cut off a text together with the host behind them, or there
    is no host. -/
theorem cutAuthority_cases (s : Text) :
    (∃ a rest, s = '/' :: '/' :: (a ++ rest) ∧ (∀ c ∈ a, inAuthority c = true) ∧
      (∀ c ∈ rest.head?, inAuthority c = false) ∧ cutAuthority s = (a, rest)) ∨
    (¬ ['/', '/'] <+: s ∧ cutAuthority s = ([], s)) := by
  by_cases h : ['/', '/'] <+: s
  · obtain ⟨r, rfl⟩ := h
    refine Or.inl ⟨r.takeWhile inAuthority, r.dropWhile inAuthority, ?_, ?_, head?_dropWhile inAuthority r, rfl⟩
    · simp
    · exact fun _ hc => List.mem_takeWhile_imp hc
  · exact Or.inr ⟨h, cutAuthority_of_no_slashes h⟩

theorem Headed.gap (h : u.Headed) : u.gap = [] := by
  unfold Url.gap
  split
  · next hgap =>
    obtain hpath | hpath := h.rooted hgap.1
    · exact absurd hpath hgap.2.1
    · exact absurd hpath hgap.2.2
  · rfl

theorem slashes_eq_nil_iff :
    u.slashes = [] ↔ u.authority = [] ∧ ¬ "//".toList <+: u.path ∧
      ¬ (u.recognized = true ∧ (u.path = [] ∨ Path.rooted u.path = true)) := by
  unfold slashes
  by_cases hauth : u.authority = []
  · simp [hauth]
  · simp [hauth]

theorem slashes_of_ne_nil (h : u.slashes ≠ []) : u.slashes = "//".toList := by
  unfold slashes at h ⊢
  split
  · rfl
  · next hauth =>
    rw [if_neg hauth] at h
    exact if_pos (not_not.1 fun hpath => h (if_neg hpath))

theorem Headed.slashes_cases (h : u.Headed) :
    (u.slashes = ['/', '/'] ∧ (u.path = [] ∨ Path.rooted u.path = true)) ∨
    (u.slashes = [] ∧ u.authority = [] ∧ ¬ ['/', '/'] <+: u.path) := by
  unfold slashes
  split
  · next hauth => exact Or.inl ⟨rfl, h.rooted hauth⟩
  · next hauth =>
    split
    · next hpath =>
      refine Or.inl ⟨rfl, ?_⟩
      obtain ⟨r, hr⟩ | hpath := hpath
      · exact Or.inr (by simp [← hr, Path.rooted])
      · exact hpath.2
    · next hpath => exact Or.inr ⟨rfl, not_not.1 hauth, fun hslashes => hpath (Or.inl hslashes)⟩

theorem Headed.inAuthority_of_mem (h : u.Headed) {c : Char} (hc : c ∈ u.authority) : inAuthority c = true := by
  simp only [inAuthority, Bool.and_eq_true, bne_iff_ne]
  exact ⟨fun e => h.authority.1 (e ▸ hc), fun e => h.authority.2 (e ▸ hc)⟩

theorem Headed.cutAuthority_append (h : u.Headed) :
    cutAuthority (u.slashes ++ u.authority ++ u.path ++ marked '?' u.query) =
      (u.authority, u.path ++ marked '?' u.query) := by
  obtain ⟨hslashes, hpath⟩ | ⟨hslashes, hauth, hpath⟩ := h.slashes_cases
  · rw [hslashes, List.append_assoc, List.append_assoc]
    exact cutAuthority_slashes_append (fun c hc => h.inAuthority_of_mem hc)
      (fun c hc => not_inAuthority_of_head? hpath hc)
  · rw [hslashes, hauth]
    exact cutAuthority_of_no_slashes fun hprefix => hpath (slashes_prefix_of_append hprefix)

theorem Headed.cut_write (h : u.Headed) (hfragment : u.fragment = []) :
    Scheme.cut u.write = (u.scheme, u.slashes ++ u.authority ++ u.path ++ marked '?' u.query) := by
  have hwrite : u.write = u.schemeMark ++ (u.slashes ++ u.authority ++ u.path ++ marked '?' u.query) := by
    simp [write, h.gap, hfragment, marked]
  rw [hwrite]
  unfold schemeMark
  split
  · next hscheme =>
    rw [List.nil_append, hscheme]
    obtain ⟨hslashes, -⟩ | ⟨hslashes, hauth, -⟩ := h.slashes_cases
    · rw [hslashes]
      exact Scheme.cut_slash _
    · rw [hslashes, hauth, List.nil_append, List.nil_append]
      exact Scheme.cut_append_query (h.schemeless hscheme hauth) _
  · next hscheme =>
    rw [List.append_assoc]
    exact (h.scheme.resolve_left hscheme).cut_append _

/-- A written address without a fragment reads back its scheme and its host.
    What stands behind them is cut at the first question mark. -/
theorem Headed.readPlain_write (h : u.Headed) (hfragment : u.fragment = []) :
    readPlain u.write =
      ⟨u.scheme, u.authority, before '?' (u.path ++ marked '?' u.query),
        after '?' (u.path ++ marked '?' u.query), []⟩ := by
  simp only [readPlain, h.cut_write hfragment, h.cutAuthority_append]

theorem Headed.readPlain_write_eq (h : u.Headed) (hfragment : u.fragment = []) (hpath : '?' ∉ u.path) :
    readPlain u.write = u := by
  rw [h.readPlain_write hfragment, before_append_marked hpath, after_append_marked hpath, ← hfragment]

theorem question_notMem_readPlain (s : Text) : '?' ∉ (readPlain s).path :=
  notMem_before '?' _

/-- What a host ends at is the root of a path or the mark of a query. -/
theorem path_of_host_end (h : ∀ c ∈ rest.head?, inAuthority c = false) :
    before '?' rest = [] ∨ Path.rooted (before '?' rest) = true := by
  cases rest with
  | nil => exact Or.inl rfl
  | cons c r =>
    have hc := h c rfl
    simp only [inAuthority, Bool.and_eq_false_iff, bne_eq_false_iff_eq] at hc
    cases hc with
    | inl hslash => exact Or.inr (by simp [hslash, before, Path.rooted])
    | inr hquestion => exact Or.inl (by rw [hquestion, before_mark_cons])

theorem cut_fst_of_rooted {path : Text} (h : path = [] ∨ Path.rooted path = true) : (Scheme.cut path).1 = [] := by
  cases h with
  | inl hnone => rw [hnone]; rfl
  | inr hrooted =>
    obtain ⟨r, rfl⟩ := Path.exists_of_rooted hrooted
    rw [Scheme.cut_slash]

/-- A text is read as an address that has its scheme and host in front. -/
theorem headed_readPlain (s : Text) : (readPlain s).Headed := by
  have hscheme := Scheme.isLowerName_cut s
  obtain ⟨a, rest, -, ha, hrest, hcut⟩ | ⟨-, hcut⟩ := cutAuthority_cases (Scheme.cut s).2
  · have hpath := path_of_host_end hrest
    have hslash : '/' ∉ a := notMem_of_forall ha rfl
    have hquestion : '?' ∉ a := notMem_of_forall ha rfl
    simp only [readPlain, hcut]
    exact ⟨hscheme, ⟨hslash, hquestion⟩, fun _ => hpath, fun _ _ => cut_fst_of_rooted hpath⟩
  · simp only [readPlain, hcut]
    refine ⟨hscheme, ⟨List.not_mem_nil, List.not_mem_nil⟩, fun hne => absurd rfl hne, fun hnone _ => ?_⟩
    have hwhole := Scheme.cut_eq_of_fst hnone
    have hfront := Scheme.cut_before (show Scheme.isTail '?' = false by decide) (by decide) s
    simp only [hwhole] at hfront ⊢
    rw [hfront]

/-- Writing what was read plainly and reading it again changes nothing. -/
theorem readPlain_write_readPlain (s : Text) : readPlain (readPlain s).write = readPlain s :=
  (headed_readPlain s).readPlain_write_eq rfl (question_notMem_readPlain s)

theorem Headed.isLowerName_of_recognized (h : u.Headed) (hrecognized : u.recognized = true) :
    Scheme.IsLowerName u.scheme :=
  h.scheme.resolve_left (scheme_ne_nil_of_recognized hrecognized)

theorem scheme_readPlain_forward (s : Text) : (readPlain (forward s)).scheme = (readPlain s).scheme := by
  simp only [readPlain, Scheme.cut_forward]

/-- A rooted text has no scheme of its own, so that one put in front is its
    scheme and changes nothing else. -/
theorem readPlain_scheme_append {scheme : Text} (hscheme : Scheme.IsLowerName scheme) (r : Text) :
    readPlain (scheme ++ ':' :: '/' :: r) = { readPlain ('/' :: r) with scheme } := by
  simp only [readPlain, hscheme.cut_append, Scheme.cut_slash]

theorem readPlain_of_single_slash {r : Text} (h : ¬ ['/', '/'] <+: '/' :: r) :
    readPlain ('/' :: r) = ⟨[], [], '/' :: before '?' r, after '?' r, []⟩ := by
  have hpath : before '?' ('/' :: r) = '/' :: before '?' r := before_append_of_notMem (a := ['/']) (by decide) r
  have hquery : after '?' ('/' :: r) = after '?' r := after_append_of_notMem (a := ['/']) (by decide) r
  simp only [readPlain, Scheme.cut_slash, cutAuthority_of_no_slashes h, hpath, hquery]

/-- The first name behind two slashes is a host, and the rest of the path its
    key. -/
theorem readPlain_slashes (r : Text) :
    readPlain ('/' :: '/' :: r) =
      ⟨[], (before '?' r).takeWhile (· != '/'), (before '?' r).dropWhile (· != '/'), after '?' r, []⟩ := by
  obtain ⟨a, rest, htext, ha, hrest, hcut⟩ | ⟨hslashes, -⟩ := cutAuthority_cases ('/' :: '/' :: r)
  · simp only [List.cons.injEq, true_and] at htext
    subst htext
    have hquestion : '?' ∉ a := notMem_of_forall ha rfl
    have hname : ∀ c ∈ a, (c != '/') = true := by
      intro c hc
      have hinside := ha c hc
      simp only [inAuthority, Bool.and_eq_true] at hinside
      exact hinside.1
    have hkey : (before '?' rest).takeWhile (· != '/') = [] ∧
        (before '?' rest).dropWhile (· != '/') = before '?' rest := by
      obtain hnone | hrooted := path_of_host_end hrest
      · rw [hnone]
        exact ⟨rfl, rfl⟩
      · obtain ⟨key, hkey⟩ := Path.exists_of_rooted hrooted
        rw [hkey]
        exact ⟨rfl, rfl⟩
    rw [before_append_of_notMem hquestion, after_append_of_notMem hquestion, List.takeWhile_append_of_pos hname,
      List.dropWhile_append_of_pos hname, hkey.1, hkey.2, List.append_nil]
    simp only [readPlain, Scheme.cut_slash, hcut]
  · exact absurd ⟨r, rfl⟩ hslashes

theorem question_notMem_cutAuthority (s : Text) : '?' ∉ (cutAuthority s).1 := by
  obtain ⟨a, rest, -, ha, -, hcut⟩ | ⟨-, hcut⟩ := cutAuthority_cases s
  · rw [hcut]
    exact notMem_of_forall ha rfl
  · rw [hcut]
    exact List.not_mem_nil

theorem notMem_slashes_append {mark : Char} (hslash : mark ≠ '/') (h : mark ∉ a) : mark ∉ '/' :: '/' :: a := by
  simp [hslash, h]

/-- Cutting a text at a mark behind its host leaves the host. -/
theorem cutAuthority_before {mark : Char} (hslash : mark ≠ '/') (h : mark ∉ (cutAuthority s).1) :
    cutAuthority (before mark s) = ((cutAuthority s).1, before mark (cutAuthority s).2) := by
  obtain ⟨a, rest, rfl, ha, hrest, hcut⟩ | ⟨hslashes, hcut⟩ := cutAuthority_cases s
  · rw [hcut] at h ⊢
    have hfront : before mark ('/' :: '/' :: (a ++ rest)) = '/' :: '/' :: (a ++ before mark rest) :=
      before_append_of_notMem (notMem_slashes_append hslash h) rest
    rw [hfront]
    exact cutAuthority_slashes_append ha fun c hc => hrest c (mem_head?_of_before hc)
  · have hprefix : ¬ ['/', '/'] <+: before mark s := fun hfront => hslashes (hfront.trans (List.takeWhile_prefix _))
    rw [cutAuthority_of_no_slashes hprefix, hcut]

theorem after_cutAuthority {mark : Char} (hslash : mark ≠ '/') (h : mark ∉ (cutAuthority s).1) :
    after mark (cutAuthority s).2 = after mark s := by
  obtain ⟨a, rest, rfl, -, -, hcut⟩ | ⟨-, hcut⟩ := cutAuthority_cases s
  · rw [hcut] at h ⊢
    exact (after_append_of_notMem (notMem_slashes_append hslash h) rest).symm
  · rw [hcut]

/-- Cutting a text at its first question mark leaves all of its address but the
    query. -/
theorem readPlain_before_question (s : Text) : readPlain (before '?' s) = { readPlain s with query := [] } := by
  have hcut : Scheme.cut (before '?' s) = _ := Scheme.cut_before (by decide) (by decide) s
  have hhost : cutAuthority (before '?' (Scheme.cut s).2) = _ :=
    cutAuthority_before (by decide) (question_notMem_cutAuthority _)
  have htwice (r : Text) : before '?' (before '?' r) = before '?' r := before_of_notMem (notMem_before '?' r)
  have hnone (r : Text) : after '?' (before '?' r) = [] := after_of_notMem (notMem_before '?' r)
  simp only [readPlain, hcut, hhost, htwice, hnone]

/-- The query of a text stands behind its first question mark: neither scheme
    nor host holds one. -/
theorem query_readPlain (s : Text) : (readPlain s).query = after '?' s := by
  change after '?' (cutAuthority (Scheme.cut s).2).2 = after '?' s
  rw [after_cutAuthority (by decide) (question_notMem_cutAuthority _), Scheme.after_cut (by decide) (by decide)]

end Locator.Url
