import Locator.Proofs.Url.Reading

namespace Locator.Url

open Text

/-- Each part of an address ends where the next begins: no part holds a mark
    that the reader would cut it at, a path behind a host is rooted or absent,
    and a path with nothing in front begins with no scheme of its own. -/
structure WellFormed (u : Url) : Prop extends Headed u where
  authority_hash : '#' ∉ u.authority
  path : '?' ∉ u.path ∧ '#' ∉ u.path
  query : '#' ∉ u.query

variable {u : Url}

theorem mem_of_mem_cut_snd {s : Text} {c : Char} (h : c ∈ (Scheme.cut s).2) : c ∈ s := by
  obtain ⟨name, rest, -, rfl, hcut⟩ | hcut := Scheme.cut_cases s
  · rw [hcut] at h
    simp [h]
  · rwa [hcut] at h

theorem mem_of_mem_cutAuthority {s : Text} {c : Char}
    (h : c ∈ (cutAuthority s).1 ∨ c ∈ (cutAuthority s).2) : c ∈ s := by
  obtain ⟨a, rest, rfl, -, -, hcut⟩ | ⟨-, hcut⟩ := cutAuthority_cases s
  · rw [hcut] at h
    simp only [List.mem_cons, List.mem_append]
    exact Or.inr (Or.inr h)
  · simpa [hcut] using h

/-- The plain reading takes every part behind the scheme from the text. -/
theorem mem_of_mem_readPlain {s : Text} {c : Char}
    (h : c ∈ (readPlain s).authority ∨ c ∈ (readPlain s).path ∨ c ∈ (readPlain s).query) : c ∈ s := by
  refine mem_of_mem_cut_snd (mem_of_mem_cutAuthority ?_)
  obtain h | h | h := h
  · exact Or.inl h
  · exact Or.inr (mem_of_mem_before h)
  · exact Or.inr (mem_of_mem_after h)

theorem mem_of_mem_read {s : Text} {c : Char}
    (h : c ∈ (read s).authority ∨ c ∈ (read s).path ∨ c ∈ (read s).query) : c ∈ s :=
  mem_of_mem_before (mem_of_mem_readPlain h)

theorem notMem_readPlain {s : Text} {c : Char} (h : c ∉ s) :
    c ∉ (readPlain s).authority ∧ c ∉ (readPlain s).path ∧ c ∉ (readPlain s).query := by
  simpa only [not_or] using mt mem_of_mem_readPlain h

theorem notMem_read {s : Text} {c : Char} (h : c ∉ s) :
    c ∉ (read s).authority ∧ c ∉ (read s).path ∧ c ∉ (read s).query := by
  simpa only [not_or] using mt mem_of_mem_read h

theorem query_readPlain_of_notMem {s : Text} (h : '?' ∉ s) : (readPlain s).query = [] :=
  (query_readPlain s).trans (after_of_notMem h)

/-- A relative text without a scheme and a query is its own path. Only two bare
    slashes, which open a host and name none, are not. -/
theorem path_of_relative {s : Text} (habsolute : (readPlain s).absolute = false) (hscheme : (readPlain s).scheme = [])
    (hquestion : '?' ∉ s) : s = "//".toList ∨ (readPlain s).path = s ∧ Path.rooted s = false := by
  have hcut : Scheme.cut s = ([], s) := Scheme.cut_eq_of_fst hscheme
  obtain ⟨-, hauth, hrooted⟩ := absolute_eq_false_iff.1 habsolute
  obtain ⟨a, rest, htext, -, hrest, hhost⟩ | ⟨-, hhost⟩ := cutAuthority_cases s
  · simp only [readPlain, hcut, hhost] at hauth hrooted
    have hnone := (path_of_host_end hrest).resolve_right (by simp [hrooted])
    have hwhole : '?' ∉ rest := fun hmem => hquestion (by rw [htext]; simp [hmem])
    rw [before_of_notMem hwhole] at hnone
    rw [hauth, hnone] at htext
    exact Or.inl htext
  · have hpath : (readPlain s).path = s := by simp only [readPlain, hcut, hhost, before_of_notMem hquestion]
    rw [hpath] at hrooted
    exact Or.inr ⟨hpath, hrooted⟩

theorem Headed.withFragment (h : u.Headed) (fragment : Text) : Headed { u with fragment } :=
  ⟨h.scheme, h.authority, h.rooted, h.schemeless⟩

theorem WellFormed.withFragment (h : u.WellFormed) (fragment : Text) : WellFormed { u with fragment } :=
  ⟨h.toHeaded.withFragment fragment, h.authority_hash, h.path, h.query⟩

theorem WellFormed.withoutQuery (h : u.WellFormed) : WellFormed { u with query := [], fragment := [] } :=
  ⟨⟨h.scheme, h.authority, h.rooted, h.schemeless⟩, h.authority_hash, h.path, List.not_mem_nil⟩

theorem wellFormed_read (s : Text) : (read s).WellFormed := by
  have hplain {c : Char} (hc : c ∈ (readPlain (before '#' s)).authority ∨ c ∈ (readPlain (before '#' s)).path ∨
      c ∈ (readPlain (before '#' s)).query) : c ≠ '#' := by
    rintro rfl
    exact notMem_before '#' s (mem_of_mem_readPlain hc)
  refine ⟨(headed_readPlain _).withFragment _, ?_, ⟨question_notMem_readPlain _, ?_⟩, ?_⟩
  · exact fun hc => hplain (Or.inl hc) rfl
  · exact fun hc => hplain (Or.inr (Or.inl hc)) rfl
  · exact fun hc => hplain (Or.inr (Or.inr hc)) rfl

/-- A fragment stands behind all else in the text of an address. -/
theorem write_eq_append_marked (u : Url) : u.write = write { u with fragment := [] } ++ marked '#' u.fragment := by
  have hnone : marked '#' [] = [] := rfl
  simp only [write, hnone, List.append_nil]
  rfl

/-- In front of the fragment stands the query. -/
theorem write_eq_append_query (h : u.fragment = []) :
    u.write = write { u with query := [] } ++ marked '?' u.query := by
  have hnone (mark : Char) : marked mark [] = [] := rfl
  simp only [write, h, hnone, List.append_nil]
  rfl

theorem notMem_schemeMark {c : Char} (htail : Scheme.isTail c = false) (hcolon : c ≠ ':')
    (h : u.scheme = [] ∨ Scheme.IsLowerName u.scheme) : c ∉ u.schemeMark := by
  unfold schemeMark
  split
  · exact List.not_mem_nil
  · next hscheme =>
    have hname := (h.resolve_left hscheme).isName
    simpa [hcolon] using Scheme.notMem_of_isName hname htail

theorem notMem_slashes {c : Char} (hc : c ≠ '/') (u : Url) : c ∉ u.slashes := by
  unfold slashes
  split
  · simpa using hc
  · split
    · simpa using hc
    · exact List.not_mem_nil

/-- A text without a fragment holds no character but those of its parts and the
    marks between them. -/
theorem Headed.notMem_write (h : u.Headed) (hfragment : u.fragment = []) {c : Char}
    (htail : Scheme.isTail c = false) (hmark : c ∉ [':', '/']) (hauth : c ∉ u.authority)
    (hpath : c ∉ u.path) (hquery : c ∉ marked '?' u.query) : c ∉ u.write := by
  simp only [List.mem_cons, List.not_mem_nil, or_false, not_or] at hmark
  obtain ⟨hcolon, hslash⟩ := hmark
  simp only [write, hfragment, h.gap, List.mem_append, not_or]
  exact ⟨⟨⟨⟨⟨⟨notMem_schemeMark htail hcolon h.scheme, notMem_slashes hslash u⟩, hauth⟩, List.not_mem_nil⟩,
    hpath⟩, hquery⟩, List.not_mem_nil⟩

theorem Headed.forward_write (h : u.Headed) (hfragment : u.fragment = [])
    (hback : '\\' ∉ u.authority ∧ '\\' ∉ u.path ∧ '\\' ∉ u.query) : forward u.write = u.write :=
  forward_of_notMem (h.notMem_write hfragment (by decide) (by decide) hback.1 hback.2.1
    (notMem_marked (by decide) hback.2.2))

theorem WellFormed.hash_notMem_write (h : u.WellFormed) (hfragment : u.fragment = []) : '#' ∉ u.write :=
  h.notMem_write hfragment (by decide) (by decide) h.authority_hash h.path.2 (notMem_marked (by decide) h.query)

theorem WellFormed.question_notMem_write (h : u.WellFormed) (hquery : u.query = []) (hfragment : u.fragment = []) :
    '?' ∉ u.write := by
  apply h.notMem_write hfragment (by decide) (by decide) h.authority.2 h.path.1
  rw [hquery]
  exact List.not_mem_nil

theorem WellFormed.read_write (h : u.WellFormed) : read u.write = u := by
  have hhash : '#' ∉ write { u with fragment := [] } := (h.withFragment []).hash_notMem_write rfl
  rw [write_eq_append_marked, read, before_append_marked hhash, after_append_marked hhash,
    (h.toHeaded.withFragment []).readPlain_write_eq rfl h.path.1]

/-- An address reads back from its text exactly when it is well formed. Every
    text is read as a well formed address, so that reading, writing and reading
    once more ends where the first reading did. -/
theorem read_write_eq_iff_wellFormed :
    (∀ u : Url, read u.write = u ↔ u.WellFormed) ∧ (∀ s : Text, (read s).WellFormed) ∧
      ∀ s : Text, read (read s).write = read s := by
  refine ⟨fun u => ⟨fun h => ?_, fun h => h.read_write⟩, wellFormed_read, fun s => (wellFormed_read s).read_write⟩
  rw [← h]
  exact wellFormed_read u.write

example : read (write ⟨[], [], "http:x".toList, [], []⟩) = ⟨"http".toList, [], ['x'], [], []⟩ := by decide

end Locator.Url
