import Locator.Proofs.Url.RoundTrip

namespace Locator.Url

open Text

/-- What is left of an address when all behind its first hash is dropped. -/
def beforeHash (u : Url) : Url :=
  if '#' ∈ u.authority then { u with authority := before '#' u.authority, path := [], query := [] }
  else if '#' ∈ u.path then { u with path := before '#' u.path, query := [] }
  else { u with query := before '#' u.query }

variable {u : Url} {s : Text}

theorem beforeHash_of_authority (h : '#' ∈ u.authority) :
    u.beforeHash = { u with authority := before '#' u.authority, path := [], query := [] } :=
  if_pos h

theorem beforeHash_of_path (hauth : '#' ∉ u.authority) (h : '#' ∈ u.path) :
    u.beforeHash = { u with path := before '#' u.path, query := [] } := by
  rw [beforeHash, if_neg hauth, if_pos h]

theorem beforeHash_of_notMem (hauth : '#' ∉ u.authority) (hpath : '#' ∉ u.path) :
    u.beforeHash = { u with query := before '#' u.query } := by
  rw [beforeHash, if_neg hauth, if_neg hpath]

theorem beforeHash_scheme (u : Url) : u.beforeHash.scheme = u.scheme := by
  unfold beforeHash
  split
  · rfl
  · split <;> rfl

theorem beforeHash_authority (u : Url) : u.beforeHash.authority = before '#' u.authority := by
  unfold beforeHash
  split
  · rfl
  · next hauth =>
    rw [before_of_notMem hauth]
    split <;> rfl

theorem beforeHash_path (hauth : '#' ∉ u.authority) : u.beforeHash.path = before '#' u.path := by
  by_cases hpath : '#' ∈ u.path
  · rw [beforeHash_of_path hauth hpath]
  · rw [beforeHash_of_notMem hauth hpath, before_of_notMem hpath]

theorem rooted_of_rooted_beforeHash (h : Path.rooted u.beforeHash.path = true) : Path.rooted u.path = true := by
  unfold beforeHash at h
  split at h
  · simp [Path.rooted] at h
  · split at h
    · rwa [rooted_before (by decide)] at h
    · exact h

theorem absolute_of_absolute_beforeHash (h : u.beforeHash.absolute = true) : u.absolute = true := by
  simp only [absolute, recognized, beforeHash_scheme, beforeHash_authority, Bool.or_eq_true,
    decide_eq_true_eq] at h ⊢
  obtain (hscheme | hauth) | hpath := h
  · exact Or.inl (Or.inl hscheme)
  · refine Or.inl (Or.inr fun hnone => hauth ?_)
    rw [hnone]
    rfl
  · exact Or.inr (rooted_of_rooted_beforeHash hpath)

/-- What stands in front of the first hash of an absolute address is absolute as
    well, unless that hash opens the host: then only the scheme is left. -/
theorem absolute_beforeHash_or (h : u.absolute = true) :
    u.beforeHash.absolute = true ∨ u.beforeHash = { u with authority := [], path := [], query := [] } := by
  by_cases hauth : '#' ∈ u.authority
  · rw [beforeHash_of_authority hauth]
    by_cases hnone : before '#' u.authority = []
    · rw [hnone]
      exact Or.inr rfl
    · exact Or.inl (absolute_of_host hnone)
  · have hpath : Path.rooted u.beforeHash.path = Path.rooted u.path := by
      rw [beforeHash_path hauth, rooted_before (by decide)]
    have hsame : u.beforeHash.absolute = u.absolute := by
      simp only [absolute, recognized, beforeHash_scheme, beforeHash_authority, before_of_notMem hauth, hpath]
    rw [hsame]
    exact Or.inl h

theorem cutAuthority_before_hash (s : Text) :
    cutAuthority (before '#' s) =
      (before '#' (cutAuthority s).1, if '#' ∈ (cutAuthority s).1 then [] else before '#' (cutAuthority s).2) := by
  by_cases hmem : '#' ∈ (cutAuthority s).1
  · rw [if_pos hmem]
    obtain ⟨a, rest, rfl, ha, -, hcut⟩ | ⟨-, hcut⟩ := cutAuthority_cases s
    · rw [hcut] at hmem ⊢
      have hfront : before '#' ('/' :: '/' :: (a ++ rest)) = '/' :: '/' :: before '#' (a ++ rest) := by simp [before]
      have hkept : ∀ c ∈ before '#' a, inAuthority c = true := fun c hc => ha c (mem_of_mem_before hc)
      have hend : ∀ c ∈ List.head? ([] : Text), inAuthority c = false := by simp
      have hwhole := cutAuthority_slashes_append hkept hend
      rw [List.append_nil] at hwhole
      rw [hfront, before_append_of_mem hmem, hwhole]
    · rw [hcut] at hmem
      exact absurd hmem List.not_mem_nil
  · rw [cutAuthority_before (by decide) hmem, before_of_notMem hmem, if_neg hmem]

/-- Cutting a text at its first hash cuts the address that is read from it. -/
theorem readPlain_before_hash (s : Text) : readPlain (before '#' s) = (readPlain s).beforeHash := by
  have hcut : Scheme.cut (before '#' s) = _ := Scheme.cut_before (by decide) (by decide) s
  have hauth := cutAuthority_before_hash (Scheme.cut s).2
  by_cases hhost : '#' ∈ (cutAuthority (Scheme.cut s).2).1
  · rw [if_pos hhost] at hauth
    rw [beforeHash_of_authority hhost]
    simp only [readPlain, hcut, hauth]
    rfl
  · have hquery := after_before (show '?' ≠ '#' by decide) (cutAuthority (Scheme.cut s).2).2
    rw [if_neg hhost, before_of_notMem hhost] at hauth
    by_cases hpath : '#' ∈ before '?' (cutAuthority (Scheme.cut s).2).2
    · rw [if_pos hpath] at hquery
      rw [beforeHash_of_path hhost hpath]
      simp only [readPlain, hcut, hauth, hquery, before_before '?' '#']
    · rw [if_neg hpath] at hquery
      rw [beforeHash_of_notMem hhost hpath]
      simp only [readPlain, hcut, hauth, hquery, before_before '?' '#', before_of_notMem hpath]

/-- The two readings of a text differ in what stands behind its first hash. -/
theorem read_eq_beforeHash (s : Text) : read s = { (readPlain s).beforeHash with fragment := after '#' s } := by
  rw [read, readPlain_before_hash]

theorem read_scheme (s : Text) : (read s).scheme = (readPlain s).scheme := by
  rw [read_eq_beforeHash]
  exact beforeHash_scheme _

theorem read_authority (s : Text) : (read s).authority = before '#' (readPlain s).authority := by
  rw [read_eq_beforeHash]
  exact beforeHash_authority _

theorem absolute_readPlain (h : (read s).absolute = true) : (readPlain s).absolute = true := by
  apply absolute_of_absolute_beforeHash
  rwa [read_eq_beforeHash] at h

/-- Text that was read plainly, written and read again differs from the text
    read at once in the fragment only. -/
theorem read_write_readPlain (s : Text) :
    read (readPlain s).write = { read s with fragment := (read (readPlain s).write).fragment } := by
  rw [read_eq_beforeHash (readPlain s).write, readPlain_write_readPlain, read_eq_beforeHash s]

end Locator.Url
