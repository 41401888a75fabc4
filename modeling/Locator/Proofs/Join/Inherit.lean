import Locator.Proofs.Join.Donor

namespace Locator.Join

open Text

variable {donor : Url} {rooted r : Text}

/-- A rooted text with what it takes over from a donor written in front: the
    scheme, and the host as well when it has none. Under the scheme of buckets
    its own first name is the host. -/
def prefixed (donor : Url) (rooted : Text) : Text :=
  if "//".toList <+: rooted then donor.scheme ++ ':' :: rooted
  else if donor.scheme = Scheme.bucket then "s3://".toList ++ rooted.tail
  else donor.scheme ++ "://".toList ++ donor.authority ++ rooted

/-- Behind a host the text is read as it would be alone. -/
theorem readPlain_host_append (h : donor.Headed) (hscheme : Scheme.IsLowerName donor.scheme)
    (hsingle : ¬ ['/', '/'] <+: '/' :: r) :
    Url.readPlain (donor.scheme ++ "://".toList ++ donor.authority ++ '/' :: r) =
      { Url.readPlain ('/' :: r) with scheme := donor.scheme, authority := donor.authority } := by
  have htext : donor.scheme ++ "://".toList ++ donor.authority ++ '/' :: r =
      donor.scheme ++ ':' :: '/' :: '/' :: (donor.authority ++ '/' :: r) := by simp
  have hcut : Url.cutAuthority ('/' :: '/' :: (donor.authority ++ '/' :: r)) = (donor.authority, '/' :: r) := by
    apply Url.cutAuthority_slashes_append fun c hc => h.inAuthority_of_mem hc
    rintro c ⟨⟩
    decide
  rw [htext, Url.readPlain_scheme_append hscheme]
  simp only [Url.readPlain, Scheme.cut_slash, hcut, Url.cutAuthority_of_no_slashes hsingle]

/-- What a rooted address takes over may as well be written in front of it. -/
theorem readPlain_prefixed (h : donor.Headed) (hrecognized : donor.recognized = true)
    (hrooted : Path.rooted rooted = true)
    (hhost : "//".toList <+: rooted → (Url.readPlain rooted).authority ≠ []) :
    Url.readPlain (prefixed donor rooted) = inherit (Url.readPlain rooted) donor := by
  have hscheme := h.isLowerName_of_recognized hrecognized
  obtain ⟨r, rfl⟩ := Path.exists_of_rooted hrooted
  unfold prefixed
  by_cases hslashes : "//".toList <+: '/' :: r
  · rw [if_pos hslashes, Url.readPlain_scheme_append hscheme, inherit, if_pos (hhost hslashes)]
  · have hread := Url.readPlain_of_single_slash hslashes
    have hnone : ¬ (Url.readPlain ('/' :: r)).authority ≠ [] := by simp [hread]
    rw [if_neg hslashes, inherit, if_neg hnone]
    by_cases hbucket : donor.scheme = Scheme.bucket
    · rw [hbucket] at hscheme
      have hfront : ('/' :: before '?' r).dropWhile (· == '/') = before '?' r := by
        have hhead : (before '?' r).head? ≠ some '/' := by
          intro hhead
          obtain ⟨t, ht⟩ := List.head?_eq_some_iff.1 (mem_head?_of_before hhead)
          exact hslashes ⟨t, by rw [ht]; rfl⟩
        rw [List.dropWhile_cons_of_pos (by decide)]
        cases hkey : before '?' r with
        | nil => rfl
        | cons c t =>
          rw [hkey] at hhead
          exact List.dropWhile_cons_of_neg (by simpa using hhead)
      have htext : "s3://".toList ++ r = Scheme.bucket ++ ':' :: '/' :: '/' :: r := rfl
      rw [if_pos hbucket, if_pos hbucket, List.tail_cons, htext, Url.readPlain_scheme_append hscheme,
        Url.readPlain_slashes, hread, hbucket]
      simp only [hfront]
    · rw [if_neg hbucket, if_neg hbucket, readPlain_host_append h hscheme hslashes]

theorem backslash_notMem_prefixed (h : donor.Headed) (hrecognized : donor.recognized = true)
    (hauth : '\\' ∉ donor.authority) (hrooted : '\\' ∉ rooted) : '\\' ∉ prefixed donor rooted := by
  have hscheme : '\\' ∉ donor.scheme :=
    Scheme.notMem_of_isName (h.isLowerName_of_recognized hrecognized).isName (by decide)
  unfold prefixed
  split
  · simp [hscheme, hrooted]
  · split
    · have htail : '\\' ∉ rooted.tail := fun hmem => hrooted (List.mem_of_mem_tail hmem)
      simp [htail]
    · simp [hscheme, hauth, hrooted]

/-- Taking over from a donor is the same as having what is taken over written in
    front: the donor, and all between it and the rooted argument, may be left out
    when that argument is prefixed. -/
theorem join_eq_join_prefixed (place : Place) (mode : Mode) {donor winner : Text} {mid post : List Text}
    (hdonor : (Url.readPlain (forward donor)).recognized = true)
    (hmid : ∀ arg ∈ mid, (Url.readPlain (forward arg)).recognized = false)
    (hrooted : Path.rooted (forward winner) = true)
    (hhost : "//".toList <+: forward winner → (Url.readPlain (forward winner)).authority ≠ [])
    (hpost : ∀ arg ∈ post, anchor? [forward arg] = none) :
    join place mode donor (mid ++ winner :: post) =
      join place mode (prefixed (Url.readPlain (forward donor)) (forward winner)) post := by
  have hheaded := Url.headed_readPlain (forward donor)
  have hscheme : (Url.readPlain (forward winner)).recognized = false := by
    obtain ⟨r, hr⟩ := Path.exists_of_rooted hrooted
    simp only [Url.readPlain, Url.recognized, hr, Scheme.cut_slash]
    decide
  have habsolute : (Url.readPlain (forward winner)).absolute = true := by
    by_cases hslashes : "//".toList <+: forward winner
    · simp [Url.absolute, hhost hslashes]
    · obtain ⟨r, hr⟩ := Path.exists_of_rooted hrooted
      rw [hr] at hslashes ⊢
      rw [Url.readPlain_of_single_slash hslashes]
      simp [Url.absolute, Path.rooted]
  have hrelative : ∀ arg ∈ post, (Url.readPlain (forward arg)).absolute = false :=
    List.forall_mem_map.1 (relative_of_anchor?_eq_none hpost)
  have hback : forward (prefixed (Url.readPlain (forward donor)) (forward winner)) =
      prefixed (Url.readPlain (forward donor)) (forward winner) := by
    apply forward_of_notMem
    apply backslash_notMem_prefixed hheaded hdonor
    · exact fun hmem => backslash_notMem_forward donor (Url.mem_of_mem_readPlain (Or.inl hmem))
    · exact backslash_notMem_forward winner
  have hread := readPlain_prefixed hheaded hdonor hrooted hhost
  have hrecognized : (inherit (Url.readPlain (forward winner)) (Url.readPlain (forward donor))).recognized = true := by
    unfold inherit
    split
    · exact hdonor
    · split <;> exact hdonor
  calc join place mode donor (mid ++ winner :: post)
      = joinAll place mode ([] ++ donor :: mid ++ winner :: post) := rfl
    _ = finish place mode (inherit (Url.readPlain (forward winner)) (Url.readPlain (forward donor)))
          (post.map forward) := joinAll_donor_append place mode hdonor hmid habsolute hscheme hrelative []
    _ = joinAll place mode ([] ++ prefixed (Url.readPlain (forward donor)) (forward winner) :: post) := by
      rw [joinAll_front_append place mode (by rw [hback, hread]; exact hrecognized) hrelative, hback, hread]
    _ = join place mode (prefixed (Url.readPlain (forward donor)) (forward winner)) post := rfl

/-- Under the scheme of buckets the rooted argument names its own bucket, and
    the host before it is not a donor. -/
theorem join_eq_join_prefixed_of_bucket :
    prefixed (Url.readPlain (forward "S3://b/k".toList)) (forward "\\c/d?e#f".toList) = "s3://c/d?e#f".toList ∧
      join (Place.make .posix ['/']) .append "S3://b/k".toList
          (["//h/x".toList, "y:z".toList] ++ "\\c/d?e#f".toList :: ["..\\g".toList]) =
        join (Place.make .posix ['/']) .append
          (prefixed (Url.readPlain (forward "S3://b/k".toList)) (forward "\\c/d?e#f".toList)) ["..\\g".toList] ∧
      join (Place.make .posix ['/']) .append "s3://c/d?e#f".toList ["..\\g".toList] = "s3://c/g?e".toList :=
  ⟨by decide, join_eq_join_prefixed (Place.make .posix ['/']) .append (by decide) (by decide) (by decide) (by decide)
    (by decide), by decide⟩

end Locator.Join
