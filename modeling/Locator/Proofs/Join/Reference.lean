import Locator.Proofs.Join.Absolute
import Locator.Proofs.Join.Relative
import Locator.Proofs.Path.Buffers

namespace Locator.Join

open Text

variable {base reference : Text}

/-- A link is followed from the segments of a path in front of its last one, when
    none of them is empty. -/
theorem baseNames_follow {path : Text} (h : path = [] ∨ Path.rooted path = true)
    (hpath : [] ∉ (path.splitOn '/').tail.dropLast) :
    baseNames .follow path = (path.splitOn '/').tail.dropLast := by
  obtain rfl | hrooted := h
  · rfl
  · obtain ⟨front, final, hsplit, hslash, htext⟩ := Path.exists_final hrooted
    have hends : path.getLast? = ('/' :: final).getLast? := by
      rw [htext, List.getLast?_append_of_ne_nil _ (List.cons_ne_nil _ _)]
    rw [hsplit, List.tail_cons, List.dropLast_concat] at hpath
    have hfront : front.filter (· ≠ []) = front := by
      rw [List.filter_eq_self]
      exact fun name hname => decide_eq_true fun hnone => hpath (hnone ▸ hname)
    have hnames : Path.names path = front ++ [final].filter (· ≠ []) := by
      rw [Path.names, hsplit, List.filter_cons_of_neg (by simp), List.filter_append, hfront]
    rw [hsplit, List.tail_cons, List.dropLast_concat, baseNames, hends, hnames]
    cases final with
    | nil => simp
    | cons c r =>
      have hlast : ((c :: r).getLast (List.cons_ne_nil c r)) ≠ '/' := fun e => hslash (e ▸ List.getLast_mem _)
      simp [List.getLast?_eq_some_getLast, hlast]

theorem names_of_segments (hsegments : [] ∉ reference.splitOn '/') :
    Path.names reference = reference.splitOn '/' := by
  rw [Path.names, List.filter_eq_self]
  exact fun name hname => decide_eq_true fun hnone => hsegments (hnone ▸ hname)

/-- Following a link leaves the segments of the base but the last, and those of
    the link. -/
theorem joinedNames_follow {base : Url} (hscheme : base.scheme ≠ Scheme.bucket) (habsolute : base.absolute = true)
    (hrooted : base.path = [] ∨ Path.rooted base.path = true) (hpath : [] ∉ (base.path.splitOn '/').tail.dropLast)
    (hsegments : [] ∉ reference.splitOn '/') :
    joinedNames .follow base [reference] =
      Path.removeDots true ((base.path.splitOn '/').tail.dropLast ++ reference.splitOn '/') := by
  have hbucket : bucketNames base = [] := by simp [bucketNames, hscheme]
  rw [joinedNames, habsolute, hbucket, baseNames_follow hrooted hpath, List.nil_append, List.flatMap_cons,
    List.flatMap_nil, List.append_nil, names_of_segments hsegments]

theorem exists_last_segment (hsegments : [] ∉ reference.splitOn '/')
    (hlast : Path.lastPiece reference ∉ [['.'], ['.', '.']]) :
    ∃ front last, reference.splitOn '/' = front ++ [last] ∧ Path.Plain last ∧ '/' ∉ last := by
  obtain ⟨front, last, hsplit⟩ :=
    (List.eq_nil_or_concat (reference.splitOn '/')).resolve_left (List.splitOn_ne_nil '/' reference)
  rw [List.concat_eq_append] at hsplit
  have hmem : last ∈ reference.splitOn '/' := by simp [hsplit]
  have hslash := Path.slash_notMem_of_mem_splitOn hmem
  rw [Path.lastPiece, hsplit, List.getLastD_concat] at hlast
  have hplain : Path.Plain last := by
    rw [Path.plain_iff_of_slash_notMem hslash, List.mem_cons, not_or]
    exact ⟨fun hnone => hsegments (hnone ▸ hmem), hlast⟩
  exact ⟨front, last, hsplit, hplain, hslash⟩

/-- Pieces between the slashes of a path are names, when none of them is empty. -/
theorem areNames_of_pieces {path : Text} {pieces : List Text} (hpieces : pieces ⊆ path.splitOn '/')
    (hne : [] ∉ pieces) : Path.AreNames pieces :=
  fun _ hname => ⟨fun hnone => hne (hnone ▸ hname), Path.slash_notMem_of_mem_splitOn (hpieces hname)⟩

/-- Of a base path and a reference behind it, the two buffers leave what following
    their segments leaves. -/
theorem withoutDotSegments_merge {path : Text} (hrooted : path = [] ∨ Path.rooted path = true)
    (hpath : [] ∉ (path.splitOn '/').tail.dropLast) (hsegments : [] ∉ reference.splitOn '/')
    (hlast : Path.lastPiece reference ∉ [['.'], ['.', '.']]) :
    Path.withoutDotSegments (Path.merge path reference) =
      '/' :: Path.slashed (Path.removeDots true ((path.splitOn '/').tail.dropLast ++ reference.splitOn '/')) := by
  obtain ⟨front, last, hsplit, hplain⟩ := exists_last_segment hsegments hlast
  have hfront : [] ∉ front := fun hnone => hsegments (hsplit ▸ List.mem_append_left _ hnone)
  have hinner : Path.AreNames ((path.splitOn '/').tail.dropLast ++ front) := List.forall_mem_append.2
    ⟨areNames_of_pieces (fun _ hmem => List.mem_of_mem_tail (List.dropLast_subset _ hmem)) hpath,
      areNames_of_pieces (fun _ hmem => hsplit ▸ List.mem_append_left _ hmem) hfront⟩
  rw [Path.merge_eq_below hrooted, hsplit, ← List.append_assoc, Path.withoutDotSegments_below hinner hplain,
    Path.below_eq_cons_slashed]
  rw [Path.removeDots_concat hplain.1]
  exact List.append_ne_nil_of_right_ne_nil _ (List.cons_ne_nil last [])

/-- A text that begins with a name and has no colon in it is relative. -/
theorem relative_of_segments (hsegments : [] ∉ reference.splitOn '/') (hcolon : ':' ∉ before '/' reference) :
    (Url.readPlain reference).absolute = false := by
  have hcut : Scheme.cut reference = ([], reference) := by
    obtain ⟨name, rest, hname, rfl, -⟩ | hcut := Scheme.cut_cases reference
    · rw [before_append_of_notMem (Scheme.notMem_of_isName hname (by decide))] at hcolon
      simp [before] at hcolon
    · exact hcut
  have hhead : reference.head? ≠ some '/' := by
    intro hslash
    obtain ⟨r, rfl⟩ := List.head?_eq_some_iff.1 hslash
    simp [List.splitOn_cons_eq_if_modifyHead] at hsegments
  rw [absolute_readPlain_of_cut hcut (not_slashes_of_head? hhead), Path.rooted_eq_false hhead]
  rfl

theorem query_read_of_notMem (hquestion : '?' ∉ base) (hhash : '#' ∉ base) : (Url.read base).query = [] := by
  rw [Url.read_of_hash_notMem hhash, Url.query_readPlain_of_notMem hquestion]

/-- The text of an address with a recognized scheme, a host and a rooted path. -/
theorem write_of_host {u : Url} (hrecognized : u.recognized = true) (hauth : u.authority ≠ [])
    (hpath : Path.rooted u.path = true) (hquery : u.query = []) (hfragment : u.fragment = []) :
    u.write = u.scheme ++ "://".toList ++ u.authority ++ u.path := by
  have hscheme : u.scheme ≠ [] := Url.scheme_ne_nil_of_recognized hrecognized
  simp [Url.write, Url.schemeMark, Url.slashes, Url.gap, hscheme, hauth, hpath, hquery, hfragment, marked]

/-- A reference that does not end in a dot segment is followed as the standard of
    such references has it: its path is put behind that of the base, and the dot
    segments are removed by way of two buffers. -/
theorem join_follow_eq_withoutDotSegments (place : Place)
    (hbase : '?' ∉ base ∧ '#' ∉ base ∧ '\\' ∉ base)
    (hrecognized : (Url.read base).recognized = true) (hscheme : (Url.read base).scheme ≠ Scheme.bucket)
    (hauth : (Url.read base).authority ≠ []) (hpath : [] ∉ ((Url.read base).path.splitOn '/').tail.dropLast)
    (hreference : '?' ∉ reference ∧ '#' ∉ reference ∧ '\\' ∉ reference)
    (hsegments : [] ∉ reference.splitOn '/') (hcolon : ':' ∉ before '/' reference)
    (hlast : Path.lastPiece reference ∉ [['.'], ['.', '.']]) :
    join place .follow base [reference] =
      (Url.read base).scheme ++ "://".toList ++ (Url.read base).authority ++
        Path.withoutDotSegments (Path.merge (Url.read base).path reference) := by
  have hforward : forward base = base := forward_of_notMem hbase.2.2
  have hcomponents : [reference].map forward = [reference] := by simp [forward_of_notMem hreference.2.2]
  have habsolute : (Url.read base).absolute = true := by simp [Url.absolute, hrecognized]
  have hrelative : ∀ component ∈ [reference], anchor? [forward component] = none := by
    simpa [forward_of_notMem hreference.2.2, anchor?_singleton_eq_none_iff] using
      relative_of_segments hsegments hcolon
  have hrooted := (Url.wellFormed_read base).rooted hauth
  have hnames := joinedNames_follow hscheme habsolute hrooted hpath hsegments
  have hjoin := join_of_absolute place .follow (by rwa [hforward]) (List.cons_ne_nil reference []) hrelative
  rw [hjoin, hforward, hcomponents, onto_of_absolute hscheme habsolute, hnames,
    withoutDotSegments_merge hrooted hpath hsegments hlast]
  exact write_of_host hrecognized hauth rfl (query_read_of_notMem hbase.1 hbase.2.1) rfl

/-- A reference that climbs above the root of the host, from a document whose own
    path has a dot segment. -/
theorem join_follow_of_climbing :
    ':' ∉ before '/' "../../../x/./y:z/../w".toList ∧
      join (Place.make .posix ['/']) .follow "HTTPS://h/a/./b/c".toList ["../../../x/./y:z/../w".toList] =
        (Url.read "HTTPS://h/a/./b/c".toList).scheme ++ "://".toList ++
          (Url.read "HTTPS://h/a/./b/c".toList).authority ++
            Path.withoutDotSegments
              (Path.merge (Url.read "HTTPS://h/a/./b/c".toList).path "../../../x/./y:z/../w".toList) :=
  ⟨by decide, join_follow_eq_withoutDotSegments (Place.make .posix ['/']) (by decide) (by decide) (by decide)
    (by decide) (by decide) (by decide) (by decide) (by decide) (by decide)⟩

end Locator.Join
