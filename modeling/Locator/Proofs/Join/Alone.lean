import Locator.Proofs.Join.Onto
import Locator.Proofs.Local.RoundTrip

namespace Locator.Join

open Text

variable {place : Place} {u : Url} {s x : Text}

/-- The path of the address of a file: a host is folded into it. -/
def foldedPath (place : Place) (u : Url) : Text :=
  if u.authority = [] then u.path else place.fullPath (u.authority ++ u.path)

theorem notMem_foldedPath {c : Char} (hc : c ≠ '/') (hcwd : c ∉ place.cwd) (hauth : c ∉ u.authority)
    (hpath : c ∉ u.path) : c ∉ foldedPath place u := by
  unfold foldedPath
  split
  · exact hpath
  · exact Place.notMem_fullPath hc hcwd (by simp [hauth, hpath])

/-- The address that an absolute argument is written as when nothing goes onto
    it. -/
def lone (place : Place) (u : Url) : Url :=
  if u.scheme = [] ∨ u.scheme = Scheme.file then
    { u with scheme := Scheme.file, authority := [], path := foldedPath place u }
  else { Url.read u.write with fragment := [] }

theorem alone_eq_write (place : Place) (u : Url) : alone place u = (lone place u).write := by
  unfold alone lone foldedPath
  split
  · by_cases hauth : u.authority = []
    · rw [if_neg (not_not.2 hauth), if_pos hauth, ← hauth]
    · rw [if_pos hauth, if_neg hauth]
  · rfl

theorem lone_of_local (h : u.scheme = [] ∨ u.scheme = Scheme.file) :
    lone place u = { u with scheme := Scheme.file, authority := [], path := foldedPath place u } :=
  if_pos h

theorem lone_of_file (hscheme : u.scheme = Scheme.file) (hauth : u.authority = []) : lone place u = u := by
  rw [lone_of_local (Or.inr hscheme), foldedPath, if_pos hauth, ← hscheme, ← hauth]

/-- Under another scheme it is the address that the text is read as, without the
    fragment. -/
theorem lone_of_remote (h : ¬ ((Url.readPlain s).scheme = [] ∨ (Url.readPlain s).scheme = Scheme.file)) :
    lone place (Url.readPlain s) = { Url.read s with fragment := [] } := by
  rw [lone, if_neg h, Url.read_write_readPlain]

/-- Such an address reads back when a hash is a character like any other. -/
theorem readPlain_write_lone (hcwd : '?' ∉ place.cwd) (s : Text) :
    Url.readPlain (lone place (Url.readPlain s)).write = lone place (Url.readPlain s) := by
  by_cases hlocal : (Url.readPlain s).scheme = [] ∨ (Url.readPlain s).scheme = Scheme.file
  · have hpath : '?' ∉ foldedPath place (Url.readPlain s) :=
      notMem_foldedPath (by decide) hcwd (Url.headed_readPlain s).authority.2 (Url.question_notMem_readPlain s)
    rw [lone_of_local hlocal]
    exact (FileUrl.headed_file _ _).readPlain_write_eq rfl hpath
  · have hwell := (Url.wellFormed_read s).withFragment []
    rw [lone_of_remote hlocal]
    exact hwell.toHeaded.readPlain_write_eq rfl hwell.path.1

/-- Nothing is left to do for such an address. -/
theorem lone_lone (place : Place) (s : Text) :
    lone place (lone place (Url.readPlain s)) = lone place (Url.readPlain s) := by
  by_cases hlocal : (Url.readPlain s).scheme = [] ∨ (Url.readPlain s).scheme = Scheme.file
  · rw [lone_of_local hlocal]
    exact lone_of_file rfl rfl
  · have hscheme : ¬ ((Url.read s).scheme = [] ∨ (Url.read s).scheme = Scheme.file) := by rwa [Url.read_scheme]
    rw [lone_of_remote hlocal, lone, if_neg hscheme, ((Url.wellFormed_read s).withFragment []).read_write]

/-- Its separators are forward ones already. -/
theorem forward_write_lone (place : Place) (x : Text) :
    forward (lone place (Url.readPlain (forward x))).write = (lone place (Url.readPlain (forward x))).write := by
  by_cases hlocal : (Url.readPlain (forward x)).scheme = [] ∨ (Url.readPlain (forward x)).scheme = Scheme.file
  · obtain ⟨hauth, hpath, hquery⟩ := Url.notMem_readPlain (backslash_notMem_forward x)
    have hfolded : '\\' ∉ foldedPath place (Url.readPlain (forward x)) :=
      notMem_foldedPath (by decide) place.backslash_notMem hauth hpath
    rw [lone_of_local hlocal]
    exact (FileUrl.headed_file _ _).forward_write rfl ⟨List.not_mem_nil, hfolded, hquery⟩
  · have hback := Url.notMem_read (backslash_notMem_forward x)
    rw [lone_of_remote hlocal]
    exact ((Url.wellFormed_read _).withFragment []).toHeaded.forward_write rfl hback

/-- It is absolute like its argument, unless a hash opens the host of that: then
    only a scheme is left. -/
theorem absolute_lone_or (place : Place) (h : (Url.readPlain s).absolute = true) :
    (lone place (Url.readPlain s)).absolute = true ∨
      lone place (Url.readPlain s) = ⟨(Url.readPlain s).scheme, [], [], [], []⟩ := by
  by_cases hlocal : (Url.readPlain s).scheme = [] ∨ (Url.readPlain s).scheme = Scheme.file
  · rw [lone_of_local hlocal]
    exact Or.inl rfl
  · rw [lone_of_remote hlocal, Url.read_eq_beforeHash]
    obtain habsolute | hscheme := Url.absolute_beforeHash_or h
    · exact Or.inl habsolute
    · rw [hscheme]
      exact Or.inr rfl

/-- A mere scheme stays one when nothing is joined onto it. -/
theorem onto_nil_of_scheme (mode : Mode) {scheme : Text} (h : Scheme.recognized scheme = false) :
    onto mode ⟨scheme, [], [], [], []⟩ [] = ⟨scheme, [], [], [], []⟩ := by
  have habsolute : Url.absolute ⟨scheme, [], [], [], []⟩ = false := by
    simp [Url.absolute, Url.recognized, h, Path.rooted]
  have hnames : joinedNames mode ⟨scheme, [], [], [], []⟩ [] = [] := by
    rw [joinedNames, bucketNames, if_neg (by simp)]
    cases mode <;> rfl
  rw [onto_of_relative habsolute, hnames, Path.slashed_nil]

theorem join_write_lone (mode : Mode) (hcwd : '?' ∉ place.cwd)
    (habsolute : (Url.readPlain (forward x)).absolute = true) :
    join place mode (lone place (Url.readPlain (forward x))).write [] =
      (lone place (Url.readPlain (forward x))).write := by
  have hforward := forward_write_lone place x
  have hread := readPlain_write_lone hcwd (forward x)
  cases hlone : (lone place (Url.readPlain (forward x))).absolute with
  | true =>
    have hjoin := join_nil_of_absolute place mode (by rw [hforward, hread]; exact hlone)
    rw [hjoin, hforward, hread, alone_eq_write, lone_lone]
  | false =>
    have hempty := (absolute_lone_or place habsolute).resolve_left (by simp [hlone])
    have hscheme : Scheme.recognized (Url.readPlain (forward x)).scheme = false := by
      rw [hempty] at hlone
      simpa [Url.absolute, Url.recognized, Path.rooted] using hlone
    have hnone : anchor? ([(lone place (Url.readPlain (forward x))).write].map forward) = none := by
      rw [List.map_singleton, hforward, anchor?_singleton_eq_none_iff, hread]
      exact hlone
    rw [join_of_relative place mode hnone, hforward, List.map_nil, onto_read, hread, hempty]
    exact congrArg Url.write (onto_nil_of_scheme mode hscheme)

/-- The two readings of a text agree in all but the fragment once the plain one
    has been written and read again. So an address with a recognized scheme, other
    than that of files, is joined with nothing as it is read, less its fragment. -/
theorem join_nil_eq_write_read (s : Text) :
    { Url.read (Url.readPlain s).write with fragment := (Url.read s).fragment } = Url.read s ∧
      ∀ (place : Place) (mode : Mode), (Url.read s).recognized = true → (Url.read s).scheme ≠ Scheme.file →
        join place mode s [] = Url.write { Url.read (forward s) with fragment := [] } := by
  refine ⟨by rw [Url.read_write_readPlain], fun place mode hrecognized hfile => ?_⟩
  have hscheme : (Url.readPlain (forward s)).scheme = (Url.read s).scheme := by
    rw [Url.scheme_readPlain_forward, Url.read_scheme]
  have hforward : (Url.readPlain (forward s)).recognized = true := by rwa [Url.recognized, hscheme]
  have habsolute : (Url.readPlain (forward s)).absolute = true := by simp [Url.absolute, hforward]
  have hremote : ¬ ((Url.readPlain (forward s)).scheme = [] ∨ (Url.readPlain (forward s)).scheme = Scheme.file) := by
    rw [hscheme]
    rintro (hnone | hlocal)
    · rw [Url.recognized, hnone] at hrecognized
      cases hrecognized
    · exact hfile hlocal
  rw [join_nil_of_absolute place mode habsolute, alone_eq_write, lone_of_remote hremote]

/-- A hash within the host cuts off the path and the query, though it is a part
    of the host for the plain reading. -/
theorem join_nil_of_hash_in_host :
    Url.readPlain (forward "S3:\\\\b#c\\k?v".toList) = ⟨"s3".toList, "b#c".toList, "/k".toList, ['v'], []⟩ ∧
      join (Place.make .posix ['/']) .append "S3:\\\\b#c\\k?v".toList [] =
        Url.write { Url.read (forward "S3:\\\\b#c\\k?v".toList) with fragment := [] } ∧
      join (Place.make .posix ['/']) .append "S3:\\\\b#c\\k?v".toList [] = "s3://b".toList := by
  have hjoin := (join_nil_eq_write_read "S3:\\\\b#c\\k?v".toList).2 (Place.make .posix ['/']) .append (by decide)
    (by decide)
  exact ⟨by decide, hjoin, hjoin.trans (by decide)⟩

/-- Joining an absolute argument with nothing is done once and for all: joined
    with nothing again, the result stays as it is. A local path and the address
    of a file come to be the address of a file without a host. -/
theorem join_join_nil (place : Place) (mode next : Mode) (hcwd : '?' ∉ place.cwd) (h : anchor? [forward x] ≠ none) :
    join place next (join place mode x []) [] = join place mode x [] ∧
      ((Url.readPlain x).scheme = [] ∨ (Url.readPlain x).scheme = Scheme.file →
        (Url.read (join place mode x [])).scheme = Scheme.file ∧ (Url.read (join place mode x [])).authority = []) := by
  have habsolute : (Url.readPlain (forward x)).absolute = true := by
    rwa [ne_eq, anchor?_singleton_eq_none_iff, Bool.not_eq_false] at h
  have hjoin : join place mode x [] = (lone place (Url.readPlain (forward x))).write := by
    rw [join_nil_of_absolute place mode habsolute, alone_eq_write]
  rw [hjoin]
  refine ⟨join_write_lone next hcwd habsolute, fun hlocal => ?_⟩
  rw [← Url.scheme_readPlain_forward] at hlocal
  rw [Url.read_scheme, Url.read_authority, readPlain_write_lone hcwd, lone_of_local hlocal]
  exact ⟨rfl, rfl⟩

/-- A host that is folded into the path below a drive, with a climb back out of
    it, where directory and query hold a hash. -/
theorem join_join_nil_of_host :
    anchor? [forward "\\\\h\\..\\a?b#c".toList] ≠ none ∧
      join (Place.make .windows "D:\\w#1".toList) .append "\\\\h\\..\\a?b#c".toList [] =
        "file:///D:/w#1/a?b#c".toList ∧
      join (Place.make .windows "D:\\w#1".toList) .follow
          (join (Place.make .windows "D:\\w#1".toList) .append "\\\\h\\..\\a?b#c".toList []) [] =
        join (Place.make .windows "D:\\w#1".toList) .append "\\\\h\\..\\a?b#c".toList [] ∧
      (Url.read (join (Place.make .windows "D:\\w#1".toList) .append "\\\\h\\..\\a?b#c".toList [])).authority = [] := by
  have hanchor : anchor? [forward "\\\\h\\..\\a?b#c".toList] ≠ none := by decide
  obtain ⟨hagain, hfile⟩ := join_join_nil (Place.make .windows "D:\\w#1".toList) .append .follow (by decide) hanchor
  exact ⟨hanchor, by decide, hagain, (hfile (by decide)).2⟩

end Locator.Join
