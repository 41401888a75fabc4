import Locator.Proofs.Join.Alone
import Locator.Proofs.Text.Unescape

namespace Locator

open Text

variable {path r x : Text}

namespace Place

/-- A rooted path with nothing joined onto it is written behind the scheme of
    files, its own marks as they are. -/
theorem join_lone_rooted (place : Place) (mode : Join.Mode) (hback : '\\' ∉ '/' :: r)
    (hsingle : ¬ ['/', '/'] <+: '/' :: r) :
    join place mode ('/' :: r) [] =
      Url.write ⟨Scheme.file, [], '/' :: before '?' r, after '?' r, []⟩ := by
  have hread := Url.readPlain_of_single_slash hsingle
  have habsolute : (Url.readPlain ('/' :: r)).absolute = true := by
    rw [hread]
    exact Url.absolute_of_rooted rfl
  have hforward := forward_of_notMem hback
  rw [Join.join_nil_of_absolute place mode (by rwa [hforward]), hforward, hread, Join.alone, if_pos (Or.inl rfl),
    if_neg (by simp)]

/-- Read again, such an address has the path up to its first mark. -/
theorem read_join_lone_rooted (place : Place) (mode : Join.Mode) (hback : '\\' ∉ '/' :: r)
    (hsingle : ¬ ['/', '/'] <+: '/' :: r) :
    (Url.read (join place mode ('/' :: r) [])).scheme = Scheme.file ∧
      (Url.read (join place mode ('/' :: r) [])).path = before '#' (before '?' ('/' :: r)) := by
  have hfront : before '?' ('/' :: r) = '/' :: before '?' r := before_append_of_notMem (a := ['/']) (by decide) r
  have hquestion : '?' ∉ '/' :: before '?' r := by
    rw [← hfront]
    exact notMem_before '?' _
  have hplain := (FileUrl.headed_file _ (after '?' r)).readPlain_write_eq rfl hquestion
  rw [join_lone_rooted place mode hback hsingle]
  constructor
  · rw [Url.read_scheme, hplain]
  · rw [Url.read_eq_beforeHash, hplain, hfront]
    exact Url.beforeHash_path List.not_mem_nil

/-- A rooted local path with nothing joined onto it names the same file exactly
    when it holds neither mark of an address and nothing that looks like an
    escape. -/
theorem localPath?_join_eq_some_iff (place : Place) (mode : Join.Mode) (hstyle : place.style = .posix)
    (hrooted : Path.rooted path = true) (hsingle : ¬ "//".toList <+: path) (hback : '\\' ∉ path) :
    place.localPath? (join place mode path []) = some path ↔
      '?' ∉ path ∧ '#' ∉ path ∧ Percent.holdsEscape path = false := by
  obtain ⟨r, rfl⟩ := Path.exists_of_rooted hrooted
  obtain ⟨hscheme, hpath⟩ := read_join_lone_rooted place mode hback hsingle
  have hlocal : place.localPath? (join place mode ('/' :: r) []) =
      some (Percent.unescape (before '#' (before '?' ('/' :: r)))) := by
    rw [localPath?, if_pos hscheme, localPath, hpath, hstyle]
    rfl
  rw [hlocal, Option.some_inj]
  constructor
  · intro hsame
    -- neither cutting nor unescaping makes a text longer, so here neither makes it shorter
    have hlength := congrArg List.length hsame
    have hunescape := Percent.length_unescape_le (before '#' (before '?' ('/' :: r)))
    have hhash := length_before_le '#' (before '?' ('/' :: r))
    have hquestion := length_before_le '?' ('/' :: r)
    have hnoQuestion : '?' ∉ '/' :: r := notMem_of_length_le_before (by omega)
    rw [before_of_notMem hnoQuestion] at hsame hhash hunescape hlength
    have hnoHash : '#' ∉ '/' :: r := notMem_of_length_le_before (by omega)
    rw [before_of_notMem hnoHash] at hsame
    exact ⟨hnoQuestion, hnoHash, Percent.unescape_eq_self_iff.1 hsame⟩
  · rintro ⟨hquestion, hhash, hescape⟩
    rw [before_of_notMem hquestion, before_of_notMem hhash]
    exact Percent.unescape_eq_self_iff.2 hescape

/-- Percent signs that no two digits follow, and a letter beyond ASCII. -/
theorem localPath?_join_of_percent_sign :
    Path.rooted "/50%/a%4g/é".toList = true ∧ ¬ "//".toList <+: "/50%/a%4g/é".toList ∧ '\\' ∉ "/50%/a%4g/é".toList ∧
      (make .posix ['/']).localPath? (join (make .posix ['/']) .append "/50%/a%4g/é".toList []) =
        some "/50%/a%4g/é".toList :=
  ⟨by decide, by decide, by decide, (localPath?_join_eq_some_iff (make .posix ['/']) .append rfl (by decide)
    (by decide) (by decide)).2 ⟨by decide, by decide, by decide⟩⟩

/-- A hash is kept in the address as a part of the name and is read from it as
    the mark of a fragment; a question mark and an escape fare no better. -/
theorem localPath?_join_ne_some :
    join (make .posix ['/']) .append "/tmp/a#b".toList [] = "file:///tmp/a#b".toList ∧
      (make .posix ['/']).localPath? "file:///tmp/a#b".toList = some "/tmp/a".toList ∧
      (make .posix ['/']).localPath? (join (make .posix ['/']) .append "/tmp/a?b".toList []) =
        some "/tmp/a".toList ∧
      (make .posix ['/']).localPath? (join (make .posix ['/']) .append "/tmp/a%41".toList []) =
        some "/tmp/aA".toList := by
  decide

/-- A local path or the address of a file with nothing joined onto it is the
    address of the full path of its host and the path behind that. -/
theorem join_lone_host (place : Place) (mode : Join.Mode) (hquestion : '?' ∉ x)
    (hscheme : (Url.readPlain (forward x)).scheme = [] ∨ (Url.readPlain (forward x)).scheme = Scheme.file)
    (hauth : (Url.readPlain (forward x)).authority ≠ []) :
    join place mode x [] =
      "file://".toList ++
        place.fullPath ((Url.readPlain (forward x)).authority ++ (Url.readPlain (forward x)).path) := by
  have habsolute : (Url.readPlain (forward x)).absolute = true := Url.absolute_of_host hauth
  have hquery : (Url.readPlain (forward x)).query = [] :=
    Url.query_readPlain_of_notMem (notMem_forward (by decide) hquestion)
  have hfragment : (Url.readPlain (forward x)).fragment = [] := rfl
  rw [Join.join_nil_of_absolute place mode habsolute, Join.alone, if_pos hscheme, if_pos hauth,
    FileUrl.write_of_rooted rfl, hquery, hfragment]
  simp [marked]

/-- A host in front of the path of a file is folded into it, and what comes of
    them is taken for a local path like any other: the address leads to the file
    of that path. Neither it nor the working directory may hold the marks of an
    address or the sign of an escape, which are read anew. -/
theorem localPath?_join_of_host (place : Place) (mode : Join.Mode)
    (hcwd : '%' ∉ place.cwd ∧ '?' ∉ place.cwd ∧ '#' ∉ place.cwd) (hx : '%' ∉ x ∧ '?' ∉ x ∧ '#' ∉ x)
    (hscheme : (Url.readPlain (forward x)).scheme = [] ∨ (Url.readPlain (forward x)).scheme = Scheme.file)
    (hauth : (Url.readPlain (forward x)).authority ≠ []) :
    let path := place.fullPath ((Url.readPlain (forward x)).authority ++ (Url.readPlain (forward x)).path)
    place.localPath? (join place mode x []) =
      some (match place.style with
        | .posix => path
        | .windows =>
          (if hasDrive path.tail then path.tail else path).map fun c => if c = '/' then '\\' else c) := by
  intro path
  have hpath {c : Char} (hslash : c ≠ '/') (hcwd : c ∉ place.cwd) (hx : c ∉ x) : c ∉ path := by
    obtain ⟨hauthority, hbehind, -⟩ := Url.notMem_readPlain (notMem_forward hslash hx)
    exact notMem_fullPath hslash hcwd (by simp [hauthority, hbehind])
  have hjoin : join place mode x [] = "file://".toList ++ path := join_lone_host place mode hx.2.1 hscheme hauth
  have hread : Url.read (join place mode x []) = ⟨Scheme.file, [], path, [], []⟩ := by
    rw [hjoin]
    exact FileUrl.read_append rfl (hpath (by decide) hcwd.2.1 hx.2.1) (hpath (by decide) hcwd.2.2 hx.2.2)
  have hdecoded : Percent.unescape path = path :=
    Percent.unescape_eq_self_iff.2 (Percent.holdsEscape_of_notMem (hpath (by decide) hcwd.1 hx.1))
  rw [localPath?, localPath, hread, if_pos rfl, hdecoded]
  exact congrArg some (localForm_rooted place.style _)

/-- A host that is climbed out of, and the working directory with it but for its
    drive; and a drive in the place of a host, which needs no directory. -/
theorem localPath?_join_of_climbing_host :
    Url.readPlain (forward "FILE:\\\\h\\..\\../é b/.".toList) =
        ⟨Scheme.file, ['h'], "/../../é b/.".toList, [], []⟩ ∧
      (make .windows "C:\\me".toList).localPath?
          (join (make .windows "C:\\me".toList) .append "FILE:\\\\h\\..\\../é b/.".toList []) =
        some "C:\\é b".toList ∧
      (make .windows "C:\\me".toList).localPath?
          (join (make .windows "C:\\me".toList) .follow "\\\\d:/x//..".toList []) =
        some "d:".toList :=
  ⟨by decide,
    (localPath?_join_of_host (make .windows "C:\\me".toList) .append (by decide) (by decide) (by decide)
      (by decide)).trans (by decide),
    (localPath?_join_of_host (make .windows "C:\\me".toList) .follow (by decide) (by decide) (by decide)
      (by decide)).trans (by decide)⟩

end Place

end Locator
