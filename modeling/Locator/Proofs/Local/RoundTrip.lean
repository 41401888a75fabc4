import Locator.Local.FileUrl
import Locator.Proofs.Path.Trail
import Locator.Proofs.Text.Percent
import Locator.Proofs.Url.RoundTrip

namespace Locator

open Text

namespace FileUrl

variable {name : Text} {names stored : List Text}

/-- An address takes the name as it is: no character of it is dropped. -/
def Kept (name : Text) : Prop :=
  ∀ c ∈ name, isDropped c = false

instance : DecidablePred Kept :=
  fun name => List.decidableBAll (isDropped · = false) name

/-- No bar stands in the place of the colon of a drive. -/
def NoBar (name : Text) : Prop :=
  ∀ letter : Char, letter.isAlpha = true → name ≠ [letter, '|']

theorem Kept.cleaned (h : Kept name) : cleaned name = name :=
  List.filter_eq_self.2 fun c hc => by rw [h c hc, Bool.not_false]

theorem Kept.dropWhile (h : Kept name) : name.dropWhile isDropped = name := by
  cases name with
  | nil => rfl
  | cons c rest => exact List.dropWhile_cons_of_neg (by simp [h c List.mem_cons_self])

theorem Kept.tail {c : Char} (h : Kept (c :: name)) : Kept name :=
  fun d hd => h d (List.mem_cons_of_mem c hd)

/-- Only a dropped character can cut a drive off the rest of its name. -/
theorem Kept.cutDrive? (h : Kept name) : cutDrive? name = none := by
  unfold FileUrl.cutDrive?
  rw [h.dropWhile]
  cases name with
  | nil => rfl
  | cons letter rest =>
    dsimp only
    rw [h.tail.dropWhile]
    split
    · next mark rest =>
      have hmark : isDropped mark = false := h mark (by simp)
      rw [if_neg (by simp [hmark])]
    · rfl

theorem Kept.storeFirst (h : Kept name) (hbar : NoBar name) : storeFirst name = [name] := by
  unfold FileUrl.storeFirst
  rw [h.cutDrive?, h.cleaned]
  dsimp only
  split
  · next hdrive =>
    match name with
    | [letter, mark] =>
      simp only [isDrive, Bool.and_eq_true, Bool.or_eq_true, beq_iff_eq] at hdrive
      obtain ⟨hletter, rfl | rfl⟩ := hdrive
      · rfl
      · exact absurd rfl (hbar letter hletter)
  · rfl

theorem Kept.store (h : Kept name) (hplain : Path.Plain name) (hbar : stored = [] → NoBar name) :
    store stored name = name :: stored := by
  obtain ⟨-, hdot, -, hclimb⟩ := hplain
  unfold FileUrl.store
  rw [h.cleaned, if_neg hdot, if_neg hclimb]
  split
  · next hfirst => rw [hfirst, h.storeFirst (hbar hfirst)]
  · rfl

/-- Plain names are stored one by one: only the first could have been a drive
    written with a bar. -/
theorem foldl_store (hplain : ∀ name ∈ names, Path.Plain name) (hkept : ∀ name ∈ names, Kept name)
    (hbar : stored = [] → ∀ first ∈ names.head?, NoBar first) :
    names.foldl store stored = names.reverse ++ stored := by
  induction names generalizing stored with
  | nil => rfl
  | cons first rest ih =>
    obtain ⟨hplainFirst, hplainRest⟩ := List.forall_mem_cons.1 hplain
    obtain ⟨hkeptFirst, hkeptRest⟩ := List.forall_mem_cons.1 hkept
    have hstore := hkeptFirst.store hplainFirst fun hnone => hbar hnone first rfl
    -- a drive is looked for only upon an empty stack, so the rest needs no condition
    rw [List.foldl_cons, hstore, ih hplainRest hkeptRest fun h => absurd h (List.cons_ne_nil first stored),
      List.reverse_cons, List.append_assoc, List.singleton_append]

theorem endsInDots_of_plain (hplain : ∀ name ∈ names, Path.Plain name) (hkept : ∀ name ∈ names, Kept name) :
    endsInDots names = false := by
  unfold endsInDots
  split
  · next last hlast =>
    have hmem : last ∈ names := List.mem_of_getLast? hlast
    obtain ⟨-, hdot, -, hclimb⟩ := hplain last hmem
    simp [(hkept last hmem).cleaned, hdot, hclimb]
  · rfl

/-- The names that the path of an address is written from. -/
def held (names : List Text) : List Text :=
  (if endsInDots names then (names.foldl store []).reverse ++ [[]] else (names.foldl store []).reverse).dropWhile
    (· = [])

/-- The path of an address is a rooted path with its characters escaped. -/
theorem path_eq_escape (names : List Text) :
    path names = Percent.escape mustEscape ('/' :: Path.slashed (held names)) := by
  have hslash : mustEscape '/' = false := by decide
  rw [Percent.escape_cons, Percent.escape_slashed hslash, hslash]
  rfl

/-- Plain names are held as they are. -/
theorem held_of_plain (hplain : ∀ name ∈ names, Path.Plain name) (hkept : ∀ name ∈ names, Kept name)
    (hbar : ∀ first ∈ names.head?, NoBar first) : held names = names := by
  have hstored : (names.foldl store []).reverse = names := by
    rw [foldl_store hplain hkept fun _ => hbar, List.append_nil, List.reverse_reverse]
  rw [held, hstored, endsInDots_of_plain hplain hkept, if_neg Bool.false_ne_true]
  cases names with
  | nil => rfl
  | cons first rest => exact List.dropWhile_cons_of_neg (by simpa using (hplain first List.mem_cons_self).1)

/-- From plain names it is the path of the file itself. -/
theorem path_of_plain (hplain : ∀ name ∈ names, Path.Plain name) (hkept : ∀ name ∈ names, Kept name)
    (hbar : ∀ first ∈ names.head?, NoBar first) :
    path names = Percent.escape mustEscape ('/' :: Path.slashed names) := by
  rw [path_eq_escape, held_of_plain hplain hkept hbar]

theorem headed_file (path query : Text) : Url.Headed ⟨Scheme.file, [], path, query, []⟩ := by
  have hscheme : Scheme.IsLowerName Scheme.file :=
    Scheme.isLowerName_lower (by decide : Scheme.isName Scheme.file = true)
  exact {
    scheme := Or.inr hscheme
    authority := ⟨List.not_mem_nil, List.not_mem_nil⟩
    rooted := fun h => absurd rfl h
    schemeless := fun h => absurd h hscheme.ne_nil }

/-- A rooted path stands behind the two slashes of a file address. -/
theorem write_of_rooted {path : Text} (hrooted : Path.rooted path = true) (query fragment : Text) :
    Url.write ⟨Scheme.file, [], path, query, fragment⟩ =
      "file://".toList ++ path ++ marked '?' query ++ marked '#' fragment := by
  have hrecognized : Url.recognized ⟨Scheme.file, [], path, query, fragment⟩ = true := rfl
  have hslashes : Url.slashes ⟨Scheme.file, [], path, query, fragment⟩ = "//".toList := by
    simp [Url.slashes, hrooted, hrecognized]
  have hmark : Url.schemeMark ⟨Scheme.file, [], path, query, fragment⟩ = "file:".toList := rfl
  simp [Url.write, hmark, hslashes, Url.gap]

/-- Behind them it is read whole, when it holds none of the marks that end a
    path. -/
theorem read_append {path : Text} (hrooted : Path.rooted path = true) (hquestion : '?' ∉ path) (hhash : '#' ∉ path) :
    Url.read ("file://".toList ++ path) = ⟨Scheme.file, [], path, [], []⟩ := by
  have hwell : Url.WellFormed ⟨Scheme.file, [], path, [], []⟩ := {
    toHeaded := headed_file path []
    authority_hash := List.not_mem_nil
    path := ⟨hquestion, hhash⟩
    query := List.not_mem_nil }
  have hwrite := write_of_rooted hrooted [] []
  simp only [marked, if_true, List.append_nil] at hwrite
  rw [← hwrite, hwell.read_write]

theorem read_append_escape (path : Text) :
    Url.read ("file://".toList ++ Percent.escape mustEscape ('/' :: path)) =
      ⟨Scheme.file, [], Percent.escape mustEscape ('/' :: path), [], []⟩ := by
  have hrooted : Path.rooted (Percent.escape mustEscape ('/' :: path)) = true := rfl
  have hquestion : '?' ∉ Percent.escape mustEscape ('/' :: path) :=
    Percent.notMem_escape (by decide) (by decide) (by decide) _
  have hhash : '#' ∉ Percent.escape mustEscape ('/' :: path) :=
    Percent.notMem_escape (by decide) (by decide) (by decide) _
  exact read_append hrooted hquestion hhash

end FileUrl

namespace Place

theorem plain_of_mem_fullNames {place : Place} {path name : Text} (h : name ∈ place.fullNames path) :
    Path.Plain name := by
  unfold fullNames at h
  exact Path.plain_of_mem_removeDots h

theorem notMem_separated {c : Char} (hc : c ≠ '/') {path : Text} (h : c ∉ path) (style : Style) :
    c ∉ separated style path := by
  cases style with
  | posix => exact h
  | windows => exact notMem_forward hc h

theorem notMem_fullPath_of_separated {place : Place} {path : Text} {c : Char} (hc : c ≠ '/') (hcwd : c ∉ place.cwd)
    (hpath : c ∉ separated place.style path) : c ∉ place.fullPath path := by
  have hnames : ∀ name ∈ place.fullNames path, c ∉ name := by
    intro name hname hmem
    have hwhole := Path.mem_of_mem_names (Path.mem_of_mem_removeDots hname) hmem
    split at hwhole
    · exact hpath hwhole
    · simp [hcwd, hc, hpath] at hwhole
  simpa [fullPath, hc] using Path.notMem_slashed hc hnames

/-- A full path holds no character but slashes and those of the directory and
    of the path that it was made from. -/
theorem notMem_fullPath {place : Place} {path : Text} {c : Char} (hc : c ≠ '/') (hcwd : c ∉ place.cwd)
    (hpath : c ∉ path) : c ∉ place.fullPath path :=
  notMem_fullPath_of_separated hc hcwd (notMem_separated hc hpath place.style)

theorem localForm_rooted (style : Style) (path : Text) :
    localForm style ('/' :: path) =
      match style with
      | .posix => '/' :: path
      | .windows => (if hasDrive path then path else '/' :: path).map fun c => if c = '/' then '\\' else c := by
  cases style with
  | posix => rfl
  | windows => by_cases hdrive : hasDrive path = true <;> simp [localForm, hdrive]

theorem read_fileUrl (place : Place) (path : Text) :
    Url.read (place.fileUrl path) = ⟨Scheme.file, [], FileUrl.path (place.fullNames path), [], []⟩ := by
  unfold fileUrl
  rw [FileUrl.path_eq_escape, FileUrl.read_append_escape]

/-- What is made from a local path, whatever is in it, is a file address. -/
theorem localPath?_fileUrl (place : Place) (path : Text) :
    place.localPath? (place.fileUrl path) = some (place.localPath (place.fileUrl path)) := by
  have hscheme : (Url.read (place.fileUrl path)).scheme = Scheme.file := by rw [read_fileUrl]
  exact if_pos hscheme

/-- The address of a local path leads back to the rooted path that it means, as
    the style of the place writes it. Tabs and line ends are excluded, which an
    address drops, and a drive with a bar in front, which it writes anew. -/
theorem localPath_fileUrl (place : Place) (path : Text) (hkept : FileUrl.Kept (place.fullPath path))
    (hbar : ∀ first ∈ (place.fullNames path).head?, FileUrl.NoBar first) :
    place.localPath (place.fileUrl path) =
      match place.style with
      | .posix => place.fullPath path
      | .windows =>
        (if hasDrive (place.fullPath path).tail then (place.fullPath path).tail else place.fullPath path).map
          fun c => if c = '/' then '\\' else c := by
  have hnames : ∀ name ∈ place.fullNames path, FileUrl.Kept name := fun name hname c hc =>
    hkept c (List.mem_cons_of_mem _ (Path.mem_slashed_of_mem hname hc))
  have hback : Percent.unescape (Url.read (place.fileUrl path)).path = place.fullPath path := by
    unfold fileUrl
    rw [FileUrl.path_of_plain (fun name => plain_of_mem_fullNames) hnames hbar, FileUrl.read_append_escape]
    exact Percent.unescape_escape (by decide) _
  unfold localPath
  rw [hback]
  exact localForm_rooted place.style _

/-- A sign that looks like an escape, the marks of an address and a letter
    beyond ASCII, below a drive. -/
theorem localPath_fileUrl_of_drive :
    FileUrl.Kept ((make .windows "C:\\me".toList).fullPath "..\\50%41\\x#y?\\.\\é".toList) ∧
    (∀ first ∈ ((make .windows "C:\\me".toList).fullNames "..\\50%41\\x#y?\\.\\é".toList).head?,
      FileUrl.NoBar first) ∧
    (make .windows "C:\\me".toList).localPath
        ((make .windows "C:\\me".toList).fileUrl "..\\50%41\\x#y?\\.\\é".toList) =
      "C:\\50%41\\x#y?\\é".toList := by
  have hkept : FileUrl.Kept ((make .windows "C:\\me".toList).fullPath "..\\50%41\\x#y?\\.\\é".toList) := by decide
  have hbar : ∀ first ∈ ((make .windows "C:\\me".toList).fullNames "..\\50%41\\x#y?\\.\\é".toList).head?,
      FileUrl.NoBar first := by
    have hdrive : ((make .windows "C:\\me".toList).fullNames "..\\50%41\\x#y?\\.\\é".toList).head? =
        some "C:".toList := by decide
    rw [hdrive]
    rintro first ⟨⟩ letter - ⟨⟩
  exact ⟨hkept, hbar, (localPath_fileUrl _ _ hkept hbar).trans (by decide)⟩

/-- A bar in front comes back as the colon of a drive. -/
example : (make .posix ['/']).localPath ((make .posix ['/']).fileUrl "/c|/x".toList) = "/c:/x".toList := by
  decide +kernel

end Place

end Locator
