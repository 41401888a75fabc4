import Locator.Proofs.Join.Absolute
import Locator.Proofs.Path.Trail

namespace Locator.Join

open Text

variable {mode : Mode} {base : Text} {components : List Text}

/-- The segments of a base path that components go behind: a link leaves out the
    last one, unless the path ends in a slash or names nothing. -/
def keptSegments (mode : Mode) (path : Text) : List Text :=
  let inner := path.dropWhile (· == '/')
  if mode = .follow ∧ inner ≠ [] ∧ inner.getLast? ≠ some '/' then (Path.belowRoot path).dropLast
  else Path.belowRoot path

theorem keptSegments_eq_baseNames (mode : Mode) (path : Text) : keptSegments mode path = baseNames mode path := by
  unfold keptSegments baseNames
  rw [Path.belowRoot_eq_names]
  cases mode with
  | append => rfl
  | follow =>
    by_cases hinner : path.dropWhile (· == '/') = []
    · -- such a path is empty or ends in a slash like all of it
      have hslashes : ∀ c ∈ path, (c == '/') = true := List.dropWhile_eq_nil_iff.1 hinner
      have hends : path.getLast?.all (· == '/') = true := by
        cases hlast : path.getLast? with
        | none => rfl
        | some c => exact hslashes c (List.mem_of_getLast? hlast)
      simp [hinner, hends]
    · have hlast := getLast?_dropWhile hinner
      obtain ⟨c, hc⟩ := Option.isSome_iff_exists.1 (List.getLast?_isSome.2 hinner)
      rw [hc] at hlast
      simp [hinner, hc, ← hlast]

/-- The names of a join are what is left of the bucket, of the segments that a
    base keeps, and of those of the components. -/
theorem joinedNames_eq_removeDots (mode : Mode) (base : Url) (relatives : List Text) :
    joinedNames mode base relatives =
      Path.removeDots base.absolute
        (bucketNames base ++ (keptSegments mode base.path ++ relatives.flatMap Path.belowRoot)) := by
  have hbelow : Path.belowRoot = Path.names := funext Path.belowRoot_eq_names
  rw [joinedNames, keptSegments_eq_baseNames, hbelow, List.append_assoc]

theorem joinedNames_of_host {base : Url} (hscheme : base.scheme ≠ Scheme.bucket) (habsolute : base.absolute = true)
    (mode : Mode) (relatives : List Text) :
    joinedNames mode base relatives =
      Path.removeDots true (keptSegments mode base.path ++ relatives.flatMap Path.belowRoot) := by
  have hbucket : bucketNames base = [] := if_neg fun h => hscheme h.1
  rw [joinedNames_eq_removeDots, habsolute, hbucket, List.nil_append]

/-- A join of components without marks onto an absolute base that is no bucket
    reads back as the base with another path and no fragment. The path is made
    of the names that are left below the root, and none of its pieces is empty
    or a dot name. -/
theorem read_join_rooted (place : Place) (mode : Mode)
    (hscheme : (Url.read (forward base)).scheme ≠ Scheme.bucket)
    (habsolute : (Url.read (forward base)).absolute = true) (hne : components ≠ [])
    (hrelative : ∀ component ∈ components, anchor? [forward component] = none)
    (hmarks : ∀ component ∈ components, '?' ∉ component ∧ '#' ∉ component) :
    let u := Url.read (forward base)
    let names := Path.removeDots true (keptSegments mode u.path ++ (components.map forward).flatMap Path.belowRoot)
    Url.read (join place mode base components) = ⟨u.scheme, u.authority, '/' :: Path.slashed names, u.query, []⟩ ∧
      (∀ name ∈ names, name ∉ [[], ['.'], ['.', '.']]) ∧
      (names ≠ [] → ('/' :: Path.slashed names).splitOn '/' = [] :: names) := by
  intro u names
  have hnames : joinedNames mode u (components.map forward) = names := joinedNames_of_host hscheme habsolute mode _
  have hslash : '/' ∉ u.authority := (Url.wellFormed_read (forward base)).authority.1
  have hpieces : Path.AreNames names := hnames ▸ areNames_joinedNames hslash
  refine ⟨?_, fun name hname => ?_, hpieces.splitOn_rooted⟩
  · rw [read_join_of_absolute place mode habsolute hne hrelative hmarks, onto_of_absolute hscheme habsolute, hnames]
  · exact (Path.plain_iff_of_slash_notMem (hpieces name hname).2).1 (Path.plain_of_mem_removeDots hname)

/-- A link out of a document whose own path repeats slashes and holds a dot name,
    with what looks like a host behind its first name. -/
theorem read_join_rooted_of_document :
    (∀ component ∈ ["..\\x//h:1".toList, "./../y/".toList],
      anchor? [forward component] = none ∧ '?' ∉ component ∧ '#' ∉ component) ∧
    Url.read (join (Place.make .posix ['/']) .follow "SVN:\\\\a.b//c/./d\\e?q=/..#f".toList
        ["..\\x//h:1".toList, "./../y/".toList]) =
      ⟨"svn".toList, "a.b".toList, "/c/x/y".toList, "q=/..".toList, []⟩ :=
  ⟨by decide, (read_join_rooted (Place.make .posix ['/']) .follow (by decide) (by decide) (by decide) (by decide)
    (by decide)).1.trans (by decide)⟩

/-- A join keeps the query of its base as it is. It goes behind the join of the
    same components onto the base without a query, so that the query of a join
    is empty only when that of the base is. -/
theorem query_join (place : Place) (mode : Mode) (habsolute : (Url.read (forward base)).absolute = true)
    (hne : components ≠ []) (hrelative : ∀ component ∈ components, anchor? [forward component] = none)
    (hmarks : ∀ component ∈ components, '?' ∉ component ∧ '#' ∉ component) :
    (Url.read (join place mode base components)).query = (Url.read (forward base)).query ∧
      join place mode base components =
        join place mode (Url.write { Url.read (forward base) with query := [], fragment := [] }) components ++
          marked '?' (Url.read (forward base)).query := by
  obtain ⟨authority, path, honto⟩ := exists_onto_with mode (Url.read (forward base)) (components.map forward)
  obtain ⟨hauthBack, hpathBack, -⟩ := Url.notMem_read (backslash_notMem_forward base)
  have hbare := (Url.wellFormed_read (forward base)).withoutQuery
  have hforward := hbare.forward_write rfl ⟨hauthBack, hpathBack, List.not_mem_nil⟩
  have hread : Url.read (forward (Url.write { Url.read (forward base) with query := [], fragment := [] })) =
      { Url.read (forward base) with query := [], fragment := [] } := by
    rw [hforward, hbare.read_write]
  have hjoin := join_of_absolute place mode (by rw [hread]; exact habsolute) hne hrelative
  constructor
  · rw [read_join_of_absolute place mode habsolute hne hrelative hmarks, honto]
  · rw [hjoin, hread, join_of_absolute place mode habsolute hne hrelative]
    exact write_onto_eq_append_query mode _ _

/-- A link that moves to another bucket takes the query with it. -/
theorem query_join_of_bucket :
    (∀ component ∈ ["..\\../c".toList, "d".toList],
      anchor? [forward component] = none ∧ '?' ∉ component ∧ '#' ∉ component) ∧
    (Url.read (join (Place.make .posix ['/']) .follow "S3://b/x/k?v=1#t".toList
      ["..\\../c".toList, "d".toList])).query = "v=1".toList ∧
    join (Place.make .posix ['/']) .follow "S3://b/x/k?v=1#t".toList ["..\\../c".toList, "d".toList] =
      "s3://c/d?v=1".toList := by
  have hread : Url.read (forward "S3://b/x/k?v=1#t".toList) =
      ⟨"s3".toList, ['b'], "/x/k".toList, "v=1".toList, ['t']⟩ := by decide
  have hlaw := query_join (Place.make .posix ['/']) .follow
    (show (Url.read (forward "S3://b/x/k?v=1#t".toList)).absolute = true by decide)
    (show ["..\\../c".toList, "d".toList] ≠ [] by decide) (by decide) (by decide)
  rw [hread] at hlaw
  exact ⟨by decide, hlaw.1, hlaw.2.trans (by decide)⟩

/-- A link in a document with a query leads to an address with that query, where
    the standard of references takes the query from the link, which has none. -/
theorem query_join_ne_nil :
    (Url.read "https://host/a?token=1".toList).recognized = true ∧
      (Url.read "https://host/a?token=1".toList).query ≠ [] ∧
      anchor? [forward ['b']] = none ∧
      join (Place.make .posix ['/']) .follow "https://host/a?token=1".toList [['b']] =
        "https://host/b?token=1".toList ∧
      (Url.read (join (Place.make .posix ['/']) .follow "https://host/a?token=1".toList [['b']])).query ≠ [] := by
  decide

end Locator.Join
