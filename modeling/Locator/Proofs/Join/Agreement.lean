import Locator.Proofs.Join.Alone

namespace Locator.Join

open Text

variable {here there : Place} {mode : Mode} {base other : Text} {u : Url}

/-- A place is asked for nothing but the full path of a host with the path
    behind it. -/
theorem alone_eq_alone_iff :
    alone here u = alone there u ↔
      (u.scheme = [] ∨ u.scheme = Scheme.file → u.authority ≠ [] →
        here.fullPath (u.authority ++ u.path) = there.fullPath (u.authority ++ u.path)) := by
  unfold alone
  split
  · next hlocal =>
    split
    · next hauth =>
      rw [FileUrl.write_of_rooted rfl, FileUrl.write_of_rooted rfl]
      simp [hlocal, hauth]
    · next hauth => simp [hauth]
  · next hremote => simp [hremote]

/-- Two places give the same join unless nothing goes onto its anchor and this is
    a local path or the address of a file, with a host. Even then they do, exactly
    when they agree on the full path of that host and the path behind it. -/
theorem join_eq_join_iff_of_places (here there : Place) (mode : Mode) (base : Text) (components : List Text) :
    join here mode base components = join there mode base components ↔
      ∀ anchor, anchor? ((base :: components).map forward) = some anchor → anchor.index = components.length →
        anchor.url.scheme = [] ∨ anchor.url.scheme = Scheme.file → anchor.url.authority ≠ [] →
          here.fullPath (anchor.url.authority ++ anchor.url.path) =
            there.fullPath (anchor.url.authority ++ anchor.url.path) := by
  rw [List.map_cons]
  unfold join
  by_cases hlone : ∃ anchor, anchor? (forward base :: components.map forward) = some anchor ∧
      anchor.index = (components.map forward).length
  · obtain ⟨anchor, hanchor, hlast⟩ := hlone
    rw [ofArgs_eq_alone here mode hanchor hlast, ofArgs_eq_alone there mode hanchor hlast, alone_eq_alone_iff]
    rw [List.length_map] at hlast
    simp [hanchor, hlast]
  · have honto : ∀ anchor, anchor? (forward base :: components.map forward) = some anchor →
        anchor.index ≠ (components.map forward).length :=
      fun anchor hanchor hlast => hlone ⟨anchor, hanchor, hlast⟩
    rw [ofArgs_eq_onto here mode honto, ofArgs_eq_onto there mode honto]
    simp only [List.length_map] at honto
    exact iff_of_true rfl fun anchor hanchor hlast => absurd hlast (honto anchor hanchor)

/-- A host that is climbed out of again, and out of either directory with it. A
    drive is a name like any other there. -/
theorem join_eq_join_of_climbing_host :
    join (Place.make .posix "/a".toList) .append "b".toList ["\\\\h\\..\\../../c?d".toList] =
        join (Place.make .windows "D:\\".toList) .append "b".toList ["\\\\h\\..\\../../c?d".toList] ∧
      join (Place.make .posix "/a".toList) .append "file://h/c".toList [] ≠
        join (Place.make .posix "/b".toList) .append "file://h/c".toList [] := by
  have hclimbing : anchor? (["b".toList, "\\\\h\\..\\../../c?d".toList].map forward) =
      some ⟨1, ⟨[], ['h'], "/../../../c".toList, ['d'], []⟩⟩ := rfl
  have hfile : anchor? (["file://h/c".toList].map forward) =
      some ⟨0, ⟨Scheme.file, ['h'], "/c".toList, [], []⟩⟩ := rfl
  constructor
  · rw [join_eq_join_iff_of_places]
    intro anchor hanchor _ _ _
    obtain rfl := Option.some.inj (hclimbing.symm.trans hanchor)
    decide
  · rw [ne_eq, join_eq_join_iff_of_places]
    intro hsame
    exact absurd (hsame _ hfile rfl (Or.inr rfl) (by decide)) (by decide)

/-- A join sees its base only as it is read plainly. -/
theorem join_congr_base (place : Place) (mode : Mode)
    (h : Url.readPlain (forward base) = Url.readPlain (forward other)) (components : List Text) :
    join place mode base components = join place mode other components := by
  have hanchor : anchor? (forward base :: components.map forward) =
      anchor? (forward other :: components.map forward) := scan_congr (by simp [h])
  have honto (relatives : List Text) :
      onto mode (Url.read (forward base)) relatives = onto mode (Url.read (forward other)) relatives := by
    rw [onto_read, onto_read, h]
  unfold join ofArgs
  rw [hanchor, honto]

/-- Writing a base in the canonical way, whatever part it takes in a join, leaves
    the join as it is. -/
theorem join_canonical (place : Place) (mode : Mode) (hhash : '#' ∉ base) (hback : '\\' ∉ base)
    (components : List Text) : join place mode (Url.canonical base) components = join place mode base components := by
  have hheaded := Url.headed_readPlain base
  have hcanonical : Url.canonical base = (Url.readPlain base).write := by
    rw [Url.canonical, Url.read_of_hash_notMem hhash]
  have hforward : forward (Url.readPlain base).write = (Url.readPlain base).write :=
    hheaded.forward_write rfl (Url.notMem_readPlain hback)
  apply join_congr_base
  rw [hcanonical, hforward, Url.readPlain_write_readPlain, forward_of_notMem hback]

/-- Two slashes more and an empty query less, in a base that only lends its scheme
    to a rooted component. -/
theorem join_canonical_of_donor :
    '#' ∉ "HTTPS:/x?".toList ∧ '\\' ∉ "HTTPS:/x?".toList ∧
      Url.canonical "HTTPS:/x?".toList = "https:///x".toList ∧
      join (Place.make .posix ['/']) .follow (Url.canonical "HTTPS:/x?".toList) ["\\y/w".toList, "z#t".toList] =
        join (Place.make .posix ['/']) .follow "HTTPS:/x?".toList ["\\y/w".toList, "z#t".toList] ∧
      join (Place.make .posix ['/']) .follow "https:///x".toList ["\\y/w".toList, "z#t".toList] =
        "https:///y/z#t".toList :=
  ⟨by decide, by decide, by decide,
    join_canonical (Place.make .posix ['/']) .follow (by decide) (by decide) ["\\y/w".toList, "z#t".toList],
    by decide⟩

end Locator.Join
