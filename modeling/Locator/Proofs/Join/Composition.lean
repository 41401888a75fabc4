import Locator.Proofs.Join.Absolute
import Locator.Proofs.Path.Resolved

namespace Locator.Join

open Text

variable {mode : Mode} {base : Url} {xs ys : List Text}

/-- The names that one join leaves are those that the next begins with. -/
theorem joinedNames_onto (h : '/' ∉ base.authority) (habsolute : base.absolute = true)
    (hne : base.scheme = Scheme.bucket → joinedNames mode base xs ≠ []) (ys : List Text) :
    joinedNames .append (onto mode base xs) ys = joinedNames mode base (xs ++ ys) := by
  have hnames := names_onto h habsolute hne
  have hjoined : joinedNames .append (onto mode base xs) ys =
      Path.removeDots true (joinedNames mode base xs ++ ys.flatMap Path.names) := by
    rw [← hnames, joinedNames, absolute_onto mode habsolute]
    rfl
  rw [hjoined, joinedNames, joinedNames, habsolute, Path.removeDots_removeDots_append, List.flatMap_append,
    List.append_assoc]

/-- Two joins in a row are one, unless nothing is left of an address in a
    bucket. -/
theorem onto_onto (h : '/' ∉ base.authority) (habsolute : base.absolute = true)
    (hne : base.scheme = Scheme.bucket → joinedNames mode base xs ≠ [])
    (hleft : base.scheme = Scheme.bucket → joinedNames mode base (xs ++ ys) ≠ []) :
    onto .append (onto mode base xs) ys = onto mode base (xs ++ ys) := by
  have hnames := joinedNames_onto h habsolute hne ys
  obtain ⟨authority, path, honto, -⟩ := exists_onto_eq mode habsolute xs
  by_cases hscheme : base.scheme = Scheme.bucket
  · obtain ⟨bucket, key, hcons⟩ := List.exists_cons_of_ne_nil (hleft hscheme)
    have hfirst : (onto mode base xs).scheme = Scheme.bucket := by rw [honto]; exact hscheme
    rw [onto_of_bucket_cons hscheme hcons, onto_of_bucket_cons hfirst (hnames.trans hcons), honto]
  · have hfirst : (onto mode base xs).scheme ≠ Scheme.bucket := by rw [honto]; exact hscheme
    rw [onto_of_absolute hfirst (absolute_onto mode habsolute xs), hnames, onto_of_absolute hscheme habsolute,
      onto_of_absolute hscheme habsolute]

/-- Where nothing is left of an address in a bucket, each of two joins keeps the
    bucket that it began with. -/
theorem onto_onto_eq_iff_of_nil (h : '/' ∉ base.authority) (habsolute : base.absolute = true)
    (hscheme : base.scheme = Scheme.bucket) (hne : joinedNames mode base xs ≠ [])
    (hnone : joinedNames mode base (xs ++ ys) = []) :
    onto mode base (xs ++ ys) = onto .append (onto mode base xs) ys ↔
      (onto mode base xs).authority = base.authority := by
  have hnames := joinedNames_onto h habsolute (fun _ => hne) ys
  obtain ⟨authority, path, honto, -⟩ := exists_onto_eq mode habsolute xs
  have hfirst : (onto mode base xs).scheme = Scheme.bucket := by rw [honto]; exact hscheme
  rw [onto_of_bucket_nil hscheme hnone, onto_of_bucket_nil hfirst (hnames.trans hnone), honto]
  constructor
  · intro heq
    exact (congrArg Url.authority heq).symm
  · intro hauth
    have hauth : authority = base.authority := hauth
    rw [hauth]

theorem write_eq_write_iff {u v : Url} (hu : u.WellFormed) (hv : v.WellFormed) : u.write = v.write ↔ u = v := by
  constructor
  · intro h
    rw [← hu.read_write, h, hv.read_write]
  · exact congrArg Url.write

/-- The second of two joins goes onto the address that the first one made. -/
theorem join_join_of_absolute (place : Place) (mode : Mode) {base : Text} {xs ys : List Text}
    (habsolute : (Url.read (forward base)).absolute = true) (hxs : xs ≠ []) (hys : ys ≠ [])
    (hrelativeXs : ∀ component ∈ xs, anchor? [forward component] = none)
    (hrelativeYs : ∀ component ∈ ys, anchor? [forward component] = none)
    (hmarksXs : ∀ component ∈ xs, '?' ∉ component ∧ '#' ∉ component) :
    join place .append (join place mode base xs) ys =
      (onto .append (onto mode (Url.read (forward base)) (xs.map forward)) (ys.map forward)).write := by
  have hread := read_join_of_absolute place mode habsolute hxs hrelativeXs hmarksXs
  have hforward := forward_join_of_absolute place mode habsolute hxs hrelativeXs hmarksXs
  have hfirst := absolute_onto mode habsolute (xs.map forward)
  have hnext := join_of_absolute place .append (by rwa [hforward, hread]) hys hrelativeYs
  rwa [hforward, hread] at hnext

/-- Components joined one part after the other come to the same as all of them
    joined at once, unless nothing is left of an address in a bucket after the
    first part had moved it to another bucket. -/
theorem join_append_eq_iff (place : Place) (mode : Mode) {base : Text} {xs ys : List Text}
    (habsolute : (Url.read (forward base)).absolute = true) (hxs : xs ≠ []) (hys : ys ≠ [])
    (hrelative : ∀ component ∈ xs ++ ys, anchor? [forward component] = none)
    (hmarks : ∀ component ∈ xs ++ ys, '?' ∉ component ∧ '#' ∉ component)
    (hbucket : (Url.read (forward base)).scheme = Scheme.bucket →
      joinedNames mode (Url.read (forward base)) (xs.map forward) ≠ []) :
    join place mode base (xs ++ ys) = join place .append (join place mode base xs) ys ↔
      ¬ ((Url.read (forward base)).scheme = Scheme.bucket ∧
        joinedNames mode (Url.read (forward base)) ((xs ++ ys).map forward) = [] ∧
        (Url.read (join place mode base xs)).authority ≠ (Url.read (forward base)).authority) := by
  obtain ⟨hrelativeXs, hrelativeYs⟩ := List.forall_mem_append.1 hrelative
  obtain ⟨hmarksXs, -⟩ := List.forall_mem_append.1 hmarks
  have hwell := Url.wellFormed_read (forward base)
  have hslash := hwell.authority.1
  have hargs := marks_notMem_map_forward hmarks
  rw [List.map_append] at hargs
  obtain ⟨hargsXs, hargsYs⟩ := List.forall_mem_append.1 hargs
  have hwhole := join_of_absolute place mode habsolute (List.append_ne_nil_of_left_ne_nil hxs ys) hrelative
  have hread := read_join_of_absolute place mode habsolute hxs hrelativeXs hmarksXs
  rw [hwhole, join_join_of_absolute place mode habsolute hxs hys hrelativeXs hrelativeYs hmarksXs, hread,
    List.map_append]
  rw [write_eq_write_iff (wellFormed_onto mode hwell habsolute hargs)
    (wellFormed_onto .append (wellFormed_onto mode hwell habsolute hargsXs) (absolute_onto mode habsolute _) hargsYs)]
  -- as long as a name is left, both sides are made from the same names
  by_cases hnone : (Url.read (forward base)).scheme = Scheme.bucket ∧
      joinedNames mode (Url.read (forward base)) (xs.map forward ++ ys.map forward) = []
  · rw [onto_onto_eq_iff_of_nil hslash habsolute hnone.1 (hbucket hnone.1) hnone.2]
    simp [hnone]
  · have hleft := not_and.1 hnone
    rw [onto_onto hslash habsolute hbucket hleft]
    simpa using fun hscheme hempty => absurd hempty (hleft hscheme)

/-- The second part takes back names of the first and of the base, and lands in
    another bucket. -/
theorem join_append_of_climbing :
    (∀ component ∈ ["..\\x".toList, ".".toList] ++ ["../../c".toList, "d".toList],
      anchor? [forward component] = none ∧ '?' ∉ component ∧ '#' ∉ component) ∧
    joinedNames .append (Url.read "S3://b/k?v=1#t".toList) (["..\\x".toList, ".".toList].map forward) ≠ [] ∧
    join (Place.make .posix ['/']) .append "S3://b/k?v=1#t".toList
        (["..\\x".toList, ".".toList] ++ ["../../c".toList, "d".toList]) =
      join (Place.make .posix ['/']) .append
        (join (Place.make .posix ['/']) .append "S3://b/k?v=1#t".toList ["..\\x".toList, ".".toList])
        ["../../c".toList, "d".toList] :=
  ⟨by decide, by decide, (join_append_eq_iff (Place.make .posix ['/']) .append (by decide) (by decide) (by decide)
    (by decide) (by decide) (by decide)).2 (by decide)⟩

/-- The first part moves to another bucket and the second leaves nothing of the
    path: joined at once they keep the bucket of the base, `s3://b`, and joined
    one after the other that of the first part, `s3://c`. -/
theorem join_append_ne :
    (Url.read (forward "s3://b/k".toList)).absolute = true ∧
    (∀ component ∈ ["../../c".toList] ++ ["..".toList],
      anchor? [forward component] = none ∧ '?' ∉ component ∧ '#' ∉ component) ∧
    joinedNames .append (Url.read (forward "s3://b/k".toList)) (["../../c".toList].map forward) ≠ [] ∧
    join (Place.make .posix ['/']) .append "s3://b/k".toList (["../../c".toList] ++ ["..".toList]) ≠
      join (Place.make .posix ['/']) .append
        (join (Place.make .posix ['/']) .append "s3://b/k".toList ["../../c".toList]) ["..".toList] := by
  decide

/-- When the first part already leaves nothing, the second begins in the bucket
    of the base. -/
example :
    join (Place.make .posix ['/']) .append "s3://b".toList ["..".toList, "c".toList] = "s3://c".toList ∧
      join (Place.make .posix ['/']) .append
        (join (Place.make .posix ['/']) .append "s3://b".toList ["..".toList]) ["c".toList] =
        "s3://b/c".toList := by
  decide

end Locator.Join
