import Locator.Download.Name
import Locator.Proofs.Path.Names
import Locator.Proofs.Url.Reading
import Locator.Text.Utf8.Lemmas

namespace Locator

namespace Download

open Text

variable {style : Style} {maxBytes : Nat} {name url : Text} {c : Char}

/-- A low line for each character that a file name cannot hold. -/
def unreserved (style : Style) (name : Text) : Text :=
  name.map fun c => if isReserved style c then '_' else c

theorem clean_eq_fitting (style : Style) (maxBytes : Nat) (name : Text) :
    clean style maxBytes name = Utf8.fitting maxBytes (unreserved style name) := rfl

/-- A name that can be given to a file. -/
structure IsSafe (style : Style) (maxBytes : Nat) (name : Text) : Prop where
  ne_nil : name ≠ []
  length_le : (Utf8.encode name).length ≤ maxBytes
  head : name.head? ≠ some '.'
  slash_notMem : '/' ∉ name
  nul_notMem : '\x00' ∉ name
  control : ∀ c ∈ name, isControl c = false
  windows : style = .windows → ∀ c ∈ "\\:*?\"<>|".toList, c ∉ name

/-- An address that gives no name: its path ends in a slash or is empty and
    nothing follows it, or not even the first character fits. -/
def Unnamed (style : Style) (maxBytes : Nat) (url : Text) : Prop :=
  (Path.lastPiece (Url.read url).path = [] ∧ (Url.read url).query = [] ∧ (Url.read url).fragment = []) ∨
    ∃ c ∈ (unreserved style (rawName url)).head?, maxBytes < c.utf8Size

theorem isReserved_low_line (style : Style) : isReserved style '_' = false := by
  cases style <;> rfl

theorem isReserved_of_mem_unreserved (h : c ∈ unreserved style name) : isReserved style c = false := by
  obtain ⟨d, -, rfl⟩ := List.mem_map.1 h
  split
  · exact isReserved_low_line style
  · next hfree => simpa using hfree

theorem isReserved_of_mem_clean (h : c ∈ clean style maxBytes name) : isReserved style c = false :=
  isReserved_of_mem_unreserved ((Utf8.fitting_prefix _ _).subset h)

/-- The name before it is cleaned is an address of its own, with no scheme and
    no host: nothing but its marks is added to its parts. -/
theorem rawName_eq_write (url : Text) :
    rawName url =
      Url.write ⟨[], [], Path.lastPiece (Url.read url).path, (Url.read url).query, (Url.read url).fragment⟩ := by
  have hslash := Path.slash_notMem_lastPiece (Url.read url).path
  have hslashes : Url.slashes ⟨[], [], Path.lastPiece (Url.read url).path, (Url.read url).query,
      (Url.read url).fragment⟩ = [] := by
    apply Url.slashes_eq_nil_iff.2
    refine ⟨rfl, ?_, fun h => absurd h.1 Bool.false_ne_true⟩
    intro hfront
    exact hslash (hfront.subset (by decide))
  have hgap : Url.gap ⟨[], [], Path.lastPiece (Url.read url).path, (Url.read url).query,
      (Url.read url).fragment⟩ = [] := if_neg fun h => h.1 rfl
  rw [Url.write, hslashes, hgap]
  rfl

theorem rawName_eq_nil_iff :
    rawName url = [] ↔
      Path.lastPiece (Url.read url).path = [] ∧ (Url.read url).query = [] ∧ (Url.read url).fragment = [] := by
  simp only [rawName, List.append_eq_nil_iff, marked_eq_nil_iff, and_assoc]

/-- Cleaning leaves nothing of the names that an address does not give. -/
theorem clean_eq_nil_iff : clean style maxBytes (rawName url) = [] ↔ Unnamed style maxBytes url := by
  rw [clean_eq_fitting, Utf8.fitting_eq_nil_iff, Unnamed, ← rawName_eq_nil_iff]
  cases hraw : rawName url with
  | nil => simp [unreserved]
  | cons first more => simp [unreserved]

/-- A name whose leading dot has given way to a low line. -/
def unhidden : Text → Text
  | [] => []
  | first :: rest => if first = '.' then '_' :: rest else first :: rest

theorem mem_of_mem_unhidden (h : c ∈ unhidden name) : c = '_' ∨ c ∈ name := by
  cases name with
  | nil => cases h
  | cons first rest =>
    rw [unhidden] at h
    split at h
    · obtain rfl | hrest := List.mem_cons.1 h
      · exact Or.inl rfl
      · exact Or.inr (List.mem_cons_of_mem _ hrest)
    · exact Or.inr h

theorem head?_unhidden (name : Text) : (unhidden name).head? ≠ some '.' := by
  cases name with
  | nil => simp [unhidden]
  | cons first rest =>
    rw [unhidden]
    split
    · simp
    · next hfirst => simpa using hfirst

theorem size_unhidden (name : Text) : Utf8.size (unhidden name) = Utf8.size name := by
  cases name with
  | nil => rfl
  | cons first rest =>
    rw [unhidden]
    split
    · next hfirst =>
      rw [hfirst]
      rfl
    · rfl

theorem unhidden_ne_nil (h : name ≠ []) : unhidden name ≠ [] := by
  obtain ⟨first, rest, rfl⟩ := List.exists_cons_of_ne_nil h
  rw [unhidden]
  split <;> exact List.cons_ne_nil _ _

theorem isReserved_of_mem_unhidden_clean (h : c ∈ unhidden (clean style maxBytes name)) :
    isReserved style c = false := by
  obtain rfl | hclean := mem_of_mem_unhidden h
  · exact isReserved_low_line style
  · exact isReserved_of_mem_clean hclean

/-- Cleaning and unhiding make a safe name of every text that leaves one. -/
theorem isSafe_unhidden_clean (h : clean style maxBytes name ≠ []) :
    IsSafe style maxBytes (unhidden (clean style maxBytes name)) where
  ne_nil := unhidden_ne_nil h
  length_le := by
    rw [Utf8.length_encode, size_unhidden]
    exact Utf8.size_fitting_le maxBytes _
  head := head?_unhidden _
  slash_notMem := by
    intro hmem
    have hfree := isReserved_of_mem_unhidden_clean hmem
    cases hfree
  nul_notMem := by
    intro hmem
    have hfree := isReserved_of_mem_unhidden_clean hmem
    cases style <;> cases hfree
  control := by
    intro c hmem
    have hfree := isReserved_of_mem_unhidden_clean hmem
    simp only [isReserved, Bool.or_eq_false_iff] at hfree
    exact hfree.1.2
  windows := by
    rintro rfl c hreserved hmem
    have hfree := isReserved_of_mem_unhidden_clean hmem
    simp only [isReserved, Bool.or_eq_false_iff] at hfree
    rw [List.contains_iff_mem.2 hreserved] at hfree
    cases hfree.2

theorem nameWith_of_eq_nil {tidy : Text → Text} (h : tidy (rawName url) = []) (fallback : Text) :
    nameWith tidy fallback url = fallback := by
  rw [nameWith, h]

theorem nameWith_of_ne_nil {tidy : Text → Text} (h : tidy (rawName url) ≠ []) (fallback : Text) :
    nameWith tidy fallback url = unhidden (tidy (rawName url)) := by
  obtain ⟨first, rest, hcons⟩ := List.exists_cons_of_ne_nil h
  rw [nameWith, hcons]
  rfl

/-- The fallback stands in for the name of just those addresses that give none.
    All others have one name whatever the fallback is, and that name is safe. -/
theorem name_eq_fallback_iff (style : Style) (maxBytes : Nat) (url : Text) :
    ((∀ fallback, Naming.name ⟨style, maxBytes, fallback⟩ url = fallback) ↔ Unnamed style maxBytes url) ∧
    (¬ Unnamed style maxBytes url →
      ∃ name, IsSafe style maxBytes name ∧ ∀ fallback, Naming.name ⟨style, maxBytes, fallback⟩ url = name) := by
  have hnamed (h : ¬ Unnamed style maxBytes url) : clean style maxBytes (rawName url) ≠ [] := mt clean_eq_nil_iff.1 h
  constructor
  · constructor
    · intro hfallback
      by_contra h
      have hempty := hfallback []
      rw [Naming.name, nameWith_of_ne_nil (hnamed h)] at hempty
      exact unhidden_ne_nil (hnamed h) hempty
    · intro h fallback
      exact nameWith_of_eq_nil (clean_eq_nil_iff.2 h) fallback
  · intro h
    exact ⟨_, isSafe_unhidden_clean (hnamed h), nameWith_of_ne_nil (hnamed h)⟩

/-- A hidden name with a quote in it is cut within a character, shown and
    cleaned. -/
theorem name_of_hidden_segment :
    ¬ Unnamed .windows 5 "https://h/a/.x?\"é".toList ∧
    ∃ name, IsSafe .windows 5 name ∧
      ∀ fallback, Naming.name ⟨.windows, 5, fallback⟩ "https://h/a/.x?\"é".toList = name := by
  have hnamed : ¬ Unnamed .windows 5 "https://h/a/.x?\"é".toList := by
    rintro (⟨hlast, -⟩ | ⟨c, hfirst, hsize⟩)
    · cases hlast
    · cases hfirst
      exact absurd hsize (by decide)
  exact ⟨hnamed, (name_eq_fallback_iff .windows 5 "https://h/a/.x?\"é".toList).2 hnamed⟩

example : Naming.ofHost.name "https://host/..".toList = "_.".toList := rfl

/-- The rule for the names of downloads: they are within the limit and not
    hidden. -/
structure KeepsRule (maxBytes : Nat) (name : Text) : Prop where
  length_le : (Utf8.encode name).length ≤ maxBytes
  head : name.head? ≠ some '.'

section Rule

variable {naming : Naming}

theorem name_of_unnamed (h : Unnamed naming.style naming.maxBytes url) : naming.name url = naming.fallback :=
  nameWith_of_eq_nil (clean_eq_nil_iff.2 h) naming.fallback

theorem keepsRule_name_of_named (h : ¬ Unnamed naming.style naming.maxBytes url) :
    KeepsRule naming.maxBytes (naming.name url) := by
  have hnamed : clean naming.style naming.maxBytes (rawName url) ≠ [] := mt clean_eq_nil_iff.1 h
  have hsafe := isSafe_unhidden_clean hnamed
  rw [Naming.name, nameWith_of_ne_nil hnamed]
  exact ⟨hsafe.length_le, hsafe.head⟩

theorem keepsRule_name (hfallback : KeepsRule naming.maxBytes naming.fallback) (url : Text) :
    KeepsRule naming.maxBytes (naming.name url) := by
  by_cases h : Unnamed naming.style naming.maxBytes url
  · rwa [name_of_unnamed h]
  · exact keepsRule_name_of_named h

/-- The usual way of naming keeps the rule for every address. -/
theorem keepsRule_name_ofHost (url : Text) : KeepsRule defaultMaxBytes (Naming.ofHost.name url) := by
  have hfallback : KeepsRule Naming.ofHost.maxBytes Naming.ofHost.fallback := ⟨by decide, by decide⟩
  exact keepsRule_name hfallback url

/-- The empty text is an address without a name under any limit. -/
theorem unnamed_nil (style : Style) (maxBytes : Nat) : Unnamed style maxBytes [] :=
  Or.inl ⟨rfl, rfl, rfl⟩

/-- Only a fallback can break the rule: it is returned as it is, for each address
    without a name. So a way of naming keeps the rule for every address exactly
    when its fallback does. -/
theorem keepsRule_name_iff (naming : Naming) :
    (∀ url, KeepsRule naming.maxBytes (naming.name url) ↔
      (Unnamed naming.style naming.maxBytes url → KeepsRule naming.maxBytes naming.fallback)) ∧
    ((∀ url, KeepsRule naming.maxBytes (naming.name url)) ↔ KeepsRule naming.maxBytes naming.fallback) := by
  refine ⟨fun url => ?_, fun hall => ?_, keepsRule_name⟩
  · by_cases h : Unnamed naming.style naming.maxBytes url
    · rw [name_of_unnamed h]
      exact ⟨fun hfallback _ => hfallback, fun himp => himp h⟩
    · exact ⟨fun _ hunnamed => absurd hunnamed h, fun _ => keepsRule_name_of_named h⟩
  · rw [← name_of_unnamed (unnamed_nil naming.style naming.maxBytes)]
    exact hall []

/-- A fallback breaks the rule when it is hidden and when the limit is short, be
    it the usual one. -/
theorem not_keepsRule_name :
    ¬ KeepsRule 5 (Naming.name ⟨.posix, 5, ".download".toList⟩ "https://h/".toList) ∧
      (Naming.name ⟨.posix, defaultMaxBytes, ".download".toList⟩ "https://h/".toList).head? = some '.' ∧
      5 < (Utf8.encode (Naming.name ⟨.posix, 5, defaultFallback⟩ "https://h/".toList)).length :=
  ⟨fun h => h.head rfl, rfl, by decide⟩

end Rule

end Download

end Locator
