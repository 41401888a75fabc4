import Locator.Proofs.Text.Percent

namespace Locator

namespace Utf8

/-- How many characters the bytes taken so far still owe. -/
def owed : Option Begun → Nat
  | none => 0
  | some _ => 1

/-- Only bytes that never begin a character can go on with the one begun. -/
def Inner (state : Option Begun) : Prop :=
  ∀ s ∈ state, 0x80 ≤ s.least ∧ s.greatest ≤ 0xBF

theorem inner_none : Inner none := nofun

variable {state : Option Begun} {s t : Begun}

theorem inner_first {b : Nat} (h : first b = .more s) : Inner (some s) := by
  rintro _ ⟨⟩
  unfold first at h
  split at h
  · cases h
  split at h
  · cases h
  split at h
  · cases h
    exact ⟨Nat.le_refl _, Nat.le_refl _⟩
  split at h
  · cases h
    dsimp only
    constructor <;> split <;> omega
  split at h
  · cases h
    dsimp only
    constructor <;> split <;> omega
  · cases h

theorem inner_next {b : Nat} (h : next s b = .more t) : Inner (some t) := by
  rintro _ ⟨⟩
  unfold next at h
  split at h
  · cases h
  · split at h
    · cases h
    · cases h
      exact ⟨Nat.le_refl _, Nat.le_refl _⟩

/-- A byte between characters gives one character, at once or later. -/
theorem exists_follow_first (b : Nat) (r : List UInt8) :
    ∃ out after, follow (first b) (decodeFrom · r) = out ++ decodeFrom after r ∧ Inner after ∧
      out.length + owed after = 1 := by
  cases h : first b with
  | char c => exact ⟨[c], none, rfl, inner_none, rfl⟩
  | more s => exact ⟨[], some s, rfl, inner_first h, rfl⟩
  | refused => exact ⟨[replacement], none, rfl, inner_none, rfl⟩

/-- A byte adds at most one character to those owed. -/
theorem exists_decodeFrom_cons (state : Option Begun) (b : UInt8) (r : List UInt8) :
    ∃ out after, decodeFrom state (b :: r) = out ++ decodeFrom after r ∧ Inner after ∧
      out.length + owed after ≤ owed state + 1 := by
  cases state with
  | none =>
    obtain ⟨out, after, hfollow, hinner, howed⟩ := exists_follow_first b.toNat r
    exact ⟨out, after, hfollow, hinner, by rw [howed]; exact Nat.le_add_left 1 _⟩
  | some s =>
    cases h : next s b.toNat with
    | char c => exact ⟨[c], none, decodeFrom_finish h r, inner_none, Nat.le_succ 1⟩
    | more t => exact ⟨[], some t, decodeFrom_go_on h r, inner_next h, Nat.le_succ 1⟩
    | refused =>
      obtain ⟨out, after, hfollow, hinner, howed⟩ := exists_follow_first b.toNat r
      refine ⟨replacement :: out, after, ?_, hinner, ?_⟩
      · simp only [decodeFrom, h, hfollow, List.cons_append]
      · simp only [List.length_cons, owed] at howed ⊢
        omega

/-- A whole character ends the one begun, which is replaced, and is read as
    itself. -/
theorem decodeFrom_some_encodeChar (h : Inner (some s)) (c : Char) (r : List UInt8) :
    decodeFrom (some s) (String.utf8EncodeChar c ++ r) = replacement :: c :: decodeFrom none r := by
  obtain ⟨hleast, hgreatest⟩ := h s rfl
  have hread := decodeFrom_encodeChar c r
  obtain ⟨b, rest, hencode, hb, -⟩ := exists_encodeChar_eq_cons c
  have hrefused : next s b.toNat = .refused := by
    rw [isInner_eq_false_iff] at hb
    rw [next, if_pos (by omega)]
  rw [hencode, List.cons_append] at hread ⊢
  rw [← hread]
  simp only [decodeFrom, hrefused]

theorem length_decodeFrom_encodeChar (h : Inner state) (c : Char) (r : List UInt8) :
    (decodeFrom state (String.utf8EncodeChar c ++ r)).length = owed state + 1 + (decodeFrom none r).length := by
  cases state with
  | none =>
    rw [decodeFrom_encodeChar, List.length_cons, owed]
    omega
  | some s =>
    rw [decodeFrom_some_encodeChar h, List.length_cons, List.length_cons, owed]
    omega

end Utf8

namespace Percent

/-- A sign and two hexadecimal digits in front. -/
def opensEscape : Text → Bool
  | '%' :: h :: l :: _ => (hexValue? h).isSome && (hexValue? l).isSome
  | _ => false

/-- Somewhere in a text a sign is followed by two hexadecimal digits. -/
def holdsEscape : Text → Bool
  | [] => false
  | c :: s => opensEscape (c :: s) || holdsEscape s

variable {c : Char} {s : Text}

/-- Any two digits behind a sign are an escape. -/
theorem exists_isEscape {m n : Nat} {high low : Char} (hhigh : IsDigit m high) (hlow : IsDigit n low) :
    ∃ b, IsEscape b ['%', high, low] := by
  have hm := hhigh.lt
  have hn := hlow.lt
  exact ⟨UInt8.ofNat (m * 16 + n), isEscape_of_isDigit hhigh hlow (Utf8.toNat_ofNat (by omega))⟩

theorem opensEscape_iff : opensEscape s = true ↔ ∃ b written, IsEscape b written ∧ written <+: s := by
  constructor
  · intro h
    unfold opensEscape at h
    split at h
    · next high low rest =>
      rw [Bool.and_eq_true] at h
      obtain ⟨m, hm⟩ := Option.isSome_iff_exists.1 h.1
      obtain ⟨n, hn⟩ := Option.isSome_iff_exists.1 h.2
      obtain ⟨b, hescape⟩ := exists_isEscape (hexValue?_eq_some_iff.1 hm) (hexValue?_eq_some_iff.1 hn)
      exact ⟨b, _, hescape, rest, rfl⟩
    · cases h
  · rintro ⟨b, written, ⟨hhigh, hlow⟩, rest, rfl⟩
    simp [opensEscape, hexValue?_eq_some_iff.2 hhigh, hexValue?_eq_some_iff.2 hlow]

theorem holdsEscape_iff : holdsEscape s = true ↔ ∃ b written, IsEscape b written ∧ written <:+: s := by
  induction s with
  | nil =>
    constructor
    · nofun
    · rintro ⟨b, _, ⟨-, -⟩, hinfix⟩
      cases List.infix_nil.1 hinfix
  | cons c rest ih =>
    rw [holdsEscape, Bool.or_eq_true, opensEscape_iff, ih]
    constructor
    · rintro (⟨b, written, hescape, hprefix⟩ | ⟨b, written, hescape, hinfix⟩)
      · exact ⟨b, written, hescape, hprefix.isInfix⟩
      · exact ⟨b, written, hescape, List.infix_cons hinfix⟩
    · rintro ⟨b, written, hescape, hinfix⟩
      obtain hprefix | hrest := List.infix_cons_iff.1 hinfix
      · exact Or.inl ⟨b, written, hescape, hprefix⟩
      · exact Or.inr ⟨b, written, hescape, hrest⟩

theorem IsEscape.length_eq {b : UInt8} {written : Text} (h : IsEscape b written) : written.length = 3 := by
  cases h
  rfl

/-- A character that opens no escape stands for its own bytes. -/
theorem bytes_cons_of_not_opensEscape (h : opensEscape (c :: s) = false) :
    bytes (c :: s) = String.utf8EncodeChar c ++ bytes s := by
  by_cases hsign : c = '%'
  · subst hsign
    match s with
    | [] => rfl
    | [_] => rfl
    | high :: low :: rest =>
      rw [bytes, encodeChar_sign]
      split
      · next hm hn => simp [opensEscape, hm, hn] at h
      · rfl
  · exact bytes_cons_of_ne hsign s

theorem bytes_of_not_holdsEscape (h : holdsEscape s = false) : bytes s = Utf8.encode s := by
  induction s with
  | nil => rfl
  | cons c rest ih =>
    rw [holdsEscape, Bool.or_eq_false_iff] at h
    rw [bytes_cons_of_not_opensEscape h.1, ih h.2]
    rfl

theorem holdsEscape_of_notMem (h : '%' ∉ s) : holdsEscape s = false := by
  induction s with
  | nil => rfl
  | cons c rest ih =>
    obtain ⟨hsign, hrest⟩ := not_or.1 (mt List.mem_cons.2 h)
    have hopens : opensEscape (c :: rest) = false := by
      unfold opensEscape
      split
      · next htext => exact absurd (List.cons.inj htext).1.symm hsign
      · rfl
    rw [holdsEscape, hopens, ih hrest, Bool.or_false]

/-- Each character of a text, and each escape of three, gives at most one
    character when it is read. -/
theorem length_decodeFrom_bytes {state : Option Utf8.Begun} (hinner : Utf8.Inner state) :
    (Utf8.decodeFrom state (bytes s)).length + (if holdsEscape s then 1 else 0) ≤ Utf8.owed state + s.length := by
  -- an escape takes off three characters, so the induction is on the length
  induction hlength : s.length using Nat.strongRecOn generalizing s state with
  | _ n ih =>
    cases s with
    | nil =>
      cases state <;> simp [bytes, Utf8.decodeFrom, Utf8.owed, holdsEscape]
    | cons c rest =>
      cases hopens : opensEscape (c :: rest) with
      | true =>
        obtain ⟨b, written, hescape, behind, htext⟩ := opensEscape_iff.1 hopens
        obtain ⟨out, after, hdecode, hafter, howed⟩ := Utf8.exists_decodeFrom_cons state b (bytes behind)
        have hcount : n = behind.length + 3 := by
          rw [← hlength, ← htext, List.length_append, hescape.length_eq, Nat.add_comm]
        have hbehind := ih behind.length (by omega) hafter rfl
        rw [← htext, hescape.bytes_append, hdecode, List.length_append]
        split at hbehind <;> split <;> omega
      | false =>
        have hcount : n = rest.length + 1 := hlength.symm
        have hrest := ih rest.length (by omega) Utf8.inner_none rfl
        rw [bytes_cons_of_not_opensEscape hopens, Utf8.length_decodeFrom_encodeChar hinner, holdsEscape, hopens,
          Bool.false_or]
        simp only [Utf8.owed] at hrest
        omega

theorem length_unescape_le (s : Text) : (unescape s).length ≤ s.length := by
  have hlength := length_decodeFrom_bytes (s := s) Utf8.inner_none
  simp only [Utf8.owed] at hlength
  unfold unescape Utf8.decode
  omega

/-- A text stands for itself exactly when it holds no escape: any escape makes
    it shorter. -/
theorem unescape_eq_self_iff : unescape s = s ↔ holdsEscape s = false := by
  constructor
  · intro hself
    have hlength := length_decodeFrom_bytes (s := s) Utf8.inner_none
    have hsame : (Utf8.decodeFrom none (bytes s)).length = s.length := congrArg List.length hself
    cases hholds : holdsEscape s with
    | false => rfl
    | true =>
      simp only [hholds, Utf8.owed, if_true] at hlength
      omega
  · intro hnone
    rw [unescape, bytes_of_not_holdsEscape hnone, Utf8.decode_encode]

end Percent

end Locator
