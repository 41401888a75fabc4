import Locator.Proofs.Path.Names
import Locator.Text.Percent
import Locator.Text.Utf8.Lemmas

namespace Locator.Percent

/-- A hexadecimal digit of a value, in lower or in upper case. -/
def IsDigit (n : Nat) (c : Char) : Prop :=
  "0123456789abcdef".toList[n]? = some c ∨ "0123456789ABCDEF".toList[n]? = some c

instance (n : Nat) (c : Char) : Decidable (IsDigit n c) :=
  inferInstanceAs (Decidable (_ ∨ _))

/-- A sign and the two digits of a byte, each of them in either case. -/
inductive IsEscape : UInt8 → Text → Prop where
  | mk {b : UInt8} {high low : Char} (high_isDigit : IsDigit (b.toNat / 16) high)
      (low_isDigit : IsDigit (b.toNat % 16) low) : IsEscape b ['%', high, low]

/-- Bytes written as escapes, one behind the other. -/
inductive AreEscapes : List UInt8 → Text → Prop where
  | nil : AreEscapes [] []
  | cons {b : UInt8} {bs : List UInt8} {first rest : Text} (head : IsEscape b first) (tail : AreEscapes bs rest) :
      AreEscapes (b :: bs) (first ++ rest)

/-- A text as any encoder may write it that never leaves the sign as it is. Every
    other character may stay or be written as the escapes of its bytes, wherever
    it stands. -/
inductive IsEncoding : Text → Text → Prop where
  | nil : IsEncoding [] []
  | asIs {c : Char} {s t : Text} (ne_sign : c ≠ '%') (tail : IsEncoding s t) : IsEncoding (c :: s) (c :: t)
  | escaped {c : Char} {s written t : Text} (head : AreEscapes (String.utf8EncodeChar c) written)
      (tail : IsEncoding s t) : IsEncoding (c :: s) (written ++ t)

variable {inSet : Char → Bool} {c : Char} {n : Nat} {s t written : Text} {b : UInt8} {bs : List UInt8}

theorem forall_between {p : Char → Prop} {first last : Char}
    (h : ∀ k : Fin (last.toNat + 1 - first.toNat), p (Char.ofNat (first.toNat + k))) (c : Char) (hlo : first ≤ c)
    (hhi : c ≤ last) : p c := by
  have hleast : first.toNat ≤ c.toNat := hlo
  have hgreatest : c.toNat ≤ last.toNat := hhi
  have hc := h ⟨c.toNat - first.toNat, by omega⟩
  rwa [Nat.add_sub_cancel' hleast, Char.ofNat_toNat] at hc

/-- What holds of the sixteen digits of either case holds of every digit. -/
theorem IsDigit.elim {p : Nat → Char → Prop} (h : IsDigit n c)
    (hlower : ∀ k : Fin 16, p k "0123456789abcdef".toList[k])
    (hupper : ∀ k : Fin 16, p k "0123456789ABCDEF".toList[k]) : p n c := by
  obtain h | h := h
  · obtain ⟨hlt, rfl⟩ := List.getElem?_eq_some_iff.1 h
    exact hlower ⟨n, hlt⟩
  · obtain ⟨hlt, rfl⟩ := List.getElem?_eq_some_iff.1 h
    exact hupper ⟨n, hlt⟩

theorem IsDigit.lt (h : IsDigit n c) : n < 16 :=
  h.elim (p := fun n _ => n < 16) Fin.isLt Fin.isLt

theorem isDigit_hexDigit (h : n < 16) : IsDigit n (hexDigit n) := by
  have hdigits : ∀ n : Fin 16, IsDigit n (hexDigit n) := by decide
  exact hdigits ⟨n, h⟩

/-- The digits are the characters that have a value. -/
theorem hexValue?_eq_some_iff : hexValue? c = some n ↔ IsDigit n c := by
  constructor
  · intro h
    have hdecimal : ∀ c, '0' ≤ c → c ≤ '9' → IsDigit (c.toNat - 0x30) c := forall_between (by decide)
    have hlower : ∀ c, 'a' ≤ c → c ≤ 'f' → IsDigit (c.toNat - 0x57) c := forall_between (by decide)
    have hupper : ∀ c, 'A' ≤ c → c ≤ 'F' → IsDigit (c.toNat - 0x37) c := forall_between (by decide)
    unfold hexValue? at h
    split at h
    · next hc => exact Option.some.inj h ▸ hdecimal c hc.1 hc.2
    split at h
    · next hc => exact Option.some.inj h ▸ hlower c hc.1 hc.2
    split at h
    · next hc => exact Option.some.inj h ▸ hupper c hc.1 hc.2
    · cases h
  · intro h
    exact h.elim (p := fun n c => hexValue? c = some n) (by decide) (by decide)

/-- Two digits behind a sign are the escape of the byte that they are worth. -/
theorem isEscape_of_isDigit {m : Nat} {high low : Char} (hhigh : IsDigit m high) (hlow : IsDigit n low)
    (hb : b.toNat = m * 16 + n) : IsEscape b ['%', high, low] := by
  have hn := hlow.lt
  have hfirst : b.toNat / 16 = m := by omega
  have hsecond : b.toNat % 16 = n := by omega
  exact .mk (hfirst ▸ hhigh) (hsecond ▸ hlow)

/-- An escape is read as its byte, whatever follows. -/
theorem IsEscape.bytes_append (h : IsEscape b written) (s : Text) : bytes (written ++ s) = b :: bytes s := by
  obtain ⟨hhigh, hlow⟩ := h
  have hvalue : b.toNat / 16 * 16 + b.toNat % 16 = b.toNat := by omega
  simp [bytes, hexValue?_eq_some_iff.2 hhigh, hexValue?_eq_some_iff.2 hlow, hvalue]

theorem AreEscapes.bytes_append (h : AreEscapes bs written) (s : Text) : bytes (written ++ s) = bs ++ bytes s := by
  induction h with
  | nil => rfl
  | cons head tail ih => rw [List.append_assoc, head.bytes_append, ih, List.cons_append]

theorem encodeChar_sign : String.utf8EncodeChar '%' = [0x25] := by decide

theorem bytes_cons_of_ne (h : c ≠ '%') (s : Text) : bytes (c :: s) = String.utf8EncodeChar c ++ bytes s := by
  rw [bytes]
  rintro high low rest rfl
  exact absurd rfl h

theorem escape_cons (inSet : Char → Bool) (c : Char) (s : Text) :
    escape inSet (c :: s) =
      (if inSet c then (String.utf8EncodeChar c).flatMap byte else [c]) ++ escape inSet s :=
  List.flatMap_cons

theorem escape_append (inSet : Char → Bool) (a b : Text) :
    escape inSet (a ++ b) = escape inSet a ++ escape inSet b :=
  List.flatMap_append

/-- Slashes outside the set still stand between the names of an escaped path. -/
theorem escape_slashed (h : inSet '/' = false) (names : List Text) :
    escape inSet (Path.slashed names) = Path.slashed (names.map (escape inSet)) := by
  induction names with
  | nil => rfl
  | cons first rest ih =>
    cases rest with
    | nil => rw [Path.slashed_singleton, List.map_singleton, Path.slashed_singleton]
    | cons second rest =>
      rw [Path.slashed_cons_cons, escape_append, escape_cons, h, ih]
      exact (Path.slashed_cons_cons _ _ _).symm

/-- An encoding stands for the bytes of the text, since no sign in it is left to
    be taken for an escape. -/
theorem IsEncoding.bytes_eq (h : IsEncoding s t) : bytes t = Utf8.encode s := by
  induction h with
  | nil => rfl
  | asIs ne_sign tail ih => rw [bytes_cons_of_ne ne_sign, ih, Utf8.encode_cons]
  | escaped head tail ih => rw [head.bytes_append, ih, Utf8.encode_cons]

theorem IsEncoding.unescape_eq (h : IsEncoding s t) : unescape t = s := by
  rw [unescape, h.bytes_eq, Utf8.decode_encode]

theorem isEscape_byte (b : UInt8) : IsEscape b (byte b) := by
  have hlt : b.toNat < 256 := b.toNat_lt
  exact .mk (isDigit_hexDigit (by omega)) (isDigit_hexDigit (by omega))

theorem areEscapes_flatMap_byte (bs : List UInt8) : AreEscapes bs (bs.flatMap byte) := by
  induction bs with
  | nil => exact .nil
  | cons b rest ih => exact .cons (isEscape_byte b) ih

/-- Escaping the characters of a set is an encoding when the sign is in the
    set. -/
theorem isEncoding_escape (h : inSet '%' = true) (s : Text) : IsEncoding s (escape inSet s) := by
  induction s with
  | nil => exact .nil
  | cons c rest ih =>
    rw [escape_cons]
    cases hc : inSet c with
    | true => exact .escaped (areEscapes_flatMap_byte _) ih
    | false =>
      have hne : c ≠ '%' := by
        rintro rfl
        rw [h] at hc
        cases hc
      exact .asIs hne ih

theorem unescape_escape (h : inSet '%' = true) (s : Text) : unescape (escape inSet s) = s :=
  (isEncoding_escape h s).unescape_eq

/-- A character of the set is not in an escaped text, unless escapes are written
    with it. -/
theorem notMem_escape (hset : inSet c = true) (hsign : c ≠ '%') (hdigit : ∀ n : Fin 16, c ≠ hexDigit n) (s : Text) :
    c ∉ escape inSet s := by
  intro hmem
  obtain ⟨d, -, hc⟩ := List.mem_flatMap.1 hmem
  split at hc
  · obtain ⟨b, -, hbyte⟩ := List.mem_flatMap.1 hc
    have hlt : b.toNat < 256 := b.toNat_lt
    have hhigh : c ≠ hexDigit (b.toNat / 16) := hdigit ⟨b.toNat / 16, by omega⟩
    have hlow : c ≠ hexDigit (b.toNat % 16) := hdigit ⟨b.toNat % 16, by omega⟩
    simp [byte, hsign, hhigh, hlow] at hbyte
  · next hd =>
    obtain rfl := List.mem_singleton.1 hc
    exact hd hset

end Locator.Percent
