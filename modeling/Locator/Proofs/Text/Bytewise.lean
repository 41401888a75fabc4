import Locator.Proofs.Text.Unescape

namespace Locator

/-- A character of one byte stands in front of a text whose bytes begin with
    that byte. -/
theorem Utf8.exists_of_encode_eq_cons {s : Text} {c : Char} {b : UInt8} {r : List UInt8}
    (hc : String.utf8EncodeChar c = [b]) (h : encode s = b :: r) : ∃ rest, s = c :: rest ∧ encode rest = r := by
  rw [← List.singleton_append, ← hc] at h
  have hread : s = c :: decode r := by
    rw [← decode_encode s, h, decode, decodeFrom_encodeChar]
    rfl
  rw [hread, encode_cons] at h
  exact ⟨decode r, hread, List.append_cancel_left h⟩

namespace Percent

/-- The value of a byte that is a hexadecimal digit of either case. -/
def digitValue? (b : UInt8) : Option UInt8 :=
  if 0x30 ≤ b ∧ b ≤ 0x39 then some (b - 0x30)
  else if 0x61 ≤ b ∧ b ≤ 0x66 then some (b - 0x61 + 10)
  else if 0x41 ≤ b ∧ b ≤ 0x46 then some (b - 0x41 + 10)
  else none

/-- The byte of the escape at a place, where the input does not break it off. -/
def escapeAt? (input : List UInt8) (i : Nat) : Option UInt8 :=
  if input[i]? = some 0x25 ∧ i + 2 < input.length then
    match input[i + 1]?.bind digitValue?, input[i + 2]?.bind digitValue? with
    | some high, some low => some (high <<< 4 ||| low)
    | _, _ => none
  else none

/-- The bytes that are read from a place on: that of an escape, and then from
    behind it, or else the byte that stands there. -/
def readFrom (input : List UInt8) (i : Nat) : List UInt8 :=
  if _h : i < input.length then
    match escapeAt? input i with
    | some b => b :: readFrom input (i + 3)
    | none => input[i] :: readFrom input (i + 1)
  else []
termination_by input.length - i

variable {c : Char} {n : Nat} {t written : Text} {b d high low : UInt8} {inner input rest : List UInt8}

theorem IsDigit.exists_byte (h : IsDigit n c) :
    ∃ d, String.utf8EncodeChar c = [d] ∧ digitValue? d = some (UInt8.ofNat n) := by
  apply List.map_eq_singleton_iff.1
  exact h.elim (p := fun n c => (String.utf8EncodeChar c).map digitValue? = [some (UInt8.ofNat n)]) (by decide)
    (by decide)

theorem exists_isDigit (h : digitValue? d = some high) :
    ∃ c, IsDigit high.toNat c ∧ String.utf8EncodeChar c = [d] := by
  have hdigits : ∀ n : Fin 256, (digitValue? (UInt8.ofNat n)).all (fun value =>
      IsDigit value.toNat (Char.ofNat n) ∧ String.utf8EncodeChar (Char.ofNat n) = [UInt8.ofNat n]) = true := by
    decide +kernel
  have hdigit := hdigits ⟨d.toNat, d.toNat_lt⟩
  rw [UInt8.ofNat_toNat, h] at hdigit
  exact ⟨_, of_decide_eq_true hdigit⟩

theorem toNat_shiftLeft_or (hhigh : high.toNat < 16) (hlow : low.toNat < 16) :
    (high <<< 4 ||| low).toNat = high.toNat * 16 + low.toNat := by
  have hvalues : ∀ m n : Fin 16, (UInt8.ofNat m <<< 4 ||| UInt8.ofNat n).toNat = m * 16 + n := by decide
  have hvalue := hvalues ⟨high.toNat, hhigh⟩ ⟨low.toNat, hlow⟩
  rwa [UInt8.ofNat_toNat, UInt8.ofNat_toNat] at hvalue

theorem escapeAt?_eq_some_iff :
    escapeAt? input 0 = some b ↔
      ∃ d e rest high low, input = 0x25 :: d :: e :: rest ∧ digitValue? d = some high ∧ digitValue? e = some low ∧
        high <<< 4 ||| low = b := by
  constructor
  · intro h
    unfold escapeAt? at h
    split at h
    · next hbounds =>
      split at h
      · next high low hhigh hlow =>
        match input with
        | [] | [_] | [_, _] => simp at hbounds
        | _ :: d :: e :: rest =>
          obtain rfl := Option.some.inj hbounds.1
          exact ⟨d, e, rest, high, low, rfl, hhigh, hlow, Option.some.inj h⟩
      · cases h
    · cases h
  · rintro ⟨d, e, rest, high, low, rfl, hhigh, hlow, rfl⟩
    simp [escapeAt?, hhigh, hlow]

/-- An escape takes three bytes, and the last two of them give its value. -/
theorem IsEscape.exists_digits (h : IsEscape b written) :
    ∃ d e high low, Utf8.encode written = [0x25, d, e] ∧ digitValue? d = some high ∧ digitValue? e = some low ∧
      high <<< 4 ||| low = b := by
  obtain ⟨hhigh, hlow⟩ := h
  obtain ⟨d, hd, hfirst⟩ := hhigh.exists_byte
  obtain ⟨e, he, hsecond⟩ := hlow.exists_byte
  have hlt : b.toNat < 256 := b.toNat_lt
  have hm : (UInt8.ofNat (b.toNat / 16)).toNat = b.toNat / 16 := Utf8.toNat_ofNat (by omega)
  have hn : (UInt8.ofNat (b.toNat % 16)).toNat = b.toNat % 16 := Utf8.toNat_ofNat (by omega)
  refine ⟨d, e, _, _, ?_, hfirst, hsecond, ?_⟩
  · rw [Utf8.encode_cons, Utf8.encode_cons, Utf8.encode_cons, encodeChar_sign, hd, he]
    rfl
  · apply UInt8.toNat_inj.1
    rw [toNat_shiftLeft_or (by omega) (by omega), hm, hn]
    omega

/-- In the bytes of a text an escape stands where one stands in the text. -/
theorem escapeAt?_encode_eq_some_iff :
    escapeAt? (Utf8.encode t) 0 = some b ↔ ∃ written, IsEscape b written ∧ written <+: t := by
  rw [escapeAt?_eq_some_iff]
  constructor
  · rintro ⟨d, e, rest, high, low, hinput, hhigh, hlow, rfl⟩
    obtain ⟨first, hfirst, hd⟩ := exists_isDigit hhigh
    obtain ⟨second, hsecond, he⟩ := exists_isDigit hlow
    obtain ⟨_, rfl, hdigits⟩ := Utf8.exists_of_encode_eq_cons encodeChar_sign hinput
    obtain ⟨_, rfl, hdigit⟩ := Utf8.exists_of_encode_eq_cons hd hdigits
    obtain ⟨t, rfl, -⟩ := Utf8.exists_of_encode_eq_cons he hdigit
    have hvalue := toNat_shiftLeft_or hfirst.lt hsecond.lt
    exact ⟨['%', first, second], isEscape_of_isDigit hfirst hsecond hvalue, t, rfl⟩
  · rintro ⟨written, hwritten, t, rfl⟩
    obtain ⟨d, e, high, low, hencode, hvalue⟩ := hwritten.exists_digits
    refine ⟨d, e, Utf8.encode t, high, low, ?_, hvalue⟩
    rw [Utf8.encode_append, hencode]
    rfl

theorem escapeAt?_append (front rest : List UInt8) (i : Nat) :
    escapeAt? (front ++ rest) (front.length + i) = escapeAt? rest i := by
  have hplace (j : Nat) : (front ++ rest)[front.length + j]? = rest[j]? := by
    rw [List.getElem?_append_right (Nat.le_add_right _ _), Nat.add_sub_cancel_left]
  simp only [escapeAt?, Nat.add_assoc, hplace, List.length_append, Nat.add_lt_add_iff_left]

/-- What is read from a place on does not hang on what is in front of it. -/
theorem readFrom_append (front rest : List UInt8) (i : Nat) :
    readFrom (front ++ rest) (front.length + i) = readFrom rest i := by
  have hwithin (i : Nat) : front.length + i < (front ++ rest).length ↔ i < rest.length := by
    rw [List.length_append, Nat.add_lt_add_iff_left]
  fun_induction readFrom rest i with
  | case1 i hi b hescape ih =>
    rw [readFrom, dif_pos ((hwithin i).2 hi), escapeAt?_append, hescape]
    exact congrArg (b :: ·) ih
  | case2 i hi hnone ih =>
    rw [readFrom, dif_pos ((hwithin i).2 hi), escapeAt?_append, hnone]
    simp only [List.getElem_append_right (Nat.le_add_right _ _), Nat.add_sub_cancel_left]
    exact congrArg (rest[i] :: ·) ih
  | case3 i hend => rw [readFrom, dif_neg (mt (hwithin i).1 hend)]

theorem readFrom_of_none (h : escapeAt? (b :: input) 0 = none) : readFrom (b :: input) 0 = b :: readFrom input 0 := by
  have hwithin : 0 < (b :: input).length := Nat.zero_lt_succ _
  rw [readFrom, dif_pos hwithin, h]
  exact congrArg (b :: ·) (readFrom_append [b] input 0)

theorem readFrom_of_some {front : List UInt8} (hlength : front.length = 3)
    (h : escapeAt? (front ++ input) 0 = some b) : readFrom (front ++ input) 0 = b :: readFrom input 0 := by
  have hwithin : 0 < (front ++ input).length := by
    rw [List.length_append]
    omega
  rw [readFrom, dif_pos hwithin, h]
  dsimp only
  rw [← readFrom_append front input 0, hlength]

/-- Bytes within characters are no signs. -/
theorem readFrom_inner_append (h : ∀ d ∈ inner, Utf8.isInner d = true) (input : List UInt8) :
    readFrom (inner ++ input) 0 = inner ++ readFrom input 0 := by
  induction inner with
  | nil => rfl
  | cons d rest ih =>
    obtain ⟨hd, hrest⟩ := List.forall_mem_cons.1 h
    have hnone : escapeAt? (d :: (rest ++ input)) 0 = none := by
      apply if_neg
      rintro ⟨⟨⟩, -⟩
      cases hd
    rw [List.cons_append, readFrom_of_none hnone, ih hrest, List.cons_append]

/-- Going over the bytes of a text finds what going over its characters does. -/
theorem readFrom_encode (t : Text) : readFrom (Utf8.encode t) 0 = bytes t := by
  -- an escape takes off three characters, so the induction is on the length
  induction hlength : t.length using Nat.strongRecOn generalizing t with
  | _ n ih =>
    cases t with
    | nil =>
      rw [Utf8.encode, List.flatMap_nil, readFrom]
      rfl
    | cons c rest =>
      cases hescape : escapeAt? (Utf8.encode (c :: rest)) 0 with
      | some b =>
        obtain ⟨written, hwritten, behind, htext⟩ := escapeAt?_encode_eq_some_iff.1 hescape
        obtain ⟨d, e, -, -, hencode, -⟩ := hwritten.exists_digits
        have hcount : n = behind.length + 3 := by
          rw [← hlength, ← htext, List.length_append, hwritten.length_eq, Nat.add_comm]
        rw [← htext, Utf8.encode_append] at hescape ⊢
        rw [readFrom_of_some (congrArg List.length hencode) hescape, hwritten.bytes_append,
          ih behind.length (by omega) behind rfl]
      | none =>
        have hopens : opensEscape (c :: rest) = false := by
          rw [Bool.eq_false_iff, ne_eq, opensEscape_iff]
          rintro ⟨b, hopens⟩
          rw [escapeAt?_encode_eq_some_iff.2 hopens] at hescape
          cases hescape
        obtain ⟨b, inner, hencode, -, hinner⟩ := Utf8.exists_encodeChar_eq_cons c
        have hcount : n = rest.length + 1 := hlength.symm
        rw [Utf8.encode_cons, hencode, List.cons_append] at hescape ⊢
        rw [readFrom_of_none hescape, readFrom_inner_append hinner, ih rest.length (by omega) rest rfl,
          bytes_cons_of_not_opensEscape hopens, hencode, List.cons_append]

/-- Every encoding that leaves no sign as it is reads back as the text: going
    over its bytes finds the bytes of the text, so that none of them is replaced,
    and no sign that is found is taken for another escape. A text stands for
    itself exactly when no sign in it has two digits behind it. -/
theorem unescape_undoes_encodings :
    (∀ s t, IsEncoding s t → unescape t = s ∧ readFrom (Utf8.encode t) 0 = Utf8.encode s) ∧
    (∀ t, unescape t = Utf8.decode (readFrom (Utf8.encode t) 0)) ∧
    ∀ s, unescape s = s ↔ ∀ m n high low, IsDigit m high → IsDigit n low → ¬ ['%', high, low] <:+: s := by
  refine ⟨?_, ?_, ?_⟩
  · intro s t h
    exact ⟨h.unescape_eq, (readFrom_encode t).trans h.bytes_eq⟩
  · intro t
    rw [readFrom_encode, unescape]
  · intro s
    rw [unescape_eq_self_iff, Bool.eq_false_iff, ne_eq, holdsEscape_iff]
    constructor
    · intro hnone m n high low hhigh hlow hinfix
      obtain ⟨b, hescape⟩ := exists_isEscape hhigh hlow
      exact hnone ⟨b, _, hescape, hinfix⟩
    · rintro hnone ⟨b, _, ⟨hhigh, hlow⟩, hinfix⟩
      exact hnone _ _ _ _ hhigh hlow hinfix

/-- The sign that is read in front of two digits is not read again, and the two
    bytes of a letter may differ in case. -/
theorem unescape_of_encoded_sign :
    IsEncoding "%25é".toList "%2525%c3%A9".toList ∧
    unescape "%2525%c3%A9".toList = "%25é".toList ∧
    readFrom (Utf8.encode "%2525%c3%A9".toList) 0 = Utf8.encode "%25é".toList := by
  have hsign : AreEscapes (String.utf8EncodeChar '%') "%25".toList :=
    .cons (.mk (by decide) (by decide)) .nil
  have hletter : AreEscapes (String.utf8EncodeChar 'é') "%c3%A9".toList :=
    .cons (.mk (by decide) (by decide)) (.cons (.mk (by decide) (by decide)) .nil)
  have h : IsEncoding "%25é".toList "%2525%c3%A9".toList :=
    .escaped hsign (.asIs (by decide) (.asIs (by decide) (.escaped hletter .nil)))
  exact ⟨h, unescape_undoes_encodings.1 _ _ h⟩

example : unescape "%%4g%é%4".toList = "%%4g%é%4".toList := by decide

end Percent

end Locator
