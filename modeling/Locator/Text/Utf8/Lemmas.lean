import Locator.Text.Utf8

namespace Locator.Utf8

theorem first_two {n : Nat} (hlo : 0x80 ≤ n) (hhi : n < 0x800) :
    first (n / 64 + 192) = .more ⟨0, 0x80, 0xBF, n / 64⟩ := by
  rw [first, if_neg (by omega), if_neg (by omega), if_pos (by omega)]
  congr 2
  omega

theorem first_three {n : Nat} (hlo : 0x800 ≤ n) (hhi : n < 0x10000) :
    first (n / 4096 + 224) =
      .more ⟨1, if n < 0x1000 then 0xA0 else 0x80, if 0xD000 ≤ n ∧ n < 0xE000 then 0x9F else 0xBF, n / 4096⟩ := by
  rw [first, if_neg (by omega), if_neg (by omega), if_neg (by omega), if_pos (by omega)]
  congr 2
  · split <;> split <;> omega
  · split <;> split <;> omega
  · omega

theorem first_four {n : Nat} (hlo : 0x10000 ≤ n) (hhi : n < 0x110000) :
    first (n / 262144 + 240) =
      .more ⟨2, if n < 0x40000 then 0x90 else 0x80, if 0x100000 ≤ n then 0x8F else 0xBF, n / 262144⟩ := by
  rw [first, if_neg (by omega), if_neg (by omega), if_neg (by omega), if_neg (by omega), if_pos (by omega)]
  congr 2
  · split <;> split <;> omega
  · split <;> split <;> omega
  · omega

theorem next_last (value : Nat) {least greatest b : Nat} (hlo : least ≤ b) (hhi : b ≤ greatest) :
    next ⟨0, least, greatest, value⟩ b = .char (Char.ofNat (value * 64 + b % 64)) := by
  rw [next, if_neg (by simp only [not_or]; omega)]

theorem next_more (lacking value : Nat) {least greatest b : Nat} (hlo : least ≤ b) (hhi : b ≤ greatest) :
    next ⟨lacking + 1, least, greatest, value⟩ b = .more ⟨lacking, 0x80, 0xBF, value * 64 + b % 64⟩ := by
  rw [next, if_neg (by simp only [not_or]; omega)]

theorem decodeFrom_begin {b : UInt8} {s : Begun} (h : first b.toNat = .more s) (r : List UInt8) :
    decodeFrom none (b :: r) = decodeFrom (some s) r := by
  simp [decodeFrom, follow, h]

theorem decodeFrom_go_on {b : UInt8} {s t : Begun} (h : next s b.toNat = .more t) (r : List UInt8) :
    decodeFrom (some s) (b :: r) = decodeFrom (some t) r := by
  simp [decodeFrom, follow, h]

theorem decodeFrom_finish {b : UInt8} {s : Begun} {c : Char} (h : next s b.toNat = .char c) (r : List UInt8) :
    decodeFrom (some s) (b :: r) = c :: decodeFrom none r := by
  simp [decodeFrom, follow, h]

theorem toNat_ofNat {n : Nat} (h : n < 256) : (UInt8.ofNat n).toNat = n := by
  simpa using h

/-- The bytes of a character are read as that character, whatever follows. -/
theorem decodeFrom_encodeChar (c : Char) (r : List UInt8) :
    decodeFrom none (String.utf8EncodeChar c ++ r) = c :: decodeFrom none r := by
  have hvalid := c.valid
  have hc : Char.ofNat c.val.toNat = c := Char.ofNat_toNat c
  simp only [UInt32.isValidChar, Nat.isValidChar] at hvalid
  simp only [String.utf8EncodeChar]
  generalize c.val.toNat = n at *
  split
  · simp [decodeFrom, follow, first, Nat.mod_eq_of_lt (show n < 256 by omega), show n < 128 by omega, hc]
  split
  · have hlast := next_last (n / 64) (show 0x80 ≤ n % 64 + 128 by omega) (show n % 64 + 128 ≤ 0xBF by omega)
    rw [show n / 64 * 64 + (n % 64 + 128) % 64 = n by omega, hc] at hlast
    rw [show n / 64 % 32 = n / 64 by omega]
    exact (decodeFrom_begin (by rw [toNat_ofNat (by omega), first_two (by omega) (by omega)]) _).trans
      (decodeFrom_finish (by rw [toNat_ofNat (by omega), hlast]) r)
  split
  · have hmore := next_more 0 (n / 4096)
      (show (if n < 0x1000 then 0xA0 else 0x80) ≤ n / 64 % 64 + 128 by split <;> omega)
      (show n / 64 % 64 + 128 ≤ (if 0xD000 ≤ n ∧ n < 0xE000 then 0x9F else 0xBF) by split <;> omega)
    have hlast := next_last (n / 4096 * 64 + (n / 64 % 64 + 128) % 64)
      (show 0x80 ≤ n % 64 + 128 by omega) (show n % 64 + 128 ≤ 0xBF by omega)
    rw [show (n / 4096 * 64 + (n / 64 % 64 + 128) % 64) * 64 + (n % 64 + 128) % 64 = n by omega, hc] at hlast
    rw [show n / 4096 % 16 = n / 4096 by omega]
    exact (decodeFrom_begin (by rw [toNat_ofNat (by omega), first_three (by omega) (by omega)]) _).trans
      ((decodeFrom_go_on (by rw [toNat_ofNat (by omega), hmore]) _).trans
        (decodeFrom_finish (by rw [toNat_ofNat (by omega), hlast]) r))
  · have hsecond := next_more 1 (n / 262144)
      (show (if n < 0x40000 then 0x90 else 0x80) ≤ n / 4096 % 64 + 128 by split <;> omega)
      (show n / 4096 % 64 + 128 ≤ (if 0x100000 ≤ n then 0x8F else 0xBF) by split <;> omega)
    have hthird := next_more 0 (n / 262144 * 64 + (n / 4096 % 64 + 128) % 64)
      (show 0x80 ≤ n / 64 % 64 + 128 by omega) (show n / 64 % 64 + 128 ≤ 0xBF by omega)
    have hlast := next_last
      ((n / 262144 * 64 + (n / 4096 % 64 + 128) % 64) * 64 + (n / 64 % 64 + 128) % 64)
      (show 0x80 ≤ n % 64 + 128 by omega) (show n % 64 + 128 ≤ 0xBF by omega)
    rw [show ((n / 262144 * 64 + (n / 4096 % 64 + 128) % 64) * 64 + (n / 64 % 64 + 128) % 64) * 64
      + (n % 64 + 128) % 64 = n by omega, hc] at hlast
    rw [show n / 262144 % 8 = n / 262144 by omega]
    exact (decodeFrom_begin (by rw [toNat_ofNat (by omega), first_four (by omega) (by omega)]) _).trans
      ((decodeFrom_go_on (by rw [toNat_ofNat (by omega), hsecond]) _).trans
        ((decodeFrom_go_on (by rw [toNat_ofNat (by omega), hthird]) _).trans
          (decodeFrom_finish (by rw [toNat_ofNat (by omega), hlast]) r)))

/-- What is encoded reads back. -/
theorem decode_encode (s : Text) : decode (encode s) = s := by
  induction s with
  | nil => rfl
  | cons c r ih =>
    simp only [decode, encode, List.flatMap_cons] at ih ⊢
    rw [decodeFrom_encodeChar, ih]

/-- A byte within a character: no character begins with one. -/
def isInner (b : UInt8) : Bool :=
  0x80 ≤ b.toNat && b.toNat < 0xC0

theorem isInner_eq_false_iff {b : UInt8} : isInner b = false ↔ b.toNat < 0x80 ∨ 0xC0 ≤ b.toNat := by
  rw [isInner, Bool.and_eq_false_iff, decide_eq_false_iff_not, decide_eq_false_iff_not, Nat.not_le, Nat.not_lt]

/-- A character is written as a byte that is not an inner one and inner bytes
    behind it. -/
theorem exists_encodeChar_eq_cons (c : Char) :
    ∃ b rest, String.utf8EncodeChar c = b :: rest ∧ isInner b = false ∧ ∀ d ∈ rest, isInner d = true := by
  have hfirst {n : Nat} (hlt : n < 256) (h : n < 0x80 ∨ 0xC0 ≤ n) : isInner (UInt8.ofNat n) = false := by
    rwa [isInner_eq_false_iff, toNat_ofNat hlt]
  have hinner (n : Nat) : isInner (UInt8.ofNat (n % 64 + 128)) = true := by
    rw [isInner, toNat_ofNat (by omega), Bool.and_eq_true, decide_eq_true_iff, decide_eq_true_iff]
    omega
  simp only [String.utf8EncodeChar]
  generalize c.val.toNat = n
  split
  · exact ⟨_, _, rfl, hfirst (by omega) (by omega), nofun⟩
  split
  · refine ⟨_, _, rfl, hfirst (by omega) (by omega), ?_⟩
    exact List.forall_mem_singleton.2 (hinner _)
  split
  · refine ⟨_, _, rfl, hfirst (by omega) (by omega), ?_⟩
    exact List.forall_mem_cons.2 ⟨hinner _, List.forall_mem_singleton.2 (hinner _)⟩
  · refine ⟨_, _, rfl, hfirst (by omega) (by omega), ?_⟩
    exact List.forall_mem_cons.2 ⟨hinner _, List.forall_mem_cons.2 ⟨hinner _, List.forall_mem_singleton.2 (hinner _)⟩⟩

theorem encode_cons (c : Char) (s : Text) : encode (c :: s) = String.utf8EncodeChar c ++ encode s :=
  List.flatMap_cons

theorem encode_append (a b : Text) : encode (a ++ b) = encode a ++ encode b :=
  List.flatMap_append

theorem length_encode (s : Text) : (encode s).length = size s := by
  induction s with
  | nil => rfl
  | cons c r ih => rw [encode_cons, List.length_append, String.length_utf8EncodeChar, ih, size]

theorem fitting_prefix (room : Nat) (s : Text) : fitting room s <+: s := by
  induction s generalizing room with
  | nil => exact List.nil_prefix
  | cons c r ih =>
    rw [fitting]
    split
    · exact List.cons_prefix_cons.2 ⟨rfl, ih _⟩
    · exact List.nil_prefix

theorem size_fitting_le (room : Nat) (s : Text) : size (fitting room s) ≤ room := by
  induction s generalizing room with
  | nil => exact Nat.zero_le _
  | cons c r ih =>
    rw [fitting]
    split
    · have := ih (room - c.utf8Size)
      simp only [size]
      omega
    · exact Nat.zero_le _

/-- Nothing fits exactly when the first character does not. -/
theorem fitting_eq_nil_iff {room : Nat} {s : Text} : fitting room s = [] ↔ ∀ c ∈ s.head?, room < c.utf8Size := by
  cases s with
  | nil => simp [fitting]
  | cons c r => simp [fitting]

end Locator.Utf8
