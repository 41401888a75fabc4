import Locator.Proofs.Link.Reading

namespace Locator.Link

open Text

/-- A run of blanks, which may be empty. -/
structure Gap where
  text : Text
  blank : ∀ c ∈ text, isBlank c = true

/-- A value as it is written: between quotes, or as a token that no quote
    opens. -/
inductive Value where
  | quoted (text : Text) (ne_nil : text ≠ []) (quote_notMem : '"' ∉ text)
  | token (text : Text) (ne_nil : text ≠ []) (inToken : ∀ c ∈ text, inToken c = true) (head : text.head? ≠ some '"')

namespace Value

def text : Value → Text
  | quoted text .. => text
  | token text .. => text

def write : Value → Text
  | quoted text .. => '"' :: text ++ ['"']
  | token text .. => text

/-- What may stand behind a value: anything behind a quote, and behind a token
    only what is no part of it. -/
def EndsAt : Value → Text → Prop
  | quoted .., _ => True
  | token .., rest => ∀ c ∈ rest.head?, c = ';' ∨ c = ',' ∨ isBlank c = true

end Value

/-- A parameter as it is written, with the gaps behind the semicolon, around the
    sign and behind the value. -/
structure Field where
  key : Text
  value : Value
  lead : Gap
  beforeSign : Gap
  afterSign : Gap
  trail : Gap
  key_ne_nil : key ≠ []
  inKey : ∀ c ∈ key, inKey c = true

namespace Field

def parameter (f : Field) : Text × Text :=
  (f.key, f.value.text)

/-- A parameter up to the end of its value. -/
def stem (f : Field) : Text :=
  ';' :: f.lead.text ++ f.key ++ f.beforeSign.text ++ '=' :: f.afterSign.text ++ f.value.write

def write (f : Field) : Text :=
  f.stem ++ f.trail.text

def isNext (f : Field) : Bool :=
  f.key == "rel".toList && f.value.text == "next".toList

end Field

/-- A link as it is written, with the gaps around its target. -/
structure Written where
  target : Text
  fields : List Field
  lead : Gap
  trail : Gap
  target_ne_nil : target ≠ []
  angle_notMem : '>' ∉ target

namespace Written

def link (w : Written) : Link :=
  ⟨w.target, w.fields.map Field.parameter⟩

def opening (w : Written) : Text :=
  w.lead.text ++ '<' :: w.target ++ '>' :: w.trail.text

def write (w : Written) : Text :=
  w.opening ++ w.fields.flatMap Field.write

def isNext (w : Written) : Bool :=
  w.fields.any Field.isNext

end Written

/-- The value of a link header. -/
def writeAll (links : List Written) : Text :=
  [','].intercalate (links.map Written.write)

variable {rest : Text}

theorem not_inToken_of_endsAt {c : Char} (h : c = ';' ∨ c = ',' ∨ isBlank c = true) : inToken c = false := by
  obtain rfl | rfl | h := h
  · decide
  · decide
  · simp [inToken, h]

theorem Value.trimLeft_write_append (v : Value) (rest : Text) : trimLeft (v.write ++ rest) = v.write ++ rest := by
  apply trimLeft_of_head?
  cases v with
  | quoted text hne hquote =>
    rintro c ⟨⟩
    decide
  | token text hne htoken hhead =>
    exact head?_append_of_forall hne fun c hc => not_isBlank_of_inToken (htoken c hc)

/-- A written value is read to its end, a token not as a quoted value. -/
theorem Value.read_write (v : Value) (h : v.EndsAt rest) :
    (quotedValue? (v.write ++ rest)).or (token? (v.write ++ rest)) = some (v.text, rest) := by
  cases v with
  | quoted text hne hquote =>
    have hread : quotedValue? ((quoted text hne hquote).write ++ rest) = some (text, rest) :=
      quotedValue?_eq_some_iff.2 ⟨hne, hquote, by simp [write]⟩
    rw [hread, Option.some_or]
    rfl
  | token text hne htoken hhead =>
    have hnone : quotedValue? (text ++ rest) = none := by
      apply quotedValue?_eq_none_iff.2
      intro inner behind hopen
      obtain ⟨first, more, rfl⟩ := List.exists_cons_of_ne_nil hne
      obtain rfl : first = '"' := (List.cons.inj hopen).1
      exact absurd rfl hhead
    have hread : token? (text ++ rest) = some (text, rest) :=
      token?_eq_some_iff.2 ⟨hne, htoken, fun c hc => not_inToken_of_endsAt (h c hc), rfl⟩
    change (quotedValue? (text ++ rest)).or (token? (text ++ rest)) = some (text, rest)
    rw [hnone, Option.none_or, hread]

/-- A written parameter is read, and the blanks behind it are skipped. -/
theorem Field.parameter?_stem_append (f : Field) (h : f.value.EndsAt rest) :
    parameter? (f.stem ++ rest) = some (f.parameter, trimLeft rest) := by
  have hstem : f.stem ++ rest = ';' :: (f.lead.text ++ (f.key ++ (f.beforeSign.text ++
      '=' :: (f.afterSign.text ++ (f.value.write ++ rest))))) := by
    simp [stem]
  rw [hstem, parameter?_key_append f.lead.blank f.key_ne_nil f.inKey f.beforeSign.blank,
    trimLeft_append_of_blank f.afterSign.blank, f.value.trimLeft_write_append, f.value.read_write h]
  rfl

/-- What stands between two parameters of a value or behind all of them. -/
def AtMark (rest : Text) : Prop :=
  ∀ c ∈ rest.head?, c = ';' ∨ c = ','

theorem AtMark.trimLeft (h : AtMark rest) : trimLeft rest = rest := by
  apply trimLeft_of_head?
  intro c hc
  obtain rfl | rfl := h c hc <;> decide

theorem AtMark.endsAt (h : AtMark rest) (v : Value) (gap : Gap) : v.EndsAt (gap.text ++ rest) := by
  cases v with
  | quoted => trivial
  | token =>
    rcases hgap : gap.text with _ | ⟨first, more⟩
    · intro c hc
      obtain hc | hc := h c hc
      · exact Or.inl hc
      · exact Or.inr (Or.inl hc)
    · rintro c ⟨⟩
      exact Or.inr (Or.inr (gap.blank first (hgap ▸ List.mem_cons_self)))

theorem atMark_fields_append (fields : List Field) (h : AtMark rest) :
    AtMark (fields.flatMap Field.write ++ rest) := by
  cases fields with
  | nil => exact h
  | cons f fields =>
    rintro c ⟨⟩
    exact Or.inl rfl

theorem takeParameters_stem_append (f : Field) (h : f.value.EndsAt rest) :
    takeParameters (f.stem ++ rest) =
      (f.parameter :: (takeParameters (trimLeft rest)).1, (takeParameters (trimLeft rest)).2) :=
  takeParameters_of_some (f.parameter?_stem_append h)

/-- Written parameters are taken one by one up to the next mark, and from there
    on as the rest is read. -/
theorem takeParameters_fields_append (fields : List Field) (h : AtMark rest) :
    takeParameters (fields.flatMap Field.write ++ rest) =
      (fields.map Field.parameter ++ (takeParameters rest).1, (takeParameters rest).2) := by
  induction fields with
  | nil => rfl
  | cons f fields ih =>
    have hmark := atMark_fields_append fields h
    have hsplit : (f :: fields).flatMap Field.write ++ rest =
        f.stem ++ (f.trail.text ++ (fields.flatMap Field.write ++ rest)) := by
      simp [Field.write]
    rw [hsplit, takeParameters_stem_append f (hmark.endsAt f.value f.trail),
      trimLeft_append_of_blank f.trail.blank, hmark.trimLeft, ih]
    rfl

theorem takeParameters_of_not_semicolon (h : ∀ c ∈ rest.head?, c ≠ ';') : takeParameters rest = ([], rest) := by
  apply takeParameters_of_none
  unfold parameter?
  split
  · exact absurd rfl (h ';' rfl)
  · rfl

theorem Written.target?_opening_append (w : Written) (rest : Text) :
    target? (w.opening ++ rest) = some (w.target, trimLeft rest) := by
  have hopening : w.opening ++ rest = w.lead.text ++ '<' :: (w.target ++ '>' :: (w.trail.text ++ rest)) := by
    simp [opening]
  rw [hopening, target?_angle_append w.lead.blank w.target_ne_nil w.angle_notMem,
    trimLeft_append_of_blank w.trail.blank]

/-- A written link is read, and what stands behind it as further links. -/
theorem list_write_append (w : Written) (h : ∀ c ∈ rest.head?, c = ',') :
    list (w.write ++ rest) = w.link :: further rest := by
  have hmark : AtMark rest := fun c hc => Or.inr (h c hc)
  have hnone : takeParameters rest = ([], rest) := takeParameters_of_not_semicolon fun c hc => by
    rw [h c hc]
    decide
  have htarget := w.target?_opening_append (w.fields.flatMap Field.write ++ rest)
  rw [(atMark_fields_append w.fields hmark).trimLeft, ← List.append_assoc] at htarget
  rw [Written.write, list_of_some htarget, takeParameters_fields_append w.fields hmark, hnone, List.append_nil]
  rfl

theorem list_write_comma_append (w : Written) (more : Text) :
    list (w.write ++ ',' :: more) = w.link :: list more := by
  have hcomma : ∀ c ∈ (',' :: more).head?, c = ',' := by
    rintro c ⟨⟩
    rfl
  rw [list_write_append w hcomma, further_comma]

theorem list_write (w : Written) : list w.write = [w.link] := by
  have hnone : ∀ c ∈ ([] : Text).head?, c = ',' := by
    rintro c ⟨⟩
  have hread := list_write_append w hnone
  rwa [List.append_nil] at hread

theorem writeAll_cons_of_ne_nil (w : Written) {links : List Written} (h : links ≠ []) :
    writeAll (w :: links) = w.write ++ ',' :: writeAll links := by
  obtain ⟨other, more, rfl⟩ := List.exists_cons_of_ne_nil h
  simp [writeAll, List.intercalate_cons_cons]

/-- The links of a written header value are those it was written from. -/
theorem list_writeAll (links : List Written) : list (writeAll links) = links.map Written.link := by
  induction links with
  | nil => exact list_of_none rfl
  | cons w links ih =>
    by_cases hlast : links = []
    · rw [hlast, writeAll, List.map_singleton, List.intercalate_singleton]
      exact list_write w
    · rw [writeAll_cons_of_ne_nil w hlast, list_write_comma_append, ih]
      rfl

end Locator.Link
