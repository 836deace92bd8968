import TemplateEngine.Proofs.Script.Readers

/-!
The grammar of string literals between single quotes. Main statement: in front of any text, the
literal of a text is read in one way only, up to its own closing quote and as that text.
-/

namespace TemplateEngine.Script

/-- Behind its opening quote a literal has this value, and this is left behind its closing quote. A
backslash stands for a character together with one letter or with the four digits of its code; a
quote that is not escaped ends the literal, and a line end cannot stand in it. -/
inductive ReadsInside : List Char → List Char → List Char → Prop
  | close (rest : List Char) : ReadsInside ('\'' :: rest) [] rest
  | char {c : Char} {cs value rest : List Char} (hquote : c ≠ '\'') (hslash : c ≠ '\\')
      (hend : isLineEnd c = false) (h : ReadsInside cs value rest) :
      ReadsInside (c :: cs) (c :: value) rest
  | letter {letter c : Char} {cs value rest : List Char} (hc : escape? letter = some c)
      (h : ReadsInside cs value rest) : ReadsInside ('\\' :: letter :: cs) (c :: value) rest
  | code {a b c d x : Char} {cs value rest : List Char}
      (hx : Json.hexValue? a b c d = some x.toNat) (h : ReadsInside cs value rest) :
      ReadsInside ('\\' :: 'u' :: a :: b :: c :: d :: cs) (x :: value) rest

/-- A text begins with a literal of this value, and this is left behind it. -/
def ReadsLiteral (source value rest : String) : Prop :=
  ∃ cs, source.toList = '\'' :: cs ∧ ReadsInside cs value.toList rest.toList

variable {cs value rest : List Char}

/-- What the grammar reads the reader of literals reads, so it is read in one way only. -/
theorem ReadsInside.literalRest_eq (h : ReadsInside cs value rest) :
    literalRest cs = some (value, rest) := by
  induction h with
  | close => rfl
  | @char c cs value rest hquote hslash hend _ ih =>
    rw [literalRest, if_neg (by simp [hend]), ih]
    · rfl
    · exact hquote
    · exact fun _ _ _ _ _ hc _ => hslash hc
    · exact fun _ _ hc _ => hslash hc
  | @letter letter c cs value rest hc _ ih =>
    rw [literalRest, hc, Option.bind_some, ih]
    · rfl
    · rintro _ _ _ _ _ rfl
      simp [escape?] at hc
  | code hx _ ih =>
    rw [literalRest, hx, Option.bind_some, Char.ofNat_toNat, ih]
    rfl

/-- Every character of a text is read back from what is written for it. -/
theorem ReadsInside.literalChar (c : Char) (h : ReadsInside cs value rest) :
    ReadsInside (literalChar c ++ cs) (c :: value) rest := by
  unfold Script.literalChar
  split
  · exact .letter rfl h
  · exact .letter rfl h
  · exact .letter rfl h
  · exact .letter rfl h
  · exact .letter rfl h
  · exact .code rfl h
  · exact .code rfl h
  · next hslash hquote hnewline hreturn _ hline hparagraph =>
    refine .char hquote hslash ?_ h
    simp only [isLineEnd, Bool.or_eq_false_iff, beq_eq_false_iff_ne]
    exact ⟨⟨⟨hnewline, hreturn⟩, hline⟩, hparagraph⟩

/-- The inside of a literal, up to its closing quote, is read as the text it is made of. -/
theorem readsInside_flatMap (text rest : List Char) :
    ReadsInside (text.flatMap literalChar ++ '\'' :: rest) text rest := by
  induction text with
  | nil => exact .close rest
  | cons c text ih =>
    rw [List.flatMap_cons, List.append_assoc]
    exact ih.literalChar c

/-- The literal of a text in front of any other text is read as that text and ends in front of the
other, and it cannot be read in any other way. -/
theorem readsLiteral_literal_append_iff (text rest value behind : String) :
    ReadsLiteral (literal text ++ rest) value behind ↔ value = text ∧ behind = rest := by
  have hsource : (literal text ++ rest).toList =
      '\'' :: (text.toList.flatMap literalChar ++ '\'' :: rest.toList) := by
    rw [String.toList_append, literal, String.toList_ofList, literalChars, List.append_assoc]
    rfl
  have hread := readsInside_flatMap text.toList rest.toList
  constructor
  · rintro ⟨cs, hcs, h⟩
    obtain rfl := (List.cons.inj (hsource.symm.trans hcs)).2
    obtain ⟨hvalue, hbehind⟩ :=
      Prod.mk.inj (Option.some.inj (h.literalRest_eq.symm.trans hread.literalRest_eq))
    exact ⟨String.toList_inj.1 hvalue, String.toList_inj.1 hbehind⟩
  · rintro ⟨rfl, rfl⟩
    exact ⟨_, hsource, hread⟩

end TemplateEngine.Script
