import TemplateEngine.Render

/-!
What is printed by a document of one tag. Main statements: a text without the escaped characters is
printed as it is, and escaping the parts of a joined text is escaping all of it.
-/

namespace TemplateEngine.Render

def IsPlainChar (c : Char) : Prop :=
  c ≠ '&' ∧ c ≠ '<' ∧ c ≠ '>' ∧ c ≠ '"' ∧ c ≠ '\''

/-- A text without any of the five characters that are escaped. -/
def NoMarkup (text : String) : Prop :=
  ∀ c ∈ text.toList, IsPlainChar c

theorem noMarkup_append {s t : String} : NoMarkup (s ++ t) ↔ NoMarkup s ∧ NoMarkup t := by
  unfold NoMarkup
  rw [String.toList_append]
  exact List.forall_mem_append

theorem escapedChar_of_noMarkup {c : Char} (h : IsPlainChar c) : escapedChar c = [c] := by
  obtain ⟨hamp, hlt, hgt, hquot, hapos⟩ := h
  unfold escapedChar
  split <;> first | contradiction | rfl

theorem escapedChars_of_noMarkup {cs : List Char} (h : ∀ c ∈ cs, IsPlainChar c) :
    escapedChars cs = cs := by
  induction cs with
  | nil => rfl
  | cons c cs ih =>
    have hsplit : escapedChars (c :: cs) = escapedChar c ++ escapedChars cs := rfl
    rw [hsplit, escapedChar_of_noMarkup (h c (.head _)), ih fun d hd => h d (.tail _ hd)]
    rfl

theorem escape_of_noMarkup {text : String} (h : NoMarkup text) : escape text = text := by
  unfold escape
  rw [escapedChars_of_noMarkup h, String.ofList_toList]

theorem escape_append (s t : String) : escape (s ++ t) = escape s ++ escape t := by
  simp [escape]

/-- Escaping a joined text is escaping its items and what stands between them. -/
theorem escape_intercalate (separator : String) (items : List String) :
    escape (separator.intercalate items) =
      (escape separator).intercalate (items.map escape) := by
  induction items with
  | nil => rfl
  | cons item items ih =>
    cases items with
    | nil => simp
    | cons next items =>
      rw [String.intercalate_cons_cons, escape_append, escape_append, ih]
      exact String.intercalate_cons_cons.symm

section

variable {options : Options}

theorem printText_plain {value : Json} (h : NoMarkup (toText value)) :
    printText options (plain value) = toText value := by
  unfold printText plain
  rw [escape_of_noMarkup h, ite_self]

theorem ofDocument_singleton (template : String) (node : Node) (context : Json) :
    ofDocument options ⟨template, [node]⟩ context =
      renderNode options [rootScope context] node := by
  unfold ofDocument
  rw [renderNodes, renderNodes]
  cases renderNode options [rootScope context] node with
  | error e => rfl
  | ok output => exact congrArg Except.ok String.append_empty

theorem ofDocument_print {template : String} {line : Nat} {expr : Expr} {context : Json}
    {printed : Evaluated} (h : eval options [rootScope context] expr = .ok printed) :
    ofDocument options ⟨template, [.print line expr]⟩ context =
      .ok (printText options printed) := by
  rw [ofDocument_singleton, renderNode, h]
  rfl

end

end TemplateEngine.Render
