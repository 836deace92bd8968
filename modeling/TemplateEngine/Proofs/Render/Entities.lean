import TemplateEngine.Proofs.Render.Autoescape
import TemplateEngine.Proofs.Render.Printing

/-!
Entities read back. Main statement: escaping works character by character, what it writes is clean,
and reading the entities from the left gives the text again; where printed values are escaped
anyway, the filter `escape` changes nothing that is printed, however often it is applied.
-/

namespace TemplateEngine.Render

/-- Reads the five entities from the left. An ampersand that begins none of them stays. -/
def unescapedChars : List Char → List Char
  | '&' :: 'a' :: 'm' :: 'p' :: ';' :: cs => '&' :: unescapedChars cs
  | '&' :: 'l' :: 't' :: ';' :: cs => '<' :: unescapedChars cs
  | '&' :: 'g' :: 't' :: ';' :: cs => '>' :: unescapedChars cs
  | '&' :: 'q' :: 'u' :: 'o' :: 't' :: ';' :: cs => '"' :: unescapedChars cs
  | '&' :: '#' :: '0' :: '3' :: '9' :: ';' :: cs => '\'' :: unescapedChars cs
  | c :: cs => c :: unescapedChars cs
  | [] => []

/-- A text with its entities replaced by the characters they stand for. -/
def readEntities (text : String) : String :=
  String.ofList (unescapedChars text.toList)

theorem unescapedChars_cons {c : Char} (hc : c ≠ '&') (cs : List Char) :
    unescapedChars (c :: cs) = c :: unescapedChars cs := by
  rw [unescapedChars] <;> simp [hc]

/-- What stands for a character is read as that character, whatever follows. -/
theorem unescapedChars_escapedChar_append (c : Char) (cs : List Char) :
    unescapedChars (escapedChar c ++ cs) = c :: unescapedChars cs := by
  unfold escapedChar
  split
  · simp [unescapedChars]
  · simp [unescapedChars]
  · simp [unescapedChars]
  · simp [unescapedChars]
  · simp [unescapedChars]
  · next hamp _ _ _ _ => exact unescapedChars_cons hamp cs

theorem unescapedChars_escapedChars (cs : List Char) : unescapedChars (escapedChars cs) = cs := by
  induction cs with
  | nil => rfl
  | cons c cs ih =>
    have hsplit : escapedChars (c :: cs) = escapedChar c ++ escapedChars cs := rfl
    rw [hsplit, unescapedChars_escapedChar_append, ih]

theorem readEntities_escape (text : String) : readEntities (escape text) = text := by
  rw [readEntities, escape, String.toList_ofList, unescapedChars_escapedChars, String.ofList_toList]

/-- An ampersand of a text is told apart from the one that begins an entity. -/
example : readEntities (escape "&lt;") = "&lt;" ∧ readEntities "&lt;" = "<" := by decide

/-- A value is printed as it would be without the filter: it is escaped once, or not at all if it
is safe. -/
theorem printText_applyFilter_escape (strict : Bool) (input : Evaluated) (args : List Json) :
    printText ⟨true, strict⟩ (applyFilter .escape input args) = printText ⟨true, strict⟩ input := by
  cases hsafe : input.safe with
  | true => simp [applyFilter, hsafe]
  | false => simp [applyFilter, printText, hsafe, toText]

theorem filterInput_of_ne {name : String} (hname : name ≠ "default")
    (input : Except RenderError Evaluated) : filterInput name input = input := by
  cases input with
  | ok value => rfl
  | error e => rw [filterInput, if_neg fun h => hname h.1]

theorem eval_filter_escape (options : Options) (scopes : List Scope) {name : String}
    (hname : name = "escape" ∨ name = "e") (line : Nat) (expr : Expr) :
    eval options scopes (.filter line name expr []) =
      (eval options scopes expr).map fun input => applyFilter .escape input [] := by
  have hne : name ≠ "default" := by
    rcases hname with rfl | rfl <;> decide
  have hfilter : Filter.ofName? name = some .escape := by
    rcases hname with rfl | rfl <;> rfl
  rw [eval, filterInput_of_ne hne, evalAll, hfilter]
  cases eval options scopes expr <;> rfl

/-- A print tag writes the same, or fails in the same way, with the filter and without it. -/
theorem renderNode_print_escape (strict : Bool) (scopes : List Scope) {name : String}
    (hname : name = "escape" ∨ name = "e") (line filterLine : Nat) (expr : Expr) :
    renderNode ⟨true, strict⟩ scopes (.print line (.filter filterLine name expr [])) =
      renderNode ⟨true, strict⟩ scopes (.print line expr) := by
  rw [renderNode, renderNode, eval_filter_escape _ _ hname]
  cases eval ⟨true, strict⟩ scopes expr with
  | error e => rfl
  | ok value => exact congrArg Except.ok (printText_applyFilter_escape strict value [])

/-- Escaping takes a text apart anywhere, is clean, and is undone by reading the entities, so that
different texts stay different. With automatic escaping, strict or not, a print tag gives the same
output or the same error in all scopes, and so does a template made of it with every context,
whether the filter that escapes is not applied, applied once, or applied again by its short
name. -/
theorem escape_homomorphism_and_filter_transparent :
    (∀ s t, escape (s ++ t) = escape s ++ escape t) ∧
    (∀ s, Clean (escape s).toList) ∧
    (∀ s, readEntities (escape s) = s) ∧
    Function.Injective escape ∧
    ∀ (strict : Bool) (expr : Expr) (line first second : Nat),
      let once : Expr := .filter first "escape" expr []
      let twice : Expr := .filter second "e" once []
      (∀ scopes, renderNode ⟨true, strict⟩ scopes (.print line once) =
          renderNode ⟨true, strict⟩ scopes (.print line expr) ∧
        renderNode ⟨true, strict⟩ scopes (.print line twice) =
          renderNode ⟨true, strict⟩ scopes (.print line expr)) ∧
      ∀ name context,
        ofDocument ⟨true, strict⟩ ⟨name, [.print line once]⟩ context =
            ofDocument ⟨true, strict⟩ ⟨name, [.print line expr]⟩ context ∧
          ofDocument ⟨true, strict⟩ ⟨name, [.print line twice]⟩ context =
            ofDocument ⟨true, strict⟩ ⟨name, [.print line expr]⟩ context := by
  have hinverse : Function.LeftInverse readEntities escape := readEntities_escape
  refine ⟨escape_append, clean_escape, readEntities_escape, hinverse.injective, ?_⟩
  intro strict expr line first second once twice
  have honce : ∀ scopes, renderNode ⟨true, strict⟩ scopes (.print line once) =
      renderNode ⟨true, strict⟩ scopes (.print line expr) :=
    fun scopes => renderNode_print_escape strict scopes (.inl rfl) line first expr
  have htwice : ∀ scopes, renderNode ⟨true, strict⟩ scopes (.print line twice) =
      renderNode ⟨true, strict⟩ scopes (.print line expr) := by
    intro scopes
    rw [renderNode_print_escape strict scopes (.inr rfl) line second once, honce]
  refine ⟨fun scopes => ⟨honce scopes, htwice scopes⟩, fun name context => ?_⟩
  simp only [ofDocument, renderNodes, honce, htwice, and_self]

end TemplateEngine.Render
