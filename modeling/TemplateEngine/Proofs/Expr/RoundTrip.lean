import TemplateEngine.Proofs.Expr.Reading
import TemplateEngine.Proofs.Lexer.Spaced

/-!
The round trip of expressions. Main statement: the text of an expression with natural numbers and
well-spelled names, put between the delimiters of a print tag, is read back as the expression up to
lines, and the read stops at the end of the tag.
-/

namespace TemplateEngine.Expr

open Lexer

variable (quote : Nat → String → Quote)

/-- An expression does not begin with an operator. -/
theorem noOperator_lexemes (e : Expr) (h : e.Spellable) :
    ∃ w ws, e.lexemes quote = w :: ws ∧ NoOperator w := by
  match e, h with
  | null _, _ => exact ⟨_, _, rfl, noOperator_name isName_null⟩
  | bool _ true, _ => exact ⟨_, _, rfl, noOperator_name isName_true⟩
  | bool _ false, _ => exact ⟨_, _, rfl, noOperator_name isName_false⟩
  | number _ value, _ => exact ⟨_, _, rfl, noOperator_number _⟩
  | string line value, _ => exact ⟨_, _, rfl, noOperator_string _ _⟩
  | name _ value, h => exact ⟨_, _, rfl, noOperator_name h⟩
  | array _ _, _ => exact ⟨_, _, rfl, noOperator_mark (by decide)⟩
  | attr _ object _, h =>
    obtain ⟨w, ws, hws, hw⟩ := noOperator_lexemes object h.1
    exact ⟨w, _, by rw [lexemes, hws]; rfl, hw⟩
  | item _ object _, h =>
    obtain ⟨w, ws, hws, hw⟩ := noOperator_lexemes object h.1
    exact ⟨w, _, by rw [lexemes, hws]; rfl, hw⟩
  | unary _ _ _, _ => exact ⟨_, _, rfl, noOperator_mark (by decide)⟩
  | binary _ _ _ _, _ => exact ⟨_, _, rfl, noOperator_mark (by decide)⟩
  | filter _ _ input [], h =>
    obtain ⟨w, ws, hws, hw⟩ := noOperator_lexemes input h.1
    exact ⟨w, _, by rw [lexemes, hws]; rfl, hw⟩
  | filter _ _ input (_ :: _), h =>
    obtain ⟨w, ws, hws, hw⟩ := noOperator_lexemes input h.1
    exact ⟨w, _, by rw [lexemes, hws]; rfl, hw⟩

/-- A unary operator in front of an operand. -/
theorem lexes_unary {operand : Expr} (hoperand : Lexes (operand.lexemes quote))
    (h : operand.Spellable) (op : UnaryOp) :
    Lexes (.operator op.text :: operand.lexemes quote) := by
  cases op with
  | not =>
    obtain ⟨w, ws, hws, hw⟩ := noOperator_lexemes quote operand h
    rw [hws] at hoperand ⊢
    exact lexes_not hw hoperand
  | neg => exact (lexes_binary .sub).append hoperand
  | pos => exact (lexes_binary .add).append hoperand

theorem lexes_itemLexemes {items : List Expr} (h : ∀ e ∈ items, Lexes (e.lexemes quote)) :
    ∀ isFirst, Lexes (itemLexemes quote isFirst items) := by
  induction items with
  | nil => exact fun _ => lexes_nil
  | cons e es ih =>
    intro isFirst
    have he := h e (by simp)
    have hes := ih (fun x hx => h x (List.mem_cons_of_mem _ hx)) false
    cases isFirst with
    | true => exact he.append hes
    | false => exact ((lexes_mark (c := ',') (by decide)).append he).append hes

mutual

theorem lexes_lexemes (e : Expr) (h : e.Spellable) : Lexes (e.lexemes quote) := by
  match e, h with
  | null _, _ => exact lexes_name isName_null
  | bool _ true, _ => exact lexes_name isName_true
  | bool _ false, _ => exact lexes_name isName_false
  | number _ value, _ => exact lexes_number _
  | string _ _, _ => exact lexes_string _ _
  | name _ _, h => exact lexes_name h
  | array _ items, h =>
    exact lexes_between (lexes_itemLexemes quote (lexes_all items h) true) (.inr ⟨rfl, rfl⟩)
  | attr _ object member, h =>
    exact (lexes_lexemes object h.1).append
      ((lexes_mark (c := '.') (by decide)).append (lexes_name h.2))
  | item _ object index, h =>
    exact (lexes_lexemes object h.1).append
      (lexes_between (lexes_lexemes index h.2) (.inr ⟨rfl, rfl⟩))
  | unary _ op operand, h =>
    exact lexes_between (lexes_unary quote (lexes_lexemes operand h) h op) (.inl ⟨rfl, rfl⟩)
  | binary _ op left right, h =>
    exact lexes_between ((lexes_lexemes left h.1).append
      ((lexes_binary op).append (lexes_lexemes right h.2))) (.inl ⟨rfl, rfl⟩)
  | filter _ word input [], h =>
    exact (lexes_lexemes input h.1).append
      ((lexes_mark (c := '|') (by decide)).append (lexes_name h.2.1))
  | filter _ word input (arg :: args), h =>
    exact (lexes_lexemes input h.1).append
      ((lexes_mark (c := '|') (by decide)).append ((lexes_name h.2.1).append
        (lexes_between (lexes_itemLexemes quote (lexes_all (arg :: args) h.2.2) true)
          (.inl ⟨rfl, rfl⟩))))

theorem lexes_all (items : List Expr) (h : AllSpellable items) :
    ∀ e ∈ items, Lexes (e.lexemes quote) := by
  match items, h with
  | [], _ => simp
  | first :: others, h =>
    exact List.forall_mem_cons.2 ⟨lexes_lexemes first h.1, lexes_all others h.2⟩

end

theorem lexes_bareLexemes (e : Expr) (h : e.Spellable) : Lexes (e.bareLexemes quote) := by
  have hlexes := lexes_lexemes quote e h
  match e, h with
  | unary _ op operand, h => exact lexes_unary quote (lexes_lexemes quote operand h) h op
  | binary _ op left right, h =>
    exact (lexes_lexemes quote left h.1).append
      ((lexes_binary op).append (lexes_lexemes quote right h.2))
  | null _, _ | bool _ _, _ | number _ _, _ | string _ _, _ | name _ _, _ | array _ _, _
  | attr _ _ _, _ | item _ _ _, _ | filter _ _ _ _, _ => exact hlexes

/-- The text of an expression is read back as the expression up to lines, with or without
parentheses of its own around a unary or binary one. -/
theorem read_printTag {e : Expr} (hreadable : e.Readable) (hspellable : e.Spellable)
    {ws : List Lexeme} (hws : ws = e.lexemes quote ∨ ws = e.bareLexemes quote) (name : String) :
    ∃ lexer start first e' rest, Lexer.ofOptions {} .drop = .ok lexer ∧
      lexer.tokenize ⟨name, printTag ws⟩ = .ok start ∧ start.advance? = some first ∧
        outcome read first = .ok (e', rest) ∧ e'.unlined = e.unlined ∧
          rest.current.kind = .varEnd := by
  have hlexes : Lexes ws := by
    rcases hws with rfl | rfl
    · exact lexes_lexemes quote e hspellable
    · exact lexes_bareLexemes quote e hspellable
  have hreads : ReadsWhole e ws := by
    rcases hws with rfl | rfl
    · exact (reads_lexemes quote e hreadable).whole (beginsOperand_lexemes quote e)
    · exact readsWhole_bareLexemes quote e hreadable
  obtain ⟨lexer, opening, ts, closing, eof, hlexer, hts, hclosing, heof, htokens⟩ :=
    hlexes.tokenize name
  obtain ⟨first, hfirst, hahead⟩ :=
    TokenStream.exists_advance?_ofTokens opening (ts ++ [closing]) heof name
  rw [List.append_assoc] at hfirst hahead
  obtain ⟨e', rest, heq, hrest, hread⟩ := hreads.read hts hahead (endsExpr_varEnd hclosing)
  refine ⟨lexer, _, first, e', rest, hlexer, htokens, hfirst, hread, heq, ?_⟩
  rw [(List.cons.inj hrest).1, hclosing]

/-- An expression with operators, a list, an escaped quote, a filter and an access. -/
theorem read_printTag_membership :
    let e := binary 1 .notIn (unary 1 .not (name 1 "a"))
      (filter 1 "join" (array 1 [number 1 (Decimal.ofInteger 3), string 1 "don't"])
        [attr 1 (name 1 "b") "c"])
    ∃ lexer start first e' rest, Lexer.ofOptions {} .drop = .ok lexer ∧
      lexer.tokenize
        ⟨"page", "\x7b\x7b ( not a ) not in [ 3 , 'don\\'t' ] | join ( b . c ) \x7d\x7d"⟩ =
          .ok start ∧ start.advance? = some first ∧ outcome read first = .ok (e', rest) ∧
          e'.unlined = e.unlined ∧ rest.current.kind = .varEnd := by
  intro e
  have hname : ∀ word ∈ ["a", "b", "c", "join"], IsName word := by
    intro word hword
    simp only [List.mem_cons, List.not_mem_nil, or_false] at hword
    rcases hword with rfl | rfl | rfl | rfl
    · exact ⟨⟨'a', [], rfl, by decide, by decide⟩, by decide⟩
    · exact ⟨⟨'b', [], rfl, by decide, by decide⟩, by decide⟩
    · exact ⟨⟨'c', [], rfl, by decide, by decide⟩, by decide⟩
    · exact ⟨⟨'j', ['o', 'i', 'n'], rfl, by decide, by decide⟩, by decide⟩
  have hreadable : e.Readable := by
    refine ⟨?_, ⟨⟨3, by decide, rfl⟩, trivial, trivial⟩, ?_, trivial⟩
    · show "a" ∉ literalWords
      decide
    · show "b" ∉ literalWords
      decide
  have hspellable : e.Spellable :=
    ⟨hname "a" (by decide), ⟨trivial, trivial, trivial⟩, hname "join" (by decide),
      ⟨hname "b" (by decide), hname "c" (by decide)⟩, trivial⟩
  have htext : printTag (e.bareLexemes fun _ _ => .single) =
      "\x7b\x7b ( not a ) not in [ 3 , 'don\\'t' ] | join ( b . c ) \x7d\x7d" := by
    have hthree : natural (Decimal.ofInteger 3) = 3 := natural_ofInteger (n := 3) (by decide)
    simp only [e, bareLexemes, lexemes, itemLexemes, hthree]
    decide
  rw [← htext]
  exact read_printTag (fun _ _ => .single) hreadable hspellable (.inr rfl) "page"

end TemplateEngine.Expr
