import TemplateEngine.Environment
import TemplateEngine.Proofs.Document.Strings
import TemplateEngine.Proofs.Lexer.Literals

/-!
String literals in print tags. Main statement: under default settings a print tag with two string
literals and no operator between them is accepted exactly if both literals are accepted alone, and
the first one ends with an interpolation or the second one begins with one.
-/

namespace TemplateEngine

namespace Lexer

variable {comments : Comments} {text first second gap : List Char} {tokens left right : List Token}

theorem carriageReturn_notMem_unifyBreaks (cs : List Char) : '\r' ∉ unifyBreaks cs := by
  fun_induction unifyBreaks cs with
  | case1 => simp
  | case2 cs ih => simp [ih]
  | case3 cs _ ih => simp [ih]
  | case4 c cs _ hne ih =>
    rw [List.mem_cons, not_or]
    exact ⟨fun h => hne h.symm, ih⟩

/-- The tokens of a literal are those of a string in parts. -/
theorem IsLiteral.exists_partTokens (h : IsLiteral comments text tokens) :
    tokens ≠ [] ∧ ∃ parts, PartTokens true parts tokens := by
  cases h.form with
  | @plain quote cs body token _ _ htoken =>
    obtain ⟨hkind, hvalue⟩ := Prod.mk.inj htoken
    exact ⟨by simp, [.plain body], .plain hkind hvalue (.nil false)⟩
  | @string cs tokens t hliteral hleaves _ =>
    have hin : InTag [.print] := trivial
    have hescape : '\\' ∉ defaultRules.interpolation.opening := by decide
    obtain ⟨parts, hparts⟩ := exists_readsString rfl hin hleaves
    refine ⟨?_, parts, (hparts.partTokens hescape hin rfl).1⟩
    have hcs : cs.head? ≠ some '"' := by
      intro hquote
      obtain ⟨more, rfl⟩ := List.head?_eq_some_iff.1 hquote
      cases more <;> simp [stringLiteral?, literalBody?] at hliteral
    obtain ⟨token, more, rfl, -⟩ := hparts.exists_first (by
      rw [State.rest_openString, rest_printState]
      exact hcs)
    simp

end Lexer

namespace Environment

open Lexer TemplateEngine.Expr

variable {env : Environment} {comments : Comments} {text first second gap : List Char}
  {tokens left right : List Token}

theorem parseSource_eq_ok_iff {source : Source} {stream : TokenStream}
    (h : env.lexer.tokenize source = .ok stream) {document : Document} :
    env.parseSource source = .ok document ↔ Document.read env.tags stream = .ok document := by
  have htokenize : env.tokenize source = .ok stream := by
    rw [tokenize, h]
    rfl
  rw [parseSource, htokenize, ok_bind, parse]
  exact mapError_eq_ok

theorem exists_parseSource_iff {source : Source} {stream : TokenStream}
    (h : env.lexer.tokenize source = .ok stream) :
    (∃ document, env.parseSource source = .ok document) ↔
      ∃ document, Document.read env.tags stream = .ok document :=
  exists_congr fun _ => parseSource_eq_ok_iff h

/-- A print tag with one literal is accepted exactly if the parts of the literal can be read. -/
theorem exists_parseSource_literal_iff (hlexer : Lexer.ofOptions {} comments = .ok env.lexer)
    (h : IsLiteral comments text tokens) {parts : List StringPart}
    (hparts : PartTokens true parts tokens) (hbreaks : '\r' ∉ text) (name : String) :
    (∃ document, env.parseSource ⟨name, String.ofList (printChars text)⟩ = .ok document) ↔
      ∀ part ∈ parts, PartReadable part := by
  have hreaches := fun s (hs : InPrint s ([' '] ++ (text ++ [' ', '\x7d', '\x7d']))) =>
    h.reaches isGap_space hs
  obtain ⟨lexer, opening, ts, closing, eof, hlexer', hopening, hts, hclosing, heof, htokens⟩ :=
    tokenize_print hreaches hbreaks name
  obtain rfl := Except.ok.inj (hlexer.symm.trans hlexer')
  obtain ⟨others, hothers, hreadable⟩ := exists_partTokens hparts hts
  have hne := Token.ne_nil_of_spelling hts h.exists_partTokens.1
  rw [exists_parseSource_iff htokens, hreadable]
  exact Document.exists_read_iff hothers hne hopening hclosing heof name

/-- Under default settings of the lexer, whether it keeps comments or not, a print tag with two
string literals and no operator between them is accepted exactly if each literal is accepted in a
print tag of its own, and the tokens of the first one end with an interpolation or those of the
second one begin with one. -/
theorem exists_parseSource_literals_iff (hlexer : Lexer.ofOptions {} comments = .ok env.lexer)
    (hfirst : IsLiteral comments first left) (hgap : IsGap gap)
    (hsecond : IsLiteral comments second right) {source : Source}
    (hsource : unifyBreaks source.code.toList = printChars (first ++ gap ++ second)) :
    (∃ document, env.parseSource source = .ok document) ↔
      (∃ document,
        env.parseSource ⟨source.name, String.ofList (printChars first)⟩ = .ok document) ∧
      (∃ document,
        env.parseSource ⟨source.name, String.ofList (printChars second)⟩ = .ok document) ∧
      (EndsWithInterpolation left ∨ BeginsWithInterpolation right) := by
  have hbreaks : '\r' ∉ printChars (first ++ gap ++ second) :=
    hsource ▸ carriageReturn_notMem_unifyBreaks _
  have hbreaks_first : '\r' ∉ first := fun hmem => hbreaks (by simp [printChars, hmem])
  have hbreaks_second : '\r' ∉ second := fun hmem => hbreaks (by simp [printChars, hmem])
  have hreaches : ∀ s, InPrint s ([' '] ++ (first ++ gap ++ second ++ [' ', '\x7d', '\x7d'])) →
      ∃ t ts, Reaches defaultRules comments s ts t ∧
        (∃ us vs, ts = us ++ vs ∧ left.map Token.spelling = us.map Token.spelling ∧
          right.map Token.spelling = vs.map Token.spelling) ∧
        InPrint t [' ', '\x7d', '\x7d'] := by
    intro s hs
    rw [List.append_assoc, List.append_assoc] at hs
    obtain ⟨t, us, hus, hleft, ht⟩ := hfirst.reaches isGap_space hs
    obtain ⟨u, vs, hvs, hright, hu⟩ := hsecond.reaches hgap ht
    exact ⟨u, us ++ vs, hus.trans hvs, ⟨us, vs, rfl, hleft, hright⟩, hu⟩
  obtain ⟨lexer, opening, ts, closing, eof, hlexer', hopening, hts, hclosing, heof, htokens⟩ :=
    tokenize_printChars hreaches hsource
  obtain rfl := Except.ok.inj (hlexer.symm.trans hlexer')
  obtain ⟨us, vs, rfl, hus, hvs⟩ := hts
  obtain ⟨hleft, parts, hparts⟩ := hfirst.exists_partTokens
  obtain ⟨hright, others, hothers⟩ := hsecond.exists_partTokens
  obtain ⟨parts', hparts', hreadable⟩ := exists_partTokens hparts hus
  obtain ⟨others', hothers', hreadable'⟩ := exists_partTokens hothers hvs
  rw [exists_parseSource_iff htokens,
    exists_parseSource_literal_iff hlexer hfirst hparts hbreaks_first,
    exists_parseSource_literal_iff hlexer hsecond hothers hbreaks_second, hreadable, hreadable',
    EndsWithInterpolation, BeginsWithInterpolation, Token.kinds_eq hus, Token.kinds_eq hvs]
  exact Document.exists_read_append_iff hparts' (Token.ne_nil_of_spelling hus hleft) hothers'
    (Token.ne_nil_of_spelling hvs hright) hopening hclosing heof source.name

/-- A literal that is a single interpolation. -/
theorem isLiteral_interpolation :
    IsLiteral .drop ['"', '#', '\x7b', 'a', '\x7d', '"']
      [⟨.interpolationStart, "#\x7b", 1⟩, ⟨.name, "a", 1⟩, ⟨.interpolationEnd, "\x7d", 1⟩] := by
  obtain ⟨tokens, t, hstep, hleaves, hrest, rfl⟩ : ∃ tokens t,
      expressionStep defaultRules (printState "\"#\x7ba\x7d\"") =
        .ok ([], (printState "\"#\x7ba\x7d\"").openString) ∧
      Leaves defaultRules .drop [.print] (printState "\"#\x7ba\x7d\"").openString tokens t ∧
      t.rest = [] ∧ tokens =
        [⟨.interpolationStart, "#\x7b", 1⟩, ⟨.name, "a", 1⟩, ⟨.interpolationEnd, "\x7d", 1⟩] :=
    ⟨_, _, rfl, .step (by decide) rfl rfl (.step (by decide) rfl rfl
      (.step (by decide) rfl rfl (.step (by decide) rfl rfl (.left rfl)))), rfl, rfl⟩
  exact ⟨⟨.double, rfl⟩, t, ⟨[], _, _, hstep, hleaves, rfl⟩, hrest⟩

theorem isLiteral_plain : IsLiteral .drop ['\'', 'b', '\''] [⟨.string, "b", 1⟩] :=
  ⟨⟨.single, rfl⟩, _, ⟨[⟨.string, "b", 1⟩], _, [], rfl, .left rfl, rfl⟩, rfl⟩

/-- An interpolation with a plain literal behind it. -/
theorem exists_parseSource_literals_iff_interpolation :
    ∃ env left right, ofOptions {} = .ok env ∧ Lexer.ofOptions {} .drop = .ok env.lexer ∧
      IsLiteral .drop ['"', '#', '\x7b', 'a', '\x7d', '"'] left ∧ IsGap [' '] ∧
      IsLiteral .drop ['\'', 'b', '\''] right ∧
      unifyBreaks "\x7b\x7b \"#\x7ba\x7d\" 'b' \x7d\x7d".toList =
        printChars (['"', '#', '\x7b', 'a', '\x7d', '"'] ++ [' '] ++ ['\'', 'b', '\'']) ∧
      ((∃ document,
          env.parseSource ⟨"page", "\x7b\x7b \"#\x7ba\x7d\" 'b' \x7d\x7d"⟩ = .ok document) ↔
        (∃ document, env.parseSource ⟨"page",
          String.ofList (printChars ['"', '#', '\x7b', 'a', '\x7d', '"'])⟩ = .ok document) ∧
        (∃ document, env.parseSource ⟨"page",
          String.ofList (printChars ['\'', 'b', '\''])⟩ = .ok document) ∧
        (EndsWithInterpolation left ∨ BeginsWithInterpolation right)) := by
  obtain ⟨env, henv, hlexer⟩ : ∃ env, ofOptions {} = .ok env ∧
      Lexer.ofOptions {} .drop = .ok env.lexer := ⟨_, rfl, rfl⟩
  have hsource : unifyBreaks
      (Source.mk "page" "\x7b\x7b \"#\x7ba\x7d\" 'b' \x7d\x7d").code.toList =
      printChars (['"', '#', '\x7b', 'a', '\x7d', '"'] ++ [' '] ++ ['\'', 'b', '\'']) := by
    decide +kernel
  exact ⟨env, _, _, henv, hlexer, isLiteral_interpolation, isGap_space, isLiteral_plain, hsource,
    exists_parseSource_literals_iff hlexer isLiteral_interpolation isGap_space isLiteral_plain
      hsource⟩

/-- Two literals with white space and no operator between them that are accepted. -/
theorem exists_parseSource_interpolation_plain :
    ∃ env left right document, ofOptions {} = .ok env ∧
      IsLiteral .drop ['"', '#', '\x7b', 'a', '\x7d', '"'] left ∧
      IsLiteral .drop ['\'', 'b', '\''] right ∧
      "\x7b\x7b \"#\x7ba\x7d\" 'b' \x7d\x7d".toList =
        printChars (['"', '#', '\x7b', 'a', '\x7d', '"'] ++ [' '] ++ ['\'', 'b', '\'']) ∧
      env.parseSource ⟨"page", "\x7b\x7b \"#\x7ba\x7d\" 'b' \x7d\x7d"⟩ = .ok document := by
  obtain ⟨env, henv⟩ : ∃ env, ofOptions {} = .ok env := ⟨_, rfl⟩
  have hparse : (ofOptions {} >>= fun env =>
      env.parseSource ⟨"page", "\x7b\x7b \"#\x7ba\x7d\" 'b' \x7d\x7d"⟩).isOk = true := by
    decide +kernel
  rw [henv, ok_bind] at hparse
  cases hdocument : env.parseSource ⟨"page", "\x7b\x7b \"#\x7ba\x7d\" 'b' \x7d\x7d"⟩ with
  | error e => simp [hdocument, Except.isOk, Except.toBool] at hparse
  | ok document =>
    exact ⟨env, _, _, document, henv, isLiteral_interpolation, isLiteral_plain, by decide +kernel,
      hdocument⟩

end Environment

end TemplateEngine
