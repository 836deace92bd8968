import TemplateEngine.Proofs.Environment.Literals
import TemplateEngine.Proofs.Lexer.Numbers

/-!
Number literals from a template to its script. Main statement: what the lexer takes as a number is
accepted as the double that the number is rounded to, and what is written for it in the script is a
decimal literal that denotes this double exactly if the number is not too large for a finite one.
-/

namespace TemplateEngine

namespace Expr

/-- A number in front of a token that ends expressions is the whole expression. -/
theorem takes_read_number {s : TokenStream} {token next : Token} {rest : List Token} {x : Float}
    (hs : s.ahead = token :: next :: rest) (hkind : token.kind = .number)
    (hx : Decimal.read? token.value.toList = some x) (hnext : EndsExpr next) :
    Takes read s (· = number token.line x) (next :: rest) := by
  have hahead : s.ahead = [token] ++ next :: rest := hs
  obtain ⟨k, hlimit, -⟩ := exists_stepLimit_eq hahead
  obtain ⟨e, t, he, ht, hread⟩ := takes_readPrimary_number hs hkind hx k
  have hunary : unaryOp? s.current = none := by
    obtain ⟨rfl, -⟩ := List.cons.inj hs
    simp [unaryOp?, hkind]
  have hends : EndsExpr t.current := (List.cons.inj ht).1 ▸ hnext
  refine ⟨e, t, he, ht, ?_⟩
  rw [outcome_read, hlimit]
  exact outcome_readFrom_of_readPrimary hunary hread hends 0

end Expr

namespace Environment

open Lexer Decimal

variable {env : Environment} {comments : Comments} {cs : List Char}

/-- A number in a print tag is accepted as the double of its text. -/
theorem parseSource_number (hlexer : Lexer.ofOptions {} comments = .ok env.lexer)
    {n : Numeral} (hn : n.IsNumber) {x : Float} (hx : read? n.text = some x) (name : String) :
    ∃ line line', env.parseSource ⟨name, String.ofList (printChars n.text)⟩ =
      .ok ⟨name, [.print line (.number line' x)]⟩ := by
  have hreaches : ∀ s, InPrint s (' ' :: (n.text ++ [' ', '\x7d', '\x7d'])) →
      ∃ t ts, Reaches defaultRules comments s ts t ∧
        ts.map Token.spelling = [(.number, String.ofList n.text)] ∧
          InPrint t [' ', '\x7d', '\x7d'] := by
    intro s hs
    obtain ⟨t, token, htoken, hspelling, ht⟩ := reaches_numeral hn isGap_space hs
    exact ⟨t, [token], htoken, congrArg (fun w => [w]) hspelling, ht⟩
  obtain ⟨lexer, opening, ts, closing, eof, hlexer', hopening, hts, hclosing, heof, htokens⟩ :=
    tokenize_print hreaches (carriageReturn_notMem_text n) name
  obtain rfl := Except.ok.inj (hlexer.symm.trans hlexer')
  obtain ⟨token, rfl, hspelling⟩ := List.map_eq_singleton_iff.1 hts
  obtain ⟨hkind, hvalue⟩ := Prod.mk.inj hspelling
  have hx : read? token.value.toList = some x := by rw [hvalue, String.toList_ofList, hx]
  have hexpr : ∀ s : TokenStream, s.ahead = [token] ++ [closing, eof] →
      Takes Expr.read s (· = .number token.line x) [closing, eof] := fun _ hs =>
    Expr.takes_read_number hs hkind hx (Expr.endsExpr_varEnd hclosing)
  obtain ⟨_, rfl, hread⟩ :=
    Document.read_ofTokens_print hopening hclosing heof hexpr env.tags name
  exact ⟨opening.line, token.line, (parseSource_eq_ok_iff htokens).2 hread⟩

/-- Under default settings of the lexer, a text that it takes as one number is accepted as the
double that the number is rounded to, alone in a print tag and wherever an operand is read. In every
scope a script is written for it, and it is a decimal literal that denotes this double exactly if
the number lies before the half way behind the greatest finite double. -/
theorem exists_denotes_number_iff (hlexer : Lexer.ofOptions {} comments = .ok env.lexer)
    (hne : cs ≠ []) (hnumber : numberLength cs = cs.length) (name : String) :
    ∃ (n : Numeral) (x : Float), n.IsNumber ∧ n.text = cs ∧ (∀ y, RoundsTo n.value y ↔ y = x) ∧
      (∀ (s : TokenStream) (token next : Token) (rest : List Token) (k : Nat),
        s.ahead = token :: next :: rest → token.kind = .number → token.value.toList = cs →
          Takes (Expr.readPrimary (k + 1)) s (· = .number token.line x) (next :: rest)) ∧
      (∃ line line', env.parseSource ⟨name, String.ofList (printChars cs)⟩ =
        .ok ⟨name, [.print line (.number line' x)]⟩) ∧
      ∀ scope line, ∃ text, Script.ofExpr scope (.number line x) = .ok text ∧
        (Denotes text x ↔ n.value < overflow) := by
  have hpos : numberLength cs ≠ 0 := by rw [hnumber]; simpa using hne
  obtain ⟨n, hn, htext⟩ := exists_numeral hpos
  rw [hnumber, List.take_length] at htext
  obtain ⟨x, hx, hrounds⟩ := exists_read?_text hn
  have hread : read? cs = some x := htext ▸ hx
  refine ⟨n, x, hn, htext, hrounds, ?_, htext ▸ parseSource_number hlexer hn hx name, ?_⟩
  · intro s token next rest k hs hkind hvalue
    exact Expr.takes_readPrimary_number hs hkind (by rw [hvalue, hread]) k
  · exact fun scope line => ⟨plainText x, rfl, ((hrounds x).2 rfl).denotes_iff⟩

/-- A number with a fraction and an exponent. -/
theorem exists_denotes_number_iff_fraction :
    ∃ env, ofOptions {} = .ok env ∧ Lexer.ofOptions {} .drop = .ok env.lexer ∧
      "12.50e3".toList ≠ [] ∧ numberLength "12.50e3".toList = "12.50e3".toList.length ∧
      ∃ (n : Numeral) (x : Float), n.IsNumber ∧ n.text = "12.50e3".toList ∧
        (∀ y, RoundsTo n.value y ↔ y = x) ∧
        (∀ (s : TokenStream) (token next : Token) (rest : List Token) (k : Nat),
          s.ahead = token :: next :: rest → token.kind = .number →
            token.value.toList = "12.50e3".toList →
              Takes (Expr.readPrimary (k + 1)) s (· = .number token.line x) (next :: rest)) ∧
        (∃ line line', env.parseSource ⟨"page", String.ofList (printChars "12.50e3".toList)⟩ =
          .ok ⟨"page", [.print line (.number line' x)]⟩) ∧
        ∀ scope line, ∃ text, Script.ofExpr scope (.number line x) = .ok text ∧
          (Denotes text x ↔ n.value < overflow) := by
  obtain ⟨env, henv, hlexer⟩ : ∃ env, ofOptions {} = .ok env ∧
      Lexer.ofOptions {} .drop = .ok env.lexer := ⟨_, rfl, rfl⟩
  have hne : "12.50e3".toList ≠ [] := by decide +kernel
  have hnumber : numberLength "12.50e3".toList = "12.50e3".toList.length := by decide +kernel
  exact ⟨env, henv, hlexer, hne, hnumber, exists_denotes_number_iff hlexer hne hnumber "page"⟩

def oneLarge : Numeral where
  whole := ['1']
  fraction := none
  exponent := some ⟨'e', none, ['9', '9', '9'], .inl rfl, by simp, by simp, by simp⟩
  isDigit_whole := by simp
  isDigit_fraction := by simp

/-- A number that is too large is accepted as infinity, and what is written for it is no decimal
literal. -/
theorem not_denotes_oneLarge :
    ∃ env x text, ofOptions {} = .ok env ∧
      numberLength "1e999".toList = "1e999".toList.length ∧
      (∃ line line', env.parseSource ⟨"page", "\x7b\x7b 1e999 \x7d\x7d"⟩ =
        .ok ⟨"page", [.print line (.number line' x)]⟩) ∧
      (∀ scope line, Script.ofExpr scope (.number line x) = .ok text) ∧
      text = "inf" ∧ ¬ ∃ y, Denotes text y := by
  obtain ⟨env, henv, hlexer⟩ : ∃ env, ofOptions {} = .ok env ∧
      Lexer.ofOptions {} .drop = .ok env.lexer := ⟨_, rfl, rfl⟩
  have hn : oneLarge.IsNumber := ⟨by simp [oneLarge], by simp [oneLarge]⟩
  have hx : read? oneLarge.text = some (ofSignBits false infinityBits) := read?_text hn
  have hsource : String.ofList (printChars oneLarge.text) = "\x7b\x7b 1e999 \x7d\x7d" := by
    decide
  refine ⟨env, _, _, henv, by decide, hsource ▸ parseSource_number hlexer hn hx "page",
    fun _ _ => congrArg Except.ok plainText_infinity, rfl, ?_⟩
  rintro ⟨y, h⟩
  exact not_denotes_inf y h

end Environment

end TemplateEngine
