import TemplateEngine.Expr.Parser
import TemplateEngine.Proofs.Decimal.Natural
import TemplateEngine.Proofs.Expr.Printed
import TemplateEngine.Proofs.Tokens

/-!
Reading expressions back from their lexemes. Main statement: from tokens that spell a readable
expression, in parentheses or bare, with something behind them that ends it, a read gives the
expression up to lines and stops there.
-/

namespace TemplateEngine

namespace Expr

open TokenReader

theorem isMark_of_spelling {t : Token} {c : Char} (ht : t.spelling = (Lexeme.mark c).spelling)
    (mark : String) : isMark t mark = (String.ofList [c] == mark) := by
  obtain ⟨hkind, hvalue⟩ := Prod.mk.inj ht
  rw [isMark, hkind, hvalue]
  rfl

theorem test_of_spelling {t : Token} {c : Char} (ht : t.spelling = (Lexeme.mark c).spelling)
    (mark : String) : t.test .punctuation (some mark) = (String.ofList [c] == mark) := by
  rw [Token.test_some]
  exact isMark_of_spelling ht mark

theorem isMark_self {t : Token} {c : Char} (ht : t.spelling = (Lexeme.mark c).spelling)
    {mark : String} (hmark : String.ofList [c] = mark) : isMark t mark = true := by
  rw [isMark_of_spelling ht, hmark, beq_self_eq_true]

theorem isMark_other {t : Token} {c : Char} (ht : t.spelling = (Lexeme.mark c).spelling)
    {mark : String} (hmark : (String.ofList [c] == mark) = false) : ¬ isMark t mark = true := by
  rw [isMark_of_spelling ht, hmark]
  exact Bool.false_ne_true

theorem test_self {t : Token} {c : Char} (ht : t.spelling = (Lexeme.mark c).spelling)
    {mark : String} (hmark : String.ofList [c] = mark) :
    t.test .punctuation (some mark) = true := by
  rw [test_of_spelling ht, hmark, beq_self_eq_true]

structure Follows (t : Token) : Prop where
  kind : t.kind ≠ .interpolationStart
  arguments : isMark t "(" = false

structure EndsOperand (t : Token) : Prop extends Follows t where
  point : isMark t "." = false
  bracket : isMark t "[" = false
  bar : isMark t "|" = false

structure EndsExpr (t : Token) : Prop extends EndsOperand t where
  binary : binaryOp? t = none

theorem follows_mark {t : Token} {c : Char} (ht : t.spelling = (Lexeme.mark c).spelling)
    (hc : c ≠ '(') : Follows t := by
  constructor
  · rw [(Prod.mk.inj ht).1]
    simp [Lexeme.kind]
  · rw [isMark_of_spelling ht, beq_eq_false_iff_ne]
    intro h
    have := congrArg String.toList h
    simp at this
    exact hc this

theorem endsExpr_mark {t : Token} {c : Char} (ht : t.spelling = (Lexeme.mark c).spelling)
    (hc : c = ')' ∨ c = ']' ∨ c = ',') : EndsExpr t := by
  have hmark := isMark_of_spelling ht
  have hkind : t.kind = .punctuation := (Prod.mk.inj ht).1
  refine ⟨⟨⟨?_, ?_⟩, ?_, ?_, ?_⟩, ?_⟩
  · simp [hkind]
  · rw [hmark]
    rcases hc with rfl | rfl | rfl <;> rfl
  · rw [hmark]
    rcases hc with rfl | rfl | rfl <;> rfl
  · rw [hmark]
    rcases hc with rfl | rfl | rfl <;> rfl
  · rw [hmark]
    rcases hc with rfl | rfl | rfl <;> rfl
  · simp [binaryOp?, hkind]

theorem endsOperand_operator {t : Token} (ht : t.kind = .operator) : EndsOperand t := by
  refine ⟨⟨?_, ?_⟩, ?_, ?_, ?_⟩ <;> simp [isMark, ht]

theorem endsExpr_varEnd {t : Token} (ht : t.kind = .varEnd) : EndsExpr t := by
  refine ⟨⟨⟨?_, ?_⟩, ?_, ?_, ?_⟩, ?_⟩ <;> simp [isMark, binaryOp?, ht]

/-- Reading an expression from its lexemes as a primary one comes to reading on behind it. -/
def Reads (e : Expr) (ws : List Lexeme) : Prop :=
  ∀ k s ts token rest, Spells ws ts → s.ahead = ts ++ token :: rest → Follows token →
    6 * ts.length ≤ k → ∀ (Q : Expr → Prop) left,
      (∀ e' t k', e'.unlined = e.unlined → t.ahead = token :: rest → k ≤ k' + ts.length →
        Takes (readPostfix k' e') t Q left) →
      Takes (readPrimary k >>= readPostfix k) s Q left

/-- The lexemes are those of an operand: there is one, and the first is no operator and closes
nothing. -/
def BeginsOperand : List Lexeme → Prop
  | [] | .operator _ :: _ => False
  | .mark c :: _ => c = '(' ∨ c = '['
  | _ => True

theorem BeginsOperand.append {ws : List Lexeme} (h : BeginsOperand ws) (more : List Lexeme) :
    BeginsOperand (ws ++ more) := by
  match ws, h with
  | .name _ :: _, _ | .number _ :: _, _ | .string _ _ :: _, _ => trivial
  | .mark _ :: _, h => exact h

theorem beginsOperand_lexemes (quote : Nat → String → Quote) (e : Expr) :
    BeginsOperand (e.lexemes quote) := by
  match e with
  | null _ | bool _ _ | number _ _ | string _ _ | name _ _ => trivial
  | array _ _ => exact .inr rfl
  | attr _ object _ => exact (beginsOperand_lexemes quote object).append _
  | item _ object _ => exact (beginsOperand_lexemes quote object).append _
  | unary _ _ _ => exact .inl rfl
  | binary _ _ _ _ => exact .inl rfl
  | filter _ _ input [] => exact (beginsOperand_lexemes quote input).append _
  | filter _ _ input (_ :: _) => exact (beginsOperand_lexemes quote input).append _

/-- The first token of an operand. -/
theorem BeginsOperand.exists_cons {ws : List Lexeme} {ts : List Token} (h : BeginsOperand ws)
    (hts : Spells ws ts) :
    ∃ t us, ts = t :: us ∧ unaryOp? t = none ∧ t.test .punctuation (some ",") = false ∧
      t.test .punctuation (some ")") = false ∧ t.test .punctuation (some "]") = false := by
  cases ws with
  | nil => exact h.elim
  | cons w ws =>
    obtain ⟨t, us, rfl, ht, -⟩ := spells_cons_iff.1 hts
    refine ⟨t, us, rfl, ?_⟩
    have hkind : t.kind = w.kind := (Prod.mk.inj ht).1
    cases w with
    | name _ => simp [unaryOp?, hkind, Lexeme.kind]
    | number _ => simp [unaryOp?, hkind, Lexeme.kind]
    | string _ _ => simp [unaryOp?, hkind, Lexeme.kind]
    | operator _ => exact h.elim
    | mark c =>
      refine ⟨by simp [unaryOp?, hkind, Lexeme.kind], ?_⟩
      rw [test_of_spelling ht, test_of_spelling ht, test_of_spelling ht]
      rcases h with rfl | rfl <;> exact ⟨rfl, rfl, rfl⟩

section

variable {e : Expr} {ws : List Lexeme} {k : Nat} {s : TokenStream} {ts rest : List Token}
  {token : Token}

theorem Reads.readOperand (h : Reads e ws) (hbegins : BeginsOperand ws) (hts : Spells ws ts)
    (hs : s.ahead = ts ++ token :: rest) (htoken : EndsOperand token) (hk : 6 * ts.length + 1 ≤ k) :
    Takes (readOperand k) s (·.unlined = e.unlined) (token :: rest) := by
  obtain ⟨k, rfl⟩ : ∃ j, k = j + 1 := ⟨k - 1, by omega⟩
  obtain ⟨first, more, hmore, hunary, -⟩ := hbegins.exists_cons hts
  have hlength : 0 < ts.length := by simp [hmore]
  rw [Expr.readOperand, Grammar.operand]
  have hs' : s.ahead = first :: (more ++ token :: rest) := by rw [hs, hmore]; rfl
  apply Takes.ofCurrent hs'
  rw [hunary]
  apply h k s ts token rest hts hs htoken.toFollows (by omega)
  intro e' t k' he ht hk'
  obtain ⟨k', rfl⟩ : ∃ j, k' = j + 1 := ⟨k' - 1, by omega⟩
  rw [readPostfix, Grammar.accesses]
  apply Takes.ofCurrent ht
  simp only [htoken.point, htoken.bracket, htoken.bar, Bool.false_eq_true, if_false]
  exact .pure he ht

theorem takes_readTail_of_ends {left : Expr} {minimum : Nat} (hs : s.ahead = token :: rest)
    (htoken : EndsExpr token) (hk : 0 < k) (hleft : left.unlined = e.unlined) :
    Takes (readTail k minimum left) s (·.unlined = e.unlined) (token :: rest) := by
  obtain ⟨k, rfl⟩ : ∃ j, k = j + 1 := ⟨k - 1, by omega⟩
  rw [readTail, Grammar.operators]
  apply Takes.ofCurrent hs
  rw [htoken.binary]
  exact .pure hleft hs

theorem Reads.readFrom (h : Reads e ws) (hbegins : BeginsOperand ws) (hts : Spells ws ts)
    (hs : s.ahead = ts ++ token :: rest) (htoken : EndsExpr token) (hk : 6 * ts.length + 2 ≤ k)
    (minimum : Nat) : Takes (readFrom k minimum) s (·.unlined = e.unlined) (token :: rest) := by
  obtain ⟨k, rfl⟩ : ∃ j, k = j + 1 := ⟨k - 1, by omega⟩
  rw [Expr.readFrom, Grammar.expression]
  apply (h.readOperand hbegins hts hs htoken.toEndsOperand (by omega)).bind
  intro left t hleft ht
  exact takes_readTail_of_ends ht htoken (by omega) hleft

end

def ReadsWhole (e : Expr) (ws : List Lexeme) : Prop :=
  ∀ k s ts token rest, Spells ws ts → s.ahead = ts ++ token :: rest → EndsExpr token →
    6 * ts.length + 2 ≤ k → Takes (readFrom k 0) s (·.unlined = e.unlined) (token :: rest)

theorem Reads.whole {e : Expr} {ws : List Lexeme} (h : Reads e ws) (hbegins : BeginsOperand ws) :
    ReadsWhole e ws := by
  intro k s ts token rest hts hs htoken hk
  exact h.readFrom hbegins hts hs htoken hk 0

theorem readsWhole_unary {operand : Expr} {ws : List Lexeme} (h : Reads operand ws)
    (hbegins : BeginsOperand ws) (line : Nat) (op : UnaryOp) :
    ReadsWhole (unary line op operand) (.operator op.text :: ws) := by
  intro k s ts token rest hts hs htoken hk
  obtain ⟨t, us, rfl, ht, hus⟩ := spells_cons_iff.1 hts
  obtain ⟨hkind, hvalue⟩ := Prod.mk.inj ht
  obtain ⟨first, more, hmore, -⟩ := hbegins.exists_cons hus
  obtain ⟨k, rfl⟩ : ∃ j, k = j + 1 + 1 := ⟨k - 2, by omega⟩
  rw [List.length_cons] at hk
  have hop : unaryOp? t = some op := by
    rw [unaryOp?, hkind, hvalue]
    exact op.ofText?_text
  have hs' : s.ahead = t :: first :: (more ++ token :: rest) := by rw [hs, hmore]; rfl
  rw [readFrom, Grammar.expression]
  have hoperand : Takes (readOperand (k + 1)) s (·.unlined = (unary line op operand).unlined)
      (token :: rest) := by
    rw [readOperand, Grammar.operand]
    apply Takes.ofCurrent hs'
    rw [hop]
    apply (Takes.next hs').bind
    intro _ v _ hv
    have hv' : v.ahead = us ++ token :: rest := by rw [hv, hmore]; rfl
    apply (h.readFrom hbegins hus hv' htoken (by omega) op.precedence).bind
    intro operand' u hoperand hu
    refine .pure ?_ hu
    simp only [unlined, hoperand]
  apply hoperand.bind
  intro left v hleft hv
  exact takes_readTail_of_ends hv htoken (by omega) hleft

theorem readsWhole_binary {left right : Expr} {vs ws : List Lexeme} (hleft : Reads left vs)
    (hright : Reads right ws) (hvs : BeginsOperand vs) (hws : BeginsOperand ws) (line : Nat)
    (op : BinaryOp) :
    ReadsWhole (binary line op left right) (vs ++ .operator op.text :: ws) := by
  intro k s ts token rest hts hs htoken hk
  obtain ⟨us, ts, rfl, hus, hts⟩ := spells_append_iff.1 hts
  obtain ⟨t, ts, rfl, ht, hts⟩ := spells_cons_iff.1 hts
  obtain ⟨hkind, hvalue⟩ := Prod.mk.inj ht
  obtain ⟨first, more, hmore, -⟩ := hws.exists_cons hts
  rw [List.length_append, List.length_cons] at hk
  obtain ⟨k, rfl⟩ : ∃ j, k = j + 1 + 1 := ⟨k - 2, by omega⟩
  have hop : binaryOp? t = some op := by
    rw [binaryOp?, hkind, hvalue]
    exact op.ofText?_text
  rw [readFrom, Grammar.expression]
  have hs' : s.ahead = us ++ t :: (ts ++ token :: rest) := by simp [hs]
  apply (hleft.readOperand hvs hus hs' (endsOperand_operator hkind) (by omega)).bind
  intro left' v hleft' hv
  have hv' : v.ahead = t :: first :: (more ++ token :: rest) := by rw [hv, hmore]; rfl
  rw [readTail, Grammar.operators]
  apply Takes.ofCurrent hv
  simp only [hop, Nat.not_lt_zero, if_false]
  apply (Takes.next hv').bind
  intro _ u _ hu
  have hu' : u.ahead = ts ++ token :: rest := by rw [hu, hmore]; rfl
  apply (hright.readFrom hws hts hu' htoken (by omega) op.rightMinimum).bind
  intro right' w hright' hw
  apply takes_readTail_of_ends hw htoken (by omega)
  simp only [unlined, hleft', hright']

theorem reads_of_readPrimary {e : Expr} {ws : List Lexeme}
    (h : ∀ k s ts token rest, Spells ws ts → s.ahead = ts ++ token :: rest → Follows token →
      6 * ts.length ≤ k → Takes (readPrimary k) s (·.unlined = e.unlined) (token :: rest)) :
    Reads e ws := by
  intro k s ts token rest hts hs htoken hk Q left hQ
  apply (h k s ts token rest hts hs htoken hk).bind
  intro e' t he ht
  exact hQ e' t k he ht (by omega)

theorem reads_word {e : Expr} {word : String}
    (h : ∀ line, (ofName line word).unlined = e.unlined) : Reads e [.name word] := by
  apply reads_of_readPrimary
  intro k s ts token rest hts hs _ hk
  obtain ⟨t, ts, rfl, ht, hts⟩ := spells_cons_iff.1 hts
  obtain rfl := spells_nil_iff.1 hts
  obtain ⟨hkind, hvalue⟩ := Prod.mk.inj ht
  obtain ⟨k, rfl⟩ : ∃ j, k = j + 1 := ⟨k - 1, by simp at hk; omega⟩
  rw [readPrimary, Grammar.primary]
  apply Takes.ofCurrent hs
  simp only [hkind, Lexeme.kind]
  apply (Takes.next hs).bind
  intro _ v _ hv
  refine .pure ?_ hv
  rw [hvalue]
  exact h t.line

theorem unlined_ofName {word : String} (h : word ∉ literalWords) (line : Nat) :
    (ofName line word).unlined = name 0 word := by
  simp only [literalWords, List.mem_cons, List.not_mem_nil, or_false, not_or] at h
  simp [ofName, h, unlined]

/-- A number token is read as the double of its text. -/
theorem takes_readPrimary_number {s : TokenStream} {token next : Token} {rest : List Token}
    {x : Float} (hs : s.ahead = token :: next :: rest) (hkind : token.kind = .number)
    (hx : Decimal.read? token.value.toList = some x) (k : Nat) :
    Takes (readPrimary (k + 1)) s (· = number token.line x) (next :: rest) := by
  rw [readPrimary, Grammar.primary]
  apply Takes.ofCurrent hs
  simp only [hkind]
  rw [readNumber]
  apply (Takes.next hs).bind
  rintro _ t rfl ht
  rw [hx]
  exact .pure rfl ht

theorem reads_number {n : Nat} (line : Nat) :
    Reads (number line (Decimal.ofInteger n)) [.number n] := by
  apply reads_of_readPrimary
  intro k s ts token rest hts hs _ hk
  obtain ⟨t, ts, rfl, ht, hts⟩ := spells_cons_iff.1 hts
  obtain rfl := spells_nil_iff.1 hts
  obtain ⟨hkind, hvalue⟩ := Prod.mk.inj ht
  obtain ⟨k, rfl⟩ : ∃ j, k = j + 1 := ⟨k - 1, by simp at hk; omega⟩
  have hx : Decimal.read? t.value.toList = some (Decimal.ofInteger n) := by
    rw [hvalue, Lexeme.value, String.toList_ofList, Decimal.read?_toDigits]
  apply (takes_readPrimary_number hs hkind hx k).mono
  rintro _ rfl
  rfl

theorem reads_string (line : Nat) (quote : Quote) (value : String) :
    Reads (string line value) [.string quote value] := by
  apply reads_of_readPrimary
  intro k s ts token rest hts hs htoken hk
  obtain ⟨t, ts, rfl, ht, hts⟩ := spells_cons_iff.1 hts
  obtain rfl := spells_nil_iff.1 hts
  obtain ⟨hkind, hvalue⟩ := Prod.mk.inj ht
  obtain ⟨k, rfl⟩ : ∃ j, k = j + 1 + 1 + 1 := ⟨k - 3, by simp at hk; omega⟩
  rw [readPrimary, Grammar.primary]
  apply Takes.ofCurrent hs
  simp only [hkind, Lexeme.kind]
  have hparts :
      Takes (readParts (k + 1 + 1) true) s (· = [string t.line t.value]) (token :: rest) := by
    rw [readParts, Grammar.parts]
    apply (Takes.nextIf hs (by simp [hkind, Lexeme.kind])).bind
    rintro _ v rfl hv
    have hothers : Takes (readParts (k + 1) false) v (· = []) (token :: rest) := by
      rw [readParts, Grammar.parts]
      apply (Takes.nextIf_none hv (by simpa using htoken.kind)).bind
      rintro _ u rfl hu
      exact .pure rfl hu
    apply hothers.bind
    rintro _ u rfl hu
    exact .pure rfl hu
  apply hparts.bind
  rintro _ v rfl hv
  refine .pure ?_ hv
  simp only [concatAll, List.foldl_nil, unlined, hvalue, Lexeme.value]

theorem reads_parentheses {e : Expr} {ws : List Lexeme} (h : ReadsWhole e ws)
    (hne : ∃ w more, ws = w :: more) : Reads e (.mark '(' :: (ws ++ [.mark ')'])) := by
  apply reads_of_readPrimary
  intro k s ts token rest hts hs _ hk
  obtain ⟨opening, ts, rfl, hopening, hts⟩ := spells_cons_iff.1 hts
  obtain ⟨inner, ts, rfl, hinner, hts⟩ := spells_append_iff.1 hts
  obtain ⟨closing, ts, rfl, hclosing, hts⟩ := spells_cons_iff.1 hts
  obtain rfl := spells_nil_iff.1 hts
  obtain ⟨w, more, rfl⟩ := hne
  obtain ⟨first, us, hus, -, -⟩ := spells_cons_iff.1 hinner
  have hkind : opening.kind = .punctuation := (Prod.mk.inj hopening).1
  obtain ⟨k, rfl⟩ : ∃ j, k = j + 1 := ⟨k - 1, by simp at hk; omega⟩
  have hs' : s.ahead = opening :: first :: (us ++ closing :: token :: rest) := by simp [hs, hus]
  rw [readPrimary, Grammar.primary]
  apply Takes.ofCurrent hs'
  simp only [hkind]
  rw [if_pos (isMark_self hopening rfl)]
  apply (Takes.next hs').bind
  intro _ v _ hv
  have hv' : v.ahead = inner ++ closing :: token :: rest := by rw [hv, hus]; rfl
  apply (h k v inner closing (token :: rest) hinner hv' (endsExpr_mark hclosing (.inl rfl))
    (by simp at hk; omega)).bind
  intro e' u he hu
  apply (Takes.expect hu (test_self hclosing rfl)).bind
  intro _ w _ hw
  exact .pure he hw

/-- A read of items up to a closing mark. With no item left it stops in front of the mark, and in
front of an item it reads the comma, the item and the others. -/
structure ReadsList (closing : Char) (reader : Nat → Bool → TokenReader (List Expr)) : Prop where
  stop {k : Nat} {isFirst : Bool} {s : TokenStream} {token : Token} {rest : List Token} :
    s.ahead = token :: rest → token.spelling = (Lexeme.mark closing).spelling →
      Takes (reader (k + 1) isFirst) s (· = []) (token :: rest)
  first {k : Nat} {s : TokenStream} {t : Token} {rest left : List Token}
    {P : List Expr → Prop} :
    s.ahead = t :: rest → t.test .punctuation (some (String.ofList [closing])) = false →
      Takes (do
        let e ← readFrom k 0
        let es ← reader k false
        return e :: es) s P left →
      Takes (reader (k + 1) true) s P left
  later {k : Nat} {s : TokenStream} {comma t : Token} {rest left : List Token}
    {P : List Expr → Prop} :
    s.ahead = comma :: t :: rest → comma.spelling = (Lexeme.mark ',').spelling →
      t.test .punctuation (some (String.ofList [closing])) = false →
      (∀ v, v.ahead = t :: rest → Takes (do
        let e ← readFrom k 0
        let es ← reader k false
        return e :: es) v P left) →
      Takes (reader (k + 1) false) s P left

theorem comma_test {t : Token} (ht : t.spelling = (Lexeme.mark ',').spelling) {closing : Char}
    (hclosing : closing = ']' ∨ closing = ')') :
    t.test .punctuation (some (String.ofList [closing])) = false := by
  rw [test_of_spelling ht]
  rcases hclosing with rfl | rfl <;> rfl

theorem readsList_readItems : ReadsList ']' readItems where
  stop hs htoken := by
    rw [readItems, Grammar.items]
    apply Takes.ofTest hs
    rw [if_pos (test_self htoken rfl)]
    exact .pure rfl hs
  first hs ht h := by
    rw [readItems, Grammar.items]
    apply Takes.ofTest hs
    simp only [ht, Bool.false_eq_true, if_false, Bool.not_true]
    apply Takes.ofTest hs
    simp only [ht, Bool.false_eq_true, if_false]
    exact h
  later hs hcomma ht h := by
    rw [readItems, Grammar.items]
    apply Takes.ofTest hs
    simp only [comma_test hcomma (.inl rfl), Bool.false_eq_true, if_false, Bool.not_false, if_true]
    apply (Takes.expect hs (test_self hcomma rfl)).bind
    intro _ v _ hv
    apply Takes.ofTest hv
    simp only [ht, Bool.false_eq_true, if_false]
    exact h v hv

theorem readsList_readArguments : ReadsList ')' readArguments where
  stop hs htoken := by
    rw [readArguments, Grammar.arguments]
    apply Takes.ofTest hs
    rw [if_pos (test_self htoken rfl)]
    exact .pure rfl hs
  first hs ht h := by
    rw [readArguments, Grammar.arguments]
    apply Takes.ofTest hs
    simp only [ht, Bool.false_eq_true, if_false, Bool.not_true]
    exact h
  later hs hcomma ht h := by
    rw [readArguments, Grammar.arguments]
    apply Takes.ofTest hs
    simp only [comma_test hcomma (.inr rfl), Bool.false_eq_true, if_false, Bool.not_false, if_true]
    apply (Takes.expect hs (test_self hcomma rfl)).bind
    intro _ v _ hv
    exact h v hv

/-- Reading a list back from its lexemes, up to a closing mark. -/
theorem ReadsList.takes {closing : Char} {reader : Nat → Bool → TokenReader (List Expr)}
    (hreader : ReadsList closing reader) (hclosing : closing = ']' ∨ closing = ')')
    (quote : Nat → String → Quote) (items : List Expr)
    (hitems : ∀ e ∈ items, Reads e (e.lexemes quote)) :
    ∀ (isFirst : Bool) k s ts token rest, Spells (itemLexemes quote isFirst items) ts →
      s.ahead = ts ++ token :: rest → token.spelling = (Lexeme.mark closing).spelling →
      6 * ts.length + 5 ≤ k →
      Takes (reader k isFirst) s (allUnlined · = allUnlined items) (token :: rest) := by
  induction items with
  | nil =>
    intro isFirst k s ts token rest hts hs htoken hk
    obtain rfl := spells_nil_iff.1 hts
    obtain ⟨k, rfl⟩ : ∃ j, k = j + 1 := ⟨k - 1, by omega⟩
    exact Takes.mono (hreader.stop hs htoken) fun es hes => by rw [hes]
  | cons e es ih =>
    intro isFirst k s ts token rest hts hs htoken hk
    have he := hitems e (by simp)
    have ih := ih (fun x hx => hitems x (List.mem_cons_of_mem _ hx)) false
    have hends : EndsExpr token := by
      apply endsExpr_mark htoken
      rcases hclosing with rfl | rfl <;> simp
    obtain ⟨k, rfl⟩ : ∃ j, k = j + 1 := ⟨k - 1, by omega⟩
    have hitem : ∀ v us vs, Spells (e.lexemes quote) us → Spells (itemLexemes quote false es) vs →
        v.ahead = us ++ (vs ++ token :: rest) → 6 * (us.length + vs.length) + 5 ≤ k + 1 →
        Takes (do
          let e ← readFrom k 0
          let es ← reader k false
          return e :: es) v (allUnlined · = allUnlined (e :: es)) (token :: rest) := by
      intro v us vs hus hvs hv hk
      obtain ⟨next, behind, hnext, hnextEnds⟩ :
          ∃ next behind, vs ++ token :: rest = next :: behind ∧ EndsExpr next := by
        cases es with
        | nil =>
          obtain rfl := spells_nil_iff.1 hvs
          exact ⟨token, rest, rfl, hends⟩
        | cons _ _ =>
          obtain ⟨comma, vs, rfl, hcomma, -⟩ := spells_cons_iff.1 hvs
          exact ⟨comma, _, rfl, endsExpr_mark hcomma (by simp)⟩
      obtain ⟨_, _, hcons, -⟩ := (beginsOperand_lexemes quote e).exists_cons hus
      have hlength : 0 < us.length := by simp [hcons]
      apply (he.readFrom (beginsOperand_lexemes quote e) hus (by rw [hv, hnext]) hnextEnds
        (by omega) 0).bind
      intro e' u heq hu
      rw [← hnext] at hu
      apply (ih k u vs token rest hvs hu htoken (by omega)).bind
      intro es' w hes hw
      refine .pure ?_ hw
      simp only [allUnlined, heq, hes]
    cases isFirst with
    | true =>
      obtain ⟨us, vs, rfl, hus, hvs⟩ := spells_append_iff.1 hts
      obtain ⟨t, more, hmore, -, -, hparenthesis, hbracket⟩ :=
        (beginsOperand_lexemes quote e).exists_cons hus
      rw [List.append_assoc] at hs
      rw [List.length_append] at hk
      have hs' : s.ahead = t :: (more ++ (vs ++ token :: rest)) := by rw [hs, hmore]; rfl
      refine hreader.first hs' ?_ (hitem s us vs hus hvs hs (by omega))
      rcases hclosing with rfl | rfl
      · exact hbracket
      · exact hparenthesis
    | false =>
      obtain ⟨comma, ts, rfl, hcomma, hts⟩ := spells_cons_iff.1 hts
      obtain ⟨us, vs, rfl, hus, hvs⟩ := spells_append_iff.1 hts
      obtain ⟨t, more, hmore, -, -, hparenthesis, hbracket⟩ :=
        (beginsOperand_lexemes quote e).exists_cons hus
      rw [List.length_cons, List.length_append] at hk
      have hs' : s.ahead = comma :: t :: (more ++ (vs ++ token :: rest)) := by simp [hs, hmore]
      refine hreader.later hs' hcomma ?_ ?_
      · rcases hclosing with rfl | rfl
        · exact hbracket
        · exact hparenthesis
      · intro v hv
        exact hitem v us vs hus hvs (by rw [hv, hmore]; simp) (by omega)

theorem reads_array {quote : Nat → String → Quote} {items : List Expr}
    (h : ∀ e ∈ items, Reads e (e.lexemes quote)) (line : Nat) :
    Reads (array line items) ((array line items).lexemes quote) := by
  apply reads_of_readPrimary
  intro k s ts token rest hts hs _ hk
  obtain ⟨opening, ts, rfl, hopening, hts⟩ := spells_cons_iff.1 hts
  obtain ⟨inner, ts, rfl, hinner, hts⟩ := spells_append_iff.1 hts
  obtain ⟨closing, ts, rfl, hclosing, hts⟩ := spells_cons_iff.1 hts
  obtain rfl := spells_nil_iff.1 hts
  have hkind : opening.kind = .punctuation := (Prod.mk.inj hopening).1
  obtain ⟨k, rfl⟩ : ∃ j, k = j + 1 := ⟨k - 1, by simp at hk; omega⟩
  obtain ⟨first, more, hmore⟩ : ∃ first more, inner ++ closing :: token :: rest = first :: more :=
    List.exists_cons_of_ne_nil (by simp)
  have hs' : s.ahead = opening :: first :: more := by rw [← hmore, hs]; simp
  rw [readPrimary, Grammar.primary]
  apply Takes.ofCurrent hs'
  simp only [hkind]
  rw [if_neg (isMark_other hopening rfl), if_pos (isMark_self hopening rfl)]
  apply (Takes.next hs').bind
  intro _ v _ hv
  rw [← hmore] at hv
  apply (readsList_readItems.takes (.inl rfl) quote items h true k v inner closing (token :: rest)
    hinner hv hclosing (by simp at hk; omega)).bind
  intro items' u hitems hu
  apply (Takes.expect hu (test_self hclosing rfl)).bind
  intro _ w _ hw
  refine .pure ?_ hw
  simp only [unlined, hitems]

theorem takes_readMember {s : TokenStream} {member token : Token} {rest : List Token}
    (h : member.kind = .name ∨ member.kind = .number) (hs : s.ahead = member :: token :: rest) :
    Takes readMember s (· = member.value) (token :: rest) := by
  rw [readMember]
  apply Takes.ofCurrent hs
  rw [if_pos h]
  apply (Takes.next hs).bind
  intro _ t _ ht
  exact .pure rfl ht

theorem reads_attr {object : Expr} {ws : List Lexeme} (h : Reads object ws) (line : Nat)
    (member : String) : Reads (attr line object member) (ws ++ [.mark '.', .name member]) := by
  intro k s ts token rest hts hs htoken hk Q left hQ
  obtain ⟨us, ts, rfl, hus, hts⟩ := spells_append_iff.1 hts
  obtain ⟨point, ts, rfl, hpoint, hts⟩ := spells_cons_iff.1 hts
  obtain ⟨word, ts, rfl, hword, hts⟩ := spells_cons_iff.1 hts
  obtain rfl := spells_nil_iff.1 hts
  obtain ⟨hkind, hvalue⟩ := Prod.mk.inj hword
  simp only [List.length_append, List.length_cons, List.length_nil] at hk hQ
  apply h k s us point (word :: token :: rest) hus (by rw [hs]; simp)
    (follows_mark hpoint (by decide)) (by omega)
  intro object' t k' hobject ht hk'
  obtain ⟨k', rfl⟩ : ∃ j, k' = j + 1 := ⟨k' - 1, by omega⟩
  rw [readPostfix, Grammar.accesses]
  apply Takes.ofCurrent ht
  rw [if_pos (isMark_self hpoint rfl)]
  apply (Takes.next ht).bind
  intro _ v _ hv
  apply (takes_readMember (.inl hkind) hv).bind
  rintro _ u rfl hu
  apply hQ _ u k' ?_ hu (by omega)
  simp only [unlined, hobject, hvalue, Lexeme.value]

theorem reads_item {object index : Expr} {vs ws : List Lexeme} (hobject : Reads object vs)
    (hindex : ReadsWhole index ws) (hne : ∃ w more, ws = w :: more) (line : Nat) :
    Reads (item line object index) (vs ++ .mark '[' :: (ws ++ [.mark ']'])) := by
  intro k s ts token rest hts hs htoken hk Q left hQ
  obtain ⟨us, ts, rfl, hus, hts⟩ := spells_append_iff.1 hts
  obtain ⟨opening, ts, rfl, hopening, hts⟩ := spells_cons_iff.1 hts
  obtain ⟨inner, ts, rfl, hinner, hts⟩ := spells_append_iff.1 hts
  obtain ⟨closing, ts, rfl, hclosing, hts⟩ := spells_cons_iff.1 hts
  obtain rfl := spells_nil_iff.1 hts
  obtain ⟨w, more, rfl⟩ := hne
  obtain ⟨first, inner, rfl, -, -⟩ := spells_cons_iff.1 hinner
  simp only [List.length_append, List.length_cons, List.length_nil] at hk hQ
  apply hobject k s us opening (first :: inner ++ closing :: token :: rest) hus
    (by rw [hs]; simp) (follows_mark hopening (by decide)) (by omega)
  intro object' t k' hobject' ht hk'
  obtain ⟨k', rfl⟩ : ∃ j, k' = j + 1 := ⟨k' - 1, by omega⟩
  rw [readPostfix, Grammar.accesses]
  apply Takes.ofCurrent ht
  rw [if_neg (isMark_other hopening rfl), if_pos (isMark_self hopening rfl)]
  apply (Takes.next ht).bind
  intro _ v _ hv
  apply (hindex k' v (first :: inner) closing (token :: rest) hinner hv
    (endsExpr_mark hclosing (.inr (.inl rfl))) (by simp; omega)).bind
  intro index' u hindex' hu
  apply (Takes.expect hu (test_self hclosing rfl)).bind
  intro _ x _ hx
  apply hQ _ x k' ?_ hx (by omega)
  simp only [unlined, hobject', hindex']

theorem reads_filter {input : Expr} {ws : List Lexeme} (h : Reads input ws) (line : Nat)
    (word : String) : Reads (filter line word input []) (ws ++ [.mark '|', .name word]) := by
  intro k s ts token rest hts hs htoken hk Q left hQ
  obtain ⟨us, ts, rfl, hus, hts⟩ := spells_append_iff.1 hts
  obtain ⟨bar, ts, rfl, hbar, hts⟩ := spells_cons_iff.1 hts
  obtain ⟨filterName, ts, rfl, hname, hts⟩ := spells_cons_iff.1 hts
  obtain rfl := spells_nil_iff.1 hts
  obtain ⟨hkind, hvalue⟩ := Prod.mk.inj hname
  simp only [List.length_append, List.length_cons, List.length_nil] at hk hQ
  apply h k s us bar (filterName :: token :: rest) hus (by rw [hs]; simp)
    (follows_mark hbar (by decide)) (by omega)
  intro input' t k' hinput ht hk'
  obtain ⟨k', rfl⟩ : ∃ j, k' = j + 1 := ⟨k' - 1, by omega⟩
  rw [readPostfix, Grammar.accesses]
  apply Takes.ofCurrent ht
  rw [if_neg (isMark_other hbar rfl), if_neg (isMark_other hbar rfl),
    if_pos (isMark_self hbar rfl)]
  apply (Takes.next ht).bind
  intro _ v _ hv
  apply (Takes.expect hv (by simp [hkind, Lexeme.kind])).bind
  rintro _ u rfl hu
  apply Takes.ofTest hu
  have harguments : token.test .punctuation (some "(") = false := by
    rw [Token.test_some]
    exact htoken.arguments
  simp only [harguments, Bool.false_eq_true, if_false]
  apply hQ _ u k' ?_ hu (by omega)
  simp only [unlined, hinput, hvalue, Lexeme.value]

theorem reads_filterWith {quote : Nat → String → Quote} {input : Expr} {ws : List Lexeme}
    (h : Reads input ws) {args : List Expr} (hargs : ∀ e ∈ args, Reads e (e.lexemes quote))
    (line : Nat) (word : String) :
    Reads (filter line word input args)
      (ws ++ .mark '|' :: .name word :: .mark '(' ::
        (itemLexemes quote true args ++ [.mark ')'])) := by
  intro k s ts token rest hts hs htoken hk Q left hQ
  obtain ⟨us, ts, rfl, hus, hts⟩ := spells_append_iff.1 hts
  obtain ⟨bar, ts, rfl, hbar, hts⟩ := spells_cons_iff.1 hts
  obtain ⟨filterName, ts, rfl, hname, hts⟩ := spells_cons_iff.1 hts
  obtain ⟨opening, ts, rfl, hopening, hts⟩ := spells_cons_iff.1 hts
  obtain ⟨inner, ts, rfl, hinner, hts⟩ := spells_append_iff.1 hts
  obtain ⟨closing, ts, rfl, hclosing, hts⟩ := spells_cons_iff.1 hts
  obtain rfl := spells_nil_iff.1 hts
  obtain ⟨hkind, hvalue⟩ := Prod.mk.inj hname
  obtain ⟨first, more, hmore⟩ : ∃ first more, inner ++ closing :: token :: rest = first :: more :=
    List.exists_cons_of_ne_nil (by simp)
  simp only [List.length_append, List.length_cons, List.length_nil] at hk hQ
  apply h k s us bar (filterName :: opening :: first :: more) hus (by rw [hs, ← hmore]; simp)
    (follows_mark hbar (by decide)) (by omega)
  intro input' t k' hinput ht hk'
  obtain ⟨k', rfl⟩ : ∃ j, k' = j + 1 := ⟨k' - 1, by omega⟩
  rw [readPostfix, Grammar.accesses]
  apply Takes.ofCurrent ht
  rw [if_neg (isMark_other hbar rfl), if_neg (isMark_other hbar rfl),
    if_pos (isMark_self hbar rfl)]
  apply (Takes.next ht).bind
  intro _ v _ hv
  apply (Takes.expect hv (by simp [hkind, Lexeme.kind])).bind
  rintro _ u rfl hu
  apply Takes.ofTest hu
  rw [if_pos (test_self hopening rfl)]
  apply (Takes.next hu).bind
  intro _ w _ hw
  rw [← hmore] at hw
  apply (readsList_readArguments.takes (.inr rfl) quote args hargs true k' w inner closing
    (token :: rest) hinner hw hclosing (by omega)).bind
  intro args' x hargs' hx
  apply (Takes.expect hx (test_self hclosing rfl)).bind
  intro _ y _ hy
  apply hQ _ y k' ?_ hy (by omega)
  simp only [unlined, hinput, hargs', hvalue, Lexeme.value]

variable (quote : Nat → String → Quote)

theorem natural_ofInteger {n : Nat} (hn : n < 2 ^ 53) : natural (Decimal.ofInteger n) = n := by
  rw [natural, Decimal.integer?_ofInteger hn]
  rfl

theorem exists_cons_lexemes (e : Expr) : ∃ w ws, e.lexemes quote = w :: ws := by
  have h := beginsOperand_lexemes quote e
  cases hws : e.lexemes quote with
  | nil => rw [hws] at h; exact h.elim
  | cons w ws => exact ⟨w, ws, rfl⟩

mutual

theorem reads_lexemes (e : Expr) (h : e.Readable) : Reads e (e.lexemes quote) := by
  match e, h with
  | null _, _ => exact reads_word fun _ => rfl
  | bool _ true, _ => exact reads_word fun _ => rfl
  | bool _ false, _ => exact reads_word fun _ => rfl
  | number line value, h =>
    obtain ⟨n, hn, rfl⟩ := h
    rw [lexemes, natural_ofInteger hn]
    exact reads_number line
  | string line value, _ => exact reads_string line (quote line value) value
  | name _ value, h => exact reads_word (unlined_ofName h)
  | array line items, h => exact reads_array (reads_all items h) line
  | attr line object member, h => exact reads_attr (reads_lexemes object h) line member
  | item line object index, h =>
    exact reads_item (reads_lexemes object h.1)
      ((reads_lexemes index h.2).whole (beginsOperand_lexemes quote index))
      (exists_cons_lexemes quote index) line
  | unary line op operand, h =>
    exact reads_parentheses (readsWhole_unary (reads_lexemes operand h)
      (beginsOperand_lexemes quote operand) line op) ⟨_, _, rfl⟩
  | binary line op left right, h =>
    obtain ⟨w, ws, hws⟩ := exists_cons_lexemes quote left
    refine reads_parentheses (readsWhole_binary (reads_lexemes left h.1) (reads_lexemes right h.2)
      (beginsOperand_lexemes quote left) (beginsOperand_lexemes quote right) line op) ?_
    rw [hws]
    exact ⟨_, _, rfl⟩
  | filter line word input [], h => exact reads_filter (reads_lexemes input h.1) line word
  | filter line word input (arg :: args), h =>
    exact reads_filterWith (reads_lexemes input h.1) (reads_all (arg :: args) h.2) line word

theorem reads_all (items : List Expr) (h : AllReadable items) :
    ∀ e ∈ items, Reads e (e.lexemes quote) := by
  match items, h with
  | [], _ => simp
  | first :: others, h =>
    exact List.forall_mem_cons.2 ⟨reads_lexemes first h.1, reads_all others h.2⟩

end

/-- A readable expression is read back from its lexemes, whether or not it stands in parentheses of
its own. -/
theorem readsWhole_bareLexemes (e : Expr) (h : e.Readable) :
    ReadsWhole e (e.bareLexemes quote) := by
  have hwhole := (reads_lexemes quote e h).whole (beginsOperand_lexemes quote e)
  match e, h with
  | unary line op operand, h =>
    exact readsWhole_unary (reads_lexemes quote operand h) (beginsOperand_lexemes quote operand)
      line op
  | binary line op left right, h =>
    exact readsWhole_binary (reads_lexemes quote left h.1) (reads_lexemes quote right h.2)
      (beginsOperand_lexemes quote left) (beginsOperand_lexemes quote right) line op
  | null _, _ | bool _ _, _ | number _ _, _ | string _ _, _ | name _ _, _ | array _ _, _
  | attr _ _ _, _ | item _ _ _, _ | filter _ _ _ _, _ => exact hwhole

theorem ReadsWhole.read {e : Expr} {ws : List Lexeme} (h : ReadsWhole e ws) {s : TokenStream}
    {ts rest : List Token} {token : Token} (hts : Spells ws ts) (hs : s.ahead = ts ++ token :: rest)
    (htoken : EndsExpr token) : Takes read s (·.unlined = e.unlined) (token :: rest) := by
  have hlength : s.after.length = ts.length + rest.length := by
    have := congrArg List.length hs
    simp only [TokenStream.ahead, List.length_cons, List.length_append] at this
    omega
  unfold Takes Expr.read
  simp only [outcome_bind, outcome_get, ok_bind]
  apply h _ s ts token rest hts hs htoken
  unfold stepLimit
  omega

end Expr

end TemplateEngine
