import Mathlib.Data.List.Forall2
import TemplateEngine.Proofs.Decimal.Text
import TemplateEngine.Proofs.Document.Expressions
import TemplateEngine.Proofs.Script.Readers
import TemplateEngine.Proofs.Script.Writing

/-!
Scripts of expressions, read back. Main statement: of two expressions with the same script, in which
all numbers are natural ones below `10 ^ 15`, one is the other up to lines, up to the sign of zero
and up to attributes that are written as items.

The script is read by its openings, none of which is the beginning of another. An operand ends where
its reader stops, so the text behind it needs no look ahead; only the digits of a number go on as
long as they can.
-/

namespace TemplateEngine

mutual

/-- An expression without what its script does not tell: lines, the sign of zero, and whether an
item with the name of an attribute is written as an attribute. -/
def Expr.bare : Expr → Expr
  | .null _ => .null 0
  | .bool _ value => .bool 0 value
  | .number _ value => .number 0 (Decimal.unsignZero value)
  | .string _ value => .string 0 value
  | .name _ value => .name 0 value
  | .array _ items => .array 0 (bareAll items)
  | .attr _ object member => .item 0 object.bare (.string 0 member)
  | .item _ object index => .item 0 object.bare index.bare
  | .unary _ op operand => .unary 0 op operand.bare
  | .binary _ op left right => .binary 0 op left.bare right.bare
  | .filter _ name input args => .filter 0 name input.bare (bareAll args)

def bareAll : List Expr → List Expr
  | [] => []
  | expr :: exprs => expr.bare :: bareAll exprs

end

/-- All numbers among expressions are natural ones below `10 ^ 15`. -/
def NaturalNumbers (parts : List Expr) : Prop :=
  ∀ line value, .number line value ∈ parts → ∃ n, Decimal.IsNatural value n

theorem NaturalNumbers.mono {parts more : List Expr} (h : NaturalNumbers parts)
    (hparts : more ⊆ parts) : NaturalNumbers more :=
  fun line value hmem => h line value (hparts hmem)

namespace Script

section

variable (scope : Nat) (next : Reader Expr)

def operand (behind : String) : Reader Expr := do
  let e ← next
  skip behind
  return e

/-- Reads items up to the closing bracket, each with the separator in front of it. -/
def items : Nat → String → Reader (List Expr)
  | 0, _ => failure
  | fuel + 1, separator =>
    (do
      skip separator
      let item ← next
      let others ← items fuel ", "
      return item :: others)
    <|> (do
      skip "]"
      return [])

def symbols : List (String × BinaryOp) :=
  [("==", .eq), ("!=", .notEq), ("<", .lt), (">", .gt), ("<=", .ltEq), (">=", .gtEq),
    ("+", .add), ("-", .sub), ("*", .mul), ("/", .div), ("%", .mod), ("**", .pow)]

def conditionSymbols : List (String × BinaryOp) :=
  [("||", .or), ("&&", .and)]

/-- Reads what is between parentheses: two operands, two conditions or two texts. -/
def parenthesized : Reader Expr :=
  (do
    let left ← operand next " "
    let op ← firstOf (symbols.map fun entry => (entry.1 ++ " ", pure entry.2))
    let right ← operand next ")"
    return .binary 0 op left right)
  <|> (do
    skip "runtime.test("
    let left ← operand next ") "
    let op ← firstOf (conditionSymbols.map fun entry => (entry.1 ++ " ", pure entry.2))
    skip "runtime.test("
    let right ← operand next "))"
    return .binary 0 op left right)
  <|> (do
    skip "runtime.str("
    let left ← operand next ") + runtime.str("
    let right ← operand next "))"
    return .binary 0 .concat left right)

/-- Reads two operands with a separator between them, up to the closing parenthesis. -/
def two (separator : String) (f : Expr → Expr → Expr) : Reader Expr := do
  let first ← operand next separator
  let second ← operand next ")"
  return f first second

def lookedUp : Reader Expr :=
  two next ", " (.item 0)
  <|> (do
    skip (scopeName scope ++ ", '")
    let name ← literalText
    skip ")"
    return .name 0 name)

def filtered (fuel : Nat) : Reader Expr := do
  let name ← literalText
  skip ", "
  let input ← operand next ", ["
  let args ← items next fuel ""
  skip ")"
  return .filter 0 name input args

def forms (fuel : Nat) : List (String × Reader Expr) :=
  [("null", return .null 0),
    ("true", return .bool 0 true),
    ("false", return .bool 0 false),
    ("'", return .string 0 (← literalText)),
    ("[", return .array 0 (← items next fuel "")),
    ("runtime.attr(", lookedUp scope next),
    ("!runtime.test(", return .unary 0 .not (← operand next ")")),
    ("-(", return .unary 0 .neg (← operand next ")")),
    ("+(", return .unary 0 .pos (← operand next ")")),
    ("(", parenthesized next),
    ("runtime.contains(", two next ", " fun right left => .binary 0 .isIn left right),
    ("!runtime.contains(", two next ", " fun right left => .binary 0 .notIn left right),
    ("Math.floor(", two next " / " (.binary 0 .floorDiv)),
    ("runtime.filter('", filtered next fuel)]

end

def readExpr (scope : Nat) : Nat → Reader Expr
  | 0 => failure
  | fuel + 1 =>
    firstOf (forms scope (readExpr scope fuel) fuel) <|>
      (return .number 0 (Decimal.ofInteger (← natural)))

def openings : List String :=
  ["null", "true", "false", "'", "[", "runtime.attr(", "!runtime.test(", "-(", "+(", "(",
    "runtime.contains(", "!runtime.contains(", "Math.floor(", "runtime.filter('"]

theorem openings_apart : openings.Pairwise fun text other => Apart text other = true := by
  decide

theorem openings_endNumber : ∀ opening ∈ openings, EndsNumber opening = true := by
  decide

theorem apart_toDigits {text : String} (h : EndsNumber text = true) (n : Nat) :
    Apart text (String.ofList (Nat.toDigits 10 n)) = true := by
  obtain ⟨c, cs, hchars, hc⟩ := endsNumber_iff.1 h
  obtain ⟨d, ds, hdigits, hall⟩ := Decimal.toDigits_eq_cons n
  have hd := hall d (by simp)
  have hne : c ≠ d := by
    rintro rfl
    exact hc hd
  simp [Apart, hchars, hdigits, List.isPrefixOf, hne, hne.symm]

section

variable {scope fuel : Nat}

/-- What begins like no script is not read. -/
theorem refuses_readExpr {front : String} (hends : EndsNumber front = true)
    (h : ∀ opening ∈ openings, Apart opening front = true) :
    Refuses (readExpr scope fuel) front := by
  cases fuel with
  | zero => exact fun _ => rfl
  | succ fuel =>
    have hforms : Refuses (firstOf (forms scope (readExpr scope fuel) fuel)) front :=
      refuses_firstOf h
    exact hforms.orElse_refuses ((refuses_natural hends).bind _)

/-- A script is read by the form that its opening belongs to. -/
theorem takes_readExpr {opening front : String} {reader : Reader Expr} {e : Expr}
    (hmem : (opening, reader) ∈ forms scope (readExpr scope fuel) fuel) (h : Takes reader front e) :
    Takes (readExpr scope (fuel + 1)) (opening ++ front) e := by
  refine (takes_firstOf ?_ hmem h).orElse _
  exact openings_apart

theorem takesOperand_number (n : Nat) :
    TakesOperand (readExpr scope (fuel + 1)) (String.ofList (Nat.toDigits 10 n))
      (.number 0 (Decimal.ofInteger n)) := by
  have hforms : Refuses (firstOf (forms scope (readExpr scope fuel) fuel))
      (String.ofList (Nat.toDigits 10 n)) :=
    refuses_firstOf fun opening hopening =>
      apart_toDigits (openings_endNumber opening hopening) n
  intro behind hbehind
  show ((firstOf _).run _ <|> StateT.run (natural >>= fun n => pure _) _) = _
  rw [hforms, StateT.run_bind, takesOperand_natural n _ hbehind]
  rfl

end

section

variable {next : Reader Expr} {text behind : String} {e : Expr}

theorem takes_operand (h : TakesOperand next text e) (hbehind : EndsNumber behind = true) :
    Takes (operand next behind) (text ++ behind) e :=
  h.bind ((takes_skip behind).map fun _ => e) hbehind

/-- The items of an array or the arguments of a filter as they are written up to the closing
bracket. -/
def itemsText : String → List String → String
  | _, [] => "]"
  | separator, text :: texts => separator ++ (text ++ itemsText ", " texts)

theorem intercalate_append (texts : List String) :
    ", ".intercalate texts ++ "]" = itemsText "" texts := by
  cases texts with
  | nil => rfl
  | cons text texts =>
    rw [itemsText, String.empty_append]
    induction texts generalizing text with
    | nil => rw [String.intercalate_singleton]; rfl
    | cons other texts ih =>
      rw [String.intercalate_cons_cons, String.append_assoc, ih, String.append_assoc]
      rfl

theorem endsNumber_itemsText (texts : List String) : EndsNumber (itemsText ", " texts) = true := by
  cases texts with
  | nil => decide
  | cons text texts => exact EndsNumber.append (by decide) _

variable {texts : List String} {es : List Expr}

theorem takes_items_separated (h : List.Forall₂ (fun text e => TakesOperand next text e) texts es)
    {fuel : Nat} (hfuel : es.length < fuel) :
    Takes (items next fuel ", ") (itemsText ", " texts) es := by
  induction h generalizing fuel with
  | nil =>
    obtain ⟨fuel, rfl⟩ := Nat.exists_eq_succ_of_ne_zero (Nat.ne_zero_of_lt hfuel)
    have hskip : Refuses (skip ", ") "]" := refuses_skip (by decide)
    exact (hskip.bind _).orElse ((takes_skip "]").map fun _ => [])
  | cons htext _ ih =>
    obtain ⟨fuel, rfl⟩ := Nat.exists_eq_succ_of_ne_zero (Nat.ne_zero_of_lt hfuel)
    have hothers := ih (Nat.lt_of_succ_lt_succ hfuel)
    exact ((takes_skip ", ").bind
      (htext.bind (hothers.map _) (endsNumber_itemsText _))).orElse _

theorem takes_items (hnext : Refuses next "]")
    (h : List.Forall₂ (fun text e => TakesOperand next text e) texts es)
    {fuel : Nat} (hfuel : es.length < fuel) :
    Takes (items next fuel "") (itemsText "" texts) es := by
  obtain ⟨fuel, rfl⟩ := Nat.exists_eq_succ_of_ne_zero (Nat.ne_zero_of_lt hfuel)
  cases h with
  | nil =>
    refine Refuses.orElse ?_ ((takes_skip "]").map fun _ => [])
    rw [itemsText, ← @String.empty_append "]"]
    exact (takes_skip "").bind_refuses (hnext.bind _)
  | cons htext hothers =>
    have hothers := takes_items_separated hothers (Nat.lt_of_succ_lt_succ hfuel)
    exact ((takes_skip "").bind (htext.bind (hothers.map _) (endsNumber_itemsText _))).orElse _

end

theorem takes_symbol {table : List (String × BinaryOp)} {symbol : String} {op : BinaryOp}
    (htable : (table.map fun entry => entry.1 ++ " ").Pairwise fun text other =>
      Apart text other = true)
    (hmem : (symbol, op) ∈ table) :
    Takes (firstOf (table.map fun entry => (entry.1 ++ " ", pure entry.2))) (symbol ++ " ") op := by
  have h := @takes_firstOf _ "" op (table.map fun entry => (entry.1 ++ " ", pure entry.2))
    (symbol ++ " ") (pure op) (by rw [List.map_map]; exact htable) (List.mem_map_of_mem hmem)
    (takes_pure op)
  rwa [String.append_empty] at h

section

variable {next : Reader Expr} {left right : String} {l r : Expr}
  (hleft : TakesOperand next left l) (hright : TakesOperand next right r)

include hleft hright

theorem takes_infixed {symbol : String} {op : BinaryOp} (hmem : (symbol, op) ∈ symbols) :
    Takes (parenthesized next) (left ++ " " ++ (symbol ++ " " ++ (right ++ ")")))
      (.binary 0 op l r) := by
  have hsymbol := takes_symbol (by decide) hmem
  exact ((takes_operand hleft (by decide)).bind
    (hsymbol.bind ((takes_operand hright (by decide)).map _))).orElse _

theorem takes_tested (hnext : Refuses next "runtime.test(") {symbol : String} {op : BinaryOp}
    (hmem : (symbol, op) ∈ conditionSymbols) :
    Takes (parenthesized next)
      ("runtime.test(" ++ (left ++ ") " ++ (symbol ++ " " ++ ("runtime.test(" ++ (right ++ "))")))))
      (.binary 0 op l r) := by
  have hsymbol := takes_symbol (by decide) hmem
  refine (((hnext.append _).bind _).bind _).orElse (Takes.orElse ?_ _)
  exact (takes_skip _).bind ((takes_operand hleft (by decide)).bind
    (hsymbol.bind ((takes_skip _).bind ((takes_operand hright (by decide)).map _))))

theorem takes_joined (hnext : Refuses next "runtime.str(") :
    Takes (parenthesized next)
      ("runtime.str(" ++ (left ++ ") + runtime.str(" ++ (right ++ "))")))
      (.binary 0 .concat l r) := by
  have hskip : Refuses (skip "runtime.test(") "runtime.str(" := refuses_skip (by decide)
  refine (((hnext.append _).bind _).bind _).orElse (((hskip.append _).bind _).orElse ?_)
  exact (takes_skip _).bind ((takes_operand hleft (by decide)).bind
    ((takes_operand hright (by decide)).map _))

theorem takes_two {separator : String} (hseparator : EndsNumber separator = true)
    (f : Expr → Expr → Expr) :
    Takes (two next separator f) (left ++ separator ++ (right ++ ")")) (f l r) :=
  (takes_operand hleft hseparator).bind ((takes_operand hright (by decide)).map _)

end

theorem takes_filtered {next : Reader Expr} {text : String} {e : Expr}
    (h : TakesOperand next text e) {fuel : Nat} {argTexts : String} {args : List Expr}
    (hargs : Takes (items next fuel "") argTexts args) (name : String) :
    Takes (filtered next fuel) (literalTail name ++ (", " ++ (text ++ ", [" ++ (argTexts ++ ")"))))
      (.filter 0 name e args) :=
  (takes_literalText name).bind ((takes_skip _).bind ((takes_operand h (by decide)).bind
    (hargs.bind ((takes_skip _).map fun _ => _))))

theorem takes_name {next : Reader Expr} (hnext : Refuses next "ctx") (scope : Nat) (name : String) :
    Takes (lookedUp scope next) (scopeName scope ++ ", '" ++ (literalTail name ++ ")"))
      (.name 0 name) := by
  refine Refuses.orElse ?_ ?_
  · rw [scopeName, String.append_assoc, String.append_assoc]
    exact ((hnext.append _).bind _).bind _
  · exact (takes_skip _).bind ((takes_literalText name).bind ((takes_skip ")").map fun _ => _))

section

variable {scope fuel : Nat} {left right : String} {l r : Expr}

theorem takes_word {text : String} {e : Expr}
    (hmem : (text, pure e) ∈ forms scope (readExpr scope fuel) fuel) :
    Takes (readExpr scope (fuel + 1)) text e := by
  have h := takes_readExpr hmem (takes_pure e)
  rwa [String.append_empty] at h

theorem takes_unary {text : String} {e : Expr} (h : TakesOperand (readExpr scope fuel) text e)
    (op : UnaryOp) : Takes (readExpr scope (fuel + 1)) (unary op text) (.unary 0 op e) := by
  have hoperand : Takes (operand (readExpr scope fuel) ")") (text ++ ")") e :=
    takes_operand h (by decide)
  cases op with
  | not =>
    have htext : unary .not text = "!runtime.test(" ++ (text ++ ")") := by
      simp [unary, call, ← String.toList_inj]
    rw [htext]
    exact takes_readExpr (by simp [forms]) (hoperand.map _)
  | neg =>
    rw [show unary .neg text = "-(" ++ (text ++ ")") from String.append_assoc]
    exact takes_readExpr (by simp [forms]) (hoperand.map _)
  | pos =>
    rw [show unary .pos text = "+(" ++ (text ++ ")") from String.append_assoc]
    exact takes_readExpr (by simp [forms]) (hoperand.map _)

theorem takes_between {front : String} {e : Expr}
    (h : Takes (parenthesized (readExpr scope fuel)) front e) :
    Takes (readExpr scope (fuel + 1)) ("(" ++ front) e :=
  takes_readExpr (by simp [forms]) h

theorem takes_binary (hleft : TakesOperand (readExpr scope fuel) left l)
    (hright : TakesOperand (readExpr scope fuel) right r) (op : BinaryOp) :
    Takes (readExpr scope (fuel + 1)) (binary op left right) (.binary 0 op l r) := by
  have hinfixed : ∀ symbol, (symbol, op) ∈ symbols →
      Takes (readExpr scope (fuel + 1)) (infixed symbol left right) (.binary 0 op l r) := by
    intro symbol hsymbol
    have htext : infixed symbol left right =
        "(" ++ (left ++ " " ++ (symbol ++ " " ++ (right ++ ")"))) := by
      simp only [infixed, String.append_assoc]
    rw [htext]
    exact takes_between (takes_infixed hleft hright hsymbol)
  have htested : ∀ symbol, (symbol, op) ∈ conditionSymbols →
      Takes (readExpr scope (fuel + 1))
        (infixed symbol (call "test" [left]) (call "test" [right])) (.binary 0 op l r) := by
    intro symbol hsymbol
    have htext : infixed symbol (call "test" [left]) (call "test" [right]) =
        "(" ++ ("runtime.test(" ++
          (left ++ ") " ++ (symbol ++ " " ++ ("runtime.test(" ++ (right ++ "))"))))) := by
      simp [infixed, call, ← String.toList_inj]
    rw [htext]
    exact takes_between
      (takes_tested hleft hright (refuses_readExpr (by decide) (by decide)) hsymbol)
  cases op with
  | or => exact htested "||" (by decide)
  | and => exact htested "&&" (by decide)
  | isIn =>
    have htext : binary .isIn left right =
        "runtime.contains(" ++ (right ++ ", " ++ (left ++ ")")) := by
      simp [binary, call, ← String.toList_inj]
    rw [htext]
    exact takes_readExpr (by simp [forms])
      (takes_two hright hleft (by decide) fun right left => .binary 0 .isIn left right)
  | notIn =>
    have htext : binary .notIn left right =
        "!runtime.contains(" ++ (right ++ ", " ++ (left ++ ")")) := by
      simp [binary, call, ← String.toList_inj]
    rw [htext]
    exact takes_readExpr (by simp [forms])
      (takes_two hright hleft (by decide) fun right left => .binary 0 .notIn left right)
  | concat =>
    have htext : binary .concat left right =
        "(" ++ ("runtime.str(" ++ (left ++ ") + runtime.str(" ++ (right ++ "))"))) := by
      simp [binary, infixed, call, ← String.toList_inj]
    rw [htext]
    exact takes_between (takes_joined hleft hright (refuses_readExpr (by decide) (by decide)))
  | floorDiv =>
    have htext : binary .floorDiv left right =
        "Math.floor(" ++ (left ++ " / " ++ (right ++ ")")) := by
      simp only [binary, String.append_assoc]
    rw [htext]
    exact takes_readExpr (by simp [forms]) (takes_two hleft hright (by decide) _)
  | _ => exact hinfixed _ (by decide)

theorem takes_array {texts : List String} {es : List Expr}
    (h : List.Forall₂ (fun text e => TakesOperand (readExpr scope fuel) text e) texts es)
    (hfuel : es.length < fuel) :
    Takes (readExpr scope (fuel + 1)) ("[" ++ ", ".intercalate texts ++ "]") (.array 0 es) := by
  have hitems := takes_items (refuses_readExpr (by decide) (by decide)) h hfuel
  rw [String.append_assoc, intercalate_append]
  exact takes_readExpr (by simp [forms]) (hitems.map _)

theorem takes_filter {texts : List String} {es : List Expr}
    (hargs : List.Forall₂ (fun text e => TakesOperand (readExpr scope fuel) text e) texts es)
    (hfuel : es.length < fuel) (hleft : TakesOperand (readExpr scope fuel) left l)
    (name : String) :
    Takes (readExpr scope (fuel + 1))
      (call "filter" [literal name, left, "[" ++ ", ".intercalate texts ++ "]"])
      (.filter 0 name l es) := by
  have hitems := takes_items (refuses_readExpr (by decide) (by decide)) hargs hfuel
  have htext : call "filter" [literal name, left, "[" ++ ", ".intercalate texts ++ "]"] =
      "runtime.filter('" ++ (literalTail name ++ (", " ++ (left ++ ", [" ++
        (itemsText "" texts ++ ")")))) := by
    rw [← intercalate_append]
    simp [call, literal_eq, ← String.toList_inj]
  rw [htext]
  exact takes_readExpr (by simp [forms]) (takes_filtered hleft hitems name)

theorem takes_attr (h : TakesOperand (readExpr scope fuel) left l)
    (hright : TakesOperand (readExpr scope fuel) right r) :
    Takes (readExpr scope (fuel + 1)) (call "attr" [left, right]) (.item 0 l r) := by
  have htext : call "attr" [left, right] = "runtime.attr(" ++ (left ++ ", " ++ (right ++ ")")) := by
    simp [call, ← String.toList_inj]
  rw [htext]
  have hitem : Takes (lookedUp scope (readExpr scope fuel)) (left ++ ", " ++ (right ++ ")"))
      (.item 0 l r) :=
    (takes_two h hright (by decide) _).orElse _
  exact takes_readExpr (by simp [forms]) hitem

theorem takes_lookup (name : String) :
    Takes (readExpr scope (fuel + 1)) (call "attr" [scopeName scope, literal name])
      (.name 0 name) := by
  have htext : call "attr" [scopeName scope, literal name] =
      "runtime.attr(" ++ (scopeName scope ++ ", '" ++ (literalTail name ++ ")")) := by
    simp [call, literal_eq, ← String.toList_inj]
  rw [htext]
  have hnext : Refuses (readExpr scope fuel) "ctx" := refuses_readExpr (by decide) (by decide)
  exact takes_readExpr (by simp [forms]) (takes_name hnext scope name)

theorem takes_literal (text : String) :
    Takes (readExpr scope (fuel + 1)) (literal text) (.string 0 text) := by
  rw [literal_eq]
  exact takes_readExpr (by simp [forms]) ((takes_literalText text).map _)

end

theorem sizeOf_pos (e : Expr) : 0 < sizeOf e := by
  cases e <;> simp only [Expr.null.sizeOf_spec, Expr.bool.sizeOf_spec, Expr.number.sizeOf_spec,
    Expr.string.sizeOf_spec, Expr.name.sizeOf_spec, Expr.array.sizeOf_spec, Expr.attr.sizeOf_spec,
    Expr.item.sizeOf_spec, Expr.unary.sizeOf_spec, Expr.binary.sizeOf_spec,
    Expr.filter.sizeOf_spec] <;> omega

theorem length_bareAll_lt_sizeOf (es : List Expr) : (bareAll es).length < sizeOf es := by
  induction es with
  | nil => simp [bareAll]
  | cons e es ih =>
    simp only [bareAll, List.length_cons, List.cons.sizeOf_spec]
    omega

mutual

/-- The script of an expression is read as the expression. -/
theorem takesOperand_ofExpr {scope fuel : Nat} (e : Expr) {text : String}
    (htext : ofExpr scope e = .ok text) (hnumbers : NaturalNumbers e.parts)
    (hfuel : sizeOf e ≤ fuel) : TakesOperand (readExpr scope fuel) text e.bare := by
  obtain ⟨fuel, rfl⟩ := Nat.exists_eq_add_one_of_ne_zero (Nat.ne_zero_of_lt
    (Nat.lt_of_lt_of_le (sizeOf_pos e) hfuel))
  match e with
  | .null _ =>
    cases htext
    exact (takes_word (by simp [forms, Expr.bare])).toOperand
  | .bool _ true =>
    cases htext
    exact (takes_word (by simp [forms, Expr.bare])).toOperand
  | .bool _ false =>
    cases htext
    exact (takes_word (by simp [forms, Expr.bare])).toOperand
  | .number line value =>
    cases htext
    obtain ⟨n, hn⟩ := hnumbers line value (by simp [Expr.parts])
    rw [Expr.bare, Decimal.unsignZero_of_isNatural hn, Decimal.plainText_of_isNatural hn]
    exact takesOperand_number n
  | .string _ value =>
    cases htext
    exact (takes_literal value).toOperand
  | .name _ value =>
    cases htext
    exact (takes_lookup value).toOperand
  | .array _ items =>
    obtain ⟨texts, htexts, rfl⟩ := ofExpr_array htext
    rw [Expr.parts] at hnumbers
    rw [Expr.array.sizeOf_spec] at hfuel
    have hitems := takesOperand_ofExprs items htexts
      (hnumbers.mono (List.subset_cons_self _ _)) (show sizeOf items ≤ fuel by omega)
    have hlength := length_bareAll_lt_sizeOf items
    exact (takes_array hitems (by omega)).toOperand
  | .attr _ object member =>
    obtain ⟨script, hscript, rfl⟩ := ofExpr_attr htext
    rw [Expr.parts] at hnumbers
    rw [Expr.attr.sizeOf_spec] at hfuel
    have hpositive := sizeOf_pos object
    have hobject := takesOperand_ofExpr object hscript
      (hnumbers.mono (List.subset_cons_self _ _)) (show sizeOf object ≤ fuel by omega)
    obtain ⟨fuel, rfl⟩ : ∃ k, fuel = k + 1 := ⟨fuel - 1, by omega⟩
    exact (takes_attr hobject (takes_literal member).toOperand).toOperand
  | .item _ object index =>
    obtain ⟨left, hleft, right, hright, rfl⟩ := ofExpr_item htext
    rw [Expr.parts] at hnumbers
    rw [Expr.item.sizeOf_spec] at hfuel
    have hobject := takesOperand_ofExpr object hleft
      (hnumbers.mono (by simp)) (show sizeOf object ≤ fuel by omega)
    have hindex := takesOperand_ofExpr index hright
      (hnumbers.mono (by simp)) (show sizeOf index ≤ fuel by omega)
    exact (takes_attr hobject hindex).toOperand
  | .unary _ op operand =>
    obtain ⟨script, hscript, rfl⟩ := ofExpr_unary htext
    rw [Expr.parts] at hnumbers
    rw [Expr.unary.sizeOf_spec] at hfuel
    have hoperand := takesOperand_ofExpr operand hscript
      (hnumbers.mono (List.subset_cons_self _ _)) (show sizeOf operand ≤ fuel by omega)
    exact (takes_unary hoperand op).toOperand
  | .binary _ op left right =>
    obtain ⟨first, hfirst, second, hsecond, rfl⟩ := ofExpr_binary htext
    rw [Expr.parts] at hnumbers
    rw [Expr.binary.sizeOf_spec] at hfuel
    have hleft := takesOperand_ofExpr left hfirst
      (hnumbers.mono (by simp)) (show sizeOf left ≤ fuel by omega)
    have hright := takesOperand_ofExpr right hsecond
      (hnumbers.mono (by simp)) (show sizeOf right ≤ fuel by omega)
    exact (takes_binary hleft hright op).toOperand
  | .filter _ name input args =>
    obtain ⟨texts, htexts, script, hscript, rfl⟩ := ofExpr_filter htext
    rw [Expr.parts] at hnumbers
    rw [Expr.filter.sizeOf_spec] at hfuel
    have hargs := takesOperand_ofExprs args htexts
      (hnumbers.mono (by simp)) (show sizeOf args ≤ fuel by omega)
    have hinput := takesOperand_ofExpr input hscript
      (hnumbers.mono (by simp)) (show sizeOf input ≤ fuel by omega)
    have hlength := length_bareAll_lt_sizeOf args
    exact (takes_filter hargs (by omega) hinput name).toOperand

theorem takesOperand_ofExprs {scope fuel : Nat} (es : List Expr) {texts : List String}
    (htexts : ofExprs scope es = .ok texts) (hnumbers : NaturalNumbers (partsOfExprs es))
    (hfuel : sizeOf es ≤ fuel) :
    List.Forall₂ (fun text e => TakesOperand (readExpr scope fuel) text e) texts (bareAll es) := by
  match es with
  | [] =>
    cases htexts
    exact .nil
  | e :: es =>
    obtain ⟨first, hfirst, others, hothers, rfl⟩ := ofExprs_cons htexts
    rw [partsOfExprs] at hnumbers
    rw [List.cons.sizeOf_spec] at hfuel
    exact .cons
      (takesOperand_ofExpr e hfirst (hnumbers.mono (List.subset_append_left _ _)) (by omega))
      (takesOperand_ofExprs es hothers (hnumbers.mono (List.subset_append_right _ _)) (by omega))

end

/-- Expressions with the same script in the same scope are the same, but for lines, for the sign of
zero and for attributes that are written as items. -/
theorem bare_eq_of_ofExpr_eq {scope : Nat} {first second : Expr} {text : String}
    (hfirst : ofExpr scope first = .ok text) (hsecond : ofExpr scope second = .ok text)
    (hnumbers : NaturalNumbers first.parts) (hothers : NaturalNumbers second.parts) :
    first.bare = second.bare := by
  have hleft := takesOperand_ofExpr first hfirst hnumbers
    (Nat.le_max_left (sizeOf first) (sizeOf second)) [] rfl
  have hright := takesOperand_ofExpr second hsecond hothers
    (Nat.le_max_right (sizeOf first) (sizeOf second)) [] rfl
  exact congrArg Prod.fst (Option.some.inj (hleft.symm.trans hright))

/-- An attribute plus one, written as an attribute and as an item. -/
theorem bare_eq_of_ofExpr_eq_attr :
    (Expr.binary 1 .add (.attr 1 (.name 1 "x") "y") (.number 1 (Decimal.ofInteger 1))).bare =
      (Expr.binary 2 .add (.item 2 (.name 2 "x") (.string 2 "y"))
        (.number 3 (Decimal.ofInteger 1))).bare := by
  have hone : Decimal.IsNatural (Decimal.ofInteger 1) 1 := ⟨by decide, by decide +kernel⟩
  refine @bare_eq_of_ofExpr_eq 0 _ _ "(runtime.attr(runtime.attr(ctx0, 'x'), 'y') + 1)"
    (by decide +kernel) (by decide +kernel) ?_ ?_ <;>
  · intro line value hmem
    obtain ⟨-, rfl⟩ : _ ∧ value = Decimal.ofInteger 1 := by simpa [Expr.parts] using hmem
    exact ⟨1, hone⟩

end Script
end TemplateEngine
