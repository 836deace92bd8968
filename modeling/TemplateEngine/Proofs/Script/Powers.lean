import TemplateEngine.Expr.Parser
import TemplateEngine.Lexer
import TemplateEngine.Proofs.Decimal.Text
import TemplateEngine.Proofs.Document.Expressions
import TemplateEngine.Proofs.Script.Writing
import TemplateEngine.Proofs.Tokens

/-!
The operands of powers. JavaScript does not allow a unary operation in front of `**` without
parentheses. Main statement: the scripts of the powers in an expression stand in the script of the
expression, and the script of a left operand begins like a unary operation exactly if the operand is
a unary operation, a negated membership or a number below zero.
-/

namespace TemplateEngine

/-- The operations that are written as unary ones, without parentheses around them. -/
def Expr.IsPrefixed : Expr → Prop
  | .unary _ _ _ => True
  | .binary _ op _ _ => op = .notIn
  | .number _ value => value < 0
  | _ => False

namespace Script

def HasPart (text part : String) : Prop :=
  ∃ before behind, text = before ++ part ++ behind

namespace HasPart

variable {text part left right : String}

theorem refl (text : String) : HasPart text text :=
  ⟨"", "", by simp⟩

theorem between (h : HasPart text part) (before behind : String) :
    HasPart (before ++ text ++ behind) part := by
  obtain ⟨first, last, rfl⟩ := h
  exact ⟨before ++ first, last ++ behind, by simp only [String.append_assoc]⟩

theorem behind (h : HasPart text part) (before : String) : HasPart (before ++ text) part := by
  simpa using h.between before ""

theorem before (h : HasPart text part) (behind : String) : HasPart (text ++ behind) part := by
  simpa using h.between "" behind

theorem intercalate {separator : String} {texts : List String} (h : HasPart text part)
    (hmem : text ∈ texts) : HasPart (separator.intercalate texts) part := by
  induction texts with
  | nil => cases hmem
  | cons first others ih =>
    cases others with
    | nil =>
      obtain rfl := List.mem_singleton.1 hmem
      rwa [String.intercalate_singleton]
    | cons second others =>
      rw [String.intercalate_cons_cons]
      rcases List.mem_cons.1 hmem with rfl | hmem
      · exact (h.before _).before _
      · exact (ih hmem).behind _

theorem call {args : List String} (h : HasPart text part) (hmem : text ∈ args)
    (function : String) : HasPart (call function args) part :=
  (h.intercalate hmem).between _ _

theorem infixed_left (h : HasPart left part) (symbol right : String) :
    HasPart (infixed symbol left right) part := by
  have := h.between "(" (" " ++ symbol ++ " " ++ right ++ ")")
  simpa only [infixed, String.append_assoc] using this

theorem infixed_right (h : HasPart right part) (symbol left : String) :
    HasPart (infixed symbol left right) part :=
  h.between _ _

theorem unary (h : HasPart text part) (op : UnaryOp) : HasPart (unary op text) part := by
  cases op with
  | not => exact (h.call (List.mem_singleton_self text) _).behind _
  | neg | pos => exact h.between _ _

theorem binary_left (h : HasPart left part) (op : BinaryOp) (right : String) :
    HasPart (binary op left right) part := by
  have hone (function : String) : HasPart (Script.call function [left]) part :=
    h.call (List.mem_singleton_self left) function
  have htwo (function : String) : HasPart (Script.call function [right, left]) part :=
    h.call (List.mem_cons_of_mem right (List.mem_singleton_self left)) function
  cases op with
  | or | and | concat => exact (hone _).infixed_left _ _
  | isIn => exact htwo _
  | notIn => exact (htwo _).behind _
  | floorDiv => exact ((h.between _ _).before _).before _
  | _ => exact h.infixed_left _ _

theorem binary_right (h : HasPart right part) (op : BinaryOp) (left : String) :
    HasPart (binary op left right) part := by
  have hone (function : String) : HasPart (Script.call function [right]) part :=
    h.call (List.mem_singleton_self right) function
  have htwo (function : String) : HasPart (Script.call function [right, left]) part :=
    h.call (List.mem_cons_self ..) function
  cases op with
  | or | and | concat => exact (hone _).infixed_right _ _
  | isIn => exact htwo _
  | notIn => exact (htwo _).behind _
  | floorDiv => exact h.between _ _
  | _ => exact h.infixed_right _ _

end HasPart

mutual

/-- The script of a part stands in the script of the expression. -/
theorem ofExpr_of_mem_parts {scope : Nat} {e part : Expr} {text : String}
    (h : ofExpr scope e = .ok text) (hpart : part ∈ e.parts) :
    ∃ script, ofExpr scope part = .ok script ∧ HasPart text script := by
  have hself : part = e → ∃ script, ofExpr scope part = .ok script ∧ HasPart text script := by
    rintro rfl
    exact ⟨text, h, .refl text⟩
  match e with
  | .null _ | .bool _ _ | .number _ _ | .string _ _ | .name _ _ =>
    exact hself (List.mem_singleton.1 hpart)
  | .array _ items =>
    rcases List.mem_cons.1 hpart with hpart | hpart
    · exact hself hpart
    obtain ⟨texts, htexts, rfl⟩ := ofExpr_array h
    obtain ⟨inner, hinner, script, hscript, hhas⟩ := ofExprs_of_mem_parts htexts hpart
    exact ⟨script, hscript, (hhas.intercalate hinner).between _ _⟩
  | .attr _ object member =>
    rcases List.mem_cons.1 hpart with hpart | hpart
    · exact hself hpart
    obtain ⟨inner, hobject, rfl⟩ := ofExpr_attr h
    obtain ⟨script, hscript, hhas⟩ := ofExpr_of_mem_parts hobject hpart
    exact ⟨script, hscript, hhas.call (List.mem_cons_self ..) _⟩
  | .item _ object index =>
    rcases List.mem_cons.1 hpart with hpart | hpart
    · exact hself hpart
    obtain ⟨left, hleft, right, hright, rfl⟩ := ofExpr_item h
    rcases List.mem_append.1 hpart with hpart | hpart
    · obtain ⟨script, hscript, hhas⟩ := ofExpr_of_mem_parts hleft hpart
      exact ⟨script, hscript, hhas.call (List.mem_cons_self ..) _⟩
    · obtain ⟨script, hscript, hhas⟩ := ofExpr_of_mem_parts hright hpart
      exact ⟨script, hscript, hhas.call (by simp) _⟩
  | .unary _ op operand =>
    rcases List.mem_cons.1 hpart with hpart | hpart
    · exact hself hpart
    obtain ⟨inner, hinner, rfl⟩ := ofExpr_unary h
    obtain ⟨script, hscript, hhas⟩ := ofExpr_of_mem_parts hinner hpart
    exact ⟨script, hscript, hhas.unary op⟩
  | .binary _ op left right =>
    rcases List.mem_cons.1 hpart with hpart | hpart
    · exact hself hpart
    obtain ⟨first, hfirst, second, hsecond, rfl⟩ := ofExpr_binary h
    rcases List.mem_append.1 hpart with hpart | hpart
    · obtain ⟨script, hscript, hhas⟩ := ofExpr_of_mem_parts hfirst hpart
      exact ⟨script, hscript, hhas.binary_left op second⟩
    · obtain ⟨script, hscript, hhas⟩ := ofExpr_of_mem_parts hsecond hpart
      exact ⟨script, hscript, hhas.binary_right op first⟩
  | .filter _ name input args =>
    rcases List.mem_cons.1 hpart with hpart | hpart
    · exact hself hpart
    obtain ⟨texts, htexts, inner, hinput, rfl⟩ := ofExpr_filter h
    rcases List.mem_append.1 hpart with hpart | hpart
    · obtain ⟨script, hscript, hhas⟩ := ofExpr_of_mem_parts hinput hpart
      exact ⟨script, hscript, hhas.call (by simp) _⟩
    · obtain ⟨inner, hinner, script, hscript, hhas⟩ := ofExprs_of_mem_parts htexts hpart
      have hlist : HasPart ("[" ++ ", ".intercalate texts ++ "]") script :=
        (hhas.intercalate hinner).between _ _
      exact ⟨script, hscript, hlist.call (by simp) _⟩

theorem ofExprs_of_mem_parts {scope : Nat} {es : List Expr} {part : Expr} {texts : List String}
    (h : ofExprs scope es = .ok texts) (hpart : part ∈ partsOfExprs es) :
    ∃ text ∈ texts, ∃ script, ofExpr scope part = .ok script ∧ HasPart text script := by
  match es with
  | [] => cases hpart
  | e :: es =>
    obtain ⟨first, hfirst, others, hothers, rfl⟩ := ofExprs_cons h
    rcases List.mem_append.1 hpart with hpart | hpart
    · exact ⟨first, by simp, ofExpr_of_mem_parts hfirst hpart⟩
    · obtain ⟨text, hmem, hscript⟩ := ofExprs_of_mem_parts hothers hpart
      exact ⟨text, by simp [hmem], hscript⟩

end

/-- A script that begins like a unary operation. -/
def BeginsUnary (script : String) : Prop :=
  ∃ c cs, script.toList = c :: cs ∧ c ∈ ['!', '-', '+']

theorem beginsUnary_iff {script : String} {c : Char} {cs : List Char}
    (h : script.toList = c :: cs) : BeginsUnary script ↔ c ∈ ['!', '-', '+'] := by
  constructor
  · rintro ⟨d, ds, hd, hmem⟩
    obtain ⟨rfl, -⟩ := List.cons.inj (h.symm.trans hd)
    exact hmem
  · exact fun hmem => ⟨c, cs, h, hmem⟩

theorem beginsUnary_append {script : String} {c : Char} {cs : List Char}
    (h : script.toList = c :: cs) (more : String) :
    BeginsUnary (script ++ more) ↔ c ∈ ['!', '-', '+'] :=
  beginsUnary_iff (by rw [String.toList_append, h]; rfl)

theorem beginsUnary_plainText (x : Float) : BeginsUnary (Decimal.plainText x) ↔ x < 0 := by
  obtain ⟨c, cs, htext, ⟨hneg, rfl⟩ | ⟨hpos, hc⟩⟩ := Decimal.beginsSigned_plainText x
  · exact iff_of_true ((beginsUnary_iff htext).2 (by decide)) hneg
  · refine iff_of_false (fun h => ?_) hpos
    have := (beginsUnary_iff htext).1 h
    simp only [List.mem_cons, List.not_mem_nil, or_false] at this
    rcases this with rfl | rfl | rfl <;> exact absurd hc (by decide)

theorem not_beginsUnary_call (function : String) (args : List String) :
    ¬ BeginsUnary (call function args) := by
  have htext : call function args =
      "runtime." ++ (function ++ "(" ++ ", ".intercalate args ++ ")") := by
    simp only [call, String.append_assoc]
  rw [htext, beginsUnary_append rfl]
  decide

theorem not_beginsUnary_infixed (symbol left right : String) :
    ¬ BeginsUnary (infixed symbol left right) := by
  have htext : infixed symbol left right =
      "(" ++ (left ++ " " ++ symbol ++ " " ++ right ++ ")") := by
    simp only [infixed, String.append_assoc]
  rw [htext, beginsUnary_append rfl]
  decide

theorem beginsUnary_unary (op : UnaryOp) (operand : String) : BeginsUnary (unary op operand) := by
  cases op with
  | not => exact (beginsUnary_append rfl _).2 (by decide)
  | neg =>
    show BeginsUnary ("-(" ++ operand ++ ")")
    rw [String.append_assoc]
    exact (beginsUnary_append rfl _).2 (by decide)
  | pos =>
    show BeginsUnary ("+(" ++ operand ++ ")")
    rw [String.append_assoc]
    exact (beginsUnary_append rfl _).2 (by decide)

theorem beginsUnary_binary (op : BinaryOp) (left right : String) :
    BeginsUnary (binary op left right) ↔ op = .notIn := by
  cases op with
  | notIn => exact iff_of_true ((beginsUnary_append rfl _).2 (by decide)) rfl
  | floorDiv =>
    have htext : binary .floorDiv left right =
        "Math.floor(" ++ (left ++ " / " ++ right ++ ")") := by
      simp only [binary, String.append_assoc]
    rw [htext, beginsUnary_append rfl]
    decide
  | isIn => exact iff_of_false (not_beginsUnary_call _ _) (by decide)
  | _ => exact iff_of_false (not_beginsUnary_infixed _ _ _) (by decide)

/-- The expressions of which the scripts begin like a unary operation. -/
theorem beginsUnary_ofExpr {scope : Nat} {e : Expr} {text : String}
    (h : ofExpr scope e = .ok text) : BeginsUnary text ↔ e.IsPrefixed := by
  have hplain {c : Char} {cs : List Char} (htext : text.toList = c :: cs)
      (hc : c ∉ ['!', '-', '+']) : ¬ BeginsUnary text :=
    mt (beginsUnary_iff htext).1 hc
  match e with
  | .null _ =>
    obtain rfl := Except.ok.inj h
    exact iff_of_false (hplain rfl (by decide)) id
  | .bool _ value =>
    obtain rfl := Except.ok.inj h
    cases value <;> exact iff_of_false (hplain rfl (by decide)) id
  | .number _ value =>
    obtain rfl := Except.ok.inj h
    exact beginsUnary_plainText value
  | .string _ value =>
    obtain rfl := Except.ok.inj h
    exact iff_of_false (hplain (String.toList_ofList ..) (by decide)) id
  | .name _ value =>
    obtain rfl := Except.ok.inj h
    exact iff_of_false (not_beginsUnary_call _ _) id
  | .array _ items =>
    obtain ⟨texts, -, rfl⟩ := ofExpr_array h
    refine iff_of_false (fun h => ?_) id
    rw [String.append_assoc, beginsUnary_append rfl] at h
    exact absurd h (by decide)
  | .attr _ _ _ =>
    obtain ⟨_, -, rfl⟩ := ofExpr_attr h
    exact iff_of_false (not_beginsUnary_call _ _) id
  | .item _ _ _ =>
    obtain ⟨_, -, _, -, rfl⟩ := ofExpr_item h
    exact iff_of_false (not_beginsUnary_call _ _) id
  | .unary _ op _ =>
    obtain ⟨operand, -, rfl⟩ := ofExpr_unary h
    exact iff_of_true (beginsUnary_unary op operand) trivial
  | .binary _ op _ _ =>
    obtain ⟨left, -, right, -, rfl⟩ := ofExpr_binary h
    exact beginsUnary_binary op left right
  | .filter _ _ _ _ =>
    obtain ⟨_, -, _, -, rfl⟩ := ofExpr_filter h
    exact iff_of_false (not_beginsUnary_call _ _) id

/-- The script of a power in an expression stands in the script of the expression, and its left
operand begins like a unary operation exactly if it is written as one. -/
theorem beginsUnary_left_iff {scope : Nat} {e : Expr} {text : String}
    (h : ofExpr scope e = .ok text) {line : Nat} {left right : Expr}
    (hpower : .binary line .pow left right ∈ e.parts) :
    ∃ base exponent, ofExpr scope left = .ok base ∧ ofExpr scope right = .ok exponent ∧
      HasPart text ("(" ++ base ++ " ** " ++ exponent ++ ")") ∧
        (BeginsUnary base ↔ left.IsPrefixed) := by
  obtain ⟨script, hscript, hhas⟩ := ofExpr_of_mem_parts h hpower
  obtain ⟨base, hbase, exponent, hexponent, rfl⟩ := ofExpr_binary hscript
  refine ⟨base, exponent, hbase, hexponent, ?_, beginsUnary_ofExpr hbase⟩
  have htext : binary .pow base exponent = "(" ++ base ++ " ** " ++ exponent ++ ")" := by
    simp only [binary, infixed, String.append_assoc]
    rfl
  rwa [← htext]

/-- A power of a sum, which has parentheses. -/
theorem beginsUnary_left_iff_sum :
    let left := Expr.binary 1 .add (.name 1 "x") (.name 1 "y")
    ∃ base exponent, ofExpr 0 left = .ok base ∧ ofExpr 0 (.name 1 "z") = .ok exponent ∧
      HasPart ("!runtime.test(((runtime.attr(ctx0, 'x') + runtime.attr(ctx0, 'y')) ** " ++
        "runtime.attr(ctx0, 'z')))") ("(" ++ base ++ " ** " ++ exponent ++ ")") ∧
        (BeginsUnary base ↔ left.IsPrefixed) := by
  intro left
  exact @beginsUnary_left_iff 0 (.unary 1 .not (.binary 1 .pow left (.name 1 "z"))) _ rfl 1 left
    (.name 1 "z") (by simp [Expr.parts])

/-- A template with a power of which the left operand is a unary operation without parentheses. -/
theorem beginsUnary_left_neg :
    ∃ lexer start first e rest left right base exponent,
      Lexer.ofOptions {} .drop = .ok lexer ∧
      lexer.tokenize ⟨"page", "\x7b\x7b -x ** y \x7d\x7d"⟩ = .ok start ∧
      start.advance? = some first ∧ outcome Expr.read first = .ok (e, rest) ∧
      e = .binary 1 .pow left right ∧
      ofExpr 0 left = .ok base ∧ ofExpr 0 right = .ok exponent ∧
      ofExpr 0 e = .ok ("(" ++ base ++ " ** " ++ exponent ++ ")") ∧ BeginsUnary base := by
  let opening : Token := ⟨.varStart, "\x7b\x7b", 1⟩
  let minus : Token := ⟨.operator, "-", 1⟩
  let x : Token := ⟨.name, "x", 1⟩
  let power : Token := ⟨.operator, "**", 1⟩
  let y : Token := ⟨.name, "y", 1⟩
  let closing : Token := ⟨.varEnd, "\x7d\x7d", 1⟩
  let eof : Token := ⟨.eof, "", 1⟩
  exact ⟨_, .ofTokens [opening, minus, x, power, y, closing, eof] "page",
    ⟨[opening], minus, [x, power, y, closing, eof], "page"⟩,
    .binary 1 .pow (.unary 1 .neg (.name 1 "x")) (.name 1 "y"),
    ⟨[y, power, x, minus, opening], closing, [eof], "page"⟩, _, _,
    "-(runtime.attr(ctx0, 'x'))", "runtime.attr(ctx0, 'y')", rfl, rfl, rfl, rfl, rfl, rfl, rfl, rfl,
    ⟨'-', _, rfl, by decide⟩⟩

end Script

end TemplateEngine
