import TemplateEngine.Proofs.Tokens
import TemplateEngine.Script

/-!
What writers of scripts come to, one equation for each, and the module around the script of the
nodes of a document.
-/

namespace TemplateEngine.Script

/-- A writer in front of others does its part. -/
theorem outcome_bind_of_ok {α β : Type} {writer : Writer α} {f : α → Writer β} {s t : Script}
    {a : α} (h : outcome writer s = .ok (a, t)) : outcome (writer >>= f) s = outcome (f a) t := by
  rw [outcome_bind, h, ok_bind]

section

variable (front : String) (indentation scope : Nat)

theorem outcome_raw (text : String) :
    outcome (raw text) ⟨front, indentation, scope⟩ =
      .ok ((), ⟨front ++ text, indentation, scope⟩) := by
  rw [raw, outcome_modify]

theorem outcome_write (text : String) :
    outcome (write text) ⟨front, indentation, scope⟩ =
      .ok ((), ⟨front ++ margin indentation ++ text, indentation, scope⟩) := by
  rw [write, outcome_bind, outcome_get, ok_bind, outcome_bind, outcome_raw, ok_bind, outcome_raw]

theorem outcome_indent :
    outcome indent ⟨front, indentation, scope⟩ = .ok ((), ⟨front, indentation + 1, scope⟩) := by
  rw [indent, outcome_modify]

theorem outcome_outdent :
    outcome outdent ⟨front, indentation, scope⟩ = .ok ((), ⟨front, indentation - 1, scope⟩) := by
  rw [outdent, outcome_modify]

theorem outcome_enterScope :
    outcome enterScope ⟨front, indentation, scope⟩ = .ok ((), ⟨front, indentation, scope + 1⟩) := by
  rw [enterScope, outcome_modify]

theorem outcome_leaveScope :
    outcome leaveScope ⟨front, indentation, scope⟩ = .ok ((), ⟨front, indentation, scope - 1⟩) := by
  rw [leaveScope, outcome_modify]

theorem outcome_expr {e : Expr} {script : String} (h : ofExpr scope e = .ok script) :
    outcome (expr e) ⟨front, indentation, scope⟩ =
      .ok (script, ⟨front, indentation, scope⟩) := by
  unfold expr
  rw [outcome_bind, outcome_get, ok_bind, h]
  rfl

end

/-- The module of a document is the text that its writer comes to. -/
theorem ofDocument_eq_map (options : Options) (document : Document) :
    ofDocument options document =
      (outcome (writeModule options document) empty).map (·.2.text) := by
  unfold ofDocument outcome
  cases writeModule options document empty <;> rfl

/-- The name of the items of the loop that makes the next scope object. -/
def itemsName (scope : Nat) : String :=
  "items" ++ Nat.repr (scope + 1)

/-- What stands in a module in front of the script of the nodes. The outermost scope object is made
from the context. -/
def moduleHead (name : String) : String :=
  support ++ "\n\n" ++ ("// " ++ singleLine name ++ "\n") ++
    "export function render(context, runtime = stencil) \x7b\n" ++
    (margin 1 ++ "let out = '';\n") ++ (margin 1 ++ "const ctx0 = context ?? \x7b\x7d;\n")

def moduleEnd : String :=
  margin 1 ++ "return out;\n" ++ "\x7d\n"

/-- The nodes of a document are written at the margin of a function's body and in the outermost
scope. -/
theorem ofDocument_eq_of_outcome {options : Options} {document : Document} {text : String}
    (h : ∀ front, outcome (writeNodes options document.nodes) ⟨front, 1, 0⟩ =
      .ok ((), ⟨front ++ text, 1, 0⟩)) :
    ofDocument options document = .ok (moduleHead document.name ++ text ++ moduleEnd) := by
  have hmargin : margin 0 = "" := rfl
  have hmodule : outcome (writeModule options document) empty =
      .ok ((), ⟨moduleHead document.name ++ text ++ moduleEnd, 0, 0⟩) := by
    unfold writeModule empty
    rw [outcome_bind_of_ok (outcome_raw ..), outcome_bind_of_ok (outcome_raw ..),
      outcome_bind_of_ok (outcome_raw ..), outcome_bind_of_ok (outcome_write ..),
      outcome_bind_of_ok (outcome_indent ..), outcome_bind_of_ok (outcome_write ..),
      outcome_bind_of_ok (outcome_write ..), outcome_bind_of_ok (h ..),
      outcome_bind_of_ok (outcome_write ..), outcome_bind_of_ok (outcome_outdent ..), outcome_write]
    unfold moduleHead moduleEnd
    simp only [hmargin, Nat.zero_add, Nat.sub_self, String.append_empty, String.empty_append,
      String.append_assoc]
  rw [ofDocument_eq_map, hmodule]
  rfl

section

variable {scope line : Nat} {text : String}

theorem ofExpr_array {items : List Expr} (h : ofExpr scope (.array line items) = .ok text) :
    ∃ texts, ofExprs scope items = .ok texts ∧ "[" ++ ", ".intercalate texts ++ "]" = text := by
  simpa [ofExpr, bind_eq_ok, pure, Except.pure] using h

theorem ofExpr_attr {object : Expr} {member : String}
    (h : ofExpr scope (.attr line object member) = .ok text) :
    ∃ script, ofExpr scope object = .ok script ∧ call "attr" [script, literal member] = text := by
  simpa [ofExpr, bind_eq_ok, pure, Except.pure] using h

theorem ofExpr_item {object index : Expr} (h : ofExpr scope (.item line object index) = .ok text) :
    ∃ left, ofExpr scope object = .ok left ∧
      ∃ right, ofExpr scope index = .ok right ∧ call "attr" [left, right] = text := by
  simpa [ofExpr, bind_eq_ok, pure, Except.pure] using h

theorem ofExpr_unary {op : UnaryOp} {operand : Expr}
    (h : ofExpr scope (.unary line op operand) = .ok text) :
    ∃ script, ofExpr scope operand = .ok script ∧ unary op script = text := by
  simpa [ofExpr, bind_eq_ok, pure, Except.pure] using h

theorem ofExpr_binary {op : BinaryOp} {left right : Expr}
    (h : ofExpr scope (.binary line op left right) = .ok text) :
    ∃ first, ofExpr scope left = .ok first ∧
      ∃ second, ofExpr scope right = .ok second ∧ binary op first second = text := by
  simpa [ofExpr, bind_eq_ok, pure, Except.pure] using h

theorem ofExpr_filter {name : String} {input : Expr} {args : List Expr}
    (h : ofExpr scope (.filter line name input args) = .ok text) :
    ∃ texts, ofExprs scope args = .ok texts ∧ ∃ script, ofExpr scope input = .ok script ∧
      call "filter" [literal name, script, "[" ++ ", ".intercalate texts ++ "]"] = text := by
  rw [ofExpr] at h
  split at h
  · cases h
  · simpa [bind_eq_ok, pure, Except.pure] using h

theorem ofExprs_cons {e : Expr} {es : List Expr} {texts : List String}
    (h : ofExprs scope (e :: es) = .ok texts) :
    ∃ first, ofExpr scope e = .ok first ∧
      ∃ others, ofExprs scope es = .ok others ∧ first :: others = texts := by
  simpa [ofExprs, bind_eq_ok, pure, Except.pure] using h

end

end TemplateEngine.Script
