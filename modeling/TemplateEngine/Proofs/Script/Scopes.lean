import TemplateEngine.Proofs.Document.Parts
import TemplateEngine.Proofs.Script.Filters
import TemplateEngine.Proofs.Script.Writing

/-!
Scope objects in scripts. Main statement: in a document of which every choice has a branch and which
compiles, the script of a list of nodes is made of the scripts of its nodes, with the margin and the
scope object coming back to what they were; and every name is looked up in the scope object that the
innermost loop around it makes for its body, as a child of the one outside of that loop.
-/

namespace TemplateEngine

structure Loop where
  key : Option String
  target : String
  deriving Repr, DecidableEq

structure Lookup where
  loops : List Loop
  name : String
  deriving Repr, DecidableEq

def Lookup.within (loop : Loop) (lookup : Lookup) : Lookup :=
  { lookup with loops := loop :: lookup.loops }

def Expr.lookup? : Expr → Option Lookup
  | .name _ value => some ⟨[], value⟩
  | _ => none

/-- The names among expressions. There are no loops inside an expression. -/
def lookupsOfExprs (exprs : List Expr) : List Lookup :=
  exprs.filterMap Expr.lookup?

@[simp] theorem lookupsOfExprs_append (exprs more : List Expr) :
    lookupsOfExprs (exprs ++ more) = lookupsOfExprs exprs ++ lookupsOfExprs more :=
  List.filterMap_append

theorem lookupsOfExprs_cons {part : Expr} (h : part.lookup? = none) (parts : List Expr) :
    lookupsOfExprs (part :: parts) = lookupsOfExprs parts :=
  List.filterMap_cons_none h

mutual

/-- The names in a node. The last body of a loop and what the loop is about are not inside of it. -/
def Node.lookups : Node → List Lookup
  | .text _ _ => []
  | .print _ expr => lookupsOfExprs expr.parts
  | .choice _ branches otherwise => lookupsOfBranches branches ++ lookupsOfBody otherwise
  | .loop _ key target iterable body otherwise =>
    lookupsOfExprs iterable.parts ++
      ((lookupsOfNodes body).map (.within ⟨key, target⟩) ++ lookupsOfBody otherwise)
  | .block _ _ body => lookupsOfNodes body
  | .comment _ _ _ => []

def lookupsOfNodes : List Node → List Lookup
  | [] => []
  | node :: nodes => node.lookups ++ lookupsOfNodes nodes

def lookupsOfBranches : List Branch → List Lookup
  | [] => []
  | .mk condition body :: branches =>
    lookupsOfExprs condition.parts ++ (lookupsOfNodes body ++ lookupsOfBranches branches)

def lookupsOfBody : Option (List Node) → List Lookup
  | none => []
  | some body => lookupsOfNodes body

end

/-- The names in a document, each with the loops around it. -/
def Document.lookups (document : Document) : List Lookup :=
  lookupsOfNodes document.nodes

/-- No choice among the nodes is without a branch. -/
def Branched (nodes : List Node) : Prop :=
  ∀ line otherwise, .choice line [] otherwise ∉ nodes

@[simp] theorem branched_append {nodes more : List Node} :
    Branched (nodes ++ more) ↔ Branched nodes ∧ Branched more := by
  simp only [Branched, List.mem_append, not_or, forall_and]

theorem Branched.tail {node : Node} {nodes : List Node} (h : Branched (node :: nodes)) :
    Branched nodes :=
  fun line otherwise hmem => h line otherwise (List.mem_cons_of_mem _ hmem)

namespace Script

/-- The script of a loop's body: first of all it makes the next scope object, as a child of the
present one. -/
def loopText (loop : Loop) (indentation scope : Nat) (inside : String) : String :=
  "for (const [i, [key, value]] of " ++ itemsName scope ++ ".entries()) \x7b\n" ++
    (margin (indentation + 1) ++ scopeText scope loop.key loop.target (itemsName scope)) ++
    inside ++ (margin indentation ++ "\x7d\n")

/-- A text that depends on the number of the scope object it is written in, and names that are
looked up in it: in the scope object itself, and in the body of a loop, in the next one. -/
inductive Scoped : List Lookup → (Nat → String) → Prop
  | code (text : String) : Scoped [] fun _ => text
  | items : Scoped [] itemsName
  | lookup (name : String) :
    Scoped [⟨[], name⟩] fun scope => call "attr" [scopeName scope, literal name]
  | append {names more : List Lookup} {front back : Nat → String} (hfront : Scoped names front)
      (hback : Scoped more back) : Scoped (names ++ more) fun scope => front scope ++ back scope
  | body {names : List Lookup} {inside : Nat → String} (h : Scoped names inside) (loop : Loop)
      (indentation : Nat) :
    Scoped (names.map (.within loop)) fun scope =>
      loopText loop indentation scope (inside (scope + 1))
  | reorder {names more : List Lookup} {text : Nat → String} (h : Scoped names text)
      (hperm : names.Perm more) : Scoped more text

/-- The name is looked up in the text, inside the bodies of exactly these loops, in the scope object
of the innermost one. -/
def StandsIn (name : String) : List Loop → Nat → String → Prop
  | [], scope, text =>
    ∃ front back, text = front ++ call "attr" [scopeName scope, literal name] ++ back
  | loop :: loops, scope, text =>
    ∃ front indentation inside back,
      text = front ++ loopText loop indentation scope inside ++ back ∧
      StandsIn name loops (scope + 1) inside

namespace StandsIn

variable {name text : String} {loops : List Loop} {scope : Nat}

theorem between (h : StandsIn name loops scope text) (before behind : String) :
    StandsIn name loops scope (before ++ text ++ behind) := by
  cases loops with
  | nil =>
    obtain ⟨front, back, rfl⟩ := h
    exact ⟨before ++ front, back ++ behind, by simp only [String.append_assoc]⟩
  | cons loop loops =>
    obtain ⟨front, indentation, inside, back, rfl, hinside⟩ := h
    exact ⟨before ++ front, indentation, inside, back ++ behind,
      by simp only [String.append_assoc], hinside⟩

end StandsIn

theorem Scoped.standsIn {names : List Lookup} {text : Nat → String} (h : Scoped names text) :
    ∀ lookup ∈ names, ∀ scope, StandsIn lookup.name lookup.loops scope (text scope) := by
  induction h with
  | code | items => simp
  | lookup name =>
    intro lookup hlookup scope
    obtain rfl := List.mem_singleton.1 hlookup
    exact ⟨"", "", by rw [String.append_empty, String.empty_append]⟩
  | @append _ _ front back _ _ ihfront ihback =>
    intro lookup hlookup scope
    rcases List.mem_append.1 hlookup with hlookup | hlookup
    · have := (ihfront lookup hlookup scope).between "" (back scope)
      rwa [String.empty_append] at this
    · have := (ihback lookup hlookup scope).between (front scope) ""
      rwa [String.append_empty] at this
  | @body _ inside _ loop indentation ih =>
    intro lookup hlookup scope
    obtain ⟨deeper, hdeeper, rfl⟩ := List.mem_map.1 hlookup
    exact ⟨"", indentation, inside (scope + 1), "",
      by rw [String.append_empty, String.empty_append], ih deeper hdeeper (scope + 1)⟩
  | reorder _ hperm ih => exact fun lookup hlookup => ih lookup (hperm.mem_iff.2 hlookup)

namespace Scoped

variable {names more : List Lookup} {text front back : Nat → String}

theorem congr (h : Scoped names text) (heq : ∀ scope, front scope = text scope) :
    Scoped names front := by
  obtain rfl : front = text := funext heq
  exact h

/-- Code around a text. -/
theorem around (h : Scoped names text) (before behind : String) :
    Scoped names fun scope => before ++ text scope ++ behind := by
  have := ((code before).append h).append (code behind)
  rwa [List.nil_append, List.append_nil] at this

/-- Code around and between two texts. -/
theorem between (hfront : Scoped names front) (hback : Scoped more back)
    (before middle behind : String) :
    Scoped (names ++ more) fun scope =>
      before ++ front scope ++ middle ++ back scope ++ behind := by
  have := ((hfront.around before middle).append hback).append (code behind)
  rwa [List.append_nil] at this

/-- One more text in a list with separators. -/
theorem intercalate_cons {separator : String} {texts : List (Nat → String)}
    (hfront : Scoped names front)
    (h : Scoped more fun scope => separator.intercalate (texts.map (· scope))) :
    Scoped (names ++ more) fun scope =>
      separator.intercalate ((front :: texts).map (· scope)) := by
  cases texts with
  | nil => exact (hfront.append h).congr fun scope => by simp
  | cons next texts =>
    apply (hfront.append ((code separator).append h)).congr
    intro scope
    simp only [List.map_cons, String.intercalate_cons_cons, String.append_assoc]

theorem call (function : String) (texts : List (Nat → String))
    (h : Scoped names fun scope => ", ".intercalate (texts.map (· scope))) :
    Scoped names fun scope => Script.call function (texts.map (· scope)) :=
  (h.around ("runtime." ++ function ++ "(") ")").congr fun scope => by
    simp only [Script.call, String.append_assoc]

theorem call_one (function : String) (h : Scoped names text) :
    Scoped names fun scope => Script.call function [text scope] :=
  Scoped.call function [text] h

theorem call_two (function : String) (hfront : Scoped names front) (hback : Scoped more back) :
    Scoped (names ++ more) fun scope => Script.call function [front scope, back scope] :=
  Scoped.call function [front, back] (hfront.intercalate_cons hback)

theorem infixed (symbol : String) (hfront : Scoped names front) (hback : Scoped more back) :
    Scoped (names ++ more) fun scope => Script.infixed symbol (front scope) (back scope) :=
  (hfront.between hback "(" (" " ++ symbol ++ " ") ")").congr fun scope => by
    simp only [Script.infixed, String.append_assoc]

theorem unary (op : UnaryOp) (h : Scoped names text) :
    Scoped names fun scope => Script.unary op (text scope) := by
  cases op with
  | not => exact ((code "!").append (h.call_one "test"))
  | neg => exact h.around "-(" ")"
  | pos => exact h.around "+(" ")"

theorem binary (op : BinaryOp) (hleft : Scoped names front) (hright : Scoped more back) :
    Scoped (names ++ more) fun scope => Script.binary op (front scope) (back scope) := by
  -- A test of membership has its operands the other way round.
  have hcontains : Scoped (names ++ more) fun scope =>
      Script.call "contains" [back scope, front scope] :=
    (hright.call_two "contains" hleft).reorder List.perm_append_comm
  cases op with
  | or => exact (hleft.call_one "test").infixed "||" (hright.call_one "test")
  | and => exact (hleft.call_one "test").infixed "&&" (hright.call_one "test")
  | concat => exact (hleft.call_one "str").infixed "+" (hright.call_one "str")
  | isIn => exact hcontains
  | notIn => exact (code "!").append hcontains
  | floorDiv => exact hleft.between hright "Math.floor(" " / " ")"
  | eq | notEq | lt | gt | ltEq | gtEq | add | sub | mul | div | mod | pow =>
    exact hleft.infixed _ hright

end Scoped

mutual

/-- The script of an expression is a text with the names of the expression. -/
theorem ofExpr_scoped :
    (e : Expr) → ¬ SomeUnknown e.parts →
      ∃ script, Scoped (lookupsOfExprs e.parts) script ∧
        ∀ scope, ofExpr scope e = .ok (script scope)
  | .null _ | .bool _ _ | .number _ _ | .string _ _ => fun _ =>
    ⟨_, .code _, fun scope => by rw [ofExpr]⟩
  | .name _ value => fun _ => ⟨_, .lookup value, fun scope => by rw [ofExpr]⟩
  | .array _ items => fun h => by
    simp only [Expr.parts, someUnknown_cons, not_or] at h
    obtain ⟨scripts, hscripts, hitems⟩ := ofExprs_scoped items h.2
    rw [Expr.parts, lookupsOfExprs_cons rfl]
    exact ⟨_, hscripts.around "[" "]", fun scope => by rw [ofExpr, hitems]; rfl⟩
  | .attr _ object member => fun h => by
    simp only [Expr.parts, someUnknown_cons, not_or] at h
    obtain ⟨script, hscript, hobject⟩ := ofExpr_scoped object h.2
    have hcall := hscript.call_two "attr" (.code (literal member))
    rw [List.append_nil] at hcall
    rw [Expr.parts, lookupsOfExprs_cons rfl]
    exact ⟨_, hcall, fun scope => by rw [ofExpr, hobject]; rfl⟩
  | .item _ object index => fun h => by
    simp only [Expr.parts, someUnknown_cons, someUnknown_append, not_or] at h
    obtain ⟨first, hfirst, hobject⟩ := ofExpr_scoped object h.2.1
    obtain ⟨second, hsecond, hindex⟩ := ofExpr_scoped index h.2.2
    rw [Expr.parts, lookupsOfExprs_cons rfl, lookupsOfExprs_append]
    exact ⟨_, hfirst.call_two "attr" hsecond, fun scope => by rw [ofExpr, hobject, hindex]; rfl⟩
  | .unary _ op operand => fun h => by
    simp only [Expr.parts, someUnknown_cons, not_or] at h
    obtain ⟨script, hscript, hoperand⟩ := ofExpr_scoped operand h.2
    rw [Expr.parts, lookupsOfExprs_cons rfl]
    exact ⟨_, hscript.unary op, fun scope => by rw [ofExpr, hoperand]; rfl⟩
  | .binary _ op left right => fun h => by
    simp only [Expr.parts, someUnknown_cons, someUnknown_append, not_or] at h
    obtain ⟨first, hfirst, hleft⟩ := ofExpr_scoped left h.2.1
    obtain ⟨second, hsecond, hright⟩ := ofExpr_scoped right h.2.2
    rw [Expr.parts, lookupsOfExprs_cons rfl, lookupsOfExprs_append]
    exact ⟨_, hfirst.binary op hsecond, fun scope => by rw [ofExpr, hleft, hright]; rfl⟩
  | .filter line name input args => fun h => by
    simp only [Expr.parts, someUnknown_cons, someUnknown_append, not_or] at h
    have hname : ¬ name ∉ Filter.names := h.1
    obtain ⟨script, hscript, hinput⟩ := ofExpr_scoped input h.2.1
    obtain ⟨scripts, hscripts, hargs⟩ := ofExprs_scoped args h.2.2
    rw [Expr.parts, lookupsOfExprs_cons rfl, lookupsOfExprs_append]
    refine ⟨fun scope => call "filter" [literal name, script scope,
      "[" ++ ", ".intercalate (scripts.map (· scope)) ++ "]"], ?_, fun scope => ?_⟩
    · exact .call "filter" [fun _ => literal name, script, _]
        ((Scoped.code _).intercalate_cons (hscript.intercalate_cons (hscripts.around "[" "]")))
    · rw [ofExpr, if_neg hname, hargs, hinput]
      rfl

theorem ofExprs_scoped :
    (exprs : List Expr) → ¬ SomeUnknown (partsOfExprs exprs) →
      ∃ scripts : List (Nat → String),
        Scoped (lookupsOfExprs (partsOfExprs exprs))
          (fun scope => ", ".intercalate (scripts.map (· scope))) ∧
        ∀ scope, ofExprs scope exprs = .ok (scripts.map (· scope))
  | [] => fun _ => ⟨[], .code _, fun _ => by rw [ofExprs]; rfl⟩
  | expr :: exprs => fun h => by
    simp only [partsOfExprs, someUnknown_append, not_or] at h
    obtain ⟨script, hscript, hexpr⟩ := ofExpr_scoped expr h.1
    obtain ⟨scripts, hscripts, hexprs⟩ := ofExprs_scoped exprs h.2
    rw [partsOfExprs, lookupsOfExprs_append]
    exact ⟨script :: scripts, hscript.intercalate_cons hscripts, fun scope => by
      rw [ofExprs, hexpr, hexprs]; rfl⟩

end

structure Writable (nodes : List Node) (exprs : List Expr) : Prop where
  branched : Branched nodes
  known : ¬ SomeUnknown exprs

namespace Writable

variable {top : Node} {nodes more : List Node} {exprs others : List Expr}

theorem below (h : Writable (top :: nodes) exprs) : Writable nodes exprs :=
  ⟨h.branched.tail, h.known⟩

theorem split (h : Writable (nodes ++ more) (exprs ++ others)) :
    Writable nodes exprs ∧ Writable more others := by
  have hknown := h.known
  rw [someUnknown_append, not_or] at hknown
  obtain ⟨hnodes, hmore⟩ := branched_append.1 h.branched
  exact ⟨⟨hnodes, hknown.1⟩, hmore, hknown.2⟩

theorem behind (h : Writable nodes (exprs ++ others)) :
    ¬ SomeUnknown exprs ∧ Writable nodes others := by
  have hknown := h.known
  rw [someUnknown_append, not_or] at hknown
  exact ⟨hknown.1, h.branched, hknown.2⟩

end Writable

/-- From scripts in any scope with the first margin, the writer for that scope adds a text with the
names in it. It stays in the scope and leaves the last margin. -/
def Writes (names : List Lookup) (first last : Nat) (writer : Nat → Writer Unit) : Prop :=
  ∃ text, Scoped names text ∧ ∀ front scope,
    outcome (writer scope) ⟨front, first, scope⟩ =
      .ok ((), ⟨front ++ text scope, last, scope⟩)

namespace Writes

variable {names more : List Lookup} {first mid last : Nat} {writer other : Nat → Writer Unit}
  {f : Nat → Unit → Writer Unit}

theorem congr (h : Writes names first last other)
    (heq : ∀ front scope, outcome (writer scope) ⟨front, first, scope⟩ =
      outcome (other scope) ⟨front, first, scope⟩) : Writes names first last writer := by
  obtain ⟨text, htext, hother⟩ := h
  exact ⟨text, htext, fun front scope => (heq front scope).trans (hother front scope)⟩

theorem reorder (h : Writes names first last writer) (hperm : names.Perm more) :
    Writes more first last writer := by
  obtain ⟨text, htext, hwriter⟩ := h
  exact ⟨text, htext.reorder hperm, hwriter⟩

theorem pure (indentation : Nat) : Writes [] indentation indentation fun _ => Pure.pure () :=
  ⟨_, .code "", fun front scope => by rw [outcome_pure, String.append_empty]⟩

theorem raw (text : String) (indentation : Nat) :
    Writes [] indentation indentation fun _ => Script.raw text :=
  ⟨_, .code text, fun front scope => outcome_raw front indentation scope text⟩

theorem write {text : Nat → String} (h : Scoped names text) (indentation : Nat) :
    Writes names indentation indentation fun scope => Script.write (text scope) :=
  ⟨_, (Scoped.code (margin indentation)).append h, fun front scope => by
    rw [outcome_write, String.append_assoc]⟩

theorem andThen (h : Writes names first mid writer)
    (hf : Writes more mid last fun scope => f scope ()) :
    Writes (names ++ more) first last fun scope => writer scope >>= f scope := by
  obtain ⟨front, hfront, hwriter⟩ := h
  obtain ⟨back, hback, hmore⟩ := hf
  refine ⟨_, hfront.append hback, fun text scope => ?_⟩
  rw [outcome_bind_of_ok (hwriter text scope), hmore, String.append_assoc]

/-- What follows has no names in it. -/
theorem before (h : Writes names first mid writer)
    (hf : Writes [] mid last fun scope => f scope ()) :
    Writes names first last fun scope => writer scope >>= f scope := by
  have := h.andThen hf
  rwa [List.append_nil] at this

/-- What is done first has no names in it. -/
theorem after (h : Writes [] first mid writer)
    (hf : Writes more mid last fun scope => f scope ()) :
    Writes more first last fun scope => writer scope >>= f scope :=
  h.andThen hf

theorem indent (indentation : Nat) :
    Writes [] indentation (indentation + 1) fun _ => Script.indent :=
  ⟨_, .code "", fun front scope => by rw [outcome_indent, String.append_empty]⟩

theorem outdent (indentation : Nat) :
    Writes [] (indentation + 1) indentation fun _ => Script.outdent :=
  ⟨_, .code "", fun front scope => by
    rw [outcome_outdent, String.append_empty, Nat.add_sub_cancel]⟩

theorem expr {e : Expr} {script : Nat → String} {f : Nat → String → Writer Unit}
    (he : ∀ scope, ofExpr scope e = .ok (script scope))
    (hf : Writes names first last fun scope => f scope (script scope)) :
    Writes names first last fun scope => Script.expr e >>= f scope :=
  hf.congr fun _ scope => outcome_bind_of_ok (outcome_expr _ _ _ (he scope))

/-- The body of a loop is written in the next scope, which is left again. -/
theorem body {inside : Writer Unit} (loop : Loop) {indentation : Nat}
    (h : Writes names (indentation + 1) (indentation + 1) fun _ => inside)
    (hf : Writes [] indentation last fun scope => f scope ()) :
    Writes (names.map (.within loop)) indentation last fun scope => (do
      enterScope
      Script.write ("for (const [i, [key, value]] of " ++ itemsName scope ++ ".entries()) \x7b\n")
      Script.indent
      Script.write (scopeText scope loop.key loop.target (itemsName scope))
      inside
      leaveScope
      Script.outdent
      Script.write "\x7d\n" >>= f scope) := by
  obtain ⟨text, htext, hinside⟩ := h
  obtain ⟨back, hback, hmore⟩ := hf
  have hloop := (Scoped.code (margin indentation)).append (htext.body loop indentation)
  have hall := hloop.append hback
  rw [List.append_nil] at hall
  refine ⟨_, hall, fun front scope => ?_⟩
  rw [outcome_bind_of_ok (outcome_enterScope ..), outcome_bind_of_ok (outcome_write ..),
    outcome_bind_of_ok (outcome_indent ..), outcome_bind_of_ok (outcome_write ..),
    outcome_bind_of_ok (hinside ..), outcome_bind_of_ok (outcome_leaveScope ..),
    outcome_bind_of_ok (outcome_outdent ..), outcome_bind_of_ok (outcome_write ..)]
  simp only [Nat.add_sub_cancel]
  rw [hmore]
  unfold loopText
  simp only [String.append_assoc]

end Writes

section

variable (options : Options)

mutual

theorem writeNode_scoped :
    (node : Node) → Writable node.parts node.exprs → ∀ indentation,
      Writes node.lookups indentation indentation fun _ => writeNode options node
  | .text _ text => fun _ indentation => by
    rw [writeNode]
    exact .write (.code _) indentation
  | .print _ e => fun h indentation => by
    obtain ⟨script, hscript, he⟩ := ofExpr_scoped e h.known
    have hcall := hscript.call_two "print" (.code (if options.autoescape then "true" else "false"))
    rw [List.append_nil] at hcall
    rw [writeNode]
    exact .expr he (.write (hcall.around "out += " ";\n") indentation)
  | .choice _ branches otherwise => fun h indentation => by
    have hfirst : branches ≠ [] := by
      rintro rfl
      exact h.branched _ otherwise (List.mem_cons_self ..)
    obtain ⟨hbranches, hotherwise⟩ := h.below.split
    rw [writeNode]
    apply (writeBranches_scoped branches hbranches true indentation fun _ => hfirst).andThen
    apply (writeOtherwise_scoped otherwise hotherwise indentation).before
    exact (Writes.outdent indentation).after (.write (.code _) indentation)
  | .loop _ key target iterable body otherwise => fun h indentation => by
    obtain ⟨hiterable, hbodies⟩ := h.below.behind
    obtain ⟨hbody, hotherwise⟩ := hbodies.split
    obtain ⟨items, hitems, hexpr⟩ := ofExpr_scoped iterable hiterable
    have hlist := Scoped.items.between (hitems.call_one "iterate") "const " " = " ";\n"
    -- The last body is written before the first one, and outside of the scope of the loop.
    have hloop : Writes (lookupsOfExprs iterable.parts ++ (lookupsOfBody otherwise ++
        (lookupsOfNodes body).map (.within ⟨key, target⟩))) indentation indentation (fun scope => do
          write "\x7b\n"
          indent
          write ("const " ++ itemsName scope ++ " = " ++ call "iterate" [items scope] ++ ";\n")
          writeEmptyCase options (itemsName scope) otherwise
          enterScope
          write ("for (const [i, [key, value]] of " ++ itemsName scope ++ ".entries()) \x7b\n")
          indent
          write (scopeText scope key target (itemsName scope))
          writeNodes options body
          leaveScope
          outdent
          write "\x7d\n"
          outdent
          write "\x7d\n") := by
      apply (Writes.write (.code _) indentation).after
      apply (Writes.indent indentation).after
      apply (Writes.write hlist (indentation + 1)).andThen
      apply (writeEmptyCase_scoped otherwise hotherwise (indentation + 1)).andThen
      apply (writeNodes_scoped body hbody (indentation + 2)).body ⟨key, target⟩
      exact (Writes.outdent indentation).after (.write (.code _) indentation)
    refine Writes.reorder (hloop.congr fun front scope => ?_)
      (List.perm_append_comm.append_left (lookupsOfExprs iterable.parts))
    rw [writeNode, outcome_bind_of_ok (outcome_expr _ _ _ (hexpr scope)),
      outcome_bind_of_ok (outcome_get _)]
    rfl
  | .block _ name body => fun h indentation => by
    rw [writeNode]
    apply (Writes.write (.code _) indentation).after
    apply (writeNodes_scoped body h.below indentation).before
    exact .write (.code _) indentation
  | .comment line text exposed => fun _ indentation => by
    rw [writeNode]
    split
    · exact .raw _ indentation
    · exact .pure indentation

theorem writeNodes_scoped :
    (nodes : List Node) → Writable (partsOfNodes nodes) (exprsOfNodes nodes) → ∀ indentation,
      Writes (lookupsOfNodes nodes) indentation indentation fun _ => writeNodes options nodes
  | [] => fun _ indentation => by
    rw [writeNodes]
    exact .pure indentation
  | node :: nodes => fun h indentation => by
    obtain ⟨hnode, hnodes⟩ := h.split
    rw [writeNodes]
    apply (writeNode_scoped node hnode indentation).andThen
    exact writeNodes_scoped nodes hnodes indentation

theorem writeBranches_scoped :
    (branches : List Branch) → Writable (partsOfBranches branches) (exprsOfBranches branches) →
      ∀ isFirst indentation, (isFirst = true → branches ≠ []) →
        Writes (lookupsOfBranches branches) (if isFirst then indentation else indentation + 1)
          (indentation + 1) fun _ => writeBranches options isFirst branches
  | [] => fun _ isFirst indentation hfirst => by
    obtain rfl : isFirst = false := by simpa using hfirst
    rw [writeBranches]
    exact .pure (indentation + 1)
  | .mk condition body :: branches => fun h isFirst indentation _ => by
    obtain ⟨hcondition, hbodies⟩ := h.behind
    obtain ⟨hbody, hbranches⟩ := hbodies.split
    obtain ⟨script, hscript, he⟩ := ofExpr_scoped condition hcondition
    have hhead := (hscript.call_one "test").around "if (" ") \x7b\n"
    have hrest : Writes (lookupsOfNodes body ++ lookupsOfBranches branches) indentation
        (indentation + 1) (fun _ => do
          indent
          writeNodes options body
          writeBranches options false branches) := by
      apply (Writes.indent indentation).after
      apply (writeNodes_scoped body hbody (indentation + 1)).andThen
      exact writeBranches_scoped branches hbranches false indentation (by simp)
    rw [writeBranches, lookupsOfBranches]
    apply Writes.expr he
    cases isFirst with
    | true => exact (Writes.write hhead indentation).andThen hrest
    | false =>
      apply (Writes.outdent indentation).after
      exact (Writes.write ((Scoped.code "\x7d else ").append hhead) indentation).andThen hrest

theorem writeOtherwise_scoped :
    (otherwise : Option (List Node)) →
      Writable (partsOfBody otherwise) (exprsOfBody otherwise) → ∀ indentation,
        Writes (lookupsOfBody otherwise) (indentation + 1) (indentation + 1)
          fun _ => writeOtherwise options otherwise
  | none => fun _ indentation => by
    rw [writeOtherwise]
    exact .pure (indentation + 1)
  | some body => fun h indentation => by
    rw [writeOtherwise]
    apply (Writes.outdent indentation).after
    apply (Writes.write (.code _) indentation).after
    apply (Writes.indent indentation).after
    exact writeNodes_scoped body h (indentation + 1)

/-- The case without items is written in the scope outside of the loop. -/
theorem writeEmptyCase_scoped :
    (otherwise : Option (List Node)) →
      Writable (partsOfBody otherwise) (exprsOfBody otherwise) → ∀ indentation,
        Writes (lookupsOfBody otherwise) indentation indentation
          fun scope => writeEmptyCase options (itemsName scope) otherwise
  | none => fun _ indentation => by
    simp only [writeEmptyCase]
    exact .pure indentation
  | some body => fun h indentation => by
    simp only [writeEmptyCase]
    apply (Writes.write (Scoped.items.around "if (" ".length === 0) \x7b\n") indentation).after
    apply (Writes.indent indentation).after
    apply (writeNodes_scoped body h (indentation + 1)).before
    apply (Writes.outdent indentation).after
    exact .write (.code _) indentation

end

/-- The writer adds a text to every script of the margin, which may depend on the scope, and changes
nothing else. -/
def Adds (indentation : Nat) (writer : Writer Unit) (text : Nat → String) : Prop :=
  ∀ front scope, outcome writer ⟨front, indentation, scope⟩ =
    .ok ((), ⟨front ++ text scope, indentation, scope⟩)

/-- The text of a node by itself, at a margin and in a scope. -/
def nodeText (indentation : Nat) (node : Node) (scope : Nat) : String :=
  match outcome (writeNode options node) ⟨"", indentation, scope⟩ with
  | .ok (_, script) => script.text
  | .error _ => ""

/-- The texts of nodes at the same margin and in the same scope, one behind the other. -/
def nodesText (indentation : Nat) (nodes : List Node) (scope : Nat) : String :=
  String.join (nodes.map (nodeText options indentation · scope))

theorem Adds.eq_nodeText {indentation : Nat} {node : Node} {text : Nat → String}
    (h : Adds indentation (writeNode options node) text) :
    text = nodeText options indentation node := by
  funext scope
  rw [nodeText, h]
  exact String.empty_append.symm

theorem scoped_nodeText {node : Node} (h : Writable node.parts node.exprs) (indentation : Nat) :
    Scoped node.lookups (nodeText options indentation node) ∧
      Adds indentation (writeNode options node) (nodeText options indentation node) := by
  obtain ⟨text, htext, hadds⟩ := writeNode_scoped options node h indentation
  obtain rfl := Adds.eq_nodeText options hadds
  exact ⟨htext, hadds⟩

/-- A list of nodes adds the texts that its nodes have by themselves. -/
theorem scoped_nodesText {nodes : List Node} (h : ∀ node ∈ nodes, Writable node.parts node.exprs)
    (indentation : Nat) :
    Scoped (lookupsOfNodes nodes) (nodesText options indentation nodes) ∧
      Adds indentation (writeNodes options nodes) (nodesText options indentation nodes) := by
  induction nodes with
  | nil =>
    refine ⟨.code "", fun front scope => ?_⟩
    rw [writeNodes, outcome_pure, nodesText, List.map_nil, String.join_nil, String.append_empty]
  | cons node nodes ih =>
    obtain ⟨hnode, hnodes⟩ := List.forall_mem_cons.1 h
    obtain ⟨hfirst, hadds⟩ := scoped_nodeText options hnode indentation
    obtain ⟨hrest, hmore⟩ := ih hnodes
    have hjoin (scope : Nat) : nodesText options indentation (node :: nodes) scope =
        nodeText options indentation node scope ++ nodesText options indentation nodes scope := by
      rw [nodesText, List.map_cons, String.join_cons, nodesText]
    refine ⟨(hfirst.append hrest).congr hjoin, fun front scope => ?_⟩
    rw [writeNodes, outcome_bind_of_ok (hadds front scope), hmore, hjoin, String.append_assoc]

end

/-- In a document of which every choice has a branch and which compiles, a list of nodes adds the
texts of its nodes, each written at the same margin and in the same scope, and comes back to both.
Every name is looked up in the scope object that the innermost loop around it makes for its body, as
a child of the one outside of that loop. -/
theorem ofDocument_scoped (options : Options) (document : Document)
    (hbranched : Branched document.parts) {script : String}
    (hscript : ofDocument options document = .ok script) :
    (∀ nodes, nodes ⊆ document.parts → ∀ indentation,
      Scoped (lookupsOfNodes nodes) (nodesText options indentation nodes) ∧
      Adds indentation (writeNodes options nodes) (nodesText options indentation nodes)) ∧
    script = moduleHead document.name ++ nodesText options 1 document.nodes 0 ++ moduleEnd ∧
    ∀ lookup ∈ document.lookups, StandsIn lookup.name lookup.loops 0 script := by
  have hknown : ¬ SomeUnknown document.exprs := by
    intro hunknown
    obtain ⟨e, he⟩ := (ofDocument_failsIff options document).2 hunknown
    rw [hscript] at he
    simp at he
  have hnodes (nodes : List Node) (hsubset : nodes ⊆ document.parts) (indentation : Nat) :
      Scoped (lookupsOfNodes nodes) (nodesText options indentation nodes) ∧
      Adds indentation (writeNodes options nodes) (nodesText options indentation nodes) := by
    apply scoped_nodesText
    intro node hnode
    have hin := Document.isIn_of_mem_parts (hsubset hnode)
    refine ⟨fun line otherwise hchoice => hbranched line otherwise (hin.parts hchoice), ?_⟩
    rintro ⟨part, hpart, hunknown⟩
    exact hknown ⟨part, hin.exprs hpart, hunknown⟩
  obtain ⟨hnames, hadds⟩ := hnodes document.nodes (subset_partsOfNodes document.nodes) 1
  obtain rfl :
      script = moduleHead document.name ++ nodesText options 1 document.nodes 0 ++ moduleEnd := by
    rw [ofDocument_eq_of_outcome fun front => hadds front 0] at hscript
    exact (Except.ok.inj hscript).symm
  exact ⟨hnodes, rfl, fun lookup hlookup => (hnames.standsIn lookup hlookup 0).between _ _⟩

/-- A loop in a loop, with a name behind the inner one and one in the last body of the outer one. -/
theorem ofDocument_scoped_nested :
    ∃ document script, ofDocument ⟨false, true⟩ document = .ok script ∧
      document.lookups = [⟨[], "xs"⟩, ⟨[⟨none, "x"⟩], "x"⟩, ⟨[⟨none, "x"⟩, ⟨some "k", "y"⟩], "y"⟩,
        ⟨[⟨none, "x"⟩], "x"⟩, ⟨[], "xs"⟩] ∧
      (∀ front scope, ∃ text, outcome (writeNodes ⟨false, true⟩ document.nodes) ⟨front, 3, scope⟩ =
        .ok ((), ⟨front ++ text, 3, scope⟩)) ∧
      StandsIn "y" [⟨none, "x"⟩, ⟨some "k", "y"⟩] 0 script ∧
      StandsIn "x" [⟨none, "x"⟩] 0 script ∧ StandsIn "xs" [] 0 script := by
  let document : Document := ⟨"template", [.loop 1 none "x" (.name 1 "xs")
    [.loop 1 (some "k") "y" (.name 1 "x") [.print 1 (.name 1 "y")] none, .print 1 (.name 1 "x")]
    (some [.print 1 (.name 1 "xs")])]⟩
  have hbranched : Branched document.parts := by
    intro line otherwise
    simp [document, Document.parts, partsOfNodes, Node.parts, partsOfBody]
  have hknown : ¬ SomeUnknown document.exprs := by
    simp [document, Document.exprs, exprsOfNodes, Node.exprs, exprsOfBody, Expr.parts,
      Expr.UsesUnknown]
  obtain ⟨text, -, hadds⟩ := writeNodes_scoped ⟨false, true⟩ document.nodes ⟨hbranched, hknown⟩ 1
  have hscript := ofDocument_eq_of_outcome fun front => hadds front 0
  obtain ⟨hnodes, -, hstands⟩ := ofDocument_scoped _ document hbranched hscript
  have hlookups : document.lookups = [⟨[], "xs"⟩, ⟨[⟨none, "x"⟩], "x"⟩,
      ⟨[⟨none, "x"⟩, ⟨some "k", "y"⟩], "y"⟩, ⟨[⟨none, "x"⟩], "x"⟩, ⟨[], "xs"⟩] := rfl
  rw [hlookups] at hstands
  simp only [List.forall_mem_cons] at hstands
  refine ⟨document, _, hscript, hlookups, fun front scope => ?_, hstands.2.2.1, hstands.2.1,
    hstands.1⟩
  exact ⟨_, (hnodes document.nodes (subset_partsOfNodes _) 3).2 front scope⟩

end Script

end TemplateEngine
