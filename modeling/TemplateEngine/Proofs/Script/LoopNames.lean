import TemplateEngine.Proofs.Script.Markers
import TemplateEngine.Proofs.Script.Readers
import TemplateEngine.Proofs.Script.Scopes
import TemplateEngine.Render

/-!
The names of an iteration, in rendering and in scripts. Main statement: the scope object that a
script makes for an iteration gives every name the meaning that it has in the scope of the renderer,
except where the key of the loop has the name of the target. The renderer takes the key for that
name and the script takes the item, unless the name is `loop`, which has its own meaning in both.
-/

namespace TemplateEngine

inductive LoopPart where
  | item
  | key
  | info
  deriving Repr, DecidableEq

/-- The value of a part in iteration `i` of `length`. -/
def LoopPart.value (i length : Nat) (item : Json × Json) : LoopPart → Json
  | .item => item.2
  | .key => item.1
  | .info => Render.loopInfo i length

theorem Render.lookup_loopScope (key : Option String) (target : String) (i length : Nat)
    (item : Json × Json) (name : String) :
    (loopScope key target i length item).lookup name =
      if name = "loop" then some (loopInfo i length)
      else if key = some name then some item.1
      else if name = target then some item.2
      else none := by
  cases key <;> simp only [loopScope, List.lookup_cons, List.lookup_nil] <;> grind

namespace Script

def propertyName : Reader String :=
  firstOf [("'", literalText), ("loop", return "loop")]

/-- The call for what a loop over the items of this name tells about an iteration. -/
def infoCall (items : String) : String :=
  "runtime.loop(i, " ++ items ++ ".length)"

/-- Reads the value of a property, where `items` is the name of the items. -/
def propertyValue (items : String) : Reader LoopPart :=
  firstOf [("key", return .key), ("value", return .item), (infoCall items, return .info)]

def property (items : String) : Reader (String × LoopPart) := do
  let name ← propertyName
  skip ": "
  let value ← propertyValue items
  return (name, value)

/-- Reads properties with a comma in front of each, up to the end of the object literal. -/
def moreProperties (items : String) : Nat → Reader (List (String × LoopPart))
  | 0 => failure
  | fuel + 1 =>
    (do
      skip ", "
      let first ← property items
      let others ← moreProperties items fuel
      return first :: others)
    <|> (do
      skip " \x7d"
      return [])

/-- Reads an object literal of at least one property and at most `fuel` others. -/
def bracedProperties (items : String) (fuel : Nat) : Reader (List (String × LoopPart)) := do
  skip "\x7b "
  let first ← property items
  let others ← moreProperties items fuel
  return first :: others

/-- Reads an object literal. It has fewer properties than characters. -/
def objectLiteral (items : String) : Reader (List (String × LoopPart)) := fun cs =>
  (bracedProperties items cs.length).run cs

/-- What names stand for once a property has been assigned. -/
def assign (bound : String → Option LoopPart) (property : String × LoopPart) :
    String → Option LoopPart :=
  fun name => if name = property.1 then some property.2 else bound name

/-- What a name stands for in an object to which properties are assigned from left to right. -/
def assigned (properties : List (String × LoopPart)) : String → Option LoopPart :=
  properties.foldl assign fun _ => none

def nameText : LoopPart → String → String
  | .info, _ => "loop"
  | _, name => literal name

def valueText (items : String) : LoopPart → String
  | .item => "value"
  | .key => "key"
  | .info => infoCall items

def propertyText (items : String) (property : String × LoopPart) : String :=
  nameText property.2 property.1 ++ ": " ++ valueText items property.2

/-- The properties that a script assigns in an iteration, from left to right. -/
def loopProperties (key : Option String) (target : String) : List (String × LoopPart) :=
  (key.map fun key => (key, LoopPart.key)).toList ++ [(target, .item), ("loop", .info)]

/-- A property of the name `loop` is written without quotes if it is what the loop tells. -/
def IsNamed (property : String × LoopPart) : Prop :=
  property.2 = .info → property.1 = "loop"

theorem takes_propertyName {property : String × LoopPart} (h : IsNamed property) :
    Takes propertyName (nameText property.2 property.1) property.1 := by
  have hforms : ["'", "loop"].Pairwise fun text other => Apart text other = true := by decide
  have hquoted : Takes propertyName (literal property.1) property.1 := by
    rw [literal_eq]
    exact takes_firstOf hforms (by simp) (takes_literalText property.1)
  obtain ⟨name, part⟩ := property
  cases part with
  | item => exact hquoted
  | key => exact hquoted
  | info =>
    obtain rfl := h rfl
    have hword : Takes propertyName ("loop" ++ "") "loop" :=
      takes_firstOf hforms (by simp) (takes_pure "loop")
    rwa [String.append_empty] at hword

/-- What follows a text that begins otherwise makes no difference. -/
theorem apart_append {text other : String} (h : Apart text other = true) (more : String) :
    Apart text (other ++ more) = true := by
  simp only [Apart, Bool.and_eq_true, Bool.not_eq_true', ← Bool.not_eq_true,
    List.isPrefixOf_iff_prefix, String.toList_append] at h ⊢
  constructor
  · intro hprefix
    rcases List.prefix_or_prefix_of_prefix hprefix (List.prefix_append _ _) with hle | hle
    · exact h.1 hle
    · exact h.2 hle
  · intro hprefix
    exact h.2 ((List.prefix_append _ _).trans hprefix)

theorem takes_propertyValue (items : String) (part : LoopPart) :
    Takes (propertyValue items) (valueText items part) part := by
  have hinfo (text : String) (h : Apart text "runtime.loop(i, " = true) :
      Apart text (infoCall items) = true := by
    rw [infoCall, String.append_assoc]
    exact apart_append h _
  have hforms : ["key", "value", infoCall items].Pairwise
      fun text other => Apart text other = true := by
    have hkey : Apart "key" "value" = true := by decide
    simpa using ⟨⟨hkey, hinfo "key" (by decide)⟩, hinfo "value" (by decide)⟩
  have hvalue : Takes (propertyValue items) (valueText items part ++ "") part := by
    cases part <;> exact takes_firstOf hforms (by simp [valueText]) (takes_pure _)
  rwa [String.append_empty] at hvalue

theorem takes_property (items : String) {property : String × LoopPart} (h : IsNamed property) :
    Takes (Script.property items) (propertyText items property) property := by
  unfold Script.property propertyText
  rw [String.append_assoc]
  apply (takes_propertyName h).bind
  apply (takes_skip ": ").bind
  exact (takes_propertyValue items property.2).map fun value => (property.1, value)

theorem takes_moreProperties (items : String) {properties : List (String × LoopPart)} {fuel : Nat}
    (h : ∀ property ∈ properties, IsNamed property) (hfuel : properties.length < fuel) :
    Takes (moreProperties items fuel)
      (String.join (properties.map fun property => ", " ++ propertyText items property) ++ " \x7d")
      properties := by
  obtain ⟨fuel, rfl⟩ := Nat.exists_eq_succ_of_ne_zero (Nat.ne_zero_of_lt hfuel)
  rw [moreProperties]
  induction properties generalizing fuel with
  | nil =>
    have hcomma : Refuses (skip ", ") " \x7d" := refuses_skip (by decide)
    exact (hcomma.bind _).orElse ((takes_skip " \x7d").map fun _ => [])
  | cons property properties ih =>
    obtain ⟨hproperty, hproperties⟩ := List.forall_mem_cons.1 h
    rw [List.length_cons] at hfuel
    obtain ⟨fuel, rfl⟩ := Nat.exists_eq_succ_of_ne_zero (show fuel ≠ 0 by omega)
    have hmore := ih hproperties fuel (by omega)
    rw [← moreProperties] at hmore
    rw [List.map_cons, String.join_cons, String.append_assoc, String.append_assoc]
    apply Takes.orElse
    apply (takes_skip ", ").bind
    apply (takes_property items hproperty).bind
    exact hmore.map fun others => property :: others

/-- The object literal of properties: the first one, and each other one behind a comma. -/
def objectText (items : String) : List (String × LoopPart) → String
  | [] => "\x7b\x7d"
  | first :: others =>
    "\x7b " ++ propertyText items first ++
      (String.join (others.map fun property => ", " ++ propertyText items property) ++ " \x7d")

/-- An object literal of a few properties is read as those. -/
theorem objectLiteral_objectText (items : String) {properties : List (String × LoopPart)}
    (hne : properties ≠ []) (h : ∀ property ∈ properties, IsNamed property)
    (hlength : properties.length ≤ 3) :
    (objectLiteral items).run (objectText items properties).toList = some (properties, []) := by
  cases properties with
  | nil => exact absurd rfl hne
  | cons first others =>
    obtain ⟨hfirst, hothers⟩ := List.forall_mem_cons.1 h
    have hfuel : others.length < (objectText items (first :: others)).toList.length := by
      have hbraces : 4 ≤ (objectText items (first :: others)).toList.length := by
        simp only [objectText, String.toList_append, List.length_append]
        have hopen : "\x7b ".toList.length = 2 := rfl
        have hclose : " \x7d".toList.length = 2 := rfl
        omega
      rw [List.length_cons] at hlength
      omega
    have htakes : Takes (bracedProperties items (objectText items (first :: others)).toList.length)
        (objectText items (first :: others)) (first :: others) := by
      rw [objectText, String.append_assoc]
      apply (takes_skip "\x7b ").bind
      apply (takes_property items hfirst).bind
      exact (takes_moreProperties items hothers hfuel).map fun others => first :: others
    have hread := htakes []
    rw [List.append_nil] at hread
    exact hread

theorem isNamed_of_mem_loopProperties {key : Option String} {target : String} :
    ∀ property ∈ loopProperties key target, IsNamed property := by
  cases key <;> simp [loopProperties, IsNamed]

theorem objectLiteral_loopProperties (items : String) (key : Option String) (target : String) :
    (objectLiteral items).run (objectText items (loopProperties key target)).toList =
      some (loopProperties key target, []) := by
  apply objectLiteral_objectText items (by simp [loopProperties]) isNamed_of_mem_loopProperties
  cases key <;> simp [loopProperties]

/-- What a name stands for in the object of an iteration. -/
theorem assigned_loopProperties (key : Option String) (target name : String) :
    assigned (loopProperties key target) name =
      if name = "loop" then some .info
      else if name = target then some .item
      else if key = some name then some .key
      else none := by
  cases key <;> simp only [assigned, loopProperties, assign, Option.map_none, Option.map_some,
    Option.toList_none, Option.toList_some, List.nil_append, List.cons_append, List.foldl_cons,
    List.foldl_nil] <;> grind

/-- The line of a script that makes the scope object of an iteration from an object literal. -/
def scopeLine (scope : Nat) (object : String) : String :=
  "const " ++ scopeName (scope + 1) ++ " = Object.assign(Object.create(" ++ scopeName scope ++
    "), " ++ object ++ ");\n"

theorem scopeText_eq (scope : Nat) (key : Option String) (target items : String) :
    scopeText scope key target items =
      scopeLine scope (objectText items (loopProperties key target)) := by
  have hopen : "), \x7b " = "), " ++ "\x7b " := rfl
  have hkey : ": key, " = ": " ++ "key" ++ ", " := rfl
  have hvalue : ": value, loop: runtime.loop(i, " =
      ": " ++ "value" ++ ", " ++ "loop" ++ ": " ++ "runtime.loop(i, " := rfl
  have hclose : ".length) \x7d);\n" = ".length)" ++ " \x7d" ++ ");\n" := rfl
  unfold scopeText
  rw [hopen, hvalue, hclose]
  cases key <;>
    simp only [scopeLine, objectText, loopProperties, propertyText, nameText, valueText, infoCall,
      hkey, Option.map_none, Option.map_some, Option.toList_none, Option.toList_some,
      List.nil_append, List.cons_append, List.map_cons, List.map_nil, String.join_cons,
      String.join_nil, String.append_assoc, String.empty_append]

/-- The line of a script that begins a loop. -/
def loopLine (scope : Nat) : String :=
  "for (const [i, [key, value]] of " ++ itemsName scope ++ ".entries()) \x7b\n"

theorem gives_expr (e : Expr) (s : Script) : Gives (fun _ => True) (expr e) s fun _ t => t = s := by
  unfold expr
  apply Gives.get_bind
  cases ofExpr s.scope e with
  | ok text => exact .ok rfl
  | error e => exact .error trivial

theorem gives_write_margin (text : String) (s : Script) :
    Gives (fun _ => True) (write text) s fun _ t =>
      t.text = s.text ++ (margin s.indentation ++ text) :=
  .ok String.append_assoc

/-- The body of a loop begins with the line that makes the scope object of an iteration. -/
theorem gives_writeNode_loop (options : Options) (line : Nat) (key : Option String)
    (target : String) (iterable : Expr) (body : List Node) (otherwise : Option (List Node))
    (s : Script) :
    Gives (fun _ => True) (writeNode options (.loop line key target iterable body otherwise)) s
      fun _ t => ∃ front indentation back,
        t.text = s.text ++ front ++ loopLine s.scope ++
          (margin indentation ++ scopeText s.scope key target (itemsName s.scope)) ++ back := by
  have hbehind : Marks (do
      writeNodes options body
      leaveScope
      outdent
      write "\x7d\n"
      outdent
      write "\x7d\n") (outlineOfNodes body) := by
    apply (marks_writeNodes options body).before
    intro _
    apply marks_leaveScope.behind
    intro _
    apply marks_outdent.behind
    intro _
    apply (marks_write _).behind
    intro _
    exact marks_outdent.behind fun _ => marks_write _
  rw [writeNode]
  apply (gives_expr iterable s).bind
  intro items t ht
  rw [ht]
  apply Gives.get_bind
  apply (marks_write _ s).bind
  rintro _ a ⟨opening, ha, -⟩
  apply (marks_indent a).bind
  rintro _ b ⟨margins, hb, -⟩
  apply (marks_write _ b).bind
  rintro _ c ⟨list, hc, -⟩
  apply (marks_writeEmptyCase options _ otherwise c).bind
  rintro _ d ⟨emptyCase, hd, -⟩
  apply (marks_enterScope d).bind
  rintro _ e ⟨entered, he, -⟩
  apply (gives_write_margin (loopLine s.scope) e).bind
  intro _ f hf
  apply Gives.modify_bind
  apply (gives_write_margin (scopeText s.scope key target (itemsName s.scope)) _).bind
  intro _ g hg
  apply (hbehind g).mono
  rintro _ t ⟨back, ht, -⟩
  refine ⟨opening ++ margins ++ list ++ emptyCase ++ entered ++ margin e.indentation,
    f.indentation + 1, back, ?_⟩
  rw [ht, hg, hf, he, hd, hc, hb, ha]
  simp only [String.append_assoc]

/-- For every loop that is written, at the head of its body stands the line that makes the scope
object of an iteration. Its object literal gives all names the meaning that they have in the scope
of the renderer, whatever the items, exactly if the key has not the name of the target or that name
is `loop`. -/
theorem lookup_loopScope_eq_assigned_iff {options : Options} {line : Nat} {key : Option String}
    {target : String} {iterable : Expr} {body : List Node} {otherwise : Option (List Node)}
    {s t : Script}
    (h : outcome (writeNode options (.loop line key target iterable body otherwise)) s =
      .ok ((), t)) :
    ∃ front indentation object back properties,
      t.text = s.text ++ front ++ loopLine s.scope ++
        (margin indentation ++ scopeLine s.scope object) ++ back ∧
      (objectLiteral (itemsName s.scope)).run object.toList = some (properties, []) ∧
      ((∀ name i length item, (Render.loopScope key target i length item).lookup name =
          (assigned properties name).map (LoopPart.value i length item)) ↔
        (key = some target → target = "loop")) := by
  obtain ⟨front, indentation, back, htext⟩ := ComesTo.of_ok
    (gives_writeNode_loop options line key target iterable body otherwise s) h
  rw [scopeText_eq] at htext
  have hread := objectLiteral_loopProperties (itemsName s.scope) key target
  refine ⟨front, indentation, _, back, _, htext, hread, ?_⟩
  simp only [Render.lookup_loopScope, assigned_loopProperties]
  constructor
  · rintro hagree rfl
    have htarget := hagree target 0 1 (.null, .bool true)
    by_contra hloop
    simp [hloop, LoopPart.value] at htarget
  · intro hkey name i length item
    by_cases hloop : name = "loop"
    · rw [if_pos hloop, if_pos hloop]
      rfl
    rw [if_neg hloop, if_neg hloop]
    by_cases htarget : name = target
    · have hne : ¬ key = some name := by
        rintro rfl
        exact hloop (htarget.trans (hkey (congrArg some htarget)))
      rw [if_neg hne, if_pos htarget, if_pos htarget]
      rfl
    · rw [if_neg htarget, if_neg htarget]
      split <;> rfl

/-- A loop with a key and a last body, inside of two others. -/
theorem lookup_loopScope_eq_assigned_iff_keyed :
    ∃ s t : Script, s.scope = 2 ∧ outcome (writeNode {} (.loop 1 (some "k") "x" (.name 1 "xs")
        [.print 1 (.name 1 "x")] (some [.text 1 "none"]))) s = .ok ((), t) ∧
      ∃ front indentation object back properties,
        t.text = s.text ++ front ++ loopLine s.scope ++
          (margin indentation ++ scopeLine s.scope object) ++ back ∧
        (objectLiteral (itemsName s.scope)).run object.toList = some (properties, []) ∧
        ((∀ name i length item, (Render.loopScope (some "k") "x" i length item).lookup name =
            (assigned properties name).map (LoopPart.value i length item)) ↔
          (some "k" = some "x" → "x" = "loop")) := by
  let node : Node := .loop 1 (some "k") "x" (.name 1 "xs") [.print 1 (.name 1 "x")]
    (some [.text 1 "none"])
  have hbranched : Branched node.parts := by
    intro line otherwise
    simp [node, Node.parts, partsOfNodes, partsOfBody]
  have hknown : ¬ SomeUnknown node.exprs := by
    simp [node, Node.exprs, exprsOfNodes, exprsOfBody, Expr.parts, Expr.UsesUnknown]
  obtain ⟨text, -, hadds⟩ := writeNode_scoped {} node ⟨hbranched, hknown⟩ 1
  exact ⟨⟨"", 1, 2⟩, _, rfl, hadds "" 2, lookup_loopScope_eq_assigned_iff (hadds "" 2)⟩

/-- Where the key has the name of the target, the renderer takes the key and the script the item. -/
theorem not_lookup_loopScope_eq_assigned :
    ∃ t front indentation back properties,
      outcome (writeNode {} (.loop 1 (some "x") "x" (.name 1 "xs") [.print 1 (.name 1 "x")] none))
        empty = .ok ((), t) ∧
      t.text = front ++ loopLine 0 ++ (margin indentation ++ scopeLine 0
        "\x7b 'x': key, 'x': value, loop: runtime.loop(i, items1.length) \x7d") ++ back ∧
      (objectLiteral (itemsName 0)).run
        "\x7b 'x': key, 'x': value, loop: runtime.loop(i, items1.length) \x7d".toList =
          some (properties, []) ∧
      (Render.loopScope (some "x") "x" 0 1 (.int 0, .string "a")).lookup "x" = some (.int 0) ∧
      (assigned properties "x").map (LoopPart.value 0 1 (.int 0, .string "a")) =
        some (.string "a") := by
  let node : Node := .loop 1 (some "x") "x" (.name 1 "xs") [.print 1 (.name 1 "x")] none
  have hbranched : Branched node.parts := by
    intro line otherwise
    simp [node, Node.parts, partsOfNodes, partsOfBody]
  have hknown : ¬ SomeUnknown node.exprs := by
    simp [node, Node.exprs, exprsOfNodes, exprsOfBody, Expr.parts, Expr.UsesUnknown]
  obtain ⟨text, -, hadds⟩ := writeNode_scoped {} node ⟨hbranched, hknown⟩ 0
  have hloop := gives_writeNode_loop {} 1 (some "x") "x" (.name 1 "xs") [.print 1 (.name 1 "x")]
    none ⟨"", 0, 0⟩
  obtain ⟨front, indentation, back, htext⟩ := ComesTo.of_ok hloop (hadds "" 0)
  have hobject : objectText (itemsName 0) (loopProperties (some "x") "x") =
      "\x7b 'x': key, 'x': value, loop: runtime.loop(i, items1.length) \x7d" := by
    decide +kernel
  have hread := objectLiteral_loopProperties (itemsName 0) (some "x") "x"
  simp only [scopeText_eq, hobject, String.empty_append] at htext
  rw [hobject] at hread
  refine ⟨_, front, indentation, back, _, hadds "" 0, ?_, hread, ?_, ?_⟩
  · rw [String.empty_append, htext]
  · simp [Render.lookup_loopScope]
  · simp [assigned_loopProperties, LoopPart.value]

end Script

end TemplateEngine
