import TemplateEngine.Proofs.Agreement
import TemplateEngine.Proofs.Document.Parts
import TemplateEngine.Render

/-!
Automatic escaping. Main statement: where no printed expression uses the filter `raw`, an output is
a sequence of texts of the document and of printed pieces, and no printed piece holds a character
that has a meaning in a page, except for the first one of an entity.
-/

namespace TemplateEngine

mutual

/-- The names of the filters in an expression. -/
def Expr.filterNames : Expr → List String
  | .null _ | .bool _ _ | .number _ _ | .string _ _ | .name _ _ => []
  | .array _ items => filterNamesOfAll items
  | .attr _ object _ => object.filterNames
  | .item _ object index => object.filterNames ++ index.filterNames
  | .unary _ _ operand => operand.filterNames
  | .binary _ _ left right => left.filterNames ++ right.filterNames
  | .filter _ name input args => name :: (input.filterNames ++ filterNamesOfAll args)

def filterNamesOfAll : List Expr → List String
  | [] => []
  | expr :: exprs => expr.filterNames ++ filterNamesOfAll exprs

end

namespace Render

def entities : List (List Char) :=
  ["&amp;".toList, "&lt;".toList, "&gt;".toList, "&quot;".toList, "&#039;".toList]

/-- A text without markup: an ampersand only ever begins one of the entities. -/
structure Clean (cs : List Char) : Prop where
  noMarkup : ∀ c ∈ cs, c ≠ '<' ∧ c ≠ '>' ∧ c ≠ '"' ∧ c ≠ '\''
  entity : ∀ rest, '&' :: rest <:+ cs → ∃ entity ∈ entities, entity <+: '&' :: rest

theorem suffix_of_suffix_append {c : Char} {rest front cs : List Char} (hc : c ∉ front)
    (h : c :: rest <:+ front ++ cs) : c :: rest <:+ cs := by
  induction front with
  | nil => exact h
  | cons d front ih =>
    rw [List.mem_cons, not_or] at hc
    obtain ⟨hcd, hfront⟩ := hc
    rcases List.suffix_cons_iff.1 h with h | h
    · exact absurd (List.cons.inj h).1 hcd
    · exact ih hfront h

/-- What stands for a character is an entity or another character than the ampersand. -/
theorem escapedChar_cases (c : Char) :
    (∃ tail, escapedChar c = '&' :: tail ∧ '&' :: tail ∈ entities ∧ '&' ∉ tail) ∨
      escapedChar c = [c] ∧ c ≠ '&' := by
  unfold escapedChar
  split
  · exact .inl ⟨"amp;".toList, rfl, by simp [entities], by simp⟩
  · exact .inl ⟨"lt;".toList, rfl, by simp [entities], by simp⟩
  · exact .inl ⟨"gt;".toList, rfl, by simp [entities], by simp⟩
  · exact .inl ⟨"quot;".toList, rfl, by simp [entities], by simp⟩
  · exact .inl ⟨"#039;".toList, rfl, by simp [entities], by simp⟩
  · next hamp _ _ _ _ => exact .inr ⟨rfl, hamp⟩

theorem clean_escapedChars (cs : List Char) : Clean (escapedChars cs) := by
  constructor
  · intro c hc
    refine ⟨?_, ?_, ?_, ?_⟩ <;> rintro rfl
    · exact not_mem_escapedChars (.inl rfl) cs hc
    · exact not_mem_escapedChars (.inr (.inl rfl)) cs hc
    · exact not_mem_escapedChars (.inr (.inr (.inl rfl))) cs hc
    · exact not_mem_escapedChars (.inr (.inr (.inr rfl))) cs hc
  · induction cs with
    | nil =>
      intro rest hrest
      exact absurd (List.suffix_nil.1 hrest) (by simp)
    | cons c cs ih =>
      intro rest hrest
      have hsplit : escapedChars (c :: cs) = escapedChar c ++ escapedChars cs := rfl
      rw [hsplit] at hrest
      rcases escapedChar_cases c with ⟨tail, hchar, hentity, htail⟩ | ⟨hchar, hc⟩
      · rw [hchar, List.cons_append] at hrest
        rcases List.suffix_cons_iff.1 hrest with h | h
        · rw [h]
          exact ⟨'&' :: tail, hentity, escapedChars cs, rfl⟩
        · exact ih rest (suffix_of_suffix_append htail h)
      · rw [hchar] at hrest
        exact ih rest (suffix_of_suffix_append (by simpa using hc.symm) hrest)

theorem clean_escape (text : String) : Clean (escape text).toList := by
  rw [escape, String.toList_ofList]
  exact clean_escapedChars text.toList

def Evaluated.Escaped (result : Evaluated) : Prop :=
  result.safe = true → ∃ text, result.value = .string (escape text)

theorem escaped_plain (value : Json) : (plain value).Escaped := by
  intro hsafe
  simp [plain] at hsafe

/-- Only the filter `raw` marks a value as safe that has not been escaped. -/
theorem escaped_applyFilter {filter : Filter} {input : Evaluated} (hinput : input.Escaped)
    (hraw : filter ≠ .raw) (args : List Json) : (applyFilter filter input args).Escaped := by
  cases filter with
  | raw => exact absurd rfl hraw
  | fallback =>
    simp only [applyFilter]
    split
    · exact escaped_plain _
    · exact hinput
  | escape =>
    simp only [applyFilter]
    split
    · exact hinput
    · intro _
      exact ⟨_, rfl⟩
  | upper => exact escaped_plain _
  | lower => exact escaped_plain _
  | trim => exact escaped_plain _
  | length => exact escaped_plain _
  | join => exact escaped_plain _

def Escapes (x : Except RenderError Evaluated) : Prop :=
  ∀ result, x = .ok result → result.Escaped

theorem Escapes.ok {result : Evaluated} (h : result.Escaped) : Escapes (.ok result) := by
  intro other heq
  obtain rfl := Except.ok.inj heq
  exact h

theorem Escapes.error (e : RenderError) : Escapes (.error e) := by
  intro result heq
  simp at heq

theorem Escapes.plain (value : Json) : Escapes (.ok (plain value)) :=
  .ok (escaped_plain value)

theorem Escapes.bind {α : Type} {x : Except RenderError α} {f : α → Except RenderError Evaluated}
    (h : ∀ a, x = .ok a → Escapes (f a)) : Escapes (x >>= f) := by
  cases x with
  | error e => exact .error e
  | ok a => exact h a rfl

theorem Escapes.filterInput {input : Except RenderError Evaluated} (h : Escapes input)
    (name : String) : Escapes (filterInput name input) := by
  unfold Render.filterInput
  split
  · next value => exact .ok (h value rfl)
  · split
    · exact .plain _
    · exact .error _

theorem ofName?_eq_raw {name : String} (h : Filter.ofName? name = some .raw) : name = "raw" := by
  unfold Filter.ofName? at h
  split at h <;> first | rfl | cases h

/-- Without the filter `raw` every value that may be printed as it is has been escaped. -/
theorem escapes_eval (options : Options) (scopes : List Scope) :
    (expr : Expr) → "raw" ∉ expr.filterNames → Escapes (eval options scopes expr)
  | .null _, _ => by
    rw [eval]
    exact .plain _
  | .bool _ _, _ => by
    rw [eval]
    exact .plain _
  | .number _ _, _ => by
    rw [eval]
    exact .plain _
  | .string _ _, _ => by
    rw [eval]
    exact .plain _
  | .name line name, _ => by
    rw [eval]
    split
    · exact .plain _
    · split
      · exact .error _
      · exact .plain _
  | .array _ items, _ => by
    rw [eval]
    exact .bind fun items _ => .plain _
  | .attr line object member, _ => by
    rw [eval]
    exact .bind fun object _ => .bind fun value _ => .plain _
  | .item line object index, _ => by
    rw [eval]
    exact .bind fun object _ => .bind fun index _ => .bind fun value _ => .plain _
  | .unary line op operand, _ => by
    rw [eval]
    exact .bind fun operand _ => .bind fun value _ => .plain _
  | .binary line op left right, _ => by
    rw [eval]
    apply Escapes.bind
    intro left _
    split
    · exact .plain _
    · exact .bind fun right _ => .bind fun value _ => .plain _
  | .filter line name input args, hraw => by
    simp only [Expr.filterNames, List.mem_cons, List.mem_append, not_or] at hraw
    obtain ⟨hname, hinput, -⟩ := hraw
    have hinput := (escapes_eval options scopes input hinput).filterInput name
    rw [eval]
    apply Escapes.bind
    intro value hvalue
    apply Escapes.bind
    intro args _
    split
    · next filter hfilter =>
      refine .ok (escaped_applyFilter (hinput value hvalue) ?_ args)
      rintro rfl
      exact hname (ofName?_eq_raw hfilter).symm
    · exact .error _

/-- What a print tag writes for an escaped value is clean. -/
theorem clean_printText {strict : Bool} {result : Evaluated} (h : result.Escaped) :
    Clean (printText ⟨true, strict⟩ result).toList := by
  unfold printText
  cases hsafe : result.safe with
  | false => exact clean_escape _
  | true =>
    obtain ⟨text, hvalue⟩ := h hsafe
    rw [hvalue]
    exact clean_escape text

structure Written where
  node : Node
  text : String

def joined (pieces : List Written) : String :=
  String.join (pieces.map Written.text)

@[simp] theorem joined_nil : joined [] = "" := by
  simp [joined]

@[simp] theorem joined_singleton (piece : Written) : joined [piece] = piece.text := by
  simp [joined]

@[simp] theorem joined_append (first rest : List Written) :
    joined (first ++ rest) = joined first ++ joined rest := by
  simp [joined]

def repeatPieces (body : Scope → Except RenderError (List Written)) :
    List Scope → Except RenderError (List Written)
  | [] => .ok []
  | scope :: rest => do
    let first ← body scope
    let others ← repeatPieces body rest
    return first ++ others

mutual

def piecesOfNode (options : Options) (scopes : List Scope) :
    Node → Except RenderError (List Written)
  | .text line text => .ok [⟨.text line text, text⟩]
  | .print line expr =>
    (eval options scopes expr).map fun printed => [⟨.print line expr, printText options printed⟩]
  | .choice _ branches otherwise => do
    match ← piecesOfBranches options scopes branches with
    | some pieces => return pieces
    | none => piecesOfBody options scopes otherwise
  | .loop _ key target iterable body otherwise => do
    let iterable ← eval options scopes iterable
    match loopItems iterable.value with
    | [] => piecesOfBody options scopes otherwise
    | items =>
      repeatPieces (fun scope => piecesOfNodes options (scope :: scopes) body)
        (loopScopes key target items)
  | .block _ _ body => piecesOfNodes options scopes body
  | .comment _ _ _ => .ok []

def piecesOfNodes (options : Options) (scopes : List Scope) :
    List Node → Except RenderError (List Written)
  | [] => .ok []
  | node :: nodes => do
    let first ← piecesOfNode options scopes node
    let rest ← piecesOfNodes options scopes nodes
    return first ++ rest

/-- The pieces of the first branch whose condition holds, if there is one. -/
def piecesOfBranches (options : Options) (scopes : List Scope) :
    List Branch → Except RenderError (Option (List Written))
  | [] => .ok none
  | .mk condition body :: branches => do
    let condition ← eval options scopes condition
    if isTruthy condition.value then
      let pieces ← piecesOfNodes options scopes body
      return some pieces
    else piecesOfBranches options scopes branches

def piecesOfBody (options : Options) (scopes : List Scope) :
    Option (List Node) → Except RenderError (List Written)
  | none => .ok []
  | some body => piecesOfNodes options scopes body

end

/-- The pieces of the output of a document with a context. -/
def piecesOfDocument (options : Options) (document : Document) (context : Json) :
    Except RenderError (List Written) :=
  piecesOfNodes options [rootScope context] document.nodes

theorem map_append_pieces (x y : Except RenderError (List Written)) :
    (do let first ← x.map joined; let rest ← y.map joined; return first ++ rest) =
      Except.map joined (do let first ← x; let rest ← y; return first ++ rest) := by
  cases x with
  | error e => rfl
  | ok first =>
    cases y with
    | error e => rfl
    | ok rest => exact congrArg Except.ok (joined_append first rest).symm

theorem repeatBody_eq_map {body : Scope → Except RenderError String}
    {pieces : Scope → Except RenderError (List Written)}
    (h : ∀ scope, body scope = (pieces scope).map joined) (scopes : List Scope) :
    repeatBody body scopes = (repeatPieces pieces scopes).map joined := by
  induction scopes with
  | nil => exact congrArg Except.ok joined_nil.symm
  | cons scope scopes ih =>
    rw [repeatBody, repeatPieces, h, ih]
    exact map_append_pieces _ _

mutual

theorem renderNode_eq_map (options : Options) :
    (node : Node) → ∀ scopes,
      renderNode options scopes node = (piecesOfNode options scopes node).map joined
  | .text line text => fun _ => by
    simp [renderNode, piecesOfNode, Except.map]
  | .print line expr => fun scopes => by
    rw [renderNode, piecesOfNode]
    cases eval options scopes expr <;> simp [Except.map]
  | .choice _ branches otherwise => fun scopes => by
    rw [renderNode, piecesOfNode, renderBranches_eq_map options branches]
    cases piecesOfBranches options scopes branches with
    | error e => rfl
    | ok taken =>
      cases taken with
      | none => exact renderOtherwise_eq_map options otherwise scopes
      | some pieces => rfl
  | .loop _ key target iterable body otherwise => fun scopes => by
    rw [renderNode, piecesOfNode]
    cases eval options scopes iterable with
    | error e => rfl
    | ok value =>
      simp only [ok_bind]
      cases loopItems value.value with
      | nil => exact renderOtherwise_eq_map options otherwise scopes
      | cons item items => exact repeatBody_eq_map (fun _ => renderNodes_eq_map options body _) _
  | .block _ _ body => fun scopes => by
    rw [renderNode, piecesOfNode]
    exact renderNodes_eq_map options body scopes
  | .comment _ _ _ => fun _ => by
    simp [renderNode, piecesOfNode, Except.map]

theorem renderNodes_eq_map (options : Options) :
    (nodes : List Node) → ∀ scopes,
      renderNodes options scopes nodes = (piecesOfNodes options scopes nodes).map joined
  | [] => fun _ => congrArg Except.ok joined_nil.symm
  | node :: nodes => fun scopes => by
    rw [renderNodes, piecesOfNodes, renderNode_eq_map options node scopes,
      renderNodes_eq_map options nodes scopes]
    exact map_append_pieces _ _

theorem renderBranches_eq_map (options : Options) :
    (branches : List Branch) → ∀ scopes,
      renderBranches options scopes branches =
        (piecesOfBranches options scopes branches).map (Option.map joined)
  | [] => fun _ => rfl
  | .mk condition body :: branches => fun scopes => by
    rw [renderBranches, piecesOfBranches]
    cases eval options scopes condition with
    | error e => rfl
    | ok value =>
      simp only [ok_bind]
      split
      · rw [renderNodes_eq_map options body scopes]
        cases piecesOfNodes options scopes body <;> rfl
      · exact renderBranches_eq_map options branches scopes

theorem renderOtherwise_eq_map (options : Options) :
    (otherwise : Option (List Node)) → ∀ scopes,
      renderOtherwise options scopes otherwise = (piecesOfBody options scopes otherwise).map joined
  | none => fun _ => congrArg Except.ok joined_nil.symm
  | some body => fun scopes => by
    rw [renderOtherwise, piecesOfBody]
    exact renderNodes_eq_map options body scopes

end

inductive Genuine (options : Options) (nodes : List Node) : Written → Prop
  | text {line : Nat} {text : String} (h : .text line text ∈ nodes) :
      Genuine options nodes ⟨.text line text, text⟩
  | print {line : Nat} {expr : Expr} {scopes : List Scope} {printed : Evaluated}
      (h : .print line expr ∈ nodes) (hvalue : eval options scopes expr = .ok printed) :
      Genuine options nodes ⟨.print line expr, printText options printed⟩

theorem Genuine.mono {options : Options} {nodes more : List Node} {piece : Written}
    (h : Genuine options nodes piece) (hmore : ∀ node ∈ nodes, node ∈ more) :
    Genuine options more piece := by
  cases h with
  | text h => exact .text (hmore _ h)
  | print h hvalue => exact .print (hmore _ h) hvalue

def AllGenuine (options : Options) (nodes : List Node) (x : Except RenderError (List Written)) :
    Prop :=
  ∀ pieces, x = .ok pieces → ∀ piece ∈ pieces, Genuine options nodes piece

theorem AllGenuine.mono {options : Options} {nodes more : List Node}
    {x : Except RenderError (List Written)} (h : AllGenuine options nodes x)
    (hmore : ∀ node ∈ nodes, node ∈ more) : AllGenuine options more x :=
  fun pieces hx piece hpiece => (h pieces hx piece hpiece).mono hmore

theorem AllGenuine.append {options : Options} {nodes : List Node}
    {x y : Except RenderError (List Written)} (hx : AllGenuine options nodes x)
    (hy : AllGenuine options nodes y) :
    AllGenuine options nodes (do let first ← x; let rest ← y; return first ++ rest) := by
  intro pieces h piece hpiece
  cases x with
  | error e => simp [bind, Except.bind] at h
  | ok first =>
    cases y with
    | error e => simp [bind, Except.bind] at h
    | ok rest =>
      obtain rfl := Except.ok.inj h
      rcases List.mem_append.1 hpiece with hpiece | hpiece
      · exact hx first rfl piece hpiece
      · exact hy rest rfl piece hpiece

theorem allGenuine_repeatPieces {options : Options} {nodes : List Node}
    {pieces : Scope → Except RenderError (List Written)}
    (h : ∀ scope, AllGenuine options nodes (pieces scope)) (scopes : List Scope) :
    AllGenuine options nodes (repeatPieces pieces scopes) := by
  induction scopes with
  | nil =>
    intro written hwritten piece hpiece
    obtain rfl := Except.ok.inj hwritten
    simp at hpiece
  | cons scope scopes ih => exact (h scope).append ih

mutual

theorem genuine_piecesOfNode (options : Options) :
    (node : Node) → ∀ scopes, AllGenuine options node.parts (piecesOfNode options scopes node)
  | .text line text => fun _ pieces h piece hpiece => by
    obtain rfl := Except.ok.inj h
    obtain rfl := List.mem_singleton.1 hpiece
    exact .text (by simp [Node.parts])
  | .print line expr => fun scopes pieces h piece hpiece => by
    rw [piecesOfNode] at h
    obtain ⟨printed, hvalue, rfl⟩ := map_eq_ok.1 h
    obtain rfl := List.mem_singleton.1 hpiece
    exact .print (by simp [Node.parts]) hvalue
  | .choice line branches otherwise => fun scopes pieces h => by
    rw [piecesOfNode] at h
    have hbranches := genuine_piecesOfBranches options branches scopes
    have hotherwise := genuine_piecesOfBody options otherwise scopes
    cases htaken : piecesOfBranches options scopes branches with
    | error e => simp [htaken, bind, Except.bind] at h
    | ok taken =>
      rw [htaken, ok_bind] at h
      cases taken with
      | none =>
        intro piece hpiece
        exact (hotherwise pieces h piece hpiece).mono fun node hnode => by simp [Node.parts, hnode]
      | some written =>
        obtain rfl := Except.ok.inj h
        intro piece hpiece
        exact (hbranches written htaken piece hpiece).mono fun node hnode => by
          simp [Node.parts, hnode]
  | .loop line key target iterable body otherwise => fun scopes pieces h => by
    rw [piecesOfNode] at h
    have hotherwise := genuine_piecesOfBody options otherwise scopes
    have hbody : ∀ scope, AllGenuine options (partsOfNodes body)
        (piecesOfNodes options (scope :: scopes) body) :=
      fun scope => genuine_piecesOfNodes options body (scope :: scopes)
    cases hvalue : eval options scopes iterable with
    | error e => simp [hvalue, bind, Except.bind] at h
    | ok value =>
      rw [hvalue, ok_bind] at h
      intro piece hpiece
      cases hitems : loopItems value.value with
      | nil =>
        simp only [hitems] at h
        exact (hotherwise pieces h piece hpiece).mono fun node hnode => by simp [Node.parts, hnode]
      | cons item items =>
        simp only [hitems] at h
        exact (allGenuine_repeatPieces hbody _ pieces h piece hpiece).mono fun node hnode => by
          simp [Node.parts, hnode]
  | .block line name body => fun scopes pieces h piece hpiece => by
    rw [piecesOfNode] at h
    apply (genuine_piecesOfNodes options body scopes pieces h piece hpiece).mono
    intro node hnode
    simp [Node.parts, hnode]
  | .comment _ _ _ => fun _ pieces h piece hpiece => by
    obtain rfl := Except.ok.inj h
    simp at hpiece

theorem genuine_piecesOfNodes (options : Options) :
    (nodes : List Node) → ∀ scopes,
      AllGenuine options (partsOfNodes nodes) (piecesOfNodes options scopes nodes)
  | [] => fun _ pieces h piece hpiece => by
    obtain rfl := Except.ok.inj h
    simp at hpiece
  | node :: nodes => fun scopes => by
    rw [piecesOfNodes]
    have hnode := genuine_piecesOfNode options node scopes
    have hnodes := genuine_piecesOfNodes options nodes scopes
    exact (hnode.mono fun part hpart => by simp [partsOfNodes, hpart]).append
      (hnodes.mono fun part hpart => by simp [partsOfNodes, hpart])

theorem genuine_piecesOfBranches (options : Options) :
    (branches : List Branch) → ∀ scopes pieces,
      piecesOfBranches options scopes branches = .ok (some pieces) →
        ∀ piece ∈ pieces, Genuine options (partsOfBranches branches) piece
  | [] => fun _ pieces h => by simp [piecesOfBranches] at h
  | .mk condition body :: branches => fun scopes pieces h piece hpiece => by
    rw [piecesOfBranches] at h
    have hbody := genuine_piecesOfNodes options body scopes
    have hbranches := genuine_piecesOfBranches options branches scopes
    cases hvalue : eval options scopes condition with
    | error e => simp [hvalue, bind, Except.bind] at h
    | ok value =>
      rw [hvalue, ok_bind] at h
      split at h
      · cases hwritten : piecesOfNodes options scopes body with
        | error e => simp [hwritten, bind, Except.bind] at h
        | ok written =>
          rw [hwritten] at h
          obtain rfl := Option.some.inj (Except.ok.inj h)
          exact (hbody written hwritten piece hpiece).mono fun node hnode => by
            simp [partsOfBranches, hnode]
      · exact (hbranches pieces h piece hpiece).mono fun node hnode => by
          simp [partsOfBranches, hnode]

theorem genuine_piecesOfBody (options : Options) :
    (otherwise : Option (List Node)) → ∀ scopes,
      AllGenuine options (partsOfBody otherwise) (piecesOfBody options scopes otherwise)
  | none => fun _ pieces h piece hpiece => by
    obtain rfl := Except.ok.inj h
    simp at hpiece
  | some body => fun scopes => by
    rw [piecesOfBody]
    exact genuine_piecesOfNodes options body scopes

end

/-- With automatic escaping and without the filter `raw` in printed expressions, an output is the
sequence of its pieces, each of which is a text of the document or a clean piece of a print tag. -/
theorem ofDocument_eq_joined_clean {strict : Bool} {document : Document} {context : Json}
    {output : String}
    (hraw : ∀ line expr, .print line expr ∈ document.parts → "raw" ∉ expr.filterNames)
    (h : ofDocument ⟨true, strict⟩ document context = .ok output) :
    ∃ pieces, piecesOfDocument ⟨true, strict⟩ document context = .ok pieces ∧
      output = joined pieces ∧ ∀ piece ∈ pieces,
        (∃ line, .text line piece.text ∈ document.parts ∧ piece.node = .text line piece.text) ∨
        ∃ line expr, .print line expr ∈ document.parts ∧ piece.node = .print line expr ∧
          Clean piece.text.toList := by
  have hpieces : ofDocument ⟨true, strict⟩ document context =
      (piecesOfDocument ⟨true, strict⟩ document context).map joined :=
    renderNodes_eq_map _ document.nodes _
  rw [hpieces] at h
  obtain ⟨pieces, hwritten, houtput⟩ := map_eq_ok.1 h
  refine ⟨pieces, hwritten, houtput.symm, fun piece hpiece => ?_⟩
  cases genuine_piecesOfNodes _ document.nodes _ pieces hwritten piece hpiece with
  | @text line text hnode => exact .inl ⟨line, hnode, rfl⟩
  | @print line expr scopes printed hnode hvalue =>
    have hescaped := escapes_eval _ scopes expr (hraw line expr hnode) printed hvalue
    exact .inr ⟨line, expr, hnode, rfl, clean_printText hescaped⟩

/-- A markup text in front of a printed name with a default. -/
theorem ofDocument_eq_joined_clean_paragraph :
    ∃ output pieces,
      ofDocument ⟨true, true⟩
        ⟨"page", [.text 1 "<p>", .print 1 (.filter 1 "default" (.name 1 "user") [])]⟩
        (.object [("user", .string "<O'Neil & co>")]) = .ok output ∧
      output = joined pieces ∧ ∀ piece ∈ pieces,
        piece.node = .text 1 piece.text ∨ Clean piece.text.toList := by
  have houtput : ∃ output, ofDocument ⟨true, true⟩
      ⟨"page", [.text 1 "<p>", .print 1 (.filter 1 "default" (.name 1 "user") [])]⟩
      (.object [("user", .string "<O'Neil & co>")]) = .ok output := ⟨_, rfl⟩
  obtain ⟨output, houtput⟩ := houtput
  obtain ⟨pieces, -, hjoined, hpieces⟩ := ofDocument_eq_joined_clean (by
    intro line expr hprint
    simp [Document.parts, partsOfNodes, Node.parts] at hprint
    obtain ⟨rfl, rfl⟩ := hprint
    simp [Expr.filterNames, filterNamesOfAll]) houtput
  refine ⟨output, pieces, houtput, hjoined, fun piece hpiece => ?_⟩
  rcases hpieces piece hpiece with ⟨line, hmem, hnode⟩ | ⟨_, _, _, _, hclean⟩
  · simp [Document.parts, partsOfNodes, Node.parts] at hmem
    obtain ⟨rfl, -⟩ := hmem
    exact .inl hnode
  · exact .inr hclean

end Render

end TemplateEngine
