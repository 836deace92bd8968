import TemplateEngine.Proofs.Render.Printing

/-!
Loops with separators. Main statement: a loop that prints its items and a text between them writes
what the filter `join` gives with that text.
-/

namespace TemplateEngine.Render

/-- A printed item, and a text behind all but the last one. The lines of the parts are given by
their number. -/
def separatedBody (lines : Nat → Nat) (x separator : String) : List Node :=
  [.print (lines 2) (.name (lines 3) x),
    .choice (lines 4)
      [.mk (.unary (lines 5) .not (.attr (lines 6) (.name (lines 7) "loop") "last"))
        [.text (lines 8) separator]] none]

/-- A loop over the items of a name with a text between them. -/
def separatedLoop (lines : Nat → Nat) (xs x separator : String) : Node :=
  .loop (lines 0) none x (.name (lines 1) xs) (separatedBody lines x separator) none

def joinedPrint (lines : Nat → Nat) (xs separator : String) : Node :=
  .print (lines 0)
    (.filter (lines 1) "join" (.name (lines 2) xs) [.string (lines 3) separator])

/-- What a loop goes through: an array, an object or an absent value. -/
def IsIterable : Json → Prop
  | .null | .array _ | .object _ => True
  | _ => False

variable {options : Options} {scopes : List Scope} {lines : Nat → Nat} {x separator : String}

/-- A loop goes through the items whose texts are joined. -/
theorem map_loopItems {value : Json} (h : IsIterable value) :
    (loopItems value).map (fun item => toText item.2) = itemTexts value := by
  cases value with
  | null => rfl
  | array items =>
    calc (loopItems (.array items)).map (fun item => toText item.2)
        = (items.zipIdx.map Prod.fst).map toText := by
          unfold loopItems
          rw [List.map_map, List.map_map]
          rfl
      _ = items.map toText := by rw [List.zipIdx_map_fst]
  | object fields => simp [loopItems, itemTexts, Function.comp_def]
  | bool | int | float | string => cases h

/-- The output of an iteration: the item, and the separator unless it is the last one. -/
def iterationText (options : Options) (separator : String) (i length : Nat) (item : Json) :
    String :=
  printText options (plain item) ++ if i + 1 = length then "" else separator

theorem eval_target (hx : x ≠ "loop") (i length line : Nat) (item : Json × Json) :
    eval options (loopScope none x i length item :: scopes) (.name line x) =
      .ok (plain item.2) := by
  have hfind : find? (loopScope none x i length item :: scopes) x = some item.2 := by
    simp [find?, loopScope, List.lookup_cons, beq_eq_false_iff_ne.2 hx]
  rw [eval, hfind]

theorem eval_notLast (i length line line' line'' : Nat) (item : Json × Json) :
    eval options (loopScope none x i length item :: scopes)
        (.unary line .not (.attr line' (.name line'' "loop") "last")) =
      .ok (plain (.bool !(i + 1 == length))) := by
  have hfind : find? (loopScope none x i length item :: scopes) "loop" =
      some (loopInfo i length) := by
    simp [find?, loopScope]
  have hlast (line : Nat) : getItem options (loopInfo i length) (.string "last") line =
      .ok (.bool (i + 1 == length)) := rfl
  simp only [eval, hfind]
  show (do
    let value ← getItem options (loopInfo i length) (.string "last") line'
    let object ← Except.ok (plain value)
    let value ← applyUnary .not object.value line
    return plain value) = _
  rw [hlast]
  rfl

theorem renderNodes_separatedBody (hx : x ≠ "loop") (i length : Nat) (item : Json × Json) :
    renderNodes options (loopScope none x i length item :: scopes)
        (separatedBody lines x separator) =
      .ok (iterationText options separator i length item.2) := by
  unfold separatedBody iterationText
  simp only [renderNodes, renderNode, renderBranches, renderOtherwise, eval_target hx, eval_notLast]
  by_cases hlast : i + 1 = length
  · simp [hlast, plain, isTruthy, Except.map, bind, Except.bind, pure, Except.pure]
  · simp [hlast, plain, isTruthy, Except.map, bind, Except.bind, pure, Except.pure]

/-- The iterations from one on. -/
theorem repeatBody_separatedBody (hx : x ≠ "loop") {length : Nat} (items : List (Json × Json))
    (i : Nat) (hlength : i + items.length = length) :
    repeatBody (fun scope => renderNodes options (scope :: scopes)
          (separatedBody lines x separator))
        ((items.zipIdx i).map fun (item, i) => loopScope none x i length item) =
      .ok (separator.intercalate (items.map fun item => printText options (plain item.2))) := by
  induction items generalizing i with
  | nil => rfl
  | cons item items ih =>
    rw [List.length_cons] at hlength
    rw [List.zipIdx_cons, List.map_cons, repeatBody, renderNodes_separatedBody hx,
      ih (i + 1) (by omega)]
    show Except.ok _ = Except.ok _
    rw [Except.ok.injEq, iterationText]
    cases items with
    | nil =>
      rw [List.length_nil] at hlength
      rw [if_pos hlength, String.append_empty, List.map_nil, List.map_singleton,
        String.intercalate_singleton]
      exact String.append_empty
    | cons next items =>
      rw [List.length_cons] at hlength
      simp only [List.map_cons]
      rw [if_neg (by omega), String.intercalate_cons_cons]

theorem renderNode_separatedLoop (hx : x ≠ "loop") {xs : String} {value : Json}
    (hvalue : eval options scopes (.name (lines 1) xs) = .ok (plain value)) :
    renderNode options scopes (separatedLoop lines xs x separator) =
      .ok (separator.intercalate
        ((loopItems value).map fun item => printText options (plain item.2))) := by
  unfold separatedLoop
  rw [renderNode, hvalue]
  dsimp only [bind, Except.bind, plain]
  cases loopItems value with
  | nil => rfl
  | cons item items => exact repeatBody_separatedBody hx (item :: items) 0 (Nat.zero_add _)

/-- Printing joined items is joining printed ones. -/
theorem printText_join {items : List Json}
    (hseparator : options.autoescape = false ∨ NoMarkup separator) :
    printText options (plain (.string (separator.intercalate (items.map toText)))) =
      separator.intercalate (items.map fun item => printText options (plain item)) := by
  unfold printText plain
  cases hescape : options.autoescape with
  | false => rfl
  | true =>
    have hmarkup := hseparator.resolve_left (by simp [hescape])
    show escape (separator.intercalate (items.map toText)) =
      separator.intercalate (items.map fun item => escape (toText item))
    rw [escape_intercalate, escape_of_noMarkup hmarkup, List.map_map]
    rfl

/-- Without errors for undefined names, a name that has no value is an absent one. -/
theorem eval_name_lenient (autoescape : Bool) (fields : List (String × Json)) (line : Nat)
    (name : String) :
    eval ⟨autoescape, false⟩ [rootScope (.object fields)] (.name line name) =
      .ok (plain ((fields.lookup name).getD .null)) := by
  rw [eval]
  cases h : fields.lookup name <;> simp [find?, rootScope, h]

theorem eval_join {xs : String} {value : Json} (line line' line'' : Nat)
    (hvalue : eval options scopes (.name line xs) = .ok (plain value)) :
    eval options scopes (.filter line' "join" (.name line xs) [.string line'' separator]) =
      .ok (plain (.string (separator.intercalate (itemTexts value)))) := by
  rw [eval, hvalue]
  simp only [evalAll, eval]
  rfl

/-- A loop that prints its items with a separator between them writes what printing the joined
items does, if the separator is left as it is where it is printed. -/
theorem ofDocument_separatedLoop_eq_join (autoescape : Bool) (template : String)
    (lines lines' : Nat → Nat) {fields : List (String × Json)} {xs x separator : String}
    (hx : x ≠ "loop") (hxs : IsIterable ((fields.lookup xs).getD .null))
    (hseparator : autoescape = false ∨ NoMarkup separator) :
    ∃ output,
      ofDocument ⟨autoescape, false⟩ ⟨template, [separatedLoop lines xs x separator]⟩
        (.object fields) = .ok output ∧
      ofDocument ⟨autoescape, false⟩ ⟨template, [joinedPrint lines' xs separator]⟩
        (.object fields) = .ok output := by
  have hvalue (line : Nat) := eval_name_lenient autoescape fields line xs
  generalize (fields.lookup xs).getD .null = value at *
  have htexts : itemTexts value = ((loopItems value).map Prod.snd).map toText := by
    rw [← map_loopItems hxs, List.map_map]
    rfl
  refine ⟨printText ⟨autoescape, false⟩ (plain (.string (separator.intercalate (itemTexts value)))),
    ?_, ?_⟩
  · rw [ofDocument_singleton, renderNode_separatedLoop hx (hvalue _), htexts,
      printText_join hseparator, List.map_map]
    rfl
  · exact ofDocument_print (eval_join _ _ _ (hvalue _))

/-- Two texts, one of which is escaped, and a comma between them. -/
theorem ofDocument_separatedLoop_eq_join_comma :
    ∃ (fields : List (String × Json)) (lines : Nat → Nat), "x" ≠ "loop" ∧
      IsIterable ((fields.lookup "xs").getD .null) ∧ NoMarkup ", " ∧
      ∃ output,
        ofDocument ⟨true, false⟩ ⟨"page", [separatedLoop lines "xs" "x" ", "]⟩ (.object fields) =
          .ok output ∧
        ofDocument ⟨true, false⟩ ⟨"page", [joinedPrint lines "xs" ", "]⟩ (.object fields) =
          .ok output := by
  let fields : List (String × Json) := [("xs", .array [.string "a", .string "<b>"])]
  have hmarkup : NoMarkup ", " := by simp [NoMarkup, IsPlainChar]
  have hx : "x" ≠ "loop" := by decide
  have hxs : IsIterable ((fields.lookup "xs").getD .null) := trivial
  exact ⟨fields, fun _ => 1, hx, hxs, hmarkup,
    ofDocument_separatedLoop_eq_join true "page" _ _ hx hxs (.inr hmarkup)⟩

end TemplateEngine.Render
