import Mathlib.Data.List.Forall2
import TemplateEngine.Proofs.Expr.Passing
import TemplateEngine.Proofs.Lexer.Strings
import TemplateEngine.Render

/-!
What a string with interpolations evaluates to. Main statement: the expression that is read from
such a string evaluates to the text of its parts in order, as an unsafe string, unless the string is
a single interpolation: then it evaluates to whatever the interpolated expression does.
-/

namespace TemplateEngine

open Lexer

/-- The tokens of a string in parts. Two plain parts do not follow each other; the first part may be
plain only if `plainMayFollow`. -/
inductive PartTokens : Bool → List StringPart → List Token → Prop
  | nil (plainMayFollow : Bool) : PartTokens plainMayFollow [] []
  | plain {raw : List Char} {parts : List StringPart} {t : Token} {ts : List Token}
      (hkind : t.kind = .string) (hvalue : t.value = String.ofList (unescape raw))
      (h : PartTokens false parts ts) : PartTokens true (.plain raw :: parts) (t :: ts)
  | interpolated (plainMayFollow : Bool) {parts : List StringPart} {start ending : Token}
      {inside ts : List Token} (hstart : start.kind = .interpolationStart)
      (hinside : openBehind? 0 inside = some 0) (hending : ending.kind = .interpolationEnd)
      (h : PartTokens true parts ts) :
      PartTokens plainMayFollow (.interpolated inside :: parts)
        (start :: (inside ++ ending :: ts))

/-- Whether a plain part may stand behind these parts, if it may stand in front of them. -/
def plainMayFollowParts : Bool → List StringPart → Bool
  | plainMayFollow, [] => plainMayFollow
  | _, .plain _ :: parts => plainMayFollowParts false parts
  | _, .interpolated _ :: parts => plainMayFollowParts true parts

namespace Lexer

variable {r : Rules} {comments : Comments} {s t : State} {tokens inside : List Token}
  {ending : Token} {outer : List Nesting} {parts : List StringPart} {rest raw : List Char}

/-- The tokens up to the end of an interpolation end all interpolations that start there. -/
theorem Leaves.openBehind?_inside (hin : InTag outer) (hnest : s.nesting = .string :: outer)
    (h : Leaves r comments (.string :: outer) (s.openInterpolation r) (inside ++ [ending]) t) :
    openBehind? 0 inside = some 0 := by
  have hinner : (s.openInterpolation r).nesting = .interpolation :: .string :: outer :=
    congrArg (Nesting.interpolation :: ·) hnest
  obtain ⟨_, _, htokens, -, hopen⟩ :=
    h.exists_interpolationEnd [] (hinner ▸ hin) hinner hin
  obtain ⟨rfl, -⟩ := List.append_inj' htokens rfl
  exact hopen

/-- Where a plain part ends, no other one begins. -/
theorem EndsPlain.not_plainPart {opening : List Char} (h : EndsPlain opening (raw ++ rest))
    (hne : opening ≠ []) (hescape : '\\' ∉ opening) (hraw : raw ≠ []) :
    ¬ PlainPart opening rest raw := by
  intro hplain
  rcases h with hquote | hopening
  · cases hplain with
    | nil => exact hraw rfl
    | escaped => simp at hquote
    | char hc => exact hc (Option.some.inj hquote)
  · exact hplain.not_isPrefix hne hescape hraw hopening

/-- The tokens of a string are those of its parts, and a plain part only follows an interpolation.
-/
theorem ReadsString.partTokens (h : ReadsString r comments outer s parts tokens t)
    (hescape : '\\' ∉ r.interpolation.opening) (hin : InTag outer)
    (hnest : s.nesting = .string :: outer) :
    PartTokens true parts tokens ∧
      (EndsPlain r.interpolation.opening s.rest → PartTokens false parts tokens) := by
  induction h with
  | close => exact ⟨.nil true, fun _ => .nil false⟩
  | plain hne hrest hplain hend _ ih =>
    refine ⟨.plain rfl rfl ((ih hnest).2 ?_), fun hends => ?_⟩
    · rw [State.rest_advance, hrest, List.drop_left]
      exact hend
    · rw [hrest] at hends
      exact absurd hplain (hends.not_plainPart r.interpolation.opening_ne_nil hescape hne)
  | interpolated hopening hinside hending _ ih =>
    have hopen := hinside.openBehind?_inside hin hnest
    have hmore := (ih hinside.nesting_eq).1
    exact ⟨.interpolated true rfl hopen hending hmore,
      fun _ => .interpolated false rfl hopen hending hmore⟩

end Lexer

namespace Expr

open TokenReader

/-- The expression that a part of a string stands for: its text, or what is read between the start
and the end of the interpolation. -/
inductive PartReads : StringPart → Expr → Prop
  | plain {raw : List Char} (line : Nat) :
      PartReads (.plain raw) (string line (String.ofList (unescape raw)))
  | interpolated {inside : List Token} {k : Nat} {u v : TokenStream} {e : Expr}
      (hread : outcome (readFrom k 0) u = .ok (e, v)) (hahead : u.ahead = inside ++ v.ahead)
      (hend : v.current.kind = .interpolationEnd) : PartReads (.interpolated inside) e

/-- The read itself, as what holds of its result. -/
theorem ifRead_self {σ α : Type} (reader : EStateM SyntaxError σ α) (s : σ) :
    IfRead reader s fun a t => outcome reader s = .ok (a, t) := by
  unfold IfRead Gives
  cases outcome reader s with
  | error e => exact .error trivial
  | ok result => exact .ok rfl

/-- The first part of a string that is read, and the reading of the others. Nothing is read in front
of a token that begins no part, or of the last token of all. -/
inductive FirstPart (k : Nat) (plainMayFollow : Bool) (u : TokenStream) :
    List Expr → TokenStream → Prop
  | none (hstart : u.after ≠ [] → u.current.kind ≠ .interpolationStart)
      (hplain : u.after ≠ [] → plainMayFollow = true → u.current.kind ≠ .string) :
      FirstPart k plainMayFollow u [] u
  | plain {token : Token} {v w : TokenStream} {es : List Expr} (hmay : plainMayFollow = true)
      (hkind : token.kind = .string) (huv : u.Past token v)
      (hmore : outcome (readParts k false) v = .ok (es, w)) :
      FirstPart k plainMayFollow u (string token.line token.value :: es) w
  | interpolated {start ending : Token} {t v w x : TokenStream} {inner : Expr} {es : List Expr}
      (hstart : start.kind = .interpolationStart) (hut : u.Past start t)
      (hinner : outcome (readFrom k 0) t = .ok (inner, v)) (hvw : v.Past ending w)
      (hending : ending.kind = .interpolationEnd)
      (hmore : outcome (readParts k true) w = .ok (es, x)) :
      FirstPart k plainMayFollow u (inner :: es) x

theorem readParts_firstPart (k : Nat) (plainMayFollow : Bool) (u : TokenStream) :
    IfRead (readParts (k + 1) plainMayFollow) u (FirstPart k plainMayFollow u) := by
  have hinterpolation : ∀ {may : Bool},
      (u.after ≠ [] → may = true → u.current.kind ≠ .string) →
      IfRead (readParts (k + 1) false) u (FirstPart k may u) := by
    intro may hplain
    rw [readParts, Grammar.parts]
    apply (gives_nextIf u .interpolationStart none).bind
    rintro (_ | start) t ht
    · obtain ⟨rfl, htest⟩ := ht
      exact .pure (.none (fun hafter => by simpa using htest hafter) hplain)
    · apply (ifRead_self (readFrom k 0) t).bind
      intro inner v hinner
      apply (gives_expect trivial trivial).bind
      rintro ending w ⟨hvw, hending⟩
      apply (ifRead_self (readParts k true) w).bind
      intro es x hmore
      exact .pure (.interpolated (Token.kind_of_test ht.2) ht.1 hinner hvw
        (Token.kind_of_test hending) hmore)
  cases plainMayFollow with
  | false => exact hinterpolation (by simp)
  | true =>
    rw [readParts, Grammar.parts] at hinterpolation ⊢
    apply (gives_nextIf u .string none).bind
    rintro (_ | token) v hv
    · obtain ⟨rfl, htest⟩ := hv
      exact hinterpolation fun hafter _ => by simpa using htest hafter
    · apply (ifRead_self (readParts k false) v).bind
      intro es w hmore
      exact .pure (.plain rfl (Token.kind_of_test hv.2) hv.1 hmore)

theorem exists_firstPart {k : Nat} {plainMayFollow : Bool} {u v : TokenStream} {es : List Expr}
    (h : outcome (readParts k plainMayFollow) u = .ok (es, v)) :
    ∃ j, FirstPart j plainMayFollow u es v := by
  cases k with
  | zero =>
    rw [readParts] at h
    simp [stop] at h
  | succ k => exact ⟨k, (readParts_firstPart k plainMayFollow u).of_ok h⟩

section

variable {k : Nat} {plainMayFollow : Bool} {u v : TokenStream} {es : List Expr} {t : Token}
  {ts : List Token}

/-- In front of a token that begins no part here nothing is read. -/
theorem FirstPart.of_other (h : FirstPart k plainMayFollow u es v) (hahead : u.ahead = t :: ts)
    (hstring : plainMayFollow = true → t.kind ≠ .string) (hstart : t.kind ≠ .interpolationStart) :
    es = [] ∧ v = u := by
  cases h with
  | none => exact ⟨rfl, rfl⟩
  | plain hmay hkind huv =>
    obtain ⟨rfl, -⟩ := List.cons.inj (huv.2.symm.trans hahead)
    exact absurd hkind (hstring hmay)
  | interpolated hkind hut =>
    obtain ⟨rfl, -⟩ := List.cons.inj (hut.2.symm.trans hahead)
    exact absurd hkind hstart

/-- Where a plain part may stand, the token of one is read as its text. -/
theorem FirstPart.of_string (h : FirstPart k true u es v) (hahead : u.ahead = t :: ts)
    (hts : ts ≠ []) (hstring : t.kind = .string) :
    ∃ w more, es = string t.line t.value :: more ∧ w.ahead = ts ∧
      outcome (readParts k false) w = .ok (more, v) := by
  cases h with
  | none _ hplain =>
    obtain ⟨rfl, rfl⟩ := List.cons.inj hahead
    exact absurd hstring (hplain hts rfl)
  | plain _ _ huv hmore =>
    obtain ⟨rfl, hmiddle⟩ := List.cons.inj (huv.2.symm.trans hahead)
    exact ⟨_, _, rfl, hmiddle, hmore⟩
  | interpolated hstart hut =>
    obtain ⟨rfl, -⟩ := List.cons.inj (hut.2.symm.trans hahead)
    simp [hstring] at hstart

/-- At the start of an interpolation the expression up to its end is read. -/
theorem FirstPart.of_interpolationStart {inside behind : List Token} {ending : Token}
    (h : FirstPart k plainMayFollow u es v)
    (hahead : u.ahead = t :: (inside ++ ending :: behind)) (hstart : t.kind = .interpolationStart)
    (hinside : openBehind? 0 inside = some 0) (hending : ending.kind = .interpolationEnd) :
    ∃ e w more, es = e :: more ∧ PartReads (.interpolated inside) e ∧ w.ahead = behind ∧
      outcome (readParts k true) w = .ok (more, v) := by
  cases h with
  | none hnone =>
    obtain ⟨rfl, hafter⟩ := List.cons.inj hahead
    exact absurd hstart (hnone (by simp [hafter]))
  | plain _ hkind huv =>
    obtain ⟨rfl, -⟩ := List.cons.inj (huv.2.symm.trans hahead)
    simp [hstart] at hkind
  | interpolated _ hut hinner hvw hends hmore =>
    obtain ⟨rfl, hmiddle⟩ := List.cons.inj (hut.2.symm.trans hahead)
    obtain ⟨passed, -, hpaired, hpassed⟩ := ((allStayInside k).readFrom 0 _).of_ok hinner
    simp only at hpassed
    rw [hpassed, hvw.2] at hmiddle
    obtain ⟨rfl, rfl, hbehind⟩ := eq_of_append_end (hpaired 0) hinside hends hending hmiddle
    exact ⟨_, _, _, rfl, .interpolated hinner hpassed (hvw.1 ▸ hends), hbehind, hmore⟩

end

/-- Reading from the tokens of a string, in front of a token that begins no further part, takes
exactly these and gives an expression for each of the parts. -/
theorem partReads_of_readParts {k : Nat} {plainMayFollow : Bool} {parts : List StringPart}
    {ts behind : List Token} {next : Token} {u v : TokenStream} {es : List Expr}
    (hparts : PartTokens plainMayFollow parts ts) (hahead : u.ahead = ts ++ next :: behind)
    (hstring : plainMayFollowParts plainMayFollow parts = true → next.kind ≠ .string)
    (hinterpolation : next.kind ≠ .interpolationStart)
    (hread : outcome (readParts k plainMayFollow) u = .ok (es, v)) :
    List.Forall₂ PartReads parts es ∧ v.ahead = next :: behind := by
  induction hparts generalizing k u es with
  | nil =>
    obtain ⟨j, hfirst⟩ := exists_firstPart hread
    obtain ⟨rfl, rfl⟩ := hfirst.of_other hahead hstring hinterpolation
    exact ⟨.nil, hahead⟩
  | plain hkind hvalue _ ih =>
    obtain ⟨j, hfirst⟩ := exists_firstPart hread
    obtain ⟨w, more, rfl, hw, hmore⟩ := hfirst.of_string hahead (by simp) hkind
    obtain ⟨hreads, hv⟩ := ih hw hstring hmore
    rw [hvalue]
    exact ⟨.cons (.plain _) hreads, hv⟩
  | interpolated _ hstart hinside hending _ ih =>
    rw [List.cons_append, List.append_assoc, List.cons_append] at hahead
    obtain ⟨j, hfirst⟩ := exists_firstPart hread
    obtain ⟨e, w, more, rfl, hpart, hw, hmore⟩ :=
      hfirst.of_interpolationStart hahead hstart hinside hending
    obtain ⟨hreads, hv⟩ := ih hw hstring hmore
    exact ⟨.cons hpart hreads, hv⟩

/-- A string is read by its parts, which are joined from the left. -/
theorem exists_parts_of_readPrimary {k : Nat} {u v : TokenStream} {e : Expr}
    (hkind : u.current.kind = .string ∨ u.current.kind = .interpolationStart)
    (hread : outcome (readPrimary k) u = .ok (e, v)) :
    ∃ j es, outcome (readParts j true) u = .ok (es, v) ∧ e = concatAll u.current.line es := by
  cases k with
  | zero =>
    rw [readPrimary] at hread
    simp [stop] at hread
  | succ k =>
    have hparts : IfRead (readPrimary (k + 1)) u fun e v =>
        ∃ es, outcome (readParts k true) u = .ok (es, v) ∧ e = concatAll u.current.line es := by
      rw [readPrimary, Grammar.primary]
      apply gives_current
      rcases hkind with hkind | hkind
      all_goals
        simp only [hkind]
        apply (ifRead_self (readParts k true) u).bind
        intro es v hes
        exact .pure ⟨es, hes, rfl⟩
    obtain ⟨es, hes, he⟩ := hparts.of_ok hread
    exact ⟨k, es, hes, he⟩

/-- A string with a token behind it that begins no further part is read by its own parts. -/
theorem partReads_of_readPrimary {k : Nat} {parts : List StringPart} {ts behind : List Token}
    {next : Token} {u v : TokenStream} {e : Expr} (hparts : PartTokens true parts ts)
    (hne : parts ≠ []) (hahead : u.ahead = ts ++ next :: behind)
    (hstring : plainMayFollowParts true parts = true → next.kind ≠ .string)
    (hinterpolation : next.kind ≠ .interpolationStart)
    (hread : outcome (readPrimary k) u = .ok (e, v)) :
    ∃ es, List.Forall₂ PartReads parts es ∧ e = concatAll u.current.line es ∧
      v.ahead = next :: behind := by
  have hkind : u.current.kind = .string ∨ u.current.kind = .interpolationStart := by
    cases hparts with
    | nil => exact absurd rfl hne
    | plain hkind => exact .inl ((List.cons.inj hahead).1 ▸ hkind)
    | interpolated _ hstart => exact .inr ((List.cons.inj hahead).1 ▸ hstart)
  obtain ⟨j, es, hes, he⟩ := exists_parts_of_readPrimary hkind hread
  obtain ⟨hreads, hv⟩ := partReads_of_readParts hparts hahead hstring hinterpolation hes
  exact ⟨es, hreads, he, hv⟩

end Expr

namespace Render

open TemplateEngine.Expr

/-- The text of a string: its plain parts with their escapes resolved, and the printed forms of its
interpolated values, in order. -/
inductive Spelled (options : Options) (scopes : List Scope) :
    List StringPart → List Expr → String → Prop
  | nil : Spelled options scopes [] [] ""
  | plain {raw : List Char} {parts : List StringPart} {e : Expr} {es : List Expr} {text : String}
      (h : Spelled options scopes parts es text) :
      Spelled options scopes (.plain raw :: parts) (e :: es)
        (String.ofList (unescape raw) ++ text)
  | interpolated {inside : List Token} {parts : List StringPart} {e : Expr} {es : List Expr}
      {value : Evaluated} {text : String} (hvalue : eval options scopes e = .ok value)
      (h : Spelled options scopes parts es text) :
      Spelled options scopes (.interpolated inside :: parts) (e :: es)
        (toText value.value ++ text)

variable {options : Options} {scopes : List Scope} {parts : List StringPart} {es : List Expr}
  {text : String}

/-- A string has a text wherever its interpolated expressions have values. -/
theorem exists_spelled (h : List.Forall₂ PartReads parts es)
    (hvalues : ∀ e ∈ es, ∃ value, eval options scopes e = .ok value) :
    ∃ text, Spelled options scopes parts es text := by
  induction h with
  | nil => exact ⟨"", .nil⟩
  | cons hpart _ ih =>
    obtain ⟨hvalue, hvalues⟩ := List.forall_mem_cons.1 hvalues
    obtain ⟨text, htext⟩ := ih hvalues
    cases hpart with
    | plain => exact ⟨_, .plain htext⟩
    | interpolated =>
      obtain ⟨value, hvalue⟩ := hvalue
      exact ⟨_, .interpolated hvalue htext⟩

/-- The text of a string is that of its first part and that of the others. -/
theorem Spelled.exists_first {part : StringPart} {e : Expr} (hpart : PartReads part e)
    (h : Spelled options scopes (part :: parts) (e :: es) text) :
    ∃ value more, eval options scopes e = .ok value ∧ Spelled options scopes parts es more ∧
      text = toText value.value ++ more := by
  cases h with
  | plain h =>
    cases hpart with
    | plain line => exact ⟨_, _, rfl, h, rfl⟩
  | interpolated hvalue h => exact ⟨_, _, hvalue, h, rfl⟩

theorem eval_concat (line : Nat) {left right : Expr} {x y : Evaluated}
    (hleft : eval options scopes left = .ok x) (hright : eval options scopes right = .ok y) :
    eval options scopes (binary line .concat left right) =
      .ok (plain (.string (toText x.value ++ toText y.value))) := by
  rw [eval, hleft, ok_bind, hright]
  rfl

/-- What is joined to the expressions in front comes behind their text. -/
theorem eval_foldl_concat (line : Nat) {first : Expr} {x : Evaluated}
    (hparts : List.Forall₂ PartReads parts es) (h : Spelled options scopes parts es text)
    (hfirst : eval options scopes first = .ok x) (hne : es ≠ []) :
    eval options scopes (es.foldl (fun left right => binary line .concat left right) first) =
      .ok (plain (.string (toText x.value ++ text))) := by
  induction hparts generalizing first x text with
  | nil => exact absurd rfl hne
  | @cons part e parts es hpart hparts ih =>
    obtain ⟨value, more, hvalue, hmore, rfl⟩ := h.exists_first hpart
    have hjoined := eval_concat line hfirst hvalue
    rw [List.foldl_cons]
    by_cases hes : es = []
    · subst hes
      cases hmore
      rw [List.foldl_nil, hjoined, String.append_empty]
    · rw [ih hmore hjoined hes, ← String.append_assoc]
      rfl

/-- The parts of a string, joined, evaluate to its text, except for a single part with another
value. -/
theorem eval_concatAll_iff (line : Nat) (hparts : List.Forall₂ PartReads parts es) (hne : es ≠ [])
    (h : Spelled options scopes parts es text) :
    eval options scopes (concatAll line es) = .ok (plain (.string text)) ↔
      ∀ lone, es = [lone] →
        ∃ value, eval options scopes lone = .ok (plain (.string value)) := by
  cases hparts with
  | nil => exact absurd rfl hne
  | @cons part e parts es hpart hparts =>
    obtain ⟨value, behind, hvalue, hbehind, rfl⟩ := h.exists_first hpart
    by_cases hlone : es = []
    · subst hlone
      cases hbehind
      rw [String.append_empty]
      constructor
      · rintro h lone hsame
        obtain ⟨rfl, -⟩ := List.cons.inj hsame
        exact ⟨_, h⟩
      · intro h
        obtain ⟨text, hstring⟩ := h e rfl
        obtain rfl := Except.ok.inj (hvalue.symm.trans hstring)
        exact hstring
    · have hjoined := eval_foldl_concat line hparts hbehind hvalue hlone
      exact ⟨fun _ lone hsame => absurd (List.cons.inj hsame).2 hlone, fun _ => hjoined⟩

/-- A literal between double quotes with interpolations, under the default settings, and the
expression that is read where its tokens stand in front of a token that begins no part of a string.
Exactly the tokens of the literal are taken. The literal consists of parts that are read one by one,
and wherever all of them have values it has a text. The expression evaluates to that text, as an
unsafe string, exactly if a single interpolation that is all of the literal has an unsafe string
itself. -/
theorem eval_string_iff {comments : Comments} {lexer : Lexer}
    (hlexer : ofOptions {} comments = .ok lexer) {s t : State} {cs : List Char}
    {lit behind : List Token} {next : Token} (hin : InTag s.nesting) (hrest : s.rest = '"' :: cs)
    (hlit : ReadsExpression lexer.rules comments s lit t)
    (hinterpolation : ∃ x ∈ lit, x.kind = .interpolationStart) {k : Nat} {u v : TokenStream}
    {e : Expr} (hahead : u.ahead = lit ++ next :: behind) (hstring : next.kind ≠ .string)
    (hnext : next.kind ≠ .interpolationStart) (hread : outcome (readPrimary k) u = .ok (e, v)) :
    v.ahead = next :: behind ∧
    ∃ parts es, ReadsString lexer.rules comments s.nesting s.openString parts lit t ∧
      List.Forall₂ PartReads parts es ∧
      ∀ options scopes, (∀ part ∈ es, ∃ value, eval options scopes part = .ok value) →
        ∃ text, Spelled options scopes parts es text ∧
          (eval options scopes e = .ok (plain (.string text)) ↔
            ∀ lone, es = [lone] →
              ∃ value, eval options scopes lone = .ok (plain (.string value))) := by
  have hescape : '\\' ∉ lexer.rules.interpolation.opening := by
    rw [interpolation_opening_of_ofOptions hlexer]
    decide
  obtain ⟨parts, hparts⟩ := exists_readsString rfl hin (hlit.leaves hrest hinterpolation)
  have htokens := (hparts.partTokens hescape hin rfl).1
  have hsome : parts ≠ [] := by
    rintro rfl
    cases htokens
    simp at hinterpolation
  obtain ⟨es, hreads, rfl, hv⟩ :=
    partReads_of_readPrimary htokens hsome hahead (fun _ => hstring) hnext hread
  refine ⟨hv, parts, es, hparts, hreads, fun options scopes hvalues => ?_⟩
  obtain ⟨text, htext⟩ := exists_spelled hreads hvalues
  have hne : es ≠ [] := by
    rintro rfl
    cases hreads
    exact hsome rfl
  exact ⟨text, htext, eval_concatAll_iff u.current.line hreads hne htext⟩

/-- The tokens of a string with text in front of an interpolation. -/
theorem eval_string_iff_text :
    ∃ lexer lit t u v e, ofOptions {} .drop = .ok lexer ∧
      ReadsExpression lexer.rules .drop (printState "\"a#\x7bx\x7d\"") lit t ∧
      u.ahead = lit ++ ⟨.varEnd, "\x7d\x7d", 1⟩ :: [] ∧ outcome (readPrimary 6) u = .ok (e, v) ∧
      e = binary 1 .concat (string 1 "a") (name 1 "x") ∧
      v.ahead = ⟨.varEnd, "\x7d\x7d", 1⟩ :: [] ∧
      ∃ parts es, ReadsString lexer.rules .drop [.print]
          (printState "\"a#\x7bx\x7d\"").openString parts lit t ∧
        List.Forall₂ PartReads parts es ∧
        ∀ options scopes, (∀ part ∈ es, ∃ value, eval options scopes part = .ok value) →
          ∃ text, Spelled options scopes parts es text ∧
            (eval options scopes e = .ok (plain (.string text)) ↔
              ∀ lone, es = [lone] →
                ∃ value, eval options scopes lone = .ok (plain (.string value))) := by
  let lit : List Token := [⟨.string, "a", 1⟩, ⟨.interpolationStart, "#\x7b", 1⟩, ⟨.name, "x", 1⟩,
    ⟨.interpolationEnd, "\x7d", 1⟩]
  obtain ⟨lexer, _, t, hlexer, hstep, hleaves, rfl⟩ : ∃ lexer tokens t,
      ofOptions {} .drop = .ok lexer ∧
      expressionStep lexer.rules (printState "\"a#\x7bx\x7d\"") =
        .ok ([], (printState "\"a#\x7bx\x7d\"").openString) ∧
      Leaves lexer.rules .drop [.print] (printState "\"a#\x7bx\x7d\"").openString tokens t ∧
      tokens = lit :=
    ⟨_, _, _, rfl, rfl, .step (by decide) rfl rfl (.step (by decide) rfl rfl
      (.step (by decide) rfl rfl (.step (by decide) rfl rfl (.step (by decide) rfl rfl
        (.left rfl))))), rfl⟩
  have hlit : ReadsExpression lexer.rules .drop (printState "\"a#\x7bx\x7d\"") lit t :=
    ⟨[], _, lit, hstep, hleaves, rfl⟩
  obtain ⟨u, v, hahead, hread⟩ : ∃ u v : TokenStream,
      u.ahead = lit ++ ⟨.varEnd, "\x7d\x7d", 1⟩ :: [] ∧
      outcome (readPrimary 6) u =
        .ok (binary 1 .concat (string 1 "a") (name 1 "x"), v) :=
    ⟨⟨[], ⟨.string, "a", 1⟩, lit.tail ++ [⟨.varEnd, "\x7d\x7d", 1⟩], "page"⟩, _, rfl, rfl⟩
  exact ⟨lexer, lit, t, u, v, _, hlexer, hlit, hahead, hread, rfl,
    eval_string_iff (s := printState "\"a#\x7bx\x7d\"") hlexer trivial rfl hlit
      ⟨_, .tail _ (.head _), rfl⟩ hahead (by decide) (by decide) hread⟩

/-- A string of a single interpolation evaluates to a number here. -/
theorem not_eval_string_lone :
    ∃ lexer lit t u v e, ofOptions {} .drop = .ok lexer ∧
      ReadsExpression lexer.rules .drop (printState "\"#\x7bx\x7d\"") lit t ∧
      (∃ x ∈ lit, x.kind = .interpolationStart) ∧
      u.ahead = lit ++ v.ahead ∧ outcome (readPrimary 6) u = .ok (e, v) ∧
      eval {} [[("x", .int 5)]] e = .ok (plain (.int 5)) ∧
      ∀ text, eval {} [[("x", .int 5)]] e ≠ .ok (plain (.string text)) := by
  let lit : List Token := [⟨.interpolationStart, "#\x7b", 1⟩, ⟨.name, "x", 1⟩,
    ⟨.interpolationEnd, "\x7d", 1⟩]
  have hvalue : eval {} [[("x", .int 5)]] (name 1 "x") = .ok (plain (.int 5)) := rfl
  obtain ⟨lexer, _, t, hlexer, hstep, hleaves, rfl⟩ : ∃ lexer tokens t,
      ofOptions {} .drop = .ok lexer ∧
      expressionStep lexer.rules (printState "\"#\x7bx\x7d\"") =
        .ok ([], (printState "\"#\x7bx\x7d\"").openString) ∧
      Leaves lexer.rules .drop [.print] (printState "\"#\x7bx\x7d\"").openString tokens t ∧
      tokens = lit :=
    ⟨_, _, _, rfl, rfl, .step (by decide) rfl rfl (.step (by decide) rfl rfl
      (.step (by decide) rfl rfl (.step (by decide) rfl rfl (.left rfl)))), rfl⟩
  have hlit : ReadsExpression lexer.rules .drop (printState "\"#\x7bx\x7d\"") lit t :=
    ⟨[], _, lit, hstep, hleaves, rfl⟩
  obtain ⟨u, v, hahead, hread⟩ : ∃ u v : TokenStream, u.ahead = lit ++ v.ahead ∧
      outcome (readPrimary 6) u = .ok (name 1 "x", v) :=
    ⟨⟨[], ⟨.interpolationStart, "#\x7b", 1⟩, lit.tail ++ [⟨.varEnd, "\x7d\x7d", 1⟩], "page"⟩,
      _, rfl, rfl⟩
  refine ⟨lexer, lit, t, u, v, _, hlexer, hlit, ⟨_, .head _, rfl⟩, hahead, hread, hvalue, ?_⟩
  intro text h
  have := Except.ok.inj (hvalue.symm.trans h)
  simp [plain] at this

end Render

end TemplateEngine
