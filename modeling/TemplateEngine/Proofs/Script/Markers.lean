import TemplateEngine.Proofs.Environment.Outline
import TemplateEngine.Proofs.Lexer.Names

/-!
The comments that mark blocks in scripts. Main statement: every block of a template is marked in its
script by two comments with its name, and these are comments of one line exactly if the name has no
line separator and no paragraph separator in it. Line feeds and carriage returns never stand in a
name.
-/

namespace TemplateEngine

namespace Script

/-- The comment in front of the script of a block, with the end of its line. -/
def blockOpening (name : String) : String :=
  "// block " ++ name ++ "\n"

/-- The comment behind the script of a block, with the end of its line. -/
def blockEnding (name : String) : String :=
  "// endblock " ++ name ++ "\n"

/-- A text of which the last character ends a line of the script, and no other one does. -/
def OneLine (text : String) : Prop :=
  ∃ front, text.toList = front ++ ['\n'] ∧ ∀ c ∈ front, isLineEnd c = false

/-- A text with the two comments of a block in it, one behind the other. -/
def HasMarkers (name text : String) : Prop :=
  ∃ front inside back,
    text = front ++ blockOpening name ++ inside ++ blockEnding name ++ back

theorem oneLine_append_iff {front text : String} (h : front.toList.any isLineEnd = false) :
    OneLine (front ++ text ++ "\n") ↔ ∀ c ∈ text.toList, isLineEnd c = false := by
  have hlist : (front ++ text ++ "\n").toList = front.toList ++ text.toList ++ ['\n'] := by
    simp [String.toList_append]
  unfold OneLine
  rw [hlist]
  constructor
  · rintro ⟨line, hline, hends⟩ c hc
    have hfront : front.toList ++ text.toList = line := List.append_cancel_right hline
    exact hends c (hfront ▸ List.mem_append_right _ hc)
  · intro htext
    have hfront : ∀ c ∈ front.toList, isLineEnd c = false := by simpa using h
    exact ⟨_, rfl, List.forall_mem_append.2 ⟨hfront, htext⟩⟩

theorem oneLine_blockOpening_iff (name : String) :
    OneLine (blockOpening name) ↔ ∀ c ∈ name.toList, isLineEnd c = false :=
  oneLine_append_iff (by decide)

theorem oneLine_blockEnding_iff (name : String) :
    OneLine (blockEnding name) ↔ ∀ c ∈ name.toList, isLineEnd c = false :=
  oneLine_append_iff (by decide)

namespace HasMarkers

variable {name text : String}

theorem append_left (h : HasMarkers name text) (front : String) :
    HasMarkers name (front ++ text) := by
  obtain ⟨before, inside, back, rfl⟩ := h
  exact ⟨front ++ before, inside, back, by simp only [String.append_assoc]⟩

theorem append_right (h : HasMarkers name text) (back : String) :
    HasMarkers name (text ++ back) := by
  obtain ⟨front, inside, after, rfl⟩ := h
  exact ⟨front, inside, after ++ back, by simp only [String.append_assoc]⟩

end HasMarkers

/-- The writer adds a text in which every block among the parts has its comments. -/
def Marks {α : Type} (writer : Writer α) (parts : List Part) : Prop :=
  ∀ s, Gives (fun _ => True) writer s fun _ t =>
    ∃ added, t.text = s.text ++ added ∧ ∀ name, .block name ∈ parts → HasMarkers name added

namespace Marks

variable {α β : Type} {writer : Writer α} {f : α → Writer β} {parts more : List Part}

theorem bind (h : Marks writer parts) (hf : ∀ a, Marks (f a) more) :
    Marks (writer >>= f) (parts ++ more) := by
  intro s
  apply (h s).bind
  rintro a t ⟨first, ht, hfirst⟩
  apply (hf a t).mono
  rintro _ u ⟨second, hu, hsecond⟩
  refine ⟨first ++ second, by rw [hu, ht, String.append_assoc], ?_⟩
  intro name hname
  rcases List.mem_append.1 hname with hname | hname
  · exact (hfirst name hname).append_right second
  · exact (hsecond name hname).append_left first

/-- What follows may add anything. -/
theorem before (h : Marks writer parts) (hf : ∀ a, Marks (f a) []) :
    Marks (writer >>= f) parts := by
  have := h.bind hf
  rwa [List.append_nil] at this

/-- What is done first may add anything. -/
theorem behind (h : Marks writer []) (hf : ∀ a, Marks (f a) parts) :
    Marks (writer >>= f) parts :=
  h.bind hf

theorem mono (h : Marks writer parts)
    (hparts : ∀ name, .block name ∈ more → .block name ∈ parts) : Marks writer more := by
  intro s
  apply (h s).mono
  rintro _ t ⟨added, ht, hadded⟩
  exact ⟨added, ht, fun name hname => hadded name (hparts name hname)⟩

theorem modify {change : Script → Script} (h : ∀ s, ∃ added, (change s).text = s.text ++ added) :
    Marks (modify change : Writer Unit) [] := by
  intro s
  obtain ⟨added, hadded⟩ := h s
  exact .ok ⟨added, hadded, by simp⟩

theorem get_bind {f : Script → Writer α} (hf : ∀ s, Marks (f s) parts) :
    Marks (get >>= f) parts :=
  fun s => hf s s

end Marks

theorem marks_pure {α : Type} (a : α) : Marks (pure a) [] :=
  fun _ => .pure ⟨"", by simp, by simp⟩

theorem marks_raw (text : String) : Marks (raw text) [] :=
  Marks.modify fun _ => ⟨text, rfl⟩

theorem marks_write (text : String) : Marks (write text) [] :=
  Marks.get_bind fun _ => (marks_raw _).before fun _ => marks_raw text

theorem marks_indent : Marks indent [] :=
  Marks.modify fun _ => ⟨"", by simp⟩

theorem marks_outdent : Marks outdent [] :=
  Marks.modify fun _ => ⟨"", by simp⟩

theorem marks_enterScope : Marks enterScope [] :=
  Marks.modify fun _ => ⟨"", by simp⟩

theorem marks_leaveScope : Marks leaveScope [] :=
  Marks.modify fun _ => ⟨"", by simp⟩

theorem marks_expr (e : Expr) : Marks (expr e) [] := by
  unfold expr
  apply Marks.get_bind
  intro s
  cases ofExpr s.scope e with
  | ok text => exact marks_pure text
  | error e => exact fun _ => .error trivial

theorem gives_write (text : String) (s : Script) :
    Gives (fun _ => True) (write text) s fun _ t => ∃ front, t.text = s.text ++ (front ++ text) :=
  .ok ⟨margin s.indentation, String.append_assoc⟩

/-- A block is marked around the script of its body. -/
theorem marks_block {body : Writer Unit} {parts : List Part} (h : Marks body parts)
    (name : String) :
    Marks (do
      write (blockOpening name)
      body
      write (blockEnding name)) (.block name :: parts) := by
  intro s
  apply (gives_write (blockOpening name) s).bind
  rintro _ t ⟨front, ht⟩
  apply (h t).bind
  rintro _ u ⟨inside, hu, hinside⟩
  apply (gives_write (blockEnding name) u).mono
  rintro _ v ⟨middle, hv⟩
  refine ⟨front ++ blockOpening name ++ inside ++ (middle ++ blockEnding name), ?_, ?_⟩
  · rw [hv, hu, ht]
    simp only [String.append_assoc]
  · intro other hother
    rcases List.mem_cons.1 hother with hname | hother
    · obtain rfl := Part.block.inj hname
      refine ⟨front, inside ++ middle, "", ?_⟩
      simp only [String.append_assoc, String.append_empty]
    · exact ((hinside other hother).append_left _).append_right _

section

variable (options : Options)

mutual

theorem marks_writeNode : (node : Node) → Marks (writeNode options node) node.outline
  | .text _ _ => by
    rw [writeNode, Node.outline]
    exact (marks_write _).mono (by simp)
  | .print _ e => by
    rw [writeNode, Node.outline]
    exact ((marks_expr e).behind fun value => marks_write _).mono (by simp)
  | .choice _ branches otherwise => by
    rw [writeNode, Node.outline]
    apply (marks_writeBranches true branches).bind
    intro _
    apply (marks_writeOtherwise otherwise).before
    intro _
    exact marks_outdent.behind fun _ => marks_write _
  | .loop _ key target iterable body otherwise => by
    rw [writeNode, Node.outline]
    apply (marks_expr iterable).behind
    intro iterable
    apply Marks.get_bind
    intro s
    apply (marks_write _).behind
    intro _
    apply marks_indent.behind
    intro _
    apply (marks_write _).behind
    intro _
    refine Marks.mono (show Marks _ (outlineOfBody otherwise ++ outlineOfNodes body) from ?_) ?_
    · apply (marks_writeEmptyCase _ otherwise).bind
      intro _
      apply marks_enterScope.behind
      intro _
      apply (marks_write _).behind
      intro _
      apply marks_indent.behind
      intro _
      apply (marks_write _).behind
      intro _
      apply (marks_writeNodes body).before
      intro _
      apply marks_leaveScope.behind
      intro _
      apply marks_outdent.behind
      intro _
      apply (marks_write _).behind
      intro _
      exact marks_outdent.behind fun _ => marks_write _
    · intro name
      simp [or_comm]
  | .block _ name body => by
    rw [writeNode, Node.outline]
    exact marks_block (marks_writeNodes body) name
  | .comment line text exposed => by
    rw [writeNode, Node.outline]
    split
    · exact (marks_raw _).mono (by simp)
    · exact (marks_pure ()).mono (by simp)

theorem marks_writeNodes :
    (nodes : List Node) → Marks (writeNodes options nodes) (outlineOfNodes nodes)
  | [] => by
    rw [writeNodes, outlineOfNodes]
    exact marks_pure ()
  | node :: nodes => by
    rw [writeNodes, outlineOfNodes]
    exact (marks_writeNode node).bind fun _ => marks_writeNodes nodes

theorem marks_writeBranches (isFirst : Bool) :
    (branches : List Branch) →
      Marks (writeBranches options isFirst branches) (outlineOfBranches branches)
  | [] => by
    rw [writeBranches, outlineOfBranches]
    exact marks_pure ()
  | .mk condition body :: branches => by
    have hbody : Marks (do
        indent
        writeNodes options body
        writeBranches options false branches)
        (outlineOfNodes body ++ outlineOfBranches branches) :=
      marks_indent.behind fun _ =>
        (marks_writeNodes body).bind fun _ => marks_writeBranches false branches
    rw [writeBranches, outlineOfBranches]
    apply (marks_expr condition).behind
    intro condition
    cases isFirst with
    | true => exact (marks_write _).behind fun _ => hbody
    | false => exact marks_outdent.behind fun _ => (marks_write _).behind fun _ => hbody

theorem marks_writeOtherwise :
    (otherwise : Option (List Node)) →
      Marks (writeOtherwise options otherwise) (outlineOfBody otherwise)
  | none => by
    rw [writeOtherwise, outlineOfBody]
    exact marks_pure ()
  | some body => by
    rw [writeOtherwise, outlineOfBody]
    apply marks_outdent.behind
    intro _
    apply (marks_write _).behind
    intro _
    exact marks_indent.behind fun _ => marks_writeNodes body

theorem marks_writeEmptyCase (items : String) :
    (otherwise : Option (List Node)) →
      Marks (writeEmptyCase options items otherwise) (outlineOfBody otherwise)
  | none => by
    rw [writeEmptyCase, outlineOfBody]
    exact marks_pure ()
  | some body => by
    rw [writeEmptyCase, outlineOfBody]
    apply (marks_write _).behind
    intro _
    apply marks_indent.behind
    intro _
    apply (marks_writeNodes body).before
    intro _
    exact marks_outdent.behind fun _ => marks_write _

end

/-- Every block of a document is marked in its script. -/
theorem hasMarkers_of_ofDocument {document : Document} {text : String}
    (h : ofDocument options document = .ok text) {name : String}
    (hname : .block name ∈ document.outline) : HasMarkers name text := by
  have hmodule : Marks (writeModule options document) document.outline := by
    unfold writeModule
    apply (marks_raw _).behind
    intro _
    apply (marks_raw _).behind
    intro _
    apply (marks_raw _).behind
    intro _
    apply (marks_write _).behind
    intro _
    apply marks_indent.behind
    intro _
    apply (marks_write _).behind
    intro _
    apply (marks_write _).behind
    intro _
    apply (marks_writeNodes options document.nodes).before
    intro _
    apply (marks_write _).behind
    intro _
    exact marks_outdent.behind fun _ => marks_write _
  have hwritten : (outcome (writeModule options document) empty).map (·.2.text) = .ok text := by
    rw [← h]
    unfold ofDocument outcome
    cases writeModule options document empty <;> rfl
  obtain ⟨⟨_, script⟩, hscript, rfl⟩ := map_eq_ok.1 hwritten
  obtain ⟨added, hadded, hmarkers⟩ := ComesTo.of_ok (hmodule empty) hscript
  have htext : script.text = added := by
    rw [hadded]
    exact String.empty_append
  rw [htext]
  exact hmarkers name hname

end

end Script

/-- The characters that may stand in a name and end a line of a script are two separators. -/
theorem Lexer.isLineEnd_of_isNameChar {c : Char} (h : isNameChar c = true) :
    Script.isLineEnd c = true ↔ c = '\u2028' ∨ c = '\u2029' := by
  have hfeed : c ≠ '\n' := by
    rintro rfl
    exact absurd h (by decide)
  have hreturn : c ≠ '\r' := by
    rintro rfl
    exact absurd h (by decide)
  simp [Script.isLineEnd, hfeed, hreturn]

namespace Environment

open Script

variable {env : Environment} {source : Source} {document : Document} {name : String}

/-- The names of the blocks of a template are made of the characters of names. -/
theorem isNameChar_of_mem_outline (htags : .here ∉ env.tags.members)
    (h : env.parseSource source = .ok document) (hname : .block name ∈ document.outline) :
    ∀ c ∈ name.toList, Lexer.isNameChar c = true := by
  obtain ⟨stream, hstream, hbefore, hread⟩ := parseSource_eq_ok h
  have hnames : WellNamed stream.tokens := Lexer.wellNamed_of_tokenize (mapError_eq_ok.1 hstream)
  rw [Document.outline_eq_of_read htags hread] at hname
  obtain ⟨t, ht, hkind, rfl⟩ := exists_name_of_mem_outlineFrom hname
  rw [TokenStream.tokens_eq_ahead hbefore] at hnames
  exact hnames t ht hkind

/-- Every block that a template defines is marked in its script by two comments. Each of them ends
with its line exactly if there is no line separator and no paragraph separator in the name. -/
theorem oneLine_blockMarkers_iff (htags : .here ∉ env.tags.members)
    (h : env.parseSource source = .ok document) (hname : .block name ∈ document.outline) :
    (∀ options text, Script.ofDocument options document = .ok text → HasMarkers name text) ∧
    (OneLine (blockOpening name) ↔ '\u2028' ∉ name.toList ∧ '\u2029' ∉ name.toList) ∧
    (OneLine (blockEnding name) ↔ '\u2028' ∉ name.toList ∧ '\u2029' ∉ name.toList) := by
  have hends : (∀ c ∈ name.toList, isLineEnd c = false) ↔
      '\u2028' ∉ name.toList ∧ '\u2029' ∉ name.toList := by
    have hchars := isNameChar_of_mem_outline htags h hname
    constructor
    · intro hends
      constructor
      · intro hc
        exact absurd (hends _ hc) (by decide)
      · intro hc
        exact absurd (hends _ hc) (by decide)
    · rintro ⟨hline, hparagraph⟩ c hc
      rw [Bool.eq_false_iff]
      intro hend
      rcases (Lexer.isLineEnd_of_isNameChar (hchars c hc)).1 hend with rfl | rfl
      · exact hline hc
      · exact hparagraph hc
  refine ⟨fun options text htext => hasMarkers_of_ofDocument options htext hname, ?_, ?_⟩
  · rw [oneLine_blockOpening_iff, hends]
  · rw [oneLine_blockEnding_iff, hends]

/-- A name of letters beyond ASCII. -/
theorem oneLine_blockMarkers_iff_letters :
    ∃ (env : Environment) (document : Document), ofOptions {} = .ok env ∧
      .here ∉ env.tags.members ∧
      env.parseSource ⟨"page", "\x7b% block é %\x7dx\x7b% endblock é %\x7d"⟩ = .ok document ∧
      .block "é" ∈ document.outline ∧
      (∀ options text, Script.ofDocument options document = .ok text → HasMarkers "é" text) ∧
      OneLine (blockOpening "é") ∧ OneLine (blockEnding "é") := by
  obtain ⟨env, henv, htags⟩ : ∃ env, ofOptions {} = .ok env ∧ .here ∉ env.tags.members :=
    ⟨_, rfl, by decide⟩
  have hread : (ofOptions {} >>= fun env => env.parseSource
      ⟨"page", "\x7b% block é %\x7dx\x7b% endblock é %\x7d"⟩).map Document.outline =
      .ok [.block "é", .text 1 "x"] := by
    decide +kernel
  rw [henv, ok_bind] at hread
  obtain ⟨document, hdocument, houtline⟩ := map_eq_ok.1 hread
  have hname : .block "é" ∈ document.outline := by simp [houtline]
  obtain ⟨hmarkers, hopening, hending⟩ := oneLine_blockMarkers_iff htags hdocument hname
  have hplain : '\u2028' ∉ "é".toList ∧ '\u2029' ∉ "é".toList := by decide
  exact ⟨env, document, henv, htags, hdocument, hname, hmarkers, hopening.2 hplain,
    hending.2 hplain⟩

/-- With a line separator in the name both comments go on to a second line. -/
theorem not_oneLine_blockMarkers_separator :
    ∃ (env : Environment) (document : Document) (text : String), ofOptions {} = .ok env ∧
      env.parseSource ⟨"template", "\x7b% block a\u2028b %\x7dx\x7b% endblock %\x7d"⟩ =
        .ok document ∧
      .block "a\u2028b" ∈ document.outline ∧ env.compile document = .ok text ∧
      HasMarkers "a\u2028b" text ∧ ¬ OneLine (blockOpening "a\u2028b") ∧
      ¬ OneLine (blockEnding "a\u2028b") := by
  let source : Source := ⟨"template", "\x7b% block a\u2028b %\x7dx\x7b% endblock %\x7d"⟩
  obtain ⟨env, henv⟩ : ∃ env, ofOptions {} = .ok env := ⟨_, rfl⟩
  have hread : (ofOptions {} >>= fun env => env.parseSource source).map Document.outline =
      .ok [.block "a\u2028b", .text 1 "x"] := by
    decide +kernel
  have hcompiles : (ofOptions {} >>= fun env => env.compileSource source).isOk = true := by
    decide +kernel
  rw [henv, ok_bind] at hread hcompiles
  obtain ⟨document, hdocument, houtline⟩ := map_eq_ok.1 hread
  have hname : .block "a\u2028b" ∈ document.outline := by simp [houtline]
  have hsource : env.compileSource source = env.compile document := by
    rw [compileSource, hdocument, ok_bind]
  rw [hsource] at hcompiles
  cases htext : env.compile document with
  | error e => simp [htext, Except.isOk, Except.toBool] at hcompiles
  | ok text =>
    have hmarkers := hasMarkers_of_ofDocument env.scriptOptions (mapError_eq_ok.1 htext) hname
    have hends : ¬ ∀ c ∈ "a\u2028b".toList, isLineEnd c = false := by
      intro hends
      exact absurd (hends '\u2028' (by decide)) (by decide)
    refine ⟨env, document, text, henv, hdocument, hname, htext, hmarkers, ?_, ?_⟩
    · rw [oneLine_blockOpening_iff]
      exact hends
    · rw [oneLine_blockEnding_iff]
      exact hends

end Environment

end TemplateEngine
