import Mathlib.Data.List.Nodup
import TemplateEngine.Document.Parser
import TemplateEngine.Proofs.Document.Comments
import TemplateEngine.Proofs.Document.Printed
import TemplateEngine.Proofs.Expr.Reading

/-!
The round trip of documents. Main statement: the tokens of a document whose expressions are readable
and whose blocks have different names are read back as the document up to lines.
-/

namespace TemplateEngine.Document

open TokenReader

def ParserState.names (s : ParserState) : List String :=
  s.blocks.map Prod.fst

/-- The read succeeds with a result that has the given property, leaves these tokens ahead and comes
to these names of blocks. -/
def Yields {α : Type} (reader : Reader α) (s : ParserState) (P : α → Prop) (left : List Token)
    (names : List String) : Prop :=
  ∃ a t, P a ∧ t.stream.ahead = left ∧ t.names = names ∧ outcome reader s = .ok (a, t)

namespace Yields

variable {α β : Type} {P : α → Prop} {Q : β → Prop} {s : ParserState} {t : Token}
  {left rest : List Token} {names : List String}

theorem pure {a : α} (ha : P a) (hs : s.stream.ahead = left) (hnames : s.names = names) :
    Yields (Pure.pure a : Reader α) s P left names :=
  ⟨a, s, ha, hs, hnames, rfl⟩

theorem bind {f : Reader α} {g : α → Reader β} {middle : List Token} {known : List String}
    (hf : Yields f s P middle known)
    (hg : ∀ a t, P a → t.stream.ahead = middle → t.names = known → Yields (g a) t Q left names) :
    Yields (f >>= g) s Q left names := by
  obtain ⟨a, t, ha, ht, hknown, hfirst⟩ := hf
  obtain ⟨b, v, hb, hv, hnames, hsecond⟩ := hg a t ha ht hknown
  refine ⟨b, v, hb, hv, hnames, ?_⟩
  rw [outcome_bind, hfirst, ok_bind]
  exact hsecond

theorem mono {P' : α → Prop} {f : Reader α} (h : Yields f s P left names)
    (hP : ∀ a, P a → P' a) : Yields f s P' left names := by
  obtain ⟨a, t, ha, ht, hnames, hf⟩ := h
  exact ⟨a, t, hP a ha, ht, hnames, hf⟩

theorem lift {f : TokenReader α} (h : Takes f s.stream P left) (hnames : s.names = names) :
    Yields (Document.lift f) s P left names := by
  obtain ⟨a, t, ha, ht, hf⟩ := h
  exact ⟨a, { s with stream := t }, ha, ht, hnames, by rw [outcome_lift, hf]; rfl⟩

theorem ofCurrent {f : Token → Reader β} (hs : s.stream.ahead = t :: rest)
    (hf : Yields (f t) s Q left names) : Yields (Document.lift current >>= f) s Q left names := by
  have hcurrent : s.stream.current = t := (List.cons.inj hs).1
  unfold Yields
  simp only [outcome_bind, outcome_lift, outcome_current, Except.map, ok_bind, hcurrent]
  exact hf

theorem ofTest {kind : TokenKind} {value? : Option String} {f : Bool → Reader β}
    (hs : s.stream.ahead = t :: rest) (hf : Yields (f (t.test kind value?)) s Q left names) :
    Yields (Document.lift (test kind value?) >>= f) s Q left names := by
  have hcurrent : s.stream.current = t := (List.cons.inj hs).1
  unfold Yields
  simp only [outcome_bind, outcome_lift, outcome_test, Except.map, ok_bind, hcurrent]
  exact hf

end Yields

variable {s : ParserState} {t u : Token} {rest : List Token} {names : List String}

theorem yields_blockEnd (hs : s.stream.ahead = t :: u :: rest) (ht : t.kind = .blockEnd)
    (hnames : s.names = names) : Yields blockEnd s (fun _ => True) (u :: rest) names := by
  unfold blockEnd
  apply (Yields.lift (Takes.expect hs (by simp [ht])) hnames).bind
  intro _ v _ hv hnames
  exact .pure trivial hv hnames

theorem yields_closing {α : Type} {P : α → Prop} {a : α} (ha : P a)
    (hs : s.stream.ahead = t :: u :: rest) (ht : t.kind = .blockEnd) (hnames : s.names = names) :
    Yields (do blockEnd; return a) s P (u :: rest) names := by
  apply (yields_blockEnd hs ht hnames).bind
  intro _ v _ hv hnames
  exact .pure ha hv hnames

theorem yields_defineBlock {name : String} (hnames : s.names = names) (hname : name ∉ names)
    (line : Nat) :
    Yields (defineBlock name line) s (fun _ => True) s.stream.ahead (name :: names) := by
  have hnew : s.blocks.lookup name = none := by
    rw [List.lookup_eq_none_iff]
    intro block hblock
    rw [bne_iff_ne]
    rintro rfl
    exact hname (hnames ▸ List.mem_map_of_mem hblock)
  refine ⟨(), { s with blocks := (name, line) :: s.blocks }, trivial, rfl,
    congrArg (name :: ·) hnames, ?_⟩
  unfold defineBlock
  simp only [outcome_bind, outcome_get, ok_bind, hnew]
  rfl

section

variable {layout : Layout} {ts : List Token}

theorem endsExpr_blockEnd (ht : t.kind = .blockEnd) : Expr.EndsExpr t := by
  refine ⟨⟨⟨?_, ?_⟩, ?_, ?_, ?_⟩, ?_⟩ <;> simp [Expr.isMark, Expr.binaryOp?, ht]

theorem takes_expr {e : Expr} (h : e.Readable) (hts : ts.map Token.spelling = layout.expr e)
    {stream : TokenStream} (hs : stream.ahead = ts ++ t :: rest) (ht : Expr.EndsExpr t) :
    Takes Expr.read stream (·.unlined = e.unlined) (t :: rest) := by
  have hreads : Expr.ReadsWhole e (layout.lexemes e) := by
    unfold Layout.lexemes
    split
    · exact (Expr.reads_lexemes _ e h).whole (Expr.beginsOperand_lexemes _ e)
    · exact Expr.readsWhole_bareLexemes _ e h
  exact hreads.read hts hs ht

theorem yields_lastExpression {e : Expr} (h : e.Readable)
    (hts : ts.map Token.spelling = layout.expr e) (hs : s.stream.ahead = ts ++ t :: u :: rest)
    (ht : t.kind = .blockEnd) (hnames : s.names = names) :
    Yields lastExpression s (·.unlined = e.unlined) (u :: rest) names := by
  unfold lastExpression
  apply (Yields.lift (takes_expr h hts hs (endsExpr_blockEnd ht)) hnames).bind
  intro e' v he hv hnames
  exact yields_closing he hv ht hnames

theorem spelling_eq {kind : TokenKind} {value : String} (ht : t.spelling = (kind, value)) :
    t.kind = kind ∧ t.value = value :=
  Prod.mk.inj ht

theorem takes_expectName {stream : TokenStream} {name : String}
    (hs : stream.ahead = t :: u :: rest) (ht : t.spelling = (.name, name)) :
    Takes (expect .name none) stream (·.value = name) (u :: rest) := by
  obtain ⟨hkind, hvalue⟩ := spelling_eq ht
  apply (Takes.expect hs (by simp [hkind])).mono
  rintro _ rfl
  exact hvalue

theorem takes_readLoopNames {key : Option String} {target : String} {stream : TokenStream}
    (hts : ts.map Token.spelling = loopNames key target) (hs : stream.ahead = ts ++ u :: rest) :
    Takes readLoopNames stream (· = (key, target)) (u :: rest) := by
  have hin : ∀ (names : Option String × String) (stream : TokenStream) (t : Token),
      stream.ahead = t :: u :: rest → t.spelling = (.operator, "in") →
        Takes (do let _ ← expect .operator (some "in"); return names) stream (· = names)
          (u :: rest) := by
    intro names stream t hs ht
    obtain ⟨hkind, hvalue⟩ := spelling_eq ht
    apply (Takes.expect hs (by simp [hkind, hvalue])).bind
    intro _ v _ hv
    exact .pure rfl hv
  unfold readLoopNames
  cases key with
  | none =>
    obtain ⟨first, ts, rfl, hfirst, hts⟩ := List.map_eq_cons_iff.1 hts
    obtain ⟨word, ts, rfl, hword, hts⟩ := List.map_eq_cons_iff.1 hts
    obtain rfl := List.map_eq_nil_iff.1 hts
    obtain ⟨hkind, -⟩ := spelling_eq hword
    apply (takes_expectName hs hfirst).bind
    intro first v hfirst hv
    apply (Takes.nextIf_none hv (by simp [hkind])).bind
    rintro _ v rfl hv
    rw [← hfirst]
    exact hin _ v word hv hword
  | some key =>
    obtain ⟨first, ts, rfl, hfirst, hts⟩ := List.map_eq_cons_iff.1 hts
    obtain ⟨comma, ts, rfl, hcomma, hts⟩ := List.map_eq_cons_iff.1 hts
    obtain ⟨second, ts, rfl, hsecond, hts⟩ := List.map_eq_cons_iff.1 hts
    obtain ⟨word, ts, rfl, hword, hts⟩ := List.map_eq_cons_iff.1 hts
    obtain rfl := List.map_eq_nil_iff.1 hts
    obtain ⟨hkind, hvalue⟩ := spelling_eq hcomma
    apply (takes_expectName hs hfirst).bind
    intro first v hfirst hv
    apply (Takes.nextIf hv (by simp [hkind, hvalue])).bind
    rintro _ v rfl hv
    apply (takes_expectName hv hsecond).bind
    intro second v hsecond hv
    rw [← hfirst, ← hsecond]
    exact hin _ v word hv hword

theorem takes_blockEnd {stream : TokenStream} {node : Node} (hs : stream.ahead = t :: u :: rest)
    (ht : t.kind = .blockEnd) :
    Takes (do let _ ← expect .blockEnd none; return node) stream (· = node) (u :: rest) := by
  apply (Takes.expect hs (by simp [ht])).bind
  intro _ v _ hv
  exact .pure rfl hv

/-- A string is put behind itself as a text, which is then taken as that of the comment. -/
theorem takes_readComment_string {stream : TokenStream} {text : String} {closing : Token}
    (hs : stream.ahead = t :: closing :: u :: rest) (ht : t.spelling = (.string, text))
    (hclosing : closing.kind = .blockEnd) :
    Takes readComment stream (· = .comment t.line text true) (u :: rest) := by
  obtain ⟨hkind, hvalue⟩ := spelling_eq ht
  obtain ⟨hcurrent, hafter⟩ := List.cons.inj hs
  have hinjected : (stream.inject [⟨.text, t.value, t.line⟩]).ahead =
      t :: ⟨.text, t.value, t.line⟩ :: closing :: u :: rest := by
    simp [TokenStream.ahead, TokenStream.inject, hcurrent, hafter]
  unfold readComment
  apply Takes.ofCurrent hs
  simp only [hkind, beq_self_eq_true, if_true]
  apply Takes.ofModify
  apply (Takes.next hinjected).bind
  intro _ v _ hv
  apply (Takes.expect hv (by simp)).bind
  rintro _ v rfl hv
  rw [hvalue]
  exact takes_blockEnd hv hclosing

theorem takes_readComment_text {stream : TokenStream} {text : String} {closing : Token}
    (hs : stream.ahead = t :: closing :: u :: rest) (ht : t.spelling = (.text, text))
    (hclosing : closing.kind = .blockEnd) :
    Takes readComment stream (· = .comment t.line text false) (u :: rest) := by
  obtain ⟨hkind, hvalue⟩ := spelling_eq ht
  have hexposed : (t.kind == TokenKind.string) = false := by simp [hkind]
  unfold readComment
  apply Takes.ofCurrent hs
  simp only [hexposed, Bool.false_eq_true, if_false]
  apply (Takes.expect hs (by simp [hkind])).bind
  rintro _ v rfl hv
  rw [hvalue]
  exact takes_blockEnd hv hclosing

end

/-- What stands behind the nodes of a body, and where reading them stops: at the end of the
template, or at the name of one of the given tags. -/
inductive Stops (ends : List String) : List Token → List Token → Prop
  | eof {t : Token} {rest : List Token} (hends : ends = []) (ht : t.kind = .eof) :
      Stops ends (t :: rest) (t :: rest)
  | tag {opening name : Token} {rest : List Token} (hopening : opening.kind = .blockStart)
      (hname : name.kind = .name) (hmem : name.value ∈ ends) :
      Stops ends (opening :: name :: rest) (name :: rest)

theorem Stops.exists_cons {ends : List String} {left stop : List Token}
    (h : Stops ends left stop) : ∃ u rest, left = u :: rest := by
  cases h <;> exact ⟨_, _, rfl⟩

theorem Stops.length_le {ends : List String} {left stop : List Token} (h : Stops ends left stop) :
    stop.length ≤ left.length := by
  cases h <;> simp

variable {layout : Layout} {tags : TagSet}

/-- The tokens of a tag. -/
theorem exists_of_tag {word : String} {inside : List Spelling} {ts : List Token}
    (hts : ts.map Token.spelling = layout.tag word inside) :
    ∃ opening name us closing, ts = opening :: name :: (us ++ [closing]) ∧
      opening.kind = .blockStart ∧ name.spelling = (.name, word) ∧
        us.map Token.spelling = inside ∧ closing.kind = .blockEnd := by
  obtain ⟨ts, last, rfl, hts, hlast⟩ := List.map_eq_append_iff.1 hts
  obtain ⟨opening, ts, rfl, hopening, hts⟩ := List.map_eq_cons_iff.1 hts
  obtain ⟨name, us, rfl, hname, hus⟩ := List.map_eq_cons_iff.1 hts
  obtain ⟨closing, last, rfl, hclosing, hlast⟩ := List.map_eq_cons_iff.1 hlast
  obtain rfl := List.map_eq_nil_iff.1 hlast
  exact ⟨opening, name, us, closing, rfl, (spelling_eq hopening).1, hname, hus,
    (spelling_eq hclosing).1⟩

def NodesReads (layout : Layout) (tags : TagSet) (nodes : List Node) : Prop :=
  ∀ k ends enclosing s ts left stop names, ts.map Token.spelling = nodesSpelling layout nodes →
    s.stream.ahead = ts ++ left → s.names = names → Stops ends left stop →
      (∀ tag : Tag, tag.name ∉ ends) → ((blockNamesOfNodes nodes).reverse ++ names).Nodup →
        ts.length < k →
          Yields (readNodes tags k ends enclosing) s (unlinedNodes · = unlinedNodes nodes) stop
            ((blockNamesOfNodes nodes).reverse ++ names)

/-- Reading nodes of which the first one is `node` comes to reading the others behind it. -/
def NodeReads (layout : Layout) (tags : TagSet) (node : Node) : Prop :=
  ∀ k ends enclosing s ts u rest stop nodes names known,
    ts.map Token.spelling = node.spelling layout → s.stream.ahead = ts ++ u :: rest →
      s.names = names → (∀ tag : Tag, tag.name ∉ ends) →
        (node.blockNames.reverse ++ names).Nodup → ts.length ≤ k →
          (∀ t, t.stream.ahead = u :: rest → t.names = node.blockNames.reverse ++ names →
            Yields (readNodes tags k ends enclosing) t (unlinedNodes · = unlinedNodes nodes) stop
              known) →
          Yields (readNodes tags (k + 1) ends enclosing) s
            (unlinedNodes · = node.unlined :: unlinedNodes nodes) stop known

theorem nodesReads_nil : NodesReads layout tags [] := by
  intro k ends enclosing s ts left stop names hts hs hnames hstops _ _ hk
  obtain rfl := List.map_eq_nil_iff.1 hts
  obtain ⟨k, rfl⟩ : ∃ j, k = j + 1 := ⟨k - 1, by omega⟩
  rw [readNodes, Grammar.nodes]
  cases hstops with
  | eof hends ht =>
    apply Yields.ofCurrent hs
    simp only [ht, hends, List.isEmpty_nil, if_true]
    exact .pure rfl hs hnames
  | tag hopening hname hmem =>
    apply Yields.ofCurrent hs
    simp only [hopening]
    apply (Yields.lift (Takes.next hs) hnames).bind
    intro _ v _ hv hnames
    apply Yields.ofCurrent hv
    simp only [hname, ne_eq, not_true_eq_false, if_false, hmem, if_true]
    exact .pure rfl hv hnames

theorem spelling_ne_nil (layout : Layout) (node : Node) : node.spelling layout ≠ [] := by
  cases node with
  | comment _ _ exposed => cases exposed <;> simp [Node.spelling, Layout.tag, Layout.openTag,
      Layout.hiddenComment]
  | _ => simp [Node.spelling, Layout.tag, Layout.openTag]

theorem nodesReads_cons {node : Node} {nodes : List Node} (hnode : NodeReads layout tags node)
    (hnodes : NodesReads layout tags nodes) : NodesReads layout tags (node :: nodes) := by
  intro k ends enclosing s ts left stop names hts hs hnames hstops hends hnodup hk
  obtain ⟨us, vs, rfl, hus, hvs⟩ := List.map_eq_append_iff.1 hts
  have hlength : 0 < us.length := by
    rw [List.length_pos_iff]
    rintro rfl
    exact spelling_ne_nil layout node hus.symm
  rw [List.length_append] at hk
  obtain ⟨k, rfl⟩ : ∃ j, k = j + 1 := ⟨k - 1, by omega⟩
  obtain ⟨u, rest, hrest⟩ : ∃ u rest, vs ++ left = u :: rest := by
    obtain ⟨u, rest, rfl⟩ := hstops.exists_cons
    exact List.exists_cons_of_ne_nil (by simp)
  rw [blockNamesOfNodes, List.reverse_append, List.append_assoc] at hnodup ⊢
  apply hnode k ends enclosing s us u rest stop nodes names _ hus
    (by rw [hs, List.append_assoc, hrest]) hnames hends (List.nodup_append.1 hnodup).2.1 (by omega)
  intro t ht hnames
  exact hnodes k ends enclosing t vs left stop _ hvs (by rw [ht, hrest]) hnames hstops hends hnodup
    (by omega)

theorem nodeReads_text (line : Nat) (text : String) : NodeReads layout tags (.text line text) := by
  intro k ends enclosing s ts u rest stop nodes names known hts hs hnames _ _ _ hrest
  obtain ⟨t, ts, rfl, ht, hts⟩ := List.map_eq_cons_iff.1 hts
  obtain rfl := List.map_eq_nil_iff.1 hts
  obtain ⟨hkind, hvalue⟩ := spelling_eq ht
  rw [readNodes, Grammar.nodes]
  apply Yields.ofCurrent hs
  simp only [hkind]
  apply (Yields.lift (Takes.next hs) hnames).bind
  intro _ v _ hv hnames
  apply (hrest v hv hnames).bind
  intro others w hothers hw hknown
  refine .pure ?_ hw hknown
  rw [unlinedNodes, hothers, Node.unlined, Node.unlined, hvalue]

theorem nodeReads_print {e : Expr} (h : e.Readable) (line : Nat) :
    NodeReads layout tags (.print line e) := by
  intro k ends enclosing s ts u rest stop nodes names known hts hs hnames _ _ _ hrest
  obtain ⟨t, ts, rfl, ht, hts⟩ := List.map_eq_cons_iff.1 hts
  obtain ⟨inside, ts, rfl, hinside, hts⟩ := List.map_eq_append_iff.1 hts
  obtain ⟨closing, ts, rfl, hclosing, hts⟩ := List.map_eq_cons_iff.1 hts
  obtain rfl := List.map_eq_nil_iff.1 hts
  obtain ⟨v, more, hmore⟩ : ∃ v more, inside ++ closing :: u :: rest = v :: more :=
    List.exists_cons_of_ne_nil (by simp)
  have hs : s.stream.ahead = t :: v :: more := by rw [hs, ← hmore]; simp
  have hkind := (spelling_eq hclosing).1
  rw [readNodes, Grammar.nodes]
  apply Yields.ofCurrent hs
  simp only [(spelling_eq ht).1]
  apply (Yields.lift (Takes.next hs) hnames).bind
  intro _ v _ hv hnames
  rw [← hmore] at hv
  apply (Yields.lift (takes_expr h hinside hv (Expr.endsExpr_varEnd hkind)) hnames).bind
  intro e' w he hw hnames
  apply (Yields.lift (Takes.expect hw (by simp [hkind])) hnames).bind
  intro _ x _ hx hnames
  apply (hrest x hx hnames).bind
  intro others y hothers hy hknown
  refine .pure ?_ hy hknown
  rw [unlinedNodes, hothers, Node.unlined, Node.unlined, he]

def Knows (tags : TagSet) : Prop :=
  ∀ tag : Tag, tag ≠ .here → tags.find? tag.name = some tag

theorem knows_builtins : Knows (TagSet.builtins.insert .comment) := by
  intro tag htag
  cases tag with
  | here => exact absurd rfl htag
  | _ => rfl

/-- A node that is read as a tag. -/
theorem yields_tag {k : Nat} {ends : List String} {enclosing : Option String} {tag : Tag}
    {node : Node} {nodes : List Node} {opening word : Token} {more stop left : List Token}
    {known final : List String} (hfind : tags.find? tag.name = some tag)
    (hends : tag.name ∉ ends) (hs : s.stream.ahead = opening :: word :: u :: more)
    (hnames : s.names = names) (hopening : opening.kind = .blockStart)
    (hword : word.spelling = (.name, tag.name))
    (htag : ∀ t, t.stream.ahead = u :: more → t.names = names →
      Yields (readTag tags k tag word.line enclosing) t (·.unlined = node.unlined) left known)
    (hrest : ∀ t, t.stream.ahead = left → t.names = known →
      Yields (readNodes tags k ends enclosing) t (unlinedNodes · = unlinedNodes nodes) stop
        final) :
    Yields (readNodes tags (k + 1) ends enclosing) s
      (unlinedNodes · = node.unlined :: unlinedNodes nodes) stop final := by
  obtain ⟨hkind, hvalue⟩ := spelling_eq hword
  rw [readNodes, Grammar.nodes]
  apply Yields.ofCurrent hs
  simp only [hopening]
  apply (Yields.lift (Takes.next hs) hnames).bind
  intro _ v _ hv hnames
  apply Yields.ofCurrent hv
  simp only [hkind, hvalue, ne_eq, not_true_eq_false, if_false, hends, hfind]
  apply (Yields.lift (Takes.next hv) hnames).bind
  intro _ w _ hw hnames
  apply (htag w hw hnames).bind
  intro node' x hnode hx hknown
  apply (hrest x hx hknown).bind
  intro others y hothers hy hfinal
  refine .pure ?_ hy hfinal
  rw [unlinedNodes, hothers, hnode]

theorem nodeReads_comment (htags : Knows tags) (line : Nat) (text : String) (exposed : Bool) :
    NodeReads layout tags (.comment line text exposed) := by
  intro k ends enclosing s ts u rest stop nodes names known hts hs hnames hends _ hk hrest
  obtain ⟨opening, word, value, closing, rfl, hopening, hword, hvalue, hclosing⟩ :
      ∃ opening word value closing, ts = [opening, word, value, closing] ∧
        opening.kind = .blockStart ∧ word.spelling = (.name, Tag.comment.name) ∧
        value.spelling = (if exposed then .string else .text, text) ∧
        closing.kind = .blockEnd := by
    cases exposed <;>
    · obtain ⟨opening, ts, rfl, hopening, hts⟩ := List.map_eq_cons_iff.1 hts
      obtain ⟨word, ts, rfl, hword, hts⟩ := List.map_eq_cons_iff.1 hts
      obtain ⟨value, ts, rfl, hvalue, hts⟩ := List.map_eq_cons_iff.1 hts
      obtain ⟨closing, ts, rfl, hclosing, hts⟩ := List.map_eq_cons_iff.1 hts
      obtain rfl := List.map_eq_nil_iff.1 hts
      exact ⟨opening, word, value, closing, rfl, (spelling_eq hopening).1, hword, hvalue,
        (spelling_eq hclosing).1⟩
  apply yields_tag (htags .comment (by decide)) (hends .comment) hs hnames hopening hword ?_ hrest
  intro t ht hnames
  obtain ⟨k, rfl⟩ : ∃ j, k = j + 1 := ⟨k - 1, by simp at hk; omega⟩
  rw [readTag, Grammar.tag]
  refine Yields.lift ?_ hnames
  cases exposed with
  | true =>
    apply (takes_readComment_string ht hvalue hclosing).mono
    rintro _ rfl
    rfl
  | false =>
    apply (takes_readComment_text ht hvalue hclosing).mono
    rintro _ rfl
    rfl

def bodyEnds : List (List String) :=
  [["endblock"], ["else", "endfor"], ["endfor"], ["elseif", "else", "endif"], ["endif"]]

theorem name_not_mem {ends : List String} (h : ends ∈ bodyEnds) (tag : Tag) : tag.name ∉ ends := by
  have hall : ∀ tag ∈ Tag.all, ∀ ends ∈ bodyEnds, tag.name ∉ ends := by decide
  exact hall tag tag.mem_all ends h

theorem takes_readEndName {stream : TokenStream} (hs : stream.ahead = t :: rest)
    (ht : t.kind = .blockEnd) (name : String) :
    Takes (readEndName name) stream (fun _ => True) (t :: rest) := by
  unfold readEndName
  apply (Takes.nextIf_none hs (by simp [ht])).bind
  rintro _ v rfl hv
  exact .pure trivial hv

theorem nodeReads_block (htags : Knows tags) {body : List Node} (h : NodesReads layout tags body)
    (line : Nat) (name : String) : NodeReads layout tags (.block line name body) := by
  intro k ends enclosing s ts u rest stop nodes names known hts hs hnames hends hnodup hk hrest
  obtain ⟨ts, us, rfl, hts, hus⟩ := List.map_eq_append_iff.1 hts
  obtain ⟨opening, word, ts, closing, rfl, hopening, hword, hts, hclosing⟩ := exists_of_tag hts
  obtain ⟨blockName, ts, rfl, hname, hts⟩ := List.map_eq_cons_iff.1 hts
  obtain rfl := List.map_eq_nil_iff.1 hts
  obtain ⟨inside, vs, rfl, hinside, hvs⟩ := List.map_eq_append_iff.1 hus
  obtain ⟨start, ending, vs, last, rfl, hstart, hending, hvs, hlast⟩ := exists_of_tag hvs
  obtain rfl := List.map_eq_nil_iff.1 hvs
  obtain ⟨v, more, hmore⟩ : ∃ v more, inside ++ start :: ending :: last :: u :: rest = v :: more :=
    List.exists_cons_of_ne_nil (by simp)
  have hs : s.stream.ahead = opening :: word :: blockName :: closing :: v :: more := by
    rw [hs, ← hmore]
    simp
  simp only [List.length_append, List.length_cons, List.length_nil] at hk
  apply yields_tag (htags .block (by decide)) (hends .block) hs hnames hopening hword ?_ hrest
  intro t ht hnames
  obtain ⟨k, rfl⟩ : ∃ j, k = j + 1 := ⟨k - 1, by omega⟩
  simp only [Node.blockNames, List.reverse_cons, List.append_assoc, List.singleton_append]
    at hnodup ⊢
  have hnew : name ∉ names := (List.nodup_cons.1 (List.nodup_append.1 hnodup).2.1).1
  obtain ⟨hkind, hvalue⟩ := spelling_eq hending
  have hstops : Stops ["endblock"] (start :: ending :: last :: u :: rest)
      (ending :: last :: u :: rest) := .tag hstart hkind (by simp [hvalue])
  rw [readTag, Grammar.tag]
  apply (Yields.lift (takes_expectName ht hname) hnames).bind
  rintro blockName w rfl hw hnames
  apply (yields_defineBlock hnames hnew word.line).bind
  intro _ x _ hx hnames
  rw [hw] at hx
  apply Yields.ofTest hx
  simp only [Token.test_none, hclosing, beq_self_eq_true, if_true]
  apply (yields_blockEnd hx hclosing hnames).bind
  intro _ x _ hx hnames
  rw [← hmore] at hx
  apply (h k _ _ x inside _ _ _ hinside hx hnames hstops (name_not_mem (by decide)) hnodup
    (by omega)).bind
  intro body' x hbody hx hnames
  apply (Yields.lift (Takes.next hx) hnames).bind
  intro _ x _ hx hnames
  apply (Yields.lift (takes_readEndName hx hlast _) hnames).bind
  intro _ x _ hx hnames
  rw [pure_bind]
  exact yields_closing (by rw [Node.unlined, Node.unlined, hbody]) hx hlast hnames

def BodyReads (layout : Layout) (tags : TagSet) : Option (List Node) → Prop
  | none => True
  | some body => NodesReads layout tags body

/-- Where the nodes in front of the last body stop: behind the delimiter of `else` or, if there is
no last body, behind that of the end. -/
inductive LastBody (layout : Layout) (start ending : Token) (left : List Token) :
    Option (List Node) → List Token → Prop
  | none : LastBody layout start ending left none (ending :: left)
  | some {body : List Node} {word closing : Token} {inside : List Token}
      (hword : word.value = "else") (hclosing : closing.kind = .blockEnd)
      (hinside : inside.map Token.spelling = nodesSpelling layout body) :
      LastBody layout start ending left (some body)
        (word :: closing :: (inside ++ start :: ending :: left))

theorem exists_lastBody (ends : List String) (left : List Token) {word : String}
    {otherwise : Option (List Node)} {ts : List Token} {start ending : Token}
    (hts : ts.map Token.spelling = otherwiseSpelling layout otherwise)
    (hstart : start.kind = .blockStart) (hending : ending.spelling = (.name, word))
    (helse : "else" ∈ ends) (hword : word ∈ ends) :
    ∃ stop, Stops ends (ts ++ start :: ending :: left) stop ∧
      LastBody layout start ending left otherwise stop := by
  cases otherwise with
  | none =>
    obtain rfl := List.map_eq_nil_iff.1 hts
    obtain ⟨hkind, hvalue⟩ := spelling_eq hending
    exact ⟨_, .tag hstart hkind (by rw [hvalue]; exact hword), .none⟩
  | some body =>
    obtain ⟨ts, inside, rfl, hts, hinside⟩ := List.map_eq_append_iff.1 hts
    obtain ⟨opening, word, us, closing, rfl, hopening, hword, hus, hclosing⟩ := exists_of_tag hts
    obtain rfl := List.map_eq_nil_iff.1 hus
    obtain ⟨hkind, hvalue⟩ := spelling_eq hword
    refine ⟨word :: closing :: (inside ++ start :: ending :: left), ?_,
      .some hvalue hclosing hinside⟩
    have htag : Stops ends (opening :: word :: closing :: (inside ++ start :: ending :: left)) _ :=
      .tag hopening hkind (by rw [hvalue]; exact helse)
    simpa using htag

/-- Reading the last body of a loop and going on. -/
theorem yields_loopElse {β : Type} {f : Option (List Node) → Reader β} {Q : β → Prop}
    {otherwise : Option (List Node)} {start ending : Token} {stop left : List Token}
    {known : List String} {k : ℕ} {enclosing : Option String}
    (hstop : LastBody layout start ending (u :: rest) otherwise stop)
    (h : BodyReads layout tags otherwise) (hs : s.stream.ahead = stop)
    (hending : ending.spelling = (.name, "endfor")) (hstart : start.kind = .blockStart)
    (hnames : s.names = names) (hnodup : ((blockNamesOfBody otherwise).reverse ++ names).Nodup)
    (hk : stop.length ≤ k + (u :: rest).length)
    (hf : ∀ otherwise' t, unlinedBody otherwise' = unlinedBody otherwise →
      t.stream.ahead = u :: rest → t.names = (blockNamesOfBody otherwise).reverse ++ names →
        Yields (f otherwise') t Q left known) :
    Yields (do
      let ending ← lift next
      if ending.value = "else" then
        blockEnd
        let body ← readNodes tags k ["endfor"] enclosing
        let _ ← lift next
        f (some body)
      else f none) s Q left known := by
  obtain ⟨hkind, hvalue⟩ := spelling_eq hending
  cases hstop with
  | none =>
    apply (Yields.lift (Takes.next hs) hnames).bind
    rintro _ v rfl hv hnames
    simp only [hvalue, String.reduceEq, if_false]
    exact hf none v rfl hv hnames
  | @some body word closing inside hword hclosing hinside =>
    simp only [List.length_append, List.length_cons] at hk
    obtain ⟨v, more, hmore⟩ : ∃ v more, inside ++ start :: ending :: u :: rest = v :: more :=
      List.exists_cons_of_ne_nil (by simp)
    rw [hmore] at hs
    apply (Yields.lift (Takes.next hs) hnames).bind
    rintro _ v rfl hv hnames
    simp only [hword, if_true]
    apply (yields_blockEnd hv hclosing hnames).bind
    intro _ v _ hv hnames
    rw [← hmore] at hv
    apply (h k _ _ v inside _ _ _ hinside hv hnames (.tag hstart hkind (by simp [hvalue]))
      (name_not_mem (by decide)) hnodup (by omega)).bind
    intro body' v hbody hv hnames
    apply (Yields.lift (Takes.next hv) hnames).bind
    intro _ v _ hv hnames
    exact hf (some body') v (by rw [unlinedBody, unlinedBody, hbody]) hv hnames

theorem nodeReads_loop (htags : Knows tags) {iterable : Expr} {body : List Node}
    {otherwise : Option (List Node)} (he : iterable.Readable) (h : NodesReads layout tags body)
    (hotherwise : BodyReads layout tags otherwise) (line : Nat) (key : Option String)
    (target : String) :
    NodeReads layout tags (.loop line key target iterable body otherwise) := by
  intro k ends enclosing s ts u rest stop nodes names known hts hs hnames hends hnodup hk hrest
  obtain ⟨ts, us, rfl, hts, hus⟩ := List.map_eq_append_iff.1 hts
  obtain ⟨opening, word, ts, closing, rfl, hopening, hword, hts, hclosing⟩ := exists_of_tag hts
  obtain ⟨loopNames, subject, rfl, hloop, hsubject⟩ := List.map_eq_append_iff.1 hts
  obtain ⟨inside, vs, rfl, hinside, hvs⟩ := List.map_eq_append_iff.1 hus
  obtain ⟨last, ws, rfl, hlast, hws⟩ := List.map_eq_append_iff.1 hvs
  obtain ⟨start, ending, ws, final, rfl, hstart, hending, hws, hfinal⟩ := exists_of_tag hws
  obtain rfl := List.map_eq_nil_iff.1 hws
  obtain ⟨middle, hstops, hmiddle⟩ := exists_lastBody ["else", "endfor"] (final :: u :: rest) hlast
    hstart hending (by decide) (by decide)
  obtain ⟨v, behind, hbehind⟩ : ∃ v behind,
      inside ++ (last ++ start :: ending :: final :: u :: rest) = v :: behind :=
    List.exists_cons_of_ne_nil (by simp)
  obtain ⟨w, more, hmore⟩ : ∃ w more,
      loopNames ++ (subject ++ closing :: v :: behind) = w :: more :=
    List.exists_cons_of_ne_nil (by simp)
  have hs : s.stream.ahead = opening :: word :: w :: more := by
    rw [hs, ← hmore, ← hbehind]
    simp
  simp only [List.length_append, List.length_cons, List.length_nil] at hk
  apply yields_tag (htags .loop (by decide)) (hends .loop) hs hnames hopening hword ?_ hrest
  intro t ht hnames
  simp only [Node.blockNames, List.reverse_append, List.append_assoc] at hnodup ⊢
  obtain ⟨k, rfl⟩ : ∃ j, k = j + 1 := ⟨k - 1, by omega⟩
  rw [readTag, Grammar.tag]
  rw [← hmore] at ht
  obtain ⟨x, after, hafter⟩ : ∃ x after, subject ++ closing :: v :: behind = x :: after :=
    List.exists_cons_of_ne_nil (by simp)
  rw [hafter] at ht
  apply (Yields.lift (takes_readLoopNames hloop ht) hnames).bind
  rintro _ x rfl hx hnames
  rw [← hafter] at hx
  apply (yields_lastExpression he hsubject hx hclosing hnames).bind
  intro iterable' x hiterable hx hnames
  rw [← hbehind] at hx
  apply (h k _ _ x inside _ _ _ hinside (by rw [hx]) hnames hstops (name_not_mem (by decide))
    (List.nodup_append.1 hnodup).2.1 (by omega)).bind
  intro body' x hbody hx hnames
  simp only [pure_bind]
  have hshorter := hstops.length_le
  simp only [List.length_append, List.length_cons] at hshorter
  apply yields_loopElse
    (f := fun last => (do
      blockEnd
      return .loop word.line key target iterable' body' last : Reader Node))
    hmiddle hotherwise hx hending hstart hnames hnodup
    (by simp only [List.length_cons]; omega)
  intro last' x hlast' hx hnames
  refine yields_closing ?_ hx hfinal hnames
  rw [Node.unlined, Node.unlined, hiterable, hbody, hlast']

/-- Reading the branches of a choice behind the first one, and its last body. The body in front of
them stops where they begin. -/
def BranchesReads (layout : Layout) (tags : TagSet) (otherwise : Option (List Node))
    (branches : List Branch) : Prop :=
  ∀ ts start ending u rest,
    ts.map Token.spelling =
      branchesSpelling layout "elseif" branches ++ otherwiseSpelling layout otherwise →
    start.kind = .blockStart → ending.spelling = (.name, "endif") →
      ∃ stop, Stops ["elseif", "else", "endif"] (ts ++ start :: ending :: u :: rest) stop ∧
        ∀ k line enclosing s names, s.stream.ahead = stop → s.names = names →
          ((blockNamesOfBody otherwise).reverse ++
            ((blockNamesOfBranches branches).reverse ++ names)).Nodup → ts.length < k →
            Yields (readBranches tags k line none enclosing) s
              (fun result => unlinedBranches result.1 = unlinedBranches branches ∧
                unlinedBody result.2 = unlinedBody otherwise) (u :: rest)
              ((blockNamesOfBody otherwise).reverse ++
                ((blockNamesOfBranches branches).reverse ++ names))

/-- The end of a choice is the end of reading its branches. -/
theorem yields_endif {k line : ℕ} {enclosing : Option String} {otherwise : Option (List Node)}
    (hs : s.stream.ahead = t :: u :: rest) (ht : t.spelling = (.name, "endif"))
    (hnames : s.names = names) :
    Yields (readBranches tags (k + 1) line otherwise enclosing) s (· = ([], otherwise)) (u :: rest)
      names := by
  obtain ⟨-, hvalue⟩ := spelling_eq ht
  rw [readBranches, Grammar.branches]
  apply (Yields.lift (Takes.next hs) hnames).bind
  rintro _ v rfl hv hnames
  simp only [hvalue, String.reduceEq, if_false, if_true]
  exact .pure rfl hv hnames

theorem branchesReads_nil {otherwise : Option (List Node)} (h : BodyReads layout tags otherwise) :
    BranchesReads layout tags otherwise [] := by
  intro ts start ending u rest hts hstart hending
  obtain ⟨stop, hstops, hlast⟩ := exists_lastBody ["elseif", "else", "endif"] (u :: rest) hts
    hstart hending (by decide) (by decide)
  refine ⟨stop, hstops, ?_⟩
  intro k line enclosing s names hs hnames hnodup hk
  simp only [blockNamesOfBranches, List.reverse_nil, List.nil_append] at hnodup ⊢
  obtain ⟨k, rfl⟩ : ∃ j, k = j + 1 := ⟨k - 1, by omega⟩
  have hshorter := hstops.length_le
  obtain ⟨hkind, hvalue⟩ := spelling_eq hending
  cases hlast with
  | none =>
    apply (yields_endif hs hending hnames).mono
    rintro _ rfl
    exact ⟨rfl, rfl⟩
  | @some body word closing inside hword hclosing hinside =>
    simp only [List.length_append, List.length_cons] at hshorter
    obtain ⟨v, more, hmore⟩ : ∃ v more, inside ++ start :: ending :: u :: rest = v :: more :=
      List.exists_cons_of_ne_nil (by simp)
    rw [hmore] at hs
    rw [readBranches, Grammar.branches]
    apply (Yields.lift (Takes.next hs) hnames).bind
    rintro _ v rfl hv hnames
    simp only [hword, if_true]
    apply (yields_blockEnd hv hclosing hnames).bind
    intro _ v _ hv hnames
    rw [← hmore] at hv
    apply (h k _ _ v inside _ _ _ hinside hv hnames (.tag hstart hkind (by simp [hvalue]))
      (name_not_mem (by decide)) hnodup (by omega)).bind
    intro body' v hbody hv hnames
    obtain ⟨k, rfl⟩ : ∃ j, k = j + 1 := ⟨k - 1, by omega⟩
    apply (yields_endif hv hending hnames).mono
    rintro _ rfl
    exact ⟨rfl, by rw [unlinedBody, unlinedBody, hbody]⟩

theorem branchesReads_cons {condition : Expr} {body : List Node} {branches : List Branch}
    {otherwise : Option (List Node)} (hcondition : condition.Readable)
    (h : NodesReads layout tags body) (hbranches : BranchesReads layout tags otherwise branches) :
    BranchesReads layout tags otherwise (.mk condition body :: branches) := by
  intro ts start ending u rest hts hstart hending
  rw [branchesSpelling, List.append_assoc, List.append_assoc] at hts
  obtain ⟨ts, us, rfl, hts, hus⟩ := List.map_eq_append_iff.1 hts
  obtain ⟨opening, word, tested, closing, rfl, hopening, hword, htested, hclosing⟩ :=
    exists_of_tag hts
  obtain ⟨inside, vs, rfl, hinside, hvs⟩ := List.map_eq_append_iff.1 hus
  obtain ⟨stop, hstops, hreads⟩ := hbranches vs start ending u rest hvs hstart hending
  obtain ⟨v, behind, hbehind⟩ : ∃ v behind,
      inside ++ (vs ++ start :: ending :: u :: rest) = v :: behind :=
    List.exists_cons_of_ne_nil (by simp)
  obtain ⟨w, more, hmore⟩ : ∃ w more, tested ++ closing :: v :: behind = w :: more :=
    List.exists_cons_of_ne_nil (by simp)
  obtain ⟨hkind, hvalue⟩ := spelling_eq hword
  refine ⟨word :: w :: more, ?_, ?_⟩
  · rw [← hmore, ← hbehind]
    rw [List.cons_append, List.cons_append]
    have htag : Stops ["elseif", "else", "endif"]
        (opening :: word :: (tested ++ closing :: (inside ++ (vs ++ start :: ending :: u :: rest))))
        _ := .tag hopening hkind (by simp [hvalue])
    simpa using htag
  intro k line enclosing s names hs hnames hnodup hk
  simp only [List.length_append, List.length_cons, List.length_nil] at hk
  simp only [blockNamesOfBranches, List.reverse_append, List.append_assoc] at hnodup ⊢
  obtain ⟨k, rfl⟩ : ∃ j, k = j + 1 := ⟨k - 1, by omega⟩
  rw [readBranches, Grammar.branches]
  apply (Yields.lift (Takes.next hs) hnames).bind
  rintro _ x rfl hx hnames
  simp only [hvalue, String.reduceEq, if_false, if_true]
  rw [← hmore] at hx
  apply (yields_lastExpression hcondition htested hx hclosing hnames).bind
  intro condition' x hcondition' hx hnames
  rw [← hbehind] at hx
  apply (h k _ _ x inside _ _ _ hinside hx hnames hstops (name_not_mem (by decide))
    (List.nodup_append.1 (List.nodup_append.1 hnodup).2.1).2.1 (by omega)).bind
  intro body' x hbody hx hnames
  apply (hreads k line enclosing x _ hx hnames hnodup (by omega)).bind
  rintro ⟨branches', otherwise'⟩ x ⟨hbranches', hotherwise'⟩ hx hnames
  refine .pure ⟨?_, hotherwise'⟩ hx hnames
  rw [unlinedBranches, unlinedBranches, hcondition', hbody, hbranches']

theorem nodeReads_choice (htags : Knows tags) {condition : Expr} {body : List Node}
    {branches : List Branch} {otherwise : Option (List Node)} (hcondition : condition.Readable)
    (h : NodesReads layout tags body) (hbranches : BranchesReads layout tags otherwise branches)
    (line : Nat) :
    NodeReads layout tags (.choice line (.mk condition body :: branches) otherwise) := by
  intro k ends enclosing s ts u rest stop nodes names known hts hs hnames hends hnodup hk hrest
  rw [Node.spelling, branchesSpelling, List.append_assoc, List.append_assoc] at hts
  obtain ⟨ts, us, rfl, hts, hus⟩ := List.map_eq_append_iff.1 hts
  obtain ⟨opening, word, tested, closing, rfl, hopening, hword, htested, hclosing⟩ :=
    exists_of_tag hts
  obtain ⟨inside, vs, rfl, hinside, hvs⟩ := List.map_eq_append_iff.1 hus
  rw [← List.append_assoc] at hvs
  obtain ⟨last, ws, rfl, hlast, hws⟩ := List.map_eq_append_iff.1 hvs
  obtain ⟨start, ending, ws, final, rfl, hstart, hending, hws, hfinal⟩ := exists_of_tag hws
  obtain rfl := List.map_eq_nil_iff.1 hws
  obtain ⟨middle, hstops, hreads⟩ := hbranches last start ending final (u :: rest) hlast hstart
    hending
  obtain ⟨v, behind, hbehind⟩ : ∃ v behind,
      inside ++ (last ++ start :: ending :: final :: u :: rest) = v :: behind :=
    List.exists_cons_of_ne_nil (by simp)
  obtain ⟨w, more, hmore⟩ : ∃ w more, tested ++ closing :: v :: behind = w :: more :=
    List.exists_cons_of_ne_nil (by simp)
  have hs : s.stream.ahead = opening :: word :: w :: more := by
    rw [hs, ← hmore, ← hbehind]
    simp
  simp only [List.length_append, List.length_cons, List.length_nil] at hk
  apply yields_tag (htags .choice (by decide)) (hends .choice) hs hnames hopening hword ?_ hrest
  intro t ht hnames
  simp only [Node.blockNames, blockNamesOfBranches, List.reverse_append, List.append_assoc]
    at hnodup ⊢
  obtain ⟨k, rfl⟩ : ∃ j, k = j + 1 := ⟨k - 1, by omega⟩
  rw [readTag, Grammar.tag]
  rw [← hmore] at ht
  apply (yields_lastExpression hcondition htested ht hclosing hnames).bind
  intro condition' x hcondition' hx hnames
  rw [← hbehind] at hx
  apply (h k _ _ x inside _ _ _ hinside hx hnames hstops (name_not_mem (by decide))
    (List.nodup_append.1 (List.nodup_append.1 hnodup).2.1).2.1 (by omega)).bind
  intro body' x hbody hx hnames
  apply (hreads k word.line enclosing x _ hx hnames hnodup (by omega)).bind
  rintro ⟨branches', otherwise'⟩ x ⟨hbranches', hotherwise'⟩ hx hnames
  refine yields_closing ?_ hx hfinal hnames
  rw [Node.unlined, Node.unlined, unlinedBranches, unlinedBranches, hcondition', hbody, hbranches',
    hotherwise']

mutual

/-- Reading a readable node from its tokens. -/
theorem nodeReads (htags : Knows tags) : ∀ node : Node, node.Readable → NodeReads layout tags node
  | .text line text, _ => nodeReads_text line text
  | .print line _, h => nodeReads_print h line
  | .choice _ [] _, h => absurd rfl h.1
  | .choice line (.mk _ body :: branches) otherwise, ⟨_, ⟨hcondition, hbody, hbranches⟩, hlast⟩ =>
    nodeReads_choice htags hcondition (nodesReads htags body hbody)
      (branchesReads htags (bodyReads htags otherwise hlast) branches hbranches) line
  | .loop line key target _ body otherwise, ⟨hiterable, hbody, hlast⟩ =>
    nodeReads_loop htags hiterable (nodesReads htags body hbody) (bodyReads htags otherwise hlast)
      line key target
  | .block line name body, h => nodeReads_block htags (nodesReads htags body h) line name
  | .comment line text exposed, _ => nodeReads_comment htags line text exposed

theorem nodesReads (htags : Knows tags) :
    ∀ nodes : List Node, ReadableNodes nodes → NodesReads layout tags nodes
  | [], _ => nodesReads_nil
  | node :: nodes, ⟨hnode, hnodes⟩ =>
    nodesReads_cons (nodeReads htags node hnode) (nodesReads htags nodes hnodes)

theorem branchesReads (htags : Knows tags) {otherwise : Option (List Node)}
    (hlast : BodyReads layout tags otherwise) :
    ∀ branches : List Branch, ReadableBranches branches →
      BranchesReads layout tags otherwise branches
  | [], _ => branchesReads_nil hlast
  | .mk _ body :: branches, ⟨hcondition, hbody, hbranches⟩ =>
    branchesReads_cons hcondition (nodesReads htags body hbody)
      (branchesReads htags hlast branches hbranches)

theorem bodyReads (htags : Knows tags) :
    ∀ otherwise : Option (List Node), ReadableBody otherwise → BodyReads layout tags otherwise
  | none, _ => trivial
  | some body, h => nodesReads htags body h

end

theorem getLast?_tag (layout : Layout) (word : String) (inside ts : List Spelling) :
    (ts ++ layout.tag word inside).getLast? = some (.blockEnd, layout.options.block.2) := by
  rw [Layout.tag, ← List.append_assoc, List.getLast?_concat]

/-- The tokens of a node do not end with an end token. -/
theorem exists_getLast?_spelling (layout : Layout) (node : Node) :
    ∃ last, (node.spelling layout).getLast? = some last ∧ last.1 ≠ .eof := by
  cases node with
  | text _ text => exact ⟨(.text, text), rfl, by simp⟩
  | print _ e =>
    refine ⟨(.varEnd, layout.options.print.2), ?_, by simp⟩
    rw [Node.spelling, ← List.cons_append, List.getLast?_concat]
  | choice _ branches otherwise =>
    rw [Node.spelling, ← List.append_assoc]
    exact ⟨_, getLast?_tag .., by simp⟩
  | loop _ key target e body otherwise =>
    rw [Node.spelling, ← List.append_assoc, ← List.append_assoc]
    exact ⟨_, getLast?_tag .., by simp⟩
  | block _ name body =>
    rw [Node.spelling, ← List.append_assoc]
    exact ⟨_, getLast?_tag .., by simp⟩
  | comment _ text exposed =>
    cases exposed with
    | true => exact ⟨_, getLast?_tag layout "comment" [(.string, text)] [], by simp⟩
    | false => exact ⟨(.blockEnd, layout.options.comment.2), rfl, by simp⟩

theorem getLast?_nodesSpelling (layout : Layout) (nodes : List Node) :
    ∀ last ∈ (nodesSpelling layout nodes).getLast?, last.1 ≠ .eof := by
  induction nodes with
  | nil => simp [nodesSpelling]
  | cons node nodes ih =>
    intro last hlast
    obtain ⟨ending, hending, hkind⟩ := exists_getLast?_spelling layout node
    rw [nodesSpelling, List.getLast?_append, hending] at hlast
    cases hnodes : (nodesSpelling layout nodes).getLast? with
    | none =>
      rw [hnodes] at hlast
      obtain rfl := Option.some.inj hlast
      exact hkind
    | some later =>
      rw [hnodes] at hlast
      obtain rfl := Option.some.inj hlast
      exact ih later hnodes

/-- The tokens of a document are closed by one end token. -/
theorem exists_closeList {document : Document} {ts ending : List Token}
    (hts : ts.map Token.spelling = document.spelling layout)
    (hending : ending = [] ∨ ∃ eof, eof.kind = .eof ∧ ending = [eof]) :
    ∃ eof : Token, eof.kind = .eof ∧ TokenStream.closeList (ts ++ ending) = ts ++ [eof] := by
  rcases hending with rfl | ⟨eof, heof, rfl⟩
  · rw [List.append_nil]
    unfold TokenStream.closeList
    cases hlast : ts.getLast? with
    | none =>
      obtain rfl := List.getLast?_eq_none_iff.1 hlast
      exact ⟨⟨.eof, "", 1⟩, rfl, rfl⟩
    | some last =>
      have hkind : last.kind ≠ .eof := by
        refine getLast?_nodesSpelling layout document.nodes last.spelling ?_
        rw [← Document.spelling, ← hts, List.getLast?_map, hlast]
        rfl
      have hopen : last.isEof = false := by simpa [Token.isEof] using hkind
      exact ⟨⟨.eof, "", last.line⟩, rfl, by simp [hopen]⟩
  · exact ⟨eof, heof, TokenStream.closeList_append_eof ts heof⟩

/-- A readable document is read back from its tokens up to lines, whatever the lines of the tokens
are, and with or without an end token behind them. -/
theorem read_spelling (layout : Layout) {document : Document} (h : document.Readable)
    {ts ending : List Token} (hts : ts.map Token.spelling = document.spelling layout)
    (hending : ending = [] ∨ ∃ eof, eof.kind = .eof ∧ ending = [eof]) :
    ∃ document', read (TagSet.builtins.insert .comment) (.ofTokens (ts ++ ending) document.name) =
        .ok document' ∧ document'.unlined = document.unlined := by
  obtain ⟨eof, heof, hclosed⟩ := exists_closeList hts hending
  have hahead : (TokenStream.ofTokens (ts ++ ending) document.name).ahead = ts ++ [eof] := by
    rw [TokenStream.ahead_ofTokens, hclosed]
  have hsource := TokenStream.source_ofTokens (ts ++ ending) document.name
  generalize TokenStream.ofTokens (ts ++ ending) document.name = stream at hahead hsource ⊢
  have hlength : ts.length = stream.after.length := by
    have := congrArg List.length hahead
    simpa [TokenStream.ahead] using this.symm
  obtain ⟨nodes, s, hnodes, -, -, hread⟩ :=
    nodesReads knows_builtins document.nodes h.nodes (stepLimit stream.after.length) [] none
      ⟨stream, []⟩ ts [eof] [eof] [] hts hahead rfl (.eof rfl heof) (by simp)
      (by rw [List.append_nil]; exact List.nodup_reverse.2 h.blocks)
      (by rw [hlength]; unfold stepLimit; omega)
  refine ⟨⟨document.name, nodes⟩, ?_, ?_⟩
  · rw [read_eq_map, hread, hsource]
    rfl
  · unfold Document.unlined
    rw [hnodes]

/-- A loop around a choice, with a block and both kinds of comments. -/
def nested : Document where
  name := "page"
  nodes :=
    [.text 1 "a",
      .loop 1 (some "key") "item" (.name 1 "items")
        [.choice 2
          [.mk (.binary 2 .lt (.name 2 "item") (.number 2 (Decimal.ofInteger 7)))
              [.print 3 (.unary 3 .neg (.name 3 "item"))],
            .mk (.name 4 "key") []]
          (some [.block 5 "rest" [.comment 6 "b" true]])]
        (some [.comment 7 "c" false])]

def nestedTokens : List Token :=
  (nested.spelling ⟨{}, fun _ => false⟩).map fun s => ⟨s.1, s.2, 1⟩

theorem readable_nested : nested.Readable where
  nodes := by
    have hseven : ∃ n : Nat, n < 2 ^ 53 ∧ Decimal.ofInteger 7 = Decimal.ofInteger n :=
      ⟨7, by decide, rfl⟩
    refine ⟨trivial, ⟨?_, ⟨⟨by simp, ⟨⟨?_, hseven⟩, ⟨?_, trivial⟩, ?_, trivial, trivial⟩,
      ⟨trivial, trivial⟩, trivial⟩, trivial⟩, trivial, trivial⟩, trivial⟩
    all_goals
      show _ ∉ Expr.literalWords
      decide
  blocks := by decide

theorem read_nestedTokens :
    nested.Readable ∧ nestedTokens.map Token.spelling = nested.spelling ⟨{}, fun _ => false⟩ ∧
      ∃ document', read (TagSet.builtins.insert .comment) (.ofTokens nestedTokens nested.name) =
        .ok document' ∧ document'.unlined = nested.unlined := by
  have hts : nestedTokens.map Token.spelling = nested.spelling ⟨{}, fun _ => false⟩ := by
    unfold nestedTokens
    rw [List.map_map]
    exact List.map_id _
  refine ⟨readable_nested, hts, ?_⟩
  have hending : ([] : List Token) = [] ∨ ∃ eof : Token, eof.kind = .eof ∧ [] = [eof] := .inl rfl
  have h := read_spelling ⟨{}, fun _ => false⟩ readable_nested hts hending
  rwa [List.append_nil] at h

end TemplateEngine.Document
