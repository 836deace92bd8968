import TemplateEngine.Environment
import TemplateEngine.Proofs.Document.RoundTrip
import TemplateEngine.Proofs.Lexer.Verbatim

/-!
Rendering verbatim blocks. Main statement: whatever the context, a template of a verbatim block and
a text behind it is rendered as the text of the block, trimmed as the mark of its end says, and the
text behind it.
-/

namespace TemplateEngine

namespace Document

/-- Text tokens are read as texts, one for each. -/
theorem yields_readNodes_texts (tags : TagSet) {eof : Token} (heof : eof.kind = .eof)
    {ts : List Token} (hts : ∀ t ∈ ts, t.kind = .text) {s : ParserState}
    (hs : s.stream.ahead = ts ++ [eof]) {names : List String} (hnames : s.names = names) {k : Nat}
    (hk : ts.length < k) :
    Yields (readNodes tags k [] none) s (· = ts.map fun t => .text t.line t.value) [eof] names := by
  obtain ⟨k, rfl⟩ : ∃ j, k = j + 1 := ⟨k - 1, by omega⟩
  induction ts generalizing s k with
  | nil =>
    rw [readNodes, Grammar.nodes]
    apply Yields.ofCurrent hs
    simp only [heof, List.isEmpty_nil, if_true]
    exact .pure rfl hs hnames
  | cons t ts ih =>
    obtain ⟨hkind, hts⟩ := List.forall_mem_cons.1 hts
    obtain ⟨k, rfl⟩ : ∃ j, k = j + 1 := ⟨k - 1, by simp at hk; omega⟩
    obtain ⟨u, rest, hrest⟩ : ∃ u rest, ts ++ [eof] = u :: rest :=
      List.exists_cons_of_ne_nil (by simp)
    rw [List.cons_append, hrest] at hs
    rw [readNodes, Grammar.nodes]
    apply Yields.ofCurrent hs
    simp only [hkind]
    apply (Yields.lift (Takes.next hs) hnames).bind
    intro _ v _ hv hnames
    apply (ih hts (hv.trans hrest.symm) hnames k (by simpa using hk)).bind
    rintro _ w rfl hw hnames
    exact .pure rfl hw hnames

theorem read_texts (tags : TagSet) {eof : Token} (heof : eof.kind = .eof) {ts : List Token}
    (hts : ∀ t ∈ ts, t.kind = .text) (name : String) :
    read tags (.ofTokens (ts ++ [eof]) name) =
      .ok ⟨name, ts.map fun t => .text t.line t.value⟩ := by
  have hahead : (TokenStream.ofTokens (ts ++ [eof]) name).ahead = ts ++ [eof] := by
    rw [TokenStream.ahead_ofTokens, TokenStream.closeList_append_eof ts heof]
  have hsource := TokenStream.source_ofTokens (ts ++ [eof]) name
  generalize TokenStream.ofTokens (ts ++ [eof]) name = stream at hahead hsource ⊢
  have hlength : ts.length = stream.after.length := by
    have := congrArg List.length hahead
    simpa [TokenStream.ahead] using this.symm
  obtain ⟨_, s, rfl, -, -, hread⟩ := yields_readNodes_texts tags heof hts (s := ⟨stream, []⟩) hahead
    rfl (k := stepLimit stream.after.length) (by unfold stepLimit; omega)
  rw [read_eq_map, hread, hsource]
  rfl

end Document

theorem Render.renderNodes_texts (options : Options) (scopes : List Scope) (ts : List Token) :
    renderNodes options scopes (ts.map fun t => .text t.line t.value) =
      .ok (String.join (ts.map Token.value)) := by
  induction ts with
  | nil => rfl
  | cons t ts ih =>
    rw [List.map_cons, renderNodes, renderNode, ih, List.map_cons, String.join_cons]
    rfl

namespace Lexer

theorem join_textSpelling (text behind : List Char) :
    String.join ((textSpelling text ++ textSpelling behind).map Prod.snd) =
      String.ofList (text ++ behind) := by
  have hone (text : List Char) :
      String.join ((textSpelling text).map Prod.snd) = String.ofList text := by
    cases text with
    | nil => rfl
    | cons c cs => simp [textSpelling]
  rw [List.map_append, String.join_append, hone, hone, String.ofList_append]

theorem kind_of_mem_textSpelling {text : List Char} :
    ∀ spelling ∈ textSpelling text, spelling.1 = .text := by
  unfold textSpelling
  split <;> simp

end Lexer

namespace Environment

open Lexer

/-- Under default settings of the lexer, whether it keeps comments or not, a template of a verbatim
block and a text behind it becomes the tokens of the two texts, and with any context it is rendered
as the two texts; the first one is trimmed as the mark in front of the end of the block says. -/
theorem render_verbatim {env : Environment} {comments : Comments}
    (hlexer : Lexer.ofOptions {} comments = .ok env.lexer) (mark : Option Trim)
    {text behind : List Char} (htext : NoVerbatimEnd text) (hbehind : NoOpening behind)
    (hbreaks : '\r' ∉ text ++ behind) (name : String) :
    (∃ stream, env.tokenize ⟨name, String.ofList (verbatimChars mark text behind)⟩ = .ok stream ∧
      stream.tokens.map Token.spelling =
        textSpelling (trimBack mark text) ++ textSpelling behind ++ [(.eof, "")]) ∧
    ∀ context, env.render ⟨name, String.ofList (verbatimChars mark text behind)⟩ context =
      .ok (String.ofList (trimBack mark text ++ behind)) := by
  obtain ⟨ts, eof, htokens, hts, heof⟩ := tokenize_verbatim mark hlexer htext hbehind hbreaks name
  have hkind : eof.kind = .eof := congrArg Prod.fst heof
  have htexts (t : Token) (ht : t ∈ ts) : t.kind = .text := by
    have hmem : t.spelling ∈ textSpelling (trimBack mark text) ++ textSpelling behind :=
      hts ▸ List.mem_map_of_mem ht
    rcases List.mem_append.1 hmem with hmem | hmem
    · exact kind_of_mem_textSpelling _ hmem
    · exact kind_of_mem_textSpelling _ hmem
  have hvalues : ts.map Token.value =
      (textSpelling (trimBack mark text) ++ textSpelling behind).map Prod.snd := by
    rw [← hts, List.map_map]
    rfl
  have htokenize : env.tokenize ⟨name, String.ofList (verbatimChars mark text behind)⟩ =
      .ok (.ofTokens (ts ++ [eof]) name) := by
    rw [tokenize, htokens]
    rfl
  refine ⟨⟨_, htokenize, ?_⟩, fun context => ?_⟩
  · rw [TokenStream.tokens_ofTokens, TokenStream.closeList_append_eof ts hkind, List.map_append,
      hts, List.map_singleton, heof]
  · have hparse : env.parseSource ⟨name, String.ofList (verbatimChars mark text behind)⟩ =
        .ok ⟨name, ts.map fun t => .text t.line t.value⟩ := by
      rw [parseSource, htokenize, ok_bind, parse, Document.read_texts env.tags hkind htexts name]
      rfl
    rw [render, hparse, ok_bind, Render.ofDocument, Render.renderNodes_texts, hvalues,
      join_textSpelling]
    rfl

/-- A verbatim block with beginnings of tags, a quote and a bracket, whose end trims. -/
theorem render_verbatim_tags :
    ∃ env, ofOptions {} = .ok env ∧ Lexer.ofOptions {} .drop = .ok env.lexer ∧
      NoVerbatimEnd "\x7b\x7b \"( \x7b# \n".toList ∧ NoOpening ['!'] ∧
      '\r' ∉ "\x7b\x7b \"( \x7b# \n".toList ++ ['!'] ∧
      ∀ context, env.render
          ⟨"page", "\x7b% verbatim %\x7d\x7b\x7b \"( \x7b# \n\x7b%- endverbatim %\x7d!"⟩ context =
        .ok "\x7b\x7b \"( \x7b#!" := by
  obtain ⟨env, henv, hlexer⟩ : ∃ env, ofOptions {} = .ok env ∧
      Lexer.ofOptions {} .drop = .ok env.lexer := ⟨_, rfl, rfl⟩
  have htext : NoVerbatimEnd "\x7b\x7b \"( \x7b# \n".toList :=
    noVerbatimEnd_of_not_infix (by decide +kernel)
  have hbehind : NoOpening ['!'] := by
    simp only [NoOpening, openingChars, List.forall_mem_cons, List.not_mem_nil, false_implies,
      implies_true, and_true]
    decide
  have hbreaks : '\r' ∉ "\x7b\x7b \"( \x7b# \n".toList ++ ['!'] := by decide +kernel
  refine ⟨env, henv, hlexer, htext, hbehind, hbreaks, fun context => ?_⟩
  have hrender := (render_verbatim hlexer (some .all) htext hbehind hbreaks "page").2 context
  have hsource : String.ofList (verbatimChars (some .all) "\x7b\x7b \"( \x7b# \n".toList ['!']) =
      "\x7b% verbatim %\x7d\x7b\x7b \"( \x7b# \n\x7b%- endverbatim %\x7d!" := by
    decide +kernel
  have houtput : String.ofList (trimBack (some .all) "\x7b\x7b \"( \x7b# \n".toList ++ ['!']) =
      "\x7b\x7b \"( \x7b#!" := by
    decide +kernel
  rwa [hsource, houtput] at hrender

end Environment

end TemplateEngine
