import TemplateEngine.Proofs.Document.Comments
import TemplateEngine.Proofs.Expr.Forward

/-!
The ends of bodies. Main statement: on any tokens, nodes that are read up to some end tags leave the
stream on the name of one of them, right behind an opening delimiter, or at an end token if no end
tags are given. A tag of an `if` that ends no branch is therefore never met, a loop without `else`
is ended by `endfor` and a block by `endblock`.
-/

namespace TemplateEngine

/-- The stream is on the name of one of the given tags, right behind an opening delimiter. -/
structure TokenStream.AtTag (s : TokenStream) (names : List String) : Prop where
  kind : s.current.kind = .name
  value : s.current.value ∈ names
  opened : ∃ start front, s.before = start :: front ∧ start.kind = .blockStart

/-- Right in front of `t` are the tag name that `s` is on and the closing delimiter of the tag. -/
def TokenStream.ClosesAt (s t : TokenStream) : Prop :=
  ∃ close, t.before = close :: s.current :: s.before ∧ close.kind = .blockEnd

theorem TokenStream.AtTag.mono {s : TokenStream} {names more : List String} (h : s.AtTag names)
    (hmore : names ⊆ more) : s.AtTag more :=
  ⟨h.kind, hmore h.value, h.opened⟩

theorem TokenStream.ClosesAt.reaches {s t : TokenStream} (h : s.ClosesAt t) : s.Reaches t := by
  obtain ⟨close, hbefore, -⟩ := h
  rw [TokenStream.Reaches, hbefore]
  exact ⟨[close, s.current], rfl⟩

/-- What is known of the result is known together with the result. -/
theorem Gives.with_outcome {ε σ α : Type} {E : ε → Prop} {reader : EStateM ε σ α} {s : σ}
    {P : α → σ → Prop} (h : Gives E reader s P) :
    Gives E reader s fun a t => P a t ∧ outcome reader s = .ok (a, t) := by
  unfold Gives at *
  cases houtcome : outcome reader s with
  | error e => exact .error (h.of_error houtcome)
  | ok result => exact .ok ⟨h.of_ok houtcome, rfl⟩

namespace Document

open TokenReader TokenStream

variable {s t : ParserState} {α : Type}

/-- Behind `s` the nodes are read as a body that one of the tags `ends` ends, up to `u`. -/
def ReadsBody (tags : TagSet) (ends : List String) (enclosing : Option String) (s : ParserState)
    (body : List Node) (u : ParserState) : Prop :=
  ∃ steps p, s.stream.Reaches p.stream ∧
    outcome (readNodes tags steps ends enclosing) p = .ok (body, u)

/-- The end tags of a node that is read from `s` up to `t`: which one ends a body, and that the tag
is closed right behind the last one. Only a block without a closing delimiter behind its name has an
expression in place of a body. -/
def EndsProperly (tags : TagSet) (enclosing : Option String) (s t : ParserState) : Node → Prop
  | .choice _ _ _ => ∃ u : TokenStream, s.stream.Reaches u ∧ u.AtTag ["endif"] ∧ u.ClosesAt t.stream
  | .loop _ _ _ _ body none =>
    ∃ u, ReadsBody tags ["else", "endfor"] enclosing s body u ∧ u.stream.AtTag ["endfor"] ∧
      u.stream.ClosesAt t.stream
  | .loop _ _ _ _ body (some otherwise) =>
    ∃ u v, ReadsBody tags ["else", "endfor"] enclosing s body u ∧ u.stream.AtTag ["else"] ∧
      ReadsBody tags ["endfor"] enclosing u otherwise v ∧ v.stream.AtTag ["endfor"] ∧
      v.stream.ClosesAt t.stream
  | .block _ name body =>
    ∃ p : TokenStream, s.stream.Passed s.stream.current p ∧
      (p.current.kind = .blockEnd →
        ∃ u, ReadsBody tags ["endblock"] (some name) s body u ∧ u.stream.AtTag ["endblock"] ∧
          ∃ close given, t.stream.before = close :: (given ++ u.stream.current :: u.stream.before) ∧
            close.kind = .blockEnd ∧ ∀ token ∈ given, given = [token] ∧ token.value = name) ∧
      (p.current.kind ≠ .blockEnd →
        ∃ expr q, outcome Expr.read p = .ok (expr, q) ∧ body = [.print expr.line expr] ∧
          ∃ close, q.Passed close t.stream ∧ close.kind = .blockEnd)
  | _ => True

theorem forward_lift {reader : TokenReader α} (h : Forward reader) (s : ParserState) :
    Gives SyntaxError.IsRegular (lift reader) s fun _ t => s.stream.Reaches t.stream :=
  gives_lift (h s.stream)

theorem lift_next_passed (s : ParserState) :
    Gives SyntaxError.IsRegular (lift next) s fun token t => s.stream.Passed token t.stream :=
  gives_lift (next_passed s.stream)

theorem lift_expect_passed (s : ParserState) (kind : TokenKind) (value? : Option String) :
    Gives SyntaxError.IsRegular (lift (expect kind value?)) s fun token t =>
      s.stream.Passed token t.stream ∧ token.kind = kind :=
  gives_lift (expect_passed s.stream kind value?)

theorem blockEnd_passed (s : ParserState) :
    Gives SyntaxError.IsRegular blockEnd s fun _ t =>
      ∃ close, s.stream.Passed close t.stream ∧ close.kind = .blockEnd := by
  unfold blockEnd
  apply (lift_expect_passed s .blockEnd none).bind
  intro close t hclose
  exact .pure ⟨close, hclose⟩

theorem blockEnd_forward (s : ParserState) :
    Gives SyntaxError.IsRegular blockEnd s fun _ t => s.stream.Reaches t.stream :=
  (blockEnd_passed s).mono fun _ _ ⟨_, hclose, _⟩ => hclose.reaches

theorem lastExpression_forward (s : ParserState) :
    Gives SyntaxError.IsRegular lastExpression s fun _ t => s.stream.Reaches t.stream := by
  unfold lastExpression
  apply (forward_lift Expr.read_forward s).bind
  intro expr t hst
  apply (blockEnd_forward t).bind
  intro _ u htu
  exact .pure (hst.trans htu)

theorem defineBlock_stream (name : String) (line : Nat) (s : ParserState) :
    Gives SyntaxError.IsRegular (defineBlock name line) s fun _ t => t.stream = s.stream := by
  unfold defineBlock
  apply Gives.get_bind
  split
  · exact .error rfl
  · exact .ok rfl

theorem gives_lift_test {E : SyntaxError → Prop} {kind : TokenKind} {value? : Option String}
    {f : Bool → Reader α} {P : α → ParserState → Prop}
    (hf : Gives E (f (s.stream.current.test kind value?)) s P) :
    Gives E (lift (test kind value?) >>= f) s P :=
  hf

theorem readLoopNames_forward : Forward readLoopNames := by
  unfold readLoopNames
  apply (Forward.expect _ _).bind
  intro first
  apply (Forward.nextIf _ _).bind
  have hin : ∀ names : Option String × String, Forward (do
      let _ ← expect .operator (some "in")
      return names) :=
    fun names => (Forward.expect _ _).bind fun _ => .pure names
  rintro (_ | comma)
  · exact hin _
  · exact (Forward.expect _ _).bind fun target => hin _

/-- Putting a token behind the current one leaves those in front alone. -/
theorem readComment_forward (s : TokenStream) :
    Gives SyntaxError.IsRegular readComment s fun node t =>
      s.Reaches t ∧ ∃ line text exposed, node = .comment line text exposed := by
  unfold readComment
  apply gives_current
  have hrest : ∀ exposed t, s.Reaches t →
      Gives SyntaxError.IsRegular
        (do
          let text ← expect .text none
          let _ ← expect .blockEnd none
          return Node.comment s.current.line text.value exposed) t
        fun node u => s.Reaches u ∧ ∃ line text exposed, node = .comment line text exposed := by
    intro exposed t hst
    apply (Forward.expect .text none t).bind
    intro text u htu
    apply (Forward.expect .blockEnd none u).bind
    intro _ v huv
    exact .pure ⟨(hst.trans htu).trans huv, _, _, _, rfl⟩
  simp only
  split
  · apply Gives.modify_bind
    apply (Forward.next _).bind
    intro _ t hst
    exact hrest _ t hst
  · exact hrest _ s (.refl s)

/-- The name behind `endblock` is that of the block, or there is none. -/
theorem readEndName_passed (name : String) (s : TokenStream) :
    Gives SyntaxError.IsRegular (readEndName name) s fun _ t =>
      ∃ given, t.before = given ++ s.before ∧
        ∀ token ∈ given, given = [token] ∧ token.value = name := by
  unfold readEndName
  apply (nextIf_passed s .name none).bind
  rintro (_ | token) t ht
  · exact .pure ⟨[], by rw [ht]; rfl, by simp⟩
  · simp only
    split
    · next hname => exact .pure ⟨[token], ht.1.before_eq, by simp [hname]⟩
    · exact .error rfl

/-- The tag is closed behind the name that `u` was on. -/
theorem closeTag {u : TokenStream} {ending : Token} (h : u.Passed ending s.stream) :
    Gives SyntaxError.IsRegular blockEnd s fun _ t => u.ClosesAt t.stream := by
  apply (blockEnd_passed s).mono
  rintro _ t ⟨close, hclose, hkind⟩
  exact ⟨close, by rw [hclose.before_eq, h.before_eq, h.token_eq], hkind⟩

def StopsAtEnd (ends : List String) (t : TokenStream) : Prop :=
  if ends = [] then t.current.kind = .eof else t.AtTag ends

theorem StopsAtEnd.atTag {ends : List String} {t : TokenStream} (h : StopsAtEnd ends t)
    (hends : ends ≠ []) : t.AtTag ends := by
  rwa [StopsAtEnd, if_neg hends] at h

structure AllStop (tags : TagSet) (k : Nat) : Prop where
  readNodes (ends : List String) (enclosing : Option String) (s : ParserState) :
    Gives SyntaxError.IsRegular (readNodes tags k ends enclosing) s fun _ t =>
      s.stream.Reaches t.stream ∧ StopsAtEnd ends t.stream
  readTag (tag : Tag) (line : Nat) (enclosing : Option String) (s : ParserState) :
    Gives SyntaxError.IsRegular (readTag tags k tag line enclosing) s fun node t =>
      s.stream.Reaches t.stream ∧ EndsProperly tags enclosing s t node
  readBranches (line : Nat) (otherwise : Option (List Node)) (enclosing : Option String)
      (s : ParserState) (hs : s.stream.AtTag ["elseif", "else", "endif"]) :
    Gives SyntaxError.IsRegular (readBranches tags k line otherwise enclosing) s fun _ t =>
      ∃ u : TokenStream, s.stream.Reaches u ∧ u.AtTag ["endif"] ∧ u.Passed u.current t.stream

variable {tags : TagSet} {k : Nat}

/-- A body that is read on the way from `s`. -/
theorem AllStop.readBody (h : AllStop tags k) {ends : List String} (hends : ends ≠ [])
    (enclosing : Option String) (hst : s.stream.Reaches t.stream) :
    Gives SyntaxError.IsRegular (Document.readNodes tags k ends enclosing) t fun body u =>
      s.stream.Reaches u.stream ∧ u.stream.AtTag ends ∧ ReadsBody tags ends enclosing s body u := by
  apply (h.readNodes ends enclosing t).with_outcome.mono
  rintro body u ⟨⟨htu, hstops⟩, hread⟩
  exact ⟨hst.trans htu, hstops.atTag hends, k, t, hst, hread⟩

theorem readNodes_stops (h : AllStop tags k) (ends : List String) (enclosing : Option String)
    (s : ParserState) :
    Gives SyntaxError.IsRegular (readNodes tags (k + 1) ends enclosing) s fun _ t =>
      s.stream.Reaches t.stream ∧ StopsAtEnd ends t.stream := by
  have hcons : ∀ node t, s.stream.Reaches t.stream →
      Gives SyntaxError.IsRegular
        (do
          let nodes ← readNodes tags k ends enclosing
          return node :: nodes) t
        fun _ u => s.stream.Reaches u.stream ∧ StopsAtEnd ends u.stream := by
    intro node t hst
    apply (h.readNodes ends enclosing t).bind
    rintro nodes u ⟨htu, hstops⟩
    exact .pure ⟨hst.trans htu, hstops⟩
  rw [readNodes, Grammar.nodes]
  apply gives_lift_current
  split
  · next hkind =>
    split
    · next hends =>
      exact .pure ⟨.refl s.stream, by rwa [StopsAtEnd, if_pos (List.isEmpty_iff.1 hends)]⟩
    · exact .error rfl
  · apply (lift_next_passed s).bind
    intro _ t ht
    exact hcons _ t ht.reaches
  · apply (lift_next_passed s).bind
    intro _ t ht
    apply (forward_lift Expr.read_forward t).bind
    intro expr u htu
    apply (lift_expect_passed u .varEnd none).bind
    intro _ v hv
    exact hcons _ v ((ht.reaches.trans htu).trans hv.1.reaches)
  · next hstart =>
    apply (lift_next_passed s).bind
    intro start t ht
    apply gives_lift_current
    split
    · exact .error rfl
    · next hname =>
      split
      · next hmem =>
        have hat : t.stream.AtTag ends :=
          ⟨by simpa using hname, hmem, start, _, ht.before_eq, ht.token_eq ▸ hstart⟩
        exact .pure ⟨ht.reaches, by rwa [StopsAtEnd, if_neg (List.ne_nil_of_mem hmem)]⟩
      · split
        · exact .error rfl
        · next tag _ =>
          apply (lift_next_passed t).bind
          intro _ u hu
          apply (h.readTag tag _ enclosing u).bind
          intro node v hv
          exact hcons node v ((ht.reaches.trans hu.reaches).trans hv.1)
  · exact .error rfl

theorem readTag_stops (h : AllStop tags k) (tag : Tag) (line : Nat) (enclosing : Option String)
    (s : ParserState) :
    Gives SyntaxError.IsRegular (readTag tags (k + 1) tag line enclosing) s fun node t =>
      s.stream.Reaches t.stream ∧ EndsProperly tags enclosing s t node := by
  cases tag with
  | here =>
    rw [readTag, Grammar.tag]
    apply (blockEnd_forward s).bind
    intro _ t hst
    exact .pure ⟨hst, trivial⟩
  | comment =>
    rw [readTag, Grammar.tag]
    apply (gives_lift (readComment_forward s.stream)).mono
    rintro _ t ⟨hst, line, text, exposed, rfl⟩
    exact ⟨hst, trivial⟩
  | choice =>
    rw [readTag, Grammar.tag]
    apply (lastExpression_forward s).bind
    intro condition t hst
    apply (h.readBody (by simp) enclosing hst).bind
    rintro body u ⟨hsu, hu, -⟩
    apply (h.readBranches line none enclosing u hu).bind
    rintro ⟨branches, otherwise⟩ v ⟨w, huw, hw, hv⟩
    apply (closeTag hv).bind
    intro _ t hclose
    exact .pure ⟨(hsu.trans huw).trans hclose.reaches, w, hsu.trans huw, hw, hclose⟩
  | loop =>
    rw [readTag, Grammar.tag]
    apply (forward_lift readLoopNames_forward s).bind
    rintro ⟨key, target⟩ p hsp
    apply (lastExpression_forward p).bind
    intro iterable t hpt
    apply (h.readBody (by simp) enclosing (hsp.trans hpt)).bind
    rintro body u ⟨hsu, hu, hbody⟩
    apply (lift_next_passed u).bind
    intro ending v hv
    split
    · next helse =>
      apply (blockEnd_forward v).bind
      intro _ w hvw
      apply (h.readBody (by simp) enclosing (hv.reaches.trans hvw)).bind
      rintro otherwise x ⟨hux, hx, hotherwise⟩
      apply (lift_next_passed x).bind
      intro _ y hy
      apply (closeTag hy).bind
      intro _ t hclose
      have helse : u.stream.AtTag ["else"] := ⟨hu.kind, by simp [← hv.token_eq, helse], hu.opened⟩
      exact .pure ⟨(hsu.trans hux).trans hclose.reaches, u, x, hbody, helse, hotherwise, hx, hclose⟩
    · next helse =>
      apply (closeTag hv).bind
      intro _ t hclose
      have hendfor : u.stream.AtTag ["endfor"] := by
        refine ⟨hu.kind, ?_, hu.opened⟩
        have hvalue := hu.value
        rw [hv.token_eq] at helse
        simpa [helse] using hvalue
      exact .pure ⟨hsu.trans hclose.reaches, u, hbody, hendfor, hclose⟩
  | block =>
    rw [readTag, Grammar.tag]
    apply (lift_expect_passed s .name none).bind
    rintro name p ⟨hp, -⟩
    apply (defineBlock_stream name.value line p).bind
    intro _ t hstream
    have hpassed : s.stream.Passed s.stream.current t.stream := by
      rw [hstream]
      exact hp.token_eq ▸ hp
    apply gives_lift_test
    rw [Token.test_none]
    split
    · next hlong =>
      apply (blockEnd_forward t).bind
      intro _ v htv
      apply (h.readBody (by simp) (some name.value) (hpassed.reaches.trans htv)).bind
      rintro body w ⟨hsw, hw, hbody⟩
      apply (lift_next_passed w).bind
      intro ending x hx
      apply Gives.bind (gives_lift (readEndName_passed name.value x.stream))
      rintro _ y ⟨given, hgiven, hname⟩
      apply (blockEnd_passed y).bind
      rintro _ z ⟨close, hclose, hkind⟩
      have hbefore : z.stream.before =
          close :: (given ++ w.stream.current :: w.stream.before) := by
        rw [hclose.before_eq, hgiven, hx.before_eq, hx.token_eq]
      have hreaches : w.stream.Reaches z.stream := by
        rw [Reaches, hbefore]
        exact ⟨close :: (given ++ [w.stream.current]), by simp⟩
      refine .pure ⟨hsw.trans hreaches, t.stream, hpassed, fun _ => ?_, fun hother => ?_⟩
      · exact ⟨w, hbody, hw, close, given, hbefore, hkind, hname⟩
      · exact absurd (beq_iff_eq.1 hlong) hother
    · next hshort =>
      apply Gives.bind (gives_lift (Expr.read_forward t.stream).with_outcome)
      rintro expr v ⟨htv, hread⟩
      apply (blockEnd_passed v).bind
      rintro _ w ⟨close, hclose, hkind⟩
      have hreaches : s.stream.Reaches w.stream :=
        (hpassed.reaches.trans htv).trans hclose.reaches
      refine .pure ⟨hreaches, t.stream, hpassed, fun hother => ?_, fun _ => ?_⟩
      · exact absurd (beq_iff_eq.2 hother) hshort
      · exact ⟨expr, v.stream, hread, rfl, close, hclose, hkind⟩

theorem readBranches_stops (h : AllStop tags k) (line : Nat) (otherwise : Option (List Node))
    (enclosing : Option String) (s : ParserState)
    (hs : s.stream.AtTag ["elseif", "else", "endif"]) :
    Gives SyntaxError.IsRegular (readBranches tags (k + 1) line otherwise enclosing) s fun _ t =>
      ∃ u : TokenStream, s.stream.Reaches u ∧ u.AtTag ["endif"] ∧ u.Passed u.current t.stream := by
  rw [readBranches, Grammar.branches]
  apply (lift_next_passed s).bind
  intro ending t ht
  have hmore : ∀ otherwise v, s.stream.Reaches v.stream →
      v.stream.AtTag ["elseif", "else", "endif"] →
      Gives SyntaxError.IsRegular (readBranches tags k line otherwise enclosing) v fun _ t =>
        ∃ u : TokenStream, s.stream.Reaches u ∧ u.AtTag ["endif"] ∧
          u.Passed u.current t.stream := by
    intro otherwise v hsv hv
    apply (h.readBranches line otherwise enclosing v hv).mono
    rintro _ w ⟨u, hvu, hu⟩
    exact ⟨u, hsv.trans hvu, hu⟩
  split
  · apply (blockEnd_forward t).bind
    intro _ u htu
    apply (h.readBody (by simp) enclosing (ht.reaches.trans htu)).bind
    rintro body v ⟨hsv, hv, -⟩
    exact hmore _ v hsv (hv.mono (by simp))
  split
  · apply (lastExpression_forward t).bind
    intro condition u htu
    apply (h.readBody (by simp) enclosing (ht.reaches.trans htu)).bind
    rintro body v ⟨hsv, hv, -⟩
    apply (hmore otherwise v hsv hv).bind
    rintro ⟨branches, otherwise⟩ w hw
    exact .pure hw
  split
  · next hendif =>
    have hat : s.stream.AtTag ["endif"] := ⟨hs.kind, by simp [← ht.token_eq, hendif], hs.opened⟩
    exact .pure ⟨s.stream, .refl s.stream, hat, rfl, ht.token_eq ▸ ht.before_eq⟩
  · next helse helseif hendif =>
    have hvalue := hs.value
    rw [← ht.token_eq] at hvalue
    simp [helse, helseif, hendif] at hvalue

theorem allStop (tags : TagSet) (k : Nat) : AllStop tags k := by
  induction k with
  | zero =>
    have hstop : ∀ {α : Type} {s : ParserState} {P : α → ParserState → Prop},
        Gives SyntaxError.IsRegular (lift Expr.stop) s P := .error rfl
    exact
      { readNodes := fun _ _ _ => by rw [readNodes]; exact hstop
        readTag := fun _ _ _ _ => by rw [readTag]; exact hstop
        readBranches := fun _ _ _ _ _ => by rw [readBranches]; exact hstop }
  | succ k h =>
    exact
      { readNodes := readNodes_stops h
        readTag := readTag_stops h
        readBranches := readBranches_stops h }

/-- Wherever reading begins and whatever the tags and the tokens: nodes that are read up to the tags
`ends` leave the stream no further back, at an end token if `ends` is empty, and otherwise on the
name of one of `ends`, right behind an opening delimiter. The bodies of each tag therefore are ended
as they have to be, and no fault is that of a tag which ends no branch. -/
theorem bodies_stop_at_end_tags (tags : TagSet) (steps : Nat) (ends : List String)
    (enclosing : Option String) (s : ParserState) :
    (∀ nodes t, outcome (readNodes tags steps ends enclosing) s = .ok (nodes, t) →
      s.stream.position ≤ t.stream.position ∧
        (ends = [] → t.stream.current.kind = .eof) ∧ (ends ≠ [] → t.stream.AtTag ends)) ∧
    (∀ tag line node t, outcome (readTag tags steps tag line enclosing) s = .ok (node, t) →
      EndsProperly tags enclosing s t node) ∧
    (∀ e, outcome (readNodes tags steps ends enclosing) s = .error e →
      ∀ name opened, e.fault ≠ .strayIfTag name opened) ∧
    ∀ tag line e, outcome (readTag tags steps tag line enclosing) s = .error e →
      ∀ name opened, e.fault ≠ .strayIfTag name opened := by
  have hnodes := (allStop tags steps).readNodes ends enclosing s
  have htag := fun tag line => (allStop tags steps).readTag tag line enclosing s
  refine ⟨fun nodes t hread => ?_, fun tag line node t hread => ?_, fun e hread => ?_,
    fun tag line e hread => ?_⟩
  · obtain ⟨hst, hstops⟩ := hnodes.of_ok hread
    refine ⟨hst.position_le, fun hends => ?_, hstops.atTag⟩
    rwa [StopsAtEnd, if_pos hends] at hstops
  · exact ((htag tag line).of_ok hread).2
  · exact SyntaxError.IsRegular.ne_strayIfTag (hnodes.of_error hread)
  · exact SyntaxError.IsRegular.ne_strayIfTag ((htag tag line).of_error hread)

example :
    (outcome (readNodes .builtins 5 ["endfor"] none)
      ⟨.ofTokens [⟨.text, "a", 1⟩, ⟨.blockStart, "\x7b%", 1⟩, ⟨.name, "endfor", 1⟩] "page", []⟩).map
        (fun result => result.2.stream.position) = .ok 2 := by
  rfl

end Document

end TemplateEngine
