import TemplateEngine.Proofs.Document.Paths
import TemplateEngine.Proofs.Expr.Repeats
import TemplateEngine.Proofs.Render.Interpolation

/-!
Strings in print tags. Main statements: a print tag with the tokens of one string is read exactly if
each of its parts can be read; and a print tag with the tokens of two strings is read exactly if
their parts can be and the first string ends with an interpolation or the second one begins with
one.
-/

namespace TemplateEngine

open Lexer

/-- The first of the tokens starts an interpolation. -/
def BeginsWithInterpolation (ts : List Token) : Prop :=
  (ts.map Token.kind).head? = some .interpolationStart

/-- The last of the tokens ends an interpolation. -/
def EndsWithInterpolation (ts : List Token) : Prop :=
  (ts.map Token.kind).getLast? = some .interpolationEnd

section

variable {ts us : List Token} (h : ts.map Token.spelling = us.map Token.spelling)
include h

theorem Token.kinds_eq : ts.map Token.kind = us.map Token.kind := by
  have hkinds := congrArg (List.map Prod.fst) h
  rwa [List.map_map, List.map_map] at hkinds

theorem Token.ne_nil_of_spelling (hne : ts ≠ []) : us ≠ [] := by
  rintro rfl
  exact hne (List.map_eq_nil_iff.1 h)

theorem Token.forall₂_like : List.Forall₂ Token.Like ts us := by
  rw [← List.forall₂_eq_eq_eq, List.forall₂_map_left_iff, List.forall₂_map_right_iff] at h
  exact h.imp fun t u hspelling =>
    ⟨(Prod.mk.inj hspelling).1.symm, fun _ => (Prod.mk.inj hspelling).2.symm⟩

end

namespace PartTokens

variable {plainMayFollow : Bool} {parts others : List StringPart} {ts us : List Token}

/-- The tokens of two strings are those of one string if a plain part may stand where the second one
begins. -/
theorem append (h : PartTokens plainMayFollow parts ts)
    (h' : PartTokens (plainMayFollowParts plainMayFollow parts) others us) :
    PartTokens plainMayFollow (parts ++ others) (ts ++ us) := by
  induction h with
  | nil => exact h'
  | plain hkind hvalue _ ih => exact .plain hkind hvalue (ih h')
  | interpolated plainMayFollow hstart hinside hending _ ih =>
    rw [List.cons_append, List.cons_append, List.append_assoc, List.cons_append]
    exact .interpolated plainMayFollow hstart hinside hending (ih h')

/-- A string that begins with an interpolation may stand anywhere. -/
theorem of_interpolationStart (h : PartTokens true parts ts)
    (hfirst : BeginsWithInterpolation ts) (plainMayFollow : Bool) :
    PartTokens plainMayFollow parts ts := by
  cases h with
  | nil => cases hfirst
  | plain hkind => cases hkind.symm.trans (Option.some.inj hfirst)
  | interpolated _ hstart hinside hending h =>
    exact .interpolated plainMayFollow hstart hinside hending h

/-- The first token of a string. -/
theorem exists_head (h : PartTokens true parts ts) (hne : ts ≠ []) :
    ∃ t more, ts = t :: more ∧ (t.kind = .string ∨ t.kind = .interpolationStart) := by
  cases h with
  | nil => exact absurd rfl hne
  | plain hkind => exact ⟨_, _, rfl, .inl hkind⟩
  | interpolated _ hstart => exact ⟨_, _, rfl, .inr hstart⟩

theorem ne_nil (h : PartTokens plainMayFollow parts ts) (hne : ts ≠ []) : parts ≠ [] := by
  rintro rfl
  cases h
  exact hne rfl

/-- A plain part may stand behind a string exactly if that ends with an interpolation. -/
theorem plainMayFollow_iff (h : PartTokens plainMayFollow parts ts) (hne : ts ≠ []) :
    plainMayFollowParts plainMayFollow parts = true ↔ EndsWithInterpolation ts := by
  induction h with
  | nil => exact absurd rfl hne
  | @plain raw parts t ts hkind _ h ih =>
    cases ts with
    | nil =>
      cases h
      simp [plainMayFollowParts, EndsWithInterpolation, hkind]
    | cons u us => exact ih (List.cons_ne_nil u us)
  | @interpolated _ parts start ending inside ts _ _ hending h ih =>
    cases ts with
    | nil =>
      cases h
      simp [plainMayFollowParts, EndsWithInterpolation, List.getLast?_cons, hending]
    | cons u us =>
      rw [plainMayFollowParts, ih (List.cons_ne_nil u us)]
      simp [EndsWithInterpolation, List.getLast?_cons]

end PartTokens

theorem openBehind?_of_like {ts us : List Token} (h : List.Forall₂ Token.Like ts us) (depth : Nat) :
    openBehind? depth us = openBehind? depth ts := by
  induction h generalizing depth with
  | nil => rfl
  | cons hfirst _ ih => simp only [openBehind?, hfirst.kind, ih]

namespace Expr

open TokenReader

def PartReadable (part : StringPart) : Prop :=
  ∃ e, PartReads part e

variable {plainMayFollow : Bool} {parts others : List StringPart} {ts us inside rest : List Token}
  {k : Nat} {s : TokenStream} {next ending : Token}

theorem partReadable_of_forall₂ {es : List Expr} (h : List.Forall₂ PartReads parts es) :
    ∀ part ∈ parts, PartReadable part := by
  induction h with
  | nil => exact List.forall_mem_nil _
  | cons hpart _ ih => exact List.forall_mem_cons.2 ⟨⟨_, hpart⟩, ih⟩

/-- The expression of an interpolation is read wherever tokens like those inside it stand. -/
theorem PartReadable.takes (h : PartReadable (.interpolated inside))
    (hlike : List.Forall₂ Token.Like inside us) (hending : ending.kind = .interpolationEnd)
    (hs : s.ahead = us ++ ending :: rest) (hk : 6 * us.length + 4 ≤ k) :
    Takes (readFrom k 0) s (fun _ => True) (ending :: rest) := by
  obtain ⟨e, h⟩ := h
  cases h with
  | @interpolated _ j u v _ hread hahead hend =>
    have hnext : v.current.Like ending :=
      ⟨hending.trans hend.symm, by simp [hend, TokenKind.isWord]⟩
    exact takes_readFrom_of_like hread hahead (.inr hend) hlike hnext hs (hlike.length_eq ▸ hk)

theorem PartReadable.of_like (h : PartReadable (.interpolated inside))
    (hlike : List.Forall₂ Token.Like inside us) : PartReadable (.interpolated us) := by
  obtain ⟨t, ts, hts⟩ :=
    List.exists_cons_of_ne_nil (l := us ++ [⟨.interpolationEnd, "", 0⟩]) (by simp)
  obtain ⟨e, v, -, hv, hread⟩ :=
    h.takes hlike rfl (s := ⟨[], t, ts, ""⟩) hts.symm (Nat.le_refl _)
  obtain ⟨hcurrent, -⟩ := List.cons.inj hv
  refine ⟨e, .interpolated hread ?_ (by rw [hcurrent])⟩
  rw [hv, hts]
  rfl

/-- The same tokens in other places are those of a string as well, and its parts can be read exactly
if those of the first string can. -/
theorem exists_partTokens (h : PartTokens plainMayFollow parts ts)
    (hts : ts.map Token.spelling = us.map Token.spelling) :
    ∃ others, PartTokens plainMayFollow others us ∧
      ((∀ part ∈ parts, PartReadable part) ↔ ∀ part ∈ others, PartReadable part) := by
  induction h generalizing us with
  | nil plainMayFollow =>
    obtain rfl := List.map_eq_nil_iff.1 hts.symm
    exact ⟨[], .nil plainMayFollow, Iff.rfl⟩
  | @plain raw parts t ts hkind hvalue _ ih =>
    obtain ⟨u, us, rfl, hu, hus⟩ := List.map_eq_cons_iff.1 hts.symm
    obtain ⟨others, hothers, hreadable⟩ := ih hus.symm
    obtain ⟨hukind, huvalue⟩ := Prod.mk.inj hu
    have hfirst : PartReadable (.plain raw) := ⟨_, .plain 0⟩
    refine ⟨.plain raw :: others, .plain (hukind.trans hkind) (huvalue.trans hvalue) hothers, ?_⟩
    simp only [List.forall_mem_cons, hfirst, hreadable]
  | @interpolated plainMayFollow parts start ending inside ts hstart hinside hending _ ih =>
    obtain ⟨start', us, rfl, hstart', hus⟩ := List.map_eq_cons_iff.1 hts.symm
    rw [List.map_append] at hus
    obtain ⟨inside', us, rfl, hinside', hus⟩ := List.map_eq_append_iff.1 hus
    obtain ⟨ending', us, rfl, hending', hus⟩ := List.map_eq_cons_iff.1 hus
    obtain ⟨others, hothers, hreadable⟩ := ih hus.symm
    have hlike := Token.forall₂_like hinside'.symm
    have hopen : openBehind? 0 inside' = some 0 := by rw [openBehind?_of_like hlike, hinside]
    have hfirst : PartReadable (.interpolated inside) ↔ PartReadable (.interpolated inside') :=
      ⟨fun h => h.of_like hlike, fun h => h.of_like (Token.forall₂_like hinside')⟩
    refine ⟨.interpolated inside' :: others, .interpolated plainMayFollow
      ((Prod.mk.inj hstart').1.trans hstart) hopen ((Prod.mk.inj hending').1.trans hending)
      hothers, ?_⟩
    simp only [List.forall_mem_cons, hfirst, hreadable]

/-- In front of a token that is no plain part it does not matter whether one may stand there. -/
theorem takes_readParts_of_not_plain {P : List Expr → Prop} {left : List Token}
    (hs : s.ahead = next :: rest) (hstring : plainMayFollow = true → next.kind ≠ .string)
    (h : ∀ t, t.ahead = next :: rest → Takes (readParts (k + 1) false) t P left) :
    Takes (readParts (k + 1) plainMayFollow) s P left := by
  cases plainMayFollow with
  | false => exact h s hs
  | true =>
    rw [readParts, Grammar.parts]
    apply (Takes.nextIf_none hs (by simpa using hstring rfl)).bind
    rintro _ t rfl ht
    have hrest := h t ht
    rw [readParts, Grammar.parts] at hrest
    exact hrest

/-- All parts of a string are read if each of them can be. -/
theorem takes_readParts (h : PartTokens plainMayFollow parts ts)
    (hparts : ∀ part ∈ parts, PartReadable part) (hs : s.ahead = ts ++ next :: rest)
    (hstart : next.kind ≠ .interpolationStart)
    (hstring : plainMayFollowParts plainMayFollow parts = true → next.kind ≠ .string)
    (hk : 6 * ts.length < k) :
    Takes (readParts k plainMayFollow) s (fun _ => True) (next :: rest) := by
  induction h generalizing k s with
  | nil plainMayFollow =>
    obtain ⟨k, rfl⟩ : ∃ j, k = j + 1 := ⟨k - 1, by omega⟩
    apply takes_readParts_of_not_plain hs hstring
    intro t ht
    rw [readParts, Grammar.parts]
    apply (Takes.nextIf_none ht (by simpa using hstart)).bind
    rintro _ u rfl hu
    exact .pure trivial hu
  | @plain raw parts t ts hkind _ _ ih =>
    obtain ⟨k, rfl⟩ : ∃ j, k = j + 1 := ⟨k - 1, by omega⟩
    rw [List.length_cons] at hk
    obtain ⟨u, behind, hbehind⟩ :=
      List.exists_cons_of_ne_nil (l := ts ++ next :: rest) (by simp)
    rw [List.cons_append, hbehind] at hs
    rw [readParts, Grammar.parts]
    apply (Takes.nextIf hs (by simpa using hkind)).bind
    rintro _ v rfl hv
    apply (ih (List.forall_mem_cons.1 hparts).2 (hv.trans hbehind.symm) hstring (by omega)).bind
    intro _ w _ hw
    exact .pure trivial hw
  | @interpolated plainMayFollow parts start ending inside ts hkind _ hending _ ih =>
    obtain ⟨k, rfl⟩ : ∃ j, k = j + 1 := ⟨k - 1, by omega⟩
    obtain ⟨hfirst, hparts⟩ := List.forall_mem_cons.1 hparts
    rw [List.length_cons, List.length_append, List.length_cons] at hk
    rw [List.cons_append, List.append_assoc, List.cons_append] at hs
    apply takes_readParts_of_not_plain hs (by simp [hkind])
    intro t ht
    obtain ⟨u, behind, hbehind⟩ :=
      List.exists_cons_of_ne_nil (l := inside ++ ending :: (ts ++ next :: rest)) (by simp)
    rw [hbehind] at ht
    rw [readParts, Grammar.parts]
    apply (Takes.nextIf ht (by simpa using hkind)).bind
    rintro _ v rfl hv
    apply (hfirst.takes (Token.forall₂_like rfl) hending (hv.trans hbehind.symm) (by omega)).bind
    intro inner w _ hw
    obtain ⟨x, more, hmore⟩ := List.exists_cons_of_ne_nil (l := ts ++ next :: rest) (by simp)
    rw [hmore] at hw
    apply (Takes.expect hw (by simpa using hending)).bind
    intro _ y _ hy
    apply (ih hparts (hy.trans hmore.symm) hstring (by omega)).bind
    intro _ z _ hz
    exact .pure trivial hz

/-- A primary expression in front of a token that ends expressions is the whole expression. -/
theorem outcome_readFrom_of_readPrimary {t : TokenStream} {e : Expr}
    (hunary : unaryOp? s.current = none) (hread : outcome (readPrimary (k + 1)) s = .ok (e, t))
    (hends : EndsExpr t.current) (minimum : Nat) :
    outcome (readFrom (k + 1 + 1 + 1) minimum) s = .ok (e, t) := by
  have hpostfix : outcome (readPostfix (k + 1) e) t = .ok (e, t) := by
    rw [readPostfix, Grammar.accesses, outcome_bind, outcome_current, ok_bind]
    simp only [hends.point, hends.bracket, hends.bar, Bool.false_eq_true, if_false, outcome_pure]
  have htail : outcome (readTail (k + 1 + 1) minimum e) t = .ok (e, t) := by
    rw [readTail, Grammar.operators, outcome_bind, outcome_current, ok_bind]
    simp only [hends.binary, outcome_pure]
  have hoperand : outcome (readOperand (k + 1 + 1)) s = .ok (e, t) := by
    rw [readOperand, Grammar.operand, outcome_bind, outcome_current, ok_bind]
    simp only [hunary, outcome_bind, hread, ok_bind, hpostfix]
  rw [readFrom, Grammar.expression, outcome_bind, hoperand, ok_bind, htail]

theorem exists_readPrimary_of_readFrom {minimum : Nat} {result : Expr × TokenStream}
    (hunary : unaryOp? s.current = none)
    (hread : outcome (readFrom (k + 1 + 1 + 1) minimum) s = .ok result) :
    ∃ primary, outcome (readPrimary (k + 1)) s = .ok primary := by
  rw [readFrom, Grammar.expression, outcome_bind] at hread
  obtain ⟨_, hoperand, -⟩ := bind_eq_ok.1 hread
  rw [readOperand, Grammar.operand, outcome_bind, outcome_current, ok_bind] at hoperand
  simp only [hunary, outcome_bind] at hoperand
  obtain ⟨primary, hprimary, -⟩ := bind_eq_ok.1 hoperand
  exact ⟨primary, hprimary⟩

/-- The steps that a read in front of these tokens has, and those for the tokens themselves. -/
theorem exists_stepLimit_eq (hs : s.ahead = ts ++ next :: rest) :
    ∃ k, stepLimit s.after.length = k + 1 + 1 + 1 ∧ 6 * ts.length < k := by
  have hlength := congrArg List.length hs
  simp only [TokenStream.ahead, List.length_cons, List.length_append] at hlength
  exact ⟨6 * s.after.length + 3, rfl, by omega⟩

theorem outcome_read (s : TokenStream) :
    outcome read s = outcome (readFrom (stepLimit s.after.length) 0) s := by
  rw [read, outcome_bind, outcome_get, ok_bind]

theorem endsExpr_string {t : Token} (ht : t.kind = .string) : EndsExpr t := by
  refine ⟨⟨⟨?_, ?_⟩, ?_, ?_, ?_⟩, ?_⟩ <;> simp [isMark, binaryOp?, ht]

section

variable (h : PartTokens true parts ts) (hne : ts ≠ []) (hs : s.ahead = ts ++ next :: rest)
include h hne hs

theorem kind_current_of_partTokens :
    s.current.kind = .string ∨ s.current.kind = .interpolationStart := by
  obtain ⟨first, more, rfl, hkind⟩ := h.exists_head hne
  obtain ⟨rfl, -⟩ := List.cons.inj hs
  exact hkind

theorem unaryOp?_of_partTokens : unaryOp? s.current = none := by
  rcases kind_current_of_partTokens h hne hs with hkind | hkind <;> simp [unaryOp?, hkind]

variable (hnext : EndsExpr next)
  (hstring : plainMayFollowParts true parts = true → next.kind ≠ .string)
include hnext hstring

/-- A string whose parts can be read is read as an expression. -/
theorem takes_read_string (hparts : ∀ part ∈ parts, PartReadable part) :
    Takes read s (fun _ => True) (next :: rest) := by
  obtain ⟨k, hlimit, hk⟩ := exists_stepLimit_eq hs
  have hprimary : Takes (readPrimary (k + 1)) s (fun _ => True) (next :: rest) := by
    rw [readPrimary, Grammar.primary]
    apply Takes.ofCurrent rfl
    rcases kind_current_of_partTokens h hne hs with hkind | hkind
    all_goals
      simp only [hkind]
      apply (takes_readParts h hparts hs hnext.kind hstring hk).bind
      intro _ t _ ht
      exact .pure trivial ht
  obtain ⟨e, t, -, ht, hread⟩ := hprimary
  have hends : EndsExpr t.current := (List.cons.inj ht).1 ▸ hnext
  refine ⟨e, t, trivial, ht, ?_⟩
  rw [outcome_read, hlimit]
  exact outcome_readFrom_of_readPrimary (unaryOp?_of_partTokens h hne hs) hread hends 0

/-- Reading an expression from a string stops behind it, and its parts can be read. -/
theorem partReadable_of_read {e : Expr} {t : TokenStream} (hread : outcome read s = .ok (e, t)) :
    (∀ part ∈ parts, PartReadable part) ∧ t.ahead = next :: rest := by
  obtain ⟨k, hlimit, -⟩ := exists_stepLimit_eq hs
  have hunary := unaryOp?_of_partTokens h hne hs
  rw [outcome_read, hlimit] at hread
  obtain ⟨⟨primary, u⟩, hprimary⟩ := exists_readPrimary_of_readFrom hunary hread
  obtain ⟨es, hes, -, hu⟩ :=
    partReads_of_readPrimary h (h.ne_nil hne) hs hstring hnext.kind hprimary
  have hends : EndsExpr u.current := (List.cons.inj hu).1 ▸ hnext
  have hwhole := outcome_readFrom_of_readPrimary hunary hprimary hends 0
  obtain ⟨rfl, rfl⟩ := Prod.mk.inj (Except.ok.inj (hread.symm.trans hwhole))
  exact ⟨partReadable_of_forall₂ hes, hu⟩

end

end Expr

namespace Document

open TokenReader TemplateEngine.Expr

variable {tags : TagSet} {parts others : List StringPart} {opening closing eof : Token}
  {ts us : List Token}

/-- In a print tag an expression is read, and the tag ends behind it. -/
theorem ifRead_readNodes_print {k : Nat} {s : ParserState}
    (hkind : s.stream.current.kind = .varStart) :
    IfRead (readNodes tags (k + 1) [] none) s fun _ _ =>
      ∃ u e v, s.stream.after = u.ahead ∧ outcome Expr.read u = .ok (e, v) ∧
        v.current.kind = .varEnd := by
  rw [readNodes, Grammar.nodes]
  apply gives_lift_current
  simp only [hkind]
  apply (gives_lift (gives_next trivial)).bind
  intro _ u hu
  apply (gives_lift (ifRead_self Expr.read u.stream)).bind
  intro e v hread
  apply (gives_lift (gives_expect trivial trivial)).bind
  rintro _ w ⟨⟨rfl, -⟩, hend⟩
  apply (ifRead_self _ w).bind
  intro nodes x _
  exact .pure ⟨_, e, _, (List.cons.inj hu.2).2, hread, Token.kind_of_test hend⟩

theorem exists_read_of_print {name : String} {document : Document}
    (hopening : opening.kind = .varStart) (heof : eof.kind = .eof)
    (hread : read tags (.ofTokens (opening :: (ts ++ [closing, eof])) name) = .ok document) :
    ∃ s e t, s.ahead = ts ++ [closing, eof] ∧ outcome Expr.read s = .ok (e, t) ∧
      t.current.kind = .varEnd := by
  have hahead := ahead_ofTokens_print opening ts closing heof name
  generalize TokenStream.ofTokens (opening :: (ts ++ [closing, eof])) name = stream at hahead hread
  obtain ⟨rfl, hafter⟩ := List.cons.inj hahead
  rw [read_eq_map] at hread
  obtain ⟨_, hnodes, -⟩ := map_eq_ok.1 hread
  obtain ⟨s, e, t, hs, hexpr, hend⟩ :=
    (ifRead_readNodes_print (s := ⟨stream, []⟩) hopening).of_ok hnodes
  exact ⟨s, e, t, hs.symm.trans hafter, hexpr, hend⟩

/-- A print tag with a string is read exactly if the parts of the string can be. -/
theorem exists_read_iff (h : PartTokens true parts ts) (hne : ts ≠ [])
    (hopening : opening.kind = .varStart) (hclosing : closing.kind = .varEnd)
    (heof : eof.kind = .eof) (name : String) :
    (∃ document, read tags (.ofTokens (opening :: (ts ++ [closing, eof])) name) = .ok document) ↔
      ∀ part ∈ parts, PartReadable part := by
  have hends := endsExpr_varEnd hclosing
  have hstring : plainMayFollowParts true parts = true → closing.kind ≠ .string := by
    simp [hclosing]
  constructor
  · rintro ⟨document, hread⟩
    obtain ⟨s, e, t, hs, hexpr, -⟩ := exists_read_of_print hopening heof hread
    exact (partReadable_of_read h hne hs hends hstring hexpr).1
  · intro hparts
    obtain ⟨e, -, hread⟩ := read_ofTokens_print hopening hclosing heof (fun s hs =>
      takes_read_string h hne hs hends hstring hparts) tags name
    exact ⟨_, hread⟩

/-- A print tag with two strings is not read if plain parts meet between them. -/
theorem not_read_of_plain_plain (h : PartTokens true parts ts) (hne : ts ≠ [])
    (hmay : plainMayFollowParts true parts = false) {first : Token} (hkind : first.kind = .string)
    (hopening : opening.kind = .varStart) (heof : eof.kind = .eof) (name : String)
    (document : Document) :
    read tags (.ofTokens (opening :: (ts ++ first :: us ++ [closing, eof])) name) ≠
      .ok document := by
  intro hread
  obtain ⟨s, e, t, hs, hexpr, hend⟩ := exists_read_of_print hopening heof hread
  rw [List.append_assoc, List.cons_append] at hs
  obtain ⟨-, ht⟩ :=
    partReadable_of_read h hne hs (endsExpr_string hkind) (by simp [hmay]) hexpr
  obtain ⟨rfl, -⟩ := List.cons.inj ht
  rw [hkind] at hend
  cases hend

/-- A print tag with two strings is read exactly if their parts can be and an interpolation stands
where they meet. -/
theorem exists_read_append_iff (h : PartTokens true parts ts) (hne : ts ≠ [])
    (h' : PartTokens true others us) (hne' : us ≠ []) (hopening : opening.kind = .varStart)
    (hclosing : closing.kind = .varEnd) (heof : eof.kind = .eof) (name : String) :
    (∃ document,
        read tags (.ofTokens (opening :: (ts ++ us ++ [closing, eof])) name) = .ok document) ↔
      (∀ part ∈ parts, PartReadable part) ∧ (∀ part ∈ others, PartReadable part) ∧
        (EndsWithInterpolation ts ∨ BeginsWithInterpolation us) := by
  by_cases hmeet : EndsWithInterpolation ts ∨ BeginsWithInterpolation us
  · have hbehind : PartTokens (plainMayFollowParts true parts) others us := by
      rcases hmeet with hends | hbegins
      · rwa [(h.plainMayFollow_iff hne).2 hends]
      · exact h'.of_interpolationStart hbegins _
    have hboth := h.append hbehind
    rw [exists_read_iff hboth (by simp [hne]) hopening hclosing heof, List.forall_mem_append]
    simp only [hmeet, and_true]
  · obtain ⟨hends, hbegins⟩ := not_or.1 hmeet
    have hmay : plainMayFollowParts true parts = false :=
      eq_false_of_ne_true (mt (h.plainMayFollow_iff hne).1 hends)
    obtain ⟨first, us, rfl, hkind⟩ := h'.exists_head hne'
    have hstring : first.kind = .string := hkind.resolve_right fun hstart => hbegins (by
      rw [BeginsWithInterpolation, List.map_cons, List.head?_cons, hstart])
    refine iff_of_false ?_ fun hread => hmeet hread.2.2
    rintro ⟨document, hread⟩
    exact not_read_of_plain_plain h hne hmay hstring hopening heof name document hread

end Document

end TemplateEngine
