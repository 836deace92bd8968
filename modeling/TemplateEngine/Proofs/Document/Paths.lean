import Mathlib.Data.List.Chain
import Mathlib.Data.List.Induction
import TemplateEngine.Proofs.Document.RoundTrip
import TemplateEngine.Proofs.Lexer.Gaps
import TemplateEngine.Proofs.Lexer.Spaced

/-!
Dotted paths. Main statement: a template of one print tag with a name and segments behind it,
written without white space, is read as the tag with a chain of attributes. An index directly behind
another one is taken for the fraction of the same number, so there is one attribute for each segment
exactly if no index directly follows another.
-/

namespace TemplateEngine

inductive Segment where
  | name (text : String)
  | index (n : Nat)
  deriving Repr, DecidableEq

namespace Segment

def text : Segment → String
  | name text => text
  | index n => Nat.repr n

def kind : Segment → TokenKind
  | name _ => .name
  | index _ => .number

/-- A name is an identifier and no operator. -/
def IsPlain : Segment → Prop
  | name text => IsName text
  | index _ => True

end Segment

/-- The segments as they are written, each behind a point. -/
def segmentsText (segments : List Segment) : List Char :=
  segments.flatMap fun segment => '.' :: segment.text.toList

def pathTag (root : String) (segments : List Segment) : String :=
  String.ofList (['\x7b', '\x7b', ' '] ++ root.toList ++ segmentsText segments ++
    [' ', '\x7d', '\x7d'])

/-- What segments are read as. A number goes on with a point and the digits behind it. -/
def readSegments : List Segment → List (TokenKind × String)
  | .index i :: .index j :: segments =>
    (.number, Nat.repr i ++ "." ++ Nat.repr j) :: readSegments segments
  | segment :: segments => (segment.kind, segment.text) :: readSegments segments
  | [] => []

def Separate (segments : List Segment) : Prop :=
  segments.IsChain fun segment next => segment.kind = .number → next.kind ≠ .number

/-- The attributes of a name, one of the other. -/
def Expr.path (root : String) (members : List String) : Expr :=
  members.foldl (Expr.attr 0) (.name 0 root)

theorem Expr.path_concat (root : String) (members : List String) (member : String) :
    Expr.path root (members ++ [member]) = .attr 0 (Expr.path root members) member :=
  List.foldl_append

/-- A path tells its members. -/
theorem Expr.path_injective {root : String} {members others : List String}
    (h : Expr.path root members = Expr.path root others) : members = others := by
  induction members using List.reverseRecOn generalizing others with
  | nil =>
    cases others using List.reverseRecOn with
    | nil => rfl
    | append_singleton others other =>
      rw [Expr.path_concat] at h
      cases h
  | append_singleton members member ih =>
    cases others using List.reverseRecOn with
    | nil =>
      rw [Expr.path_concat] at h
      cases h
    | append_singleton others other =>
      rw [Expr.path_concat, Expr.path_concat] at h
      obtain ⟨-, hobject, rfl⟩ := Expr.attr.inj h
      rw [ih hobject]

theorem length_readSegments_le (segments : List Segment) :
    (readSegments segments).length ≤ segments.length := by
  fun_induction readSegments segments with
  | case1 i j segments ih =>
    simp only [List.length_cons]
    omega
  | case2 segment segments _ ih => simpa using ih
  | case3 => simp

/-- Segments are read one by one exactly if no index directly follows another. -/
theorem readSegments_eq_iff (segments : List Segment) :
    (readSegments segments).map Prod.snd = segments.map Segment.text ↔ Separate segments := by
  fun_induction readSegments segments with
  | case1 i j segments _ =>
    have hle := length_readSegments_le segments
    refine iff_of_false (fun h => ?_) (fun h => ?_)
    · have := congrArg List.length h
      simp only [List.length_map, List.length_cons] at this
      omega
    · exact (List.isChain_cons_cons.1 h).1 rfl rfl
  | case2 segment segments hother ih =>
    rw [List.map_cons, List.map_cons, List.cons_inj_right, ih]
    cases segments with
    | nil => simp [Separate]
    | cons next segments =>
      have hpair : segment.kind = .number → next.kind ≠ .number := by
        cases segment with
        | name text => simp [Segment.kind]
        | index i =>
          cases next with
          | name text => simp [Segment.kind]
          | index j => exact (hother i j segments rfl rfl).elim
      unfold Separate
      rw [List.isChain_cons_cons]
      exact (and_iff_right hpair).symm
  | case3 => simp [Separate]

namespace Lexer

structure EndsSegment (d : Char) : Prop where
  name : isNameChar d = false
  digit : d.isDigit = false
  exponent (ds : List Char) : exponentLength (d :: ds) = 0

theorem exists_endsSegment (segments : List Segment) (more : List Char) :
    ∃ d ds, segmentsText segments ++ ' ' :: more = d :: ds ∧ EndsSegment d := by
  cases segments with
  | nil => exact ⟨' ', more, rfl, by decide, by decide, fun _ => rfl⟩
  | cons segment segments => exact ⟨'.', _, rfl, by decide, by decide, fun _ => rfl⟩

theorem isDigit_of_mem_index {i : Nat} : ∀ c ∈ Nat.toDigits 10 i, c.isDigit = true :=
  fun _ => Decimal.isDigit_of_mem_toDigits

/-- The digits of an index are a number of their own unless another index is behind them. -/
theorem numberLength_index (i : Nat) {segments : List Segment}
    (h : ∀ segment ∈ segments, segment.IsPlain)
    (hother : ∀ j others, segments = .index j :: others → False) (more : List Char) :
    numberLength (Nat.toDigits 10 i ++ (segmentsText segments ++ ' ' :: more)) =
      (Nat.toDigits 10 i).length := by
  have hdigits := @isDigit_of_mem_index i
  cases segments with
  | nil => exact numberLength_digits hdigits Nat.toDigits_ne_nil (by decide)
  | cons segment segments =>
    cases segment with
    | index j => exact (hother j segments rfl).elim
    | name text =>
      obtain ⟨c, cs, htext, hc, -⟩ := (h (.name text) (by simp)).1
      have hc : ¬ c.isDigit = true := by
        intro hdigit
        have := isNameStart_of_isIdentifierStart hc
        rw [isNameStart_of_isDigit hdigit] at this
        cases this
      have hbehind : segmentsText (.name text :: segments) ++ ' ' :: more =
          '.' :: c :: (cs ++ (segmentsText segments ++ ' ' :: more)) := by
        simp [segmentsText, Segment.text, htext]
      have hfraction : fractionLength ('.' :: c :: (cs ++ (segmentsText segments ++ ' ' :: more))) =
          0 := by
        rw [fractionLength, digitsLength, List.takeWhile_cons_of_neg hc]
        rfl
      rw [hbehind, numberLength_digits hdigits Nat.toDigits_ne_nil (by decide), hfraction]
      rfl

/-- The digits of an index with another index behind them are the fraction of one number. -/
theorem numberLength_fraction (i j : Nat) (segments : List Segment) (more : List Char) :
    numberLength (Nat.toDigits 10 i ++ '.' :: Nat.toDigits 10 j ++
      (segmentsText segments ++ ' ' :: more)) =
      (Nat.toDigits 10 i ++ '.' :: Nat.toDigits 10 j).length := by
  obtain ⟨d, ds, hbehind, hd⟩ := exists_endsSegment segments more
  have hpos : (Nat.toDigits 10 j).length ≠ 0 := by simp [Nat.toDigits_ne_nil]
  have hfraction : fractionLength ('.' :: (Nat.toDigits 10 j ++ d :: ds)) =
      1 + (Nat.toDigits 10 j).length := by
    rw [fractionLength, digitsLength_digits isDigit_of_mem_index hd.digit, if_neg hpos]
  have hdrop : ('.' :: (Nat.toDigits 10 j ++ d :: ds)).drop (1 + (Nat.toDigits 10 j).length) =
      d :: ds := by
    rw [Nat.add_comm, List.drop_succ_cons, List.drop_left]
  rw [hbehind, List.append_assoc, List.cons_append,
    numberLength_digits isDigit_of_mem_index Nat.toDigits_ne_nil (by decide), hfraction, hdrop,
    hd.exponent, List.length_append, List.length_cons]
  omega

def memberSpellings (members : List (TokenKind × String)) : List (TokenKind × String) :=
  members.flatMap fun member => [(.punctuation, "."), member]

theorem length_memberSpellings (members : List (TokenKind × String)) :
    (memberSpellings members).length = 2 * members.length := by
  simp [memberSpellings, Nat.mul_comm]

def ReachesMembers (comments : Comments) (chars : List Char) (members : List (TokenKind × String))
    (behind : List Char) : Prop :=
  ∀ s, InPrint s chars → ∃ t ts, Reaches defaultRules comments s ts t ∧
    ts.map Token.spelling = memberSpellings members ∧ InPrint t behind

theorem ReachesMembers.cons {comments : Comments} {chars rest behind : List Char}
    {member : TokenKind × String} {members : List (TokenKind × String)}
    (h : ReachesMembers comments rest members behind)
    (hmember : ∀ s, InPrint s chars → ∃ t token, Reaches defaultRules comments s [token] t ∧
      token.spelling = member ∧ InPrint t rest) :
    ReachesMembers comments ('.' :: chars) (member :: members) behind := by
  intro s hs
  obtain ⟨t, point, hpoint, hspelling, ht⟩ := reaches_point comments hs
  obtain ⟨u, token, htoken, hmember, hu⟩ := hmember t ht
  obtain ⟨v, ts, hts, hmembers, hv⟩ := h u hu
  refine ⟨v, _, hpoint.trans (htoken.trans hts), ?_, hv⟩
  simp only [List.map_append, List.map_cons, List.map_nil, hspelling, hmember, hmembers]
  rfl

theorem reaches_segments {comments : Comments} {segments : List Segment}
    (h : ∀ segment ∈ segments, segment.IsPlain) (more : List Char) :
    ReachesMembers comments (segmentsText segments ++ ' ' :: more) (readSegments segments)
      (' ' :: more) := by
  fun_induction readSegments segments with
  | case1 i j segments ih =>
    have hchars : segmentsText (.index i :: .index j :: segments) ++ ' ' :: more =
        '.' :: (Nat.toDigits 10 i ++ '.' :: Nat.toDigits 10 j ++
          (segmentsText segments ++ ' ' :: more)) := by
      simp [segmentsText, Segment.text, Nat.repr]
    have hvalue : Nat.repr i ++ "." ++ Nat.repr j =
        String.ofList (Nat.toDigits 10 i ++ '.' :: Nat.toDigits 10 j) := by
      simp [← String.toList_inj, Nat.repr]
    rw [hchars, hvalue]
    obtain ⟨c, cs, hdigits, hall⟩ := Decimal.toDigits_eq_cons i
    refine (ih fun segment hmem => h segment (by simp [hmem])).cons fun s hs => ?_
    have hnumber := numberLength_fraction i j segments more
    rw [hdigits, List.cons_append] at hs hnumber ⊢
    exact reaches_number comments isGap_nil (hall c (by simp)) hnumber hs
  | case2 segment segments hother ih =>
    have hsegments : ∀ segment ∈ segments, segment.IsPlain :=
      fun segment hmem => h segment (by simp [hmem])
    cases segment with
    | name text =>
      obtain ⟨d, ds, hbehind, hd⟩ := exists_endsSegment segments more
      have hchars : segmentsText (.name text :: segments) ++ ' ' :: more =
          '.' :: (text.toList ++ (segmentsText segments ++ ' ' :: more)) := by
        simp [segmentsText, Segment.text]
      rw [hchars]
      refine (ih hsegments).cons fun s hs => ?_
      rw [hbehind] at hs ⊢
      exact @reaches_name comments s [] ds _ (h (.name text) (by simp)) isGap_nil d hd.name hs
    | index i =>
      have hchars : segmentsText (.index i :: segments) ++ ' ' :: more =
          '.' :: (Nat.toDigits 10 i ++ (segmentsText segments ++ ' ' :: more)) := by
        simp [segmentsText, Segment.text, Nat.repr]
      rw [hchars]
      obtain ⟨c, cs, hdigits, hall⟩ := Decimal.toDigits_eq_cons i
      refine (ih hsegments).cons fun s hs => ?_
      have hnumber := numberLength_index i hsegments
        (fun j others heq => hother i j others rfl heq) more
      rw [Segment.text, Nat.repr]
      rw [hdigits] at hs hnumber ⊢
      exact reaches_number comments isGap_nil (hall c (by simp)) hnumber hs
  | case3 => exact fun s hs => ⟨s, [], .refl s, rfl, hs⟩

theorem isIdentifierChar_of_mem_segment {segment : Segment} (h : segment.IsPlain) :
    ∀ c ∈ segment.text.toList, isIdentifierChar c = true := by
  cases segment with
  | name text => exact h.1.forall_isIdentifierChar
  | index i =>
    intro c hc
    rw [Segment.text, Nat.repr, String.toList_ofList] at hc
    simp [isIdentifierChar, Char.isAlphanum, isDigit_of_mem_index c hc]

theorem carriageReturn_notMem_path {root : String} {segments : List Segment}
    (hroot : IsName root) (h : ∀ segment ∈ segments, segment.IsPlain) :
    '\r' ∉ root.toList ++ segmentsText segments := by
  have hreturn : isIdentifierChar '\r' = false := by decide
  have hpart : ∀ cs : List Char, (∀ c ∈ cs, isIdentifierChar c = true) → '\r' ∉ cs := by
    intro cs hcs hmem
    rw [hcs _ hmem] at hreturn
    cases hreturn
  intro hmem
  rcases List.mem_append.1 hmem with hmem | hmem
  · exact hpart _ hroot.1.forall_isIdentifierChar hmem
  · obtain ⟨segment, hsegment, hmem⟩ := List.mem_flatMap.1 hmem
    have hmem := List.mem_of_ne_of_mem (by decide) hmem
    exact hpart _ (isIdentifierChar_of_mem_segment (h segment hsegment)) hmem

/-- The tokens of a path in its tag. -/
theorem tokenize_pathTag {comments : Comments} {root : String} {segments : List Segment}
    (hroot : IsName root) (h : ∀ segment ∈ segments, segment.IsPlain) (name : String) :
    ∃ lexer opening ts closing eof, ofOptions {} comments = .ok lexer ∧
      opening.kind = .varStart ∧
        ts.map Token.spelling = (.name, root) :: memberSpellings (readSegments segments) ∧
        closing.kind = .varEnd ∧ eof.kind = .eof ∧
          lexer.tokenize ⟨name, pathTag root segments⟩ =
            .ok (.ofTokens (opening :: (ts ++ [closing, eof])) name) := by
  have htext : pathTag root segments =
      String.ofList (printChars (root.toList ++ segmentsText segments)) := by
    simp [pathTag, printChars]
  rw [htext]
  refine tokenize_print (fun s hs => ?_) (carriageReturn_notMem_path hroot h) name
  obtain ⟨d, ds, hbehind, hd⟩ := exists_endsSegment segments ['\x7d', '\x7d']
  have hs : InPrint s ([' '] ++ (root.toList ++ d :: ds)) := by
    rw [← hbehind]
    simpa using hs
  obtain ⟨t, token, htoken, hspelling, ht⟩ :=
    reaches_name comments hroot isGap_space hd.name hs
  rw [← hbehind] at ht
  obtain ⟨u, ts, hts, hmembers, hu⟩ := reaches_segments h ['\x7d', '\x7d'] t ht
  refine ⟨u, _, htoken.trans hts, ?_, hu⟩
  simp only [List.map_append, List.map_cons, List.map_nil, hspelling, hmembers]
  rfl

end Lexer

namespace Expr

open Lexer TokenReader

/-- The members behind an object are read as attributes, one of the other. -/
theorem takes_readPostfix_members {members : List (TokenKind × String)}
    (h : ∀ member ∈ members, member.1 = .name ∨ member.1 = .number) {root : String}
    {token : Token} {rest : List Token} (htoken : EndsOperand token) :
    ∀ {done : List String} {object : Expr} {k : Nat} {s : TokenStream} {ts : List Token},
      object.unlined = path root done → ts.map Token.spelling = memberSpellings members →
        s.ahead = ts ++ token :: rest → members.length < k →
          Takes (readPostfix k object) s
            (·.unlined = path root (done ++ members.map Prod.snd)) (token :: rest) := by
  induction members with
  | nil =>
    intro done object k s ts hobject hts hs hk
    obtain ⟨k, rfl⟩ : ∃ j, k = j + 1 := ⟨k - 1, by omega⟩
    obtain rfl := List.map_eq_nil_iff.1 hts
    rw [readPostfix, Grammar.accesses]
    apply Takes.ofCurrent hs
    simp only [htoken.point, htoken.bracket, htoken.bar, Bool.false_eq_true, if_false]
    refine .pure ?_ hs
    rw [hobject, List.map_nil, List.append_nil]
  | cons member members ih =>
    intro done object k s ts hobject hts hs hk
    obtain ⟨k, rfl⟩ : ∃ j, k = j + 1 := ⟨k - 1, by omega⟩
    rw [List.length_cons] at hk
    obtain ⟨point, ts, rfl, hpoint, hts⟩ := List.map_eq_cons_iff.1 hts
    obtain ⟨word, ts, rfl, hword, hts⟩ := List.map_eq_cons_iff.1 hts
    obtain ⟨next, behind, hnext⟩ := List.exists_cons_of_ne_nil (l := ts ++ token :: rest) (by simp)
    have hs : s.ahead = point :: word :: next :: behind := by
      rw [hs, ← hnext]
      rfl
    have hkind : word.kind = .name ∨ word.kind = .number := by
      have := h member (by simp)
      rwa [← hword] at this
    rw [readPostfix, Grammar.accesses]
    apply Takes.ofCurrent hs
    rw [if_pos (isMark_self (c := '.') hpoint rfl)]
    apply (Takes.next hs).bind
    intro _ t _ ht
    apply (takes_readMember hkind ht).bind
    rintro _ u rfl hu
    have hdone : (attr point.line object word.value).unlined =
        path root (done ++ [member.2]) := by
      rw [path_concat, unlined, hobject, ← hword]
      rfl
    have hu : u.ahead = ts ++ token :: rest := by rw [hu, hnext]
    have hk : members.length < k := by omega
    have := ih (fun other hmem => h other (by simp [hmem])) hdone hts hu hk
    rwa [List.append_assoc] at this

/-- The tokens of a name and of members behind it are read as the path. -/
theorem takes_read_members {root : String} (hroot : root ∉ literalWords)
    {members : List (TokenKind × String)}
    (h : ∀ member ∈ members, member.1 = .name ∨ member.1 = .number) {s : TokenStream}
    {ts rest : List Token} {token : Token}
    (hts : ts.map Token.spelling = (.name, root) :: memberSpellings members)
    (hs : s.ahead = ts ++ token :: rest) (htoken : EndsExpr token) :
    Takes read s (·.unlined = path root (members.map Prod.snd)) (token :: rest) := by
  obtain ⟨word, ts, rfl, hword, hts⟩ := List.map_eq_cons_iff.1 hts
  have hlength : ts.length = 2 * members.length := by
    rw [← List.length_map Token.spelling, hts, length_memberSpellings]
  obtain ⟨next, behind, hnext, hfollows⟩ :
      ∃ next behind, ts ++ token :: rest = next :: behind ∧ Follows next := by
    cases members with
    | nil =>
      obtain rfl := List.map_eq_nil_iff.1 hts
      exact ⟨token, rest, rfl, htoken.toFollows⟩
    | cons member members =>
      obtain ⟨point, ts, rfl, hpoint, -⟩ := List.map_eq_cons_iff.1 hts
      exact ⟨point, _, rfl, follows_mark (c := '.') hpoint (by decide)⟩
  have hs' : s.ahead = [word] ++ next :: behind := by rw [hs, ← hnext]; rfl
  have hsteps : 6 * (2 * members.length + 1) + 6 ≤ stepLimit s.after.length := by
    have := congrArg List.length hs
    simp only [TokenStream.ahead, List.length_cons, List.length_append, hlength] at this
    unfold stepLimit
    omega
  have hunary : unaryOp? word = none := by simp [unaryOp?, (Prod.mk.inj hword).1]
  unfold Takes Expr.read
  simp only [outcome_bind, outcome_get, ok_bind]
  generalize stepLimit s.after.length = k at hsteps
  obtain ⟨k, rfl⟩ : ∃ j, k = j + 1 + 1 := ⟨k - 2, by omega⟩
  rw [readFrom, Grammar.expression]
  have hoperand : Takes (readOperand (k + 1)) s
      (·.unlined = path root (members.map Prod.snd)) (token :: rest) := by
    rw [readOperand, Grammar.operand]
    apply Takes.ofCurrent hs'
    rw [hunary]
    have hname : Reads (name 0 root) [.name root] := reads_word (unlined_ofName hroot)
    apply hname k s [word] next behind (spells_singleton hword) hs' hfollows
    · rw [List.length_singleton]
      omega
    intro object t k' hobject ht hk'
    rw [← hnext] at ht
    rw [List.length_singleton] at hk'
    have hk : members.length < k' := by omega
    have hobject : object.unlined = path root [] := hobject
    exact takes_readPostfix_members h htoken.toEndsOperand hobject hts ht hk
  apply hoperand.bind
  intro left t hleft ht
  apply (takes_readTail_of_ends (e := left) ht htoken (by omega) rfl).mono
  intro e he
  rw [he, hleft]

theorem kind_of_mem_readSegments (segments : List Segment) :
    ∀ member ∈ readSegments segments, member.1 = .name ∨ member.1 = .number := by
  fun_induction readSegments segments with
  | case1 i j segments ih => exact List.forall_mem_cons.2 ⟨.inr rfl, ih⟩
  | case2 segment segments _ ih =>
    refine List.forall_mem_cons.2 ⟨?_, ih⟩
    cases segment with
    | name text => exact .inl rfl
    | index i => exact .inr rfl
  | case3 => exact List.forall_mem_nil _

end Expr

namespace Document

open Lexer TokenReader

theorem ahead_ofTokens_print (opening : Token) (ts : List Token) (closing : Token) {eof : Token}
    (heof : eof.kind = .eof) (name : String) :
    (TokenStream.ofTokens (opening :: (ts ++ [closing, eof])) name).ahead =
      opening :: (ts ++ [closing, eof]) := by
  have := TokenStream.closeList_append_eof (opening :: (ts ++ [closing])) heof
  rw [TokenStream.ahead_ofTokens]
  simpa using this

/-- The tokens of a print tag are read as a document of the tag. -/
theorem read_ofTokens_print {opening closing eof : Token} {ts : List Token}
    (hopening : opening.kind = .varStart) (hclosing : closing.kind = .varEnd)
    (heof : eof.kind = .eof) {P : Expr → Prop}
    (h : ∀ s, s.ahead = ts ++ [closing, eof] → Takes Expr.read s P [closing, eof])
    (tags : TagSet) (name : String) :
    ∃ e, P e ∧ read tags (.ofTokens (opening :: (ts ++ [closing, eof])) name) =
      .ok ⟨name, [.print opening.line e]⟩ := by
  have hahead := ahead_ofTokens_print opening ts closing heof name
  have hsource := TokenStream.source_ofTokens (opening :: (ts ++ [closing, eof])) name
  generalize TokenStream.ofTokens (opening :: (ts ++ [closing, eof])) name = stream
    at hahead hsource ⊢
  obtain ⟨next, behind, hnext⟩ :=
    List.exists_cons_of_ne_nil (l := ts ++ [closing, eof]) (by simp)
  obtain ⟨k, hk⟩ : ∃ k, stepLimit stream.after.length = k + 1 + 1 :=
    ⟨3 * stream.after.length + 1, rfl⟩
  have hnodes : Yields (readNodes tags (k + 1 + 1) [] none) ⟨stream, []⟩
      (fun nodes => ∃ e, P e ∧ nodes = [.print opening.line e]) [eof] [] := by
    rw [readNodes, Grammar.nodes]
    apply Yields.ofCurrent hahead
    simp only [hopening]
    rw [hnext] at hahead
    apply (Yields.lift (Takes.next hahead) rfl).bind
    intro _ t _ ht hnames
    rw [← hnext] at ht
    apply (Yields.lift (h t.stream ht) hnames).bind
    intro e u he hu hnames
    apply (Yields.lift (Takes.expect hu (by simp [hclosing])) hnames).bind
    intro _ v _ hv hnames
    have hend : Yields (readNodes tags (k + 1) [] none) v (· = []) [eof] [] := by
      rw [readNodes, Grammar.nodes]
      apply Yields.ofCurrent hv
      simp only [heof, List.isEmpty_nil, if_true]
      exact .pure rfl hv hnames
    apply hend.bind
    rintro _ w rfl hw hnames
    exact .pure ⟨e, he, rfl⟩ hw hnames
  obtain ⟨_, s, ⟨e, he, rfl⟩, -, -, hread⟩ := hnodes
  refine ⟨e, he, ?_⟩
  rw [read_eq_map, hk, hread, hsource]
  rfl

/-- A path in a print tag is read as attributes of its name. -/
theorem read_pathTag {root : String} (hroot : IsName root) (hword : root ∉ Expr.literalWords)
    {segments : List Segment} (h : ∀ segment ∈ segments, segment.IsPlain) (comments : Comments)
    (tags : TagSet) (name : String) :
    ∃ lexer start line e, ofOptions {} comments = .ok lexer ∧
      lexer.tokenize ⟨name, pathTag root segments⟩ = .ok start ∧
        read tags start = .ok ⟨name, [.print line e]⟩ ∧
          e.unlined = .path root ((readSegments segments).map Prod.snd) := by
  obtain ⟨lexer, opening, ts, closing, eof, hlexer, hopening, hts, hclosing, heof, htokens⟩ :=
    @tokenize_pathTag comments root segments hroot h name
  obtain ⟨e, he, hread⟩ := read_ofTokens_print hopening hclosing heof (fun s hs =>
    Expr.takes_read_members hword (Expr.kind_of_mem_readSegments segments) hts hs
      (Expr.endsExpr_varEnd hclosing)) tags name
  exact ⟨lexer, _, opening.line, e, hlexer, htokens, hread, he⟩

/-- A path in a print tag is read as attributes of its name, and there is one for each segment, in
order, exactly if no index directly follows another one. -/
theorem read_pathTag_iff_separate {root : String} (hroot : IsName root)
    (hword : root ∉ Expr.literalWords) {segments : List Segment}
    (h : ∀ segment ∈ segments, segment.IsPlain) (comments : Comments) (tags : TagSet)
    (name : String) :
    ∃ lexer start line e, ofOptions {} comments = .ok lexer ∧
      lexer.tokenize ⟨name, pathTag root segments⟩ = .ok start ∧
        read tags start = .ok ⟨name, [.print line e]⟩ ∧
          e.unlined = .path root ((readSegments segments).map Prod.snd) ∧
            (e.unlined = .path root (segments.map Segment.text) ↔ Separate segments) := by
  obtain ⟨lexer, start, line, e, hlexer, hstart, hread, he⟩ :=
    read_pathTag hroot hword h comments tags name
  refine ⟨lexer, start, line, e, hlexer, hstart, hread, he, ?_⟩
  rw [he, ← readSegments_eq_iff]
  exact ⟨Expr.path_injective, congrArg (Expr.path root)⟩

/-- An item of a list that is a member. -/
theorem read_pathTag_iff_separate_tags :
    let segments := [.name "tags", .index 0]
    IsName "user" ∧ "user" ∉ Expr.literalWords ∧ (∀ segment ∈ segments, segment.IsPlain) ∧
      ∃ lexer start line e, ofOptions {} .keep = .ok lexer ∧
        lexer.tokenize ⟨"page", pathTag "user" segments⟩ = .ok start ∧
          read .builtins start = .ok ⟨"page", [.print line e]⟩ ∧
            e.unlined = .path "user" ((readSegments segments).map Prod.snd) ∧
              (e.unlined = .path "user" (segments.map Segment.text) ↔ Separate segments) := by
  intro segments
  have hroot : IsName "user" := ⟨⟨'u', ['s', 'e', 'r'], rfl, by decide, by decide⟩, by decide⟩
  have htags : IsName "tags" := ⟨⟨'t', ['a', 'g', 's'], rfl, by decide, by decide⟩, by decide⟩
  have hsegments : ∀ segment ∈ segments, segment.IsPlain :=
    List.forall_mem_cons.2 ⟨htags, List.forall_mem_cons.2 ⟨trivial, List.forall_mem_nil _⟩⟩
  have hword : "user" ∉ Expr.literalWords := by decide
  exact ⟨hroot, hword, hsegments,
    read_pathTag_iff_separate hroot hword hsegments .keep .builtins "page"⟩

/-- Two indices in a row are not read as two attributes. -/
theorem not_read_pathTag_indices :
    ¬ ∃ lexer start line e, ofOptions {} .drop = .ok lexer ∧
      lexer.tokenize ⟨"page", "\x7b\x7b x.1.2 \x7d\x7d"⟩ = .ok start ∧
        read .builtins start = .ok ⟨"page", [.print line e]⟩ ∧
          e.unlined = .attr 0 (.attr 0 (.name 0 "x") "1") "2" := by
  rintro ⟨lexer, start, line, e, hlexer, hstart, hread, he⟩
  have hroot : IsName "x" := ⟨⟨'x', [], rfl, by decide, by decide⟩, by decide⟩
  have hsegments : ∀ segment ∈ [Segment.index 1, .index 2], segment.IsPlain :=
    List.forall_mem_cons.2 ⟨trivial, List.forall_mem_cons.2 ⟨trivial, List.forall_mem_nil _⟩⟩
  obtain ⟨_, _, _, _, hlexer', hstart', hread', he'⟩ :=
    read_pathTag hroot (by decide) hsegments .drop .builtins "page"
  have htext : pathTag "x" [.index 1, .index 2] = "\x7b\x7b x.1.2 \x7d\x7d" := by decide
  rw [htext] at hstart'
  obtain rfl := Except.ok.inj (hlexer.symm.trans hlexer')
  obtain rfl := Except.ok.inj (hstart.symm.trans hstart')
  have hnode := (Document.mk.inj (Except.ok.inj (hread.symm.trans hread'))).2
  obtain ⟨-, rfl⟩ := Node.print.inj (List.cons.inj hnode).1
  have hpath : Expr.path "x" ["1", "2"] = .path "x" ["1.2"] := he.symm.trans he'
  have := congrArg List.length (Expr.path_injective hpath)
  simp at this

end Document

end TemplateEngine
