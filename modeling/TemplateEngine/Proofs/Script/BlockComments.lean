import Mathlib.Data.List.Forall2
import Mathlib.Logic.Relation
import TemplateEngine.Proofs.Decimal.Natural
import TemplateEngine.Proofs.Script.Writing

/-!
Block comments in scripts. Main statement: an exposed comment is written as one block comment that
ends where the compiler ends it, and every line of it is what is left of the line of the comment
when star and slash are deleted, in whatever order, as long as they stand next to each other.
-/

namespace TemplateEngine.Script

def HasEnd (cs : List Char) : Prop :=
  ∃ front behind, cs = front ++ '*' :: '/' :: behind

inductive Deletes : List Char → List Char → Prop
  | mk (front behind : List Char) : Deletes (front ++ '*' :: '/' :: behind) (front ++ behind)

abbrev DeletesTo : List Char → List Char → Prop :=
  Relation.ReflTransGen Deletes

/-- One pass over a text, from its front, that deletes every end of a block comment it meets. -/
def deletePass : List Char → List Char
  | '*' :: '/' :: cs => deletePass cs
  | c :: cs => c :: deletePass cs
  | [] => []

/-- The loop that makes passes as long as the end of a block comment is left comes to its end with
this text. -/
inductive LoopEnds : List Char → List Char → Prop
  | done {cs : List Char} (h : ¬ HasEnd cs) : LoopEnds cs cs
  | pass {cs kept : List Char} (h : HasEnd cs) (hloop : LoopEnds (deletePass cs) kept) :
      LoopEnds cs kept

/-- What is left of a line: the loop of passes comes to its end with it and with nothing else, and
so does deleting one end of a block comment after the other, in any order, until none is left. -/
structure IsKept (line kept : List Char) : Prop where
  loopEnds_iff (cs : List Char) : LoopEnds line cs ↔ cs = kept
  deletesTo_iff (cs : List Char) : DeletesTo line cs ∧ ¬ HasEnd cs ↔ cs = kept
  sublist : kept.Sublist line
  eq_of_not_hasEnd : ¬ HasEnd line → kept = line

variable {cs ds : List Char} {c : Char}

theorem not_hasEnd_nil : ¬ HasEnd [] := by
  rintro ⟨front, behind, h⟩
  simp at h

theorem HasEnd.append (h : HasEnd cs) (front behind : List Char) :
    HasEnd (front ++ cs ++ behind) := by
  obtain ⟨before, after, rfl⟩ := h
  exact ⟨front ++ before, after ++ behind, by simp⟩

theorem hasEnd_cons : HasEnd (c :: cs) ↔ (c = '*' ∧ ∃ behind, cs = '/' :: behind) ∨ HasEnd cs := by
  constructor
  · rintro ⟨front, behind, h⟩
    cases front with
    | nil =>
      obtain ⟨rfl, rfl⟩ := List.cons.inj h
      exact .inl ⟨rfl, behind, rfl⟩
    | cons first front =>
      obtain ⟨rfl, rfl⟩ := List.cons.inj h
      exact .inr ⟨front, behind, rfl⟩
  · rintro (⟨rfl, behind, rfl⟩ | ⟨front, behind, rfl⟩)
    · exact ⟨[], behind, rfl⟩
    · exact ⟨c :: front, behind, rfl⟩

theorem not_hasEnd_of_star_not_mem (h : '*' ∉ cs) : ¬ HasEnd cs := by
  rintro ⟨front, behind, rfl⟩
  simp at h

/-- A star and a slash do not meet across the end of a line. -/
theorem not_hasEnd_append_newline (hcs : ¬ HasEnd cs) (hds : ¬ HasEnd ds) :
    ¬ HasEnd (cs ++ '\n' :: ds) := by
  induction cs with
  | nil =>
    rw [List.nil_append, hasEnd_cons]
    rintro (⟨hstar, -⟩ | h)
    · exact absurd hstar (by decide)
    · exact hds h
  | cons c cs ih =>
    rw [hasEnd_cons, not_or] at hcs
    rw [List.cons_append, hasEnd_cons]
    rintro (⟨rfl, behind, h⟩ | h)
    · cases cs with
      | nil => exact absurd (List.cons.inj h).1 (by decide)
      | cons d cs => exact hcs.1 ⟨rfl, cs, by rw [(List.cons.inj h).1]⟩
    · exact ih hcs.2 h

/-- A text without the end of a block comment, and such an end behind it: that is the first one. -/
theorem eq_of_first_end (h : ¬ HasEnd cs) {front behind : List Char}
    (heq : cs ++ ['*', '/', '\n'] = front ++ '*' :: '/' :: behind) : front = cs := by
  rcases List.append_eq_append_iff.1 heq with ⟨more, rfl, hmore⟩ | ⟨more, rfl, hmore⟩
  · match more with
    | [] => exact List.append_nil cs
    | [_] => simp at hmore
    | [_, _] => simp at hmore
    | _ :: _ :: _ :: more => simp at hmore
  · match more with
    | [] => exact (List.append_nil front).symm
    | [_] => simp at hmore
    | _ :: _ :: more =>
      obtain ⟨hstar, hmore⟩ := List.cons.inj hmore
      obtain ⟨hslash, -⟩ := List.cons.inj hmore
      exact absurd ⟨front, more, by rw [← hstar, ← hslash]⟩ h

theorem Deletes.cons (c : Char) (h : Deletes cs ds) : Deletes (c :: cs) (c :: ds) := by
  obtain ⟨front, behind⟩ := h
  exact .mk (c :: front) behind

theorem Deletes.sublist (h : Deletes cs ds) : ds.Sublist cs := by
  obtain ⟨front, behind⟩ := h
  exact ((List.sublist_cons_self ..).trans (List.sublist_cons_self ..)).append_left front

theorem DeletesTo.sublist (h : DeletesTo cs ds) : ds.Sublist cs := by
  induction h with
  | refl => exact .refl _
  | tail _ hstep ih => exact hstep.sublist.trans ih

theorem DeletesTo.eq_of_not_hasEnd (h : DeletesTo cs ds) (hcs : ¬ HasEnd cs) : ds = cs := by
  rcases h.cases_head with rfl | ⟨_, ⟨front, behind⟩, -⟩
  · rfl
  · exact absurd ⟨front, behind, rfl⟩ hcs

/-- A slash takes away a star in front of it; every other character is added. -/
theorem cancel_cases (text : List Char) (c : Char) :
    (∃ rest, text = '*' :: rest ∧ c = '/' ∧ cancel text c = rest) ∨
      (∀ rest, text = '*' :: rest → c ≠ '/') ∧ cancel text c = c :: text := by
  by_cases h : ∃ rest, text = '*' :: rest ∧ c = '/'
  · obtain ⟨rest, rfl, rfl⟩ := h
    exact .inl ⟨rest, rfl, rfl, rfl⟩
  · have hnot (rest : List Char) (htext : text = '*' :: rest) : c ≠ '/' :=
      fun hc => h ⟨rest, htext, hc⟩
    exact .inr ⟨hnot, cancel.eq_2 text c hnot⟩

/-- What the deletion makes of a text does not depend on whether an end was deleted before. -/
theorem Deletes.foldl_cancel (h : Deletes cs ds) (text : List Char) :
    cs.foldl cancel text = ds.foldl cancel text := by
  obtain ⟨front, behind⟩ := h
  have hstar (text : List Char) : cancel (cancel text '*') '/' = text := by
    rcases cancel_cases text '*' with ⟨_, -, hc, -⟩ | ⟨-, h⟩
    · exact absurd hc (by decide)
    · rw [h]
      rfl
  rw [List.foldl_append, List.foldl_append, List.foldl_cons, List.foldl_cons, hstar]

/-- Every slash that takes away a star in front of it deletes one end of a block comment. -/
theorem deletesTo_foldl_cancel (cs text : List Char) :
    DeletesTo (text.reverse ++ cs) (cs.foldl cancel text).reverse := by
  induction cs generalizing text with
  | nil => rw [List.append_nil, List.foldl_nil]
  | cons c cs ih =>
    rw [List.foldl_cons]
    rcases cancel_cases text c with ⟨rest, rfl, rfl, h⟩ | ⟨-, h⟩
    · rw [h, List.reverse_cons, List.append_assoc]
      exact .head (.mk rest.reverse cs) (ih rest)
    · rw [h]
      simpa only [List.reverse_cons, List.append_assoc, List.singleton_append] using ih (c :: text)

/-- Adding a character in this way never makes the end of a block comment. -/
theorem not_hasEnd_cancel {text : List Char} (h : ¬ HasEnd text.reverse) (c : Char) :
    ¬ HasEnd (cancel text c).reverse := by
  rcases cancel_cases text c with ⟨rest, rfl, -, heq⟩ | ⟨hslash, heq⟩
  · rw [heq]
    intro hend
    apply h
    rw [List.reverse_cons]
    exact hend.append [] ['*']
  · rw [heq, List.reverse_cons]
    rintro ⟨front, behind, hsplit⟩
    rcases List.eq_nil_or_concat behind with rfl | ⟨behind, last, rfl⟩
    · have hlast : text.reverse ++ [c] = (front ++ ['*']) ++ ['/'] := by simpa using hsplit
      obtain ⟨hfront, hc⟩ := List.append_inj' hlast rfl
      have htext : text = '*' :: front.reverse := by
        rw [← List.reverse_reverse text, hfront, List.reverse_append]
        rfl
      exact hslash front.reverse htext (List.cons.inj hc).1
    · have hlast : text.reverse ++ [c] = (front ++ '*' :: '/' :: behind) ++ [last] := by
        simpa using hsplit
      exact h ⟨front, behind, (List.append_inj' hlast rfl).1⟩

theorem not_hasEnd_removeCommentEnds (cs : List Char) : ¬ HasEnd (removeCommentEnds cs) := by
  have hfold (text : List Char) (h : ¬ HasEnd text.reverse) :
      ¬ HasEnd (cs.foldl cancel text).reverse := by
    induction cs generalizing text with
    | nil => exact h
    | cons c cs ih => exact ih (cancel text c) (not_hasEnd_cancel h c)
  exact hfold [] not_hasEnd_nil

theorem deletesTo_removeCommentEnds (cs : List Char) : DeletesTo cs (removeCommentEnds cs) :=
  deletesTo_foldl_cancel cs []

theorem DeletesTo.removeCommentEnds_eq (h : DeletesTo cs ds) :
    removeCommentEnds cs = removeCommentEnds ds := by
  induction h with
  | refl => rfl
  | tail _ hstep ih => rw [ih, removeCommentEnds, removeCommentEnds, hstep.foldl_cancel]

/-- Every order of deleting comes to the same text. -/
theorem DeletesTo.eq_removeCommentEnds (h : DeletesTo cs ds) (hds : ¬ HasEnd ds) :
    ds = removeCommentEnds cs := by
  rw [h.removeCommentEnds_eq]
  exact ((deletesTo_removeCommentEnds ds).eq_of_not_hasEnd hds).symm

theorem deletesTo_deletePass (cs : List Char) : DeletesTo cs (deletePass cs) := by
  fun_induction deletePass cs with
  | case1 cs ih => exact .head (.mk [] cs) ih
  | case2 c cs _ ih => exact ih.lift (c :: ·) fun _ _ h => h.cons c
  | case3 => exact .refl

/-- A pass over a text that has the end of a block comment makes it shorter. -/
theorem length_deletePass_lt (h : HasEnd cs) : (deletePass cs).length < cs.length := by
  fun_induction deletePass cs with
  | case1 cs _ =>
    have hle := (deletesTo_deletePass cs).sublist.length_le
    rw [List.length_cons, List.length_cons]
    omega
  | case2 c cs hnot ih =>
    rcases hasEnd_cons.1 h with ⟨hstar, behind, rfl⟩ | h
    · exact absurd rfl (hnot behind hstar)
    · exact Nat.succ_lt_succ (ih h)
  | case3 => exact absurd h not_hasEnd_nil

theorem exists_loopEnds (cs : List Char) : ∃ kept, LoopEnds cs kept := by
  by_cases h : HasEnd cs
  · obtain ⟨kept, hkept⟩ := exists_loopEnds (deletePass cs)
    exact ⟨kept, .pass h hkept⟩
  · exact ⟨cs, .done h⟩
termination_by cs.length
decreasing_by exact length_deletePass_lt h

theorem LoopEnds.eq_removeCommentEnds {kept : List Char} (h : LoopEnds cs kept) :
    kept = removeCommentEnds cs := by
  induction h with
  | done h => exact DeletesTo.eq_removeCommentEnds .refl h
  | @pass cs kept _ _ ih => rw [(deletesTo_deletePass cs).removeCommentEnds_eq, ih]

theorem isKept_removeCommentEnds (line : List Char) : IsKept line (removeCommentEnds line) where
  loopEnds_iff cs := by
    constructor
    · exact LoopEnds.eq_removeCommentEnds
    · rintro rfl
      obtain ⟨kept, hkept⟩ := exists_loopEnds line
      rwa [← hkept.eq_removeCommentEnds]
  deletesTo_iff cs := by
    constructor
    · exact fun ⟨h, hcs⟩ => h.eq_removeCommentEnds hcs
    · rintro rfl
      exact ⟨deletesTo_removeCommentEnds line, not_hasEnd_removeCommentEnds line⟩
  sublist := (deletesTo_removeCommentEnds line).sublist
  eq_of_not_hasEnd h := (deletesTo_removeCommentEnds line).eq_of_not_hasEnd h

/-- A block comment from behind its opening up to its end. -/
def commentInside (line : Nat) (kept : List (List Char)) : List Char :=
  " comment on line ".toList ++ Nat.toDigits 10 line ++ '\n' :: kept.flatMap (· ++ ['\n'])

theorem not_hasEnd_commentInside (line : Nat) {kept : List (List Char)}
    (h : ∀ l ∈ kept, ¬ HasEnd l) : ¬ HasEnd (commentInside line kept) := by
  apply not_hasEnd_append_newline
  · apply not_hasEnd_of_star_not_mem
    rw [List.mem_append, not_or]
    refine ⟨by decide, fun hdigit => ?_⟩
    exact absurd (Decimal.isDigit_of_mem_toDigits hdigit) (by decide)
  · induction kept with
    | nil => exact not_hasEnd_nil
    | cons l kept ih =>
      obtain ⟨hl, hkept⟩ := List.forall_mem_cons.1 h
      rw [List.flatMap_cons, List.append_assoc]
      exact not_hasEnd_append_newline hl (ih hkept)

theorem toList_commentText (line : Nat) (text : String) :
    (commentText line text).toList = '/' :: '*' ::
      (commentInside line ((Text.lines text.toList).map removeCommentEnds) ++
        ['*', '/', '\n']) := by
  have hbody (lines : List (List Char)) :
      (String.join (lines.map fun l => String.ofList (removeCommentEnds l) ++ "\n")).toList =
        (lines.map removeCommentEnds).flatMap (· ++ ['\n']) := by
    induction lines with
    | nil => rfl
    | cons l lines ih =>
      rw [List.map_cons, String.join_cons, String.toList_append, String.toList_append, ih,
        String.toList_ofList]
      rfl
  have hopen : "/* comment on line ".toList = '/' :: '*' :: " comment on line ".toList := by
    decide +kernel
  have hdigits : (Nat.repr line).toList = Nat.toDigits 10 line := String.toList_ofList
  unfold commentText commentInside
  rw [String.toList_append, String.toList_append, String.toList_append, String.toList_append,
    hopen, hdigits, hbody, List.append_assoc (_ ++ _) _ (List.flatMap ..)]
  rfl

theorem lines_eq_splitOn (cs : List Char) : Text.lines cs = cs.splitOn '\n' := by
  induction cs with
  | nil => rfl
  | cons c cs ih =>
    rw [Text.lines, List.splitOn_cons_eq_if_modifyHead, ih]
    split
    · rfl
    · cases h : cs.splitOn '\n' with
      | nil => exact absurd h (List.splitOn_ne_nil '\n' cs)
      | cons line lines => rfl

/-- With debugging, an exposed comment is written as one block comment, whose first end behind its
opening is the one that the compiler writes. Its lines are the lines of the comment, less the ends
of block comments in them. -/
theorem writeNode_exposed_comment (options : Options) (line : Nat) (text : String)
    (script : Script) :
    ∃ kept emitted,
      outcome (writeNode { options with debug := true } (.comment line text true)) script =
        .ok ((), { script with text := script.text ++ emitted }) ∧
      emitted.toList = '/' :: '*' :: (commentInside line kept ++ ['*', '/', '\n']) ∧
      List.Forall₂ IsKept (text.toList.splitOn '\n') kept ∧
      ∀ front behind,
        commentInside line kept ++ ['*', '/', '\n'] = front ++ '*' :: '/' :: behind →
          front = commentInside line kept := by
  refine ⟨(Text.lines text.toList).map removeCommentEnds, commentText line text, ?_,
    toList_commentText line text, ?_, fun front behind => ?_⟩
  · rw [writeNode]
    exact outcome_raw ..
  · rw [List.forall₂_map_right_iff, lines_eq_splitOn, List.forall₂_same]
    exact fun l _ => isKept_removeCommentEnds l
  · refine eq_of_first_end (not_hasEnd_commentInside line fun l hl => ?_)
    obtain ⟨source, -, rfl⟩ := List.mem_map.1 hl
    exact not_hasEnd_removeCommentEnds source

end TemplateEngine.Script
