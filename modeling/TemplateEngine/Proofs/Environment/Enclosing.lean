import TemplateEngine.Proofs.Document.Marks
import TemplateEngine.Proofs.Document.OpenBlocks
import TemplateEngine.Proofs.Environment.Outline

/-!
The tag `here` and the blocks around it. Main statement: in the document of a template, the text
that a tag `here` has become is the name of the innermost block that it stands in, and `-` where it
stands in none. The parser takes it from the blocks that it has entered and not left.
-/

namespace TemplateEngine.Environment

variable {env : Environment} {source : Source} {document : Document}

/-- Whatever the settings and the tags: where a template is read to a document, the parser that
enters and leaves blocks reads it to the same one. Texts and tags `here` of the template, and the
names of its block tags, become the texts and blocks of the document one by one, where a tag `here`
becomes the name of the innermost block around it. -/
theorem parseSource_names_enclosing (h : env.parseSource source = .ok document) :
    ∃ stream, env.tokenize source = .ok stream ∧
      Document.NestedParser.read env.tags stream = .ok document ∧
      MakesAll (marksFrom .apart stream.tokens) document.items := by
  obtain ⟨stream, hstream, hbefore, hread⟩ := parseSource_eq_ok h
  obtain ⟨hmakes, -⟩ := (Document.read_makes env.tags stream).of_ok hread
  refine ⟨stream, hstream, ?_, ?_⟩
  · rw [Document.NestedParser.read_eq, hread]
  · rwa [TokenStream.tokens_eq_ahead hbefore]

/-- Tags `here` outside of all blocks, in a block, behind a short one in a branch, in and behind a
block that ends with its name, and in both bodies of a loop. -/
theorem parseSource_names_enclosing_nested :
    ∃ (env : Environment) (source : Source) (document : Document),
      (withComments {}).map (addTag .here) = .ok env ∧
      env.parseSource source = .ok document ∧
      document.items =
        [.text 1 "-" none, .block 1 "a", .text 1 "a" (some "a"), .block 1 "b",
          .text 1 "a" (some "a"), .block 1 "c", .text 1 "x" (some "c"), .text 1 "c" (some "c"),
          .text 1 "a" (some "a"), .text 1 "-" none, .text 1 "-" none] ∧
      ∃ stream, env.tokenize source = .ok stream ∧
        Document.NestedParser.read env.tags stream = .ok document ∧
        MakesAll (marksFrom .apart stream.tokens) document.items := by
  let source : Source :=
    ⟨"page", "\x7b% here %\x7d\x7b% block a %\x7d\x7b% here %\x7d\x7b% if x %\x7d" ++
      "\x7b% block b y %\x7d\x7b% here %\x7d\x7b% else %\x7d\x7b% block c %\x7dx\x7b% here %\x7d" ++
      "\x7b% endblock c %\x7d\x7b# d #\x7d\x7b% here %\x7d\x7b% endif %\x7d\x7b% endblock %\x7d" ++
      "\x7b% for i in j %\x7d\x7b% here %\x7d\x7b% else %\x7d\x7b% here %\x7d\x7b% endfor %\x7d"⟩
  obtain ⟨env, henv⟩ : ∃ env, (withComments {}).map (addTag .here) = .ok env := ⟨_, rfl⟩
  have hread : ((withComments {}).map (addTag .here) >>= fun env => env.parseSource source).map
      Document.items =
        .ok [.text 1 "-" none, .block 1 "a", .text 1 "a" (some "a"), .block 1 "b",
          .text 1 "a" (some "a"), .block 1 "c", .text 1 "x" (some "c"), .text 1 "c" (some "c"),
          .text 1 "a" (some "a"), .text 1 "-" none, .text 1 "-" none] := by
    decide +kernel
  rw [henv, ok_bind] at hread
  obtain ⟨document, hdocument, hitems⟩ := map_eq_ok.1 hread
  exact ⟨env, source, document, henv, hdocument, hitems, parseSource_names_enclosing hdocument⟩

end TemplateEngine.Environment
