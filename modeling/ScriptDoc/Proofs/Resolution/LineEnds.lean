import ScriptDoc.Proofs.Outline.Likeness
import ScriptDoc.Proofs.Resolution.Files

/-! The documentation of a script whose lines end in a carriage return and a line feed is that of
the same script with line feeds alone, unless some token other than a comment or a string in
backticks goes over the end of a line, or a string that does is a key. -/
namespace ScriptDoc

namespace Resolution

/-- Of an overview comment only what it says gets into a document. -/
theorem document_eq_of_overviewOf {overview other : Option Text}
    (h : Outline.overviewOf other = Outline.overviewOf overview) (v : Visibility) (path : Text)
    (raw : List Symbol) : document v path raw other = document v path raw overview := by
  unfold document
  rw [Outline.ofOverview_eq, Outline.ofOverview_eq, h]

/-- A text that leaves something open fails with it. -/
theorem documents_of_fault {ε : Type} {source : Text} {fault : Token.Unterminated}
    (h : Token.tokenize source = .error fault) (v : Visibility) (path : Text) :
    documents v (fun _ => (.ok source : Except ε Text)) [path] =
      ⟨[begun 1 path], .error (.unterminated fault)⟩ := by
  have hFailure : failure? (.ok source : Except ε Text) = some (.unterminated fault) := by
    simp only [failure?, h]
  exact documents_of_failure v (fun _ => .ok source) hFailure

/-- Line ends of two characters do not matter where lines are kept and every key is on one line: for
every path and all options the same document is found with the same messages, or the same construct
is left open. -/
theorem documents_withReturns {ε : Type} (o : Options) (path text : Text)
    (hKeeps : Token.KeepsLines (Token.scanned text))
    (hKeys : ∀ tokens, Token.tokenize text = .ok tokens →
      ∀ key ∈ Outline.stringKeys {} tokens, .char '\n' ∉ key) :
    documents o.visibility (fun _ => (.ok text.withReturns : Except ε Text)) [path] =
      documents o.visibility (fun _ => (.ok text : Except ε Text)) [path] := by
  have hScan : Token.SameScan (Token.tokenize text) (Token.tokenize text.withReturns) :=
    Token.scanFrom_withReturns rfl hKeeps
  revert hScan
  generalize hText : Token.tokenize text = scan at hKeys ⊢
  generalize hOther : Token.tokenize text.withReturns = other
  intro hScan
  cases hScan with
  | error fault => rw [documents_of_fault hText, documents_of_fault hOther]
  | ok hAlike =>
      obtain ⟨hSymbols, hOverview⟩ := Outline.ofTokens_alike hAlike (hKeys _ rfl)
      rw [documents_of_tokens hText, documents_of_tokens hOther]
      simp only [hSymbols, document_eq_of_overviewOf hOverview, hAlike.length_eq]

/-- A comment, a line comment and a string in backticks go over the ends of lines. There is a colon
behind the string, but it is no key. -/
theorem documents_withReturns_lamp :
    Text.withReturns "/** Lamp.\n */\nLamp = a ? `b\\\n` : c; // d\n" =
        "/** Lamp.\r\n */\r\nLamp = a ? `b\\\r\n` : c; // d\r\n" ∧
      documents ({} : Options).visibility (fun _ => (.ok (Text.withReturns
          "/** Lamp.\n */\nLamp = a ? `b\\\n` : c; // d\n") : Except Unit Text)) ["lamp.js"] =
        documents ({} : Options).visibility (fun _ => (.ok
          "/** Lamp.\n */\nLamp = a ? `b\\\n` : c; // d\n" : Except Unit Text)) ["lamp.js"] := by
  have hTokens : Token.tokenize "/** Lamp.\n */\nLamp = a ? `b\\\n` : c; // d\n" =
      .ok [⟨.comment, "/** Lamp.\n */", 1⟩, ⟨.name, "Lamp", 3⟩, ⟨.punctuation, "=", 3⟩,
        ⟨.name, "a", 3⟩, ⟨.punctuation, "?", 3⟩, ⟨.string, "`b\\\n`", 3⟩, ⟨.punctuation, ":", 4⟩,
        ⟨.name, "c", 4⟩, ⟨.punctuation, ";", 4⟩, ⟨.comment, "// d", 4⟩] := by decide +kernel
  refine ⟨by decide +kernel, documents_withReturns {} "lamp.js" _ (by decide +kernel) ?_⟩
  intro tokens hFound
  rw [hTokens] at hFound
  cases hFound
  decide +kernel

/-- A backslash at the end of a line inside of a string in quotes goes well with a line feed behind
it. With a carriage return in between, the string is left open. -/
theorem documents_withReturns_escaped :
    (∃ d, (documents ({} : Options).visibility
        (fun _ => (.ok "var x = \"a\\\nb\";" : Except Unit Text)) ["a.js"]).result = .ok [d]) ∧
      (documents ({} : Options).visibility (fun _ => (.ok (Text.withReturns "var x = \"a\\\nb\";") :
        Except Unit Text)) ["a.js"]).result = .error (.unterminated ⟨.string, 1⟩) := by
  have hFeed : Token.tokenize "var x = \"a\\\nb\";" =
      .ok [⟨.name, "var", 1⟩, ⟨.name, "x", 1⟩, ⟨.punctuation, "=", 1⟩,
        ⟨.string, "\"a\\\nb\"", 1⟩, ⟨.punctuation, ";", 2⟩] := by decide +kernel
  have hReturn : Token.tokenize (Text.withReturns "var x = \"a\\\nb\";") =
      .error ⟨.string, 1⟩ := by decide +kernel
  exact ⟨⟨_, congrArg Logged.result (documents_of_tokens hFeed _ _)⟩,
    congrArg Logged.result (documents_of_fault hReturn _ _)⟩

end Resolution
end ScriptDoc
