import ScriptDoc.Proofs.Publication.Apart

/-! Published documents are read back. A document is published as a JSON text of ASCII characters, and
reading that text gives the value that was written: every field and every tag in its place, none of
them twice. So documents with different values are published as different texts. -/
namespace ScriptDoc.Publication

theorem getElem?_names {documents : List Document} {i : Nat} {d : Document}
    (h : documents[i]? = some d) : (names documents)[i]? = some (outputName (i + 1) d.path) := by
  have hLength : i < documents.length := (List.getElem?_eq_some_iff.mp h).1
  rw [names, List.getElem?_append_left (by rwa [List.length_mapIdx]), List.getElem?_mapIdx, h,
    Option.map_some]

/-- A document is published as an ASCII text that is read back as its value, so that documents are
published as one text exactly if they have one value. -/
theorem published_documents_read_back (d : Document) (hWhole : d.IsWhole) :
    (∀ (t : FileTree) (documents : List Document) (directory : Path) (written : List Path) (i : Nat),
      (publish t documents directory).2.result = .ok written → documents[i]? = some d →
        ∃ p, written[i]? = some p ∧ Holds (publish t documents directory).1 p d.toJson.pretty) ∧
    IsAscii d.toJson.pretty.toList ∧ Json.Written 5 (.value d.toJson) d.toJson.pretty.toList ∧
    Json.parse (Text.ofString d.toJson.pretty) = .ok d.toJson ∧ d.toJson.NamesOnce ∧
    ∀ other : Document, other.IsWhole →
      (other.toJson.pretty = d.toJson.pretty ↔ other.toJson = d.toJson) := by
  have hWritten := written_pretty hWhole 0
  have hParse := parse_pretty hWhole
  refine ⟨?_, hWritten.isAscii, hWritten, hParse, Json.parse_namesOnce hParse, ?_⟩
  · intro t documents directory written i hResult hDocument
    refine ⟨directory.child (outputName (i + 1) d.path), ?_, ?_⟩
    · rw [written_eq hResult, List.getElem?_map, getElem?_names hDocument, Option.map_some]
    · rw [Nat.add_comm i 1]
      exact holds_of_publish hResult (List.mem_append_left _ (mem_documentFiles hDocument 1))
  · intro other hOther
    refine ⟨fun hText => ?_, congrArg Json.pretty⟩
    have hParseOther := parse_pretty hOther
    rw [hText, hParse] at hParseOther
    exact (Except.ok.inj hParseOther).symm

/-- A document with an empty overview and a symbol whose texts need every kind of escape; in one of its
parameters halves of pairs stand alone. -/
def album : Document where
  path := "a/é.js"
  overview := Symbol.fresh "a/é.js" .file "" .empty [] [] 0
  symbols :=
    [{ name := "draw", fullName := "Box.draw", kind := .function
       description := "Draws \"😀\".\n\x01C:\\tmp\x7f"
       tags := .ofList [("see", "ü"), ("a\"b", ""), ("see", "😀")]
       params := ["w", "", [.half 0x480, .half 0]], properties := [.here 0, .here 7, .named "Box.é"] }]

theorem published_documents_read_back_album :
    album.IsWhole ∧
    (publish desk [album] (.ofText "out")).2.result =
      .ok [(Path.ofText "out").child "1_é.json", (Path.ofText "out").child "index.json"] ∧
    Holds (publish desk [album] (.ofText "out")).1 ((Path.ofText "out").child "1_é.json")
      album.toJson.pretty ∧
    IsAscii album.toJson.pretty.toList ∧
    Json.parse (Text.ofString album.toJson.pretty) = .ok album.toJson ∧
    { album with path := "a/e.js" }.toJson.pretty ≠ album.toJson.pretty := by
  have hWhole : album.IsWhole := by decide +kernel
  have hResult : (publish desk [album] (.ofText "out")).2.result =
      .ok [(Path.ofText "out").child "1_é.json", (Path.ofText "out").child "index.json"] := by
    decide +kernel
  obtain ⟨hFiles, hAscii, _, hParse, _, hApart⟩ := published_documents_read_back album hWhole
  obtain ⟨p, hPath, hHolds⟩ := hFiles desk [album] (.ofText "out") _ 0 hResult rfl
  cases hPath
  refine ⟨hWhole, hResult, hHolds, hAscii, hParse, fun hSame => ?_⟩
  have hValues := (hApart { album with path := "a/e.js" } (by decide +kernel)).mp hSame
  have hPaths : ("a/e.js" : Text) = "a/é.js" :=
    Json.str.inj (Option.some.inj (congrArg (Json.get? "path") hValues))
  exact absurd hPaths (by decide +kernel)

end ScriptDoc.Publication
