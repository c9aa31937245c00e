import CallersFirst.ParsedFile

/-! When a text can be read as that of a file, and what the path of the file has to do with it. -/

namespace CallersFirst

section Reading

variable {parser : Parser} {settings : ParsingSettings} {path : String} {source : Text} {file : ParsedFile}

/-- A text is read if its language is known, its size allowed and the parser gives a tree. -/
theorem parseText_eq_ok_iff :
    parseText parser settings path source = .ok file ↔
      ∃ language tree, settings.languageOf? path = some language ∧
        source.byteSize ≤ settings.maxFileSize ∧ parser (language.grammar path) source = some tree ∧
        file = ⟨path, language, source.hash, source, tree⟩ := by
  unfold parseText
  constructor
  · intro parsed
    -- Each question that is answered badly ends the reading.
    split at parsed
    · cases parsed
    · rename_i language known
      split at parsed
      · cases parsed
      · rename_i small
        split at parsed
        · cases parsed
        · rename_i tree found
          cases parsed
          exact ⟨language, tree, known, by omega, found, rfl⟩
  · rintro ⟨language, tree, known, small, found, rfl⟩
    have fits : ¬ settings.maxFileSize < source.byteSize := by omega
    simp only [known, fits, found, if_false]

/-- A file bears the path under which its text was read. -/
theorem path_of_parseText (parsed : parseText parser settings path source = .ok file) : file.path = path := by
  obtain ⟨language, tree, _, _, _, rfl⟩ := parseText_eq_ok_iff.1 parsed
  rfl

end Reading

/-- The same file under another path. -/
def ParsedFile.renamed (path : String) (file : ParsedFile) : ParsedFile :=
  { file with path }

/-- Under another path with the same extension, a text is read the same way. -/
theorem parseText_renamed {path other : String} (same : Path.extension? other = Path.extension? path)
    (parser : Parser) (settings : ParsingSettings) (source : Text) :
    (parseText parser settings other source).toOption =
      (parseText parser settings path source).toOption.map (·.renamed other) := by
  -- The extension alone tells the language and the grammar.
  have language : settings.languageOf? other = settings.languageOf? path := by
    simp only [ParsingSettings.languageOf?, Language.ofPath?, same]
  have grammar (language : Language) : language.grammar other = language.grammar path := by
    simp only [Language.grammar, same]
  unfold parseText
  rw [language]
  cases settings.languageOf? path with
  | none => rfl
  | some language =>
    simp only [grammar]
    split
    · rfl
    · cases parser (language.grammar path) source with
      | none => rfl
      | some tree => rfl

end CallersFirst
