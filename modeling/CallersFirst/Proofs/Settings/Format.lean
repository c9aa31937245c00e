import CallersFirst.Command.SettingsFile
import CallersFirst.Proofs.FileTree.Writing
import CallersFirst.Proofs.Toml.Table

/-! Settings that are written to a file are read back from it, and checked. -/

namespace CallersFirst

namespace Settings

/-- Settings with numbers that a document can hold. -/
structure Fits (settings : Settings) : Prop where
  /-- The size of a source text. -/
  maxFileSize : settings.parsing.maxFileSize < numberBound
  /-- How often a file may be changed. -/
  maxPasses : settings.ordering.maxPasses < numberBound

section Document

variable {settings : Settings}

/-- The tables of a document with settings. -/
def blocks (settings : Settings) (fits : settings.Fits) : List Toml.Block := [
  { name := "project"
    fields := [
      ⟨"source_dirs", _, _, by decide, Toml.writes_stringArray settings.project.sourceDirs⟩,
      ⟨"ignore_patterns", _, _, by decide, Toml.writes_stringArray settings.project.ignorePatterns⟩]
    bare := by decide
    distinct := by simp },
  { name := "parsing"
    fields := [
      ⟨"languages", _, _, by decide, Toml.writes_stringArray settings.parsing.languages⟩,
      ⟨"max_file_size", _, _, by decide, Toml.writes_decimal fits.maxFileSize⟩]
    bare := by decide
    distinct := by simp },
  { name := "ordering"
    fields := [
      ⟨"class_bodies", _, _, by decide, Toml.writes_boolean settings.ordering.classBodies⟩,
      ⟨"nested_scopes", _, _, by decide, Toml.writes_boolean settings.ordering.nestedScopes⟩,
      ⟨"max_passes", _, _, by decide, Toml.writes_decimal fits.maxPasses⟩]
    bare := by decide
    distinct := by simp },
  { name := "output"
    fields := [⟨"format", _, _, by decide, Toml.writes_quoted settings.output.format⟩]
    bare := by decide
    distinct := by simp }]

/-- The document of settings is made of the lines of its tables. -/
theorem document_eq (fits : settings.Fits) :
    settings.document = ((Toml.Block.allLines (settings.blocks fits)).map (·.1)).flatten := by
  simp only [document, blocks, Toml.Block.allLines, Toml.Block.lines, Toml.tableBlock, List.map_cons, List.map_nil,
    List.flatten_cons, List.flatten_nil, List.append_nil, List.cons_append, List.append_assoc, List.nil_append]

/-- A list of texts is read from the array that holds them. -/
theorem strings?_map (texts : List String) : (Toml.Value.array (texts.map .string)).strings? = some texts := by
  change (texts.map .string).mapM Toml.Value.string? = some texts
  induction texts with
  | nil => rfl
  | cons text texts ih =>
    -- The first text is read, and the others are by induction.
    rw [List.map_cons, List.mapM_cons, ih]
    rfl

/-- Settings of the project are read from their table. -/
theorem project?_table (project : ProjectSettings) :
    project? (.table [("source_dirs", .array (project.sourceDirs.map .string)),
      ("ignore_patterns", .array (project.ignorePatterns.map .string))]) = some project := by
  have byName (dirs patterns : Toml.Value) : project? (.table [("source_dirs", dirs), ("ignore_patterns", patterns)]) =
      dirs.strings?.bind fun dirs => patterns.strings?.bind fun patterns => some ⟨dirs, patterns⟩ := rfl
  rw [byName, strings?_map, strings?_map]
  rfl

/-- Settings for parsing are read from their table. -/
theorem parsing?_table (parsing : ParsingSettings) :
    parsing? (.table [("languages", .array (parsing.languages.map .string)),
      ("max_file_size", .integer parsing.maxFileSize)]) = some parsing := by
  have byName (languages : Toml.Value) :
      parsing? (.table [("languages", languages), ("max_file_size", .integer parsing.maxFileSize)]) =
        languages.strings?.bind fun languages => some ⟨languages, parsing.maxFileSize⟩ := rfl
  rw [byName, strings?_map]
  rfl

/-- Settings for the order are read from their table. -/
theorem ordering?_table (ordering : OrderingSettings) :
    ordering? (.table [("class_bodies", .boolean ordering.classBodies),
      ("nested_scopes", .boolean ordering.nestedScopes), ("max_passes", .integer ordering.maxPasses)]) =
        some ordering := rfl

/-- Settings for the output are read from their table. -/
theorem output?_table (output : OutputSettings) :
    output? (.table [("format", .string output.format)]) = some output := rfl

/-- The values of settings stand for these settings. -/
theorem ofValue?_blocks (fits : settings.Fits) :
    ofValue? (.table ((settings.blocks fits).map Toml.Block.entry)) = some settings := by
  -- Looking up the four names in a table of just these finds their values.
  have byName (project parsing ordering output : Toml.Value) :
      ofValue? (.table [("project", project), ("parsing", parsing), ("ordering", ordering), ("output", output)]) =
        (project? project).bind fun project => (parsing? parsing).bind fun parsing =>
          (ordering? ordering).bind fun ordering => (output? output).bind fun output =>
            some ⟨project, parsing, ordering, output⟩ := rfl
  simp only [blocks, List.map_cons, List.map_nil, Toml.Block.entry, byName, project?_table, parsing?_table,
    ordering?_table, output?_table, Option.bind_some]

/-- The text of settings is read as these settings, which are then checked. -/
theorem parse_document (fits : settings.Fits) : parse settings.document = settings.validate := by
  have read : Toml.parse? settings.document = some (.table ((settings.blocks fits).map Toml.Block.entry)) := by
    rw [document_eq fits]
    exact Toml.Block.parse?_allLines (by simp [blocks])
  simp [parse, read, ofValue?_blocks fits]

/-- Settings that fit can be written. -/
theorem render_eq_ok (fits : settings.Fits) : settings.render = .ok settings.document := by
  rw [render, if_pos ⟨fits.maxFileSize, fits.maxPasses⟩]

end Document

end Settings

/-- Settings that have been written to a file are read from it, or refused as their check says. -/
theorem FileTree.readSettings_of_writeText {files written : FileTree} {path : String} {settings : Settings}
    (fits : settings.Fits) (wrote : files.writeText path settings.document = .ok written) :
    written.readSettings path = settings.validate.mapError .settings := by
  rw [readSettings, readText_of_writeText wrote]
  simp only [Settings.parse_document fits]
  cases settings.validate with
  | error cause => rfl
  | ok settings => rfl

/--
Settings with numbers below the bound of a document can be written, whatever their texts are, and are read back
where they have been written.

They come back as they were if they allow a pass and name a known format, and are refused otherwise.
-/
theorem settings_readBack {files : FileTree} {path : String} {settings : Settings} (fits : settings.Fits)
    (writable : files.IsWritable path) :
    ∃ text written, settings.render = .ok text ∧ files.writeText path text = .ok written ∧
      (1 ≤ settings.ordering.maxPasses → settings.output.format = "text" ∨ settings.output.format = "json" →
        written.readSettings path = .ok settings) ∧
      (settings.ordering.maxPasses = 0 → written.readSettings path = .error (.settings .noPasses)) ∧
      (1 ≤ settings.ordering.maxPasses → ¬ (settings.output.format = "text" ∨ settings.output.format = "json") →
        written.readSettings path = .error (.settings (.unknownFormat settings.output.format))) := by
  obtain ⟨written, wrote⟩ := writable.exists_writeText settings.document
  refine ⟨settings.document, written, Settings.render_eq_ok fits, wrote, ?_⟩
  -- What was written is read as the settings, so only their validation is left.
  rw [FileTree.readSettings_of_writeText fits wrote]
  refine ⟨fun some_pass known => ?_, fun none => ?_, fun some_pass unknown => ?_⟩
  · rw [Settings.validate, if_neg (by omega), if_pos (by simpa using known)]
    rfl
  · rw [Settings.validate, if_pos none]
    rfl
  · rw [Settings.validate, if_neg (by omega), if_neg (by simpa using unknown)]
    rfl

namespace Sample

/-- Settings with marks, backslashes, line breaks and control characters in their texts. -/
def oddSettings : Settings where
  project :=
    { sourceDirs := ["", "a\"b\\c", "d'\"e", "f\n'''\"\"\"\"\"", "\r\n\x00\x7f\u2028"]
      ignorePatterns := ["'''\\\"\"\""] }
  parsing := { languages := [], maxFileSize := Settings.numberBound - 1 }
  ordering := { maxPasses := 1 }
  output := { format := "json" }

/-- The settings of the sample fit. -/
theorem oddSettings_fits : oddSettings.Fits :=
  ⟨by decide, by decide⟩

end Sample

/-- Settings with odd texts are read back from a new file in an empty directory. -/
theorem settings_readBack_sample :
    Sample.oddSettings.Fits ∧ ∃ text written, Sample.oddSettings.render = .ok text ∧
      ({} : FileTree).writeText "readorder.toml" text = .ok written ∧
      written.readSettings "readorder.toml" = .ok Sample.oddSettings := by
  have writable : ({} : FileTree).IsWritable "readorder.toml" := ⟨[], _, by rfl⟩
  obtain ⟨text, written, rendered, wrote, readBack, _⟩ :=
    settings_readBack Sample.oddSettings_fits writable
  exact ⟨Sample.oddSettings_fits, text, written, rendered, wrote, readBack (by decide) (.inr rfl)⟩

end CallersFirst
