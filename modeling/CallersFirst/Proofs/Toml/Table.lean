import CallersFirst.Proofs.Toml.Document
import Mathlib.Data.List.Nodup

/-! A document of tables, each with a header and its keys on lines of their own, reads back as these tables. -/

namespace CallersFirst.Toml

section Items

variable {items inner : Items} {name key : String}

/-- A key that no item has is not found. -/
theorem lookup_eq_none_of_notMem (new : key ∉ items.map (·.1)) : items.lookup key = none := by
  rw [List.lookup_eq_none_iff]
  intro item member
  refine bne_iff_ne.2 ?_
  rintro rfl
  exact new (List.mem_map_of_mem member)

/-- The last key is looked up if it is new. -/
theorem lookup_append_self (new : key ∉ items.map (·.1)) (item : Item) :
    (items ++ [(key, item)]).lookup key = some item := by
  rw [List.lookup_append, lookup_eq_none_of_notMem new]
  simp

/-- The last key is given a new meaning, if no other one has its name. -/
theorem replace_append_self (new : key ∉ items.map (·.1)) (old item : Item) :
    Items.replace (items ++ [(key, old)]) key item = items ++ [(key, item)] := by
  -- The keys in front have other names and keep their meaning.
  have others : Items.replace items key item = items := by
    unfold Items.replace
    conv_rhs => rw [← List.map_id items]
    refine List.map_congr_left fun pair member => if_neg ?_
    rintro rfl
    exact new (List.mem_map_of_mem member)
  rw [Items.replace] at others ⊢
  rw [List.map_append, others]
  simp

/-- A header opens a table that is not there yet. -/
theorem extend?_openTable {current : List String} (new : name ∉ items.map (·.1)) :
    Draft.extend? ⟨items, current⟩ (.openTable [name]) = some ⟨items ++ [(name, .table .header [])], [name]⟩ := by
  simp [Draft.extend?, openTable, within, lookup_eq_none_of_notMem new]

/-- A change is made in the table that a header has opened. -/
theorem within_header {change : Origin → Items → Option Items} {origin : Origin}
    (found : items.lookup name = some (.table .header inner)) :
    within false change [name] origin items =
      (change .header inner).map fun changed => items.replace name (.table .header changed) := by
  have enters : (!(false && decide (Origin.header = .header))) = true := rfl
  -- A table that a header has opened can be entered, so the guard holds.
  rw [within, found]
  change ((guard _ : Option Unit).bind fun _ => (change .header inner).bind fun changed =>
    some (items.replace name (.table .header changed))) = _
  rw [(Option.guard_eq_some' ()).2 enters, Option.bind_some]
  cases change .header inner with
  | none => rfl
  | some changed => rfl

/-- A new key is added to the table that was opened last. -/
theorem extend?_assign (newTable : name ∉ items.map (·.1)) (newKey : key ∉ inner.map (·.1)) (value : Value) :
    Draft.extend? ⟨items ++ [(name, .table .header inner)], [name]⟩ (.assign [key] value) =
      some ⟨items ++ [(name, .table .header (inner ++ [(key, .value value)]))], [name]⟩ := by
  have added : assign [key] value .header inner = some (inner ++ [(key, .value value)]) := by
    simp [assign, within, Items.add?, lookup_eq_none_of_notMem newKey]
  rw [Draft.extend?, within_header (lookup_append_self newTable _), added, Option.map_some,
    replace_append_self newTable]
  rfl

end Items

/-- A key with its value, and how the value is written. -/
structure Field where
  /-- The key. -/
  key : String
  /-- The text of the value. -/
  content : Text
  /-- The value. -/
  value : Value
  /-- The key needs no quotes. -/
  bare : IsBare key
  /-- The text is read as the value. -/
  writes : Writes content value

/-- A table that is written with a header. -/
structure Block where
  /-- The name in the header. -/
  name : String
  /-- What the table holds. -/
  fields : List Field
  /-- The name needs no quotes. -/
  bare : IsBare name
  /-- No key is there twice. -/
  distinct : (fields.map (·.key)).Nodup

namespace Block

/-- The lines of a table with what each of them says. -/
def lines (block : Block) : List (Text × List Statement) :=
  ('[' :: (block.name.toList ++ [']', '\n']), [.openTable [block.name]]) ::
    block.fields.map fun field => (keyLine field.key field.content, [.assign [field.key] field.value])

/-- The lines of tables, with an empty one between each two. -/
def allLines : List Block → List (Text × List Statement)
  | [] => []
  | [block] => block.lines
  | block :: blocks => block.lines ++ (['\n'], []) :: allLines blocks

/-- What a table says. -/
def statements (block : Block) : List Statement :=
  .openTable [block.name] :: block.fields.map fun field => .assign [field.key] field.value

/-- A table as it is kept while a document is read. -/
def item (block : Block) : String × Item :=
  (block.name, .table .header (block.fields.map fun field => (field.key, .value field.value)))

/-- A table as it is once the document has been read. -/
def entry (block : Block) : String × Value :=
  (block.name, .table (block.fields.map fun field => (field.key, field.value)))

/-- Every line of a block says what stands beside it. -/
theorem says_of_mem_lines {block : Block} {line : Text × List Statement} (member : line ∈ block.lines) :
    Says line.1 line.2 := by
  rcases List.mem_cons.1 member with rfl | member
  · exact says_header block.bare
  · obtain ⟨field, _, rfl⟩ := List.mem_map.1 member
    exact says_keyLine field.bare field.writes

/-- Every line of a document says what stands beside it. -/
theorem says_of_mem_allLines {blocks : List Block} : ∀ line ∈ allLines blocks, Says line.1 line.2 := by
  fun_induction allLines blocks with
  | case1 => simp
  | case2 block => exact fun line member => says_of_mem_lines member
  | case3 block blocks _ ih =>
    intro line member
    -- The line is of the first table, is the blank one behind it, or is of a later table.
    rcases List.mem_append.1 member with member | member
    · exact says_of_mem_lines member
    · rcases List.mem_cons.1 member with rfl | member
      · exact says_blank
      · exact ih line member

/-- The lines of a block together say its statements. -/
theorem flatten_lines (block : Block) : (block.lines.map (·.2)).flatten = block.statements := by
  rw [lines, statements, List.map_cons, List.flatten_cons, List.map_map, ← List.flatMap_def]
  exact congrArg (_ :: ·) List.map_eq_flatMap.symm

/-- The lines of tables say what the tables say. -/
theorem flatten_allLines (blocks : List Block) :
    ((allLines blocks).map (·.2)).flatten = blocks.flatMap statements := by
  fun_induction allLines blocks with
  | case1 => rfl
  | case2 block => simp [flatten_lines]
  | case3 block blocks _ ih => simp [flatten_lines, ih]

/-- The keys of a table are added one after the other. -/
theorem foldlM_assign {items : Items} {name : String} (newTable : name ∉ items.map (·.1)) (fields : List Field) :
    ∀ inner : Items, (inner.map (·.1) ++ fields.map (·.key)).Nodup →
      (fields.map fun field => Statement.assign [field.key] field.value).foldlM Draft.extend?
          ⟨items ++ [(name, .table .header inner)], [name]⟩ =
        some ⟨items ++ [(name, .table .header (inner ++ fields.map fun field => (field.key, .value field.value)))],
          [name]⟩ := by
  induction fields with
  | nil =>
    intro inner _
    simp
  | cons field fields ih =>
    intro inner distinct
    -- The key is new in its table, so it is added at the end, and the others follow.
    have newKey : field.key ∉ inner.map (·.1) :=
      fun old => (List.nodup_append.1 distinct).2.2 _ old _ (List.mem_cons_self ..) rfl
    have added := ih (inner ++ [(field.key, .value field.value)]) (by simpa using distinct)
    rw [List.map_cons, List.foldlM_cons, extend?_assign newTable newKey]
    simpa using added

/-- What a table says makes a table of its own. -/
theorem foldlM_statements (block : Block) {items : Items} {current : List String}
    (new : block.name ∉ items.map (·.1)) :
    block.statements.foldlM Draft.extend? ⟨items, current⟩ = some ⟨items ++ [block.item], [block.name]⟩ := by
  rw [statements, List.foldlM_cons, extend?_openTable new]
  exact foldlM_assign new block.fields [] (by simpa using block.distinct)

/-- What tables say makes these tables. -/
theorem foldlM_flatMap_statements (blocks : List Block) :
    ∀ draft : Draft, (draft.items.map (·.1) ++ blocks.map (·.name)).Nodup →
      ((blocks.flatMap statements).foldlM Draft.extend? draft).map (·.items) =
        some (draft.items ++ blocks.map item) := by
  induction blocks with
  | nil =>
    intro draft _
    simp
  | cons block blocks ih =>
    intro draft distinct
    -- The table is new, so its header opens it, and the others follow.
    have new : block.name ∉ draft.items.map (·.1) :=
      fun old => (List.nodup_append.1 distinct).2.2 _ old _ (List.mem_cons_self ..) rfl
    rw [List.flatMap_cons, List.foldlM_append, foldlM_statements block new]
    have added := ih ⟨draft.items ++ [block.item], [block.name]⟩ (by simpa [item] using distinct)
    simpa using added

/-- The items of blocks are complete as the entries of the blocks. -/
theorem completeAll_items (blocks : List Block) : completeAll (blocks.map item) = blocks.map entry := by
  -- Inside a table there are plain values only.
  have inner (fields : List Field) : completeAll (fields.map fun field => (field.key, .value field.value)) =
      fields.map fun field => (field.key, field.value) := by
    induction fields with
    | nil => rfl
    | cons field fields ih => simp [completeAll, Item.complete, ih]
  induction blocks with
  | nil => rfl
  | cons block blocks ih => simp [completeAll, Item.complete, item, entry, inner, ih]

/-- A document of tables with different names reads back as these tables. -/
theorem parse?_allLines {blocks : List Block} (distinct : (blocks.map (·.name)).Nodup) :
    parse? ((allLines blocks).map (·.1)).flatten = some (.table (blocks.map entry)) := by
  -- A document starts with a bracket, if with anything, and not with a byte order mark.
  have noMark : dropByteOrderMark ((allLines blocks).map (·.1)).flatten = ((allLines blocks).map (·.1)).flatten := by
    match blocks with
    | [] => rfl
    | [block] => rfl
    | block :: next :: blocks => rfl
  have read := statements?_flatten (@says_of_mem_allLines blocks) (Nat.lt_succ_self _)
  have made := foldlM_flatMap_statements blocks {} (by simpa using distinct)
  obtain ⟨draft, drafted, items⟩ := Option.map_eq_some_iff.1 made
  rw [parse?, noMark, read, flatten_allLines]
  simp only [Option.bind_eq_bind, Option.bind_some, drafted, items, List.nil_append, completeAll_items]
  rfl

end Block

end CallersFirst.Toml
