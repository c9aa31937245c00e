import CallersFirst.Proofs.FileTree

/-! Where a path leads is told by its steps, and where the path of an entry leads by those of its directory. -/

namespace CallersFirst

namespace Path

/-- A name that an entry of a directory can have. -/
def IsName (name : String) : Prop :=
  component? name = some (.name name) ∧ '/' ∉ name.toList ∧ '\x00' ∉ name.toList ∧
    name.utf8ByteSize ≤ nameLimit

instance (name : String) : Decidable (IsName name) :=
  inferInstanceAs (Decidable (_ ∧ _))

/-- How a path starts, if it starts at the root or at the current directory. -/
def lead? (path : String) : Option Component :=
  if isAbsolute path then some .root
  else if (segments path).head? = some "." then some .current
  else none

/-- The steps of a path behind its start. -/
def route (path : String) : List Component :=
  (segments path).filterMap component?

section Components

variable {path other name : String}

/-- Behind the start of a path there are names and steps back only. -/
theorem component?_cases {piece : String} {step : Component} (found : component? piece = some step) :
    step = .parent ∧ piece = ".." ∨ step = .name piece := by
  -- Empty pieces and single dots are no steps at all.
  unfold component? at found
  split at found
  · cases found
  · cases found
  · exact .inl ⟨(Option.some.inj found).symm, rfl⟩
  · exact .inr (Option.some.inj found).symm

/-- A path is made of its start and the steps behind it. -/
theorem components_eq (path : String) : components path = (lead? path).toList ++ route path := by
  unfold components lead? route
  simp only
  -- A slash at the start, a dot at the start, and neither of them.
  split
  · rfl
  · split
    · rfl
    · rfl

/-- The start of a path is seen in its first step. -/
theorem lead?_eq (path : String) :
    lead? path = (components path).head?.filter fun step => step = .root ∨ step = .current := by
  have starts : ∀ step, lead? path = some step → step = .root ∨ step = .current := by
    intro step isLead
    unfold lead? at isLead
    split at isLead
    · exact .inl (Option.some.inj isLead).symm
    · split at isLead
      · exact .inr (Option.some.inj isLead).symm
      · cases isLead
  rw [components_eq]
  -- Without such a start, the first step comes from a piece, which is no start either.
  cases isLead : lead? path with
  | some step => simp [Option.filter, starts step isLead]
  | none =>
    cases isRoute : route path with
    | nil => rfl
    | cons step rest =>
      obtain ⟨piece, _, found⟩ := List.mem_filterMap.1 (show step ∈ route path by simp [isRoute])
      rcases component?_cases found with ⟨rfl, _⟩ | rfl <;> simp [Option.filter]

/-- Paths with the same steps start alike and go on alike. -/
theorem lead?_and_route_of_components (same : components path = components other) :
    lead? path = lead? other ∧ route path = route other := by
  have start : lead? path = lead? other := by rw [lead?_eq, lead?_eq, same]
  rw [components_eq, components_eq, start] at same
  exact ⟨start, List.append_cancel_left same⟩

/-- A path is absolute if it starts at the root. -/
theorem isAbsolute_iff : isAbsolute path ↔ lead? path = some .root := by
  unfold lead?
  split
  · simp [*]
  · split <;> simp [*]

/-- The pieces of a path of an entry are those of its directory, without an empty one at their end, and its name. -/
theorem exists_segments_join (written : path ≠ "") (whole : '/' ∉ name.toList) :
    ∃ front, front ≠ [] ∧ (segments path = front ∨ segments path = front ++ [""]) ∧
      segments (join path name) = front ++ [name] := by
  have last : Text.splitAt '/' name.toList = [name.toList] := Text.splitAt_eq_singleton whole
  unfold join
  -- Whether a slash is put in between depends on how the path ends.
  split
  · rename_i empty
    exact absurd (String.toList_eq_nil_iff.1 (List.getLast?_eq_none_iff.1 empty)) written
  · rename_i slash
    obtain ⟨front, ends⟩ := List.getLast?_eq_some_iff.1 slash
    refine ⟨(Text.splitAt '/' front).map String.ofList, ?_, .inr ?_, ?_⟩
    · simpa using Text.splitAt_ne_nil '/' front
    · rw [segments, ends, Text.splitAt_append_cons]
      simp [Text.splitAt]
    · have joined : (path ++ name).toList = front ++ '/' :: name.toList := by simp [ends]
      rw [segments, joined, Text.splitAt_append_cons, last]
      simp
  · refine ⟨segments path, ?_, .inl rfl, ?_⟩
    · simpa [segments] using Text.splitAt_ne_nil '/' path.toList
    · have joined : (path ++ "/" ++ name).toList = path.toList ++ '/' :: name.toList := by simp
      rw [segments, joined, Text.splitAt_append_cons, last]
      simp [segments]

/-- One more step does not change where a path starts. -/
theorem isAbsolute_join (written : path ≠ "") (name : String) : isAbsolute (join path name) = isAbsolute path := by
  -- The first character decides, and it stays the same.
  obtain ⟨c, rest, shape⟩ := List.exists_cons_of_ne_nil (mt String.toList_eq_nil_iff.1 written)
  unfold join isAbsolute
  split
  · rename_i empty
    simp [shape] at empty
  · simp [shape]
  · simp [shape]

/-- The path of an entry starts as that of its directory, and has one step more. -/
theorem lead?_join (written : path ≠ "") (isName : IsName name) : lead? (join path name) = lead? path := by
  obtain ⟨front, some_piece, pieces, joined⟩ := exists_segments_join written isName.2.1
  obtain ⟨first, rest, rfl⟩ := List.exists_cons_of_ne_nil some_piece
  rw [lead?, lead?, isAbsolute_join written, joined]
  rcases pieces with pieces | pieces <;> rw [pieces] <;> rfl

/-- Joining a name to a path adds one step. -/
theorem components_join (written : path ≠ "") (isName : IsName name) :
    components (join path name) = components path ++ [.name name] := by
  obtain ⟨front, _, pieces, joined⟩ := exists_segments_join written isName.2.1
  have empty : component? "" = none := rfl
  -- An empty piece at the end is no step, so it makes no difference.
  have route_eq : route path = front.filterMap component? := by
    rcases pieces with pieces | pieces <;> simp [route, pieces, empty]
  rw [components_eq, components_eq, lead?_join written isName, route_eq, route, joined]
  simp [isName.1]

end Components

end Path

namespace FileTree

/-- The pieces with which a path leads to the working directory. -/
def outerPieces (tree : FileTree) (path : String) : List String :=
  if Path.isAbsolute path then Path.withoutFinal "" (Path.segments tree.home) else []

/-- The place to which steps lead from another one, if every name can be entered. -/
def follow (start : Location) (steps : List Path.Component) : Location :=
  steps.foldl
    (fun place step =>
      match step with
      | .name text => place ++ [text]
      | .parent => place.dropLast
      | _ => place)
    start

/-- A tree as a file system can be: with one entry at a place, under names that entries can have. -/
structure IsProper (tree : FileTree) : Prop where
  /-- No place is listed twice. -/
  distinct : (tree.entries.map (·.1)).Nodup
  /-- Every place is listed by names. -/
  named : ∀ listed ∈ tree.entries, ∀ name ∈ listed.1, Path.IsName name

section Routes

variable {tree : FileTree} {path other name : String} {location place start : Location} {pieces : List String}

/-- A path has steps from the working directory if it can be used at all and leads there first. -/
theorem steps_eq_ok_iff :
    tree.steps path = .ok pieces ↔
      '\x00' ∉ path.toList ∧ path ≠ "" ∧ Path.isTooLong path = false ∧
        Path.segments path = tree.outerPieces path ++ pieces := by
  unfold steps outerPieces
  split
  · simp [*]
  · split
    · simp [*]
    · split
      · simp [*]
      · split
        · simp only
          split
          · rename_i outer
            -- What is left once the way to the working directory is gone are the pieces behind it.
            obtain ⟨rest, whole⟩ := List.isPrefixOf_iff_prefix.1 outer
            have left : (Path.segments path).drop _ = rest := whole ▸ List.drop_left
            rw [left, ← whole, List.append_cancel_left_eq]
            simp [*]
          · rename_i outside
            -- A path that does not start with the working directory is refused, however it goes on.
            have differs : Path.segments path ≠ Path.withoutFinal "" (Path.segments tree.home) ++ pieces :=
              fun whole => outside (List.isPrefixOf_iff_prefix.2 ⟨pieces, whole.symm⟩)
            simp [differs]
        · simp [*, eq_comm]

/-- Pieces that can be followed lead to where the steps that they stand for lead. -/
theorem eq_follow_of_foldlM (made : pieces.foldlM tree.step start = .ok location) :
    location = follow start (pieces.filterMap Path.component?) := by
  induction pieces generalizing start with
  | nil =>
    cases made
    rfl
  | cons piece rest ih =>
    rw [List.foldlM_cons, bind_eq_ok_iff] at made
    obtain ⟨next, first, further⟩ := made
    rw [ih further]
    -- The piece stays, goes back or names a step, and following it does the same.
    obtain ⟨_, ⟨rfl | rfl, rfl⟩ | ⟨rfl, _, rfl⟩ | ⟨some_name, no_dot, no_dots, rfl⟩⟩ := step_eq_ok first
    · rfl
    · rfl
    · rfl
    · rw [List.filterMap_cons_some (Path.component?_eq_name some_name no_dot no_dots)]
      rfl

/-- Names lead on, one after the other. -/
theorem map_name_follow {steps : List Path.Component} (names : ∀ step ∈ steps, ∃ text, step = .name text) :
    (follow start steps).map .name = start.map .name ++ steps := by
  induction steps generalizing start with
  | nil => simp [follow]
  | cons step rest ih =>
    -- The first step enters its name, and the rest go on from there.
    obtain ⟨⟨text, rfl⟩, others⟩ := List.forall_mem_cons.1 names
    rw [show follow start (.name text :: rest) = follow (start ++ [text]) rest from rfl, ih others]
    simp

/-- The place to which a path leads is told by the pieces behind the working directory. -/
theorem exists_pieces_of_locate (located : tree.locate path = .ok location) :
    ∃ pieces, tree.steps path = .ok pieces ∧ pieces.foldlM tree.step [] = .ok location ∧
      Path.route path = (tree.outerPieces path).filterMap Path.component? ++ pieces.filterMap Path.component? ∧
      location = follow [] (pieces.filterMap Path.component?) := by
  rw [locate, bind_eq_ok_iff] at located
  obtain ⟨pieces, asked, made⟩ := located
  refine ⟨pieces, asked, made, ?_, eq_follow_of_foldlM made⟩
  rw [Path.route, (steps_eq_ok_iff.1 asked).2.2.2, List.filterMap_append]

/-- The pieces that lead to the working directory depend on how a path starts. -/
theorem outerPieces_congr (same : Path.lead? path = Path.lead? other) :
    tree.outerPieces path = tree.outerPieces other := by
  simp only [outerPieces, Path.isAbsolute_iff, same]

/-- Paths with the same steps lead to the same place, if they lead anywhere. -/
theorem locate_congr (same : Path.components path = Path.components other)
    (located : tree.locate path = .ok location) (otherLocated : tree.locate other = .ok place) :
    location = place := by
  obtain ⟨start, route⟩ := Path.lead?_and_route_of_components same
  obtain ⟨pieces, _, _, whole, rfl⟩ := exists_pieces_of_locate located
  obtain ⟨otherPieces, _, _, otherWhole, rfl⟩ := exists_pieces_of_locate otherLocated
  rw [whole, otherWhole, outerPieces_congr start] at route
  rw [List.append_cancel_left route]

/-- A path that starts in a given way and never goes back has the steps that its place tells. -/
theorem components_of_locate (located : tree.locate path = .ok location)
    (forward : .parent ∉ Path.components path) :
    Path.components path = (Path.lead? path).toList ++
      ((tree.outerPieces path).filterMap Path.component? ++ location.map .name) := by
  obtain ⟨pieces, _, _, whole, rfl⟩ := exists_pieces_of_locate located
  -- Without steps back, the pieces behind the working directory are all names.
  have names : ∀ step ∈ pieces.filterMap Path.component?, ∃ text, step = .name text := by
    intro step member
    obtain ⟨piece, _, found⟩ := List.mem_filterMap.1 member
    rcases Path.component?_cases found with ⟨rfl, _⟩ | rfl
    · refine absurd ?_ forward
      simp [Path.components_eq, whole, member]
    · exact ⟨piece, rfl⟩
  rw [Path.components_eq, whole, map_name_follow names, List.map_nil, List.nil_append]

/-- Once the final pieces of a kind are left out, the last one is of another kind. -/
theorem getLast?_withoutFinal_ne (piece : String) (steps : List String) :
    (Path.withoutFinal piece steps).getLast? ≠ some piece := by
  intro last
  rw [Path.withoutFinal, List.getLast?_reverse] at last
  have stopped := List.head?_dropWhile_not (· = piece) steps.reverse
  rw [last] at stopped
  simp at stopped

/-- The pieces of a path to a directory, and of the paths to its entries. -/
theorem exists_way_of_locate (located : tree.locate path = .ok location) (whole : '/' ∉ name.toList) :
    ∃ way, way.foldlM tree.step [] = .ok location ∧
      Path.segments (Path.join path name) = tree.outerPieces path ++ (way ++ [name]) := by
  obtain ⟨pieces, asked, made, _⟩ := exists_pieces_of_locate located
  obtain ⟨_, written, _, split⟩ := steps_eq_ok_iff.1 asked
  obtain ⟨front, _, segments | segments, joined⟩ := Path.exists_segments_join written whole
  · exact ⟨pieces, made, by rw [joined, ← segments, split, List.append_assoc]⟩
  · -- The empty piece at the end is none of those to the working directory, and makes no step.
    rw [split] at segments
    -- Without any pieces left, the working directory would end with an empty one.
    obtain rfl | ⟨way, last, rfl⟩ := List.eq_nil_or_concat pieces
    · rw [List.append_nil] at segments
      have ends : (tree.outerPieces path).getLast? = some "" := by rw [segments, List.getLast?_concat]
      unfold outerPieces at ends
      split at ends
      · exact absurd ends (getLast?_withoutFinal_ne _ _)
      · cases ends
    · rw [List.concat_eq_append] at segments made
      rw [← List.append_assoc] at segments
      obtain ⟨rfl, isEmpty⟩ := List.append_inj' segments rfl
      rw [List.cons.inj isEmpty |>.1, List.foldlM_append, bind_eq_ok_iff] at made
      obtain ⟨reached, made, stays⟩ := made
      rw [List.foldlM_cons, bind_eq_ok_iff] at stays
      obtain ⟨_, step, same⟩ := stays
      cases same
      refine ⟨way, ?_, by rw [joined, List.append_assoc]⟩
      -- The empty piece stays where it is, so that the pieces before it lead there already.
      obtain ⟨_, ⟨_, rfl⟩ | ⟨back, _⟩ | ⟨some_name, _⟩⟩ := step_eq_ok step
      · exact made
      · exact absurd back (by decide)
      · exact absurd rfl some_name

/-- The path of an entry of a directory leads to the entry, unless it is too long. -/
theorem locate_join (located : tree.locate path = .ok location)
    (directory : tree.get? location = some .directory) (isName : Path.IsName name)
    (present : (tree.get? (location ++ [name])).isSome) (short : Path.isTooLong (Path.join path name) = false) :
    tree.locate (Path.join path name) = .ok (location ++ [name]) := by
  obtain ⟨pieces, asked, _⟩ := exists_pieces_of_locate located
  obtain ⟨pathNoNul, written, _⟩ := steps_eq_ok_iff.1 asked
  have lastStep := Path.components_join written isName
  obtain ⟨named, whole, noNul, size⟩ := isName
  obtain ⟨way, made, split⟩ := exists_way_of_locate located whole
  have steps : tree.steps (Path.join path name) = .ok (way ++ [name]) := by
    rw [steps_eq_ok_iff]
    refine ⟨?_, ?_, short, ?_⟩
    · unfold Path.join
      split
      · exact noNul
      · simp [pathNoNul, noNul]
      · simp [pathNoNul, noNul]
    · -- The empty path has no steps.
      intro empty
      rw [empty, show Path.components "" = [] from rfl] at lastStep
      simp at lastStep
    · rw [split, outerPieces, outerPieces, Path.isAbsolute_join written]
  -- From the directory, the name leads to the entry that is present.
  have enters : tree.step location name = .ok (location ++ [name]) := by
    have stays : ¬ (name = "" ∨ name = ".") := by
      rintro (rfl | rfl) <;> cases named
    have forth : name ≠ ".." := by
      rintro rfl
      cases named
    simp only [step, directory, if_neg stays, if_neg forth, if_neg (Nat.not_lt.2 size), present, if_true]
  rw [locate, steps]
  change (way ++ [name]).foldlM tree.step [] = _
  rw [List.foldlM_append, made]
  change [name].foldlM tree.step location = _
  rw [List.foldlM_cons, enters]
  rfl

end Routes

end FileTree

end CallersFirst
