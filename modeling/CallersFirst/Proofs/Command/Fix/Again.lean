import CallersFirst.Proofs.Command.Fix

/-! Files that a run has put in order are left alone by the next run. -/

namespace CallersFirst

namespace FileTree

/-- The file at a path can be read, and settling it leaves it alone. -/
def IsStill (parser : Parser) (settings : Settings) (files : FileTree) (path : String) : Prop :=
  files.settledAt parser settings path = .ok none

section Still

variable {parser : Parser} {settings : Settings} {files : FileTree} {path other : String}

/-- Putting a file in order that is left alone changes nothing. -/
theorem IsStill.fixedAt_self (still : files.IsStill parser settings path) :
    files.fixedAt parser settings path = files := by
  simp only [fixedAt, show files.settledAt parser settings path = .ok none from still]

/-- A file is still once it has been put in order, unless it was said to be unsettled. -/
theorem isStill_fixedAt {outcome : Option Text}
    (settled : files.settledAt parser settings path = .ok outcome)
    (quiet : ∀ file, parseFile parser settings.parsing files path = .ok file →
      Settled.unsettledNotice path settings.ordering.maxPasses ∉ (settle parser settings file).notices) :
    (files.fixedAt parser settings path).IsStill parser settings path := by
  cases outcome with
  | none =>
    have still : files.IsStill parser settings path := settled
    rw [still.fixedAt_self]
    exact still
  | some text =>
    obtain ⟨file, parsed, result⟩ := settledAt_eq_ok_iff.1 settled
    obtain rfl := path_of_parseFile parsed
    -- What was written is read again, and has settled.
    obtain ⟨last, again, alone⟩ := settle_again result (quiet file parsed)
    exact settledAt_eq_ok_iff.2 ⟨last, parseFile_eq_ok_iff.2 ⟨text, readText_fixedAt settled, again⟩, alone⟩

/--
A still file is still by every path that leads to it.

All of these end with the name of the file, and thus have the same extension.
-/
theorem IsStill.of_locate {location : Location} (still : files.IsStill parser settings other)
    (there : files.locate other = .ok location) (here : files.locate path = .ok location) :
    files.IsStill parser settings path := by
  obtain ⟨file, parsed, alone⟩ := settledAt_eq_ok_iff.1 still
  obtain ⟨source, readable, parsed⟩ := parseFile_eq_ok_iff.1 parsed
  obtain ⟨place, located, found⟩ := readText_eq_ok_iff.1 readable
  rw [there] at located
  cases located
  -- The two paths end in the same name, and so have the same extension.
  have extension : Path.extension? path = Path.extension? other := by
    apply Path.extension?_congr
    rw [fileName?_of_locate here found, fileName?_of_locate there found]
  -- The same text is read as the same file but for its path.
  have renamed : parseText parser settings.parsing path source = .ok (file.renamed path) := by
    have same := parseText_renamed extension parser settings.parsing source
    rw [parsed] at same
    cases again : parseText parser settings.parsing path source with
    | error failure =>
      rw [again] at same
      cases same
    | ok read =>
      rw [again] at same
      cases same
      rfl
  refine settledAt_eq_ok_iff.2 ⟨file.renamed path, parseFile_eq_ok_iff.2 ⟨source, ?_, renamed⟩, ?_⟩
  · exact readText_eq_ok_iff.2 ⟨location, here, found⟩
  · exact settle_renamed_eq_none ((path_of_parseText parsed).symm ▸ extension) alone

/-- Putting any file in order leaves a still one still. -/
theorem IsStill.fixedAt (still : files.IsStill parser settings other) (path : String) :
    (files.fixedAt parser settings path).IsStill parser settings other := by
  unfold IsStill
  rw [settledAt_congr (sameRules_fixedAt parser settings files path).toSameLayout]
  · exact still
  · intro location there
    -- By whatever path the still file is met again, nothing is written to it.
    apply get?_fixedAt
    intro here text changed
    rw [still.of_locate there here] at changed
    cases changed

end Still

end FileTree

namespace Command

section Each

variable (parser : Parser) (settings : Settings)

/-- What was said before a run stays said. -/
theorem fixEach_notices (dryRun : Bool) (paths : List String) :
    ∀ world, ∃ said, (act (fixEach parser settings dryRun paths) world).2.notices = world.notices ++ said := by
  induction paths with
  | nil =>
    intro world
    exact ⟨[], (List.append_nil _).symm⟩
  | cons path rest ih =>
    intro world
    -- The first file adds its notices, and the others add theirs behind them.
    obtain ⟨reached, fixed, ends⟩ := act_fixEach_cons parser settings dryRun path rest world
    obtain ⟨first, spoken, _⟩ := fixed.notices
    obtain ⟨more, further⟩ := ih reached
    rcases ends with ⟨failure, _, acted⟩ | ⟨outcome, _, acted⟩
    · exact ⟨first, by rw [acted, spoken]⟩
    · exact ⟨first ++ more, by rw [acted, further, spoken, List.append_assoc]⟩

/-- A real run that comes to its end leaves all its files still, if none was said to be unsettled. -/
theorem fixEach_still (paths : List String) :
    ∀ {world reached : World} {changed : List String} {said : List Notice},
      act (fixEach parser settings false paths) world = (.ok changed, reached) →
      reached.notices = world.notices ++ said →
      (∀ path, Settled.unsettledNotice path settings.ordering.maxPasses ∉ said) →
      world.files.SameRules reached.files ∧
        (∀ path ∈ paths, reached.files.IsStill parser settings path) ∧
        ∀ other, world.files.IsStill parser settings other → reached.files.IsStill parser settings other := by
  induction paths with
  | nil =>
    intro world reached changed said acted _ _
    cases acted
    exact ⟨FileTree.SameRules.refl _, fun _ member => absurd member List.not_mem_nil, fun _ still => still⟩
  | cons path rest ih =>
    intro world last changed said acted spoken quiet
    obtain ⟨reached, fixed, ends⟩ := act_fixEach_cons parser settings false path rest world
    have files : reached.files = world.files.fixedAt parser settings path := fixed.files_eq
    rcases ends with ⟨failure, _, failed⟩ | ⟨outcome, settled, went⟩
    · rw [failed] at acted
      cases acted
    · -- The run over the other files has come to its end too.
      cases further : act (fixEach parser settings false rest) reached with
      | mk result ended =>
        rw [went, further] at acted
        cases result with
        | error failure => cases acted
        | ok others =>
          cases acted
          obtain ⟨first, firstSpoken, heard⟩ := fixed.notices
          obtain ⟨more, moreSpoken⟩ := fixEach_notices parser settings false rest reached
          rw [further] at moreSpoken
          -- What is said on the whole is what is said about the first file and then about the others.
          have parts : said = first ++ more := by
            rw [moreSpoken, firstSpoken, List.append_assoc] at spoken
            exact (List.append_cancel_left spoken).symm
          subst parts
          obtain ⟨same, stills, kept⟩ := ih further moreSpoken fun other member =>
            quiet other (List.mem_append_right _ member)
          rw [files] at same kept
          have still : (world.files.fixedAt parser settings path).IsStill parser settings path :=
            FileTree.isStill_fixedAt settled fun file parsed member =>
              quiet path (List.mem_append_left _ (heard file parsed member))
          refine ⟨(FileTree.sameRules_fixedAt parser settings world.files path).trans same, ?_, ?_⟩
          · exact List.forall_mem_cons.2 ⟨kept path still, stills⟩
          · exact fun other before => kept other (before.fixedAt path)

/-- A run over still files changes none of them. -/
theorem fixEach_of_still (paths : List String) :
    ∀ {world : World}, (∀ path ∈ paths, world.files.IsStill parser settings path) →
      (act (fixEach parser settings false paths) world).1 = .ok [] ∧
        (act (fixEach parser settings false paths) world).2.files = world.files := by
  induction paths with
  | nil =>
    intro world _
    exact ⟨rfl, rfl⟩
  | cons path rest ih =>
    intro world stills
    obtain ⟨still, stills⟩ := List.forall_mem_cons.1 stills
    obtain ⟨reached, fixed, ends⟩ := act_fixEach_cons parser settings false path rest world
    -- A still file is left as it is, so the others are still where the run goes on.
    have files : reached.files = world.files := fixed.files_eq.trans still.fixedAt_self
    rcases ends with ⟨failure, failed, _⟩ | ⟨outcome, settled, acted⟩
    · rw [still] at failed
      cases failed
    · rw [still] at settled
      cases settled
      rw [← files] at stills
      obtain ⟨result, stays⟩ := ih stills
      rw [acted]
      exact ⟨by rw [result]; rfl, stays.trans files⟩

end Each

end Command

end CallersFirst
