import CallersFirst.Command
import CallersFirst.Proofs.Collection

/-! What commands give and what they leave behind, one part after another. -/

namespace CallersFirst

namespace Command

variable {α β : Type}

/-- What a command gives when it acts on a world, and the world it leaves behind. -/
def act (command : Command α) (world : World) : Except Failure α × World :=
  command.run.run world

/-- Giving a value changes nothing. -/
theorem act_pure (value : α) (world : World) : act (pure value) world = (.ok value, world) := rfl

/-- A command and one that goes on with its result act one after the other, unless the first one fails. -/
theorem act_bind (command : Command α) (next : α → Command β) (world : World) :
    act (command >>= next) world =
      match act command world with
      | (.ok value, reached) => act (next value) reached
      | (.error failure, reached) => (.error failure, reached) := by
  simp only [act, ExceptT.run_bind, StateT.run_bind]
  -- A failure of the first command is passed on with the world that it has left.
  cases command.run.run world with
  | mk result reached =>
    cases result with
    | ok value => rfl
    | error failure => rfl

/-- Asking for the files changes nothing. -/
theorem act_files (world : World) : act files world = (.ok world.files, world) := rfl

/-- After a command that succeeds the next one acts on what it has left behind. -/
theorem act_bind_of_ok {command : Command α} {next : α → Command β} {world reached : World} {value : α}
    (acted : act command world = (.ok value, reached)) :
    act (command >>= next) world = act (next value) reached := by
  rw [act_bind, acted]

/-- The world once something has been said. -/
def told (world : World) (notices : List Notice) : World :=
  { world with notices := world.notices ++ notices }

/-- Saying something does not change the files. -/
@[simp] theorem files_told (world : World) (notices : List Notice) :
    (told world notices).files = world.files := rfl

/-- What is said later comes behind what was said before. -/
theorem told_told (world : World) (first second : List Notice) :
    told (told world first) second = told world (first ++ second) := by
  simp only [told, List.append_assoc]

/-- Saying something cannot fail. -/
theorem act_say (notices : List Notice) (world : World) :
    act (say notices) world = (.ok (), told world notices) := rfl

/-- Telling about progress is saying one thing. -/
theorem act_inform (text : String) (world : World) :
    act (inform text) world = (.ok (), told world [⟨.info, text⟩]) := rfl

/-- A result that needs no world is given as it is, be it a failure or not. -/
theorem act_attempt (result : Except Failure α) (world : World) :
    act (attempt result) world = (result, world) := by
  cases result with
  | ok value => rfl
  | error failure => rfl

/-- Reading a source file changes nothing, and gives what reading it from the files gives. -/
theorem act_parse (parser : Parser) (settings : Settings) (path : String) (world : World) :
    act (parse parser settings path) world =
      (parseFile parser settings.parsing world.files path, world) := by
  rw [parse, act_bind_of_ok (act_files world), act_attempt]

/-- The source files that a command looks at: those at or below the paths that it is given, if any. -/
def collected (settings : Settings) (paths : List String) (files : FileTree) : Except Failure (List String) :=
  collect files settings (if paths.isEmpty then settings.project.sourceDirs else paths)

/-- Looking for source files changes nothing, and gives what is found among the files. -/
theorem act_sources (settings : Settings) (paths : List String) (world : World) :
    act (sources settings paths) world = (collected settings paths world.files, world) := by
  rw [sources, act_bind_of_ok (act_files world), act_attempt, collected]

/-- Writing to a file that is there changes its content. -/
theorem act_write {path : String} {location : Location} {content : ByteArray} (world : World) (text : Text)
    (located : world.files.locate path = .ok location)
    (found : world.files.get? location = some (.file content)) :
    act (write path text) world =
      (.ok (), { world with files := world.files.overwrite location (String.ofList text).toUTF8 }) := by
  rw [write, act_bind_of_ok (act_files world), FileTree.writeText_of_file text located found]
  rfl

end Command

end CallersFirst
