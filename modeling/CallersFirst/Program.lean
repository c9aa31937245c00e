import CallersFirst.Command.Fix
import CallersFirst.Command.Outline
import CallersFirst.Command.SettingsFile
import CallersFirst.CommandLine

/-! Carrying out what a command line asks for. -/

namespace CallersFirst

/-- Does what is asked for under given settings. -/
def Action.run (parser : Parser) (settings : Settings) : Action → Command Unit
  | .check paths format => Command.check parser settings paths format
  | .fix paths dryRun => discard (Command.fix parser settings paths dryRun)
  | .outline path format => Command.outline parser settings path format
  | .writeSettings directory => Command.writeSettings directory

/-- Reads the settings and does what is asked for. -/
def Invocation.run (parser : Parser) (invocation : Invocation) : Command Unit := do
  let settings ← Command.attempt ((← Command.files).settingsFor invocation.settingsPath)
  Command.say settings.parsing.notices
  invocation.action.run parser settings

end CallersFirst
