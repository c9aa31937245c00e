import CallersFirst.Analysis
import CallersFirst.ParsedFile

/-! Putting a file in order, round after round, until it stops changing. -/

namespace CallersFirst

/-- What came of putting a file in order. -/
structure Settled where
  /-- What was said on the way. -/
  notices : List Notice
  /-- The last text, if it differs from the first and is safe to keep. -/
  result : Except Failure (Option Text)

namespace Settled

/-- What is said about a file that has syntax errors to begin with. -/
def skipNotice (path : String) : Notice :=
  ⟨.warn, s!"Skipping {path}: syntax errors"⟩

/-- What is said about a file whose new text has syntax errors. -/
def brokenNotice (path : String) : Notice :=
  ⟨.warn, s!"Rewrite of {path} did not parse cleanly; leaving it untouched"⟩

/-- What is said about a file that used up its rounds. -/
def unsettledNotice (path : String) (passes : Nat) : Notice :=
  ⟨.warn, s!"{path} still changing after {passes} passes; keeping the last result"⟩

/-- The same with notices of an earlier round in front. -/
def after (earlier : List Notice) (settled : Settled) : Settled :=
  { settled with notices := earlier ++ settled.notices }

end Settled

/-- Puts a file in order in at most the given number of rounds. Once a round has changed it, `changed`
holds. -/
def settleFrom (parser : Parser) (settings : Settings) (path : String) (changed : Bool)
    (current : ParsedFile) : Nat → Settled
  | 0 =>
    if current.tree.hasErrors then ⟨[Settled.brokenNotice path], .ok none⟩
    else
      ⟨[Settled.unsettledNotice path settings.ordering.maxPasses],
        .ok (if changed then some current.source else none)⟩
  | rounds + 1 =>
    if current.tree.hasErrors then
      ⟨[if changed then Settled.brokenNotice path else Settled.skipNotice path], .ok none⟩
    else
      let outcome := reorder current.source settings.ordering current.tree
      match outcome.newText with
      | none => ⟨outcome.notices, .ok (if changed then some current.source else none)⟩
      | some text =>
        match parseText parser settings.parsing path text with
        | .error failure => ⟨outcome.notices, .error failure⟩
        | .ok next => (settleFrom parser settings path true next rounds).after outcome.notices

/-- Puts a file in order until it stops changing or its rounds are used up. The result is its last
text, or nothing if it was in order already or cannot be changed safely. -/
def settle (parser : Parser) (settings : Settings) (file : ParsedFile) : Settled :=
  settleFrom parser settings file.path false file settings.ordering.maxPasses

end CallersFirst
