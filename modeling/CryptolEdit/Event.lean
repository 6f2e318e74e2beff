import CryptolEdit.Mode

/-!
What the library reports in its log. An event has a level, a message and some named fields.
-/

namespace CryptolEdit

/-- How much an event matters. -/
inductive Level where
  | trace
  | debug
  | warn
deriving DecidableEq, Repr

/-- Something worth a line in the log. -/
inductive Event where
  /-- A whole text was highlighted. -/
  | highlighted (mode : Mode) (spans : Nat)
  /-- The outline of a text was made. -/
  | outlined (declarations : Nat)
  /-- A session was asked for whose process still runs. -/
  | reused (session : Text) (pid : Nat)
  /-- A session was asked for whose process has ended. -/
  | expired (session : Text)
  /-- The interpreter could not be started. -/
  | startFailed (command reason : Text)
  | started (session : Text) (pid : Nat) (command : Text)
  | closed (session : Text) (pid : Nat)
  /-- Sessions were dropped because their processes had ended. -/
  | pruned (removed : Nat)
  /-- A process would not tell whether it runs. -/
  | unreadable (pid : Nat) (reason : Text)
  /-- The list of backends was loaded. -/
  | listed (count : Nat)
  /-- The list of backends was dropped. -/
  | forgotten
deriving DecidableEq, Repr

namespace Event

/-- The value of a field. -/
inductive Field where
  | number (n : Nat)
  | text (t : Text)
deriving DecidableEq, Repr

def level : Event → Level
  | highlighted .. | outlined .. => .trace
  | startFailed .. | unreadable .. => .warn
  | _ => .debug

def message : Event → String
  | highlighted .. => "highlighted buffer"
  | outlined .. => "scanned outline"
  | reused .. => "reusing live session"
  | expired .. => "previous session exited, starting a new one"
  | startFailed .. => "failed to start interpreter"
  | started .. => "spawned session"
  | closed .. => "closed session"
  | pruned .. => "pruned exited sessions"
  | unreadable .. => "cannot read interpreter status"
  | listed .. => "refreshed backend list"
  | forgotten => "invalidated backend list"

/-- The named fields of an event, beside its message. -/
def fields : Event → List (String × Field)
  | highlighted mode spans => [("mode", .text mode.title.toList), ("spans", .number spans)]
  | outlined declarations => [("declarations", .number declarations)]
  | reused session pid => [("session", .text session), ("pid", .number pid)]
  | expired session => [("session", .text session)]
  | startFailed command reason => [("command", .text command), ("error", .text reason)]
  | started session pid command =>
    [("session", .text session), ("pid", .number pid), ("command", .text command)]
  | closed session pid => [("session", .text session), ("pid", .number pid)]
  | pruned removed => [("removed", .number removed)]
  | unreadable pid reason => [("pid", .number pid), ("error", .text reason)]
  | listed count => [("count", .number count)]
  | forgotten => []

end Event

/-- A value, and the events on the way to it. -/
structure Logged (α : Type) where
  value : α
  events : List Event := []

end CryptolEdit
