import CryptolEdit.Mode

/-!
What an editor registers at startup: which files open in which mode, which commands are offered
under which keys, and the legend of the highlighting.
-/

namespace CryptolEdit

/-- What a user can ask an editor to do. -/
inductive Action where
  | startRepl
  | compile
  | refreshOutline
  | refreshBackends
deriving DecidableEq, Repr

/-- A key chord and a menu entry for an action. -/
structure Binding where
  action : Action
  key : String
  label : String
  /-- The modes that offer it. -/
  modes : List Mode
deriving DecidableEq, Repr

/-- All that an editor registers. -/
structure Registration where
  menu : String
  associations : List Association
  bindings : List Binding
  /-- Categories by index. -/
  legend : List Category
deriving DecidableEq, Repr

namespace Registration

/-- The registration of this library. -/
def standard : Registration where
  menu := "Cryptol"
  associations := Association.table
  bindings :=
    [⟨.startRepl, "C-c C-l", "Start REPL", [.source, .batch]⟩,
     ⟨.compile, "C-c C-c", "Compile", [.source]⟩,
     ⟨.refreshOutline, "C-c C-o", "Refresh Theorem Index", [.source]⟩,
     ⟨.refreshBackends, "C-c C-b", "Refresh Backends", [.source]⟩]
  legend := Category.all

/-- The bindings that a mode offers. -/
def bindingsFor (r : Registration) (mode : Mode) : List Binding :=
  r.bindings.filter fun b => b.modes.contains mode

/-- The action under a key. -/
def actionFor? (r : Registration) (key : String) : Option Action :=
  (r.bindings.find? fun b => b.key == key).map Binding.action

end Registration

end CryptolEdit
