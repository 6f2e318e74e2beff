import CryptolEdit.Json.Choice
import CryptolEdit.Json.Skip
import CryptolEdit.Settings

/-!
Settings as documents.

Settings are written as one compact object with all fields in order. They are read from an object
with any of the fields in any order, or from an array with the first fields in order; a field that
is missing keeps its standard value. Keys that are no fields are skipped with their values, but no
field may stand twice.
-/

namespace CryptolEdit.Settings

-- ============================================================ fields

/-- The parts of the settings, in the order in which they are written. -/
inductive Field where
  | interpreter
  | replArgs
  | compileArgs
  | backendArgs
  | indentWidth
deriving DecidableEq, Repr

namespace Field

def all : List Field := [.interpreter, .replArgs, .compileArgs, .backendArgs, .indentWidth]

/-- The key of a field. -/
def key : Field → Text
  | interpreter => "interpreter".toList
  | replArgs => "repl_args".toList
  | compileArgs => "compile_args".toList
  | backendArgs => "backend_query_args".toList
  | indentWidth => "indent_width".toList

/-- The field of a key. -/
def ofKey? (key : Text) : Option Field := all.find? fun f => f.key == key

end Field

-- =========================================================== writing

/-- A sequence of texts. -/
def renderTexts (ts : List Text) : Text :=
  ['['] ++ Text.join [','] (ts.map Json.quoted) ++ [']']

/-- The value of a field. -/
def renderField (s : Settings) : Field → Text
  | .interpreter => Json.quoted s.interpreter
  | .replArgs => renderTexts s.replArgs
  | .compileArgs => renderTexts s.compileArgs
  | .backendArgs => renderTexts s.backendArgs
  | .indentWidth =>
    match s.indentWidth with
    | none => "null".toList
    | some w => Decimal.digits w.toNat

/-- Settings as a document. -/
def render (s : Settings) : Text :=
  let member (f : Field) : Text := Json.quoted f.key ++ [':'] ++ s.renderField f
  ['\x7b'] ++ Text.join [','] (Field.all.map member) ++ ['\x7d']

-- =========================================================== reading

/-- Reads a field into settings. -/
def readField (s : Settings) (f : Field) (t : Text) : Json.Read Settings :=
  match f with
  | .interpreter => (Json.text .text t).map fun (v, r) => ({ s with interpreter := v }, r)
  | .replArgs => (Json.texts t).map fun (v, r) => ({ s with replArgs := v }, r)
  | .compileArgs => (Json.texts t).map fun (v, r) => ({ s with compileArgs := v }, r)
  | .backendArgs => (Json.texts t).map fun (v, r) => ({ s with backendArgs := v }, r)
  | .indentWidth => (Json.width t).map fun (v, r) => ({ s with indentWidth := v }, r)

/-- Settings so far, and the fields that have been read. -/
structure Draft where
  settings : Settings
  seen : List Field

/-- Reads a key, its colon and its value, after the quote that opens the key. -/
def readMember (d : Draft) (t : Text) : Json.Read Draft :=
  match Json.string t with
  | .error fault => .error fault
  | .ok (key, r) =>
    match Field.ofKey? key with
    | none =>
      match Json.colon r with
      | .error fault => .error fault
      | .ok r => (Json.skip r).map fun r => (d, r)
    | some f =>
      if d.seen.contains f then
        .error (.refused (.repeated key))
      else
        match Json.colon r with
        | .error fault => .error fault
        | .ok r => (d.settings.readField f r).map fun (s, r) => (⟨s, f :: d.seen⟩, r)

private theorem exists_of_map_ok {α β : Type} {f : α → β} {x : Except Json.Fault α} {b : β}
    (h : x.map f = .ok b) : ∃ a, x = .ok a ∧ f a = b := by
  cases x with
  | error fault => simp [Except.map] at h
  | ok a =>
    simp only [Except.map, Except.ok.injEq] at h
    exact ⟨a, rfl, h⟩

theorem length_readField {s s' : Settings} {f : Field} {t rest : Text}
    (h : s.readField f t = .ok (s', rest)) : rest.length ≤ t.length := by
  unfold readField at h
  split at h
  all_goals
    obtain ⟨⟨v, r⟩, hv, hr⟩ := exists_of_map_ok h
    obtain ⟨-, rfl⟩ := Prod.mk.inj hr
  · exact Nat.le_of_lt (Json.length_text hv)
  · exact Nat.le_of_lt (Json.length_texts hv)
  · exact Nat.le_of_lt (Json.length_texts hv)
  · exact Nat.le_of_lt (Json.length_texts hv)
  · exact Json.length_width hv

theorem length_readMember {d d' : Draft} {t rest : Text} (h : readMember d t = .ok (d', rest)) :
    rest.length < t.length := by
  unfold readMember at h
  split at h
  · simp at h
  · next key r hk =>
    have h1 := Json.length_string hk
    split at h
    · split at h
      · simp at h
      · next u hu =>
        have h2 := Json.length_colon hu
        obtain ⟨v, hv, hr⟩ := exists_of_map_ok h
        obtain ⟨-, rfl⟩ := Prod.mk.inj hr
        have := Json.length_skip hv
        omega
    · split at h
      · simp at h
      · split at h
        · simp at h
        · next u hu =>
          have h2 := Json.length_colon hu
          obtain ⟨⟨s, v⟩, hv, hr⟩ := exists_of_map_ok h
          obtain ⟨-, rfl⟩ := Prod.mk.inj hr
          have := length_readField hv
          omega

/-- Reads the members of an object after the quote that opens the first key. -/
def readMembers (d : Draft) (t : Text) : Json.Read Settings :=
  match _h : readMember d t with
  | .error fault => .error fault
  | .ok (d, r) =>
    match _hr : Json.trim r with
    | [] => .error .ended
    | '\x7d' :: r => .ok (d.settings, r)
    | ',' :: r =>
      match _hq : Json.trim r with
      | [] => .error .ended
      | '"' :: r => readMembers d r
      | _ => .error .malformed
    | _ => .error .malformed
termination_by t.length
decreasing_by
  exact Nat.lt_trans (Json.length_of_trim _hq)
    (Nat.lt_trans (Json.length_of_trim _hr) (length_readMember _h))

/-- Reads what follows an element of an array, and the elements after it. -/
def readElements (s : Settings) : List Field → Text → Json.Read Settings
  | fields, t =>
    match Json.trim t with
    | [] => .error .ended
    | ']' :: r => .ok (s, r)
    | ',' :: r =>
      match fields with
      | [] => .error .malformed
      | f :: fields =>
        match s.readField f r with
        | .error fault => .error fault
        | .ok (s, r) => readElements s fields r
    | _ => .error .malformed

/-- Reads settings. -/
def readValue (t : Text) : Json.Read Settings :=
  match Json.trim t with
  | '\x7b' :: r =>
    match Json.trim r with
    | [] => .error .ended
    | '\x7d' :: r => .ok (standard, r)
    | '"' :: r => readMembers ⟨standard, []⟩ r
    | _ => .error .malformed
  | '[' :: r =>
    match Json.trim r with
    | [] => .error .ended
    | ']' :: r => .ok (standard, r)
    | _ =>
      match standard.readField .interpreter r with
      | .error fault => .error fault
      | .ok (s, r) => readElements s [.replArgs, .compileArgs, .backendArgs, .indentWidth] r
  | r => .error (Json.wrongType .settings r)

/-- Reads a document that holds settings and nothing else. -/
def read (t : Text) : Except Json.Fault Settings := Json.document (readValue t)

/-- What the user is told of a document that is refused, but for the line and the column at which
the reader stopped: these follow as ` at line 1 column 2` and are not part of a cause. -/
def message (cause : Json.Cause) : Text := "invalid settings: ".toList ++ cause.message

end CryptolEdit.Settings
