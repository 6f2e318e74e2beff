import CryptolEdit.Proofs.Json.Value
import CryptolEdit.Settings.Document

/-!
Settings are read as they were written.

A settings document is an object of members, and reading one keeps a draft: the settings so
far and the fields it has met. Reading the member of a new field changes the draft in that
field alone (`readMember_memberTail`), so a run over members of distinct fields leaves the
settings with exactly these fields taken from those that were written (`readMembers_join`).
The document has a member for every field, and nothing of the standard settings that
reading begins with is left.
-/

namespace CryptolEdit.Settings

open Json (EndsNumber trim_cons)

-- ============================================================== fields

/-- Settings with one field taken from others. -/
def adopt (s o : Settings) : Field → Settings
  | .interpreter => { s with interpreter := o.interpreter }
  | .replArgs => { s with replArgs := o.replArgs }
  | .compileArgs => { s with compileArgs := o.compileArgs }
  | .backendArgs => { s with backendArgs := o.backendArgs }
  | .indentWidth => { s with indentWidth := o.indentWidth }

/-- Settings that take every field from others are these. -/
theorem foldl_adopt_all (s o : Settings) : Field.all.foldl (fun s f => s.adopt o f) s = o := rfl

/-- Every field is found by its own key. -/
theorem Field.ofKey?_key (f : Field) : ofKey? f.key = some f := by
  cases f <;> rfl

/-- A list of texts is read back from what was written for it. -/
theorem texts_renderTexts (ts : List Text) (rest : Text) :
    Json.texts (renderTexts ts ++ rest) = .ok (ts, rest) := by
  have h : renderTexts ts ++ rest
      = '[' :: (Text.join [','] (ts.map Json.quoted) ++ ']' :: rest) := by
    simp [renderTexts]
  rw [h, Json.texts_join]

/-- A written field is read into the same field. -/
theorem readField_renderField (s o : Settings) (f : Field) {rest : Text} (h : EndsNumber rest) :
    s.readField f (o.renderField f ++ rest) = .ok (s.adopt o f, rest) := by
  cases f with
  | interpreter =>
      simp only [readField, renderField, Json.text_quoted]
      rfl
  | replArgs | compileArgs | backendArgs =>
      simp only [readField, renderField, texts_renderTexts]
      rfl
  | indentWidth =>
      have hwidth : Json.width (o.renderField .indentWidth ++ rest)
          = .ok (o.indentWidth, rest) := by
        unfold renderField
        cases o.indentWidth with
        | none => exact Json.width_null rest
        | some w => exact Json.width_digits w h
      simp only [readField, hwidth]
      rfl

-- ============================================================= members

/-- A field with its key, as it stands in an object. -/
def renderMember (s : Settings) (f : Field) : Text :=
  Json.quoted f.key ++ [':'] ++ s.renderField f

theorem render_eq (s : Settings) :
    s.render = ['\x7b'] ++ Text.join [','] (Field.all.map s.renderMember) ++ ['\x7d'] := rfl

/-- What stands after the quote that opens a member. -/
def memberTail (s : Settings) (f : Field) : Text :=
  f.key.flatMap Json.escaped ++ '"' :: ':' :: s.renderField f

theorem renderMember_eq (s : Settings) (f : Field) : s.renderMember f = '"' :: s.memberTail f := by
  simp [renderMember, memberTail, Json.quoted]

/-- Reading the member of a field that is new to a draft takes that field from what was written. -/
theorem readMember_memberTail (d : Draft) (o : Settings) {f : Field} (hf : f ∉ d.seen)
    {rest : Text} (h : EndsNumber rest) :
    readMember d (o.memberTail f ++ rest) = .ok (⟨d.settings.adopt o f, f :: d.seen⟩, rest) := by
  have htail : o.memberTail f ++ rest
      = f.key.flatMap Json.escaped ++ '"' :: ':' :: (o.renderField f ++ rest) := by
    simp [memberTail]
  have hcolon : Json.colon (':' :: (o.renderField f ++ rest)) = .ok (o.renderField f ++ rest) :=
    rfl
  have hseen : ¬d.seen.contains f = true := by
    rw [List.contains_iff_mem]
    exact hf
  rw [htail, readMember, Json.string_quoted]
  simp only [Field.ofKey?_key, if_neg hseen, hcolon, readField_renderField _ o f h]
  rfl

theorem readMembers_error {d : Draft} {t : Text} {fault : Json.Fault}
    (h : readMember d t = .error fault) : readMembers d t = .error fault := by
  rw [readMembers]
  grind

/-- A closing brace behind a member ends the object. -/
theorem readMembers_close {d d' : Draft} {t u r : Text} (hd : readMember d t = .ok (d', u))
    (hu : Json.trim u = '\x7d' :: r) : readMembers d t = .ok (d'.settings, r) := by
  rw [readMembers]
  grind

/-- A comma and a quote behind a member lead to the next one. -/
theorem readMembers_comma {d d' : Draft} {t u r v : Text} (hd : readMember d t = .ok (d', u))
    (hu : Json.trim u = ',' :: r) (hr : Json.trim r = '"' :: v) :
    readMembers d t = readMembers d' v := by
  rw [readMembers]
  grind

/-- A run over members of distinct new fields takes exactly these fields from what was written. -/
theorem readMembers_join (o : Settings) (f : Field) (fs : List Field) (d : Draft) (rest : Text)
    (hdistinct : (f :: fs).Nodup) (hnew : ∀ g ∈ f :: fs, g ∉ d.seen) :
    readMembers d (Text.join [','] (o.memberTail f :: fs.map o.renderMember) ++ '\x7d' :: rest)
      = .ok ((f :: fs).foldl (fun s g => s.adopt o g) d.settings, rest) := by
  induction fs generalizing f d with
  | nil =>
      have hf := hnew f List.mem_cons_self
      exact readMembers_close
        (readMember_memberTail d o hf (Json.endsNumber_cons (by decide) rest)) (trim_cons rfl rest)
  | cons g fs ih =>
      have hf := hnew f List.mem_cons_self
      obtain ⟨hfresh, hdistinct⟩ := List.nodup_cons.mp hdistinct
      -- the fields that are left are new to the draft that has `f`, since none of them is `f`
      have hleft : ∀ k ∈ g :: fs, k ∉ f :: d.seen := by
        intro k hk hseen
        rcases List.mem_cons.mp hseen with rfl | hseen
        · exact hfresh hk
        · exact hnew k (List.mem_cons_of_mem f hk) hseen
      rw [List.map_cons, Text.join_append, renderMember_eq, Text.join_cons_append,
        readMembers_comma (readMember_memberTail d o hf (Json.endsNumber_cons (by decide) _))
          (trim_cons rfl _) (trim_cons rfl _)]
      exact ih g ⟨d.settings.adopt o f, f :: d.seen⟩ hdistinct hleft

-- =========================================================== documents

/-- An object with something in it is read member by member, on top of the
defaults. -/
theorem readValue_members {t r v : Text} (ht : Json.trim t = '\x7b' :: r)
    (hr : Json.trim r = '"' :: v) : readValue t = readMembers ⟨standard, []⟩ v := by
  simp only [readValue, ht, hr]

/-- The fields after the first. -/
def Field.later : List Field := [.replArgs, .compileArgs, .backendArgs, .indentWidth]

/-- Settings with anything behind them are read whole, and nothing of what follows. -/
theorem readValue_render (s : Settings) (rest : Text) :
    readValue (s.render ++ rest) = .ok (s, rest) := by
  have hrender : s.render ++ rest = '\x7b' :: '"' ::
      (Text.join [','] (s.memberTail .interpreter :: Field.later.map s.renderMember)
        ++ '\x7d' :: rest) := by
    rw [← Text.join_cons_append, ← renderMember_eq, render_eq, List.append_assoc,
      List.append_assoc]
    rfl
  rw [hrender, readValue_members (trim_cons rfl _) (trim_cons rfl _),
    readMembers_join s .interpreter Field.later ⟨standard, []⟩ rest (by decide)
      (fun _ _ => List.not_mem_nil)]
  exact congrArg (fun o => Except.ok (o, rest)) (foldl_adopt_all standard s)

/-- Settings that are written and read are the same settings, whatever stands in their strings
and sequences, and whatever their width. -/
theorem read_render (s : Settings) : read s.render = .ok s := by
  have hvalue := readValue_render s []
  rw [List.append_nil] at hvalue
  rw [read, hvalue]
  rfl

end CryptolEdit.Settings
