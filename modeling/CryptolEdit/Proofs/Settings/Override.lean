import CryptolEdit.Proofs.Json.Skip
import CryptolEdit.Proofs.Settings.RoundTrip
import Mathlib.Data.List.Induction
import Mathlib.Data.List.Nodup

/-!
Settings documents say what differs from the standard settings.

# What a document says

A member of a settings object sets a field (`Setting`) or has a key that is no field, and
then its value can be any value of the grammar (`Member`). All keys and values may be
spelled in any way, and blanks may stand between any two signs.

# What is read

Reading an object takes its members one after the other into a draft. What a draft makes
of a member does not depend on how the member is written: a new field is set, a field that
it has met is refused, and any other key is ignored (`Draft.take`). So reading is a fold
over members (`readMembers_items`), and what comes of the fold can be told from the
settings alone. If every field is set once, the result has these fields as they were set
and all others as they are in the standard settings, in whatever order they were set
(`Overrides`); otherwise the first field that is set again is refused
(`foldlM_set_repeated`).
-/

namespace CryptolEdit.Settings

open Json (Blank Literal Literals Padded Enclosed EndsNumber trim_cons trim_blank_cons)

-- ============================================================= settings

/-- A field and a value for it. -/
inductive Setting where
  | interpreter (program : Text)
  | replArgs (args : List Text)
  | compileArgs (args : List Text)
  | backendArgs (args : List Text)
  | indentWidth (width : Option UInt64)
deriving DecidableEq, Repr

/-- The field that a setting is about. -/
def Setting.field : Setting → Field
  | .interpreter _ => .interpreter
  | .replArgs _ => .replArgs
  | .compileArgs _ => .compileArgs
  | .backendArgs _ => .backendArgs
  | .indentWidth _ => .indentWidth

/-- Settings with one field set. -/
def set (s : Settings) : Setting → Settings
  | .interpreter program => { s with interpreter := program }
  | .replArgs args => { s with replArgs := args }
  | .compileArgs args => { s with compileArgs := args }
  | .backendArgs args => { s with backendArgs := args }
  | .indentWidth width => { s with indentWidth := width }

/-- A field of settings with its value. -/
def setting (s : Settings) : Field → Setting
  | .interpreter => .interpreter s.interpreter
  | .replArgs => .replArgs s.replArgs
  | .compileArgs => .compileArgs s.compileArgs
  | .backendArgs => .backendArgs s.backendArgs
  | .indentWidth => .indentWidth s.indentWidth

/-- Settings that differ from the standard in nothing but some settings. -/
structure Overrides (s : Settings) (xs : List Setting) : Prop where
  present : ∀ x ∈ xs, s.setting x.field = x
  absent : ∀ f, f ∉ xs.map Setting.field → s.setting f = standard.setting f

/-- Two settings that agree in every field are the same. -/
theorem ext_setting {s o : Settings} (h : ∀ f, s.setting f = o.setting f) : s = o := by
  have hinterpreter := Setting.interpreter.inj (h .interpreter)
  have hreplArgs := Setting.replArgs.inj (h .replArgs)
  have hcompileArgs := Setting.compileArgs.inj (h .compileArgs)
  have hbackendArgs := Setting.backendArgs.inj (h .backendArgs)
  have hindentWidth := Setting.indentWidth.inj (h .indentWidth)
  cases s
  cases o
  simp_all

/-- Setting a field changes that field alone. -/
theorem setting_set (s : Settings) (x : Setting) (f : Field) :
    (s.set x).setting f = if x.field = f then x else s.setting f := by
  cases x <;> cases f <;> rfl

/-- There is one way to differ from the standard in given settings. -/
theorem Overrides.unique {s o : Settings} {xs ys : List Setting} (hs : s.Overrides xs)
    (ho : o.Overrides ys) (h : ∀ x, x ∈ xs ↔ x ∈ ys) : s = o := by
  refine ext_setting fun f => ?_
  by_cases hf : f ∈ xs.map Setting.field
  · obtain ⟨x, hx, rfl⟩ := List.mem_map.mp hf
    rw [hs.present x hx, ho.present x ((h x).mp hx)]
  · have hf' : f ∉ ys.map Setting.field := by
      intro hmem
      obtain ⟨x, hx, rfl⟩ := List.mem_map.mp hmem
      exact hf (List.mem_map_of_mem ((h x).mpr hx))
    rw [hs.absent f hf, ho.absent f hf']

/-- What a run of settings leaves in a field that it does not set. -/
theorem setting_foldl_of_notMem (s : Settings) {xs : List Setting} {f : Field}
    (hf : f ∉ xs.map Setting.field) : (xs.foldl set s).setting f = s.setting f := by
  induction xs generalizing s with
  | nil => rfl
  | cons x xs ih =>
      rw [List.map_cons, List.mem_cons, not_or] at hf
      rw [List.foldl_cons, ih _ hf.2, setting_set, if_neg (Ne.symm hf.1)]

/-- What it leaves in a field that it sets once. -/
theorem setting_foldl_of_mem (s : Settings) {xs : List Setting}
    (hnodup : (xs.map Setting.field).Nodup) {x : Setting} (hx : x ∈ xs) :
    (xs.foldl set s).setting x.field = x := by
  induction xs generalizing s with
  | nil => cases hx
  | cons y xs ih =>
      rw [List.map_cons, List.nodup_cons] at hnodup
      rw [List.foldl_cons]
      rcases List.mem_cons.mp hx with rfl | hx
      · rw [setting_foldl_of_notMem _ hnodup.1, setting_set, if_pos rfl]
      · exact ih _ hnodup.2 hx

/-- To set the members of a document one after another is to override the defaults
by them. -/
theorem overrides_foldl {xs : List Setting} (hnodup : (xs.map Setting.field).Nodup) :
    (xs.foldl set standard).Overrides xs where
  present := fun _ hx => setting_foldl_of_mem _ hnodup hx
  absent := fun _ hf => setting_foldl_of_notMem _ hf

-- ============================================================= documents

/-- How the value of a setting may be written. -/
def Setting.Written : Setting → Text → Prop
  | .interpreter program, t => Literal program t
  | .replArgs args, t | .compileArgs args, t | .backendArgs args, t => Literals args t
  | .indentWidth none, t => t = "null".toList
  | .indentWidth (some width), t => t = Decimal.digits width.toNat

/-- A member of a settings object. -/
inductive Member where
  | setting (x : Setting)
  /-- A key that is no field. What its value is does not matter. -/
  | other (key : Text)

namespace Member

def key : Member → Text
  | setting x => x.field.key
  | other key => key

def setting? : Member → Option Setting
  | setting x => some x
  | other _ => none

/-- What may stand behind the key of a member. -/
def Value : Member → Text → Prop
  | setting x, t => x.Written t
  | other key, t => (∀ f : Field, f.key ≠ key) ∧ Json.Written .value t

/-- How a member may be written, blanks included. -/
def Written (m : Member) (t : Text) : Prop :=
  ∃ b k b' c v c', Blank b ∧ Literal m.key k ∧ Blank b' ∧ Blank c ∧ m.Value v ∧ Blank c'
    ∧ t = b ++ (k ++ (b' ++ ':' :: (c ++ (v ++ c'))))

end Member

/-- The settings among some members. -/
def settingsOf (ms : List Member) : List Setting := ms.filterMap Member.setting?

/-- A document that holds an object with some members. -/
def ObjectDocument (ms : List Member) : Text → Prop :=
  Padded fun t => ∃ items, Enclosed .object items t ∧ List.Forall₂ Member.Written ms items

/-- A document that holds an array with the values of some settings. -/
def ArrayDocument (xs : List Setting) : Text → Prop :=
  Padded fun t => ∃ items, Enclosed .array items t
    ∧ List.Forall₂ (fun x => Padded x.Written) xs items

-- ================================================================ drafts

/-- A draft with a field set. No field is set twice. -/
def Draft.set (d : Draft) (x : Setting) : Except Json.Fault Draft :=
  if x.field ∈ d.seen then .error (.refused (.repeated x.field.key))
  else .ok ⟨d.settings.set x, x.field :: d.seen⟩

/-- A draft with a member taken. -/
def Draft.take (d : Draft) : Member → Except Json.Fault Draft
  | .setting x => d.set x
  | .other _ => .ok d

/-- Only settings count. -/
theorem foldlM_take (d : Draft) (ms : List Member) :
    ms.foldlM Draft.take d = (settingsOf ms).foldlM Draft.set d := by
  induction ms generalizing d with
  | nil => rfl
  | cons m ms ih =>
      cases m with
      | setting x =>
          show _ = (x :: settingsOf ms).foldlM _ d
          rw [List.foldlM_cons, List.foldlM_cons]
          exact bind_congr ih
      | other key => exact ih d

/-- New fields are set one after the other, and are known from then on. -/
theorem foldlM_set_new {xs : List Setting} (d : Draft) (hnodup : (xs.map Setting.field).Nodup)
    (hnew : ∀ x ∈ xs, x.field ∉ d.seen) :
    ∃ seen, xs.foldlM Draft.set d = .ok ⟨xs.foldl set d.settings, seen⟩
      ∧ ∀ f, f ∈ xs.map Setting.field ∨ f ∈ d.seen → f ∈ seen := by
  induction xs generalizing d with
  | nil => exact ⟨d.seen, rfl, fun f hf => hf.resolve_left List.not_mem_nil⟩
  | cons x xs ih =>
      rw [List.map_cons, List.nodup_cons] at hnodup
      have hleft : ∀ y ∈ xs, y.field ∉ x.field :: d.seen := by
        intro y hy hseen
        rcases List.mem_cons.mp hseen with heq | hseen
        · exact hnodup.1 (heq ▸ List.mem_map_of_mem hy)
        · exact hnew y (List.mem_cons_of_mem x hy) hseen
      obtain ⟨seen, hfold, hseen⟩ := ih ⟨d.settings.set x, x.field :: d.seen⟩ hnodup.2 hleft
      refine ⟨seen, ?_, fun f hf => hseen f ?_⟩
      · rw [List.foldlM_cons]
        simp only [Draft.set, if_neg (hnew x List.mem_cons_self)]
        exact hfold
      · rw [List.map_cons, List.mem_cons, or_assoc] at hf
        rw [List.mem_cons]
        exact or_left_comm.mp hf

/-- The first field that is set again is refused, whatever comes after it. -/
theorem foldlM_set_repeated {before later : List Setting} {x : Setting} (s : Settings)
    (hnodup : (before.map Setting.field).Nodup) (hx : x.field ∈ before.map Setting.field) :
    (before ++ x :: later).foldlM Draft.set ⟨s, []⟩
      = .error (.refused (.repeated x.field.key)) := by
  obtain ⟨seen, hfold, hseen⟩ := foldlM_set_new ⟨s, []⟩ hnodup fun _ _ => List.not_mem_nil
  rw [List.foldlM_append, hfold]
  show Draft.set ⟨before.foldl Settings.set s, seen⟩ x >>= _ = _
  simp only [Draft.set, if_pos (hseen x.field (Or.inl hx))]
  rfl

/-- Where some field is set twice, there is a first one that is set again. -/
theorem exists_first_repeated {xs : List Setting} (h : ¬(xs.map Setting.field).Nodup) :
    ∃ before x later, xs = before ++ x :: later ∧ (before.map Setting.field).Nodup
      ∧ x.field ∈ before.map Setting.field := by
  induction xs using List.reverseRecOn with
  | nil => exact absurd List.nodup_nil h
  | append_singleton xs x ih =>
      by_cases hnodup : (xs.map Setting.field).Nodup
      · refine ⟨xs, x, [], rfl, hnodup, ?_⟩
        by_contra hx
        refine h ?_
        rw [List.map_append, List.map_singleton, ← List.concat_eq_append]
        exact hnodup.concat hx
      · obtain ⟨before, y, later, rfl, hbefore, hy⟩ := ih hnodup
        exact ⟨before, y, later ++ [x], by simp, hbefore, hy⟩

-- =============================================================== members

/-- A value of a setting is read into its field. -/
theorem readField_written {x : Setting} {v : Text} (h : x.Written v) (s : Settings) {b rest : Text}
    (hb : Blank b) (hrest : EndsNumber rest) :
    s.readField x.field (b ++ (v ++ rest)) = .ok (s.set x, rest) := by
  cases x with
  | interpreter program =>
      simp only [Setting.field, readField, Json.text_blank hb, Json.text_literal h]
      rfl
  | replArgs args | compileArgs args | backendArgs args =>
      simp only [Setting.field, readField, Json.texts_blank hb, Json.texts_literals h]
      rfl
  | indentWidth width =>
      have hwidth : Json.width (v ++ rest) = .ok (width, rest) := by
        cases width with
        | none =>
            rw [show v = _ from h]
            exact Json.width_null rest
        | some w =>
            rw [show v = _ from h]
            exact Json.width_digits w hrest
      simp only [Setting.field, readField, Json.width_blank hb, hwidth]
      rfl

/-- A key that is no field's is not kept. -/
theorem Field.ofKey?_eq_none {key : Text} (h : ∀ f : Field, f.key ≠ key) : ofKey? key = none := by
  unfold ofKey?
  rw [List.find?_eq_none]
  intro f _ heq
  exact h f (beq_iff_eq.mp heq)

/-- A member is read into a draft as the draft takes it. The blanks behind it are left. -/
theorem readMember_written {m : Member} {item : Text} (h : m.Written item) :
    ∃ tail c, Blank c ∧ (∀ rest, Json.trim (item ++ rest) = '"' :: (tail ++ rest))
      ∧ ∀ d rest, EndsNumber rest →
        readMember d (tail ++ rest) = (d.take m).map fun d => (d, c ++ rest) := by
  obtain ⟨b, k, b', c, v, c', hb, hk, hb', hc, hv, hc', rfl⟩ := h
  obtain ⟨tail, rfl, hkey⟩ := Json.string_literal hk
  refine ⟨tail ++ (b' ++ ':' :: (c ++ (v ++ c'))), c', hc', fun rest => ?_, ?_⟩
  · rw [List.append_assoc, List.cons_append, List.cons_append, trim_blank_cons hb rfl]
  · intro d rest hrest
    have hends := Json.endsNumber_blank hc' hrest
    have happend : tail ++ (b' ++ ':' :: (c ++ (v ++ c'))) ++ rest
        = tail ++ (b' ++ ':' :: (c ++ (v ++ (c' ++ rest)))) := by simp
    have hcolon : Json.colon (b' ++ ':' :: (c ++ (v ++ (c' ++ rest))))
        = .ok (c ++ (v ++ (c' ++ rest))) := by
      simp only [Json.colon, trim_blank_cons hb' (show Json.isSpace ':' = false from rfl)]
    rw [happend, readMember, hkey]
    cases m with
    | setting x =>
        have hfield : Field.ofKey? (Member.setting x).key = some x.field := Field.ofKey?_key x.field
        by_cases hseen : x.field ∈ d.seen
        · simp only [hfield, List.contains_iff_mem.mpr hseen, if_true, Draft.take, Draft.set,
            if_pos hseen]
          rfl
        · have hcontains : ¬d.seen.contains x.field = true := fun h =>
            hseen (List.contains_iff_mem.mp h)
          simp only [hfield, if_neg hcontains, hcolon, readField_written hv _ hc hends, Draft.take,
            Draft.set, if_neg hseen]
          rfl
    | other key =>
        have hnone : Field.ofKey? (Member.other key).key = none := Field.ofKey?_eq_none hv.1
        simp only [hnone, hcolon, Json.skip_written hc hv.2 hends, Draft.take]
        rfl

/-- Reading the members of an object is taking them, one after the other. -/
theorem readMembers_items {ms : List Member} {items : List Text}
    (h : List.Forall₂ Member.Written ms items) {m : Member} {item : Text} (hm : m.Written item)
    (rest : Text) :
    ∃ tail, Json.trim (Text.join [','] (item :: items) ++ '\x7d' :: rest) = '"' :: tail
      ∧ ∀ d, readMembers d tail
        = ((m :: ms).foldlM Draft.take d).map fun d => (d.settings, rest) := by
  induction h generalizing m item with
  | nil =>
      obtain ⟨tail, c, hc, htrim, hread⟩ := readMember_written hm
      refine ⟨_, Json.trim_join htrim [] _, fun d => ?_⟩
      have hmember := hread d ('\x7d' :: rest) (Json.endsNumber_cons (by decide) rest)
      rw [Text.join, List.foldlM_cons]
      cases htake : d.take m with
      | error fault =>
          rw [htake] at hmember
          exact readMembers_error hmember
      | ok d' =>
          rw [htake] at hmember
          exact readMembers_close hmember (trim_blank_cons hc rfl rest)
  | @cons m' item' ms items hm' _ ih =>
      obtain ⟨tail', htrim', hread'⟩ := ih hm'
      obtain ⟨tail, c, hc, htrim, hread⟩ := readMember_written hm
      refine ⟨_, Json.trim_join htrim (item' :: items) _, fun d => ?_⟩
      rw [Text.join_append, List.foldlM_cons]
      have hmember := hread d (',' :: (Text.join [','] (item' :: items) ++ '\x7d' :: rest))
        (Json.endsNumber_cons (by decide) _)
      cases htake : d.take m with
      | error fault =>
          rw [htake] at hmember
          exact readMembers_error hmember
      | ok d' =>
          rw [htake] at hmember
          exact (readMembers_comma hmember (trim_blank_cons hc rfl _) htrim').trans (hread' d')

-- ========================================================== whole objects

/-- A value of the settings with nothing but blanks behind it makes a document. -/
theorem document_blank {α β : Type} (x : Except Json.Fault α) (f : α → β) {b : Text}
    (hb : Blank b) : Json.document (x.map fun a => (f a, b)) = x.map f := by
  have hnil : Json.trim b = [] := by
    rw [← List.append_nil b, Json.trim_blank hb]
    rfl
  cases x with
  | error fault => rfl
  | ok a =>
      show (if (Json.trim b).isEmpty then _ else _) = _
      rw [hnil]
      rfl

/-- An object with nothing in it gives the defaults. -/
theorem readValue_empty {t r rest : Text} (ht : Json.trim t = '\x7b' :: r)
    (hr : Json.trim r = '\x7d' :: rest) : readValue t = .ok (standard, rest) := by
  simp only [readValue, ht, hr]

/-- An object is read by taking its members. -/
theorem read_object {ms : List Member} {t : Text} (h : ObjectDocument ms t) :
    read t = ((settingsOf ms).foldlM Draft.set ⟨standard, []⟩).map Draft.settings := by
  obtain ⟨b, v, b', hb, ⟨items, hv, hitems⟩, hb', rfl⟩ := h
  rw [← foldlM_take, ← document_blank _ _ hb']
  show Json.document (readValue _) = _
  congr 1
  rcases hv.append_cases b' with ⟨rfl, c, hc, happend⟩ | ⟨item, later, rfl, happend⟩
  · cases hitems
    rw [happend]
    exact readValue_empty (trim_blank_cons hb rfl _) (trim_blank_cons hc rfl b')
  · cases hitems with
    | cons hm hitems =>
        obtain ⟨tail, htrim, hread⟩ := readMembers_items hitems hm b'
        rw [happend]
        exact (readValue_members (trim_blank_cons hb rfl _) htrim).trans (hread _)

-- ================================================================ arrays

/-- At the closing bracket, the fields that are left keep their defaults. -/
theorem readElements_close {s : Settings} {fields : List Field} {t rest : Text}
    (ht : Json.trim t = ']' :: rest) : readElements s fields t = .ok (s, rest) := by
  rw [readElements]
  grind

/-- Behind a comma the next field of the order is read. -/
theorem readElements_comma {s s' : Settings} {f : Field} {fields : List Field} {t r u : Text}
    (ht : Json.trim t = ',' :: r) (hf : s.readField f r = .ok (s', u)) :
    readElements s (f :: fields) t = readElements s' fields u := by
  rw [readElements]
  grind

/-- What follows an element ends a number in it. -/
theorem endsNumber_elements (items : List Text) (rest : Text) :
    EndsNumber (items.flatMap (',' :: ·) ++ ']' :: rest) := by
  cases items with
  | nil => exact Json.endsNumber_cons (by decide) rest
  | cons item items => exact Json.endsNumber_cons (by decide) _

/-- The elements of an array are set in the fields that they stand for. -/
theorem readElements_items {xs : List Setting} {items : List Text}
    (h : List.Forall₂ (fun x => Padded x.Written) xs items) {fields : List Field}
    (hfields : xs.map Setting.field <+: fields) (s : Settings) {c : Text} (hc : Blank c)
    (rest : Text) :
    readElements s fields (c ++ (items.flatMap (',' :: ·) ++ ']' :: rest))
      = .ok (xs.foldl set s, rest) := by
  induction h generalizing fields s c with
  | nil => exact readElements_close (trim_blank_cons hc rfl rest)
  | @cons x item xs items hitem _ ih =>
      obtain ⟨b, v, b', hb, hv, hb', rfl⟩ := hitem
      obtain ⟨fields, rfl, hlater⟩ := List.cons_prefix_iff.mp hfields
      have hread := readField_written hv s hb
        (Json.endsNumber_blank hb' (endsNumber_elements items rest))
      have happend : c ++ (((b ++ (v ++ b')) :: items).flatMap (',' :: ·) ++ ']' :: rest)
          = c ++ ',' :: (b ++ (v ++ (b' ++ (items.flatMap (',' :: ·) ++ ']' :: rest)))) := by
        simp
      rw [happend, readElements_comma (trim_blank_cons hc rfl _) hread]
      exact ih hlater (s.set x) hb'

theorem readValue_empty_array {t r rest : Text} (ht : Json.trim t = '[' :: r)
    (hr : Json.trim r = ']' :: rest) : readValue t = .ok (standard, rest) := by
  simp only [readValue, ht, hr]

/-- The first element of a list is the first field. -/
theorem readValue_elements {t r u v : Text} {s : Settings} (ht : Json.trim t = '[' :: r)
    (hr : Json.trim r = '"' :: u) (hf : standard.readField .interpreter r = .ok (s, v)) :
    readValue t = readElements s Field.later v := by
  simp only [readValue, ht, hr, hf]
  rfl

/-- An array is read by setting the first fields. -/
theorem read_array {xs : List Setting} (hfields : xs.map Setting.field <+: Field.all) {t : Text}
    (h : ArrayDocument xs t) : read t = .ok (xs.foldl set standard) := by
  obtain ⟨b, v, b', hb, ⟨items, hv, hitems⟩, hb', rfl⟩ := h
  have hvalue : readValue (b ++ (v ++ b')) = .ok (xs.foldl set standard, b') := by
    rcases hv.append_cases b' with ⟨rfl, c, hc, happend⟩ | ⟨item, later, rfl, happend⟩
    · cases hitems
      rw [happend]
      exact readValue_empty_array (trim_blank_cons hb rfl _) (trim_blank_cons hc rfl b')
    · cases hitems with
      | @cons x _ xs _ hitem hitems =>
          obtain ⟨hx, hlater⟩ : x.field = .interpreter ∧ xs.map Setting.field <+: Field.later :=
            List.cons_prefix_cons.mp hfields
          cases x with
          | interpreter program =>
              obtain ⟨tail, htrim⟩ := Json.exists_trim_literal hitem
              have hquote := Json.trim_join htrim later (']' :: b')
              obtain ⟨c, w, c', hc, hw, hc', rfl⟩ := hitem
              have hread := readField_written hw standard hc
                (Json.endsNumber_blank hc' (endsNumber_elements later b'))
              have hjoin : Text.join [','] ((c ++ (w ++ c')) :: later) ++ ']' :: b'
                  = c ++ (w ++ (c' ++ (later.flatMap (',' :: ·) ++ ']' :: b'))) := by
                rw [Text.join_eq_flatMap]
                simp
              rw [happend]
              refine (readValue_elements (trim_blank_cons hb rfl _) hquote
                ((congrArg _ hjoin).trans hread)).trans ?_
              exact readElements_items hitems hlater _ hc' b'
          | _ => cases hx
  rw [read, hvalue]
  exact document_blank (.ok (xs.foldl set standard)) id hb'

-- ========================================================== what is read

/-- What the user is told of a field that stands twice. -/
theorem message_repeated (key : Text) :
    message (.repeated key) = "invalid settings: duplicate field `".toList ++ key ++ ['`'] := by
  have hsplit : "invalid settings: duplicate field `".toList
      = "invalid settings: ".toList ++ ("duplicate field ".toList ++ ['`']) := by decide
  rw [hsplit]
  unfold message Json.Cause.message Json.ticked
  simp only [List.append_assoc]

/-- Settings documents say what differs from the standard settings. An object in which
every field stands at most once is read as the standard settings with these fields
overridden, whatever else stands in it, and in whatever order. An object in which some
field stands twice is refused for the first field that comes again. An array with values
for the first fields is read as the object with these fields. -/
theorem read_as_overrides :
    (∀ ms t, ObjectDocument ms t → ((settingsOf ms).map Setting.field).Nodup →
        ∃ s, read t = .ok s ∧ s.Overrides (settingsOf ms))
      ∧ (∀ ms ms' t t', ObjectDocument ms t → ObjectDocument ms' t' →
          ((settingsOf ms).map Setting.field).Nodup → (settingsOf ms).Perm (settingsOf ms') →
            read t = read t')
      ∧ (∀ ms t, ObjectDocument ms t → ¬((settingsOf ms).map Setting.field).Nodup →
          ∃ before x later, settingsOf ms = before ++ x :: later
            ∧ (before.map Setting.field).Nodup ∧ x.field ∈ before.map Setting.field
            ∧ read t = .error (.refused (.repeated x.field.key))
            ∧ message (.repeated x.field.key)
              = "invalid settings: duplicate field `".toList ++ x.field.key ++ ['`'])
      ∧ ∀ xs t t', xs.map Setting.field <+: Field.all → ArrayDocument xs t →
          ObjectDocument (xs.map .setting) t' →
            read t = read t' ∧ ∃ s, read t = .ok s ∧ s.Overrides xs := by
  have hobject : ∀ ms t, ObjectDocument ms t → ((settingsOf ms).map Setting.field).Nodup →
      read t = .ok ((settingsOf ms).foldl set standard) := by
    intro ms t ht hnodup
    obtain ⟨seen, hfold, -⟩ := foldlM_set_new ⟨standard, []⟩ hnodup fun _ _ => List.not_mem_nil
    rw [read_object ht, hfold]
    rfl
  refine ⟨fun ms t ht hnodup => ?_, fun ms ms' t t' ht ht' hnodup hperm => ?_,
    fun ms t ht hrepeated => ?_, fun xs t t' hfields ht ht' => ?_⟩
  · exact ⟨_, hobject ms t ht hnodup, overrides_foldl hnodup⟩
  · have hnodup' := (hperm.map Setting.field).nodup_iff.mp hnodup
    rw [hobject ms t ht hnodup, hobject ms' t' ht' hnodup']
    congr 1
    exact (overrides_foldl hnodup).unique (overrides_foldl hnodup') fun x => hperm.mem_iff
  · obtain ⟨before, x, later, heq, hnodup, hx⟩ := exists_first_repeated hrepeated
    refine ⟨before, x, later, heq, hnodup, hx, ?_, ?_⟩
    · rw [read_object ht, heq, foldlM_set_repeated standard hnodup hx]
      rfl
    · exact message_repeated x.field.key
  · have hnodup : (xs.map Setting.field).Nodup :=
      (show Field.all.Nodup by decide).sublist hfields.sublist
    have hsettings : settingsOf (xs.map .setting) = xs := by
      unfold settingsOf
      rw [List.filterMap_map]
      exact List.filterMap_some
    have hread' := hobject _ t' ht' (by rw [hsettings]; exact hnodup)
    rw [hsettings] at hread'
    rw [read_array hfields ht, hread']
    exact ⟨rfl, _, rfl, overrides_foldl hnodup⟩

/-- A member as it is written without blanks inside. -/
theorem Member.written_compact {m : Member} {b v c : Text} (hb : Blank b) (hv : m.Value v)
    (hc : Blank c) : m.Written (b ++ (Json.quoted m.key ++ ':' :: (v ++ c))) :=
  ⟨b, _, [], [], v, c, hb, Json.literal_quoted m.key, by decide, by decide, hv, hc, rfl⟩

/-- A value that no text or number could hold: a string in it has half of a pair, and a number
in it is greater than all doubles. -/
theorem written_unkept : Json.Written .value "[\x7b\"\\ud800\": 1e999\x7d]".toList := by
  have hunit : Json.HexDigits ['d', '8', '0', '0'] 0xd800 :=
    .four (i := 13) (j := 8) (k := 0) (l := 0) (.inl rfl) (.inl rfl) (.inl rfl) (.inl rfl)
  have hkey : Json.Strung ('"' :: ['\\', 'u', 'd', '8', '0', '0', '"']) :=
    ⟨[['\\', 'u', 'd', '8', '0', '0']], List.forall_mem_singleton.mpr (.unit hunit), rfl⟩
  have hwhole : Json.Whole ['1'] := ⟨by decide, by decide⟩
  have hexponent : Json.Exponent ['e', '9', '9', '9'] :=
    Or.inr ⟨'e', [], ['9', '9', '9'], by decide, by decide, by decide, rfl⟩
  have hnumber : Json.Numeral ['1', 'e', '9', '9', '9'] :=
    @Json.Numeral.parts [] _ [] _ (by decide) hwhole (Or.inl rfl) hexponent
  have hmember : Json.Written (.item .object) "\"\\ud800\": 1e999".toList :=
    @Json.Written.member [] _ [] [' '] _ [] (by decide) hkey (by decide) (by decide)
      (.numeral hnumber) (by decide)
  have hobject : Json.Written .value "\x7b\"\\ud800\": 1e999\x7d".toList :=
    .enclosed (.items _ []) (List.forall_mem_singleton.mpr hmember)
  have helement : Json.Written (.item .array) "\x7b\"\\ud800\": 1e999\x7d".toList := by
    rw [← List.append_nil "\x7b\"\\ud800\": 1e999\x7d".toList]
    exact @Json.Written.element [] _ [] (by decide) hobject (by decide)
  exact .enclosed (.items _ []) (List.forall_mem_singleton.mpr helement)

/-- Fields out of order, one with an escape in its value, behind a key that is no field. -/
theorem objectDocument_disordered :
    ObjectDocument [.other ['x'], .setting (.indentWidth (some 3)), .setting (.interpreter ['c'])]
      ("\x7b \"x\" : [\x7b\"\\ud800\": 1e999\x7d] , \"indent_width\":3,\n"
        ++ "\"interpreter\":\"\\u0063\"\x7d\n").toList := by
  have hother : (Member.other ['x']).Written
      (" \"x\" : [\x7b\"\\ud800\": 1e999\x7d] ").toList :=
    ⟨[' '], _, [' '], [' '], _, [' '], by decide, Json.literal_quoted ['x'], by decide, by decide,
      ⟨fun f => by cases f <;> decide, written_unkept⟩, by decide, by decide⟩
  have hdigits : (Setting.indentWidth (some 3)).Written ['3'] := by
    show ['3'] = Decimal.digits 3
    rw [Decimal.digits]
    rfl
  have hwidth : (Member.setting (.indentWidth (some 3))).Written " \"indent_width\":3".toList :=
    @Member.written_compact (.setting (.indentWidth (some 3))) [' '] ['3'] [] (by decide) hdigits
      (by decide)
  have hunit : Json.HexDigits ['0', '0', '6', '3'] 'c'.toNat :=
    .four (i := 0) (j := 0) (k := 6) (l := 3) (.inl rfl) (.inl rfl) (.inl rfl) (.inl rfl)
  have hprogram : Literal ['c'] "\"\\u0063\"".toList :=
    ⟨[['\\', 'u', '0', '0', '6', '3']], .cons (.unit hunit) .nil, rfl⟩
  have hinterpreter : (Member.setting (.interpreter ['c'])).Written
      "\n\"interpreter\":\"\\u0063\"".toList :=
    @Member.written_compact (.setting (.interpreter ['c'])) ['\n'] _ [] (by decide) hprogram
      (by decide)
  exact ⟨[], _, ['\n'], by decide,
    ⟨_, .items _ [_, _], .cons hother (.cons hwidth (.cons hinterpreter .nil))⟩, by decide, rfl⟩

theorem objectDocument_repeated :
    ObjectDocument [.setting (.indentWidth none), .setting (.indentWidth none)]
      "\x7b\"indent_width\":null,\"indent_width\":null\x7d".toList := by
  have hmember : (Member.setting (.indentWidth none)).Written "\"indent_width\":null".toList :=
    @Member.written_compact (.setting (.indentWidth none)) [] "null".toList [] (by decide) rfl
      (by decide)
  exact ⟨[], _, [], by decide, ⟨_, .items _ [_], .cons hmember (.cons hmember .nil)⟩, by decide,
    rfl⟩

theorem arrayDocument_program : ArrayDocument [.interpreter ['c']] "[\"c\"]".toList := by
  have hprogram : Padded (Setting.interpreter ['c']).Written "\"c\"".toList :=
    ⟨[], _, [], by decide, Json.literal_quoted ['c'], by decide, rfl⟩
  exact ⟨[], _, [], by decide, ⟨_, .items _ [], .cons hprogram .nil⟩, by decide, rfl⟩

theorem objectDocument_program :
    ObjectDocument [.setting (.interpreter ['c'])] "\x7b\"interpreter\":\"c\"\x7d".toList := by
  have hmember : (Member.setting (.interpreter ['c'])).Written "\"interpreter\":\"c\"".toList :=
    @Member.written_compact (.setting (.interpreter ['c'])) [] _ [] (by decide)
      (Json.literal_quoted ['c']) (by decide)
  exact ⟨[], _, [], by decide, ⟨_, .items _ [], .cons hmember .nil⟩, by decide, rfl⟩

/-- Fields out of order behind a key that is no field, a field that stands twice, and an array
that is read as an object. -/
theorem read_as_overrides_disordered :
    read ("\x7b \"x\" : [\x7b\"\\ud800\": 1e999\x7d] , \"indent_width\":3,\n"
          ++ "\"interpreter\":\"\\u0063\"\x7d\n").toList
        = .ok { interpreter := ['c'], indentWidth := some 3 }
      ∧ read "\x7b\"indent_width\":null,\"indent_width\":null\x7d".toList
        = .error (.refused (.repeated "indent_width".toList))
      ∧ read "[\"c\"]".toList = read "\x7b\"interpreter\":\"c\"\x7d".toList := by
  obtain ⟨honce, -, htwice, harray⟩ := read_as_overrides
  refine ⟨?_, ?_, ?_⟩
  · obtain ⟨s, hread, hs⟩ := honce _ _ objectDocument_disordered (by decide)
    have ho : Overrides { interpreter := ['c'], indentWidth := some 3 }
        [.indentWidth (some 3), .interpreter ['c']] :=
      ⟨by decide, fun f => by cases f <;> decide⟩
    rw [hread, hs.unique ho fun _ => Iff.rfl]
  · obtain ⟨before, x, later, heq, -, -, hread, -⟩ := htwice _ _ objectDocument_repeated (by decide)
    have hx : x ∈ [Setting.indentWidth none, .indentWidth none] := by
      rw [show [Setting.indentWidth none, .indentWidth none] = before ++ x :: later from heq]
      exact List.mem_append_cons_self
    have hfield : x = .indentWidth none := by simpa using hx
    rw [hread, hfield]
    rfl
  · exact (harray _ _ _ (by decide) arrayDocument_program objectDocument_program).1

end CryptolEdit.Settings
