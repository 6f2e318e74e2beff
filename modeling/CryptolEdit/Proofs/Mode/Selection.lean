import CryptolEdit.Mode
import CryptolEdit.Proofs.Path.FileName
import CryptolEdit.Proofs.Text.Utf8

/-!
Modes by file name and by extension.

A mode can be asked for in two ways: by an extension, which is looked up, and by a path,
whose file name is held against patterns. The patterns are made from the extensions
(`table_eq`), and a name fits the pattern of a mode if it ends in a dot and the extension
and has something before the dot (`selects_star_iff`). No name fits the patterns of two
modes, since extensions have the same length (`fits_unique`). So the two ways agree.
-/

namespace CryptolEdit

-- =========================================================== patterns

namespace Association

/-- A star with an ending selects the names that have something before that
ending. -/
theorem selects_star_iff {ending name : Text} :
    selects ('*' :: ending) name = true ↔ ∃ stem, stem ≠ [] ∧ name = stem ++ ending := by
  show (decide (ending.length < name.length) && ending.isSuffixOf name) = true ↔ _
  rw [Bool.and_eq_true, decide_eq_true_eq, List.isSuffixOf_iff_suffix]
  constructor
  · rintro ⟨hlt, stem, rfl⟩
    refine ⟨stem, ?_, rfl⟩
    rintro rfl
    exact absurd hlt (Nat.lt_irrefl _)
  · rintro ⟨stem, hne, rfl⟩
    refine ⟨?_, List.suffix_append stem ending⟩
    rw [List.length_append]
    exact Nat.lt_add_of_pos_left (List.length_pos_iff.mpr hne)

/-- Every mode is associated with the names that end in its extension. -/
theorem table_eq :
    table = Mode.all.map fun m => ⟨'*' :: '.' :: m.extension, m⟩ := rfl

end Association

namespace Mode

theorem mem_all (m : Mode) : m ∈ all := by
  cases m <;> decide

theorem length_extension (m : Mode) : m.extension.length = 3 := by
  cases m <;> rfl

/-- No two modes share an extension. -/
theorem extension_inj {m m' : Mode} (h : m.extension = m'.extension) : m = m' := by
  cases m <;> cases m' <;> first | rfl | exact absurd h (by decide)

/-- The extension of a mode, in exactly that spelling, is what gives the mode. -/
theorem ofExtension?_eq_some_iff {ext : Text} {m : Mode} :
    ofExtension? ext = some m ↔ ext = m.extension := by
  constructor
  · intro h
    have hfound := List.find?_some (p := fun m : Mode => m.extension == ext) h
    exact (beq_iff_eq.mp hfound).symm
  · rintro rfl
    cases m <;> rfl

/-- A name is something, a dot and the extension of a mode. -/
def Fits (name : Text) (m : Mode) : Prop := ∃ stem, stem ≠ [] ∧ name = stem ++ '.' :: m.extension

/-- A name fits one mode at most. -/
theorem fits_unique {m m' : Mode} {name : Text} (h : Fits name m) (h' : Fits name m') :
    m = m' := by
  obtain ⟨stem, -, hname⟩ := h
  obtain ⟨stem', -, hname'⟩ := h'
  have hlength : ('.' :: m.extension).length = ('.' :: m'.extension).length := by
    rw [List.length_cons, List.length_cons, length_extension, length_extension]
  have hending := (List.append_inj' (hname.symm.trans hname') hlength).2
  exact extension_inj (List.cons.inj hending).2

/-- Whether the pattern of a mode selects a name. -/
def selects (name : Text) (m : Mode) : Bool :=
  Association.selects ('*' :: '.' :: m.extension) name

/-- The pattern of a mode selects the names that fit it. -/
theorem selects_iff {name : Text} {m : Mode} : selects name m = true ↔ Fits name m :=
  Association.selects_star_iff

/-- The first association that selects a name is the only one. -/
theorem find?_table_eq_some_iff {name : Text} {m : Mode} :
    (Association.table.find? fun a => Association.selects a.pattern name).map Association.mode
      = some m ↔ Fits name m := by
  have hmodes : (Association.table.find? fun a => Association.selects a.pattern name).map
      Association.mode = all.find? (selects name) := by
    rw [Association.table_eq, List.find?_map, Option.map_map]
    exact Option.map_id'
  rw [hmodes]
  constructor
  · exact fun h => selects_iff.mp (List.find?_some h)
  · intro hfits
    cases hfind : all.find? (selects name) with
    | none => exact absurd (selects_iff.mpr hfits) (List.find?_eq_none.mp hfind m (mem_all m))
    | some found => rw [fits_unique hfits (selects_iff.mp (List.find?_some hfind))]

/-- A name fits a mode if its last dot has something before it and the extension
of the mode behind it. -/
theorem fits_iff {m : Mode} {name : Text} :
    Fits name m ↔
      ∃ stem ext, name = stem ++ '.' :: ext ∧ stem ≠ [] ∧ ofExtension? ext = some m := by
  simp only [ofExtension?_eq_some_iff]
  constructor
  · rintro ⟨stem, hne, hname⟩
    exact ⟨stem, m.extension, hname, hne, rfl⟩
  · rintro ⟨stem, _, hname, hne, rfl⟩
    exact ⟨stem, hne, hname⟩

-- ============================================================== paths

/-- The mode of a path is that of its file name, which has to be text. -/
theorem ofPath?_eq_some_iff {p : Path} {m : Mode} :
    ofPath? p = some m ↔ ∃ name, p.fileName? = some (Text.encode name) ∧ Fits name m := by
  have hbind : ofPath? p = (p.fileName?.bind Text.decode?).bind fun name =>
      (Association.table.find? fun a => Association.selects a.pattern name).map
        Association.mode := by
    unfold ofPath?
    simp only [Option.map_eq_bind]
    rfl
  rw [hbind, Option.bind_eq_some_iff]
  simp only [find?_table_eq_some_iff, Option.bind_eq_some_iff, Text.decode?_eq_some_iff]
  constructor
  · rintro ⟨name, ⟨_, hfile, rfl⟩, hfits⟩
    exact ⟨name, hfile, hfits⟩
  · rintro ⟨name, hfile, hfits⟩
    exact ⟨name, ⟨_, hfile, rfl⟩, hfits⟩

/-- The directories before the last component have no say. -/
theorem ofPath?_congr {p q : Path} (h : p.lastComponent? = q.lastComponent?) :
    ofPath? p = ofPath? q := by
  unfold ofPath?
  rw [Path.fileName?_congr h]

/-- A path selects a mode exactly if its last component that counts is text, does not lead
upwards, and is something, a dot and an extension of the mode. Directories before the name,
and separators and `.` components behind it, make no difference. -/
theorem ofPath?_by_extension :
    (∀ (p : Path) m, ofPath? p = some m ↔ ∃ name, p.EndsIn name ∧ name ≠ Path.above
        ∧ ∃ stem ext, name = Text.encode (stem ++ '.' :: ext) ∧ stem ≠ []
          ∧ ofExtension? ext = some m)
      ∧ (∀ d n, Path.IsNormal n → ofPath? (d ++ Path.slash :: n) = ofPath? n)
      ∧ ∀ p, ofPath? (p ++ [Path.slash]) = ofPath? p
        ∧ ofPath? (p ++ Path.slash :: Path.here) = ofPath? p := by
  refine ⟨fun p m => ?_, fun d n hn => ?_, fun p => ⟨?_, ?_⟩⟩
  · rw [ofPath?_eq_some_iff]
    simp only [Path.fileName?_eq_some_iff, Path.lastComponent?_eq_some_iff, fits_iff]
    constructor
    · rintro ⟨name, ⟨hends, habove⟩, stem, ext, rfl, hne, hext⟩
      exact ⟨_, hends, habove, stem, ext, rfl, hne, hext⟩
    · rintro ⟨_, hends, habove, stem, ext, rfl, hne, hext⟩
      exact ⟨_, ⟨hends, habove⟩, stem, ext, rfl, hne, hext⟩
  · exact ofPath?_congr (Path.lastComponent?_of_isNormal hn d)
  · exact ofPath?_congr (Path.lastComponent?_append_slash p)
  · exact ofPath?_congr (Path.lastComponent?_append_here p)

/-- A file in a directory, named as if it were a directory itself. -/
theorem ofPath?_by_extension_nested :
    ofPath? (Text.encode "src/b.cry/.".toList) = some .source := by
  obtain ⟨hselects, hdirectory, htrailing⟩ := ofPath?_by_extension
  have hpath : Text.encode "src/b.cry/.".toList
      = (Text.encode "src".toList ++ Path.slash :: Text.encode "b.cry".toList)
        ++ Path.slash :: Path.here := by decide
  have hnormal : Path.IsNormal (Text.encode "b.cry".toList) :=
    ⟨by decide, by decide, by decide, by decide⟩
  rw [hpath, (htrailing _).2, hdirectory _ _ hnormal, hselects]
  exact ⟨Text.encode "b.cry".toList,
    ⟨[], [], rfl, (fun b hb => nomatch hb), by decide, by decide, by decide, .nil⟩, by decide,
    "b".toList, "cry".toList, rfl, by decide, rfl⟩

end Mode

end CryptolEdit
