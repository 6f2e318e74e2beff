import CryptolEdit.Outline
import CryptolEdit.Proofs.Text.Line
import Mathlib.Data.List.Forall2

/-!
Which lines declare theorems.

# The grammar of a line

A line declares a theorem if it is the word `theorem`, one space or more, a name,
a colon, and anything (`Declares`). A name has no colon in it and does not begin
with a space, so a line can be read in one way only. Reading a line is exact:
`nameOnLine?` finds a name exactly if the line has this form
(`nameOnLine?_eq_some_iff`).

# The lines of a text

The outline goes over the lines with a running offset. What it does with each line
depends on the line and its offset alone (`declarations_eq_filterMap`). So there
is one declaration for each line that declares one, in the order of the lines, and
since the name and its colon stand on the line, declarations are as far apart as
their lines (`DeclaredBy.bounds`).
-/

namespace CryptolEdit.Outline

-- ============================================================ one line

/-- The line declares a theorem of this name, after so many spaces. -/
def Declares (line : Text) (spaces : Nat) (name : Text) : Prop :=
  0 < spaces ∧ name.head? ≠ some ' ' ∧ ':' ∉ name ∧ ∃ rest,
    line = Vocabulary.theoremWord ++ (List.replicate spaces ' ' ++ (name ++ ':' :: rest))

/-- What is left behind a word is the text that the word was put before. -/
theorem after?_eq_some_iff {w t rest : Text} : after? w t = some rest ↔ t = w ++ rest := by
  fun_induction after? w t with
  | case1 t => simp [eq_comm]
  | case2 w ws => simp
  | case3 w ws t ih => simp [ih]
  | case4 w ws c t hne => simp [Ne.symm hne]

theorem size_replicate_space (n : Nat) : Text.size (List.replicate n ' ') = n := by
  induction n with
  | zero => rfl
  | succ n ih =>
      rw [List.replicate_succ, Text.size_cons, ih]
      exact Nat.add_comm 1 n

/-- Every text is some spaces and then something that does not begin with one. -/
theorem exists_spaces (t : Text) :
    ∃ spaces named, t = List.replicate spaces ' ' ++ named ∧ named.head? ≠ some ' ' := by
  induction t with
  | nil => exact ⟨0, [], rfl, fun h => nomatch h⟩
  | cons c t ih =>
      by_cases hc : c = ' '
      · obtain ⟨spaces, named, rfl, hhead⟩ := ih
        exact ⟨spaces + 1, named, by rw [hc]; rfl, hhead⟩
      · exact ⟨0, c :: t, rfl, fun h => hc (Option.some.inj h)⟩

/-- Spaces end where something else begins. -/
theorem span_spaces (spaces : Nat) {named : Text} (hhead : named.head? ≠ some ' ') :
    (List.replicate spaces ' ' ++ named).takeWhile (· == ' ') = List.replicate spaces ' '
      ∧ (List.replicate spaces ' ' ++ named).dropWhile (· == ' ') = named := by
  induction spaces with
  | zero =>
      cases named with
      | nil => exact ⟨rfl, rfl⟩
      | cons c t =>
          have hc : c ≠ ' ' := fun h => hhead (by rw [h, List.head?_cons])
          simp [hc]
  | succ spaces ih => simpa [List.replicate_succ] using ih

/-- A name ends with the first colon. -/
theorem takeWhile_name {name : Text} (hcolon : ':' ∉ name) (rest : Text) :
    (name ++ ':' :: rest).takeWhile (· != ':') = name := by
  rw [List.takeWhile_append_of_pos (Text.forall_bne_of_notMem hcolon),
    List.takeWhile_cons_of_neg (by decide), List.append_nil]

theorem head?_name_iff {name rest : Text} :
    (name ++ ':' :: rest).head? ≠ some ' ' ↔ name.head? ≠ some ' ' := by
  cases name with
  | nil => simp
  | cons c name => rfl

/-- What is read on a line that begins with the word. -/
theorem nameOnLine?_append (spaces : Nat) {named : Text} (hhead : named.head? ≠ some ' ') :
    nameOnLine? (Vocabulary.theoremWord ++ (List.replicate spaces ' ' ++ named))
      = if 0 < spaces ∧ ':' ∈ named then some (7 + spaces, named.takeWhile (· != ':'))
        else none := by
  obtain ⟨htake, hdrop⟩ := span_spaces spaces hhead
  have hafter := after?_eq_some_iff.mpr
    (rfl : Vocabulary.theoremWord ++ (List.replicate spaces ' ' ++ named) = _)
  unfold nameOnLine?
  rw [hafter]
  show (if _ then _ else _) = _
  rw [htake, hdrop, size_replicate_space]
  by_cases hread : 0 < spaces ∧ ':' ∈ named
  · rw [if_pos hread, if_neg (by simp [hread.2, hread.1.ne'])]
    rfl
  · rw [if_neg hread, if_pos (by simpa [Nat.pos_iff_ne_zero, or_iff_not_imp_left] using hread)]

/-- Reading a line is exact. The column of the name is that of the first character
after the spaces. -/
theorem nameOnLine?_eq_some_iff {line name : Text} {col : Nat} :
    nameOnLine? line = some (col, name)
      ↔ ∃ spaces, Declares line spaces name ∧ col = 7 + spaces := by
  constructor
  · intro h
    have hword : ∃ rest, line = Vocabulary.theoremWord ++ rest := by
      obtain ⟨rest, hrest, -⟩ := Option.bind_eq_some_iff.mp h
      exact ⟨rest, after?_eq_some_iff.mp hrest⟩
    obtain ⟨rest, rfl⟩ := hword
    obtain ⟨spaces, named, rfl, hhead⟩ := exists_spaces rest
    rw [nameOnLine?_append spaces hhead, Option.ite_none_right_eq_some] at h
    obtain ⟨⟨hpos, hmem⟩, hfound⟩ := h
    obtain ⟨first, rest, rfl, hfirst⟩ := List.eq_append_cons_of_mem hmem
    rw [takeWhile_name hfirst] at hfound
    obtain ⟨rfl, rfl⟩ := Prod.mk.inj (Option.some.inj hfound)
    exact ⟨spaces, ⟨hpos, head?_name_iff.mp hhead, hfirst, rest, rfl⟩, rfl⟩
  · rintro ⟨spaces, ⟨hpos, hhead, hcolon, rest, rfl⟩, rfl⟩
    rw [nameOnLine?_append spaces (head?_name_iff.mpr hhead), takeWhile_name hcolon]
    exact if_pos ⟨hpos, List.mem_append_right _ List.mem_cons_self⟩

-- =========================================================== all lines

/-- What a line of a text declares. -/
def DeclaredBy (line : Text.Located Text) (d : Declaration) : Prop :=
  ∃ spaces, Declares line.item spaces d.name ∧ d.offset = line.start + 7 + spaces

/-- The declaration on a line, if there is one. -/
def declarationOn? (line : Text.Located Text) : Option Declaration :=
  (nameOnLine? line.item).map fun (col, name) => ⟨name, line.start + col⟩

/-- A line gives a declaration exactly if it is of the form that declares it. -/
theorem declarationOn?_eq_some_iff {line : Text.Located Text} {d : Declaration} :
    declarationOn? line = some d ↔ DeclaredBy line d := by
  unfold declarationOn?
  rw [Option.map_eq_some_iff]
  constructor
  · rintro ⟨⟨col, name⟩, hname, rfl⟩
    obtain ⟨spaces, hdeclares, rfl⟩ := nameOnLine?_eq_some_iff.mp hname
    exact ⟨spaces, hdeclares, (Nat.add_assoc _ _ _).symm⟩
  · rintro ⟨spaces, hdeclares, hoffset⟩
    refine ⟨(7 + spaces, d.name), nameOnLine?_eq_some_iff.mpr ⟨spaces, hdeclares, rfl⟩, ?_⟩
    show (⟨d.name, line.start + (7 + spaces)⟩ : Declaration) = d
    rw [← Nat.add_assoc, ← hoffset]

theorem isSome_declarationOn?_iff {line : Text.Located Text} :
    (declarationOn? line).isSome = true ↔ ∃ d, DeclaredBy line d := by
  rw [Option.isSome_iff_exists]
  simp only [declarationOn?_eq_some_iff]

instance (line : Text.Located Text) : Decidable (∃ d, DeclaredBy line d) :=
  decidable_of_iff _ isSome_declarationOn?_iff

/-- A line declares one theorem at most. -/
theorem DeclaredBy.unique {line : Text.Located Text} {d d' : Declaration}
    (h : DeclaredBy line d) (h' : DeclaredBy line d') : d = d' :=
  Option.some.inj ((declarationOn?_eq_some_iff.mpr h).symm.trans
    (declarationOn?_eq_some_iff.mpr h'))

/-- The name and its colon stand on the line. -/
theorem DeclaredBy.bounds {line : Text.Located Text} {d : Declaration}
    (h : DeclaredBy line d) :
    line.start ≤ d.offset ∧ d.extent.stop < line.start + Text.size line.item := by
  obtain ⟨spaces, ⟨-, -, -, rest, hline⟩, hoffset⟩ := h
  have hstop : d.extent.stop = d.offset + Text.size d.name := rfl
  have hword : Text.size Vocabulary.theoremWord = 7 := rfl
  have hcolon := Char.utf8Size_pos ':'
  rw [hstop, hoffset, hline]
  simp only [Text.size_append, Text.size_cons, size_replicate_space, hword]
  omega

/-- Without their positions, the entries of some lines are the declarations on
them. -/
theorem map_declaration_ofLines (number start : Nat) (lines : List Text) :
    (ofLines number start lines).map Entry.declaration
      = (Text.place (· ++ ['\n']) start lines).filterMap declarationOn? := by
  induction lines generalizing number start with
  | nil => rfl
  | cons line lines ih =>
      have hnext : start + Text.size (line ++ ['\n']) = start + Text.size line + 1 := by
        rw [Text.size_append, ← Nat.add_assoc]
        rfl
      rw [ofLines, Text.place, List.filterMap_cons, hnext, ← ih (number + 1)]
      unfold declarationOn?
      cases nameOnLine? line with
      | none => rfl
      | some found => rfl

/-- The outline looks at each line on its own. -/
theorem declarations_eq_filterMap (text : Text) :
    declarations text = (Text.placedLines 0 text).filterMap declarationOn? :=
  map_declaration_ofLines 0 0 text.lines

/-- The declarations of a text are those that its lines make. -/
theorem mem_declarations_iff {text : Text} {d : Declaration} :
    d ∈ declarations text ↔ ∃ line ∈ Text.placedLines 0 text, DeclaredBy line d := by
  rw [declarations_eq_filterMap, List.mem_filterMap]
  simp only [declarationOn?_eq_some_iff]

/-- One declaration for each line that has one, in the same order. -/
theorem forall₂_filterMap_declarationOn? (lines : List (Text.Located Text)) :
    List.Forall₂ DeclaredBy (lines.filter fun line => ∃ d, DeclaredBy line d)
      (lines.filterMap declarationOn?) := by
  induction lines with
  | nil => exact .nil
  | cons line lines ih =>
      by_cases hline : ∃ d, DeclaredBy line d
      · obtain ⟨d, hd⟩ := hline
        rw [List.filter_cons_of_pos (by simpa using ⟨d, hd⟩),
          List.filterMap_cons_some (declarationOn?_eq_some_iff.mpr hd)]
        exact .cons hd ih
      · have hnone : declarationOn? line = none := by
          rw [← Option.not_isSome_iff_eq_none, isSome_declarationOn?_iff]
          exact hline
        rw [List.filter_cons_of_neg (by simpa using hline), List.filterMap_cons_none hnone]
        exact ih

/-- Declarations are as far apart as their lines. -/
theorem pairwise_declarations (text : Text) :
    (declarations text).Pairwise fun d d' => d.extent.stop < d'.offset := by
  rw [declarations_eq_filterMap, List.pairwise_filterMap]
  refine (Text.pairwise_placedLines 0 text).imp fun hnext d hd d' hd' => ?_
  obtain ⟨-, hstop⟩ := (declarationOn?_eq_some_iff.mp hd).bounds
  obtain ⟨hstart, -⟩ := (declarationOn?_eq_some_iff.mp hd').bounds
  exact (hstop.trans hnext).trans_le hstart

/-- The outline accepts exactly its grammar. Of the lines of a text, those that
declare a theorem have one declaration each, and those that do not have none. The
declarations come in the order of their lines, and each has the name and the
offset that the line gives it, which can be read in one way only. Offsets
increase, names do not overlap, and each ends inside the text, so that 32 bits
hold the offsets of a text of less than 2 ^ 32 bytes. -/
theorem declarations_exact (text : Text) :
    List.Forall₂ DeclaredBy
        ((Text.placedLines 0 text).filter fun line => ∃ d, DeclaredBy line d)
        (declarations text)
      ∧ (∀ line d d', DeclaredBy line d → DeclaredBy line d' → d = d')
      ∧ (declarations text).Pairwise (fun d d' => d.offset < d'.offset)
      ∧ (declarations text).Pairwise (fun d d' => d.extent.stop ≤ d'.extent.start)
      ∧ ∀ d ∈ declarations text, d.extent.stop < Text.size text := by
  have hapart := pairwise_declarations text
  refine ⟨?_, fun line d d' h h' => h.unique h', hapart.imp fun {d d'} h => ?_,
    hapart.imp fun h => h.le, fun d hd => ?_⟩
  · rw [declarations_eq_filterMap]
    exact forall₂_filterMap_declarationOn? _
  · exact d.extent.start_le_stop.trans_lt h
  · obtain ⟨line, hline, hdeclared⟩ := mem_declarations_iff.mp hd
    obtain ⟨before, after, rfl, -, -, -, hstart⟩ := Text.mem_placedLines_iff.mp hline
    have hstop := hdeclared.bounds.2
    simp only [Text.size_append]
    omega

/-- Of four lines the third is indented and declares nothing; the others declare two
theorems of one name, and one without a name. -/
theorem declarations_exact_repeated :
    declarations "theorem a: 1\ntheorem  : 2\n theorem b:\ntheorem a:".toList
        = [⟨"a".toList, 8⟩, ⟨[], 22⟩, ⟨"a".toList, 46⟩]
      ∧ DeclaredBy ⟨38, "theorem a:".toList⟩ ⟨"a".toList, 46⟩
      ∧ (∀ d, DeclaredBy ⟨38, "theorem a:".toList⟩ d → d = ⟨"a".toList, 46⟩)
      ∧ (⟨"a".toList, 46⟩ : Declaration).extent.stop
          < Text.size "theorem a: 1\ntheorem  : 2\n theorem b:\ntheorem a:".toList := by
  have hdeclarations : declarations
      "theorem a: 1\ntheorem  : 2\n theorem b:\ntheorem a:".toList
        = [⟨"a".toList, 8⟩, ⟨[], 22⟩, ⟨"a".toList, 46⟩] := by decide
  have hdeclared : DeclaredBy ⟨38, "theorem a:".toList⟩ ⟨"a".toList, 46⟩ :=
    ⟨1, ⟨by decide, by decide, by decide, [], rfl⟩, rfl⟩
  obtain ⟨-, hunique, -, -, hinside⟩ := declarations_exact
    "theorem a: 1\ntheorem  : 2\n theorem b:\ntheorem a:".toList
  refine ⟨hdeclarations, hdeclared, fun d hd => hunique _ d _ hd hdeclared, ?_⟩
  exact hinside _ (by rw [hdeclarations]; decide)

end CryptolEdit.Outline
