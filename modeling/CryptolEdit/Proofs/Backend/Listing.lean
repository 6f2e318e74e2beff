import CryptolEdit.Backend.Listing
import CryptolEdit.Proofs.Text.First
import CryptolEdit.Proofs.Text.Separated

/-!
What is read from a listing of backends.

The statement is about places. A name stands at an offset of the listing if it is a
maximal run of characters that are neither white space nor commas, in the part of a line
that follows its first colon, or in all of the line if it has none (`NameAt`). The names
that are read are those that stand somewhere, each once, in the order of the offsets at
which they stand for the first time (`names_exact`).

The way there is the list of all names with their places, one for each place
(`placedNames`). It is in the order of the places (`pairwise_placedNames`), and dropping
repetitions from such a list leaves what comes first in its order
(`pair_sublist_eraseDups_iff`).
-/

namespace CryptolEdit

namespace Backend

open Text

-- ============================================================= places

/-- Whether a character can be part of a name. -/
def inName (c : Char) : Bool := !isBlank c && c != ','

/-- A name is not empty, and has neither white space nor commas in it. -/
structure IsName (n : Text) : Prop where
  ne_nil : n ≠ []
  unbroken : ∀ c ∈ n, inName c = true

/-- The part of a line that has names in it: what follows the first colon, or all of it. -/
inductive Kept (line : Located Text) : Located Text → Prop
  | whole (h : ':' ∉ line.item) : Kept line line
  | labelled {label rest : Text} (hlabel : ':' ∉ label)
      (h : line.item = label ++ ':' :: rest) :
      Kept line ⟨line.start + size label + 1, rest⟩

/-- A name stands at its offset in a listing. -/
def NameAt (listing : Text) (w : Located Text) : Prop :=
  ∃ e line part run, listing.IsLine e ∧ e.of? listing = some line ∧ Kept ⟨e.start, line⟩ part
    ∧ part.item.IsRun inName run ∧ w = run.shift part.start

/-- Where a name stands for the first time. -/
def FirstAt (listing n : Text) (p : Nat) : Prop :=
  NameAt listing ⟨p, n⟩ ∧ ∀ q, NameAt listing ⟨q, n⟩ → p ≤ q

theorem not_separates (c : Char) : (!separates c) = inName c := by
  unfold separates inName
  rw [Bool.not_or]
  rfl

-- ============================================================= labels

/-- What stands before the first colon is passed over. -/
theorem dropWhile_label {label : Text} (h : ':' ∉ label) (rest : Text) :
    (label ++ rest).dropWhile (· != ':') = rest.dropWhile (· != ':') :=
  List.dropWhile_append_of_pos (forall_bne_of_notMem h)

/-- A line without a colon has no label to lose. -/
theorem unlabelled_of_notMem {line : Text} (h : ':' ∉ line) : unlabelled line = line := by
  have hdrop := dropWhile_label h []
  rw [List.append_nil] at hdrop
  unfold unlabelled
  rw [hdrop]
  rfl

/-- A label ends at the first colon of its line. -/
theorem unlabelled_append {label : Text} (hlabel : ':' ∉ label) (rest : Text) :
    unlabelled (label ++ ':' :: rest) = rest := by
  unfold unlabelled
  rw [dropWhile_label hlabel]
  rfl

/-- What is kept of a line, in its place. -/
def kept (line : Located Text) : Located Text :=
  ⟨line.start + (size line.item - size (unlabelled line.item)), unlabelled line.item⟩

/-- The part of a line behind its label is the only one that is kept of it. -/
theorem kept_iff {line part : Located Text} : Kept line part ↔ part = kept line := by
  have hwhole : ':' ∉ line.item → kept line = line := by
    intro h
    unfold kept
    rw [unlabelled_of_notMem h, Nat.sub_self]
    rfl
  have hlabelled : ∀ label rest, ':' ∉ label → line.item = label ++ ':' :: rest →
      kept line = ⟨line.start + size label + 1, rest⟩ := by
    intro label rest hlabel h
    have hsize : size (label ++ ':' :: rest) - size rest = size label + 1 := by
      rw [size_append, size_cons]
      have : (':' : Char).utf8Size = 1 := rfl
      omega
    unfold kept
    rw [h, unlabelled_append hlabel, hsize, Nat.add_assoc]
  constructor
  · intro h
    cases h with
    | whole h => exact (hwhole h).symm
    | labelled hlabel h => exact (hlabelled _ _ hlabel h).symm
  · rintro rfl
    by_cases hmem : ':' ∈ line.item
    · obtain ⟨label, rest, h, hlabel⟩ := List.eq_append_cons_of_mem hmem
      rw [hlabelled label rest hlabel h]
      exact .labelled hlabel h
    · rw [hwhole hmem]
      exact .whole hmem

/-- What is kept of a line ends where the line ends. -/
theorem bounds_of_kept (line : Located Text) :
    line.start ≤ (kept line).start ∧ ending id (kept line) ≤ line.start + size line.item := by
  have hle : size (unlabelled line.item) ≤ size line.item := by
    by_cases hmem : ':' ∈ line.item
    · obtain ⟨label, rest, h, hlabel⟩ := List.eq_append_cons_of_mem hmem
      rw [h, unlabelled_append hlabel, size_append, size_cons]
      omega
    · rw [unlabelled_of_notMem hmem]
  unfold kept ending
  simp only [id]
  omega

-- ========================================================== all places

/-- The names of a listing in their places, one for each place. -/
def placedNames (listing : Text) : List (Located Text) :=
  (listing.placedLines 0).flatMap fun line =>
    placedRuns separates (kept line).start (kept line).item

/-- Without their places, the placed names of a listing are the names of its lines
in order. -/
theorem map_item_placedNames (listing : Text) :
    (placedNames listing).map Located.item = listing.lines.flatMap namesOnLine := by
  have hline : ∀ line : Located Text,
      (placedRuns separates (kept line).start (kept line).item).map Located.item
        = namesOnLine line.item := by
    intro line
    unfold placedRuns namesOnLine
    rw [← map_item_placedParts (kept line).start, List.filter_map]
    rfl
  have hlines : (listing.placedLines 0).map Located.item = listing.lines :=
    map_item_place _ 0 listing.lines
  unfold placedNames
  rw [List.map_flatMap, ← hlines, List.flatMap_map]
  simp only [hline]

/-- The lines of a text in their places, by what stands there. -/
theorem mem_placedLines_iff_isLine {t : Text} {line : Located Text} :
    line ∈ placedLines 0 t
      ↔ ∃ e, t.IsLine e ∧ e.of? t = some line.item ∧ e.start = line.start := by
  constructor
  · intro h
    exact ⟨lineExtent line, mem_lineExtents_iff.mp (List.mem_map_of_mem h), of?_lineExtent h, rfl⟩
  · rintro ⟨e, he, hitem, hstart⟩
    obtain ⟨found, hfound, rfl⟩ := List.mem_map.mp (mem_lineExtents_iff.mpr he)
    rw [of?_lineExtent hfound, Option.some.injEq] at hitem
    obtain ⟨start, item⟩ := found
    change start = line.start at hstart
    subst hitem hstart
    exact hfound

/-- What is found in a listing, with its places, is exactly what stands there as a
name. -/
theorem mem_placedNames_iff {listing : Text} {w : Located Text} :
    w ∈ placedNames listing ↔ NameAt listing w := by
  have hclass : (fun c => !separates c) = inName := funext not_separates
  unfold placedNames
  rw [List.mem_flatMap]
  constructor
  · rintro ⟨line, hline, hw⟩
    obtain ⟨e, he, hitem, hstart⟩ := mem_placedLines_iff_isLine.mp hline
    obtain ⟨run, hrun, rfl⟩ := mem_placedRuns_iff.mp hw
    rw [hclass] at hrun
    refine ⟨e, line.item, kept line, run, he, hitem, kept_iff.mpr ?_, hrun, rfl⟩
    rw [hstart]
  · rintro ⟨e, line, part, run, he, hitem, hkept, hrun, rfl⟩
    rw [kept_iff] at hkept
    subst hkept
    refine ⟨⟨e.start, line⟩, mem_placedLines_iff_isLine.mpr ⟨e, he, hitem, rfl⟩, ?_⟩
    rw [mem_placedRuns_iff, hclass]
    exact ⟨run, hrun, rfl⟩

/-- Names come in the order of their places. -/
theorem pairwise_placedNames (listing : Text) :
    (placedNames listing).Pairwise fun w next => w.start < next.start := by
  unfold placedNames
  rw [List.pairwise_flatMap]
  constructor
  · intro line _
    exact (pairwise_placedParts _ _).sublist List.filter_sublist
  · refine (pairwise_placedLines 0 listing).imp fun {line next} hlt w hw v hv => ?_
    have hwhere := (bounds_of_mem_placedParts (List.mem_filter.mp hw).1).2
    have hwhere' := (bounds_of_mem_placedParts (List.mem_filter.mp hv).1).1
    have hkept := (bounds_of_kept line).2
    have hkept' := (bounds_of_kept next).1
    change line.start + size line.item < next.start at hlt
    unfold ending at hwhere hkept
    simp only [id] at hwhere hkept
    omega

-- ============================================================== names

/-- A name is read from a listing if it stands somewhere in it. -/
theorem mem_names_iff {listing n : Text} :
    n ∈ names listing ↔ ∃ p, NameAt listing ⟨p, n⟩ := by
  unfold names
  rw [List.mem_eraseDups, ← map_item_placedNames, List.mem_map]
  constructor
  · rintro ⟨w, hw, rfl⟩
    exact ⟨w.start, mem_placedNames_iff.mp hw⟩
  · rintro ⟨p, hp⟩
    exact ⟨⟨p, n⟩, mem_placedNames_iff.mpr hp, rfl⟩

/-- What stands somewhere as a name is a name. -/
theorem isName_of_nameAt {listing : Text} {w : Located Text} (h : NameAt listing w) :
    IsName w.item := by
  obtain ⟨e, line, part, run, -, -, -, ⟨before, after, -, -, hne, hall, -, -⟩, rfl⟩ := h
  exact ⟨hne, hall⟩

/-- What is read from a listing: the names that stand somewhere in it, each once, and in the
order in which they first appear. -/
theorem names_exact (listing : Text) :
    (names listing).Nodup
      ∧ (∀ n ∈ names listing, IsName n)
      ∧ (∀ n, n ∈ names listing ↔ ∃ p, NameAt listing ⟨p, n⟩)
      ∧ ∀ n m, [n, m].Sublist (names listing)
          ↔ ∃ p q, FirstAt listing n p ∧ FirstAt listing m q ∧ p < q := by
  refine ⟨nodup_eraseDups _, fun n hn => ?_, fun n => mem_names_iff, fun n m => ?_⟩
  · obtain ⟨p, hp⟩ := mem_names_iff.mp hn
    exact isName_of_nameAt hp
  · have hfirst := pair_sublist_eraseDups_iff (pairwise_placedNames listing) (a := n) (b := m)
    simp only [mem_placedNames_iff] at hfirst
    rw [map_item_placedNames] at hfirst
    exact hfirst

end Backend

end CryptolEdit
