import CryptolEdit.Path
import CryptolEdit.Proofs.Text.Line

/-!
The file that a path names.

A path is its first component, or a path, a separator and one more component;
`component_induction` is induction over that. It goes from the end, as the search for the
name does: a component that counts is found, and any other is passed over
(`lastComponent?_append`).

`EndsIn` says the same by what stands where. Behind the name there are only separators and
components that stand for the directory itself, and before it there is a separator or
nothing.
-/

namespace CryptolEdit.Path

-- ========================================================= components

/-- A path without a slash is its only component. -/
theorem components_of_notMem {c : Bytes} (h : slash ∉ c) : components c = [c] :=
  Text.split_eq_singleton (Text.forall_beq_eq_false_iff.mpr h)

/-- A slash keeps the components before it from those behind it. -/
theorem components_append (d c : Bytes) :
    components (d ++ slash :: c) = components d ++ components c :=
  Text.split_append_cons d c rfl

/-- Every path is one component, or a path with one more component behind a
slash. -/
theorem component_induction {motive : Path → Prop}
    (first : ∀ c, slash ∉ c → motive c)
    (next : ∀ d c, slash ∉ c → motive d → motive (d ++ slash :: c)) (p : Path) : motive p := by
  have hunbroken : ∀ c : Bytes, (∀ b ∈ c, (b == slash) = false) → slash ∉ c.reverse := by
    intro c h
    rw [List.mem_reverse]
    exact Text.forall_beq_eq_false_iff.mp h
  -- the last component comes first in what is read backwards
  rw [← List.reverse_reverse p]
  induction p.reverse using Text.split_induction (· == slash) with
  | last c hc => exact first _ (hunbroken c hc)
  | next c b d hc hb ih =>
      rw [beq_iff_eq.mp hb, List.reverse_append, List.reverse_cons, List.append_assoc,
        List.singleton_append]
      exact next d.reverse c.reverse (hunbroken c hc) ih

-- =========================================================== the name

/-- The last component of a path that is not empty and does not stand for the directory
itself. -/
def lastComponent? (p : Path) : Option Bytes :=
  (components p).reverse.find? fun c => c ≠ [] ∧ c ≠ here

/-- The file name is the last component, unless that one leads a directory up. -/
theorem fileName?_eq_some_iff {p : Path} {name : Bytes} :
    fileName? p = some name ↔ lastComponent? p = some name ∧ name ≠ above := by
  show (match lastComponent? p with
    | some last => if last = above then none else some last
    | none => none) = some name ↔ _
  cases lastComponent? p with
  | none => exact iff_of_false (fun h => by cases h) fun h => by cases h.1
  | some last =>
      dsimp only
      by_cases habove : last = above
      · rw [if_pos habove]
        refine iff_of_false (fun h => by cases h) ?_
        rintro ⟨⟨⟩, hne⟩
        exact hne habove
      · rw [if_neg habove]
        constructor
        · rintro ⟨⟩
          exact ⟨rfl, habove⟩
        · exact fun h => h.1

theorem fileName?_congr {p q : Path} (h : lastComponent? p = lastComponent? q) :
    fileName? p = fileName? q := by
  apply Option.ext
  intro name
  rw [fileName?_eq_some_iff, fileName?_eq_some_iff, h]

/-- A component alone is the last one if it is anything but nothing or a dot. -/
theorem lastComponent?_of_notMem {c : Bytes} (h : slash ∉ c) :
    lastComponent? c = if c ≠ [] ∧ c ≠ here then some c else none := by
  unfold lastComponent?
  rw [components_of_notMem h, List.reverse_singleton, List.find?_singleton]
  simp

/-- The component behind the last slash decides, unless it is nothing or a dot. -/
theorem lastComponent?_append (d : Path) {c : Bytes} (h : slash ∉ c) :
    lastComponent? (d ++ slash :: c)
      = if c ≠ [] ∧ c ≠ here then some c else lastComponent? d := by
  unfold lastComponent?
  rw [components_append, components_of_notMem h, List.reverse_append, List.reverse_singleton,
    List.singleton_append, List.find?_cons]
  split
  next hc => rw [if_pos (by simpa using hc)]
  next hc => rw [if_neg (by simpa using hc)]

/-- What does not count behind a name: separators, and components that stand for the
directory itself. -/
inductive Trailing : Bytes → Prop
  | nil : Trailing []
  | slash {tail : Bytes} (h : Trailing tail) : Trailing (tail ++ [slash])
  | here {tail : Bytes} (h : Trailing tail) : Trailing (tail ++ slash :: here)

/-- The name is a component of the path, and the last one that counts. -/
def EndsIn (p : Path) (name : Bytes) : Prop :=
  ∃ dir tail, p = dir ++ (name ++ tail) ∧ (∀ b ∈ dir.getLast?, b = slash) ∧ slash ∉ name
    ∧ name ≠ [] ∧ name ≠ here ∧ Trailing tail

/-- A slash at the end of a path changes nothing. -/
theorem lastComponent?_append_slash (p : Path) :
    lastComponent? (p ++ [slash]) = lastComponent? p := by
  rw [lastComponent?_append p List.not_mem_nil, if_neg (by simp)]

theorem lastComponent?_append_here (p : Path) :
    lastComponent? (p ++ slash :: here) = lastComponent? p := by
  rw [lastComponent?_append p (by decide), if_neg (by simp)]

/-- The last component of a path is the name that the path ends in. -/
theorem lastComponent?_eq_some_iff {p : Path} {name : Bytes} :
    lastComponent? p = some name ↔ p.EndsIn name := by
  constructor
  · intro h
    induction p using component_induction with
    | first c hc =>
        rw [lastComponent?_of_notMem hc, ite_eq_iff] at h
        rcases h with ⟨hcounts, heq⟩ | ⟨-, heq⟩
        · cases heq
          exact ⟨[], [], (List.append_nil _).symm, (fun b hb => nomatch hb), hc, hcounts.1,
            hcounts.2, .nil⟩
        · cases heq
    | next d c hc ih =>
        rw [lastComponent?_append d hc, ite_eq_iff] at h
        rcases h with ⟨hcounts, heq⟩ | ⟨hpassed, heq⟩
        · cases heq
          refine ⟨d ++ [slash], [], ?_, fun b hb => ?_, hc, hcounts.1, hcounts.2, .nil⟩
          · rw [List.append_nil, List.append_assoc, List.singleton_append]
          · rw [List.getLast?_concat] at hb
            exact (Option.some.inj hb).symm
        · obtain ⟨dir, tail, rfl, hdir, hname, hne, hhere, htail⟩ := ih heq
          have hc : c = [] ∨ c = here := by
            by_contra hcounts
            exact hpassed (not_or.mp hcounts)
          refine ⟨dir, tail ++ slash :: c, ?_, hdir, hname, hne, hhere, ?_⟩
          · rw [List.append_assoc, List.append_assoc]
          · rcases hc with rfl | rfl
            · exact .slash htail
            · exact .here htail
  · rintro ⟨dir, tail, rfl, hdir, hname, hne, hhere, htail⟩
    induction htail with
    | nil =>
        rw [List.append_nil]
        rcases List.eq_nil_or_concat' dir with rfl | ⟨dir, b, rfl⟩
        · rw [List.nil_append, lastComponent?_of_notMem hname, if_pos ⟨hne, hhere⟩]
        · rw [hdir b List.getLast?_concat, List.append_assoc, List.singleton_append,
            lastComponent?_append dir hname, if_pos ⟨hne, hhere⟩]
    | slash h ih =>
        rw [← List.append_assoc, ← List.append_assoc, lastComponent?_append_slash,
          List.append_assoc]
        exact ih
    | here h ih =>
        rw [← List.append_assoc, ← List.append_assoc, lastComponent?_append_here,
          List.append_assoc]
        exact ih

/-- A component that names a file wherever it comes last. -/
structure IsNormal (n : Bytes) : Prop where
  ne_nil : n ≠ []
  unbroken : slash ∉ n
  ne_here : n ≠ here
  ne_above : n ≠ above

/-- Directories before a name make no difference to it. -/
theorem lastComponent?_of_isNormal {n : Bytes} (h : IsNormal n) (d : Path) :
    lastComponent? (d ++ slash :: n) = lastComponent? n := by
  rw [lastComponent?_append d h.unbroken, lastComponent?_of_notMem h.unbroken,
    if_pos ⟨h.ne_nil, h.ne_here⟩, if_pos ⟨h.ne_nil, h.ne_here⟩]

end CryptolEdit.Path
