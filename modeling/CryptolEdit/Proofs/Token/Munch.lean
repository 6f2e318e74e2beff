import CryptolEdit.Proofs.Text.Tiling
import CryptolEdit.Proofs.Token.Grammar

/-!
The lexemes of a text are the longest that its mode has.

# One lexeme

`Munches m rest l` says what the lexeme at the start of a text must be, by the
grammar alone: as long as anything the grammar spells there, a literal if a
literal is as long, and one stray character if nothing is spelled. The text
leaves no choice (`Munches.unique`). `furthest?` compares the reaches of all
rules and keeps the first of equals (`found_of_furthest?`); since literals come
before the other rules, what it finds is such a lexeme (`munches_furthest`).

# All lexemes

`Munched m ls` asks every lexeme of a list to be one of these, before the text
of those that follow it. Scanning gives the one such list that spells the text
(`scan_eq_iff`).

# Places

The tokens of a text are its lexemes laid end to end, and laying end to end is
the same as tiling (`Text.tiles_iff`); so tokens are determined by the grammar
together with their places.
-/

namespace CryptolEdit

-- ====================================================== furthest match

namespace Rule

/-- No rule is found exactly if none of them reaches anywhere. -/
theorem furthest?_eq_none_iff {rules : List Rule} {t : Text} :
    furthest? rules t = none ↔ ∀ rule ∈ rules, rule.pattern.reach t = 0 := by
  induction rules with
  | nil => simp [furthest?]
  | cons rule rules ih =>
      rw [List.forall_mem_cons, ← ih, furthest?]
      cases furthest? rules t with
      | none => by_cases h : rule.pattern.reach t = 0 <;> simp [h]
      | some found =>
          obtain ⟨kind, n⟩ := found
          dsimp only
          split <;> simp

/-- Some rule of the kind reaches that far, which is further than the rules
before it reach and as far as any rule does. -/
def Found (rules : List Rule) (t : Text) (kind : Kind) (n : Nat) : Prop :=
  ∃ before rule after, rules = before ++ rule :: after ∧ rule.kind = kind
    ∧ rule.pattern.reach t = n ∧ 0 < n
    ∧ (∀ earlier ∈ before, earlier.pattern.reach t < n)
    ∧ ∀ other ∈ rules, other.pattern.reach t ≤ n

/-- The first rule is found if none reaches further. -/
theorem found_first {first : Rule} {rules : List Rule} {t : Text}
    (hpos : 0 < first.pattern.reach t)
    (hall : ∀ other ∈ rules, other.pattern.reach t ≤ first.pattern.reach t) :
    Found (first :: rules) t first.kind (first.pattern.reach t) :=
  ⟨[], first, rules, rfl, rfl, rfl, hpos, List.forall_mem_nil _,
    List.forall_mem_cons.mpr ⟨Nat.le_refl _, hall⟩⟩

/-- A rule behind the first is found if it reaches further than the first does. -/
theorem found_later {first : Rule} {rules : List Rule} {t : Text} {kind : Kind}
    {n : Nat} (hlt : first.pattern.reach t < n) (h : Found rules t kind n) :
    Found (first :: rules) t kind n := by
  obtain ⟨before, rule, after, rfl, hkind, hreach, hpos, hbefore, hall⟩ := h
  refine ⟨first :: before, rule, after, rfl, hkind, hreach, hpos, ?_, ?_⟩
  · exact List.forall_mem_cons.mpr ⟨hlt, hbefore⟩
  · exact List.forall_mem_cons.mpr ⟨Nat.le_of_lt hlt, hall⟩

/-- The match that is found is the furthest, and the first of equals. -/
theorem found_of_furthest? {rules : List Rule} {t : Text} {kind : Kind} {n : Nat}
    (h : furthest? rules t = some (kind, n)) : Found rules t kind n := by
  induction rules generalizing kind n with
  | nil => cases h
  | cons first rules ih =>
      rw [furthest?] at h
      cases hrest : furthest? rules t with
      | none =>
          have hzero := furthest?_eq_none_iff.mp hrest
          simp only [hrest] at h
          split at h
          · cases h
          · next hpos =>
              cases h
              refine found_first (Nat.pos_of_ne_zero hpos) fun other hother => ?_
              rw [hzero other hother]
              exact Nat.zero_le _
      | some found =>
          obtain ⟨kind', m⟩ := found
          have hfound := ih hrest
          simp only [hrest] at h
          split at h
          · next hlt =>
              cases h
              exact found_later hlt hfound
          · next hge =>
              cases h
              obtain ⟨_, _, _, _, _, _, hpos, _, hall⟩ := hfound
              have hle : m ≤ first.pattern.reach t := Nat.le_of_not_lt hge
              exact found_first (Nat.lt_of_lt_of_le hpos hle) fun other hother =>
                Nat.le_trans (hall other hother) hle

end Rule

-- ========================================================= one lexeme

namespace Mode

/-- The lexeme at the start of a text, by the grammar. -/
structure Munches (m : Mode) (rest : Text) (l : Lexeme) : Prop where
  isPrefix : l.text <+: rest
  stray_iff : l.kind = .stray ↔ ∀ kind w, w ≠ [] → w <+: rest → ¬m.Spells kind w
  /-- A stray character stands alone. -/
  stray_length : l.kind = .stray → l.text.length = 1
  spelled : l.kind ≠ .stray → m.Spells l.kind l.text
  longest : ∀ kind w, w <+: rest → m.Spells kind w → w.length ≤ l.text.length
  /-- A text that is a literal is never taken for anything else. -/
  literal_first : ∀ category, m.Spells (.literal category) l.text →
    l.kind = .literal category

theorem Spells.ne_stray {m : Mode} {kind : Kind} {w : Text} (h : m.Spells kind w) :
    kind ≠ .stray := by
  intro heq
  cases h <;> cases heq

/-- Every lexeme takes something. -/
theorem Munches.text_ne_nil {m : Mode} {rest : Text} {l : Lexeme}
    (h : m.Munches rest l) : l.text ≠ [] := by
  by_cases hstray : l.kind = .stray
  · intro hnil
    have hlength := h.stray_length hstray
    rw [hnil] at hlength
    cases hlength
  · exact (h.spelled hstray).ne_nil

/-- The text leaves no choice. -/
theorem Munches.unique {m : Mode} {rest : Text} {l l' : Lexeme}
    (h : m.Munches rest l) (h' : m.Munches rest l') : l = l' := by
  have hstray : l.kind = .stray ↔ l'.kind = .stray := h.stray_iff.trans h'.stray_iff.symm
  have hlength : l.text.length = l'.text.length := by
    by_cases hkind : l.kind = .stray
    · rw [h.stray_length hkind, h'.stray_length (hstray.mp hkind)]
    · exact Nat.le_antisymm
        (h'.longest _ _ h.isPrefix (h.spelled hkind))
        (h.longest _ _ h'.isPrefix (h'.spelled (mt hstray.mpr hkind)))
  have htext : l.text = l'.text :=
    (List.prefix_of_prefix_length_le h.isPrefix h'.isPrefix (Nat.le_of_eq hlength)
      ).eq_of_length hlength
  have hkind : l.kind = l'.kind := by
    by_cases hkind : l.kind = .stray
    · rw [hkind, hstray.mp hkind]
    · have hspelled := h.spelled hkind
      have hspelled' := h'.spelled (mt hstray.mpr hkind)
      rw [← htext] at hspelled'
      by_cases hliteral : ∃ category, m.Spells (.literal category) l.text
      · obtain ⟨category, hcategory⟩ := hliteral
        rw [h.literal_first category hcategory,
          h'.literal_first category (htext ▸ hcategory)]
      · exact kind_unique hspelled hspelled' (not_exists.mp hliteral)
  cases l
  cases l'
  cases htext
  cases hkind
  rfl

/-- Where no rule reaches anything, one character stands alone. -/
theorem munches_stray {m : Mode} {c : Char} {t : Text}
    (h : Rule.furthest? m.rules (c :: t) = none) : m.Munches (c :: t) ⟨.stray, [c]⟩ := by
  have hnone : ∀ kind w, w <+: c :: t → ¬m.Spells kind w := by
    intro kind w hbegins hspelled
    obtain ⟨rule, hrule, -, hmatches⟩ := spells_iff_rule.mp hspelled
    have hle := Pattern.length_le_reach hmatches hbegins
    rw [Rule.furthest?_eq_none_iff.mp h rule hrule] at hle
    exact hspelled.ne_nil (List.eq_nil_of_length_eq_zero (Nat.le_zero.mp hle))
  have hbegins : [c] <+: c :: t := ⟨t, rfl⟩
  exact {
    isPrefix := hbegins
    stray_iff := iff_of_true rfl fun kind w _ hw => hnone kind w hw
    stray_length := fun _ => rfl
    spelled := fun hkind => absurd rfl hkind
    longest := fun kind w hw hspelled => absurd hspelled (hnone kind w hw)
    literal_first := fun category hspelled => absurd hspelled (hnone _ _ hbegins) }

/-- Where some rule reaches something, the furthest reach is the lexeme. -/
theorem munches_furthest {m : Mode} {t : Text} {kind : Kind} {n : Nat}
    (h : Rule.furthest? m.rules t = some (kind, n)) :
    m.Munches t ⟨kind, t.take n⟩ := by
  obtain ⟨before, rule, after, hrules, rfl, rfl, hpos, hbefore, hall⟩ :=
    Rule.found_of_furthest? h
  have hmem : rule ∈ m.rules := by
    rw [hrules]
    exact List.mem_append_right _ List.mem_cons_self
  have hspelled : m.Spells rule.kind (t.take (rule.pattern.reach t)) :=
    spells_iff_rule.mpr ⟨rule, hmem, rfl, Pattern.matches_take_reach hpos⟩
  have hlength : (t.take (rule.pattern.reach t)).length = rule.pattern.reach t := by
    rw [List.length_take, Nat.min_eq_left (Pattern.reach_le_length _ _)]
  have hbegins : t.take (rule.pattern.reach t) <+: t := List.take_prefix _ _
  exact {
    isPrefix := hbegins
    stray_iff := iff_of_false hspelled.ne_stray fun hnone =>
      hnone _ _ hspelled.ne_nil hbegins hspelled
    stray_length := fun hkind => absurd hkind hspelled.ne_stray
    spelled := fun _ => hspelled
    longest := by
      intro kind w hw hspells
      obtain ⟨other, hother, -, hmatches⟩ := spells_iff_rule.mp hspells
      rw [hlength]
      exact Nat.le_trans (Pattern.length_le_reach hmatches hw) (hall other hother)
    literal_first := by
      intro category hliteral
      -- the rule for the literal reaches as far, so it does not stand before
      have hreach := Pattern.length_le_reach (p := .exactly _) rfl hbegins
      rw [hlength] at hreach
      have hlate : ⟨.literal category, .exactly _⟩ ∉ before :=
        fun hmem => Nat.not_lt_of_le hreach (hbefore _ hmem)
      obtain ⟨category', _, w, htable, hw, heq⟩ := mem_literalRules.mp
        (mem_literalRules_of_first hrules (spells_literal_iff.mp hliteral) hlate)
      have hkind : rule.kind = .literal category' := congrArg Rule.kind heq
      rw [hkind] at hspelled ⊢
      rw [category_unique hspelled hliteral] }

-- ======================================================== all lexemes

/-- One step of scanning. -/
theorem scan_cons (m : Mode) (c : Char) (t : Text) :
    ∃ l, m.Munches (c :: t) l ∧ Lexeme.scan m.rules (c :: t)
      = l :: Lexeme.scan m.rules ((c :: t).drop l.text.length) := by
  rw [Lexeme.scan]
  cases h : Rule.furthest? m.rules (c :: t) with
  | none => exact ⟨⟨.stray, [c]⟩, munches_stray h, rfl⟩
  | some found =>
      obtain ⟨kind, n⟩ := found
      obtain ⟨_, rule, _, _, _, hreach, hpos, _⟩ := Rule.found_of_furthest? h
      have hlength := Pattern.reach_le_length rule.pattern (c :: t)
      obtain ⟨n, rfl⟩ := Nat.exists_eq_succ_of_ne_zero (Nat.ne_of_gt hpos)
      refine ⟨⟨kind, c :: t.take n⟩, munches_furthest h, ?_⟩
      rw [hreach, List.length_cons] at hlength
      dsimp only
      rw [List.length_cons, List.length_take, Nat.min_eq_left (Nat.le_of_succ_le_succ hlength)]
      rfl

/-- Every lexeme of a list is the right one before the text of those that
follow it. -/
def Munched (m : Mode) (ls : List Lexeme) : Prop :=
  ∀ before l after, ls = before ++ l :: after →
    m.Munches (l.text ++ after.flatMap Lexeme.text) l

theorem munched_nil (m : Mode) : m.Munched [] := by
  intro before l after h
  cases before <;> cases h

/-- Lexemes are munched one by one, each with all the text behind it in sight. -/
theorem munched_cons {m : Mode} {l : Lexeme} {ls : List Lexeme} :
    m.Munched (l :: ls) ↔ m.Munches (l.text ++ ls.flatMap Lexeme.text) l ∧ m.Munched ls := by
  constructor
  · intro h
    exact ⟨h [] l ls rfl, fun before l' after heq => h (l :: before) l' after (heq ▸ rfl)⟩
  · rintro ⟨hfirst, hrest⟩ before l' after heq
    cases before with
    | nil =>
        cases heq
        exact hfirst
    | cons first before =>
        cases heq
        exact hrest before l' after rfl

/-- Scanning munches, and nothing is lost. -/
theorem munched_scan (m : Mode) (t : Text) :
    (Lexeme.scan m.rules t).flatMap Lexeme.text = t
      ∧ m.Munched (Lexeme.scan m.rules t) := by
  induction hn : t.length using Nat.strongRecOn generalizing t with
  | ind n ih =>
      cases t with
      | nil =>
          rw [Lexeme.scan]
          exact ⟨rfl, munched_nil m⟩
      | cons c t =>
          obtain ⟨l, hmunches, hscan⟩ := scan_cons m c t
          obtain ⟨rest, hrest⟩ := hmunches.isPrefix
          have hdrop : (c :: t).drop l.text.length = rest := by
            rw [← hrest, List.drop_left]
          have hlt : rest.length < n := by
            have hpos := List.length_pos_of_ne_nil hmunches.text_ne_nil
            have hlength := congrArg List.length hrest
            rw [List.length_append] at hlength
            omega
          obtain ⟨hspelling, hmunched⟩ := ih rest.length hlt rest rfl
          rw [hscan, hdrop, List.flatMap_cons, hspelling, munched_cons, hspelling, hrest]
          exact ⟨rfl, hmunches, hmunched⟩

/-- There is one way only to munch a text. -/
theorem munched_unique {m : Mode} {ls ls' : List Lexeme} (h : m.Munched ls)
    (h' : m.Munched ls')
    (heq : ls.flatMap Lexeme.text = ls'.flatMap Lexeme.text) : ls = ls' := by
  induction ls generalizing ls' with
  | nil =>
      cases ls' with
      | nil => rfl
      | cons l' ls' =>
          have hnil := (List.append_eq_nil_iff.mp heq.symm).1
          exact absurd hnil (munched_cons.mp h').1.text_ne_nil
  | cons l ls ih =>
      cases ls' with
      | nil =>
          have hnil := (List.append_eq_nil_iff.mp heq).1
          exact absurd hnil (munched_cons.mp h).1.text_ne_nil
      | cons l' ls' =>
          obtain ⟨hfirst, hrest⟩ := munched_cons.mp h
          obtain ⟨hfirst', hrest'⟩ := munched_cons.mp h'
          rw [List.flatMap_cons, List.flatMap_cons] at heq
          rw [← heq] at hfirst'
          cases hfirst.unique hfirst'
          rw [ih hrest hrest' (List.append_cancel_left heq)]

/-- The scan of a text is the only munched list that makes up the text. -/
theorem scan_eq_iff {m : Mode} {t : Text} {ls : List Lexeme} :
    Lexeme.scan m.rules t = ls ↔ ls.flatMap Lexeme.text = t ∧ m.Munched ls := by
  obtain ⟨hspelling, hmunched⟩ := munched_scan m t
  constructor
  · rintro rfl
    exact ⟨hspelling, hmunched⟩
  · rintro ⟨rfl, hls⟩
    exact munched_unique hmunched hls hspelling

-- ============================================================= places

/-- Munching, read off the places of lexemes. -/
theorem munched_iff_place {m : Mode} {ls : List Lexeme} :
    m.Munched ls ↔ ∀ t ∈ Text.place Lexeme.text 0 ls, ∃ before rest,
      Text.splitAt? t.start (ls.flatMap Lexeme.text) = some (before, rest)
        ∧ m.Munches rest t.item := by
  -- what stands before a lexeme and what stands from it on
  have hcut : ∀ (before : List Lexeme) (l : Lexeme) (after : List Lexeme),
      Text.splitAt? (0 + Text.size (before.flatMap Lexeme.text))
          ((before ++ l :: after).flatMap Lexeme.text)
        = some (before.flatMap Lexeme.text, l.text ++ after.flatMap Lexeme.text) := by
    intro before l after
    rw [Nat.zero_add, List.flatMap_append, List.flatMap_cons, Text.splitAt?_size_append]
  constructor
  · intro h t ht
    obtain ⟨before, l, after, rfl, rfl⟩ := (Text.mem_place_iff _).mp ht
    exact ⟨_, _, hcut before l after, h before l after rfl⟩
  · rintro h before l after rfl
    obtain ⟨_, rest, hsplit, hmunches⟩ :=
      h _ ((Text.mem_place_iff _).mpr ⟨before, l, after, rfl, rfl⟩)
    rw [hcut] at hsplit
    cases hsplit
    exact hmunches

end Mode

/-- Maximal munch. A list of tokens is the list of a text's tokens exactly if it
tiles the text and each token is what the grammar says must stand at its start:
the longest text that is spelled there, as a literal if it is one, or one stray
character if nothing is spelled. -/
theorem Token.ofText_eq_iff (m : Mode) (text : Text) (tokens : List Token) :
    Token.ofText m text = tokens ↔
      Text.Tiles Lexeme.text text 0 text.size tokens
        ∧ ∀ t ∈ tokens, ∃ before rest,
            Text.splitAt? t.start text = some (before, rest) ∧ m.Munches rest t.item := by
  rw [Text.tiles_whole_iff]
  constructor
  · rintro rfl
    obtain ⟨hspelling, hmunched⟩ := m.munched_scan text
    refine ⟨⟨_, rfl, fun l hl => ?_, hspelling⟩, ?_⟩
    · obtain ⟨before, after, heq⟩ := List.append_of_mem hl
      exact (hmunched before l after heq).text_ne_nil
    · have hplaced := Mode.munched_iff_place.mp hmunched
      rw [hspelling] at hplaced
      exact hplaced
  · rintro ⟨⟨ls, rfl, -, rfl⟩, hplaced⟩
    unfold ofText
    rw [Mode.scan_eq_iff.mpr ⟨rfl, Mode.munched_iff_place.mpr hplaced⟩]

end CryptolEdit
