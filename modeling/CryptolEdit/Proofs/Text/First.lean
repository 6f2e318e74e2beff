import CryptolEdit.Proofs.Text.Tiling

/-!
What comes first.

Dropping repetitions from a list keeps the first of each item. Of a list without
repetitions nothing is dropped (`eraseDups_of_nodup`). Of items in their places, `firsts`
keeps the places as well; if the list is in the order of the places, then the items that
are kept are those that stand somewhere for the first time (`mem_firsts_iff`), and they
come in this order (`pair_sublist_eraseDups_iff`).

All of it is by induction on the list. What makes this possible is that repetitions of one
item can be dropped before or after all others (`eraseDups_filter`).
-/

namespace CryptolEdit.Text

variable {α : Type} [BEq α] [LawfulBEq α]

-- ======================================================= repetitions

theorem eraseDups_filter (keeps : α → Bool) (as : List α) :
    (as.filter keeps).eraseDups = as.eraseDups.filter keeps := by
  induction hn : as.length using Nat.strongRecOn generalizing as with
  | ind n ih =>
      cases as with
      | nil => rfl
      | cons a as =>
          have hlt : (as.filter fun b => !b == a).length < n := by
            rw [← hn]
            exact Nat.lt_succ_of_le (List.length_filter_le _ as)
          have hrest := ih _ hlt (as.filter fun b => !b == a) rfl
          rw [List.eraseDups_cons]
          cases ha : keeps a with
          | true =>
              rw [List.filter_cons_of_pos ha, List.filter_cons_of_pos ha, List.eraseDups_cons,
                ← hrest, List.filter_filter, List.filter_filter]
              simp only [Bool.and_comm]
          | false =>
              have hna : ¬keeps a = true := Bool.eq_false_iff.mp ha
              rw [List.filter_cons_of_neg hna, List.filter_cons_of_neg hna, ← hrest,
                List.filter_filter]
              congr 1
              apply List.filter_congr
              intro b _
              -- what is kept is not `a` anyway
              cases hb : b == a with
              | true => rw [eq_of_beq hb, ha]; rfl
              | false => rw [Bool.not_false, Bool.and_true]

/-- The first element stays, and is dropped from everywhere behind. -/
theorem eraseDups_cons_eq (a : α) (as : List α) :
    (a :: as).eraseDups = a :: as.eraseDups.filter fun b => !b == a := by
  rw [List.eraseDups_cons, eraseDups_filter]

/-- What is left has no repetitions. -/
theorem nodup_eraseDups (as : List α) : as.eraseDups.Nodup := by
  induction as with
  | nil => exact List.nodup_nil
  | cons a as ih =>
      rw [eraseDups_cons_eq, List.nodup_cons]
      refine ⟨fun hmem => ?_, ih.sublist List.filter_sublist⟩
      simpa using (List.mem_filter.mp hmem).2

theorem eraseDups_of_nodup {as : List α} (h : as.Nodup) : as.eraseDups = as := by
  induction as with
  | nil => rfl
  | cons a as ih =>
      obtain ⟨hfresh, h⟩ := List.nodup_cons.mp h
      rw [eraseDups_cons_eq, ih h]
      congr 1
      rw [List.filter_eq_self]
      intro b hb
      rw [Bool.not_eq_true', beq_eq_false_iff_ne]
      rintro rfl
      exact hfresh hb

-- ============================================================= places

/-- The first of each item among items in their places. -/
def firsts : List (Located α) → List (Located α)
  | [] => []
  | w :: ws => w :: (firsts ws).filter fun v => !v.item == w.item

/-- Without their places, the first occurrences are the items without
repetitions. -/
theorem map_item_firsts (ws : List (Located α)) :
    (firsts ws).map Located.item = (ws.map Located.item).eraseDups := by
  induction ws with
  | nil => rfl
  | cons w ws ih =>
      rw [firsts, List.map_cons, List.map_cons, eraseDups_cons_eq, ← ih, List.filter_map]
      rfl

omit [LawfulBEq α] in
/-- First occurrences stay in their order. -/
theorem firsts_sublist (ws : List (Located α)) : (firsts ws).Sublist ws := by
  induction ws with
  | nil => exact List.Sublist.refl _
  | cons w ws ih => exact (List.filter_sublist.trans ih).cons_cons w

/-- Nothing stands before the items that are kept. -/
theorem mem_firsts_iff {ws : List (Located α)}
    (hws : ws.Pairwise fun w next => w.start < next.start) {v : Located α} :
    v ∈ firsts ws ↔ v ∈ ws ∧ ∀ p, ⟨p, v.item⟩ ∈ ws → v.start ≤ p := by
  induction ws with
  | nil =>
      refine iff_of_false List.not_mem_nil ?_
      exact fun h => List.not_mem_nil h.1
  | cons w ws ih =>
      obtain ⟨hstart, hws⟩ := List.pairwise_cons.mp hws
      have hne : (!v.item == w.item) = true ↔ v.item ≠ w.item := by
        rw [Bool.not_eq_true', beq_eq_false_iff_ne]
      rw [firsts, List.mem_cons, List.mem_filter, ih hws, hne]
      constructor
      · rintro (rfl | ⟨⟨hmem, hfirst⟩, hne⟩)
        · refine ⟨List.mem_cons_self, fun p hp => ?_⟩
          rcases List.mem_cons.mp hp with heq | hp
          · rw [← heq]
          · exact Nat.le_of_lt (hstart _ hp)
        · refine ⟨List.mem_cons_of_mem w hmem, fun p hp => ?_⟩
          rcases List.mem_cons.mp hp with heq | hp
          · rw [← heq] at hne
            exact absurd rfl hne
          · exact hfirst p hp
      · rintro ⟨hmem, hfirst⟩
        rcases List.mem_cons.mp hmem with rfl | hmem
        · exact Or.inl rfl
        · refine Or.inr ⟨⟨hmem, fun p hp => hfirst p (List.mem_cons_of_mem w hp)⟩, ?_⟩
          intro heq
          -- else the first item of the list would stand before it
          have hle := hfirst w.start (heq ▸ List.mem_cons_self)
          exact absurd (hstart v hmem) (Nat.not_lt_of_le hle)

omit [BEq α] [LawfulBEq α] in
/-- In the order of places, what comes before is what stands before. -/
theorem pair_sublist_iff {ws : List (Located α)}
    (hws : ws.Pairwise fun w next => w.start < next.start) {v u : Located α} :
    [v, u].Sublist ws ↔ v ∈ ws ∧ u ∈ ws ∧ v.start < u.start := by
  constructor
  · intro h
    have hpair := List.pairwise_cons.mp (hws.sublist h)
    exact ⟨h.subset List.mem_cons_self, h.subset (by simp),
      hpair.1 u (List.mem_singleton_self u)⟩
  · rintro ⟨hv, hu, hlt⟩
    obtain ⟨before, after, rfl⟩ := List.append_of_mem hv
    obtain ⟨-, -, hacross⟩ := List.pairwise_append.mp hws
    rcases List.mem_append.mp hu with hu | hu
    · exact absurd (hacross u hu v List.mem_cons_self) (Nat.lt_asymm hlt)
    · rcases List.mem_cons.mp hu with rfl | hu
      · exact absurd hlt (Nat.lt_irrefl _)
      · refine List.Sublist.trans ?_ (List.sublist_append_right before _)
        exact (List.singleton_sublist.mpr hu).cons_cons v

/-- Without repetitions, items come in the order of their first places. -/
theorem pair_sublist_eraseDups_iff {ws : List (Located α)}
    (hws : ws.Pairwise fun w next => w.start < next.start) {a b : α} :
    [a, b].Sublist (ws.map Located.item).eraseDups
      ↔ ∃ p q, (⟨p, a⟩ ∈ ws ∧ ∀ p', ⟨p', a⟩ ∈ ws → p ≤ p')
        ∧ (⟨q, b⟩ ∈ ws ∧ ∀ q', ⟨q', b⟩ ∈ ws → q ≤ q') ∧ p < q := by
  have hfirsts := hws.sublist (firsts_sublist ws)
  rw [← map_item_firsts, List.sublist_map_iff]
  constructor
  · rintro ⟨pair, hpair, heq⟩
    obtain ⟨v, u, rfl⟩ : ∃ v u, pair = [v, u] := by
      rw [← List.length_eq_two, ← List.length_map (f := Located.item), ← heq]
      rfl
    cases heq
    obtain ⟨hv, hu, hlt⟩ := (pair_sublist_iff hfirsts).mp hpair
    exact ⟨v.start, u.start, (mem_firsts_iff hws).mp hv, (mem_firsts_iff hws).mp hu, hlt⟩
  · rintro ⟨p, q, hp, hq, hlt⟩
    refine ⟨[⟨p, a⟩, ⟨q, b⟩], (pair_sublist_iff hfirsts).mpr ⟨?_, ?_, hlt⟩, rfl⟩
    · exact (mem_firsts_iff hws).mpr hp
    · exact (mem_firsts_iff hws).mpr hq

end CryptolEdit.Text
