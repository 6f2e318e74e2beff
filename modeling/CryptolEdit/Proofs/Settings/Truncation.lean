import CryptolEdit.Proofs.Json.Truncation
import CryptolEdit.Proofs.Settings.RoundTrip

/-!
Settings that break off are not accepted.

A document may leave out any field, so the beginning of one could pass for a document with
fewer fields. It does not, because every reader on the way to the cut asks for more: the
members before the cut are read as they were written, and the member with the cut in it is
either without an end, or read with nothing left behind it (`readMember_cut`). No member is
the last without the brace that ends the object, so the run over members has no end either
(`readMembers_cut`).
-/

namespace CryptolEdit.Settings

open Text (Cut)
open Json (trim_cons)

/-- What comes of a value that breaks off: it has no end, or ends where the document does. -/
def Starved {α : Type} (x : Json.Read α) : Prop := x = .error .ended ∨ ∃ a, x = .ok (a, [])

theorem Starved.map {α β : Type} {x : Json.Read α} (h : Starved x) (f : α → β) :
    Starved (x.map fun (a, rest) => (f a, rest)) := by
  rcases h with rfl | ⟨a, rfl⟩
  · exact Or.inl rfl
  · exact Or.inr ⟨f a, rfl⟩

/-- A value that breaks off has no end, unless it is a number. -/
theorem readField_cut (s o : Settings) (f : Field) {p : Text} (h : Cut p (o.renderField f)) :
    Starved (s.readField f p) := by
  cases f with
  | interpreter =>
      have htext : Json.text .text p = .error .ended := Json.text_cut .text h
      simp only [readField, htext]
      exact Or.inl rfl
  | replArgs | compileArgs | backendArgs =>
      have htexts : Json.texts p = .error .ended := Json.texts_cut h
      simp only [readField, htexts]
      exact Or.inl rfl
  | indentWidth =>
      have hwidth : Starved (Json.width p) := by
        unfold renderField at h
        cases hw : o.indentWidth with
        | none =>
            rw [hw] at h
            exact Or.inl (Json.width_cut_null h)
        | some w =>
            rw [hw] at h
            by_cases hp : p = []
            · rw [hp]
              exact Or.inl rfl
            · exact Or.inr (Json.width_of_prefix h.1 hp)
      exact hwidth.map fun width => { s with indentWidth := width }

/-- A member that breaks off has no end, or ends in the middle of a number. -/
theorem readMember_cut (d : Draft) (o : Settings) {f : Field} (hf : f ∉ d.seen) {p : Text}
    (h : Cut p (o.memberTail f)) : Starved (readMember d p) := by
  have hseen : ¬d.seen.contains f = true := by
    rw [List.contains_iff_mem]
    exact hf
  have htail : o.memberTail f
      = f.key.flatMap Json.escaped ++ ['"'] ++ ':' :: o.renderField f := by
    simp [memberTail]
  rw [htail] at h
  rcases h.append_cases with hp | ⟨q, hq, rfl⟩
  · simp only [readMember, Json.string_cut hp]
    exact Or.inl rfl
  · rw [List.append_assoc, List.singleton_append, readMember, Json.string_quoted]
    simp only [Field.ofKey?_key, if_neg hseen]
    rcases hq.cons_cases with rfl | ⟨v, hv, rfl⟩
    · exact Or.inl rfl
    · exact (readField_cut d.settings o f hv).map fun s => Draft.mk s (f :: d.seen)

/-- Members end too early where the first of them leaves nothing behind it. -/
theorem readMembers_starved {d : Draft} {t : Text} (h : Starved (readMember d t)) :
    readMembers d t = .error .ended := by
  rcases h with h | ⟨d', h⟩
  · exact readMembers_error h
  · have hnil : Json.trim [] = [] := rfl
    rw [readMembers]
    grind

/-- Members end too early behind a comma that nothing follows. -/
theorem readMembers_comma_ended {d d' : Draft} {t u : Text} (hd : readMember d t = .ok (d', u))
    (hu : Json.trim u = [',']) : readMembers d t = .error .ended := by
  have hnil : Json.trim [] = [] := rfl
  rw [readMembers]
  grind

/-- Members that break off before the brace that ends them have no end. -/
theorem readMembers_cut (o : Settings) (f : Field) (fs : List Field) (d : Draft) {p : Text}
    (hdistinct : (f :: fs).Nodup) (hnew : ∀ g ∈ f :: fs, g ∉ d.seen)
    (h : Cut p (Text.join [','] (o.memberTail f :: fs.map o.renderMember) ++ ['\x7d'])) :
    readMembers d p = .error .ended := by
  induction fs generalizing f d p with
  | nil =>
      have hf := hnew f List.mem_cons_self
      rcases h.append_cases with hp | ⟨q, hq, rfl⟩
      · exact readMembers_starved (readMember_cut d o hf hp)
      · rw [hq.singleton]
        exact readMembers_starved (Or.inr ⟨_, readMember_memberTail d o hf Json.endsNumber_nil⟩)
  | cons g fs ih =>
      have hf := hnew f List.mem_cons_self
      obtain ⟨hfresh, hdistinct⟩ := List.nodup_cons.mp hdistinct
      have hleft : ∀ k ∈ g :: fs, k ∉ f :: d.seen := by
        intro k hk hseen
        rcases List.mem_cons.mp hseen with rfl | hseen
        · exact hfresh hk
        · exact hnew k (List.mem_cons_of_mem f hk) hseen
      rw [List.map_cons, Text.join_append, renderMember_eq, Text.join_cons_append] at h
      rcases h.append_cases with hp | ⟨q, hq, rfl⟩
      · exact readMembers_starved (readMember_cut d o hf hp)
      -- the member is complete, and the cut is before the comma, behind it, or further on
      rcases hq.cons_cases with rfl | ⟨r, hr, rfl⟩
      · exact readMembers_starved (Or.inr ⟨_, readMember_memberTail d o hf Json.endsNumber_nil⟩)
      have hmember := readMember_memberTail d o hf (Json.endsNumber_cons (c := ',') (by decide) r)
      rcases hr.cons_cases with rfl | ⟨v, hv, rfl⟩
      · exact readMembers_comma_ended hmember (trim_cons rfl [])
      · rw [readMembers_comma hmember (trim_cons rfl _) (trim_cons rfl v)]
        exact ih g ⟨d.settings.adopt o f, f :: d.seen⟩ hdistinct hleft hv

/-- No beginning of a settings document is accepted, or refused for anything but its end. -/
theorem read_truncated (s : Settings) (t : Text) (hbegins : t <+: s.render)
    (hproper : t ≠ s.render) : read t = .error .ended := by
  have hrender : s.render = '\x7b' :: '"' ::
      (Text.join [','] (s.memberTail .interpreter :: Field.later.map s.renderMember)
        ++ ['\x7d']) := by
    rw [← Text.join_cons_append, ← renderMember_eq, render_eq]
    rfl
  have hcut : Cut t s.render := ⟨hbegins, hproper⟩
  rw [hrender] at hcut
  rcases hcut.cons_cases with rfl | ⟨q, hq, rfl⟩
  · rfl
  rcases hq.cons_cases with rfl | ⟨r, hr, rfl⟩
  · rfl
  have hmembers := readMembers_cut s .interpreter Field.later ⟨standard, []⟩ (by decide)
    (fun _ _ => List.not_mem_nil) hr
  rw [read, readValue_members (trim_cons rfl _) (trim_cons rfl r), hmembers]
  rfl

/-- A cut between the digits of an escape. -/
theorem read_truncated_escape :
    read "\x7b\"interpreter\":\"\\u00".toList = .error .ended :=
  read_truncated { interpreter := ['\x01'] } _ (by decide) (by decide)

end CryptolEdit.Settings
