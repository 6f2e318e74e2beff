import CryptolEdit.Proofs.Session.Run

/-!
Where the focus is, over whole runs.

The focus ought to be on a registered session or nowhere (`FocusRegistered`).
Closing and pruning see to that, and a launch that succeeds focuses a session
that it has just found or registered. A launch that fails does not: it has
removed the session that had ended before it tries to start another, and leaves
the focus where it was.

`not_focusRegistered_perform_iff` is the whole story of one step: the focus
dangles after an operation exactly if this operation lost it (`LosesFocus`), or
it dangled before and the operation did not put it right (`RestoresFocus`). The
statement about runs follows by `after_iff_since`: the focus dangles exactly if
some launch lost it and nothing has put it right since.
-/

namespace CryptolEdit

namespace Registry

/-- The focus is on a registered session, or nowhere. -/
def FocusRegistered (r : Registry) : Prop :=
  r.focused = none ∨ ∃ name, r.focused = some name ∧ name ∈ r.names

/-- The operation is a launch of the document that has the focus, whose session
has ended, and the start of a new one fails. -/
def LosesFocus (r : Registry) : Operation → Prop
  | .launch (some document) =>
      document ≠ [] ∧ r.focused = some (r.displayName document)
        ∧ ∃ session reason, r.find? (r.displayName document) = some session
          ∧ r.processes.runs session.process = false
          ∧ r.processes.launcher r.processes.attempts.length
              r.processes.started.length (Command.repl r.settings document)
                = .failed reason
  | _ => False

/-- The operation prunes, or is a launch that succeeds. -/
def RestoresFocus (r : Registry) : Operation → Prop
  | .prune => True
  | .launch path => ∃ launch, (r.launch path).1 = .ok launch
  | _ => False

-- ===================================================== what it depends on

/-- The focus dangles if it is on a name that nobody has. -/
theorem not_focusRegistered_iff {r : Registry} :
    ¬r.FocusRegistered ↔ ∃ name, r.focused = some name ∧ name ∉ r.names := by
  unfold FocusRegistered
  cases r.focused with
  | none => simp
  | some name => simp

/-- Whether the focus is registered depends on the sessions and on the focus
only. -/
theorem focusRegistered_congr {r r' : Registry} (hsessions : r'.sessions = r.sessions)
    (hfocused : r'.focused = r.focused) :
    r'.FocusRegistered ↔ r.FocusRegistered := by
  unfold FocusRegistered names
  rw [hsessions, hfocused]

/-- Once the name of the focus is taken out, the focus dangles; it is not
affected by the removal of another name. -/
theorem focusRegistered_of_filter {r r' : Registry} {name : Text}
    (hsessions : r'.sessions = r.sessions.filter fun entry => entry.1 != name)
    (hfocused : r'.focused = r.focused) :
    r'.FocusRegistered ↔ r.FocusRegistered ∧ r.focused ≠ some name := by
  unfold FocusRegistered
  rw [hfocused]
  cases r.focused with
  | none => simp
  | some focus => simp [mem_names_of_filter hsessions]

/-- Refocusing drops a focus that is not registered. -/
theorem focusRegistered_refocus (r : Registry) : r.refocus.FocusRegistered := by
  unfold refocus
  split
  next hfocus => exact Or.inl hfocus
  next name hfocus =>
    split
    next hfound =>
      refine Or.inr ⟨name, hfocus, ?_⟩
      by_contra hmem
      rw [find?_eq_none_iff.mpr hmem] at hfound
      cases hfound
    next => exact Or.inl rfl

/-- After pruning the focus is registered, whatever it was before. -/
theorem focusRegistered_prune (r : Registry) : r.prune.2.FocusRegistered := by
  obtain ⟨log, h⟩ := prune_snd r
  rw [h]
  exact focusRegistered_refocus _

-- ============================================================ one step

/-- A start that succeeds focuses the session that it registers; one that fails
leaves sessions and focus alone. -/
theorem not_focusRegistered_start_iff (r : Registry) (name : Text) (document : Path) :
    ¬(r.start name document).2.FocusRegistered ↔
      ¬r.FocusRegistered ∧ ¬∃ launch, (r.start name document).1 = .ok launch := by
  have hstart := start_cases r name document
  generalize r.start name document = out at hstart ⊢
  cases hstart with
  | failed hlauncher =>
      rw [focusRegistered_congr (r := r) rfl rfl]
      refine ⟨fun h => ⟨h, ?_⟩, fun h => h.1⟩
      rintro ⟨launch, hok⟩
      cases hok
  | begun hlauncher =>
      refine iff_of_false (not_not_intro (Or.inr ⟨name, rfl, ?_⟩)) ?_
      · exact List.mem_map_of_mem (f := Prod.fst)
          (List.mem_append_right _ List.mem_cons_self)
      · rintro ⟨-, hnone⟩
        exact hnone ⟨_, rfl⟩

/-- A start succeeds unless the launcher refuses. -/
theorem start_ok_iff (r : Registry) (name : Text) (document : Path) :
    (∃ launch, (r.start name document).1 = .ok launch) ↔
      ¬∃ reason, r.processes.launcher r.processes.attempts.length
        r.processes.started.length (Command.repl r.settings document)
          = .failed reason := by
  have hstart := start_cases r name document
  generalize r.start name document = out at hstart ⊢
  cases hstart with
  | failed hlauncher =>
      refine iff_of_false ?_ (not_not_intro ⟨_, hlauncher⟩)
      rintro ⟨launch, hok⟩
      cases hok
  | begun hlauncher =>
      refine iff_of_true ⟨_, rfl⟩ ?_
      rintro ⟨reason, hfailed⟩
      rw [hlauncher] at hfailed
      cases hfailed

/-- Nothing that is asked on the way makes the launcher think again. -/
theorem start_expire_ok_iff (r : Registry) (name : Text) (session : Session)
    (document : Path) :
    (∃ launch, ((r.expire name session).start name document).1 = .ok launch) ↔
      ¬∃ reason, r.processes.launcher r.processes.attempts.length
        r.processes.started.length (Command.repl r.settings document)
          = .failed reason := by
  rw [start_ok_iff]
  simp only [processes_expire, settings_expire, ProcessTable.launcher_askAll,
    ProcessTable.attempts_askAll, ProcessTable.length_askAll]

/-- A launch leaves the focus without a session if it loses the session that had
it, or if the focus had none before and the launch fails. -/
theorem not_focusRegistered_launch_iff (r : Registry) (path : Option Path) :
    ¬(r.launch path).2.FocusRegistered ↔
      r.LosesFocus (.launch path)
        ∨ (¬r.FocusRegistered ∧ ¬∃ launch, (r.launch path).1 = .ok launch) := by
  have hlaunch := launch_cases r path
  generalize r.launch path = out at hlaunch ⊢
  cases hlaunch with
  | noFile hpath =>
      have hkept : ¬r.LosesFocus (.launch path) := by
        cases path with
        | none => exact id
        | some document => exact fun h => h.1 (hpath document rfl)
      constructor
      · intro h
        refine Or.inr ⟨h, ?_⟩
        rintro ⟨launch, hok⟩
        cases hok
      · rintro (h | h)
        · exact absurd h hkept
        · exact h.1
  | fresh hdocument hfind =>
      rw [not_focusRegistered_start_iff]
      refine (or_iff_right ?_).symm
      rintro ⟨-, -, session, reason, hsome, -⟩
      rw [hfind] at hsome
      cases hsome
  | @reused document session hdocument hfind hruns =>
      refine iff_of_false (not_not_intro ?_) ?_
      · refine Or.inr ⟨_, rfl, ?_⟩
        have hsessions := (isRunning_asked r session.process).sessions
        show _ ∈ (r.isRunning session.process).2.sessions.map Prod.fst
        rw [hsessions]
        exact List.mem_map_of_mem (f := Prod.fst) (mem_of_find? hfind)
      · rintro (⟨-, -, session', reason, hsome, hended, -⟩ | ⟨-, hnone⟩)
        · rw [hfind] at hsome
          cases hsome
          rw [hruns] at hended
          cases hended
        · exact hnone ⟨_, rfl⟩
  | @replaced document session hdocument hfind hruns =>
      have hfilter := focusRegistered_of_filter
        (sessions_expire r (r.displayName document) session)
        (focused_expire r (r.displayName document) session)
      have hregistered : r.focused = some (r.displayName document)
          → r.FocusRegistered := fun h =>
        Or.inr ⟨_, h, List.mem_map_of_mem (f := Prod.fst) (mem_of_find? hfind)⟩
      rw [not_focusRegistered_start_iff, hfilter, start_expire_ok_iff, not_not]
      constructor
      · rintro ⟨hlost, reason, hfailed⟩
        by_cases hfocus : r.focused = some (r.displayName document)
        · exact Or.inl ⟨hdocument, hfocus, session, reason, hfind, hruns, hfailed⟩
        · exact Or.inr ⟨fun h => hlost ⟨h, hfocus⟩, reason, hfailed⟩
      · rintro (⟨-, hfocus, -, reason, -, -, hfailed⟩ | ⟨hdangling, hfailed⟩)
        · exact ⟨fun h => h.2 hfocus, reason, hfailed⟩
        · exact ⟨fun h => hdangling h.1, hfailed⟩

/-- Closing takes the focus along. -/
theorem focusRegistered_close_iff (r : Registry) (path : Path) :
    (r.close path).2.FocusRegistered ↔ r.FocusRegistered := by
  have hclosed := close_cases r path
  generalize r.close path = out at hclosed ⊢
  cases hclosed with
  | absent hfind => exact Iff.rfl
  | @present session hfind =>
      by_cases hfocus : r.focused = some (r.displayName path)
      · have hblur : (r.dismiss (r.displayName path) session).focused = none := by
          rw [focused_dismiss]
          unfold blur
          rw [if_pos hfocus]
        exact iff_of_true (Or.inl hblur)
          (Or.inr ⟨_, hfocus, List.mem_map_of_mem (f := Prod.fst) (mem_of_find? hfind)⟩)
      · have hblur : (r.dismiss (r.displayName path) session).focused
            = r.focused := by
          rw [focused_dismiss]
          unfold blur
          rw [if_neg hfocus]
        rw [focusRegistered_of_filter (sessions_dismiss r _ session) hblur]
        exact and_iff_left hfocus

/-- When the focus dangles after an operation. -/
theorem not_focusRegistered_perform_iff (r : Registry) (op : Operation) :
    ¬(r.perform op).FocusRegistered ↔
      r.LosesFocus op ∨ (¬r.FocusRegistered ∧ ¬r.RestoresFocus op) := by
  rcases perform_cases r op with ⟨hop, hidle⟩ | ⟨path, rfl⟩ | ⟨path, rfl⟩ | rfl
  · rw [focusRegistered_congr hidle.sessions hidle.focused]
    cases op with
    | launch path => cases hop
    | close path => cases hop
    | prune => cases hop
    | _ => simp [LosesFocus, RestoresFocus]
  · exact not_focusRegistered_launch_iff r path
  · rw [show r.perform (.close path) = (r.close path).2 from rfl,
      focusRegistered_close_iff]
    simp [LosesFocus, RestoresFocus]
  · refine iff_of_false (not_not_intro (focusRegistered_prune r)) ?_
    simp [LosesFocus, RestoresFocus]

-- =========================================================== whole runs

/-- The focus is on a registered session or nowhere, unless some launch of the
run lost it and nothing has put it right since. -/
theorem focusRegistered_after_iff (s : Settings) (launcher : Launcher)
    (run : List Operation) :
    (after s launcher run).FocusRegistered ↔
      ¬∃ before op later, run = before ++ op :: later
        ∧ (after s launcher before).LosesFocus op
        ∧ ∀ middle op' rest, later = middle ++ op' :: rest →
            ¬(after s launcher (before ++ op :: middle)).RestoresFocus op' := by
  have hinit : ¬¬(ofLauncher s launcher).FocusRegistered :=
    not_not_intro (Or.inl rfl)
  have hsince := after_iff_since (P := fun r => ¬r.FocusRegistered) hinit
    not_focusRegistered_perform_iff run
  rw [← hsince, not_not]

/-- Starts a process that has ended by the time it is asked, and then none. -/
def startsOnce : Launcher := fun attempts _ _ =>
  if attempts = 0 then .begun 7 fun _ => .exited else .failed "no such file".toList

/-- A document is launched, its process ends, and it is launched again in vain:
the focus stays on a session that is gone. -/
theorem focus_outlives_session :
    ¬(after {} startsOnce [.launch (some [97]), .launch (some [97])]).FocusRegistered := by
  rw [not_focusRegistered_iff]
  exact ⟨_, rfl, List.not_mem_nil⟩

end Registry

end CryptolEdit
