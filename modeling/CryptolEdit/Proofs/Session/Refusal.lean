import CryptolEdit.Proofs.Session.Focus
import CryptolEdit.Proofs.Session.Frame

/-!
Launches that fail.

A launch fails early or late. Without a document it fails before anything is done, and the
registry is returned as it was. With a document it fails only once it has tried to start a
process, and by then a session that had ended has been taken out and all detached processes
have been asked. Nothing is put back; what matters is that the result is the registry it
would be without that session, and that the process of the session is still accounted for.

A launch of a document without a session that runs is a start in the registry that is
cleared of the document (`launch_of_not_hasRunning`). Clearing only asks
(`processes_cleared`), so the launcher is called with the numbers it would have been called
with before, and its answer alone decides (`launch_eq_error_iff`). What such a launch leaves
behind is `Refused`.
-/

namespace CryptolEdit

namespace Registry

-- =========================================================== no document

/-- A launch lacks a document if it has no path, or an empty one. -/
theorem launch_eq_noFile_iff (r : Registry) (path : Option Path) :
    (r.launch path).1 = .error .noFile ↔ path = none ∨ path = some [] := by
  have hstart : ∀ (r : Registry) name document, (r.start name document).1 ≠ .error .noFile := by
    intro r name document
    have hcases := start_cases r name document
    generalize r.start name document = out at hcases ⊢
    rintro hnone
    cases hcases <;> cases hnone
  have hlaunch := launch_cases r path
  generalize r.launch path = out at hlaunch ⊢
  cases hlaunch with
  | noFile hpath =>
      refine iff_of_true rfl ?_
      cases path with
      | none => exact Or.inl rfl
      | some document => exact Or.inr (congrArg some (hpath document rfl))
  | fresh hdocument hfind => simp [hstart, hdocument]
  | reused hdocument hfind hruns => simp [hdocument]
  | replaced hdocument hfind hruns => simp [hstart, hdocument]

/-- Without a document, a launch fails at once and changes nothing. -/
theorem launch_of_noFile (r : Registry) {path : Option Path} (h : path = none ∨ path = some []) :
    r.launch path = (.error .noFile, r) := by
  rcases h with rfl | rfl <;> rfl

-- ========================================================= with a document

/-- Clearing a document asks processes, and changes nothing else of the table. -/
theorem processes_cleared (r : Registry) (document : Path) :
    ∃ ns, (r.cleared document).processes = r.processes.askAll ns := by
  cases hfind : r.find? (r.displayName document) with
  | none => exact ⟨[], by rw [cleared_of_none hfind, ProcessTable.askAll_nil]⟩
  | some session =>
      rw [cleared_of_some hfind, processes_expire, ← ProcessTable.askAll_append]
      exact ⟨_, rfl⟩

theorem settings_cleared (r : Registry) (document : Path) :
    (r.cleared document).settings = r.settings := by
  unfold cleared
  split
  · rfl
  · exact settings_expire r _ _

/-- A launch of a document without a session that runs starts one. -/
theorem launch_of_not_hasRunning {r : Registry} {document : Path} (hdocument : document ≠ [])
    (hrunning : ¬r.HasRunning document) :
    r.launch (some document)
      = (r.cleared document).start (r.displayName document) document := by
  have hlaunch := launch_cases r (some document)
  generalize r.launch (some document) = out at hlaunch ⊢
  cases hlaunch with
  | noFile hpath => exact absurd (hpath document rfl) hdocument
  | fresh _ hfind => rw [cleared_of_none hfind]
  | reused _ hfind hruns => exact absurd ⟨_, hfind, hruns⟩ hrunning
  | replaced _ hfind hruns => rw [cleared_of_some hfind]

/-- A start fails if the launcher does, and for its reason. -/
theorem start_eq_error_iff (r : Registry) (name : Text) (document : Path) (failure : Failure) :
    (r.start name document).1 = .error failure ↔
      ∃ reason, r.processes.launcher r.processes.attempts.length r.processes.started.length
          (Command.repl r.settings document) = .failed reason
        ∧ failure = .startFailed r.settings.interpreter reason := by
  have hstart := start_cases r name document
  generalize r.start name document = out at hstart ⊢
  cases hstart with
  | @failed reason hlauncher =>
      rw [hlauncher]
      constructor
      · rintro ⟨⟩
        exact ⟨reason, rfl, rfl⟩
      · rintro ⟨_, ⟨⟩, rfl⟩
        rfl
  | begun hlauncher =>
      rw [hlauncher]
      refine iff_of_false (fun h => by cases h) ?_
      rintro ⟨_, ⟨⟩, -⟩

/-- A start that fails leaves nothing but the attempt. -/
theorem start_of_error {r : Registry} {name : Text} {document : Path} {failure : Failure}
    (h : (r.start name document).1 = .error failure) :
    (r.start name document).2.sessions = r.sessions
      ∧ (r.start name document).2.processes.started = r.processes.started := by
  have hstart := start_cases r name document
  generalize r.start name document = out at hstart h ⊢
  cases hstart with
  | failed hlauncher => exact ⟨rfl, rfl⟩
  | begun hlauncher => cases h

/-- A launch of a document fails if no session of it runs and the launcher fails. -/
theorem launch_eq_error_iff {r : Registry} {document : Path} (hdocument : document ≠ [])
    (failure : Failure) :
    (r.launch (some document)).1 = .error failure ↔
      ¬r.HasRunning document
        ∧ ∃ reason, r.processes.launcher r.processes.attempts.length r.processes.started.length
            (Command.repl r.settings document) = .failed reason
          ∧ failure = .startFailed r.settings.interpreter reason := by
  by_cases hrunning : r.HasRunning document
  · obtain ⟨session, hfind, hruns⟩ := hrunning
    rw [launch_of_session? hdocument hfind hruns]
    exact iff_of_false (fun h => by cases h) fun h => h.1 ⟨session, hfind, hruns⟩
  · obtain ⟨ns, hprocesses⟩ := processes_cleared r document
    rw [launch_of_not_hasRunning hdocument hrunning, start_eq_error_iff, hprocesses,
      settings_cleared, and_iff_right hrunning]
    simp only [ProcessTable.launcher_askAll, ProcessTable.attempts_askAll,
      ProcessTable.length_askAll]

-- ===================================================== what is left behind

/-- What a launch that fails makes of a registry. -/
structure Refused (r : Registry) (document : Path) (r' : Registry) : Prop where
  /-- One attempt was made, and nothing came of it. -/
  attempts : r'.processes.attempts
    = r.processes.attempts ++ [Command.repl r.settings document]
  started : r'.processes.started.length = r.processes.started.length
  absent : r'.find? (r.displayName document) = none
  others : ∀ name, name ≠ r.displayName document → r.Spares name r'
  backends : r'.backends = r.backends
  /-- The process of a session that was taken out is kept until it is seen to end. -/
  stale : ∀ session, r.find? (r.displayName document) = some session →
    session.process ∈ r'.detached
      ∨ ∃ p, r'.processes.started[session.process]? = some p ∧ p.SeenEnded

/-- A process whose session was taken out by a launch is detached, or was seen to end. -/
theorem accounted_of_launch {r : Registry} (hcustody : r.Custody) {path : Option Path}
    {name : Text} {session : Session} (hfind : r.find? name = some session)
    (habsent : (r.launch path).2.find? name = none) :
    session.process ∈ (r.launch path).2.detached
      ∨ ∃ p, (r.launch path).2.processes.started[session.process]? = some p
        ∧ p.SeenEnded := by
  have hcustody' := (keeps_launch r path hcustody).1
  obtain ⟨p, hp⟩ := started_of_find? hcustody hfind
  obtain ⟨more, hmore⟩ := (extends_launch r path).started _ p hp
  by_cases hheld : session.process ∈ (r.launch path).2.held
  · rcases List.mem_append.mp hheld with hsession | hdetached
    · -- a session that has the process was there before, and so it is the one taken out
      obtain ⟨entry, hentry, hprocess⟩ := List.mem_map.mp hsession
      refine absurd ?_ (find?_eq_none_iff.mp habsent)
      have horigin := @mem_sessions_perform r (.launch path) entry hentry
      rcases horigin with hold | ⟨document, pid, -, -, rfl⟩
      · have hsame := List.inj_on_of_nodup_map hcustody.sessions_nodup hold
          (mem_of_find? hfind) hprocess
        rw [← (show entry.1 = name from congrArg Prod.fst hsame)]
        exact List.mem_map_of_mem hentry
      · have hlt := (List.getElem?_eq_some_iff.mp hp).1
        exact absurd hprocess (Nat.ne_of_gt hlt)
    · exact Or.inl hdetached
  · exact Or.inr ⟨_, hmore, hcustody'.dropped_ended _ _ hmore hheld⟩

/-- A launch that fails leaves the state of a refusal. -/
theorem refused_launch {r : Registry} (hcustody : r.Custody) {document : Path}
    (hdocument : document ≠ []) {failure : Failure}
    (herror : (r.launch (some document)).1 = .error failure) :
    r.Refused document (r.launch (some document)).2 := by
  have hrunning := ((launch_eq_error_iff hdocument failure).mp herror).1
  have hlaunch := launch_of_not_hasRunning hdocument hrunning
  obtain ⟨ns, hprocesses⟩ := processes_cleared r document
  rw [hlaunch] at herror
  obtain ⟨hsessions, hstarted⟩ := start_of_error herror
  have habsent : (r.launch (some document)).2.find? (r.displayName document) = none := by
    rw [find?_eq_none_iff, hlaunch]
    unfold names
    rw [hsessions]
    exact notMem_names_cleared r document
  exact {
    attempts := by
      rw [hlaunch, attempts_start, hprocesses, settings_cleared, ProcessTable.attempts_askAll]
    started := by
      rw [hlaunch, hstarted, hprocesses, ProcessTable.length_askAll]
    absent := habsent
    others := fun name hne => spares_launch hcustody hne
    backends := backends_launch r (some document)
    stale := fun session hfind => accounted_of_launch hcustody hfind habsent }

-- =========================================================== whole runs

/-- A launch that fails does no harm. In every state that a run leads to, a launch without a
document does nothing. A launch of a document fails exactly if no session of it says that it
runs and the one attempt to start a process fails. The failure then gives the interpreter and
the launcher's reason, nothing is registered for the document, all other sessions and the
backends are as before, and no process was lost that may still run. -/
theorem failed_launch_harmless (s : Settings) (launcher : Launcher) (run : List Operation) :
    (∀ path, ((after s launcher run).launch path).1 = .error .noFile ↔
        path = none ∨ path = some [])
      ∧ (∀ path, path = none ∨ path = some [] →
          (after s launcher run).launch path = (.error .noFile, after s launcher run))
      ∧ ∀ document, document ≠ [] → ∀ failure,
          (((after s launcher run).launch (some document)).1 = .error failure ↔
            ¬(after s launcher run).HasRunning document
              ∧ ∃ reason, launcher (after s launcher run).processes.attempts.length
                  (after s launcher run).processes.started.length (Command.repl s document)
                    = .failed reason
                ∧ failure = .startFailed s.interpreter reason)
            ∧ (((after s launcher run).launch (some document)).1 = .error failure →
              (after s launcher run).Refused document
                ((after s launcher run).launch (some document)).2) := by
  have hcustody := custody_after s launcher run
  have hlauncher : (after s launcher run).processes.launcher = launcher :=
    (extends_after s launcher [] run).launcher
  refine ⟨launch_eq_noFile_iff _, fun path hpath => launch_of_noFile _ hpath, ?_⟩
  intro document hdocument failure
  have herror := launch_eq_error_iff (r := after s launcher run) hdocument failure
  rw [hlauncher, settings_after] at herror
  exact ⟨herror, refused_launch hcustody hdocument⟩

/-- The document has a session whose process has ended, and no other can be started. -/
theorem failed_launch_harmless_stale :
    (after {} startsOnce [.launch (some [97])]).launch none
        = (.error .noFile, after {} startsOnce [.launch (some [97])])
      ∧ ((after {} startsOnce [.launch (some [97])]).launch (some [97])).1
        = .error (.startFailed "cryptol".toList "no such file".toList)
      ∧ (after {} startsOnce [.launch (some [97])]).Refused [97]
          ((after {} startsOnce [.launch (some [97])]).launch (some [97])).2 := by
  obtain ⟨-, hnone, hsome⟩ := failed_launch_harmless {} startsOnce [.launch (some [97])]
  have herror : ((after {} startsOnce [.launch (some [97])]).launch (some [97])).1
      = .error (.startFailed "cryptol".toList "no such file".toList) := rfl
  exact ⟨hnone none (Or.inl rfl), herror, (hsome [97] (by decide) _).2 herror⟩

end Registry

end CryptolEdit
