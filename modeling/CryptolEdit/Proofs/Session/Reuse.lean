import CryptolEdit.Proofs.Session.Backends
import CryptolEdit.Proofs.Session.Coherence

/-!
A session whose process runs is reused.

A session leaves the registry in three ways: it is closed, a launch of its
document finds that its process has ended, or pruning finds so. As long as nobody
closes it, the other two are ruled out by what the process has answered: both ask
it first, and an answer other than that it runs would be on record for good. So
if the record at the end of a run has no such answer, the session is still there
(`find?_after`), and no launch has tried to put another in its place
(`attempts_after`).

The record is read backwards here. What is known is the state at the end, and it
settles what every step before it has seen, since tables only grow
(`ProcessTable.Extends.saysRunning`). What other processes answer, and whether
other launches succeed, is of no account.
-/

namespace CryptolEdit

namespace Registry

-- =========================================================== looking up

/-- A session that is kept is found where it was. -/
theorem find?_of_filter {r r' : Registry} {name : Text} {session : Session}
    {keeps : Text × Session → Bool} (hsessions : r'.sessions = r.sessions.filter keeps)
    (hfind : r.find? name = some session) (hkept : keeps (name, session) = true) :
    r'.find? name = some session := by
  obtain ⟨before, rest, heq, hbefore⟩ := List.lookup_eq_some_iff.mp hfind
  refine List.lookup_eq_some_iff.mpr ⟨before.filter keeps, rest.filter keeps, ?_, ?_⟩
  · rw [hsessions, heq, List.filter_append, List.filter_cons_of_pos hkept]
  · exact fun entry hentry => hbefore entry (List.mem_filter.mp hentry).1

/-- Starting a session hides no other. -/
theorem find?_start_of_some {r : Registry} {name : Text} {session : Session}
    (hfind : r.find? name = some session) (other : Text) (document : Path) :
    (r.start other document).2.find? name = some session := by
  have hstart := start_cases r other document
  generalize r.start other document = out at hstart ⊢
  cases hstart with
  | failed hlauncher => exact hfind
  | begun hlauncher =>
      show List.lookup name (r.sessions ++ [_]) = _
      rw [List.lookup_append, show r.sessions.lookup name = some session from hfind,
        Option.some_or]

/-- Pruning keeps the sessions whose processes run once the detached ones were
asked. -/
theorem sessions_prune_eq_filter {r : Registry} (hcustody : r.Custody) :
    r.prune.2.sessions
      = r.sessions.filter fun entry => r.reap.processes.runs (processOf entry) := by
  have hnodup : (r.reap.sessions.map processOf).Nodup := by
    rw [sessions_reap]
    exact hcustody.sessions_nodup
  rw [sessions_prune]
  unfold swept
  rw [sift_fst processOf r.reap hnodup, sessions_reap]

-- ============================================================ one step

/-- The process of a session is one that was started. -/
theorem started_of_find? {r : Registry} (hcustody : r.Custody) {name : Text}
    {session : Session} (hfind : r.find? name = some session) :
    ∃ p, r.processes.started[session.process]? = some p := by
  have hlt := hcustody.held_started session.process
    (List.mem_append_left _ (process_mem_of_find? hfind))
  exact ⟨_, List.getElem?_eq_getElem hlt⟩

/-- A session is not replaced as long as its process has only ever said that it
runs. -/
theorem runs_of_replaced {r : Registry} {name other : Text} {session : Session}
    {document : Path} {p : Process} (hp : r.processes.started[session.process]? = some p)
    (hrunning : ((r.expire name session).start other document).2.processes.SaysRunning
      session.process) :
    r.processes.runs session.process = true := by
  refine ProcessTable.runs_of_asked hp (List.mem_singleton_self session.process) ?_ hrunning
  refine ProcessTable.Extends.trans ?_ (extends_start _ other document)
  rw [processes_expire]
  exact ProcessTable.extends_askAll _ _

/-- A session that is found for a document, and has only ever said that it runs by
the end of a launch, ran when it was launched. -/
theorem hasRunning_of_launch {r : Registry} (hcustody : r.Custody) {path : Path}
    {session : Session} (hpath : path ≠ [])
    (hfind : r.find? (r.displayName path) = some session)
    (hrunning : (r.launch (some path)).2.processes.SaysRunning session.process) :
    r.HasRunning path := by
  refine ⟨session, hfind, ?_⟩
  obtain ⟨p, hp⟩ := started_of_find? hcustody hfind
  have hlaunch := launch_cases r (some path)
  generalize r.launch (some path) = out at hlaunch hrunning
  cases hlaunch with
  | noFile hnone => exact absurd (hnone path rfl) hpath
  | fresh hdocument hnone => cases hnone.symm.trans hfind
  | reused hdocument hsome hruns =>
      cases hsome.symm.trans hfind
      exact hruns
  | replaced hdocument hsome hended =>
      cases hsome.symm.trans hfind
      exact runs_of_replaced hp hrunning

/-- Such a launch gives the session again and focuses its name. -/
theorem launch_of_running {r : Registry} (hcustody : r.Custody) {path : Path}
    {session : Session} (hpath : path ≠ [])
    (hfind : r.find? (r.displayName path) = some session)
    (hrunning : (r.launch (some path)).2.processes.SaysRunning session.process) :
    (r.launch (some path)).1 = .ok ⟨session.handle, .reused⟩
      ∧ (r.launch (some path)).2.focused = some (r.displayName path) := by
  obtain ⟨session', hfind', hruns⟩ := hasRunning_of_launch hcustody hpath hfind hrunning
  cases hfind'.symm.trans hfind
  have hok := launch_of_session? hpath hfind hruns
  exact ⟨hok, (find?_launch hok).2⟩

/-- A session whose process goes on running outlives every launch. -/
theorem find?_launch_of_running {r : Registry} (hcustody : r.Custody) {name : Text}
    {session : Session} (hfind : r.find? name = some session) (path : Option Path)
    (hrunning : (r.launch path).2.processes.SaysRunning session.process) :
    (r.launch path).2.find? name = some session := by
  obtain ⟨p, hp⟩ := started_of_find? hcustody hfind
  have hlaunch := launch_cases r path
  generalize r.launch path = out at hlaunch hrunning ⊢
  cases hlaunch with
  | noFile hpath => exact hfind
  | fresh hdocument hnone => exact find?_start_of_some hfind _ _
  | @reused document other hdocument hsome hruns =>
      show (r.isRunning other.process).2.sessions.lookup name = some session
      rw [(isRunning_asked r other.process).sessions]
      exact hfind
  | @replaced document other hdocument hsome hended =>
      by_cases hname : name = r.displayName document
      · -- the session itself was found to have ended, and that is on record
        subst hname
        cases hsome.symm.trans hfind
        rw [runs_of_replaced hp hrunning] at hended
        cases hended
      · refine find?_start_of_some ?_ _ _
        exact find?_of_filter (sessions_expire r _ other) hfind (bne_iff_ne.mpr hname)

/-- A session stays where it is through every operation but its closing, if its
process has only ever said that it runs by the end of it. -/
theorem find?_perform {r : Registry} (hcustody : r.Custody) {name : Text}
    {session : Session} (hfind : r.find? name = some session) {op : Operation}
    (hopen : ∀ path, op = .close path → r.displayName path ≠ name)
    (hrunning : (r.perform op).processes.SaysRunning session.process) :
    (r.perform op).find? name = some session := by
  rcases perform_cases r op with ⟨-, hidle⟩ | ⟨path, rfl⟩ | ⟨path, rfl⟩ | rfl
  · unfold find?
    rw [hidle.sessions]
    exact hfind
  · exact find?_launch_of_running hcustody hfind path hrunning
  · have hne := hopen path rfl
    have hclosed := close_cases r path
    show (r.close path).2.find? name = some session
    generalize r.close path = out at hclosed ⊢
    cases hclosed with
    | absent hnone => exact hfind
    | @present other hsome =>
        exact find?_of_filter (sessions_dismiss r _ other) hfind (bne_iff_ne.mpr hne.symm)
  · obtain ⟨p, hp⟩ := started_of_find? hcustody hfind
    -- whatever reaping asks, the process is still in the table
    obtain ⟨more, hmore⟩ := (ProcessTable.extends_askAll r.processes r.detached).started _ p hp
    refine find?_of_filter (sessions_prune_eq_filter hcustody) hfind ?_
    rw [processes_reap]
    refine ProcessTable.runs_of_asked hmore (process_mem_of_find? hfind) ?_ hrunning
    show ProcessTable.Extends _ r.prune.2.processes
    rw [processes_prune]
    exact ProcessTable.Extends.refl _

-- =========================================================== whole runs

/-- Every two runs display a path alike. -/
theorem displayName_after (s : Settings) (launcher : Launcher) (run run' : List Operation)
    (path : Path) :
    (after s launcher run).displayName path = (after s launcher run').displayName path := by
  refine displayName_congr ?_ path
  rw [settings_after, settings_after]

/-- A session that is not closed stays where it is for as long as its process has
only ever said that it runs. -/
theorem find?_after {s : Settings} {launcher : Launcher} {run later : List Operation}
    {name : Text} {session : Session}
    (hfind : (after s launcher run).find? name = some session)
    (hopen : ∀ path, .close path ∈ later → (after s launcher run).displayName path ≠ name)
    (hrunning : (after s launcher (run ++ later)).processes.SaysRunning session.process) :
    (after s launcher (run ++ later)).find? name = some session := by
  induction later using List.reverseRecOn with
  | nil =>
      rw [List.append_nil]
      exact hfind
  | append_singleton later op ih =>
      rw [← List.append_assoc, after_concat] at hrunning ⊢
      have hfound := ih (fun path hmem => hopen path (List.mem_append_left _ hmem))
        ((extends_perform _ op).saysRunning hrunning)
      refine find?_perform (custody_after _ _ _) hfound (fun path hop => ?_) hrunning
      rw [displayName_after s launcher _ run]
      exact hopen path (hop ▸ List.mem_append_right _ List.mem_cons_self)

/-- Whoever launches the document on the way is given the session. -/
theorem launch_after {s : Settings} {launcher : Launcher} {run middle rest : List Operation}
    {path : Path} {session : Session} (hpath : path ≠ [])
    (hfind : (after s launcher run).find? ((after s launcher run).displayName path)
      = some session)
    (hopen : ∀ q, .close q ∈ middle →
      (after s launcher run).displayName q ≠ (after s launcher run).displayName path)
    (hrunning : (after s launcher (run ++ (middle ++ .launch (some path) :: rest))
      ).processes.SaysRunning session.process) :
    ((after s launcher (run ++ middle)).launch (some path)).1 = .ok ⟨session.handle, .reused⟩
      ∧ ((after s launcher (run ++ middle)).launch (some path)).2.focused
          = some ((after s launcher run).displayName path) := by
  -- by the end of the launch the process has said no more than by the end of the run
  have hlaunched : ((after s launcher (run ++ middle)).perform
      (.launch (some path))).processes.SaysRunning session.process := by
    rw [← after_concat]
    refine (extends_after s launcher _ rest).saysRunning ?_
    rw [List.append_assoc, List.append_assoc]
    exact hrunning
  have hfound := find?_after hfind hopen ((extends_perform _ _).saysRunning hlaunched)
  rw [← displayName_after s launcher (run ++ middle) run] at hfound ⊢
  exact launch_of_running (custody_after _ _ _) hpath hfound hlaunched

/-- Meanwhile nothing is tried in its place: all attempts are for documents of
other names. -/
theorem attempts_after {s : Settings} {launcher : Launcher} {run later : List Operation}
    {name : Text} {session : Session}
    (hfind : (after s launcher run).find? name = some session)
    (hopen : ∀ path, .close path ∈ later → (after s launcher run).displayName path ≠ name)
    (hrunning : (after s launcher (run ++ later)).processes.SaysRunning session.process) :
    ∃ tried, (after s launcher (run ++ later)).processes.attempts
        = (after s launcher run).processes.attempts ++ tried
      ∧ ∀ command ∈ tried, ∃ document, command = Command.repl s document
        ∧ (after s launcher run).displayName document ≠ name := by
  induction later using List.reverseRecOn with
  | nil => exact ⟨[], by rw [List.append_nil, List.append_nil], List.forall_mem_nil _⟩
  | append_singleton later op ih =>
      rw [← List.append_assoc, after_concat] at hrunning ⊢
      have hopen' : ∀ path, .close path ∈ later →
          (after s launcher run).displayName path ≠ name :=
        fun path hmem => hopen path (List.mem_append_left _ hmem)
      have hearlier := (extends_perform _ op).saysRunning hrunning
      obtain ⟨tried, hattempts, htried⟩ := ih hopen' hearlier
      rcases attempts_perform (after s launcher (run ++ later)) op with
        hsame | ⟨document, rfl, hdocument, hnone, hnew⟩
      · exact ⟨tried, hsame.trans hattempts, htried⟩
      · refine ⟨tried ++ [Command.repl s document], ?_, ?_⟩
        · rw [hnew, hattempts, settings_after, List.append_assoc]
        · refine List.forall_mem_append.mpr ⟨htried, List.forall_mem_singleton.mpr
            ⟨document, rfl, fun hname => hnone ?_⟩⟩
          have hfound := find?_after hfind hopen' hearlier
          rw [← hname, ← displayName_after s launcher (run ++ later) run] at hfound
          exact hasRunning_of_launch (custody_after _ _ _) hdocument hfound hrunning

/-- A session that runs is reused. A launch starts a session of a document, and
then anything may happen but that a document of the same name is closed. If the
process of the session has only ever said that it runs by then, every launch of
the document on the way gives the same handle again and focuses its name, nothing
was tried under this name, and the session is still the one of the document. -/
theorem running_session_reused (s : Settings) (launcher : Launcher)
    (before later : List Operation) (path : Path) (handle : Handle)
    (hlaunch : ((after s launcher before).launch (some path)).1 = .ok ⟨handle, .started⟩)
    (hopen : ∀ q, .close q ∈ later →
      (after s launcher before).displayName q ≠ (after s launcher before).displayName path)
    (hrunning : (after s launcher (before ++ .launch (some path) :: later)).processes.SaysRunning
      (after s launcher before).processes.started.length) :
    (∀ middle rest, later = middle ++ .launch (some path) :: rest →
        ((after s launcher (before ++ .launch (some path) :: middle)).launch (some path)).1
            = .ok ⟨handle, .reused⟩
          ∧ ((after s launcher (before ++ .launch (some path) :: middle)).launch
              (some path)).2.focused = some handle.displayName)
      ∧ (∃ tried, (after s launcher (before ++ .launch (some path) :: later)).processes.attempts
            = (after s launcher (before ++ [.launch (some path)])).processes.attempts ++ tried
          ∧ ∀ command ∈ tried, ∃ q, command = Command.repl s q
            ∧ (after s launcher before).displayName q
              ≠ (after s launcher before).displayName path)
      ∧ (after s launcher (before ++ .launch (some path) :: later)).session? path
          = some ⟨handle, (after s launcher before).processes.started.length⟩ := by
  have hpath : path ≠ [] := by
    rintro rfl
    cases hlaunch
  have hname := displayName_of_launch (coherent_after s launcher before) hlaunch
  obtain ⟨⟨process, hfind, hprocess⟩, -⟩ := find?_launch hlaunch
  cases hprocess rfl
  -- from here on the run is one that goes on after the first launch
  change ((after s launcher before).perform (.launch (some path))).find? _ = _ at hfind
  rw [← after_concat] at hfind
  simp only [← displayName_after s launcher (before ++ [.launch (some path)]) before]
    at hname hfind hopen ⊢
  rw [List.append_cons] at hrunning ⊢
  refine ⟨fun middle rest hlater => ?_, attempts_after hfind hopen hrunning, ?_⟩
  · subst hlater
    rw [List.append_cons]
    obtain ⟨hreused, hfocused⟩ := launch_after hpath hfind
      (fun q hq => hopen q (List.mem_append_left _ hq)) hrunning
    exact ⟨hreused, hname ▸ hfocused⟩
  · have hfound := find?_after hfind hopen hrunning
    unfold session?
    rw [displayName_after s launcher _ (before ++ [.launch (some path)])]
    exact hfound

/-- Starts one process, which runs on, and then none. -/
def startsLasting : Launcher := fun attempts _ _ =>
  if attempts = 0 then .begun 7 fun _ => .running else .failed "no such file".toList

/-- Another launch fails, the registry is pruned and another document closed; the
session is given again all the same. -/
theorem running_session_reused_beside_failure :
    ((after {} startsLasting []).launch (some [97])).1
        = .ok ⟨⟨"*cryptol:a*".toList, [97], 7⟩, .started⟩
      ∧ (∀ q, .close q ∈ ([.launch (some [98]), .prune, .close [98], .launch (some [97])] :
            List Operation) →
          (after {} startsLasting []).displayName q
            ≠ (after {} startsLasting []).displayName [97])
      ∧ (after {} startsLasting ([] ++ .launch (some [97]) ::
          [.launch (some [98]), .prune, .close [98], .launch (some [97])])).processes.SaysRunning 0
      ∧ ((after {} startsLasting ([] ++ .launch (some [97]) ::
          [.launch (some [98]), .prune, .close [98]])).launch (some [97])).1
            = .ok ⟨⟨"*cryptol:a*".toList, [97], 7⟩, .reused⟩
      ∧ (after {} startsLasting ([] ++ .launch (some [97]) ::
          [.launch (some [98]), .prune, .close [98], .launch (some [97])])).session? [97]
            = some ⟨⟨"*cryptol:a*".toList, [97], 7⟩, 0⟩ := by
  have hlaunch : ((after {} startsLasting []).launch (some [97])).1
      = .ok ⟨⟨"*cryptol:a*".toList, [97], 7⟩, .started⟩ := rfl
  have hopen : ∀ q, .close q ∈ ([.launch (some [98]), .prune, .close [98],
      .launch (some [97])] : List Operation) →
        (after {} startsLasting []).displayName q
          ≠ (after {} startsLasting []).displayName [97] := by
    intro q hq
    have hq' : q = [98] := by simpa using hq
    rw [hq']
    decide
  have hrunning : (after {} startsLasting ([] ++ .launch (some [97]) :: [.launch (some [98]),
      .prune, .close [98], .launch (some [97])])).processes.SaysRunning 0 := by
    rintro p hp
    cases hp
    decide
  obtain ⟨hreused, -, hsession⟩ := running_session_reused {} startsLasting [] _ [97] _
    hlaunch hopen hrunning
  exact ⟨hlaunch, hopen, hrunning,
    (hreused [.launch (some [98]), .prune, .close [98]] [] rfl).1, hsession⟩

end Registry

end CryptolEdit
