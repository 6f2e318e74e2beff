import CryptolEdit.Proofs.Session.Custody
import CryptolEdit.Proofs.Session.Naming
import CryptolEdit.Proofs.Session.Table

/-!
What a registry says of its sessions is true.

# Entries

`Sound r name session` is what an entry promises: it is registered under the
name of its handle, that is the name of the handle's document, there is such a
document, and the process has the process id that the handle gives and was
started with the command of that document. The last part goes back to the
launcher: there was an attempt with that command, and the process is what came of
it.

An entry is sound when it is made (`coherent_start`), and it stays so however the
table is extended (`Sound.of_extends`). No operation changes an entry; those that
do not start a session at most take some out (`coherent_of_subset`).

# Launches

A launch that succeeds leaves the session that it gives registered under the name
of the document, and on this name the focus (`find?_launch`). It does not matter
whether the session was there before.
-/

namespace CryptolEdit

namespace Registry

-- ============================================================ entries

/-- An entry is what a launch of its document made it. -/
structure Sound (r : Registry) (name : Text) (session : Session) : Prop where
  name_eq : name = session.handle.displayName
  displayName_eq : session.handle.displayName = r.displayName session.handle.path
  path_ne_nil : session.handle.path ≠ []
  /-- The process is what the launcher gave for the command of the document. -/
  process_eq : ∃ (p : Process) (attempt : Nat),
    r.processes.started[session.process]? = some p
      ∧ p.pid = session.handle.pid
      ∧ p.command = ⟨r.settings.interpreter,
          r.settings.replArgs.map Text.encode ++ [session.handle.path]⟩
      ∧ r.processes.attempts[attempt]? = some p.command
      ∧ r.processes.launcher attempt session.process p.command = .begun p.pid p.script

/-- All entries are sound. -/
def Coherent (r : Registry) : Prop := ∀ entry ∈ r.sessions, r.Sound entry.1 entry.2

/-- Display names depend on the settings and on nothing else. -/
theorem displayName_congr {r r' : Registry} (h : r'.settings = r.settings) (path : Path) :
    r'.displayName path = r.displayName path := by
  unfold displayName
  rw [h]

/-- An entry that is sound stays sound while the table of processes grows. -/
theorem Sound.of_extends {r r' : Registry} {name : Text} {session : Session}
    (h : r.Sound name session) (hsettings : r'.settings = r.settings)
    (hextends : r.processes.Extends r'.processes) : r'.Sound name session where
  name_eq := h.name_eq
  displayName_eq := by
    rw [displayName_congr hsettings]
    exact h.displayName_eq
  path_ne_nil := h.path_ne_nil
  process_eq := by
    obtain ⟨p, attempt, hp, hpid, hcommand, hattempt, hbegun⟩ := h.process_eq
    obtain ⟨more, hmore⟩ := hextends.started _ p hp
    refine ⟨_, attempt, hmore, hpid, ?_, ?_, ?_⟩
    · rw [hsettings]
      exact hcommand
    · obtain ⟨hlt, hget⟩ := List.getElem?_eq_some_iff.mp hattempt
      rw [List.prefix_iff_getElem?.mp hextends.attempts attempt hlt, hget]
    · rw [hextends.launcher]
      exact hbegun

/-- Sessions may be taken out and processes may answer. -/
theorem coherent_of_subset {r r' : Registry} (h : r.Coherent)
    (hsettings : r'.settings = r.settings) (hsessions : r'.sessions ⊆ r.sessions)
    (hextends : r.processes.Extends r'.processes) : r'.Coherent :=
  fun entry hentry => (h entry (hsessions hentry)).of_extends hsettings hextends

-- ========================================================= operations

/-- A session that is started for a document is sound. -/
theorem coherent_start {r : Registry} (h : r.Coherent) {document : Path}
    (hdocument : document ≠ []) :
    (r.start (r.displayName document) document).2.Coherent := by
  have hextends := extends_start r (r.displayName document) document
  have hstart := start_cases r (r.displayName document) document
  generalize r.start (r.displayName document) document = out at hstart hextends ⊢
  cases hstart with
  | failed hlauncher =>
      exact coherent_of_subset h rfl (List.Subset.refl _) hextends
  | @begun pid script hlauncher =>
      intro entry hentry
      rcases List.mem_append.mp hentry with hold | hnew
      · exact (h entry hold).of_extends rfl hextends
      · rw [List.mem_singleton.mp hnew]
        exact {
          name_eq := rfl
          displayName_eq := rfl
          path_ne_nil := hdocument
          process_eq := ⟨⟨pid, Command.repl r.settings document, script, []⟩,
            r.processes.attempts.length, List.getElem?_concat_length, rfl, rfl,
            List.getElem?_concat_length, hlauncher⟩ }

/-- Dropping an entry leaves the others coherent. -/
theorem coherent_expire {r : Registry} (h : r.Coherent) (name : Text)
    (session : Session) : (r.expire name session).Coherent := by
  refine coherent_of_subset h (settings_expire r name session) ?_
    (extends_expire r name session)
  rw [sessions_expire]
  exact List.filter_sublist.subset

theorem coherent_launch {r : Registry} (h : r.Coherent) (path : Option Path) :
    (r.launch path).2.Coherent := by
  have hextends := extends_launch r path
  have hlaunch := launch_cases r path
  generalize r.launch path = out at hlaunch hextends ⊢
  cases hlaunch with
  | noFile hpath => exact h
  | fresh hdocument hfind => exact coherent_start h hdocument
  | @reused document session hdocument hfind hruns =>
      have hasked := isRunning_asked r session.process
      refine coherent_of_subset h hasked.settings ?_ hextends
      rw [← hasked.sessions]
      exact List.Subset.refl _
  | @replaced document session hdocument hfind hruns =>
      have hstart := coherent_start (coherent_expire h (r.displayName document) session)
        hdocument
      rw [displayName_congr (settings_expire r _ session)] at hstart
      exact hstart

/-- Every operation leaves all entries sound. -/
theorem coherent_perform {r : Registry} (h : r.Coherent) (op : Operation) :
    (r.perform op).Coherent := by
  by_cases hop : ∃ path, op = .launch path
  · obtain ⟨path, rfl⟩ := hop
    exact coherent_launch h path
  · refine coherent_of_subset h (settings_perform r op) (fun entry hentry => ?_)
      (extends_perform r op)
    rcases mem_sessions_perform hentry with hold | ⟨document, pid, hlaunch, -⟩
    · exact hold
    · exact absurd ⟨_, hlaunch⟩ hop

theorem coherent_after (s : Settings) (launcher : Launcher) (run : List Operation) :
    (after s launcher run).Coherent :=
  after_induction (P := Coherent) (fun _ hentry => nomatch hentry)
    (fun _ op h => coherent_perform h op) run

-- =========================================================== launches

/-- A start that succeeds registers what it gives, with the next process, and
focuses it. -/
theorem find?_start {r : Registry} {name : Text} {document : Path} {launch : Launch}
    (hfresh : r.find? name = none) (hok : (r.start name document).1 = .ok launch) :
    (r.start name document).2.find? name
        = some ⟨launch.handle, r.processes.started.length⟩
      ∧ (r.start name document).2.focused = some name := by
  have hstart := start_cases r name document
  generalize r.start name document = out at hstart hok ⊢
  cases hstart with
  | failed hlauncher => cases hok
  | begun hlauncher =>
      cases hok
      refine ⟨?_, rfl⟩
      show List.lookup name (r.sessions ++ [_]) = _
      rw [List.lookup_append, show r.sessions.lookup name = none from hfresh, Option.none_or]
      exact List.lookup_cons_self

/-- A launch that succeeds leaves what it gives registered and focused. What it
has started is the next process. -/
theorem find?_launch {r : Registry} {path : Path} {launch : Launch}
    (hok : (r.launch (some path)).1 = .ok launch) :
    (∃ process, (r.launch (some path)).2.find? (r.displayName path)
          = some ⟨launch.handle, process⟩
        ∧ (launch.origin = .started → process = r.processes.started.length))
      ∧ (r.launch (some path)).2.focused = some (r.displayName path) := by
  have hlaunch := launch_cases r (some path)
  generalize r.launch (some path) = out at hlaunch hok ⊢
  cases hlaunch with
  | noFile hpath => cases hok
  | fresh hdocument hfind =>
      obtain ⟨hfound, hfocused⟩ := find?_start hfind hok
      exact ⟨⟨_, hfound, fun _ => rfl⟩, hfocused⟩
  | @reused _ session hdocument hfind hruns =>
      cases hok
      refine ⟨⟨session.process, ?_, fun horigin => nomatch horigin⟩, rfl⟩
      show (r.isRunning session.process).2.sessions.lookup _ = _
      rw [(isRunning_asked r session.process).sessions]
      exact hfind
  | @replaced _ session hdocument hfind hruns =>
      have hfresh : (r.expire (r.displayName path) session).find? (r.displayName path)
          = none := by
        rw [find?_eq_none_iff, mem_names_of_filter (sessions_expire r _ session)]
        exact fun h => h.2 rfl
      obtain ⟨hfound, hfocused⟩ := find?_start hfresh hok
      refine ⟨⟨_, hfound, fun _ => ?_⟩, hfocused⟩
      rw [processes_expire, ProcessTable.length_askAll, ProcessTable.length_askAll]

/-- What a launch gives has the name of the document that it was asked for. -/
theorem displayName_of_launch {r : Registry} (hcoherent : r.Coherent) {path : Path}
    {launch : Launch} (hok : (r.launch (some path)).1 = .ok launch) :
    launch.handle.displayName = r.displayName path := by
  obtain ⟨⟨process, hfound, -⟩, -⟩ := find?_launch hok
  exact (coherent_launch hcoherent (some path) _ (mem_of_find? hfound)).name_eq.symm

/-- Handles, names and processes belong together. At the end of every run, each
session is registered under the name of its handle, which is the name of its
document. The document exists, and the process of the session has the process id
of the handle and was started with the document as the last argument. Whoever
launches a document next, and succeeds, has a handle with the name of the
document; the document's session has this handle, and the name has the focus. -/
theorem sessions_coherent (s : Settings) (launcher : Launcher) (run : List Operation) :
    (∀ name session, (name, session) ∈ (after s launcher run).sessions →
        (after s launcher run).Sound name session)
      ∧ ∀ path launch, ((after s launcher run).launch (some path)).1 = .ok launch →
          launch.handle.displayName = (after s launcher run).displayName path
            ∧ (((after s launcher run).launch (some path)).2.session? path).map
                Session.handle = some launch.handle
            ∧ ((after s launcher run).launch (some path)).2.focused
                = some launch.handle.displayName := by
  have hcoherent := coherent_after s launcher run
  refine ⟨fun name session hentry => hcoherent _ hentry, fun path launch hok => ?_⟩
  have hname := displayName_of_launch hcoherent hok
  obtain ⟨⟨process, hfound, -⟩, hfocused⟩ := find?_launch hok
  refine ⟨hname, ?_, by rw [hname]; exact hfocused⟩
  have hsame := displayName_perform (after s launcher run) (.launch (some path)) path
  unfold session?
  rw [show (((after s launcher run).launch (some path)).2).displayName path = _ from hsame,
    hfound]
  rfl

/-- The session that a launch has registered is sound, and the next launch of the
document gives its handle. -/
theorem sessions_coherent_relaunched :
    ("*cryptol:a*".toList, (⟨⟨"*cryptol:a*".toList, [97], 1000⟩, 0⟩ : Session))
        ∈ (after {} startsAll [.launch (some [97])]).sessions
      ∧ (after {} startsAll [.launch (some [97])]).Sound "*cryptol:a*".toList
          ⟨⟨"*cryptol:a*".toList, [97], 1000⟩, 0⟩
      ∧ ((after {} startsAll [.launch (some [97])]).launch (some [97])).1
          = .ok ⟨⟨"*cryptol:a*".toList, [97], 1000⟩, .reused⟩
      ∧ ((after {} startsAll [.launch (some [97])]).launch (some [97])).2.focused
          = some "*cryptol:a*".toList := by
  obtain ⟨hsound, hlaunch⟩ := sessions_coherent {} startsAll [.launch (some [97])]
  have hentry : ("*cryptol:a*".toList, (⟨⟨"*cryptol:a*".toList, [97], 1000⟩, 0⟩ : Session))
      ∈ (after {} startsAll [.launch (some [97])]).sessions := List.mem_cons_self
  obtain ⟨-, -, hfocused⟩ := hlaunch [97] ⟨⟨"*cryptol:a*".toList, [97], 1000⟩, .reused⟩ rfl
  exact ⟨hentry, hsound _ _ hentry, rfl, hfocused⟩

end Registry

end CryptolEdit
