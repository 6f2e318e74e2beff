import CryptolEdit.Proofs.Session.Run
import CryptolEdit.Proofs.Text.Utf8

/-!
Which documents share a session.

A session is registered under the name of its document, and a name is made from
what a path looks like (`named_after`). Two documents have one name exactly if
their paths look the same (`displayName_inj`), and what looks the same need not
be the same: bytes that are no text are shown as replacement characters.

So whoever asks for a document is given a session of that document, in every
state of every run, exactly if no replacement character is shown in its path
(`own_session_after_iff`). Such a path can be read back from its name. For any
other there is a second path that looks like it, and whoever asks for the one
can be given the session of the other (`exists_shared_session`).
-/

namespace CryptolEdit

namespace Registry

-- ============================================================== names

/-- Documents have the same name if they look the same. -/
theorem displayName_inj {r : Registry} {p q : Path} :
    r.displayName p = r.displayName q ↔ p.display = q.display := by
  unfold displayName
  rw [List.append_cancel_right_eq, List.append_cancel_left_eq]

/-- Every session is registered under the name of its document. -/
def Named (r : Registry) : Prop :=
  ∀ entry ∈ r.sessions, entry.1 = r.displayName entry.2.handle.path

/-- No operation changes how a path is displayed. -/
theorem displayName_perform (r : Registry) (op : Operation) (path : Path) :
    (r.perform op).displayName path = r.displayName path := by
  unfold displayName
  rw [settings_perform]

/-- Every operation keeps the sessions under the names of their own paths. -/
theorem named_perform {r : Registry} (h : r.Named) (op : Operation) :
    (r.perform op).Named := by
  intro entry hentry
  rw [displayName_perform]
  rcases mem_sessions_perform hentry with hold | ⟨document, pid, -, -, rfl⟩
  · exact h entry hold
  · rfl

theorem named_after (s : Settings) (launcher : Launcher) (run : List Operation) :
    (after s launcher run).Named := by
  refine after_induction (P := Named) ?_ (fun r op h => named_perform h op) run
  intro entry hentry
  cases hentry

/-- A session that is found for a document was started for one that looks the
same. -/
theorem display_of_session? {r : Registry} (hnamed : r.Named) {path : Path}
    {session : Session} (h : r.session? path = some session) :
    session.handle.path.display = path.display :=
  displayName_inj.mp (hnamed _ (mem_of_find? h)).symm

/-- A launch gives a new session of the document itself, or the session that is
found for it. -/
theorem handle_of_launch {r : Registry} {path : Path} {launch : Launch}
    (h : (r.launch (some path)).1 = .ok launch) :
    launch.handle.path = path
      ∨ ∃ session, r.session? path = some session ∧ launch.handle = session.handle := by
  have hstarted : ∀ r' : Registry, ∀ name,
      (r'.start name path).1 = .ok launch → launch.handle.path = path := by
    intro r' name hok
    have hstart := start_cases r' name path
    generalize r'.start name path = out at hstart hok
    cases hstart with
    | failed hlauncher => cases hok
    | begun hlauncher => cases hok; rfl
  have hlaunch := launch_cases r (some path)
  generalize r.launch (some path) = out at hlaunch h
  cases hlaunch with
  | noFile hpath => cases h
  | fresh hdocument hfind => exact Or.inl (hstarted _ _ h)
  | @reused _ session hdocument hfind hruns =>
      cases h
      exact Or.inr ⟨session, hfind, rfl⟩
  | replaced hdocument hfind hruns => exact Or.inl (hstarted _ _ h)

-- ===================================================== sharing sessions

/-- A launch of a document gives a session that was started for it. -/
def LaunchesOwn (r : Registry) (path : Path) : Prop :=
  ∀ launch, (r.launch (some path)).1 = .ok launch → launch.handle.path = path

/-- The session that is found for a document was started for it. -/
def FindsOwn (r : Registry) (path : Path) : Prop :=
  ∀ session, r.session? path = some session → session.handle.path = path

/-- What is found for a path that shows no replacement character is its own. -/
theorem findsOwn_of_named {r : Registry} (hnamed : r.Named) {path : Path}
    (hshown : Text.Utf8.replacement ∉ path.display) : r.FindsOwn path := fun _ h =>
  Text.eq_of_decodeLossy_eq hshown (display_of_session? hnamed h)

/-- A path that finds its own session does not launch into another's. -/
theorem launchesOwn_of_findsOwn {r : Registry} {path : Path} (h : r.FindsOwn path) :
    r.LaunchesOwn path := by
  intro launch hok
  rcases handle_of_launch hok with hnew | ⟨session, hfound, hhandle⟩
  · exact hnew
  · rw [hhandle]
    exact h session hfound

/-- Starts whatever it is asked to start. -/
def startsAll : Launcher := fun _ started _ => .begun (1000 + started) fun _ => .running

/-- After one launch, the session is found for every path that looks the same,
and its process runs. -/
theorem session?_after_launch (s : Settings) {p q : Path} (hp : p ≠ [])
    (hdisplay : p.display = q.display) :
    ∃ session, (after s startsAll [.launch (some p)]).session? q = some session
      ∧ session.handle.path = p
      ∧ (after s startsAll [.launch (some p)]).processes.runs session.process
          = true := by
  obtain ⟨b, rest, rfl⟩ := List.exists_cons_of_ne_nil hp
  have hname := displayName_inj (r := ofLauncher s startsAll).mpr hdisplay
  refine ⟨⟨⟨(ofLauncher s startsAll).displayName (b :: rest), b :: rest, 1000⟩, 0⟩,
    ?_, rfl, rfl⟩
  show List.lookup ((ofLauncher s startsAll).displayName q)
    [((ofLauncher s startsAll).displayName (b :: rest), _)] = _
  rw [← hname, List.lookup_cons_self]
  rfl

/-- A session that is found and runs is what a launch gives. -/
theorem launch_of_session? {r : Registry} {path : Path} {session : Session}
    (hpath : path ≠ []) (hfound : r.session? path = some session)
    (hruns : r.processes.runs session.process = true) :
    (r.launch (some path)).1 = .ok ⟨session.handle, .reused⟩ := by
  unfold session? at hfound
  have hlaunch := launch_cases r (some path)
  generalize r.launch (some path) = out at hlaunch ⊢
  cases hlaunch with
  | noFile hnone => exact absurd (hnone path rfl) hpath
  | fresh hdocument hfind =>
      rw [hfound] at hfind
      cases hfind
  | reused hdocument hfind hruns' =>
      rw [hfound] at hfind
      cases hfind
      rfl
  | replaced hdocument hfind hended =>
      rw [hfound] at hfind
      cases hfind
      rw [hruns] at hended
      cases hended

/-- A path in which a replacement character is shown can be given the session
of another. -/
theorem exists_shared_session {path : Path}
    (hmem : Text.Utf8.replacement ∈ path.display) :
    ∃ run, ¬(after {} startsAll run).LaunchesOwn path
      ∧ ¬(after {} startsAll run).FindsOwn path := by
  obtain ⟨p, hne, hdisplay⟩ := Text.exists_decodeLossy_eq hmem
  have hnonempty : ∀ q : Path, q.display = path.display → q ≠ [] := by
    rintro q hq rfl
    rw [← hq] at hmem
    cases hmem
  obtain ⟨session, hfound, hsession, hruns⟩ :=
    session?_after_launch {} (hnonempty p hdisplay) hdisplay
  refine ⟨[.launch (some p)], fun hown => hne ?_, fun hown => hne ?_⟩
  · have hlaunch := launch_of_session? (hnonempty path rfl) hfound hruns
    exact hsession.symm.trans (hown _ hlaunch)
  · exact hsession.symm.trans (hown session hfound)

/-- The document of a session is the one that was asked for, in every state of
every run, exactly if no replacement character is shown in the path that was
asked for. -/
theorem own_session_after_iff (path : Path) :
    ((∀ s launcher run, (after s launcher run).LaunchesOwn path)
        ↔ Text.Utf8.replacement ∉ path.display)
      ∧ ((∀ s launcher run, (after s launcher run).FindsOwn path)
        ↔ Text.Utf8.replacement ∉ path.display) := by
  have hfinds : Text.Utf8.replacement ∉ path.display →
      ∀ s launcher run, (after s launcher run).FindsOwn path :=
    fun hshown s launcher run => findsOwn_of_named (named_after s launcher run) hshown
  refine ⟨⟨fun hown hmem => ?_, fun hshown s launcher run => ?_⟩,
    ⟨fun hown hmem => ?_, hfinds⟩⟩
  · obtain ⟨run, hlaunches, -⟩ := exists_shared_session hmem
    exact hlaunches (hown {} startsAll run)
  · exact launchesOwn_of_findsOwn (hfinds hshown s launcher run)
  · obtain ⟨run, -, hfound⟩ := exists_shared_session hmem
    exact hfound (hown {} startsAll run)

/-- Two paths that are no text: the session of one is found for the other, and a
launch of the other gives it. -/
theorem session_shared_by_lookalikes :
    ¬(after {} startsAll [.launch (some [0xff])]).LaunchesOwn [0xfe]
      ∧ ¬(after {} startsAll [.launch (some [0xff])]).FindsOwn [0xfe] := by
  refine ⟨fun hown => ?_, fun hown => ?_⟩
  · have h := hown _ rfl
    cases h
  · have h := hown _ rfl
    cases h

end Registry

end CryptolEdit
