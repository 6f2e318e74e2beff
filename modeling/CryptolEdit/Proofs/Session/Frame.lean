import CryptolEdit.Proofs.Session.Reuse

/-!
Operations on one document leave the others alone.

Which processes an operation asks is not plain from its name. Closing a session asks every
detached process, and so does a launch that finds a session whose process has ended; a
process that is asked at the wrong time may be taken for gone. `Spares` says that none of
this reaches a given name: what is registered under the name is as before, and its process
has been asked nothing.

The reason is custody. The processes that an operation on a document asks are the one of
the document's session and the detached ones, and the process of another session is none of
these, since no process is held twice (`process_ne`, `process_notMem_detached`). What a
start adds is at the end of the table, behind every process that is held.

Operations that only ask move nothing at all (`Unmoved`).
-/

namespace CryptolEdit

namespace Registry

-- =========================================================== looking up

/-- Taking out one name does not change what is found under another. -/
theorem find?_filter_of_ne {r r' : Registry} {name other : Text}
    (hsessions : r'.sessions = r.sessions.filter fun entry => entry.1 != other)
    (hne : name ≠ other) : r'.find? name = r.find? name := by
  cases hfind : r.find? name with
  | none =>
      rw [find?_eq_none_iff] at hfind ⊢
      exact fun hmem => hfind ((mem_names_of_filter hsessions name).mp hmem).1
  | some session => exact find?_of_filter hsessions hfind (bne_iff_ne.mpr hne)

/-- What is registered under another name stays when a process is started. -/
theorem find?_start_of_ne {r : Registry} {name other : Text} (hne : name ≠ other)
    (document : Path) : (r.start other document).2.find? name = r.find? name := by
  cases hfind : r.find? name with
  | none =>
      rw [find?_eq_none_iff] at hfind ⊢
      intro hmem
      obtain ⟨entry, hentry, rfl⟩ := List.mem_map.mp hmem
      rcases mem_sessions_start hentry with hold | ⟨pid, rfl⟩
      · exact hfind (List.mem_map_of_mem hold)
      · exact hne rfl
  | some session => exact find?_start_of_some hfind other document

/-- Sessions of different names have different processes. -/
theorem process_ne {r : Registry} (hcustody : r.Custody) {name other : Text}
    {session session' : Session} (hfind : r.find? name = some session)
    (hother : r.find? other = some session') (hne : name ≠ other) :
    session.process ≠ session'.process := by
  intro heq
  have hsame := List.inj_on_of_nodup_map hcustody.sessions_nodup (mem_of_find? hfind)
    (mem_of_find? hother) heq
  exact hne (Prod.mk.inj hsame).1

/-- The process of a session is not detached. -/
theorem process_notMem_detached {r : Registry} (hcustody : r.Custody) {name : Text}
    {session : Session} (hfind : r.find? name = some session) :
    session.process ∉ r.detached :=
  hcustody.notMem_detached (process_mem_of_find? hfind)

-- ============================================================== sparing

/-- What is registered under a name stays so, and its process is not asked. -/
structure Spares (r : Registry) (name : Text) (r' : Registry) : Prop where
  registered : r'.find? name = r.find? name
  unasked : ∀ session, r.find? name = some session →
    r'.processes.started[session.process]? = r.processes.started[session.process]?

theorem Spares.refl (r : Registry) (name : Text) : r.Spares name r := ⟨rfl, fun _ _ => rfl⟩

theorem Spares.trans {r r' r'' : Registry} {name : Text} (h : r.Spares name r')
    (h' : r'.Spares name r'') : r.Spares name r'' where
  registered := h'.registered.trans h.registered
  unasked := fun session hfind =>
    (h'.unasked session (h.registered.trans hfind)).trans (h.unasked session hfind)

/-- Asking spares whom it does not ask. -/
theorem spares_of_asked {r r' : Registry} {name : Text} {ns : List Nat}
    (hregistered : r'.find? name = r.find? name)
    (hprocesses : r'.processes = r.processes.askAll ns)
    (hns : ∀ session, r.find? name = some session → session.process ∉ ns) :
    r.Spares name r' where
  registered := hregistered
  unasked := fun session hfind => by
    rw [hprocesses, ProcessTable.getElem?_askAll_of_notMem _ (hns session hfind)]

/-- Asking the process of one session spares the others. -/
theorem spares_of_asked_own {r r' : Registry} (hcustody : r.Custody) {name other : Text}
    {session : Session} (hother : r.find? other = some session) (hne : name ≠ other)
    (hsessions : r'.sessions = r.sessions)
    (hprocesses : r'.processes = r.processes.askAll [session.process]) : r.Spares name r' := by
  refine spares_of_asked (congrArg (List.lookup name) hsessions) hprocesses ?_
  intro session' hfind
  rw [List.mem_singleton]
  exact process_ne hcustody hfind hother hne

/-- The processes that are asked when a session is set aside are of no other session. -/
theorem process_notMem_setAside {r : Registry} (hcustody : r.Custody) {name other : Text}
    {session session' : Session} (hfind : r.find? name = some session)
    (hother : r.find? other = some session') (hne : name ≠ other) :
    session.process ∉ r.detached ++ [session'.process] := by
  rw [List.mem_append, List.mem_singleton, not_or]
  exact ⟨process_notMem_detached hcustody hfind, process_ne hcustody hfind hother hne⟩

/-- Dropping one session spares the others. -/
theorem spares_expire {r : Registry} (hcustody : r.Custody) {name other : Text}
    {session : Session} (hother : r.find? other = some session) (hne : name ≠ other) :
    r.Spares name (r.expire other session) := by
  have hprocesses := processes_expire r other session
  rw [← ProcessTable.askAll_append] at hprocesses
  refine spares_of_asked (find?_filter_of_ne (sessions_expire r other session) hne) hprocesses
    fun session' hfind => ?_
  rw [List.mem_append, List.mem_singleton, not_or]
  exact ⟨process_ne hcustody hfind hother hne,
    process_notMem_setAside hcustody hfind hother hne⟩

theorem spares_dismiss {r : Registry} (hcustody : r.Custody) {name other : Text}
    {session : Session} (hother : r.find? other = some session) (hne : name ≠ other) :
    r.Spares name (r.dismiss other session) :=
  spares_of_asked (find?_filter_of_ne (sessions_dismiss r other session) hne)
    (processes_dismiss r other session)
    fun _ hfind => process_notMem_setAside hcustody hfind hother hne

/-- Starting a process spares what is registered under other names. -/
theorem spares_start {r : Registry} (hcustody : r.Custody) {name other : Text}
    (document : Path) (hne : name ≠ other) : r.Spares name (r.start other document).2 where
  registered := find?_start_of_ne hne document
  unasked := fun session hfind => by
    have hlt := hcustody.held_started session.process
      (List.mem_append_left _ (process_mem_of_find? hfind))
    have hstart := start_cases r other document
    generalize r.start other document = out at hstart ⊢
    cases hstart with
    | failed hlauncher => rfl
    | begun hlauncher => exact List.getElem?_append_left hlt

-- ========================================================= operations

/-- The document that an operation is about. -/
def Operation.document? : Operation → Option Path
  | .launch path | .compile path _ => path
  | .close path | .isLive path | .session path | .pollSession path => some path
  | _ => none

/-- A launch spares every name but its own. -/
theorem spares_launch {r : Registry} (hcustody : r.Custody) {name : Text} {document : Path}
    (hne : name ≠ r.displayName document) :
    r.Spares name (r.launch (some document)).2 := by
  have hlaunch := launch_cases r (some document)
  generalize r.launch (some document) = out at hlaunch ⊢
  cases hlaunch with
  | noFile hpath => exact Spares.refl r name
  | fresh hdocument hfind => exact spares_start hcustody document hne
  | @reused _ session hdocument hfind hruns =>
      have hasked := isRunning_asked r session.process
      exact spares_of_asked_own hcustody hfind hne hasked.sessions hasked.processes
  | @replaced _ session hdocument hfind hruns =>
      have hcustody' := (keeps_expire hfind hcustody).1
      exact (spares_expire hcustody hfind hne).trans (spares_start hcustody' document hne)

theorem spares_close {r : Registry} (hcustody : r.Custody) {name : Text} {path : Path}
    (hne : name ≠ r.displayName path) : r.Spares name (r.close path).2 := by
  have hclosed := close_cases r path
  generalize r.close path = out at hclosed ⊢
  cases hclosed with
  | absent hfind => exact Spares.refl r name
  | present hfind => exact spares_dismiss hcustody hfind hne

/-- Asking for one session asks no other process. -/
theorem spares_isLive {r : Registry} (hcustody : r.Custody) {name : Text} {path : Path}
    (hne : name ≠ r.displayName path) : r.Spares name (r.isLive path).2 := by
  unfold isLive
  cases hfind : r.session? path with
  | none => exact Spares.refl r name
  | some session =>
      have hasked := isRunning_asked r session.process
      exact spares_of_asked_own hcustody hfind hne hasked.sessions hasked.processes

theorem spares_pollSession {r : Registry} (hcustody : r.Custody) {name : Text} {path : Path}
    (hne : name ≠ r.displayName path) : r.Spares name (r.pollSession path).2 := by
  unfold pollSession
  cases hfind : r.session? path with
  | none => exact Spares.refl r name
  | some session => exact spares_of_asked_own hcustody hfind hne rfl rfl

/-- An operation on one document spares all names but that of the document. -/
theorem spares_perform {r : Registry} (hcustody : r.Custody) {op : Operation} {path : Path}
    (hop : op.document? = some path) {name : Text} (hne : name ≠ r.displayName path) :
    r.Spares name (r.perform op) := by
  cases op with
  | launch document =>
      cases hop
      exact spares_launch hcustody hne
  | close _ =>
      cases hop
      exact spares_close hcustody hne
  | isLive _ =>
      cases hop
      exact spares_isLive hcustody hne
  | pollSession _ =>
      cases hop
      exact spares_pollSession hcustody hne
  | session _ | compile _ _ => exact Spares.refl r name
  | _ => cases hop

/-- Closing takes the focus away from the document that is closed, or leaves it where it is. -/
theorem focused_close (r : Registry) (path : Path) :
    (r.close path).2.focused = r.focused
      ∨ (r.focused = some (r.displayName path) ∧ (r.close path).2.focused = none) := by
  have hclosed := close_cases r path
  generalize r.close path = out at hclosed ⊢
  cases hclosed with
  | absent hfind => exact Or.inl rfl
  | present hfind =>
      rw [focused_dismiss]
      unfold blur
      split
      next hfocus => exact Or.inr ⟨hfocus, rfl⟩
      next => exact Or.inl rfl

-- ============================================================== asking

/-- Whether an operation only asks. -/
def Operation.isQuery : Operation → Bool
  | .isLive _ | .liveCount | .session _ | .pollSession _ | .compile _ _ => true
  | _ => false

/-- Sessions, focus, detached processes and backends are as before, and no detached process
was asked. -/
structure Unmoved (r r' : Registry) : Prop where
  sessions : r'.sessions = r.sessions
  focused : r'.focused = r.focused
  detached : r'.detached = r.detached
  unasked : ∀ n ∈ r.detached, r'.processes.started[n]? = r.processes.started[n]?
  backends : r'.backends = r.backends

/-- A query moves no session, whatever its answer is. -/
theorem unmoved_perform {r : Registry} (hcustody : r.Custody) {op : Operation}
    (hop : op.isQuery = true) : r.Unmoved (r.perform op) := by
  have hidle : r.Idle (r.perform op) := idle_perform r (by cases op <;> first | rfl | cases hop)
  have hbackends : op.onBackends? r.settings = none := by
    cases op <;> first | rfl | cases hop
  obtain ⟨ns, hns, hprocesses⟩ := hidle.processes
  refine ⟨hidle.sessions, hidle.focused, hidle.detached, fun n hn => ?_, ?_⟩
  · rw [hprocesses, ProcessTable.getElem?_askAll_of_notMem]
    exact fun hmem => hcustody.notMem_detached (hns hmem) hn
  · rw [backends_perform, hbackends]
    rfl

-- =========================================================== whole runs

/-- Documents do not get in each other's way. In every state that a run leads to, an operation
on one document leaves what is registered under any other name as it is, and does not ask its
process, whatever comes of the operation. Closing a document takes the focus from that
document alone, and asking changes nothing that is registered, focused, detached or listed. -/
theorem documents_independent (s : Settings) (launcher : Launcher) (run : List Operation) :
    (∀ op path name, op.document? = some path →
        name ≠ (after s launcher run).displayName path →
          (after s launcher run).Spares name ((after s launcher run).perform op))
      ∧ (∀ path, ((after s launcher run).close path).2.focused = (after s launcher run).focused
          ∨ ((after s launcher run).focused = some ((after s launcher run).displayName path)
            ∧ ((after s launcher run).close path).2.focused = none))
      ∧ ∀ op, op.isQuery = true →
          (after s launcher run).Unmoved ((after s launcher run).perform op) := by
  have hcustody := custody_after s launcher run
  exact ⟨fun op path name hop hne => spares_perform hcustody hop hne, focused_close _,
    fun op hop => unmoved_perform hcustody hop⟩

/-- With two documents launched, the first is closed. The second keeps its session, and its
process has been asked nothing. -/
theorem documents_independent_closed :
    (after {} startsAll [.launch (some [97]), .launch (some [98]), .close [97]]).find?
        "*cryptol:b*".toList = some ⟨⟨"*cryptol:b*".toList, [98], 1001⟩, 1⟩
      ∧ (after {} startsAll [.launch (some [97]), .launch (some [98]), .close [97]]
          ).processes.started[1]?
        = (after {} startsAll [.launch (some [97]), .launch (some [98])]).processes.started[1]?
      ∧ (after {} startsAll [.launch (some [97]), .launch (some [98])]).Unmoved
          (after {} startsAll [.launch (some [97]), .launch (some [98]), .liveCount]) := by
  obtain ⟨hspares, -, hquery⟩ :=
    documents_independent {} startsAll [.launch (some [97]), .launch (some [98])]
  have hclosed := hspares (.close [97]) [97] "*cryptol:b*".toList rfl (by decide)
  exact ⟨hclosed.registered, hclosed.unasked ⟨⟨"*cryptol:b*".toList, [98], 1001⟩, 1⟩ rfl,
    hquery .liveCount rfl⟩

end Registry

end CryptolEdit
