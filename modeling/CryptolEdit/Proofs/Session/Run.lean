import CryptolEdit.Proofs.Session.Polling
import Mathlib.Data.List.Induction

/-!
Runs of a registry: any operations, in any order, on any paths.

# One step

`perform` carries out one operation and forgets its answer; `after` is the
state that a run of operations leads to from a registry without sessions. What
the three operations with a life of their own can do is said once, with all
guards, and never looked up in their bodies again:

- `launch_cases`: a launch without a document, of a document without a session,
  of one whose session runs, and of one whose session has ended;
- `start_cases`: an attempt to start that fails, and one that succeeds;
- `close_cases`: closing what is not there, and what is.

Pruning has no cases, only effects (`sessions_prune` and its neighbours). All
other operations are idle (`idle_perform`): they ask some processes of
sessions, or tend to the list of backends, and register, forget and focus
nothing.

# Whole runs

`after_induction` is the induction over runs: what holds of a registry without
sessions and is kept by every operation holds of every state reached.
-/

namespace CryptolEdit

namespace ProcessTable

/-- The table after an attempt that came to nothing. -/
def tried (t : ProcessTable) (c : Command) : ProcessTable :=
  { t with attempts := t.attempts ++ [c] }

/-- The table after an attempt that started a process. -/
def begun (t : ProcessTable) (c : Command) (pid : Nat) (script : Nat → Poll) :
    ProcessTable :=
  { t.tried c with started := t.started ++ [⟨pid, c, script, []⟩] }

end ProcessTable

namespace Registry

-- ========================================================= operations

/-- What a user of a registry can do with it. -/
inductive Operation where
  | launch (path : Option Path)
  | close (path : Path)
  | prune
  | isLive (path : Path)
  | liveCount
  | session (path : Path)
  /-- Asks the process of a document's session behind the registry's back. -/
  | pollSession (path : Path)
  | compile (path : Option Path) (backend : Option Text)
  | loadBackends (query : Backend.Query)
  | refreshBackends (query : Backend.Query)
  | forgetBackends

/-- Whether an operation neither starts nor ends a session. -/
def Operation.isIdle : Operation → Bool
  | .launch _ | .close _ | .prune => false
  | _ => true

/-- The registry after an operation. -/
def perform (r : Registry) : Operation → Registry
  | .launch path => (r.launch path).2
  | .close path => (r.close path).2
  | .prune => r.prune.2
  | .isLive path => (r.isLive path).2
  | .liveCount => r.liveCount.2
  | .pollSession path => (r.pollSession path).2
  | .loadBackends query => (r.loadBackends query).2
  | .refreshBackends query => (r.refreshBackends query).2
  | .forgetBackends => r.forgetBackends
  -- these give an answer and no registry
  | .session _ | .compile _ _ => r

/-- The state that a run of operations leads to from no sessions at all. -/
def after (s : Settings) (launcher : Launcher) (run : List Operation) : Registry :=
  run.foldl perform (ofLauncher s launcher)

@[simp] theorem after_nil (s : Settings) (launcher : Launcher) :
    after s launcher [] = ofLauncher s launcher := rfl

/-- One more operation is done on what the run led to. -/
theorem after_concat (s : Settings) (launcher : Launcher) (run : List Operation)
    (op : Operation) :
    after s launcher (run ++ [op]) = (after s launcher run).perform op := by
  unfold after
  rw [List.foldl_append]
  rfl

/-- The induction over runs. -/
theorem after_induction {P : Registry → Prop} {s : Settings} {launcher : Launcher}
    (hinit : P (ofLauncher s launcher))
    (hstep : ∀ r op, P r → P (r.perform op)) (run : List Operation) :
    P (after s launcher run) := by
  induction run using List.reverseRecOn with
  | nil => exact hinit
  | append_singleton run op ih =>
      rw [after_concat]
      exact hstep _ op ih

/-- Since when something holds. If a step makes `P` true, or keeps it unless
the step ends it, then `P` holds at the end of a run exactly if some step made
it true and no later step ended it. -/
theorem after_iff_since {P : Registry → Prop} {Makes Ends : Registry → Operation → Prop}
    {s : Settings} {launcher : Launcher} (hinit : ¬P (ofLauncher s launcher))
    (hstep : ∀ r op, P (r.perform op) ↔ Makes r op ∨ (P r ∧ ¬Ends r op))
    (run : List Operation) :
    P (after s launcher run) ↔
      ∃ before op later, run = before ++ op :: later
        ∧ Makes (after s launcher before) op
        ∧ ∀ middle op' rest, later = middle ++ op' :: rest →
            ¬Ends (after s launcher (before ++ op :: middle)) op' := by
  induction run using List.reverseRecOn with
  | nil =>
      refine iff_of_false hinit ?_
      rintro ⟨before, op, later, hrun, -, -⟩
      simp at hrun
  | append_singleton run last ih =>
      rw [after_concat, hstep, ih]
      constructor
      · rintro (hmakes | ⟨⟨before, op, later, rfl, hmakes, hkept⟩, hlast⟩)
        · refine ⟨run, last, [], rfl, hmakes, fun middle op' rest h => ?_⟩
          simp at h
        · refine ⟨before, op, later ++ [last], by simp, hmakes, ?_⟩
          intro middle op' rest h
          -- either the step is the last one, or it lies in the shorter run
          rcases List.eq_nil_or_concat rest with rfl | ⟨rest, final, rfl⟩
          · obtain ⟨rfl, hop⟩ := List.append_inj' h rfl
            cases hop
            exact hlast
          · have hshort : later = middle ++ op' :: rest := by
              have h' : later ++ [last] = (middle ++ op' :: rest) ++ [final] := by
                simpa using h
              exact (List.append_inj' h' rfl).1
            exact hkept middle op' rest hshort
      · rintro ⟨before, op, later, hrun, hmakes, hkept⟩
        rcases List.eq_nil_or_concat later with rfl | ⟨later, final, rfl⟩
        · obtain ⟨rfl, hop⟩ := List.append_inj' hrun rfl
          cases hop
          exact Or.inl hmakes
        · have hrun' : run ++ [last] = (before ++ op :: later) ++ [final] := by
            simpa using hrun
          obtain ⟨rfl, hop⟩ := List.append_inj' hrun' rfl
          cases hop
          refine Or.inr ⟨⟨before, op, later, rfl, hmakes, ?_⟩, ?_⟩
          · intro middle op' rest h
            exact hkept middle op' (rest ++ [last]) (by simp [h])
          · exact hkept later last [] (by simp)

-- =================================================== registered names

/-- The names under which sessions are registered. -/
def names (r : Registry) : List Text := r.sessions.map Prod.fst

/-- A session that is found is registered under the name it was looked up by. -/
theorem mem_of_find? {r : Registry} {name : Text} {session : Session}
    (h : r.find? name = some session) : (name, session) ∈ r.sessions := by
  obtain ⟨before, rest, hsessions, -⟩ := List.lookup_eq_some_iff.mp h
  rw [hsessions]
  exact List.mem_append_right _ List.mem_cons_self

/-- A name that finds nothing is not registered. -/
theorem find?_eq_none_iff {r : Registry} {name : Text} :
    r.find? name = none ↔ name ∉ r.names := by
  unfold find? names
  rw [List.lookup_eq_none_iff]
  constructor
  · rintro h hmem
    obtain ⟨entry, hentry, rfl⟩ := List.mem_map.mp hmem
    simpa using h entry hentry
  · intro h entry hentry
    have hne : name ≠ entry.1 := fun heq => h (heq ▸ List.mem_map_of_mem hentry)
    simpa using hne

/-- Removing a name removes that name and no other. -/
theorem mem_names_of_filter {r r' : Registry} {name : Text}
    (h : r'.sessions = r.sessions.filter fun entry => entry.1 != name) (n : Text) :
    n ∈ r'.names ↔ n ∈ r.names ∧ n ≠ name := by
  unfold names
  rw [h]
  simp only [List.mem_map, List.mem_filter, bne_iff_ne, ne_eq]
  constructor
  · rintro ⟨entry, ⟨hentry, hne⟩, rfl⟩
    exact ⟨⟨entry, hentry, rfl⟩, hne⟩
  · rintro ⟨⟨entry, hentry, rfl⟩, hne⟩
    exact ⟨entry, ⟨hentry, hne⟩, rfl⟩

-- ====================================================== setting aside

/-- Turns a session into a detached process. -/
def setAside (r : Registry) (name : Text) (process : Nat) : Registry :=
  { r.remove name with detached := r.detached ++ [process] }

/-- Takes the focus away from a name. -/
def blur (r : Registry) (name : Text) : Registry :=
  if r.focused = some name then { r with focused := none } else r

/-- The registry once a session was found to have ended. -/
def expire (r : Registry) (name : Text) (session : Session) : Registry :=
  (((r.isRunning session.process).2.note (.expired name)).setAside name
    session.process).reap

/-- The registry once a session was closed. -/
def dismiss (r : Registry) (name : Text) (session : Session) : Registry :=
  (((r.blur name).note (.closed name session.handle.pid)).setAside name
    session.process).reap

@[simp] theorem settings_reap (r : Registry) : r.reap.settings = r.settings :=
  (sift_asked id r r.detached).settings

@[simp] theorem sessions_reap (r : Registry) : r.reap.sessions = r.sessions :=
  (sift_asked id r r.detached).sessions

@[simp] theorem focused_reap (r : Registry) : r.reap.focused = r.focused :=
  (sift_asked id r r.detached).focused

/-- Reaping asks every detached process, in the order in which they were
detached. -/
@[simp] theorem processes_reap (r : Registry) :
    r.reap.processes = r.processes.askAll r.detached := by
  have h := (sift_asked id r r.detached).processes
  rw [List.map_id] at h
  exact h

/-- Reaping keeps the detached processes that say that they run. -/
theorem detached_reap {r : Registry} (hnodup : r.detached.Nodup) :
    r.reap.detached = r.detached.filter r.processes.runs :=
  sift_fst id r (by rwa [List.map_id])

@[simp] theorem settings_blur (r : Registry) (name : Text) :
    (r.blur name).settings = r.settings := by
  unfold blur
  split <;> rfl

@[simp] theorem sessions_blur (r : Registry) (name : Text) :
    (r.blur name).sessions = r.sessions := by
  unfold blur
  split <;> rfl

@[simp] theorem detached_blur (r : Registry) (name : Text) :
    (r.blur name).detached = r.detached := by
  unfold blur
  split <;> rfl

@[simp] theorem processes_blur (r : Registry) (name : Text) :
    (r.blur name).processes = r.processes := by
  unfold blur
  split <;> rfl

@[simp] theorem settings_expire (r : Registry) (name : Text) (session : Session) :
    (r.expire name session).settings = r.settings := by
  unfold expire
  rw [settings_reap]
  exact (isRunning_asked r session.process).settings

@[simp] theorem sessions_expire (r : Registry) (name : Text) (session : Session) :
    (r.expire name session).sessions
      = r.sessions.filter fun entry => entry.1 != name := by
  unfold expire
  rw [sessions_reap]
  show ((r.isRunning session.process).2.sessions.filter _) = _
  rw [(isRunning_asked r session.process).sessions]

@[simp] theorem focused_expire (r : Registry) (name : Text) (session : Session) :
    (r.expire name session).focused = r.focused := by
  unfold expire
  rw [focused_reap]
  exact (isRunning_asked r session.process).focused

/-- The process of a session that has ended is asked twice: once on its own and
once among the detached ones. -/
@[simp] theorem processes_expire (r : Registry) (name : Text) (session : Session) :
    (r.expire name session).processes
      = (r.processes.askAll [session.process]).askAll
          (r.detached ++ [session.process]) := by
  have hasked := isRunning_asked r session.process
  unfold expire
  rw [processes_reap, ← hasked.processes, ← hasked.detached]
  rfl

@[simp] theorem settings_dismiss (r : Registry) (name : Text) (session : Session) :
    (r.dismiss name session).settings = r.settings := by
  unfold dismiss
  rw [settings_reap]
  exact settings_blur r name

@[simp] theorem sessions_dismiss (r : Registry) (name : Text) (session : Session) :
    (r.dismiss name session).sessions
      = r.sessions.filter fun entry => entry.1 != name := by
  unfold dismiss
  rw [sessions_reap]
  show ((r.blur name).sessions.filter _) = _
  rw [sessions_blur]

@[simp] theorem focused_dismiss (r : Registry) (name : Text) (session : Session) :
    (r.dismiss name session).focused = (r.blur name).focused := by
  unfold dismiss
  rw [focused_reap]
  rfl

/-- The process of a session that is closed is asked once, after the other
detached ones. -/
@[simp] theorem processes_dismiss (r : Registry) (name : Text) (session : Session) :
    (r.dismiss name session).processes
      = r.processes.askAll (r.detached ++ [session.process]) := by
  unfold dismiss
  rw [processes_reap, ← processes_blur r name, ← detached_blur r name]
  rfl

-- ========================================================== launching

/-- The entry of a session whose process is the next to be started. -/
def nextEntry (r : Registry) (name : Text) (document : Path) (pid : Nat) :
    Text × Session :=
  (name, ⟨⟨name, document, pid⟩, r.processes.started.length⟩)

/-- How an attempt to start a session can go. -/
inductive Started (r : Registry) (name : Text) (document : Path) :
    Except Failure Launch × Registry → Prop
  | failed {reason : Text}
      (hlauncher : r.processes.launcher r.processes.attempts.length
        r.processes.started.length (Command.repl r.settings document)
          = .failed reason) :
      Started r name document
        (.error (.startFailed r.settings.interpreter reason),
          { r with processes := r.processes.tried (Command.repl r.settings document)
            }.note (.startFailed (Command.repl r.settings document).display reason))
  | begun {pid : Nat} {script : Nat → Poll}
      (hlauncher : r.processes.launcher r.processes.attempts.length
        r.processes.started.length (Command.repl r.settings document)
          = .begun pid script) :
      Started r name document
        (.ok ⟨⟨name, document, pid⟩, .started⟩,
          ({ r with
              processes := r.processes.begun (Command.repl r.settings document)
                pid script
              sessions := r.sessions ++ [r.nextEntry name document pid]
            }.note (.started name pid (Command.repl r.settings document).display)
            ).focus name)

/-- Starting a process goes in one of the two ways of `Started`. -/
theorem start_cases (r : Registry) (name : Text) (document : Path) :
    r.Started name document (r.start name document) := by
  unfold start ProcessTable.start
  dsimp only
  cases hl : r.processes.launcher r.processes.attempts.length
      r.processes.started.length (Command.repl r.settings document) with
  | failed reason => exact .failed hl
  | begun pid script => exact .begun hl

/-- How a launch can go. -/
inductive Launched (r : Registry) :
    Option Path → Except Failure Launch × Registry → Prop
  | noFile {path : Option Path} (hpath : ∀ document, path = some document → document = []) :
      Launched r path (.error .noFile, r)
  | fresh {document : Path} (hdocument : document ≠ [])
      (hfind : r.find? (r.displayName document) = none) :
      Launched r (some document) (r.start (r.displayName document) document)
  | reused {document : Path} {session : Session} (hdocument : document ≠ [])
      (hfind : r.find? (r.displayName document) = some session)
      (hruns : r.processes.runs session.process = true) :
      Launched r (some document)
        (.ok ⟨session.handle, .reused⟩,
          ((r.isRunning session.process).2.note
            (.reused (r.displayName document) session.handle.pid)).focus
              (r.displayName document))
  | replaced {document : Path} {session : Session} (hdocument : document ≠ [])
      (hfind : r.find? (r.displayName document) = some session)
      (hruns : r.processes.runs session.process = false) :
      Launched r (some document)
        ((r.expire (r.displayName document) session).start
          (r.displayName document) document)

/-- A launch goes in one of the ways of `Launched`. -/
theorem launch_cases (r : Registry) (path : Option Path) :
    r.Launched path (r.launch path) := by
  match path with
  | none => exact .noFile fun _ h => nomatch h
  | some [] => exact .noFile fun _ h => (Option.some.inj h).symm
  | some (b :: p) =>
      have hdocument : (b :: p : Path) ≠ [] := List.cons_ne_nil b p
      cases hfind : r.find? (r.displayName (b :: p)) with
      | none =>
          have hlaunch : r.launch (some (b :: p))
              = r.start (r.displayName (b :: p)) (b :: p) := by
            unfold launch Command.document?
            dsimp only
            rw [hfind]
          rw [hlaunch]
          exact .fresh hdocument hfind
      | some session =>
          have hfst := isRunning_fst r session.process
          cases hruns : r.processes.runs session.process with
          | true =>
              have hlaunch := Launched.reused hdocument hfind hruns
              unfold launch Command.document?
              dsimp only
              rw [hfind]
              dsimp only
              rw [hfst, hruns, if_pos rfl]
              exact hlaunch
          | false =>
              have hlaunch := Launched.replaced hdocument hfind hruns
              unfold launch Command.document?
              dsimp only
              rw [hfind]
              dsimp only
              rw [hfst, hruns, if_neg Bool.false_ne_true]
              exact hlaunch

-- ============================================================ closing

/-- How closing can go. -/
inductive Closed (r : Registry) (path : Path) : Option Handle × Registry → Prop
  | absent (hfind : r.find? (r.displayName path) = none) : Closed r path (none, r)
  | present {session : Session}
      (hfind : r.find? (r.displayName path) = some session) :
      Closed r path
        (some session.handle, r.dismiss (r.displayName path) session)

/-- Closing goes in one of the two ways of `Closed`. -/
theorem close_cases (r : Registry) (path : Path) :
    r.Closed path (r.close path) := by
  unfold close
  dsimp only
  cases hfind : r.find? (r.displayName path) with
  | none => exact .absent hfind
  | some session =>
      have hclosed := Closed.present hfind
      unfold dismiss blur at hclosed
      by_cases hfocus : r.focused = some (r.displayName path)
      · have hfocus' : (r.remove (r.displayName path)).focused
            = some (r.displayName path) := hfocus
        simp only [if_pos hfocus] at hclosed
        simp only [if_pos hfocus']
        exact hclosed
      · have hfocus' : ¬(r.remove (r.displayName path)).focused
            = some (r.displayName path) := hfocus
        simp only [if_neg hfocus] at hclosed
        simp only [if_neg hfocus']
        exact hclosed

-- ============================================================ pruning

/-- The sessions that pruning keeps, and the registry in which they were
asked. -/
def swept (r : Registry) : List (Text × Session) × Registry :=
  r.reap.sift processOf r.reap.sessions

/-- Pruning gives the registry that was swept its sessions and a focus. -/
theorem prune_snd (r : Registry) :
    ∃ log, r.prune.2
      = { { r.swept.2 with sessions := r.swept.1 }.refocus with log := log } := by
  unfold prune
  dsimp only
  split
  · exact ⟨_, rfl⟩
  · exact ⟨_, rfl⟩

/-- A sweep asks every session, in the order of the entries. -/
theorem swept_asked (r : Registry) :
    r.reap.Asked (r.sessions.map processOf) r.swept.2 := by
  have h := sift_asked processOf r.reap r.reap.sessions
  rw [sessions_reap] at h
  unfold swept
  rw [sessions_reap]
  exact h

/-- Giving the focus up changes nothing but the focus. -/
theorem refocus_eq (r : Registry) :
    r.refocus = { r with focused := r.refocus.focused } := by
  unfold refocus
  split
  · rfl
  · split <;> rfl

theorem settings_prune (r : Registry) : r.prune.2.settings = r.settings := by
  obtain ⟨log, h⟩ := prune_snd r
  rw [h, refocus_eq]
  exact r.swept_asked.settings.trans (settings_reap r)

theorem sessions_prune (r : Registry) : r.prune.2.sessions = r.swept.1 := by
  obtain ⟨log, h⟩ := prune_snd r
  rw [h, refocus_eq]

theorem detached_prune (r : Registry) : r.prune.2.detached = r.reap.detached := by
  obtain ⟨log, h⟩ := prune_snd r
  rw [h, refocus_eq]
  exact r.swept_asked.detached

/-- Pruning asks the detached processes first and then every session. -/
theorem processes_prune (r : Registry) :
    r.prune.2.processes
      = (r.processes.askAll r.detached).askAll (r.sessions.map processOf) := by
  obtain ⟨log, h⟩ := prune_snd r
  rw [h, refocus_eq, ← processes_reap]
  exact r.swept_asked.processes

-- ======================================================== idle operations

/-- `r'` has the sessions, the detached processes and the focus of `r`. On the
way from one to the other only processes of sessions were asked. -/
structure Idle (r r' : Registry) : Prop where
  settings : r'.settings = r.settings
  sessions : r'.sessions = r.sessions
  detached : r'.detached = r.detached
  focused : r'.focused = r.focused
  processes : ∃ ns, ns ⊆ r.sessions.map processOf
    ∧ r'.processes = r.processes.askAll ns

theorem Idle.refl (r : Registry) : r.Idle r :=
  ⟨rfl, rfl, rfl, rfl, [], List.nil_subset _, rfl⟩

theorem Asked.idle {r r' : Registry} {ns : List Nat} (h : r.Asked ns r')
    (hns : ns ⊆ r.sessions.map processOf) : r.Idle r' :=
  ⟨h.settings, h.sessions, h.detached, h.focused, ns, hns, h.processes⟩

theorem process_mem_of_find? {r : Registry} {name : Text} {session : Session}
    (h : r.find? name = some session) :
    session.process ∈ r.sessions.map processOf :=
  List.mem_map_of_mem (f := processOf) (mem_of_find? h)

/-- Operations that only look leave everything but the answers of processes as it
was. -/
theorem idle_perform (r : Registry) {op : Operation} (hop : op.isIdle = true) :
    r.Idle (r.perform op) := by
  cases op with
  | launch path => cases hop
  | close path => cases hop
  | prune => cases hop
  | isLive path =>
      show r.Idle (r.isLive path).2
      unfold isLive
      cases hfind : r.session? path with
      | none => exact Idle.refl r
      | some session =>
          refine (isRunning_asked r session.process).idle ?_
          simpa using process_mem_of_find? hfind
  | liveCount =>
      exact (sift_asked processOf r r.sessions).idle (List.Subset.refl _)
  | pollSession path =>
      show r.Idle (r.pollSession path).2
      unfold pollSession
      cases hfind : r.session? path with
      | none => exact Idle.refl r
      | some session =>
          refine ⟨rfl, rfl, rfl, rfl, [session.process], ?_, rfl⟩
          simpa using process_mem_of_find? hfind
  | session path => exact Idle.refl r
  | compile path backend => exact Idle.refl r
  | loadBackends query => exact ⟨rfl, rfl, rfl, rfl, [], List.nil_subset _, rfl⟩
  | refreshBackends query => exact ⟨rfl, rfl, rfl, rfl, [], List.nil_subset _, rfl⟩
  | forgetBackends => exact ⟨rfl, rfl, rfl, rfl, [], List.nil_subset _, rfl⟩

/-- The four kinds of operations. -/
theorem perform_cases (r : Registry) (op : Operation) :
    (op.isIdle = true ∧ r.Idle (r.perform op)) ∨ (∃ path, op = .launch path)
      ∨ (∃ path, op = .close path) ∨ op = .prune := by
  cases hop : op.isIdle with
  | true => exact Or.inl ⟨rfl, idle_perform r hop⟩
  | false =>
      right
      cases op with
      | launch path => exact Or.inl ⟨path, rfl⟩
      | close path => exact Or.inr (Or.inl ⟨path, rfl⟩)
      | prune => exact Or.inr (Or.inr rfl)
      | _ => cases hop

-- ==================================================== what a step keeps

theorem settings_start (r : Registry) (name : Text) (document : Path) :
    (r.start name document).2.settings = r.settings := by
  have hstart := start_cases r name document
  generalize r.start name document = out at hstart ⊢
  cases hstart <;> rfl

/-- Settings stay as they are. -/
theorem settings_perform (r : Registry) (op : Operation) :
    (r.perform op).settings = r.settings := by
  rcases perform_cases r op with ⟨-, hidle⟩ | ⟨path, rfl⟩ | ⟨path, rfl⟩ | rfl
  · exact hidle.settings
  · show (r.launch path).2.settings = r.settings
    have hlaunch := launch_cases r path
    generalize r.launch path = out at hlaunch ⊢
    cases hlaunch with
    | noFile hpath => rfl
    | fresh hdocument hfind => exact settings_start r _ _
    | @reused document session hdocument hfind hruns =>
        exact (isRunning_asked r session.process).settings
    | replaced hdocument hfind hruns => rw [settings_start, settings_expire]
  · show (r.close path).2.settings = r.settings
    have hclosed := close_cases r path
    generalize r.close path = out at hclosed ⊢
    cases hclosed with
    | absent hfind => rfl
    | present hfind => exact settings_dismiss r _ _
  · exact settings_prune r

/-- A session behind the start of a process was there before or is the new one. -/
theorem mem_sessions_start {r : Registry} {name : Text} {document : Path}
    {entry : Text × Session} (h : entry ∈ (r.start name document).2.sessions) :
    entry ∈ r.sessions ∨ ∃ pid, entry = r.nextEntry name document pid := by
  have hstart := start_cases r name document
  generalize r.start name document = out at hstart h
  cases hstart with
  | failed hlauncher => exact Or.inl h
  | @begun pid script hlauncher =>
      rcases List.mem_append.mp h with hold | hnew
      · exact Or.inl hold
      · exact Or.inr ⟨pid, List.mem_singleton.mp hnew⟩

/-- Where sessions come from: a session that is registered after a step was
there before, or the step launched its document and started its process. -/
theorem mem_sessions_perform {r : Registry} {op : Operation} {entry : Text × Session}
    (h : entry ∈ (r.perform op).sessions) :
    entry ∈ r.sessions ∨ ∃ document pid, op = .launch (some document)
      ∧ document ≠ [] ∧ entry = r.nextEntry (r.displayName document) document pid := by
  rcases perform_cases r op with ⟨-, hidle⟩ | ⟨path, rfl⟩ | ⟨path, rfl⟩ | rfl
  · exact Or.inl (hidle.sessions ▸ h)
  · have hlaunch := launch_cases r path
    change entry ∈ (r.launch path).2.sessions at h
    generalize r.launch path = out at hlaunch h
    cases hlaunch with
    | noFile hpath => exact Or.inl h
    | @fresh document hdocument hfind =>
        rcases mem_sessions_start h with hold | ⟨pid, hnew⟩
        · exact Or.inl hold
        · exact Or.inr ⟨document, pid, rfl, hdocument, hnew⟩
    | @reused document session hdocument hfind hruns =>
        exact Or.inl ((isRunning_asked r session.process).sessions ▸ h)
    | @replaced document session hdocument hfind hruns =>
        rcases mem_sessions_start h with hold | ⟨pid, hnew⟩
        · rw [sessions_expire] at hold
          exact Or.inl (List.mem_filter.mp hold).1
        · refine Or.inr ⟨document, pid, rfl, hdocument, ?_⟩
          rw [hnew]
          unfold nextEntry
          rw [processes_expire, ProcessTable.length_askAll, ProcessTable.length_askAll]
  · have hclosed := close_cases r path
    change entry ∈ (r.close path).2.sessions at h
    generalize r.close path = out at hclosed h
    cases hclosed with
    | absent hfind => exact Or.inl h
    | present hfind =>
        rw [sessions_dismiss] at h
        exact Or.inl (List.mem_filter.mp h).1
  · change entry ∈ r.prune.2.sessions at h
    rw [sessions_prune] at h
    have hkept := (sift_sublist processOf r.reap r.reap.sessions).subset h
    rw [sessions_reap] at hkept
    exact Or.inl hkept

end Registry

end CryptolEdit
