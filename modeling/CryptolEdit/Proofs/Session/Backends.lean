import CryptolEdit.Proofs.Backend.History
import CryptolEdit.Proofs.Session.Run

/-!
The list of backends inside a registry.

# Simulation

A registry does with its list what a list on its own does, under the registry's
settings: `onBackends?` says which operation of the list an operation of the
registry comes down to, and most come down to none. One step of the registry is
one step of the list or no step at all (`backends_perform`), so a whole run of the
registry leaves the list, and the deeds done for it, as the run of the operations
on the list alone (`backends_foldl`, `historyFrom_eq`). Which operations run a query
is read off the history as it grows (`history_concat`).

# Compiling

What a compile command is made of depends on the settings and on the list, never
on the sessions (`compile?_congr`). The list is looked at first and can only refuse a
backend (`compile?_eq_unknownBackend_iff`); where it does not, the path decides
(`compile?_eq_iff_of_ne`). After a run, the list refuses what the deeds of the run
have ruled out (`refuses_after_iff`).
-/

namespace CryptolEdit

-- =================================================== compile commands

namespace Command

/-- Without a list, a compile command fails for want of a path only. -/
theorem compile?_eq_error_iff {s : Settings} {path : Option Path} {backend : Option Text}
    {failure : Failure} :
    compile? s path backend = .error failure ↔
      (path = none ∨ path = some []) ∧ failure = .noFile := by
  unfold compile?
  match path with
  | none => simp [document?, Except.map, eq_comm]
  | some [] => simp [document?, Except.map, eq_comm]
  | some (b :: p) => simp [document?, Except.map]

/-- A compile command, told by its program and its arguments. -/
theorem compile_eq_iff {s : Settings} {backend : Option Text} {document : Path}
    {command : Command} :
    compile s backend document = command ↔
      command.program = s.interpreter
      ∧ command.args = s.compileArgs.map Text.encode
          ++ (backend.map fun name => Text.encode ("--backend=".toList ++ name)).toList
          ++ [document] := by
  obtain ⟨program, args⟩ := command
  rw [Option.toList_map]
  simp only [compile, mk.injEq]
  exact and_congr eq_comm eq_comm

/-- With a path, there is one compile command and it is that of the path. -/
theorem compile?_eq_ok_iff {s : Settings} {path : Option Path} {backend : Option Text}
    {command : Command} :
    compile? s path backend = .ok command ↔
      ∃ document, document ≠ [] ∧ path = some document
        ∧ compile s backend document = command := by
  unfold compile?
  match path with
  | none => simp [document?, Except.map]
  | some [] => simp [document?, Except.map]
  | some (b :: p) => simp [document?, Except.map]

end Command

namespace Registry

/-- A backend was named that the list is known not to have. -/
def Refuses (r : Registry) (backend : Option Text) : Prop :=
  ∃ name, backend = some name ∧ r.backends.lists? name = some false

/-- A backend that the list does not have is refused, whatever the path. -/
theorem compile?_of_lists? {r : Registry} {name : Text}
    (h : r.backends.lists? name = some false) (path : Option Path) :
    r.compile? path (some name) = .error (.unknownBackend name) := by
  unfold compile?
  exact if_pos h

/-- The list has no other say. -/
theorem compile?_of_not_refuses {r : Registry} {backend : Option Text}
    (h : ¬r.Refuses backend) (path : Option Path) :
    r.compile? path backend = Command.compile? r.settings path backend := by
  unfold compile?
  match backend with
  | none => rfl
  | some name => exact if_neg fun hlists => h ⟨name, rfl, hlists⟩

/-- A backend is refused exactly if a list is known and does not have it. -/
theorem compile?_eq_unknownBackend_iff {r : Registry} {path : Option Path}
    {backend : Option Text} {name : Text} :
    r.compile? path backend = .error (.unknownBackend name) ↔
      backend = some name ∧ r.backends.lists? name = some false := by
  constructor
  · intro h
    by_cases hrefuses : r.Refuses backend
    · obtain ⟨name', rfl, hlists⟩ := hrefuses
      rw [compile?_of_lists? hlists] at h
      cases h
      exact ⟨rfl, hlists⟩
    · rw [compile?_of_not_refuses hrefuses, Command.compile?_eq_error_iff] at h
      cases h.2
  · rintro ⟨rfl, hlists⟩
    exact compile?_of_lists? hlists path

/-- Where no backend is refused, the path decides. -/
theorem compile?_eq_iff_of_ne {r : Registry} {path : Option Path}
    {backend : Option Text} {result : Except Failure Command}
    (hresult : ∀ name, result ≠ .error (.unknownBackend name)) :
    r.compile? path backend = result ↔
      ¬r.Refuses backend ∧ Command.compile? r.settings path backend = result := by
  by_cases hrefuses : r.Refuses backend
  · obtain ⟨name, rfl, hlists⟩ := hrefuses
    rw [compile?_of_lists? hlists]
    exact iff_of_false (hresult name).symm fun h => h.1 ⟨name, rfl, hlists⟩
  · rw [compile?_of_not_refuses hrefuses, and_iff_right hrefuses]

/-- Compiling looks at the settings and the list, and at nothing else. -/
theorem compile?_congr {r r' : Registry} (hsettings : r'.settings = r.settings)
    (hbackends : r'.backends = r.backends) (path : Option Path) (backend : Option Text) :
    r'.compile? path backend = r.compile? path backend := by
  unfold compile?
  rw [hsettings, hbackends]

-- ================================================== one step of the list

/-- The operation on the list that an operation on the registry comes down to. -/
def Operation.onBackends? (s : Settings) : Operation → Option Backend.Cache.Operation
  | .loadBackends query => some (.load query s)
  | .refreshBackends query => some (.refresh query s)
  | .forgetBackends => some .forget
  | _ => none

theorem backends_start (r : Registry) (name : Text) (document : Path) :
    (r.start name document).2.backends = r.backends := by
  have hstart := start_cases r name document
  generalize r.start name document = out at hstart ⊢
  cases hstart <;> rfl

theorem backends_reap (r : Registry) : r.reap.backends = r.backends :=
  (sift_asked id r r.detached).backends

theorem backends_blur (r : Registry) (name : Text) :
    (r.blur name).backends = r.backends := by
  unfold blur
  split <;> rfl

/-- A launch leaves the list of backends alone, however it goes. -/
theorem backends_launch (r : Registry) (path : Option Path) :
    (r.launch path).2.backends = r.backends := by
  have hlaunch := launch_cases r path
  generalize r.launch path = out at hlaunch ⊢
  cases hlaunch with
  | noFile hpath => rfl
  | fresh hdocument hfind => exact backends_start r _ _
  | @reused document session hdocument hfind hruns =>
      exact (isRunning_asked r session.process).backends
  | @replaced document session hdocument hfind hruns =>
      rw [backends_start]
      unfold expire
      rw [backends_reap]
      exact (isRunning_asked r session.process).backends

theorem backends_close (r : Registry) (path : Path) :
    (r.close path).2.backends = r.backends := by
  have hclosed := close_cases r path
  generalize r.close path = out at hclosed ⊢
  cases hclosed with
  | absent hfind => rfl
  | present hfind =>
      unfold dismiss
      rw [backends_reap]
      exact backends_blur r _

theorem backends_prune (r : Registry) : r.prune.2.backends = r.backends := by
  obtain ⟨log, h⟩ := prune_snd r
  rw [h, refocus_eq]
  exact r.swept_asked.backends.trans (backends_reap r)

/-- A step of the registry is a step of the list, or leaves the list alone. -/
theorem backends_perform (r : Registry) (op : Operation) :
    (r.perform op).backends
      = (op.onBackends? r.settings).elim r.backends r.backends.perform := by
  cases op with
  | launch path => exact backends_launch r path
  | close path => exact backends_close r path
  | prune => exact backends_prune r
  | isLive path =>
      show (r.isLive path).2.backends = r.backends
      unfold isLive
      cases r.session? path with
      | none => rfl
      | some session => exact (isRunning_asked r session.process).backends
  | liveCount => exact (sift_asked processOf r r.sessions).backends
  | pollSession path =>
      show (r.pollSession path).2.backends = r.backends
      unfold pollSession
      cases r.session? path with
      | none => rfl
      | some session => rfl
  | session path => rfl
  | compile path backend => rfl
  | loadBackends query => rfl
  | refreshBackends query => rfl
  | forgetBackends => rfl

-- ========================================================= whole runs

/-- What an operation does for the list of backends, or to it. -/
def deeds (r : Registry) : Operation → List Backend.Deed
  | .loadBackends query => (r.backends.load query r.settings).deeds query
  | .refreshBackends query => (r.backends.refresh query r.settings).deeds query
  | .forgetBackends => [.forgot]
  | _ => []

/-- What a run of operations does for the list of backends, or to it. -/
def historyFrom (r : Registry) : List Operation → List Backend.Deed
  | [] => []
  | op :: run => r.deeds op ++ (r.perform op).historyFrom run

/-- What a run does for the list that begins with no sessions at all. -/
def history (s : Settings) (launcher : Launcher) (run : List Operation) :
    List Backend.Deed :=
  (ofLauncher s launcher).historyFrom run

/-- What an operation does for the list is what the list's own operation does. -/
theorem deeds_eq (r : Registry) (op : Operation) :
    r.deeds op = (op.onBackends? r.settings).elim [] r.backends.deeds := by
  cases op <;> rfl

theorem historyFrom_concat (r : Registry) (run : List Operation) (op : Operation) :
    r.historyFrom (run ++ [op]) = r.historyFrom run ++ (run.foldl perform r).deeds op := by
  induction run generalizing r with
  | nil => exact List.append_nil _
  | cons first run ih =>
      show r.deeds first ++ (r.perform first).historyFrom (run ++ [op]) = _
      rw [ih, ← List.append_assoc]
      rfl

/-- One more operation adds its own deeds to the history, and nothing else. -/
theorem history_concat (s : Settings) (launcher : Launcher) (run : List Operation)
    (op : Operation) :
    history s launcher (run ++ [op])
      = history s launcher run ++ (after s launcher run).deeds op :=
  historyFrom_concat _ run op

/-- The list fares in a run as it does in the run of the operations on it. -/
theorem backends_foldl (r : Registry) (run : List Operation) :
    (run.foldl perform r).backends
      = (run.filterMap (Operation.onBackends? r.settings)).foldl
          Backend.Cache.perform r.backends := by
  induction run generalizing r with
  | nil => rfl
  | cons op run ih =>
      rw [List.foldl_cons, ih, settings_perform, backends_perform]
      cases hop : op.onBackends? r.settings with
      | none => rw [List.filterMap_cons_none hop, Option.elim_none]
      | some op' => rw [List.filterMap_cons_some hop, Option.elim_some, List.foldl_cons]

/-- The deeds of a run are those of the operations on the list. -/
theorem historyFrom_eq (r : Registry) (run : List Operation) :
    r.historyFrom run
      = r.backends.historyFrom (run.filterMap (Operation.onBackends? r.settings)) := by
  induction run generalizing r with
  | nil => rfl
  | cons op run ih =>
      unfold historyFrom
      rw [deeds_eq, ih, settings_perform, backends_perform]
      cases hop : op.onBackends? r.settings with
      | none =>
          rw [List.filterMap_cons_none hop, Option.elim_none, Option.elim_none,
            List.nil_append]
      | some op' =>
          rw [List.filterMap_cons_some hop, Option.elim_some, Option.elim_some]
          rfl

/-- Whether an operation tends to the list of backends. -/
def Operation.tendsBackends : Operation → Bool
  | .loadBackends _ | .refreshBackends _ | .forgetBackends => true
  | _ => false

/-- The operations that are left out do nothing to the list. -/
theorem filterMap_filter_tendsBackends (s : Settings) (run : List Operation) :
    (run.filter Operation.tendsBackends).filterMap (Operation.onBackends? s)
      = run.filterMap (Operation.onBackends? s) := by
  rw [List.filterMap_filter]
  congr 1
  funext op
  cases op <;> rfl

/-- The list after a run is the one that the operations on it lead to. -/
theorem backends_after (s : Settings) (launcher : Launcher) (run : List Operation) :
    (after s launcher run).backends
      = Backend.Cache.after (run.filterMap (Operation.onBackends? s)) :=
  backends_foldl _ run

/-- The history of a run is that of the operations on the list. -/
theorem history_eq (s : Settings) (launcher : Launcher) (run : List Operation) :
    history s launcher run
      = Backend.Cache.history (run.filterMap (Operation.onBackends? s)) :=
  historyFrom_eq _ run

/-- No run changes the settings. -/
theorem settings_after (s : Settings) (launcher : Launcher) (run : List Operation) :
    (after s launcher run).settings = s :=
  after_induction (P := fun r => r.settings = s) rfl
    (fun r op h => (settings_perform r op).trans h) run

/-- What the list is known not to have after a run is what the run ruled out. -/
theorem lists?_after (s : Settings) (launcher : Launcher) (run : List Operation)
    (name : Text) :
    (after s launcher run).backends.lists? name = some false ↔
      Backend.Deed.RulesOut (history s launcher run) name := by
  rw [backends_after, history_eq]
  exact Backend.Cache.lists?_after_iff _ name

/-- A backend was named that a run has ruled out. -/
def RuledOut (s : Settings) (launcher : Launcher) (run : List Operation)
    (backend : Option Text) : Prop :=
  ∃ name, backend = some name ∧ Backend.Deed.RulesOut (history s launcher run) name

/-- After a run, a backend is refused exactly if the run ruled it out. -/
theorem refuses_after_iff (s : Settings) (launcher : Launcher) (run : List Operation)
    (backend : Option Text) :
    (after s launcher run).Refuses backend ↔ RuledOut s launcher run backend :=
  exists_congr fun name => and_congr_right fun _ => lists?_after s launcher run name

-- ==================================================== compiling after a run

/-- What compiling comes to after any run: a backend that the run ruled out is
refused first, then a document without a path, and the command for any other
document is made from the settings, the backend and the path. Only the operations
that tend to the list matter, and the rest have no part in the history. The history
grows by one query for each refresh, and for each load of a list that is not known;
what is known is what the last successful query printed. -/
theorem compile_after_run (s : Settings) (launcher : Launcher) (run : List Operation)
    (path : Option Path) (backend : Option Text) :
    (∀ name, (after s launcher run).compile? path backend = .error (.unknownBackend name) ↔
      backend = some name ∧ Backend.Deed.RulesOut (history s launcher run) name)
    ∧ ((after s launcher run).compile? path backend = .error .noFile ↔
      ¬RuledOut s launcher run backend ∧ (path = none ∨ path = some []))
    ∧ (∀ command, (after s launcher run).compile? path backend = .ok command ↔
      ¬RuledOut s launcher run backend
      ∧ ∃ document, document ≠ [] ∧ path = some document
        ∧ command.program = s.interpreter
        ∧ command.args = s.compileArgs.map Text.encode
            ++ (backend.map fun name => Text.encode ("--backend=".toList ++ name)).toList
            ++ [document])
    ∧ (∀ launcher',
        (after s launcher' (run.filter Operation.tendsBackends)).compile? path backend
          = (after s launcher run).compile? path backend
        ∧ history s launcher' (run.filter Operation.tendsBackends) = history s launcher run)
    ∧ (∀ query, history s launcher (run ++ [.refreshBackends query])
        = history s launcher run ++ [.queried (query (Command.listBackends s))])
    ∧ (∀ query, history s launcher (run ++ [.loadBackends query])
        = history s launcher run ++ if (after s launcher run).backends.isLoaded then []
            else [.queried (query (Command.listBackends s))])
    ∧ history s launcher (run ++ [.forgetBackends]) = history s launcher run ++ [.forgot]
    ∧ (after s launcher run).backends.listed
        = (Backend.Deed.lastOutput? (history s launcher run)).map Backend.names := by
  refine ⟨fun name => ?_, ?_, fun command => ?_, fun launcher' => ⟨?_, ?_⟩, fun query => ?_,
    fun query => ?_, ?_, ?_⟩
  · rw [compile?_eq_unknownBackend_iff, lists?_after]
  · rw [compile?_eq_iff_of_ne (by simp), refuses_after_iff, Command.compile?_eq_error_iff,
      and_iff_left rfl]
  · rw [compile?_eq_iff_of_ne (by simp), refuses_after_iff, settings_after,
      Command.compile?_eq_ok_iff]
    simp only [Command.compile_eq_iff]
  · refine compile?_congr ?_ ?_ path backend
    · rw [settings_after, settings_after]
    · rw [backends_after, backends_after, filterMap_filter_tendsBackends]
  · rw [history_eq, history_eq, filterMap_filter_tendsBackends]
  · rw [history_concat, deeds_eq, settings_after]
    exact congrArg _ ((after s launcher run).backends.deeds_refresh query s)
  · rw [history_concat, deeds_eq, settings_after]
    exact congrArg _ ((after s launcher run).backends.deeds_load query s)
  · exact history_concat s launcher run .forgetBackends
  · rw [backends_after, history_eq, Backend.Cache.listed_after]

end Registry

end CryptolEdit
