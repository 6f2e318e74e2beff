import CryptolEdit.Proofs.Session.Run
import Mathlib.Data.List.Nodup

/-!
Where processes are, over whole runs.

A process that was started is held by the registry as long as it may run: it
belongs to one session, or it is detached. A process that is held no more was
dropped, and only a process that did not say that it runs may be dropped.

# The invariant

`Custody r` says where processes may be. No two sessions have one name, no
process is held twice, only processes that were started are held, and of a
process that is not held the last answer is known and is not `running`. That
answer can be looked up, since the table of processes remembers every answer
that a process has ever given, also after the process is gone.

# Preservation

`Keeps r r'` says that a step from `r` to `r'` preserves custody and leaves the
dropped processes in peace: they are not taken back and not asked again, so the
last answer of a dropped process is the one that it was dropped for. Every
operation is made of three moves, and each move is shown to keep custody once:

- processes that are held are asked, and some of those that did not say that
  they run are dropped (`keeps_of_asked`);
- a session is taken out and its process set aside (`keeps_of_setAside`);
- a session is started under a name that nobody has (`keeps_of_begun`).

The middle state of the second move is why it is one move: between the two
halves the process of the session is nowhere.
-/

namespace CryptolEdit

/-- The last answer of the process was not that it runs. -/
def Process.SeenEnded (p : Process) : Prop :=
  ∃ answer, p.answers.getLast? = some answer ∧ answer ≠ .running

namespace Registry

/-- The processes that a registry holds: those of sessions, and the detached
ones. -/
def held (r : Registry) : List Nat := r.sessions.map processOf ++ r.detached

/-- Nothing is held twice, and what is not held was seen to end. -/
structure Custody (r : Registry) : Prop where
  names_nodup : r.names.Nodup
  held_nodup : r.held.Nodup
  held_started : ∀ n ∈ r.held, n < r.processes.started.length
  dropped_ended : ∀ n p, r.processes.started[n]? = some p → n ∉ r.held → p.SeenEnded

/-- What was dropped stays as it is. -/
def LeavesDropped (r r' : Registry) : Prop :=
  ∀ n p, r.processes.started[n]? = some p → n ∉ r.held →
    r'.processes.started[n]? = some p ∧ n ∉ r'.held

/-- The way from `r` to `r'` preserves custody, and leaves in peace what was
dropped. -/
def Keeps (r r' : Registry) : Prop := r.Custody → r'.Custody ∧ r.LeavesDropped r'

theorem Keeps.trans {r r' r'' : Registry} (h : r.Keeps r') (h' : r'.Keeps r'') :
    r.Keeps r'' := by
  intro hcustody
  obtain ⟨hcustody', hdropped⟩ := h hcustody
  obtain ⟨hcustody'', hdropped'⟩ := h' hcustody'
  refine ⟨hcustody'', fun n p hp hn => ?_⟩
  obtain ⟨hp', hn'⟩ := hdropped n p hp hn
  exact hdropped' n p hp' hn'

/-- No two sessions have one process. -/
theorem Custody.sessions_nodup {r : Registry} (h : r.Custody) :
    (r.sessions.map processOf).Nodup :=
  (List.nodup_append.mp h.held_nodup).1

theorem Custody.detached_nodup {r : Registry} (h : r.Custody) : r.detached.Nodup :=
  (List.nodup_append.mp h.held_nodup).2.1

/-- No process of a session is detached. -/
theorem Custody.notMem_detached {r : Registry} (h : r.Custody) {n : Nat}
    (hn : n ∈ r.sessions.map processOf) : n ∉ r.detached :=
  fun hmem => (List.nodup_append.mp h.held_nodup).2.2 n hn n hmem rfl

/-- With no processes at all, each has its one place. -/
theorem custody_ofLauncher (s : Settings) (launcher : Launcher) :
    (ofLauncher s launcher).Custody where
  names_nodup := List.nodup_nil
  held_nodup := List.nodup_nil
  held_started := fun _ hn => nomatch hn
  dropped_ended := fun _ _ hp _ => nomatch hp

-- ================================================ asking and dropping

/-- A process that is asked and does not say that it runs has been seen to
end. -/
theorem seenEnded_of_asked {t : ProcessTable} {ns : List Nat} {n : Nat} {p : Process}
    (hnodup : ns.Nodup) (hn : n ∈ ns) (hruns : t.runs n = false)
    (hp : (t.askAll ns).started[n]? = some p) : p.SeenEnded := by
  rw [ProcessTable.getElem?_askAll_of_mem t hnodup hn, Option.map_eq_some_iff] at hp
  obtain ⟨q, hq, rfl⟩ := hp
  rw [ProcessTable.runs_eq hq, beq_eq_false_iff_ne] at hruns
  exact ⟨q.nextAnswer, List.getLast?_concat, hruns⟩

/-- Held processes may be asked, and those that were seen to end may be
dropped. -/
theorem keeps_of_asked {r r' : Registry} (ns : List Nat) (hns : ns ⊆ r.held)
    (hstarted : r'.processes.started = (r.processes.askAll ns).started)
    (hsessions : r'.sessions.Sublist r.sessions)
    (hdetached : r'.detached.Sublist r.detached)
    (hdropped : ∀ n ∈ r.held, n ∉ r'.held →
      ∀ p, r'.processes.started[n]? = some p → p.SeenEnded) :
    r.Keeps r' := by
  intro hcustody
  have hheld : r'.held.Sublist r.held := (hsessions.map processOf).append hdetached
  -- what is not held is not asked either
  have hsame : ∀ n, n ∉ r.held →
      r'.processes.started[n]? = r.processes.started[n]? := by
    intro n hn
    rw [hstarted, ProcessTable.getElem?_askAll_of_notMem]
    exact fun hmem => hn (hns hmem)
  refine ⟨⟨?_, ?_, ?_, ?_⟩, ?_⟩
  · exact hcustody.names_nodup.sublist (hsessions.map Prod.fst)
  · exact hcustody.held_nodup.sublist hheld
  · intro n hn
    rw [hstarted, ProcessTable.length_askAll]
    exact hcustody.held_started n (hheld.subset hn)
  · intro n p hp hn
    by_cases hold : n ∈ r.held
    · exact hdropped n hold hn p hp
    · rw [hsame n hold] at hp
      exact hcustody.dropped_ended n p hp hold
  · intro n p hp hn
    exact ⟨(hsame n hn).trans hp, fun hmem => hn (hheld.subset hmem)⟩

/-- Nothing is dropped where sessions and detached processes stay. -/
theorem keeps_of_same {r r' : Registry} (ns : List Nat) (hns : ns ⊆ r.held)
    (hstarted : r'.processes.started = (r.processes.askAll ns).started)
    (hsessions : r'.sessions = r.sessions) (hdetached : r'.detached = r.detached) :
    r.Keeps r' := by
  refine keeps_of_asked ns hns hstarted (hsessions ▸ List.Sublist.refl _)
    (hdetached ▸ List.Sublist.refl _) fun n hn hn' => ?_
  unfold held at hn hn'
  rw [hsessions, hdetached] at hn'
  exact absurd hn hn'

/-- An operation that only asks keeps custody. -/
theorem keeps_of_idle {r r' : Registry} (h : r.Idle r') : r.Keeps r' := by
  obtain ⟨ns, hns, hprocesses⟩ := h.processes
  refine keeps_of_same ns ?_ (congrArg _ hprocesses) h.sessions h.detached
  exact fun n hn => List.mem_append_left _ (hns hn)

/-- Reaping drops the detached processes that do not say that they run. -/
theorem keeps_reap (r : Registry) : r.Keeps r.reap := by
  intro hcustody
  have hnodup := hcustody.detached_nodup
  have hkept := detached_reap hnodup
  refine keeps_of_asked r.detached (List.subset_append_right _ _)
    (congrArg _ (processes_reap r)) (sessions_reap r ▸ List.Sublist.refl _)
    (hkept ▸ List.filter_sublist) ?_ hcustody
  intro n hn hn' p hp
  unfold held at hn hn'
  rw [sessions_reap, hkept, List.mem_append, not_or] at hn'
  have hdetached : n ∈ r.detached := (List.mem_append.mp hn).resolve_left hn'.1
  have hruns : r.processes.runs n = false := by
    cases hruns : r.processes.runs n with
    | true => exact absurd (List.mem_filter.mpr ⟨hdetached, hruns⟩) hn'.2
    | false => rfl
  rw [processes_reap] at hp
  exact seenEnded_of_asked hnodup hdetached hruns hp

/-- Pruning reaps, and then drops the sessions whose processes do not say that
they run. -/
theorem keeps_prune (r : Registry) : r.Keeps r.prune.2 := by
  refine (keeps_reap r).trans ?_
  intro hcustody
  have hnodup := hcustody.sessions_nodup
  have hkept : r.prune.2.sessions
      = r.reap.sessions.filter fun entry => r.reap.processes.runs (processOf entry) := by
    rw [sessions_prune]
    exact sift_fst processOf r.reap hnodup
  have hprocesses : r.prune.2.processes
      = r.reap.processes.askAll (r.reap.sessions.map processOf) := by
    rw [processes_prune, processes_reap, sessions_reap]
  refine keeps_of_asked (r.reap.sessions.map processOf)
    (List.subset_append_left _ _) (congrArg _ hprocesses)
    (hkept ▸ List.filter_sublist) (detached_prune r ▸ List.Sublist.refl _) ?_ hcustody
  intro n hn hn' p hp
  unfold held at hn hn'
  rw [detached_prune, hkept, List.mem_append, not_or] at hn'
  have hsession : n ∈ r.reap.sessions.map processOf :=
    (List.mem_append.mp hn).resolve_right hn'.2
  have hruns : r.reap.processes.runs n = false := by
    cases hruns : r.reap.processes.runs n with
    | true =>
        obtain ⟨entry, hentry, rfl⟩ := List.mem_map.mp hsession
        exact absurd (List.mem_map_of_mem (List.mem_filter.mpr ⟨hentry, hruns⟩)) hn'.1
    | false => rfl
  rw [hprocesses] at hp
  exact seenEnded_of_asked hnodup hsession hruns hp

-- ====================================================== setting aside

/-- A session that is taken out while its process is set aside: the process
changes places and is the only one to do so. -/
theorem keeps_of_setAside {r r' : Registry} {name : Text} {session : Session}
    (hfind : r.find? name = some session)
    (hstarted : r'.processes.started = r.processes.started)
    (hsessions : r'.sessions = r.sessions.filter fun entry => entry.1 != name)
    (hdetached : r'.detached = r.detached ++ [session.process]) :
    r.Keeps r' := by
  intro hcustody
  obtain ⟨before, rest, heq, hbefore⟩ := List.lookup_eq_some_iff.mp hfind
  -- no other session has the name, so that one session is all that goes
  have hrest : ∀ entry ∈ rest, entry.1 ≠ name := by
    intro entry hentry hname
    have hnodup := hcustody.names_nodup
    unfold names at hnodup
    rw [heq, List.map_append, List.map_cons, List.nodup_append] at hnodup
    have hmem : entry.1 ∈ rest.map Prod.fst := List.mem_map_of_mem hentry
    rw [hname] at hmem
    exact (List.nodup_cons.mp hnodup.2.1).1 hmem
  have hkept : r'.sessions = before ++ rest := by
    rw [hsessions, heq, List.filter_append, List.filter_cons_of_neg (by simp)]
    congr 1
    · refine List.filter_eq_self.mpr fun entry hentry => ?_
      have hne : name ≠ entry.1 := by simpa using hbefore entry hentry
      exact bne_iff_ne.mpr hne.symm
    · exact List.filter_eq_self.mpr fun entry hentry =>
        bne_iff_ne.mpr (hrest entry hentry)
  have hperm : r'.held.Perm r.held := by
    unfold held
    rw [hkept, heq, hdetached, ← List.append_assoc]
    refine (List.perm_append_singleton session.process _).trans ?_
    rw [List.map_append, List.map_append, List.map_cons, List.append_assoc,
      List.append_assoc]
    exact List.perm_middle.symm
  refine ⟨⟨?_, ?_, ?_, ?_⟩, ?_⟩
  · unfold names
    rw [hsessions]
    exact hcustody.names_nodup.sublist (List.filter_sublist.map Prod.fst)
  · exact hperm.nodup_iff.mpr hcustody.held_nodup
  · intro n hn
    rw [hstarted]
    exact hcustody.held_started n (hperm.mem_iff.mp hn)
  · intro n p hp hn
    rw [hstarted] at hp
    exact hcustody.dropped_ended n p hp fun hmem => hn (hperm.mem_iff.mpr hmem)
  · intro n p hp hn
    rw [hstarted]
    exact ⟨hp, fun hmem => hn (hperm.mem_iff.mp hmem)⟩

/-- A session that has ended is asked for the last time, set aside and reaped. -/
theorem keeps_expire {r : Registry} {name : Text} {session : Session}
    (hfind : r.find? name = some session) : r.Keeps (r.expire name session) := by
  have hasked := isRunning_asked r session.process
  have hask : r.Keeps (r.isRunning session.process).2 :=
    keeps_of_idle (hasked.idle (by simpa using process_mem_of_find? hfind))
  have hfind' : (r.isRunning session.process).2.find? name = some session := by
    unfold find?
    rw [hasked.sessions]
    exact hfind
  have haside : (r.isRunning session.process).2.Keeps
      (((r.isRunning session.process).2.note (.expired name)).setAside name
        session.process) :=
    keeps_of_setAside hfind' rfl rfl rfl
  exact (hask.trans haside).trans (keeps_reap _)

/-- A session that is closed is set aside, and may be reaped at once. -/
theorem keeps_dismiss {r : Registry} {name : Text} {session : Session}
    (hfind : r.find? name = some session) : r.Keeps (r.dismiss name session) := by
  have haside : r.Keeps (((r.blur name).note (.closed name session.handle.pid)
      ).setAside name session.process) := by
    refine keeps_of_setAside hfind ?_ ?_ ?_
    · exact congrArg _ (processes_blur r name)
    · show (r.blur name).sessions.filter _ = _
      rw [sessions_blur]
    · show (r.blur name).detached ++ _ = _
      rw [detached_blur]
  exact haside.trans (keeps_reap _)

-- =========================================================== starting

/-- A session with a name that nobody has and a process that was just started:
the process is new, and nothing else changes places. -/
theorem keeps_of_begun {r r' : Registry} {entry : Text × Session} {p : Process}
    (hname : entry.1 ∉ r.names) (hnumber : processOf entry = r.processes.started.length)
    (hstarted : r'.processes.started = r.processes.started ++ [p])
    (hsessions : r'.sessions = r.sessions ++ [entry])
    (hdetached : r'.detached = r.detached) :
    r.Keeps r' := by
  intro hcustody
  have hperm : r'.held.Perm (r.processes.started.length :: r.held) := by
    unfold held
    rw [hsessions, hdetached, List.map_append, List.map_singleton, List.append_assoc,
      hnumber]
    exact List.perm_middle
  have hheld : ∀ n, n ∈ r'.held ↔ n = r.processes.started.length ∨ n ∈ r.held :=
    fun n => hperm.mem_iff.trans List.mem_cons
  have hfresh : r.processes.started.length ∉ r.held := fun hmem =>
    Nat.lt_irrefl _ (hcustody.held_started _ hmem)
  refine ⟨⟨?_, ?_, ?_, ?_⟩, ?_⟩
  · unfold names
    rw [hsessions, List.map_append, List.map_singleton]
    exact (List.perm_append_singleton entry.1 _).nodup_iff.mpr
      (List.nodup_cons.mpr ⟨hname, hcustody.names_nodup⟩)
  · exact hperm.nodup_iff.mpr (List.nodup_cons.mpr ⟨hfresh, hcustody.held_nodup⟩)
  · intro n hn
    rw [hstarted, List.length_append, List.length_singleton]
    rcases (hheld n).mp hn with rfl | hold
    · exact Nat.lt_succ_self _
    · exact Nat.lt_succ_of_lt (hcustody.held_started n hold)
  · intro n q hq hn
    obtain ⟨hnew, hold⟩ := not_or.mp (mt (hheld n).mpr hn)
    have hlt : n < r.processes.started.length := by
      obtain ⟨hlt, -⟩ := List.getElem?_eq_some_iff.mp hq
      rw [hstarted, List.length_append, List.length_singleton] at hlt
      omega
    rw [hstarted, List.getElem?_append_left hlt] at hq
    exact hcustody.dropped_ended n q hq hold
  · intro n q hq hn
    obtain ⟨hlt, -⟩ := List.getElem?_eq_some_iff.mp hq
    refine ⟨?_, fun hmem => ?_⟩
    · rw [hstarted, List.getElem?_append_left hlt, hq]
    · rcases (hheld n).mp hmem with rfl | hold
      · exact Nat.lt_irrefl _ hlt
      · exact hn hold

/-- An attempt to start a session adds one, or nothing but the attempt. -/
theorem keeps_start {r : Registry} {name : Text} (document : Path)
    (hname : name ∉ r.names) : r.Keeps (r.start name document).2 := by
  have hstart := start_cases r name document
  generalize r.start name document = out at hstart ⊢
  cases hstart with
  | failed hlauncher => exact keeps_of_same [] (List.nil_subset _) rfl rfl rfl
  | @begun pid script hlauncher =>
      have hentry : (r.nextEntry name document pid).1 ∉ r.names := hname
      exact keeps_of_begun hentry rfl rfl rfl rfl

/-- The registry in which a launch starts a session of a document: one where
the document has none. -/
def cleared (r : Registry) (document : Path) : Registry :=
  match r.session? document with
  | none => r
  | some session => r.expire (r.displayName document) session

theorem cleared_of_none {r : Registry} {document : Path}
    (hfind : r.find? (r.displayName document) = none) : r.cleared document = r := by
  unfold cleared session?
  rw [hfind]

/-- Clearing drops the session that is registered. -/
theorem cleared_of_some {r : Registry} {document : Path} {session : Session}
    (hfind : r.find? (r.displayName document) = some session) :
    r.cleared document = r.expire (r.displayName document) session := by
  unfold cleared session?
  rw [hfind]

/-- Once it is cleared, a name is free. -/
theorem notMem_names_cleared (r : Registry) (document : Path) :
    r.displayName document ∉ (r.cleared document).names := by
  cases hfind : r.find? (r.displayName document) with
  | none =>
      rw [cleared_of_none hfind]
      exact find?_eq_none_iff.mp hfind
  | some session =>
      rw [cleared_of_some hfind]
      intro hmem
      exact ((mem_names_of_filter (sessions_expire r _ session) _).mp hmem).2 rfl

/-- A launch that starts a session does so where its document has none. -/
theorem launch_eq_start {r : Registry} {path : Option Path} {launch : Launch}
    (hlaunch : (r.launch path).1 = .ok launch) (horigin : launch.origin = .started) :
    ∃ document, path = some document ∧ r.launch path
      = (r.cleared document).start (r.displayName document) document := by
  have hcases := launch_cases r path
  generalize r.launch path = out at hcases hlaunch ⊢
  cases hcases with
  | noFile hpath => cases hlaunch
  | @fresh document hdocument hfind =>
      exact ⟨document, rfl, by rw [cleared_of_none hfind]⟩
  | reused hdocument hfind hruns =>
      cases hlaunch
      cases horigin
  | @replaced document session hdocument hfind hruns =>
      exact ⟨document, rfl, by rw [cleared_of_some hfind]⟩

-- ============================================================== steps

theorem keeps_launch (r : Registry) (path : Option Path) :
    r.Keeps (r.launch path).2 := by
  have hcases := launch_cases r path
  generalize r.launch path = out at hcases ⊢
  cases hcases with
  | noFile hpath => exact keeps_of_idle (Idle.refl r)
  | @fresh document hdocument hfind =>
      exact keeps_start document (find?_eq_none_iff.mp hfind)
  | @reused document session hdocument hfind hruns =>
      have hasked := isRunning_asked r session.process
      have hheld : [session.process] ⊆ r.held := by
        intro n hn
        rw [List.mem_singleton.mp hn]
        exact List.mem_append_left _ (process_mem_of_find? hfind)
      exact keeps_of_same _ hheld (congrArg _ hasked.processes) hasked.sessions
        hasked.detached
  | @replaced document session hdocument hfind hruns =>
      have hstart := keeps_start document (notMem_names_cleared r document)
      rw [cleared_of_some hfind] at hstart
      exact (keeps_expire hfind).trans hstart

theorem keeps_close (r : Registry) (path : Path) : r.Keeps (r.close path).2 := by
  have hcases := close_cases r path
  generalize r.close path = out at hcases ⊢
  cases hcases with
  | absent hfind => exact keeps_of_idle (Idle.refl r)
  | present hfind => exact keeps_dismiss hfind

/-- Every operation preserves custody and leaves dropped processes in peace. -/
theorem keeps_perform (r : Registry) (op : Operation) : r.Keeps (r.perform op) := by
  rcases perform_cases r op with ⟨-, hidle⟩ | ⟨path, rfl⟩ | ⟨path, rfl⟩ | rfl
  · exact keeps_of_idle hidle
  · exact keeps_launch r path
  · exact keeps_close r path
  · exact keeps_prune r

-- =============================================================== runs

/-- After every run each process has its one place. -/
theorem custody_after (s : Settings) (launcher : Launcher) (run : List Operation) :
    (after s launcher run).Custody :=
  after_induction (custody_ofLauncher s launcher)
    (fun r op hcustody => (keeps_perform r op hcustody).1) run

/-- However a run goes on, it leaves in peace what was dropped. -/
theorem leavesDropped_after (s : Settings) (launcher : Launcher)
    (run later : List Operation) :
    (after s launcher run).LeavesDropped (after s launcher (run ++ later)) := by
  have hkeeps : (after s launcher run).Keeps (after s launcher (run ++ later)) := by
    induction later using List.reverseRecOn with
    | nil =>
        rw [List.append_nil]
        exact keeps_of_idle (Idle.refl _)
    | append_singleton later op ih =>
        rw [← List.append_assoc, after_concat]
        exact ih.trans (keeps_perform _ op)
  exact (hkeeps (custody_after s launcher run)).2

-- ============================================================= places

/-- Where a process that was started can be. -/
inductive Place where
  | registered (name : Text)
  | detached
  | dropped
deriving DecidableEq

/-- Whether a process is in a place. -/
def At (r : Registry) (n : Nat) : Place → Prop
  | .registered name => ∃ session, (name, session) ∈ r.sessions ∧ session.process = n
  | .detached => n ∈ r.detached
  | .dropped => n ∉ r.held

/-- A process that was started is in one place and in no other. -/
theorem at_unique {r : Registry} (hcustody : r.Custody) (n : Nat) :
    ∃! place, r.At n place := by
  have hdisjoint := (List.nodup_append.mp hcustody.held_nodup).2.2
  by_cases hheld : n ∈ r.held
  · rcases List.mem_append.mp hheld with hsession | hdetached
    · obtain ⟨⟨name, session⟩, hentry, rfl⟩ := List.mem_map.mp hsession
      refine ⟨.registered name, ⟨session, hentry, rfl⟩, ?_⟩
      rintro (name' | _ | _) hat
      · obtain ⟨session', hentry', hprocess⟩ := hat
        have heq := List.inj_on_of_nodup_map hcustody.sessions_nodup hentry' hentry
          hprocess
        cases heq
        rfl
      · exact absurd rfl (hdisjoint _ hsession _ hat)
      · exact absurd hheld hat
    · refine ⟨.detached, hdetached, ?_⟩
      rintro (name' | _ | _) hat
      · obtain ⟨session', hentry', rfl⟩ := hat
        exact absurd rfl (hdisjoint _ (List.mem_map_of_mem (f := processOf) hentry') _
          hdetached)
      · rfl
      · exact absurd hheld hat
  · refine ⟨.dropped, hheld, ?_⟩
    rintro (name' | _ | _) hat
    · obtain ⟨session', hentry', rfl⟩ := hat
      exact absurd (List.mem_append_left _ (List.mem_map_of_mem (f := processOf) hentry'))
        hheld
    · exact absurd (List.mem_append_right _ hat) hheld
    · rfl

/-- Nothing gets lost. At the end of every run, whatever was started is in one
place: in the session of one name, among the detached processes, or dropped.
What was dropped had last said that it does not run, and it is neither asked nor
taken back later; so a process that always says that it runs is held for good.
And a launch never starts a session under a name that is taken. -/
theorem processes_accounted_for (s : Settings) (launcher : Launcher)
    (run : List Operation) :
    (after s launcher run).names.Nodup
      ∧ (after s launcher run).detached.Nodup
      ∧ (∀ n < (after s launcher run).processes.started.length,
          ∃! place, (after s launcher run).At n place)
      ∧ (∀ n p, (after s launcher run).processes.started[n]? = some p →
          (after s launcher run).At n .dropped →
            p.SeenEnded
              ∧ ∀ later,
                (after s launcher (run ++ later)).processes.started[n]? = some p
                  ∧ (after s launcher (run ++ later)).At n .dropped)
      ∧ (∀ n p, (after s launcher run).processes.started[n]? = some p →
          (∀ answer ∈ p.answers, answer = .running) →
            ¬(after s launcher run).At n .dropped)
      ∧ ∀ path launch, ((after s launcher run).launch path).1 = .ok launch →
          launch.origin = .started →
            ∃ document, path = some document
              ∧ (after s launcher run).launch path
                = ((after s launcher run).cleared document).start
                    ((after s launcher run).displayName document) document
              ∧ (after s launcher run).displayName document
                ∉ ((after s launcher run).cleared document).names := by
  have hcustody := custody_after s launcher run
  refine ⟨hcustody.names_nodup, hcustody.detached_nodup, ?_, ?_, ?_, ?_⟩
  · exact fun n _ => at_unique hcustody n
  · intro n p hp hdropped
    refine ⟨hcustody.dropped_ended n p hp hdropped, fun later => ?_⟩
    exact leavesDropped_after s launcher run later n p hp hdropped
  · intro n p hp hrunning hdropped
    obtain ⟨answer, hlast, hanswer⟩ := hcustody.dropped_ended n p hp hdropped
    exact hanswer (hrunning answer (List.mem_of_getLast? hlast))
  · intro path launch hlaunch horigin
    obtain ⟨document, hpath, hstart⟩ := launch_eq_start hlaunch horigin
    exact ⟨document, hpath, hstart, notMem_names_cleared _ document⟩

end Registry

end CryptolEdit
