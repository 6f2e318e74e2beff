import CryptolEdit.Proofs.Session.Run

/-!
What the table of processes remembers.

A table only grows. `t.Extends t'` says that `t'` comes later than `t`: all
attempts of `t` are the first attempts of `t'`, and every process of `t` is in
`t'` under its number, the same but for answers that it has given since. Asking
extends a table, and so does an attempt, whatever comes of it; hence every
operation of a registry does (`extends_perform`), and every run of them
(`extends_after`).

So what a process has answered by the end of a run tells what it answered on the
way. If it has never said anything but that it runs, then it ran whenever it was
asked (`runs_of_asked`).

`attempts_perform` is the other half of the story: the only operation that tries
to start anything is a launch of a document without a session that runs, and it
tries the command of that document once.
-/

namespace CryptolEdit

namespace ProcessTable

/-- `t'` comes later than `t`. Nothing that `t` knows is changed. -/
structure Extends (t t' : ProcessTable) : Prop where
  launcher : t'.launcher = t.launcher
  attempts : t.attempts <+: t'.attempts
  /-- The only thing that happens to a process is that it answers. -/
  started : ∀ (n : Nat) (p : Process), t.started[n]? = some p →
    ∃ more, t'.started[n]? = some { p with answers := p.answers ++ more }

/-- Whatever a process has answered so far, it was that it runs. -/
def SaysRunning (t : ProcessTable) (n : Nat) : Prop :=
  ∀ p : Process, t.started[n]? = some p → ∀ answer ∈ p.answers, answer = .running

namespace Extends

theorem refl (t : ProcessTable) : t.Extends t where
  launcher := rfl
  attempts := List.prefix_refl _
  started := fun _ p hp => ⟨[], by rw [hp, List.append_nil]⟩

theorem trans {t t' t'' : ProcessTable} (h : t.Extends t') (h' : t'.Extends t'') :
    t.Extends t'' where
  launcher := h'.launcher.trans h.launcher
  attempts := h.attempts.trans h'.attempts
  started := by
    intro n p hp
    obtain ⟨more, hmore⟩ := h.started n p hp
    obtain ⟨more', hmore'⟩ := h'.started n _ hmore
    exact ⟨more ++ more', by rw [hmore', List.append_assoc]⟩

/-- A process that only ever says that it runs has said so before. -/
theorem saysRunning {t t' : ProcessTable} (h : t.Extends t') {n : Nat}
    (hrunning : t'.SaysRunning n) : t.SaysRunning n := by
  intro p hp answer hanswer
  obtain ⟨more, hmore⟩ := h.started n p hp
  exact hrunning _ hmore answer (List.mem_append_left more hanswer)

end Extends

-- ============================================================= asking

/-- A poll adds an answer of one process to the table, and changes nothing else. -/
theorem extends_poll (t : ProcessTable) (n : Nat) : t.Extends (t.poll n).2 where
  launcher := launcher_poll t n
  attempts := ⟨[], by rw [List.append_nil, attempts_poll]⟩
  started := by
    intro m p hp
    rw [getElem?_poll, hp]
    by_cases hnm : n = m
    · rw [if_pos hnm]
      exact ⟨[p.nextAnswer], rfl⟩
    · rw [if_neg hnm]
      exact ⟨[], by rw [List.append_nil]⟩

theorem extends_askAll (t : ProcessTable) (ns : List Nat) : t.Extends (t.askAll ns) := by
  induction ns generalizing t with
  | nil => exact Extends.refl t
  | cons n ns ih =>
      rw [askAll_cons]
      exact (extends_poll t n).trans (ih _)

/-- A process that was asked, and has never said anything but that it runs, ran
when it was asked. -/
theorem runs_of_asked {t t' : ProcessTable} {ns : List Nat} {n : Nat} {p : Process}
    (hp : t.started[n]? = some p) (hn : n ∈ ns) (h : (t.askAll ns).Extends t')
    (hrunning : t'.SaysRunning n) : t.runs n = true := by
  -- until its first turn nothing happens to the process
  obtain ⟨before, rest, rfl, hbefore⟩ := List.eq_append_cons_of_mem hn
  have hturn : (t.askAll before).started[n]? = some p := by
    rw [getElem?_askAll_of_notMem t hbefore, hp]
  have hasked : ((t.askAll before).poll n).2.started[n]? = some p.asked := by
    rw [getElem?_poll, if_pos rfl, hturn]
    rfl
  have hlater : ((t.askAll before).poll n).2.Extends t' := by
    refine (extends_askAll _ rest).trans ?_
    rw [← askAll_cons, ← askAll_append]
    exact h
  have hanswer : p.nextAnswer = .running :=
    hlater.saysRunning hrunning _ hasked _ (List.mem_append_right _ List.mem_cons_self)
  rw [runs_eq hp, hanswer]
  rfl

-- =========================================================== starting

theorem extends_tried (t : ProcessTable) (c : Command) : t.Extends (t.tried c) where
  launcher := rfl
  attempts := List.prefix_append _ _
  started := (Extends.refl t).started

theorem extends_begun (t : ProcessTable) (c : Command) (pid : Nat)
    (script : Nat → Poll) : t.Extends (t.begun c pid script) where
  launcher := rfl
  attempts := List.prefix_append _ _
  started := by
    intro n p hp
    obtain ⟨hlt, -⟩ := List.getElem?_eq_some_iff.mp hp
    refine ⟨[], ?_⟩
    show (t.started ++ [_])[n]? = _
    rw [List.getElem?_append_left hlt, hp, List.append_nil]

end ProcessTable

namespace Registry

-- ========================================================= operations

theorem extends_start (r : Registry) (name : Text) (document : Path) :
    r.processes.Extends (r.start name document).2.processes := by
  have hstart := start_cases r name document
  generalize r.start name document = out at hstart ⊢
  cases hstart with
  | failed hlauncher => exact ProcessTable.extends_tried _ _
  | begun hlauncher => exact ProcessTable.extends_begun _ _ _ _

theorem extends_expire (r : Registry) (name : Text) (session : Session) :
    r.processes.Extends (r.expire name session).processes := by
  rw [processes_expire, ← ProcessTable.askAll_append]
  exact ProcessTable.extends_askAll _ _

/-- A launch extends the table, however it goes. -/
theorem extends_launch (r : Registry) (path : Option Path) :
    r.processes.Extends (r.launch path).2.processes := by
  have hlaunch := launch_cases r path
  generalize r.launch path = out at hlaunch ⊢
  cases hlaunch with
  | noFile hpath => exact ProcessTable.Extends.refl _
  | fresh hdocument hfind => exact extends_start r _ _
  | @reused document session hdocument hfind hruns =>
      show r.processes.Extends (r.isRunning session.process).2.processes
      rw [(isRunning_asked r session.process).processes]
      exact ProcessTable.extends_askAll _ _
  | replaced hdocument hfind hruns =>
      exact (extends_expire r _ _).trans (extends_start _ _ _)

theorem extends_close (r : Registry) (path : Path) :
    r.processes.Extends (r.close path).2.processes := by
  have hclosed := close_cases r path
  generalize r.close path = out at hclosed ⊢
  cases hclosed with
  | absent hfind => exact ProcessTable.Extends.refl _
  | @present session hfind =>
      show r.processes.Extends (r.dismiss (r.displayName path) session).processes
      rw [processes_dismiss]
      exact ProcessTable.extends_askAll _ _

/-- Every operation extends the table. -/
theorem extends_perform (r : Registry) (op : Operation) :
    r.processes.Extends (r.perform op).processes := by
  rcases perform_cases r op with ⟨-, hidle⟩ | ⟨path, rfl⟩ | ⟨path, rfl⟩ | rfl
  · obtain ⟨ns, -, hprocesses⟩ := hidle.processes
    rw [hprocesses]
    exact ProcessTable.extends_askAll _ _
  · exact extends_launch r path
  · exact extends_close r path
  · show r.processes.Extends r.prune.2.processes
    rw [processes_prune, ← ProcessTable.askAll_append]
    exact ProcessTable.extends_askAll _ _

/-- However a run goes on, it extends the table. -/
theorem extends_after (s : Settings) (launcher : Launcher) (run later : List Operation) :
    (after s launcher run).processes.Extends (after s launcher (run ++ later)).processes := by
  induction later using List.reverseRecOn with
  | nil =>
      rw [List.append_nil]
      exact ProcessTable.Extends.refl _
  | append_singleton later op ih =>
      rw [← List.append_assoc, after_concat]
      exact ih.trans (extends_perform _ op)

-- =========================================================== attempts

/-- Starting a process is one attempt, whether it succeeds or not. -/
theorem attempts_start (r : Registry) (name : Text) (document : Path) :
    (r.start name document).2.processes.attempts
      = r.processes.attempts ++ [Command.repl r.settings document] := by
  have hstart := start_cases r name document
  generalize r.start name document = out at hstart ⊢
  cases hstart <;> rfl

/-- A document has a session that would say that it runs. -/
def HasRunning (r : Registry) (document : Path) : Prop :=
  ∃ session, r.session? document = some session
    ∧ r.processes.runs session.process = true

/-- Which operations try to start something, and what. -/
theorem attempts_perform (r : Registry) (op : Operation) :
    (r.perform op).processes.attempts = r.processes.attempts
      ∨ ∃ document, op = .launch (some document) ∧ document ≠ []
        ∧ ¬r.HasRunning document
        ∧ (r.perform op).processes.attempts
          = r.processes.attempts ++ [Command.repl r.settings document] := by
  rcases perform_cases r op with ⟨-, hidle⟩ | ⟨path, rfl⟩ | ⟨path, rfl⟩ | rfl
  · obtain ⟨ns, -, hprocesses⟩ := hidle.processes
    rw [hprocesses]
    exact Or.inl (ProcessTable.attempts_askAll _ _)
  · have hlaunch := launch_cases r path
    change (r.launch path).2.processes.attempts = _ ∨ ∃ document, _ ∧ _ ∧ _
      ∧ (r.launch path).2.processes.attempts = _
    generalize r.launch path = out at hlaunch ⊢
    cases hlaunch with
    | noFile hpath => exact Or.inl rfl
    | @fresh document hdocument hfind =>
        refine Or.inr ⟨document, rfl, hdocument, ?_, attempts_start r _ _⟩
        rintro ⟨session, hsome, -⟩
        cases hfind.symm.trans hsome
    | @reused document session hdocument hfind hruns =>
        left
        show (r.isRunning session.process).2.processes.attempts = _
        rw [(isRunning_asked r session.process).processes, ProcessTable.attempts_askAll]
    | @replaced document session hdocument hfind hruns =>
        refine Or.inr ⟨document, rfl, hdocument, ?_, ?_⟩
        · rintro ⟨session', hsome, hruns'⟩
          cases hfind.symm.trans hsome
          rw [hruns] at hruns'
          cases hruns'
        · rw [attempts_start, processes_expire, settings_expire,
            ProcessTable.attempts_askAll, ProcessTable.attempts_askAll]
  · left
    have hclosed := close_cases r path
    show (r.close path).2.processes.attempts = _
    generalize r.close path = out at hclosed ⊢
    cases hclosed with
    | absent hfind => rfl
    | @present session hfind =>
        show (r.dismiss (r.displayName path) session).processes.attempts = _
        rw [processes_dismiss, ProcessTable.attempts_askAll]
  · left
    show r.prune.2.processes.attempts = _
    rw [processes_prune, ProcessTable.attempts_askAll, ProcessTable.attempts_askAll]

end Registry

end CryptolEdit
