import CryptolEdit.Session

/-!
What asking a process does to a registry, and what it leaves alone.

# The table

Asking is the only thing that happens to a process after its start: its next
answer moves to the end of its history, and no other process notices
(`getElem?_poll`). `askAll` asks a list of processes one after the other, and
`runs` foretells what a process will say. As long as no process is on the list
twice, the order of the list does not matter to what each of them says
(`runs_poll_of_ne`, `getElem?_askAll_of_mem`).

# The registry

`Asked r ns r'` says that `r'` is `r` after the processes `ns` were asked: the
table has moved on by `askAll`, the log may have grown, and all else is as it
was. Every polling function of the registry is brought into this form once
(`isRunning_asked`, `sift_asked`), together with what it keeps (`isRunning_fst`,
`sift_fst`); nothing later looks into these functions again.
-/

namespace CryptolEdit

-- ========================================================== the table

namespace ProcessTable

/-- Whether a process says that it runs when it is asked next. -/
def runs (t : ProcessTable) (n : Nat) : Bool := (t.poll n).1 == .running

/-- The table after some processes were asked, one after the other. -/
def askAll (t : ProcessTable) (ns : List Nat) : ProcessTable :=
  ns.foldl (fun t n => (t.poll n).2) t

/-- Asking moves one process on by one answer. -/
theorem getElem?_poll (t : ProcessTable) (n m : Nat) :
    (t.poll n).2.started[m]?
      = if n = m then t.started[m]?.map Process.asked else t.started[m]? := by
  unfold poll
  cases hn : t.started[n]? with
  | none =>
      by_cases hm : n = m
      · subst hm
        simp [hn]
      · simp [hm]
  | some p =>
      rw [List.getElem?_modify]
      by_cases hm : n = m <;> simp [hm]

theorem length_poll (t : ProcessTable) (n : Nat) :
    (t.poll n).2.started.length = t.started.length := by
  unfold poll
  cases t.started[n]? <;> simp

theorem launcher_poll (t : ProcessTable) (n : Nat) :
    (t.poll n).2.launcher = t.launcher := by
  unfold poll
  cases t.started[n]? <;> rfl

theorem attempts_poll (t : ProcessTable) (n : Nat) :
    (t.poll n).2.attempts = t.attempts := by
  unfold poll
  cases t.started[n]? <;> rfl

/-- What a process says depends on its own entry alone. -/
theorem runs_congr {t t' : ProcessTable} {n : Nat}
    (h : t'.started[n]? = t.started[n]?) : t'.runs n = t.runs n := by
  unfold runs poll
  rw [h]
  cases t.started[n]? <;> rfl

/-- A process that was started says that it runs if its next answer is so. -/
theorem runs_eq {t : ProcessTable} {n : Nat} {p : Process}
    (hp : t.started[n]? = some p) : t.runs n = (p.nextAnswer == .running) := by
  unfold runs poll
  rw [hp]

/-- No process notices that another is asked. -/
theorem runs_poll_of_ne (t : ProcessTable) {n m : Nat} (h : n ≠ m) :
    (t.poll n).2.runs m = t.runs m := by
  apply runs_congr
  rw [getElem?_poll, if_neg h]

@[simp] theorem askAll_nil (t : ProcessTable) : t.askAll [] = t := rfl

theorem askAll_cons (t : ProcessTable) (n : Nat) (ns : List Nat) :
    t.askAll (n :: ns) = (t.poll n).2.askAll ns := rfl

/-- Asking two lists is asking the first and then the second. -/
theorem askAll_append (t : ProcessTable) (ms ns : List Nat) :
    t.askAll (ms ++ ns) = (t.askAll ms).askAll ns :=
  List.foldl_append

@[simp] theorem length_askAll (t : ProcessTable) (ns : List Nat) :
    (t.askAll ns).started.length = t.started.length := by
  induction ns generalizing t with
  | nil => rfl
  | cons n ns ih => rw [askAll_cons, ih, length_poll]

@[simp] theorem launcher_askAll (t : ProcessTable) (ns : List Nat) :
    (t.askAll ns).launcher = t.launcher := by
  induction ns generalizing t with
  | nil => rfl
  | cons n ns ih => rw [askAll_cons, ih, launcher_poll]

@[simp] theorem attempts_askAll (t : ProcessTable) (ns : List Nat) :
    (t.askAll ns).attempts = t.attempts := by
  induction ns generalizing t with
  | nil => rfl
  | cons n ns ih => rw [askAll_cons, ih, attempts_poll]

/-- A process that is not asked stays as it is. -/
theorem getElem?_askAll_of_notMem (t : ProcessTable) {ns : List Nat} {m : Nat}
    (hm : m ∉ ns) : (t.askAll ns).started[m]? = t.started[m]? := by
  induction ns generalizing t with
  | nil => rfl
  | cons n ns ih =>
      rw [List.mem_cons, not_or] at hm
      rw [askAll_cons, ih _ hm.2, getElem?_poll, if_neg (Ne.symm hm.1)]

/-- A process that is asked once moves on by one answer, whenever its turn
comes. -/
theorem getElem?_askAll_of_mem (t : ProcessTable) {ns : List Nat} {m : Nat}
    (hnodup : ns.Nodup) (hm : m ∈ ns) :
    (t.askAll ns).started[m]? = t.started[m]?.map Process.asked := by
  induction ns generalizing t with
  | nil => cases hm
  | cons n ns ih =>
      rw [List.nodup_cons] at hnodup
      rw [askAll_cons]
      by_cases hnm : n = m
      · subst hnm
        rw [getElem?_askAll_of_notMem _ hnodup.1, getElem?_poll, if_pos rfl]
      · have hrest : m ∈ ns := (List.mem_cons.mp hm).resolve_left (Ne.symm hnm)
        rw [ih _ hnodup.2 hrest, getElem?_poll, if_neg hnm]

end ProcessTable

-- ======================================================= the registry

namespace Registry

/-- `r'` is `r` after some processes were asked. Only the table and the log can
tell the two apart. -/
structure Asked (r : Registry) (ns : List Nat) (r' : Registry) : Prop where
  settings : r'.settings = r.settings
  sessions : r'.sessions = r.sessions
  detached : r'.detached = r.detached
  focused : r'.focused = r.focused
  backends : r'.backends = r.backends
  queries : r'.queries = r.queries
  processes : r'.processes = r.processes.askAll ns

namespace Asked

theorem refl (r : Registry) : r.Asked [] r := ⟨rfl, rfl, rfl, rfl, rfl, rfl, rfl⟩

theorem trans {r r' r'' : Registry} {ms ns : List Nat}
    (h : r.Asked ms r') (h' : r'.Asked ns r'') : r.Asked (ms ++ ns) r'' where
  settings := h'.settings.trans h.settings
  sessions := h'.sessions.trans h.sessions
  detached := h'.detached.trans h.detached
  focused := h'.focused.trans h.focused
  backends := h'.backends.trans h.backends
  queries := h'.queries.trans h.queries
  processes := by
    rw [h'.processes, h.processes, ProcessTable.askAll_append]

end Asked

/-- Asking one process asks that process. -/
theorem isRunning_asked (r : Registry) (n : Nat) :
    r.Asked [n] (r.isRunning n).2 := by
  unfold isRunning
  dsimp only
  split <;> exact ⟨rfl, rfl, rfl, rfl, rfl, rfl, rfl⟩

/-- The verdict on one process: whatever is not `running` counts as ended. -/
theorem isRunning_fst (r : Registry) (n : Nat) :
    (r.isRunning n).1 = r.processes.runs n := by
  unfold isRunning ProcessTable.runs
  dsimp only
  split <;> rename_i hanswer <;> rw [hanswer] <;> rfl

section sift

variable {α : Type} (process : α → Nat)

/-- One round of sifting: ask the first item's process, then sift the rest. -/
theorem sift_cons (r : Registry) (a : α) (as : List α) :
    r.sift process (a :: as)
      = (if (r.isRunning (process a)).1
          then a :: ((r.isRunning (process a)).2.sift process as).1
          else ((r.isRunning (process a)).2.sift process as).1,
        ((r.isRunning (process a)).2.sift process as).2) := rfl

/-- Sifting asks the process of every item, in order. -/
theorem sift_asked (r : Registry) (as : List α) :
    r.Asked (as.map process) (r.sift process as).2 := by
  induction as generalizing r with
  | nil => exact Asked.refl r
  | cons a as ih =>
      rw [sift_cons, List.map_cons]
      exact (isRunning_asked r (process a)).trans (ih _)

/-- Sifting keeps the items whose processes would have said at the outset that
they run: what is asked on the way concerns other processes. -/
theorem sift_fst (r : Registry) {as : List α} (hnodup : (as.map process).Nodup) :
    (r.sift process as).1 = as.filter fun a => r.processes.runs (process a) := by
  induction as generalizing r with
  | nil => rfl
  | cons a as ih =>
      rw [List.map_cons, List.nodup_cons] at hnodup
      obtain ⟨hfresh, hnodup⟩ := hnodup
      have hrest : ((r.isRunning (process a)).2.sift process as).1
          = as.filter fun b => r.processes.runs (process b) := by
        rw [ih _ hnodup]
        refine List.filter_congr fun b hb => ?_
        rw [(isRunning_asked r (process a)).processes]
        apply ProcessTable.runs_poll_of_ne
        rintro heq
        exact hfresh (heq ▸ List.mem_map_of_mem hb)
      rw [sift_cons, hrest, isRunning_fst, List.filter_cons]

/-- Whatever the processes say, sifting makes no items up. -/
theorem sift_sublist (r : Registry) (as : List α) :
    (r.sift process as).1.Sublist as := by
  induction as generalizing r with
  | nil => exact List.Sublist.refl _
  | cons a as ih =>
      rw [sift_cons]
      dsimp only
      split
      · exact (ih _).cons_cons a
      · exact (ih _).cons a

end sift

end Registry

end CryptolEdit
