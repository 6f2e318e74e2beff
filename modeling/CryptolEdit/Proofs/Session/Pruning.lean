import CryptolEdit.Proofs.Session.Focus
import CryptolEdit.Proofs.Session.Reuse

/-!
What pruning does, in whichever order the sessions are gone through.

Sessions are found by their names, and nothing says in which order they are kept.
Pruning goes through all of them and asks as it goes, so what it does could depend on
the order. It does not, because no process is held twice: a process that is asked hears
of no other question (`askAll_eq_askedOnce`), and the answer that decides about it is
the one that it would have given at the outset (`runs_askAll_of_notMem`).

`Pruned r out` says what comes of pruning `r`, in terms of `r` alone: each process that
is held has given one answer, and those that said that they run are still held. All of
it is about what is in the list of sessions and not about their order, and so pruning
two registries that differ in this order gives the same but for it (`alike_of_pruned`).

`Reachable` lets the sessions change their order before every operation of a run.
-/

namespace CryptolEdit

-- ========================================================== the table

namespace ProcessTable

/-- The table after each of some processes has given one answer. -/
def askedOnce (t : ProcessTable) (ns : List Nat) : ProcessTable :=
  { t with started := t.started.mapIdx fun n p => if n ∈ ns then p.asked else p }

/-- What is logged about a process that is asked: nothing, unless it cannot tell. -/
def complaint (t : ProcessTable) (n : Nat) : List Event :=
  match (t.poll n).1 with
  | .unreadable reason => [.unreadable ((t.pid? n).getD 0) reason]
  | _ => []

/-- Asking some processes once takes one answer from each of these, and from no other. -/
theorem getElem?_askedOnce (t : ProcessTable) (ns : List Nat) (n : Nat) :
    (t.askedOnce ns).started[n]?
      = if n ∈ ns then t.started[n]?.map Process.asked else t.started[n]? := by
  unfold askedOnce
  rw [List.getElem?_mapIdx]
  by_cases hn : n ∈ ns
  · simp only [hn, if_true]
  · simp only [hn, if_false, Option.map_id']

/-- Asking processes one after the other, each of them once, is asking them all at once. -/
theorem askAll_eq_askedOnce (t : ProcessTable) {ns : List Nat} (hnodup : ns.Nodup) :
    t.askAll ns = t.askedOnce ns := by
  have hstarted : (t.askAll ns).started = (t.askedOnce ns).started := by
    apply List.ext_getElem?
    intro n
    rw [getElem?_askedOnce]
    by_cases hn : n ∈ ns
    · rw [if_pos hn, getElem?_askAll_of_mem t hnodup hn]
    · rw [if_neg hn, getElem?_askAll_of_notMem t hn]
  have hlauncher := launcher_askAll t ns
  have hattempts := attempts_askAll t ns
  cases h : t.askAll ns with
  | mk launcher attempts started =>
      rw [h] at hstarted hlauncher hattempts
      subst hstarted hlauncher hattempts
      rfl

/-- Neither order nor repetition matters for whom to ask once. -/
theorem askedOnce_congr (t : ProcessTable) {ms ns : List Nat} (h : ∀ n, n ∈ ms ↔ n ∈ ns) :
    t.askedOnce ms = t.askedOnce ns := by
  unfold askedOnce
  simp only [h]

/-- What a process says next does not depend on the others that were asked. -/
theorem runs_askAll_of_notMem (t : ProcessTable) {ns : List Nat} {n : Nat} (hn : n ∉ ns) :
    (t.askAll ns).runs n = t.runs n :=
  runs_congr (getElem?_askAll_of_notMem t hn)

/-- What is logged about a process depends on its own entry alone. -/
theorem complaint_congr {t t' : ProcessTable} {n : Nat} (h : t'.started[n]? = t.started[n]?) :
    t'.complaint n = t.complaint n := by
  have hpoll : (t'.poll n).1 = (t.poll n).1 := by
    unfold poll
    rw [h]
    cases t.started[n]? <;> rfl
  unfold complaint pid?
  rw [hpoll, h]

/-- What a process complains of next does not depend on the others that were asked. -/
theorem complaint_askAll_of_notMem (t : ProcessTable) {ns : List Nat} {n : Nat} (hn : n ∉ ns) :
    (t.askAll ns).complaint n = t.complaint n :=
  complaint_congr (getElem?_askAll_of_notMem t hn)

theorem pid?_poll (t : ProcessTable) (n : Nat) : (t.poll n).2.pid? n = t.pid? n := by
  unfold pid?
  rw [getElem?_poll, if_pos rfl, Option.map_map]
  rfl

end ProcessTable

namespace Registry

-- ============================================================ the log

theorem log_isRunning (r : Registry) (n : Nat) :
    (r.isRunning n).2.log = r.log ++ r.processes.complaint n := by
  have hpid := r.processes.pid?_poll n
  unfold isRunning ProcessTable.complaint
  dsimp only
  split
  next h => rw [h, List.append_nil]
  next h => rw [h, List.append_nil]
  next reason h =>
    rw [h, ← hpid]
    rfl

/-- Sifting logs what each process has to be logged for, in order. -/
theorem log_sift {α : Type} (process : α → Nat) (r : Registry) {as : List α}
    (hnodup : (as.map process).Nodup) :
    (r.sift process as).2.log = r.log ++ (as.map process).flatMap r.processes.complaint := by
  induction as generalizing r with
  | nil => exact (List.append_nil _).symm
  | cons a as ih =>
      rw [List.map_cons, List.nodup_cons] at hnodup
      obtain ⟨hfresh, hnodup⟩ := hnodup
      have hlater : (as.map process).flatMap (r.isRunning (process a)).2.processes.complaint
          = (as.map process).flatMap r.processes.complaint := by
        rw [(isRunning_asked r (process a)).processes]
        apply List.flatMap_congr
        intro n hn
        apply ProcessTable.complaint_askAll_of_notMem
        rw [List.mem_singleton]
        rintro rfl
        exact hfresh hn
      rw [sift_cons, List.map_cons, List.flatMap_cons, ← List.append_assoc, ← log_isRunning,
        ← hlater]
      exact ih _ hnodup

-- ============================================================ pruning

/-- Pruning says how many sessions are gone. -/
theorem prune_fst (r : Registry) : r.prune.1 = r.sessions.length - r.swept.1.length := by
  rw [← r.swept_asked.sessions.trans (sessions_reap r)]
  rfl

/-- A round of pruning logs the complaints, and its count if it is not zero. -/
theorem log_prune (r : Registry) :
    r.prune.2.log
      = r.swept.2.log ++ if 0 < r.prune.1 then [.pruned r.prune.1] else [] := by
  have hswept : ({ r.swept.2 with sessions := r.swept.1 }.refocus).log = r.swept.2.log := by
    rw [refocus_eq]
  show (if 0 < r.prune.1 then _ else _ : Registry).log = _
  split
  · exact congrArg (· ++ [Event.pruned r.prune.1]) hswept
  · rw [List.append_nil]
    exact hswept

theorem queries_prune (r : Registry) : r.prune.2.queries = r.queries := by
  obtain ⟨log, h⟩ := prune_snd r
  rw [h, refocus_eq]
  exact r.swept_asked.queries.trans (sift_asked id r r.detached).queries

/-- The focus stays on a session that stays. -/
theorem focused_refocus_iff (r : Registry) (name : Text) :
    r.refocus.focused = some name ↔ r.focused = some name ∧ name ∈ r.names := by
  unfold refocus
  split
  next hnone => simp [hnone]
  next focus hfocus =>
    split
    next hfound =>
      have hmem : focus ∈ r.names := by
        by_contra hmem
        rw [find?_eq_none_iff.mpr hmem] at hfound
        cases hfound
      rw [hfocus]
      constructor
      · rintro ⟨⟩
        exact ⟨rfl, hmem⟩
      · exact fun h => h.1
    next hlost =>
      rw [Option.not_isSome_iff_eq_none, find?_eq_none_iff] at hlost
      rw [hfocus]
      refine iff_of_false (fun h => by cases h) ?_
      rintro ⟨⟨⟩, hmem⟩
      exact hlost hmem

/-- The focus stays where it is if its session does. -/
theorem focused_prune_iff (r : Registry) (name : Text) :
    r.prune.2.focused = some name ↔ r.focused = some name ∧ name ∈ r.prune.2.names := by
  unfold names
  rw [sessions_prune, ← r.swept_asked.focused.trans (focused_reap r)]
  obtain ⟨log, h⟩ := prune_snd r
  rw [h]
  exact focused_refocus_iff { r.swept.2 with sessions := r.swept.1 } name

/-- What comes of pruning a registry. -/
structure Pruned (r : Registry) (out : Nat × Registry) : Prop where
  /-- The count is of the sessions that are gone. -/
  removed : out.1 + out.2.sessions.length = r.sessions.length
  /-- Each process that is held was asked once, and no other was asked. -/
  processes : out.2.processes = r.processes.askedOnce r.held
  detached : out.2.detached = r.detached.filter r.processes.runs
  sessions : out.2.sessions = r.sessions.filter fun entry => r.processes.runs (processOf entry)
  focused : ∀ name, out.2.focused = some name ↔ r.focused = some name ∧ name ∈ out.2.names
  settings : out.2.settings = r.settings
  backends : out.2.backends = r.backends
  queries : out.2.queries = r.queries
  log : out.2.log = r.log
    ++ (r.detached ++ r.sessions.map processOf).flatMap r.processes.complaint
    ++ if 0 < out.1 then [.pruned out.1] else []

/-- Asking the detached processes first makes no difference to what sessions say. -/
theorem sessions_prune_eq {r : Registry} (hcustody : r.Custody) :
    r.prune.2.sessions
      = r.sessions.filter fun entry => r.processes.runs (processOf entry) := by
  rw [sessions_prune_eq_filter hcustody, processes_reap]
  apply List.filter_congr
  intro entry hentry
  apply ProcessTable.runs_askAll_of_notMem
  exact hcustody.notMem_detached (List.mem_map_of_mem hentry)

/-- Nor does it make one to what is logged about them. -/
theorem log_swept {r : Registry} (hcustody : r.Custody) :
    r.swept.2.log
      = r.log ++ (r.detached ++ r.sessions.map processOf).flatMap r.processes.complaint := by
  have hreap : r.reap.log = r.log ++ r.detached.flatMap r.processes.complaint := by
    have hnodup : (r.detached.map id).Nodup := by
      rw [List.map_id]
      exact hcustody.detached_nodup
    have h := log_sift id r hnodup
    rwa [List.map_id] at h
  have hsweep := log_sift processOf r.reap hcustody.sessions_nodup
  have hlater : (r.sessions.map processOf).flatMap r.reap.processes.complaint
      = (r.sessions.map processOf).flatMap r.processes.complaint := by
    rw [processes_reap]
    apply List.flatMap_congr
    intro n hn
    apply ProcessTable.complaint_askAll_of_notMem
    exact hcustody.notMem_detached hn
  unfold swept
  rw [sessions_reap, hsweep, hreap, hlater, List.flatMap_append, List.append_assoc]

/-- What a round of pruning does when it goes by the order of the list. -/
theorem pruned_prune {r : Registry} (hcustody : r.Custody) : r.Pruned r.prune where
  removed := by
    have hle : r.swept.1.length ≤ r.sessions.length := by
      rw [← sessions_prune, sessions_prune_eq hcustody]
      exact List.length_filter_le _ _
    rw [prune_fst, sessions_prune]
    omega
  processes := by
    have hnodup : (r.detached ++ r.sessions.map processOf).Nodup :=
      List.perm_append_comm.nodup_iff.mpr hcustody.held_nodup
    rw [processes_prune, ← ProcessTable.askAll_append, ProcessTable.askAll_eq_askedOnce _ hnodup]
    exact ProcessTable.askedOnce_congr _ fun n => List.perm_append_comm.mem_iff
  detached := by rw [detached_prune, detached_reap hcustody.detached_nodup]
  sessions := sessions_prune_eq hcustody
  focused := focused_prune_iff r
  settings := settings_prune r
  backends := backends_prune r
  queries := queries_prune r
  log := by rw [log_prune, log_swept hcustody]

-- ============================================================== order

/-- The registry with its sessions in another order. -/
def reordered (r : Registry) (order : List (Text × Session)) : Registry :=
  { r with sessions := order }

/-- Nothing but the order of sessions, and of what was logged, tells the two apart. -/
structure Alike (r r' : Registry) : Prop where
  sessions : r.sessions.Perm r'.sessions
  found : ∀ name, r.find? name = r'.find? name
  settings : r.settings = r'.settings
  processes : r.processes = r'.processes
  detached : r.detached = r'.detached
  focused : r.focused = r'.focused
  backends : r.backends = r'.backends
  queries : r.queries = r'.queries
  log : r.log.Perm r'.log

/-- Where names are not used twice, what is registered is found. -/
theorem find?_eq_some_iff {r : Registry} (hnodup : r.names.Nodup) {name : Text}
    {session : Session} : r.find? name = some session ↔ (name, session) ∈ r.sessions := by
  constructor
  · exact mem_of_find?
  · intro hmem
    cases hfind : r.find? name with
    | none => exact absurd (List.mem_map_of_mem hmem) (find?_eq_none_iff.mp hfind)
    | some other =>
        have hsame := List.inj_on_of_nodup_map hnodup (mem_of_find? hfind) hmem rfl
        rw [(Prod.mk.inj hsame).2]

/-- A name finds the same session in any order of the entries. -/
theorem find?_of_perm {r r' : Registry} (hnodup : r.names.Nodup)
    (h : r.sessions.Perm r'.sessions) (name : Text) : r.find? name = r'.find? name := by
  have hnodup' : r'.names.Nodup := (h.map Prod.fst).nodup_iff.mp hnodup
  apply Option.ext
  intro session
  rw [find?_eq_some_iff hnodup, find?_eq_some_iff hnodup', h.mem_iff]

/-- In another order, the same processes are held. -/
theorem held_reordered {r : Registry} {order : List (Text × Session)}
    (h : order.Perm r.sessions) : (r.reordered order).held.Perm r.held :=
  (h.map processOf).append_right r.detached

/-- Processes keep their one place when the entries are put in another order. -/
theorem custody_reordered {r : Registry} (hcustody : r.Custody) {order : List (Text × Session)}
    (h : order.Perm r.sessions) : (r.reordered order).Custody := by
  have hheld := held_reordered h
  exact {
    names_nodup := (h.map Prod.fst).nodup_iff.mpr hcustody.names_nodup
    held_nodup := hheld.nodup_iff.mpr hcustody.held_nodup
    held_started := fun n hn => hcustody.held_started n (hheld.mem_iff.mp hn)
    dropped_ended := fun n p hp hn =>
      hcustody.dropped_ended n p hp fun hmem => hn (hheld.mem_iff.mpr hmem) }

/-- Registries that differ in the order of their sessions come out alike. -/
theorem alike_of_pruned {r : Registry} {order : List (Text × Session)}
    {out out' : Nat × Registry} (hcustody : r.Custody) (horder : order.Perm r.sessions)
    (h : r.Pruned out) (h' : (r.reordered order).Pruned out') :
    out'.1 = out.1 ∧ out'.2.Alike out.2 := by
  have hsessions : out'.2.sessions.Perm out.2.sessions := by
    rw [h.sessions, h'.sessions]
    exact horder.filter _
  have hremoved : out'.1 = out.1 := by
    have hcount := h.removed
    have hcount' := h'.removed
    have hlength : (r.reordered order).sessions.length = r.sessions.length := horder.length_eq
    rw [hsessions.length_eq] at hcount'
    omega
  have hnames : out'.2.names.Nodup := by
    unfold names
    rw [h'.sessions]
    exact (custody_reordered hcustody horder).names_nodup.sublist (List.filter_sublist.map _)
  refine ⟨hremoved, hsessions, find?_of_perm hnames hsessions, ?_, ?_, ?_, ?_, ?_, ?_, ?_⟩
  · exact h'.settings.trans h.settings.symm
  · rw [h'.processes, h.processes]
    exact ProcessTable.askedOnce_congr _ fun n => (held_reordered horder).mem_iff
  · exact h'.detached.trans h.detached.symm
  · apply Option.ext
    intro name
    have hmem : name ∈ out'.2.names ↔ name ∈ out.2.names := (hsessions.map Prod.fst).mem_iff
    rw [h'.focused, h.focused, hmem]
    exact Iff.rfl
  · exact h'.backends.trans h.backends.symm
  · exact h'.queries.trans h.queries.symm
  · rw [h'.log, h.log, hremoved]
    apply List.Perm.append_right
    apply List.Perm.append_left
    exact ((horder.map processOf).append_left r.detached).flatMap_right _

/-- Where nothing says that it runs, nothing is left. -/
theorem empty_of_pruned {r : Registry} {out : Nat × Registry} (h : r.Pruned out)
    (hended : ∀ n ∈ r.held, r.processes.runs n = false) :
    out.2.sessions = [] ∧ out.2.detached = [] ∧ out.2.focused = none := by
  have hsessions : out.2.sessions = [] := by
    rw [h.sessions, List.filter_eq_nil_iff]
    intro entry hentry
    rw [hended _ (List.mem_append_left _ (List.mem_map_of_mem hentry))]
    exact Bool.false_ne_true
  have hdetached : out.2.detached = [] := by
    rw [h.detached, List.filter_eq_nil_iff]
    intro n hn
    rw [hended n (List.mem_append_right _ hn)]
    exact Bool.false_ne_true
  refine ⟨hsessions, hdetached, Option.eq_none_iff_forall_ne_some.mpr fun name hname => ?_⟩
  have hmem := ((h.focused name).mp hname).2
  unfold names at hmem
  rw [hsessions] at hmem
  cases hmem

-- =========================================================== whole runs

/-- The states that runs lead to when the sessions come in any order in every step. -/
inductive Reachable (s : Settings) (launcher : Launcher) : Registry → Prop
  | init : Reachable s launcher (ofLauncher s launcher)
  | step {r : Registry} {order : List (Text × Session)} (h : Reachable s launcher r)
      (horder : order.Perm r.sessions) (op : Operation) :
      Reachable s launcher ((r.reordered order).perform op)

/-- A run that never reorders the entries is one of those that may. -/
theorem reachable_after (s : Settings) (launcher : Launcher) (run : List Operation) :
    Reachable s launcher (after s launcher run) :=
  after_induction .init (fun _ op h => h.step (List.Perm.refl _) op) run

/-- Each process has its one place in every state that can be reached. -/
theorem custody_of_reachable {s : Settings} {launcher : Launcher} {r : Registry}
    (h : Reachable s launcher r) : r.Custody := by
  induction h with
  | init => exact custody_ofLauncher s launcher
  | step h horder op ih => exact (keeps_perform _ op (custody_reordered ih horder)).1

/-- Pruning keeps what runs. In every state that a run leads to, and in whichever order the
sessions are gone through, each process that is held is asked once, those that say that they
run are kept in their places, and the focus stays if its session does. The order makes no
difference to the state that results or to the count, and if nothing says that it runs,
nothing is left. -/
theorem prune_in_any_order {s : Settings} {launcher : Launcher} {r : Registry}
    (hreachable : Reachable s launcher r) {order : List (Text × Session)}
    (horder : order.Perm r.sessions) :
    (r.reordered order).Pruned (r.reordered order).prune
      ∧ (∀ order', order'.Perm r.sessions →
          (r.reordered order').prune.1 = (r.reordered order).prune.1
            ∧ (r.reordered order').prune.2.Alike (r.reordered order).prune.2)
      ∧ ((∀ n ∈ r.held, r.processes.runs n = false) →
          (r.reordered order).prune.2.sessions = []
            ∧ (r.reordered order).prune.2.detached = []
            ∧ (r.reordered order).prune.2.focused = none) := by
  have hcustody := custody_reordered (custody_of_reachable hreachable) horder
  have hpruned := pruned_prune hcustody
  refine ⟨hpruned, fun order' horder' => ?_, fun hended => ?_⟩
  · have hperm : order'.Perm (r.reordered order).sessions := horder'.trans horder.symm
    exact alike_of_pruned hcustody hperm hpruned
      (pruned_prune (r := r.reordered order') (custody_reordered hcustody hperm))
  · apply empty_of_pruned hpruned
    intro n hn
    exact hended n ((held_reordered horder).mem_iff.mp hn)

/-- Starts two processes that run, one that has ended, and then some that cannot tell. -/
def startsMixed : Launcher := fun _ started _ =>
  .begun (1000 + started) fun _ =>
    match started with
    | 0 | 1 => .running
    | 2 => .exited
    | _ => .unreadable "no such child".toList

/-- Four documents were launched and the first was closed while it ran. Two of the other
three go, and the focus with them, whether they are gone through forwards or backwards. A
document that is all there was leaves nothing behind. -/
theorem prune_in_any_order_backwards :
    let r := after {} startsMixed [.launch (some [97]), .launch (some [98]),
      .launch (some [99]), .launch (some [100]), .close [97]]
    (r.reordered r.sessions.reverse).prune.1 = 2
      ∧ (r.reordered r.sessions.reverse).prune.2.detached = [0]
      ∧ (r.reordered r.sessions.reverse).prune.2.names = ["*cryptol:b*".toList]
      ∧ (r.reordered r.sessions.reverse).prune.2.focused = none
      ∧ r.prune.2.Alike (r.reordered r.sessions.reverse).prune.2
      ∧ (after {} startsOnce [.launch (some [97])]).prune.2.focused = none := by
  intro r
  have hreachable := reachable_after {} startsMixed [.launch (some [97]), .launch (some [98]),
    .launch (some [99]), .launch (some [100]), .close [97]]
  obtain ⟨-, halike, -⟩ := prune_in_any_order hreachable (List.reverse_perm r.sessions)
  obtain ⟨-, -, hempty⟩ := prune_in_any_order
    (reachable_after {} startsOnce [.launch (some [97])]) (List.Perm.refl _)
  exact ⟨by decide, by decide, by decide, by decide, (halike r.sessions (List.Perm.refl _)).2,
    (hempty (by decide)).2.2⟩

end Registry

end CryptolEdit
