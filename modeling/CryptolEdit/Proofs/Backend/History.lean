import CryptolEdit.Backend.Cache
import Mathlib.Data.List.Induction

/-!
The list of backends as a function of what was done for it.

# One step

`refresh_cases` says once how asking for the list can go, and a load either gives
the known list or is a refresh (`load_of_listed`, `load_of_not_listed`). `Fits`
says what an answer owes to the list that was known before it.

Of an operation, `deeds` keeps what bears on the list: the query that was run, with
what came of it, and that the list was dropped. An operation has one deed at most,
and `perform_cases` says how the list fares with each kind of deed.

# Whole runs

`history` collects the deeds of a run of operations. The list after the run can be
read off it: it has the names that the last successful query printed, if the list
was not dropped since (`listed_after`). Queries that failed do not matter, nor does
it matter which operation ran a query.
-/

namespace CryptolEdit.Backend

-- ============================================================== deeds

/-- What was done for the list of backends, or to it. -/
inductive Deed where
  /-- A query was run. It printed something, or failed for some reason. -/
  | queried (outcome : Except Text Text)
  /-- The list was dropped. -/
  | forgot

namespace Deed

def isForgot : Deed → Bool
  | forgot => true
  | queried _ => false

/-- What a query printed, if it did not fail. -/
def output? : Deed → Option Text
  | queried (.ok output) => some output
  | queried (.error _) | forgot => none

/-- What the most recent successful query printed since the list was dropped
last. -/
def lastOutput? (history : List Deed) : Option Text :=
  (history.reverse.takeWhile fun deed => !deed.isForgot).findSome? output?

/-- A query that succeeds is the last one from then on. -/
theorem lastOutput?_ok (history : List Deed) (output : Text) :
    lastOutput? (history ++ [queried (.ok output)]) = some output := by
  unfold lastOutput?
  rw [List.reverse_concat, List.takeWhile_cons_of_pos rfl]
  rfl

/-- A query that fails does not count. -/
theorem lastOutput?_error (history : List Deed) (reason : Text) :
    lastOutput? (history ++ [queried (.error reason)]) = lastOutput? history := by
  unfold lastOutput?
  rw [List.reverse_concat, List.takeWhile_cons_of_pos rfl]
  rfl

/-- Once the list is dropped, no earlier query counts. -/
theorem lastOutput?_forgot (history : List Deed) :
    lastOutput? (history ++ [forgot]) = none := by
  unfold lastOutput?
  rw [List.reverse_concat, List.takeWhile_cons_of_neg (by decide)]
  rfl

/-- Whether a deed settles what the list is from then on. -/
def settles : Deed → Bool
  | queried (.ok _) | forgot => true
  | queried (.error _) => false

/-- The last deed that settled the list is the query whose names it has. -/
theorem lastOutput?_eq_some_iff {history : List Deed} {output : Text} :
    lastOutput? history = some output ↔
      (history.filter settles).getLast? = some (queried (.ok output)) := by
  induction history using List.reverseRecOn with
  | nil => exact iff_of_false nofun nofun
  | append_singleton history deed ih =>
      rw [List.filter_append]
      match deed with
      | queried (.ok printed) =>
          rw [lastOutput?_ok, List.filter_cons_of_pos rfl, List.filter_nil,
            List.getLast?_concat]
          simp
      | queried (.error reason) =>
          rw [lastOutput?_error, List.filter_cons_of_neg Bool.false_ne_true,
            List.filter_nil, List.append_nil]
          exact ih
      | forgot =>
          rw [lastOutput?_forgot, List.filter_cons_of_pos rfl, List.filter_nil,
            List.getLast?_concat]
          exact iff_of_false nofun nofun

/-- A backend is ruled out if a query settled the list last and did not print
its name. -/
def RulesOut (history : List Deed) (name : Text) : Prop :=
  ∃ output, (history.filter settles).getLast? = some (queried (.ok output))
    ∧ name ∉ names output

end Deed

/-- The outcomes of the queries that were run for an answer. -/
def Answer.deeds (a : Answer) (query : Query) : List Deed :=
  a.asked.toList.map fun command => .queried (query command)

/-- What asking for the list comes to, seen from the list that was known before.
It fails only because the query that was run failed, and then the list stays; if
it does not fail, it gives the list that is known from then on. -/
structure Answer.Fits (c : Cache) (query : Query) (s : Settings) (a : Answer) : Prop where
  error_iff : ∀ failure, a.result = .error failure ↔
    ∃ reason, .queried (.error reason) ∈ a.deeds query
      ∧ failure = .queryFailed s.interpreter reason
  unchanged : ∀ reason, .queried (.error reason) ∈ a.deeds query → a.cache = c
  listed : ∀ list, a.result = .ok list → a.cache.listed = some list

namespace Cache

-- ====================================================== asking for the list

/-- How asking the interpreter can go. -/
inductive Refreshed (c : Cache) (query : Query) (s : Settings) : Answer → Prop
  | failed {reason : Text} (hquery : query (Command.listBackends s) = .error reason) :
      Refreshed c query s
        ⟨.error (.queryFailed s.interpreter reason), c, some (Command.listBackends s), []⟩
  | printed {output : Text} (hquery : query (Command.listBackends s) = .ok output) :
      Refreshed c query s
        ⟨.ok (names output), ⟨some (names output)⟩, some (Command.listBackends s),
          [.listed (names output).length]⟩

/-- Asking the interpreter goes in one of the two ways of `Refreshed`. -/
theorem refresh_cases (c : Cache) (query : Query) (s : Settings) :
    Refreshed c query s (c.refresh query s) := by
  unfold refresh
  dsimp only
  cases hquery : query (Command.listBackends s) with
  | error reason => exact .failed hquery
  | ok output => exact .printed hquery

/-- A list that is known is given out as it is, and no query is run for it. -/
theorem load_of_listed {c : Cache} {known : List Text} (h : c.listed = some known)
    (query : Query) (s : Settings) : c.load query s = ⟨.ok known, c, none, []⟩ := by
  unfold load
  rw [h]

/-- A list that is not known is asked for. -/
theorem load_of_not_listed {c : Cache} (h : c.listed = none) (query : Query)
    (s : Settings) : c.load query s = c.refresh query s := by
  unfold load
  rw [h]

/-- A refresh runs its query once, whatever is known. -/
theorem deeds_refresh (c : Cache) (query : Query) (s : Settings) :
    (c.refresh query s).deeds query = [.queried (query (Command.listBackends s))] := by
  have hrefresh := c.refresh_cases query s
  generalize c.refresh query s = a at hrefresh ⊢
  cases hrefresh <;> rfl

/-- The answer of a refresh fits the cache that it was made for. -/
theorem fits_refresh (c : Cache) (query : Query) (s : Settings) :
    (c.refresh query s).Fits c query s := by
  have hrefresh := c.refresh_cases query s
  generalize c.refresh query s = a at hrefresh ⊢
  cases hrefresh with
  | failed hquery =>
      refine ⟨fun failure => ?_, fun _ _ => rfl, nofun⟩
      simp [Answer.deeds, hquery, eq_comm]
  | printed hquery =>
      refine ⟨fun failure => ?_, fun reason hfailed => ?_, fun list h => ?_⟩
      · simp [Answer.deeds, hquery]
      · simp [Answer.deeds, hquery] at hfailed
      · cases h
        rfl

/-- A load runs its query once if no list is known, and runs none otherwise. -/
theorem deeds_load (c : Cache) (query : Query) (s : Settings) :
    (c.load query s).deeds query
      = if c.isLoaded then [] else [.queried (query (Command.listBackends s))] := by
  unfold isLoaded
  cases h : c.listed with
  | none =>
      rw [load_of_not_listed h]
      exact c.deeds_refresh query s
  | some known =>
      rw [load_of_listed h]
      rfl

theorem fits_load (c : Cache) (query : Query) (s : Settings) :
    (c.load query s).Fits c query s := by
  cases h : c.listed with
  | none =>
      rw [load_of_not_listed h]
      exact c.fits_refresh query s
  | some known =>
      rw [load_of_listed h]
      refine ⟨fun failure => ?_, fun _ _ => rfl, fun list hlist => ?_⟩
      · simp [Answer.deeds]
      · cases hlist
        exact h

-- ========================================================= operations

/-- What can be done with the list of backends. -/
inductive Operation where
  | refresh (query : Query) (s : Settings)
  | load (query : Query) (s : Settings)
  | lists (name : Text)
  | forget

/-- The cache after an operation. -/
def perform (c : Cache) : Operation → Cache
  | .refresh query s => (c.refresh query s).cache
  | .load query s => (c.load query s).cache
  | .lists _ => c
  | .forget => c.forget.value

/-- What an operation does for the list, or to it. -/
def deeds (c : Cache) : Operation → List Deed
  | .refresh query s => (c.refresh query s).deeds query
  | .load query s => (c.load query s).deeds query
  | .lists _ => []
  | .forget => [.forgot]

/-- How the list fares when the deeds of an operation are done. -/
inductive Fares (c : Cache) : List Deed → Cache → Prop
  | idle : Fares c [] c
  | failed (reason : Text) : Fares c [.queried (.error reason)] c
  | printed (output : Text) :
      Fares c [.queried (.ok output)] ⟨some (names output)⟩
  | forgot : Fares c [.forgot] {}

theorem fares_refresh (c : Cache) (query : Query) (s : Settings) :
    c.Fares ((c.refresh query s).deeds query) (c.refresh query s).cache := by
  rw [deeds_refresh]
  have hrefresh := c.refresh_cases query s
  generalize c.refresh query s = a at hrefresh ⊢
  cases hrefresh with
  | failed hquery =>
      rw [hquery]
      exact .failed _
  | printed hquery =>
      rw [hquery]
      exact .printed _

/-- Each operation has one deed at most, and leaves the list as that deed does. -/
theorem perform_cases (c : Cache) (op : Operation) :
    c.Fares (c.deeds op) (c.perform op) := by
  cases op with
  | refresh query s => exact c.fares_refresh query s
  | load query s =>
      show c.Fares ((c.load query s).deeds query) (c.load query s).cache
      cases h : c.listed with
      | none =>
          rw [load_of_not_listed h]
          exact c.fares_refresh query s
      | some known =>
          rw [load_of_listed h]
          exact .idle
  | lists name => exact .idle
  | forget => exact .forgot

-- ========================================================= whole runs

/-- The cache that a run of operations leads to from an empty one. -/
def after (run : List Operation) : Cache := run.foldl perform {}

/-- The deeds of a run that begins with a given cache. -/
def historyFrom (c : Cache) : List Operation → List Deed
  | [] => []
  | op :: run => c.deeds op ++ historyFrom (c.perform op) run

/-- The deeds of a run that begins with an empty cache. -/
def history (run : List Operation) : List Deed := historyFrom {} run

theorem after_concat (run : List Operation) (op : Operation) :
    after (run ++ [op]) = (after run).perform op := by
  unfold after
  rw [List.foldl_append]
  rfl

theorem historyFrom_concat (c : Cache) (run : List Operation) (op : Operation) :
    c.historyFrom (run ++ [op]) = c.historyFrom run ++ (run.foldl perform c).deeds op := by
  induction run generalizing c with
  | nil => exact List.append_nil _
  | cons first run ih =>
      show c.deeds first ++ (c.perform first).historyFrom (run ++ [op]) = _
      rw [ih, ← List.append_assoc]
      rfl

/-- One more operation adds its own deeds to the history, and nothing else. -/
theorem history_concat (run : List Operation) (op : Operation) :
    history (run ++ [op]) = history run ++ (after run).deeds op :=
  historyFrom_concat {} run op

/-- The list can be read off what was done for it. -/
theorem listed_after (run : List Operation) :
    (after run).listed = (Deed.lastOutput? (history run)).map names := by
  induction run using List.reverseRecOn with
  | nil => rfl
  | append_singleton run op ih =>
      rw [after_concat, history_concat]
      have hfares := (after run).perform_cases op
      generalize (after run).deeds op = deeds, (after run).perform op = c at hfares ⊢
      cases hfares with
      | idle => rw [List.append_nil, ih]
      | failed reason => rw [Deed.lastOutput?_error, ih]
      | printed output =>
          rw [Deed.lastOutput?_ok]
          rfl
      | forgot =>
          rw [Deed.lastOutput?_forgot]
          rfl

/-- A backend is known to be missing exactly if it is ruled out. -/
theorem lists?_after_iff (run : List Operation) (name : Text) :
    (after run).lists? name = some false ↔ Deed.RulesOut (history run) name := by
  unfold lists? Deed.RulesOut
  rw [listed_after, Option.map_map, Option.map_eq_some_iff]
  refine exists_congr fun output => ?_
  rw [Deed.lastOutput?_eq_some_iff]
  simp

/-- The cache is a function of its history, and the history grows by one query
for each refresh, and for each load of a list that is not known, however few
names a known list has. -/
theorem listed_by_history (run : List Operation) :
    (after run).listed = (Deed.lastOutput? (history run)).map names
    ∧ (∀ query s, history (run ++ [.refresh query s])
        = history run ++ [.queried (query (Command.listBackends s))])
    ∧ (∀ query s, history (run ++ [.load query s])
        = history run ++ if (after run).isLoaded then []
            else [.queried (query (Command.listBackends s))])
    ∧ (∀ name, history (run ++ [.lists name]) = history run)
    ∧ history (run ++ [.forget]) = history run ++ [.forgot]
    ∧ (∀ query s, ((after run).refresh query s).Fits (after run) query s)
    ∧ (∀ query s, ((after run).load query s).Fits (after run) query s) := by
  refine ⟨listed_after run, fun query s => ?_, fun query s => ?_, fun name => ?_, ?_,
    (after run).fits_refresh, (after run).fits_load⟩
  · rw [history_concat]
    exact congrArg _ ((after run).deeds_refresh query s)
  · rw [history_concat]
    exact congrArg _ ((after run).deeds_load query s)
  · rw [history_concat]
    exact List.append_nil _
  · exact history_concat run .forget

/-- An empty list is a list: it is not asked for again. -/
example (query : Query) (s s' : Settings) :
    history [.load (fun _ => .ok []) s, .load query s'] = [.queried (.ok [])] := rfl

end Cache

end CryptolEdit.Backend
