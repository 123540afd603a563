import ChronosMatch.Engine.Submission

/-!
# Runs of the compiled engine

A run is a list of calls, whatever they return. What reaches the matcher in a run is its list of
submissions, one for every order that passed validation; the batches dissolve into them. An invariant is
proved once for a submission and carried over the run by `Trace.invariant`.
-/

namespace ChronosMatch

namespace MatchingEngine

inductive Call
  | addOrder (grow : Growth) (args : OrderArgs)
  | addOrdersBatch (grow : Growth) (orders : List BatchItem)

/-- An order that reached the matcher, with what became of it. -/
abbrev Submission := COrder × Except PyError Unit

def Call.perform : Call → MatchingEngine → Except PyError Nat × MatchingEngine
  | addOrder grow args, e => e.addOrder grow args
  | addOrdersBatch grow orders, e => e.addOrdersBatch grow orders

def batchSubmissions (grow : Growth) : List BatchItem → MatchingEngine → List Submission
  | [], _ => []
  | item :: items, e =>
      match parseItem item with
      | .error _ => []
      | .ok order =>
          match submit grow order e with
          | (.error err, _) => [(order, .error err)]
          | (.ok (), e) => (order, .ok ()) :: batchSubmissions grow items e

def Call.submissions : Call → MatchingEngine → List Submission
  | addOrder grow args, e =>
      match parseOrder args with
      | .error _ => []
      | .ok order => [(order, (submit grow order e).1)]
  | addOrdersBatch grow orders, e => batchSubmissions grow orders e

/-- The engine after a list of calls. -/
def run : List Call → MatchingEngine → MatchingEngine
  | [], e => e
  | call :: calls, e => run calls (call.perform e).2

/-- What the calls return. -/
def results : List Call → MatchingEngine → List (Except PyError Nat)
  | [], _ => []
  | call :: calls, e => (call.perform e).1 :: results calls (call.perform e).2

theorem results_append (calls calls' : List Call) (e : MatchingEngine) :
    results (calls ++ calls') e = results calls e ++ results calls' (run calls e) := by
  induction calls generalizing e with
  | nil => rfl
  | cons call calls ih => rw [List.cons_append, results, results, run, ih, List.cons_append]

/-- The submissions of a list of calls. -/
def submissions : List Call → MatchingEngine → List Submission
  | [], _ => []
  | call :: calls, e => call.submissions e ++ submissions calls (call.perform e).2

/-- The orders that were accepted, in order of arrival. -/
def accepted (log : List Submission) : List COrder :=
  log.filterMap fun submission => if submission.2 = .ok () then some submission.1 else none

@[simp] theorem accepted_nil : accepted [] = [] := rfl

@[simp] theorem accepted_cons_ok (order : COrder) (log : List Submission) :
    accepted ((order, .ok ()) :: log) = order :: accepted log := by
  simp [accepted]

@[simp] theorem accepted_cons_error (order : COrder) (err : PyError) (log : List Submission) :
    accepted ((order, .error err) :: log) = accepted log := by
  simp [accepted]

theorem accepted_append (log log' : List Submission) : accepted (log ++ log') = accepted log ++ accepted log' :=
  List.filterMap_append

/-- Did a call break off for want of memory? -/
def brokeOff {α : Type} : Except PyError α → Bool
  | .error err => err.isMemoryError
  | .ok _ => false

/-- No submission broke off for want of memory. -/
def Undisturbed (log : List Submission) : Prop := ∀ submission ∈ log, brokeOff submission.2 = false

instance (log : List Submission) : Decidable (Undisturbed log) :=
  inferInstanceAs (Decidable (∀ submission ∈ log, brokeOff submission.2 = false))

/-! ### Traces -/

/-- A chain of submissions, each with its effect. -/
inductive Trace : MatchingEngine → List Submission → MatchingEngine → Prop
  | nil (e : MatchingEngine) : Trace e [] e
  | cons {e e' e'' : MatchingEngine} {order : COrder} {result : Except PyError Unit} {log : List Submission}
      (head : SubmitEffect order e result e') (tail : Trace e' log e'') : Trace e ((order, result) :: log) e''

theorem Trace.append {e e' e'' : MatchingEngine} {log log' : List Submission} (h : Trace e log e')
    (h' : Trace e' log' e'') : Trace e (log ++ log') e'' := by
  induction h with
  | nil => exact h'
  | cons head _ ih => exact .cons head (ih h')

/-- A property of the accepted orders and the engine that every submission preserves holds of the
whole trace. -/
theorem Trace.invariant {e e' : MatchingEngine} {log : List Submission} (h : Trace e log e')
    (Inv : List COrder → MatchingEngine → Prop)
    (hstep : ∀ {history order e result e'}, (order, result) ∈ log → SubmitEffect order e result e' →
      Inv history e → Inv (history ++ accepted [(order, result)]) e')
    (history : List COrder) (hinit : Inv history e) : Inv (history ++ accepted log) e' := by
  induction h generalizing history with
  | nil => simpa using hinit
  | @cons e e' e'' order result log head tail ih =>
      have hnext := ih (fun hmem => hstep (List.mem_cons_of_mem _ hmem)) _ (hstep List.mem_cons_self head hinit)
      rwa [List.append_assoc, ← accepted_append] at hnext

theorem batch_trace (grow : Growth) (items : List BatchItem) (processed : Nat) (e : MatchingEngine) :
    Trace e (batchSubmissions grow items e) (batchLoop grow items processed e).2 := by
  induction items generalizing processed e with
  | nil => exact .nil e
  | cons item items ih =>
      rw [batchSubmissions, batchLoop]
      cases parseItem item with
      | error err => exact .nil e
      | ok order =>
          dsimp only
          rcases hsubmit : submit grow order e with ⟨result, e'⟩
          have heffect := submit_effect hsubmit
          cases result with
          | error err => exact .cons heffect (.nil e')
          | ok _ => exact .cons heffect (ih _ e')

theorem Call.perform_trace (call : Call) (e : MatchingEngine) :
    Trace e (call.submissions e) (call.perform e).2 := by
  cases call with
  | addOrder grow args =>
      simp only [submissions, perform, MatchingEngine.addOrder]
      cases parseOrder args with
      | error err => exact .nil e
      | ok order =>
          dsimp only
          rcases hsubmit : submit grow order e with ⟨result, e'⟩
          have heffect := submit_effect hsubmit
          cases result with
          | error err => exact .cons heffect (.nil e')
          | ok _ => exact .cons heffect (.nil e')
  | addOrdersBatch grow orders => exact batch_trace grow orders 0 e

theorem run_trace (calls : List Call) (e : MatchingEngine) : Trace e (submissions calls e) (run calls e) := by
  induction calls generalizing e with
  | nil => exact .nil e
  | cons call calls ih => exact (call.perform_trace e).append (ih _)

end MatchingEngine

end ChronosMatch
