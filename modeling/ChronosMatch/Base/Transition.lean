import Mathlib.Data.List.Basic
import Mathlib.Data.List.Induction
import Mathlib.Order.Bounds.Basic
import Mathlib.Order.MinMax
import Mathlib.Tactic.Common

/-!
# Partial transition systems

A step takes an action and a state and is `none` where the action is not enabled. The rules carry
a property along a run: an invariant, an invariant under a condition that every step of the run meets,
and the equivalence of such a condition with a property of the states or of the steps of the run.
-/

namespace Transition

variable {α σ : Type*} {step : α → σ → Option σ}

/-- Perform the actions in order. -/
def run (step : α → σ → Option σ) : List α → σ → Option σ
  | [], s => some s
  | a :: as, s => (step a s).bind (run step as)

theorem run_cons {a : α} {as : List α} {s s' : σ} (h : run step (a :: as) s = some s') :
    ∃ t, step a s = some t ∧ run step as t = some s' :=
  Option.bind_eq_some_iff.mp h

theorem run_append (as bs : List α) (s : σ) :
    run step (as ++ bs) s = (run step as s).bind (run step bs) := by
  induction as generalizing s with
  | nil => rfl
  | cons a as ih =>
      rw [List.cons_append, run, run]
      cases step a s with
      | none => rfl
      | some t => exact ih t

theorem run_concat {as : List α} {a : α} {s s' : σ} :
    run step (as ++ [a]) s = some s' ↔ ∃ t, run step as s = some t ∧ step a t = some s' := by
  rw [run_append, Option.bind_eq_some_iff]
  simp only [run, Option.bind_eq_some_iff, Option.some_inj, exists_eq_right]

theorem exists_run_of_total (htotal : ∀ a s, ∃ t, step a s = some t) (as : List α) (s : σ) :
    ∃ s', run step as s = some s' := by
  induction as generalizing s with
  | nil => exact ⟨s, rfl⟩
  | cons a as ih =>
      obtain ⟨t, hstep⟩ := htotal a s
      obtain ⟨s', hrest⟩ := ih t
      refine ⟨s', ?_⟩
      rw [run, hstep]
      exact hrest

/-- Where every state short of the goal has an allowed step that keeps the invariant, and gets to the goal or
lowers a measure, some run gets to the goal. -/
theorem exists_run_of_measure {Inv goal : σ → Prop} {allowed : α → Prop} {measure : σ → Nat}
    (hstep : ∀ s, Inv s → goal s ∨ ∃ a t, allowed a ∧ step a s = some t ∧ Inv t ∧ (goal t ∨ measure t < measure s))
    {s : σ} (hinit : Inv s) : ∃ as s', (∀ a ∈ as, allowed a) ∧ run step as s = some s' ∧ Inv s' ∧ goal s' := by
  induction hm : measure s using Nat.strong_induction_on generalizing s with
  | _ m ih =>
      obtain hgoal | ⟨a, t, ha, hst, hinv, hgoal | hless⟩ := hstep s hinit
      · exact ⟨[], s, by simp, rfl, hinit, hgoal⟩
      · refine ⟨[a], t, by simpa using ha, ?_, hinv, hgoal⟩
        rw [run, hst]
        rfl
      · obtain ⟨as, s', has, hrun, hinv', hgoal⟩ := ih (measure t) (hm ▸ hless) hinv rfl
        refine ⟨a :: as, s', ?_, ?_, hinv', hgoal⟩
        · intro b hb
          rcases List.mem_cons.mp hb with rfl | hb
          · exact ha
          · exact has b hb
        · rw [run, hst]
          exact hrun

/-- Where the steps that count lower a measure, and any other raises it by the price of the costly ones at most,
a run has no more steps that count than the measure and its costly steps pay for. -/
theorem countP_le_of_measure {Inv : σ → Prop} {measure : σ → Nat} {counts costly : α → Bool} {price : Nat}
    (hstep : ∀ {a s t}, step a s = some t → Inv s →
      Inv t ∧ measure t + (if counts a then 1 else 0) ≤ measure s + price * (if costly a then 1 else 0)) {as : List α}
    {s s' : σ} (hrun : run step as s = some s') (hinit : Inv s) :
    as.countP counts + measure s' ≤ measure s + price * as.countP costly := by
  induction as generalizing s with
  | nil =>
      cases hrun
      simp
  | cons a as ih =>
      obtain ⟨t, hfirst, hrest⟩ := run_cons hrun
      obtain ⟨hinv, hmeasure⟩ := hstep hfirst hinit
      have hafter := ih hrest hinv
      rw [List.countP_cons, List.countP_cons, Nat.mul_add]
      omega

/-- Two systems that take alike the steps of every command take alike the runs. -/
theorem run_map {β γ τ : Type*} {step' : β → τ → Option τ} {action : γ → α} {action' : γ → β} {state : σ → τ}
    (h : ∀ c s, step' (action' c) (state s) = (step (action c) s).map state) (cs : List γ) (s : σ) :
    run step' (cs.map action') (state s) = (run step (cs.map action) s).map state := by
  induction cs generalizing s with
  | nil => rfl
  | cons c cs ih =>
      rw [List.map_cons, List.map_cons, run, run, h]
      cases step (action c) s with
      | none => rfl
      | some t => exact ih t

/-- What every step preserves, every run preserves. -/
theorem invariant {Inv : σ → Prop} (hstep : ∀ {a s s'}, step a s = some s' → Inv s → Inv s') {as : List α}
    {s s' : σ} (hrun : run step as s = some s') (hinit : Inv s) : Inv s' := by
  induction as generalizing s with
  | nil =>
      cases hrun
      exact hinit
  | cons a as ih =>
      obtain ⟨t, hstep', hrest⟩ := run_cons hrun
      exact ih hrest (hstep hstep' hinit)

/-- Every action of a run is taken in a state where the condition holds of it. -/
def Throughout (step : α → σ → Option σ) (condition : α → σ → Prop) (as : List α) (s : σ) : Prop :=
  ∀ before a after t, as = before ++ a :: after → run step before s = some t → condition a t

theorem Throughout.nil {condition : α → σ → Prop} {s : σ} : Throughout step condition [] s := by
  intro before a after t hsplit
  cases before <;> cases hsplit

theorem Throughout.cons {condition : α → σ → Prop} {a : α} {as : List α} {s : σ} (hhead : condition a s)
    (htail : ∀ t, step a s = some t → Throughout step condition as t) : Throughout step condition (a :: as) s := by
  intro before b after u hsplit hrun
  cases before with
  | nil =>
      cases hsplit
      cases hrun
      exact hhead
  | cons c before =>
      cases hsplit
      obtain ⟨t, hstep, hrest⟩ := run_cons hrun
      exact htail t hstep before b after u rfl hrest

theorem Throughout.head {condition : α → σ → Prop} {a : α} {as : List α} {s : σ}
    (h : Throughout step condition (a :: as) s) : condition a s :=
  h [] a as s rfl rfl

theorem Throughout.tail {condition : α → σ → Prop} {a : α} {as : List α} {s t : σ}
    (h : Throughout step condition (a :: as) s) (hstep : step a s = some t) : Throughout step condition as t := by
  intro before b after u hsplit hrun
  apply h (a :: before) b after u (by rw [hsplit]; rfl)
  rw [run, hstep]
  exact hrun

theorem throughout_cons_iff {condition : α → σ → Prop} {a : α} {as : List α} {s : σ} :
    Throughout step condition (a :: as) s ↔
      condition a s ∧ ∀ t ∈ step a s, Throughout step condition as t :=
  ⟨fun h => ⟨h.head, fun _ hstep => h.tail hstep⟩, fun h => .cons h.1 h.2⟩

instance Throughout.decidable {condition : α → σ → Prop} [∀ a s, Decidable (condition a s)] :
    ∀ as s, Decidable (Throughout step condition as s)
  | [], _ => .isTrue .nil
  | a :: as, s =>
      have : DecidablePred (Throughout step condition as) := Throughout.decidable as
      decidable_of_iff (condition a s ∧ ∀ t ∈ step a s, Throughout step condition as t) throughout_cons_iff.symm

theorem Throughout.of_forall {condition : α → Prop} {as : List α} (h : ∀ a ∈ as, condition a) (s : σ) :
    Throughout step (fun a _ => condition a) as s := by
  intro before a after t hsplit _
  exact h a (by rw [hsplit]; exact List.mem_append_right _ List.mem_cons_self)

/-- What every step preserves that meets the condition, every run preserves whose steps meet it. -/
theorem invariant_throughout {Inv : σ → Prop} {condition : α → σ → Prop}
    (hstep : ∀ {a s s'}, condition a s → step a s = some s' → Inv s → Inv s') {as : List α} {s s' : σ}
    (hrun : run step as s = some s') (hcondition : Throughout step condition as s) (hinit : Inv s) : Inv s' := by
  induction as generalizing s with
  | nil =>
      cases hrun
      exact hinit
  | cons a as ih =>
      obtain ⟨t, hstep', hrest⟩ := run_cons hrun
      exact ih hrest (hcondition.tail hstep') (hstep hcondition.head hstep' hinit)

/-- Where the condition on a step keeps the invariant, and under the invariant says the same as the property,
the two say the same of a run. -/
theorem throughout_iff {Inv : σ → Prop} {property condition : α → σ → Prop}
    (hstep : ∀ {a s s'}, condition a s → step a s = some s' → Inv s → Inv s')
    (hiff : ∀ {a s s'}, Inv s → step a s = some s' → (property a s ↔ condition a s)) {as : List α} {s s' : σ}
    (hrun : run step as s = some s') (hinit : Inv s) :
    Throughout step property as s ↔ Throughout step condition as s := by
  induction as generalizing s with
  | nil => exact ⟨fun _ => .nil, fun _ => .nil⟩
  | cons a as ih =>
      obtain ⟨t, hstep', hrest⟩ := run_cons hrun
      have htail : ∀ {P : α → σ → Prop}, (∀ u ∈ step a s, Throughout step P as u) ↔ Throughout step P as t := by
        intro P
        simp only [hstep', Option.mem_def, Option.some_inj, forall_eq']
      rw [throughout_cons_iff, throughout_cons_iff, htail, htail, hiff hinit hstep']
      exact and_congr_right fun hcondition => ih hrest (hstep hcondition hstep' hinit)

/-- Every state of a run has the property. -/
def Always (step : α → σ → Option σ) (property : σ → Prop) (as : List α) (s : σ) : Prop :=
  ∀ before after t, as = before ++ after → run step before s = some t → property t

theorem Always.head {property : σ → Prop} {as : List α} {s : σ} (h : Always step property as s) : property s :=
  h [] as s rfl rfl

theorem Always.tail {property : σ → Prop} {a : α} {as : List α} {s t : σ}
    (h : Always step property (a :: as) s) (hstep : step a s = some t) : Always step property as t := by
  intro before after u hsplit hrun
  apply h (a :: before) after u (by rw [hsplit]; rfl)
  rw [run, hstep]
  exact hrun

theorem Always.of_throughout {Inv property : σ → Prop} {condition : α → σ → Prop}
    (hstep : ∀ {a s s'}, condition a s → step a s = some s' → Inv s → Inv s')
    (hproperty : ∀ {s}, Inv s → property s) {as : List α} {s : σ} (hcondition : Throughout step condition as s)
    (hinit : Inv s) : Always step property as s := by
  intro before after t hsplit hrun
  refine hproperty (invariant_throughout hstep hrun ?_ hinit)
  intro first a rest u hsplit' hrun'
  exact hcondition first a (rest ++ after) u (by rw [hsplit, hsplit']; simp) hrun'

/-- Where a condition on its steps keeps the invariant, and a step that keeps the property meets the
condition, a run has the property throughout if and only if its steps meet the condition. -/
theorem always_iff_throughout {Inv property : σ → Prop} {condition : α → σ → Prop}
    (hstep : ∀ {a s s'}, condition a s → step a s = some s' → Inv s → Inv s')
    (hproperty : ∀ {s}, Inv s → property s)
    (hnecessary : ∀ {a s s'}, Inv s → step a s = some s' → property s' → condition a s) {as : List α} {s s' : σ}
    (hrun : run step as s = some s') (hinit : Inv s) :
    Always step property as s ↔ Throughout step condition as s := by
  refine ⟨fun halways => ?_, fun hcondition => Always.of_throughout hstep hproperty hcondition hinit⟩
  induction as generalizing s with
  | nil => exact .nil
  | cons a as ih =>
      obtain ⟨t, hstep', hrest⟩ := run_cons hrun
      have hhead := hnecessary hinit hstep' (halways.tail hstep').head
      refine .cons hhead ?_
      intro u hu
      rw [hstep'] at hu
      cases hu
      exact ih hrest (hstep hhead hstep' hinit) (halways.tail hstep')

/-! ### The states of a run -/

/-- The states that a run passes through, its ends included. -/
def Visits (step : α → σ → Option σ) (as : List α) (s t : σ) : Prop :=
  ∃ before after, as = before ++ after ∧ run step before s = some t

theorem Visits.last {as : List α} {s s' : σ} (hrun : run step as s = some s') : Visits step as s s' :=
  ⟨as, [], (List.append_nil as).symm, hrun⟩

theorem visits_concat {as : List α} {a : α} {s t s' : σ} (hrun : run step (as ++ [a]) s = some s') :
    Visits step (as ++ [a]) s t ↔ Visits step as s t ∨ t = s' := by
  constructor
  · rintro ⟨before, after, hsplit, hbefore⟩
    rcases List.eq_nil_or_concat' after with rfl | ⟨after, b, rfl⟩
    · rw [List.append_nil] at hsplit
      rw [← hsplit, hrun] at hbefore
      cases hbefore
      exact .inr rfl
    · rw [← List.append_assoc] at hsplit
      exact .inl ⟨before, after, (List.append_inj' hsplit rfl).1, hbefore⟩
  · rintro (⟨before, after, rfl, hbefore⟩ | rfl)
    · exact ⟨before, after ++ [a], List.append_assoc _ _ _, hbefore⟩
    · exact .last hrun

/-- A mark that every step raises to the measure of its state is the greatest measure of the run. -/
theorem isGreatest_mark {β : Type*} [LinearOrder β] {Inv : σ → Prop} {measure mark : σ → β}
    (hstep : ∀ {a s s'}, step a s = some s' → Inv s → Inv s' ∧ mark s' = max (mark s) (measure s')) {as : List α}
    {s s' : σ} (hrun : run step as s = some s') (hinit : Inv s) (hmark : mark s = measure s) :
    IsGreatest (Set.image measure {t | Visits step as s t}) (mark s') := by
  induction as using List.reverseRecOn generalizing s' with
  | nil =>
      cases hrun
      refine ⟨⟨s, .last rfl, hmark.symm⟩, ?_⟩
      rintro _ ⟨t, ⟨before, after, hsplit, hbefore⟩, rfl⟩
      obtain ⟨rfl, rfl⟩ := List.append_eq_nil_iff.mp hsplit.symm
      cases hbefore
      exact hmark.ge
  | append_singleton as a ih =>
      obtain ⟨t, hrest, hlast⟩ := run_concat.mp hrun
      obtain ⟨⟨u, hu, hbest⟩, hbound⟩ := ih hrest
      have hkeeps : ∀ {a s s'}, step a s = some s' → Inv s → Inv s' := fun hstep' h => (hstep hstep' h).1
      have hinv : Inv t := invariant hkeeps hrest hinit
      obtain ⟨-, hraised⟩ := hstep hlast hinv
      rw [hraised]
      constructor
      · rcases max_choice (mark t) (measure s') with hmax | hmax
        · exact ⟨u, (visits_concat hrun).mpr (.inl hu), hbest.trans hmax.symm⟩
        · exact ⟨s', .last hrun, hmax.symm⟩
      · rintro _ ⟨v, hv, rfl⟩
        rcases (visits_concat hrun).mp hv with hearlier | rfl
        · exact (hbound ⟨v, hearlier, rfl⟩).trans (le_max_left _ _)
        · exact le_max_right _ _

end Transition
