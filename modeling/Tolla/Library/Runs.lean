import Mathlib.Data.List.Induction
import Mathlib.Tactic.Common

/-!
# Runs

A run feeds a list of inputs to a step function.  `Along ok` says that every
input of a run meets a condition in the state in which it arrives, and
`exec_along` is the rule for invariants: what every such step preserves, the
whole run preserves.  A run that does not meet the condition has a first input
that breaks it (`exists_of_not_along`).
-/

namespace Runs

variable {ι σ : Type*} {step : ι → σ → σ}

/-- The state after a list of inputs. -/
def exec (step : ι → σ → σ) : List ι → σ → σ
  | [], state => state
  | input :: rest, state => exec step rest (step input state)

theorem exec_append (first second : List ι) (state : σ) :
    exec step (first ++ second) state = exec step second (exec step first state) := by
  induction first generalizing state with
  | nil => rfl
  | cons input rest ih => exact ih (step input state)

/-- Every input meets `ok` in the state in which it arrives. -/
def Along (step : ι → σ → σ) (ok : σ → ι → Prop) : List ι → σ → Prop
  | [], _ => True
  | input :: rest, state => ok state input ∧ Along step ok rest (step input state)

variable {ok : σ → ι → Prop}

/-- What every step preserves, a run preserves. -/
theorem exec_along {P : σ → Prop}
    (hstep : ∀ state input, ok state input → P state → P (step input state)) :
    ∀ {inputs : List ι} {state : σ}, Along step ok inputs state → P state →
      P (exec step inputs state) := by
  intro inputs
  induction inputs with
  | nil => exact fun _ hstate => hstate
  | cons input rest ih =>
      intro state halong hstate
      exact ih halong.2 (hstep state input halong.1 hstate)

/-- An invariant that speaks of the inputs so far: what every next step preserves
holds after every run. -/
theorem exec_history {P : List ι → σ → Prop} {state : σ} (hstart : P [] state)
    (hstep : ∀ inputs input, P inputs (exec step inputs state) →
      P (inputs ++ [input]) (step input (exec step inputs state))) (inputs : List ι) :
    P inputs (exec step inputs state) := by
  induction inputs using List.reverseRecOn with
  | nil => exact hstart
  | append_singleton inputs input ih =>
      rw [exec_append]
      exact hstep inputs input ih

/-- A condition on the inputs alone holds along every run of such inputs. -/
theorem along_of_forall {inputs : List ι} {state : σ}
    (hok : ∀ input ∈ inputs, ∀ state, ok state input) : Along step ok inputs state := by
  induction inputs generalizing state with
  | nil => trivial
  | cons input rest ih =>
      exact ⟨hok input List.mem_cons_self state,
        ih fun other hother => hok other (List.mem_cons_of_mem input hother)⟩

theorem forall_of_along {Q : ι → Prop} (hok : ∀ state input, ok state input → Q input) :
    ∀ {inputs : List ι} {state : σ}, Along step ok inputs state → ∀ input ∈ inputs, Q input := by
  intro inputs
  induction inputs with
  | nil => simp
  | cons input rest ih =>
      intro state halong
      exact List.forall_mem_cons.mpr ⟨hok state input halong.1, ih halong.2⟩

/-- Two conditions that agree wherever a third holds, hold along the same of its runs. -/
theorem along_congr {base ok' : σ → ι → Prop}
    (hsame : ∀ state input, base state input → (ok state input ↔ ok' state input)) :
    ∀ {inputs : List ι} {state : σ}, Along step base inputs state →
      (Along step ok inputs state ↔ Along step ok' inputs state) := by
  intro inputs
  induction inputs with
  | nil => exact fun _ => Iff.rfl
  | cons input rest ih =>
      intro state hbase
      exact and_congr (hsame state input hbase.1) (ih hbase.2)

theorem along_append {first second : List ι} {state : σ} :
    Along step ok (first ++ second) state ↔
      Along step ok first state ∧ Along step ok second (exec step first state) := by
  induction first generalizing state with
  | nil => simp [Along, exec]
  | cons input rest ih => simp [Along, exec, ih, and_assoc]

/-- An invariant that speaks of the inputs so far, in a run that meets a condition. -/
theorem exec_history_along {P : List ι → σ → Prop} {state : σ} (hstart : P [] state)
    (hstep : ∀ inputs input, ok (exec step inputs state) input →
      P inputs (exec step inputs state) →
      P (inputs ++ [input]) (step input (exec step inputs state))) {inputs : List ι}
    (halong : Along step ok inputs state) : P inputs (exec step inputs state) := by
  refine exec_history (P := fun inputs current => Along step ok inputs state → P inputs current)
    (fun _ => hstart) ?_ inputs halong
  intro inputs input ih halong
  obtain ⟨hinputs, hinput, -⟩ := along_append.mp halong
  exact hstep inputs input hinput (ih hinputs)

/-- Steps that make a measure smaller come to an end. -/
theorem length_le_of_along {measure : σ → Nat}
    (hless : ∀ state input, ok state input → measure (step input state) < measure state) :
    ∀ {inputs : List ι} {state : σ}, Along step ok inputs state →
      inputs.length ≤ measure state := by
  intro inputs
  induction inputs with
  | nil => exact fun _ => Nat.zero_le _
  | cons input rest ih =>
      intro state halong
      have hrest := ih halong.2
      have hfirst := hless state input halong.1
      simp only [List.length_cons]
      omega

/-- There is a run of such steps after which none can be taken. -/
theorem exists_maximal {measure : σ → Nat}
    (hless : ∀ state input, ok state input → measure (step input state) < measure state)
    (state : σ) :
    ∃ inputs, Along step ok inputs state ∧ ∀ input, ¬ ok (exec step inputs state) input := by
  induction hmeasure : measure state using Nat.strongRecOn generalizing state with
  | ind bound ih =>
      by_cases hnone : ∀ input, ¬ ok state input
      · exact ⟨[], trivial, hnone⟩
      · obtain ⟨input, hinput⟩ := not_forall_not.mp hnone
        obtain ⟨rest, halong, hrest⟩ :=
          ih _ (hmeasure ▸ hless state input hinput) (step input state) rfl
        exact ⟨input :: rest, ⟨hinput, halong⟩, hrest⟩

theorem exists_of_not_along {inputs : List ι} {state : σ} (hnot : ¬ Along step ok inputs state) :
    ∃ first input second, inputs = first ++ input :: second ∧
      ¬ ok (exec step first state) input := by
  induction inputs generalizing state with
  | nil => exact absurd trivial hnot
  | cons input rest ih =>
      by_cases hok : ok state input
      · have hrest : ¬ Along step ok rest (step input state) := fun hrest => hnot ⟨hok, hrest⟩
        obtain ⟨first, other, second, rfl, hother⟩ := ih hrest
        exact ⟨input :: first, other, second, rfl, hother⟩
      · exact ⟨[], input, rest, rfl, hok⟩

end Runs
