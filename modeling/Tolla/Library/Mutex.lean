import Mathlib.Data.List.Nodup
import Mathlib.Logic.Function.Basic
import Mathlib.Tactic.Common
import Tolla.Library.Runs

/-!
# Operations behind a lock

Any number of operations on one object, each of which waits for a lock, does its work while
it holds the lock, and returns a result.  The work is done in steps, and each step sees the
object as it is at that instant: nothing but the lock keeps the steps of two operations
apart.  Some operations do not need the object for their result; they go past the lock.

The object is linearizable.  `order` records the operations at the instants at which they
leave the lock or go past it, and nobody reads it.  What is left of an operation that has the
lock comes to the same as the whole of it on the object that the operations of the order left
behind (`Serial.busy`): while it works, nobody else does.  So the results are as if the
operations had been performed one after the other in this order, and so is the object
whenever the lock is free; an operation that was answered before another was invoked comes
before it (`before_of_result`).
-/

namespace Mutex

variable {κ ι σ τ ρ ρ' : Type*}

/-- Work on an object: every step changes it, and goes on with what it saw. -/
inductive Code (σ ρ : Type*) where
  | done (result : ρ)
  | step (change : σ → σ) (next : σ → Code σ ρ)

/-- The work without interruption. -/
def Code.run : Code σ ρ → σ → ρ × σ
  | .done result, state => (result, state)
  | .step change next, state => (next state).run (change state)

namespace Code

/-- Work that is done at once. -/
def once (act : σ → ρ × σ) : Code σ ρ :=
  .step (fun state => (act state).2) fun state => .done (act state).1

/-- Work after work. -/
def bind : Code σ ρ → (ρ → Code σ ρ') → Code σ ρ'
  | .done result, more => more result
  | .step change next, more => .step change fun state => (next state).bind more

/-- Work on a part of the object. -/
def within (get : τ → σ) (set : σ → τ → τ) : Code σ ρ → Code τ ρ
  | .done result => .done result
  | .step change next =>
      .step (fun whole => set (change (get whole)) whole)
        fun whole => (next (get whole)).within get set

theorem run_bind (code : Code σ ρ) (more : ρ → Code σ ρ') (state : σ) :
    (code.bind more).run state = (more (code.run state).1).run (code.run state).2 := by
  induction code generalizing state with
  | done result => rfl
  | step change next ih => exact ih state (change state)

/-- Nothing but the part is changed. -/
theorem run_within (get : τ → σ) (set : σ → τ → τ)
    (hget : ∀ part whole, get (set part whole) = part)
    (hset : ∀ part other whole, set part (set other whole) = set part whole)
    (hsame : ∀ whole, set (get whole) whole = whole) (code : Code σ ρ) (whole : τ) :
    (code.within get set).run whole =
      ((code.run (get whole)).1, set (code.run (get whole)).2 whole) := by
  induction code generalizing whole with
  | done result => exact Prod.ext rfl (hsame whole).symm
  | step change next ih =>
      calc ((step change next).within get set).run whole
        _ = ((next (get whole)).within get set).run (set (change (get whole)) whole) := rfl
        _ = (((next (get whole)).run (change (get whole))).1,
              set ((next (get whole)).run (change (get whole))).2 whole) := by
            rw [ih, hget, hset]

end Code

/-- An object, with the operations whose results do not depend on it. -/
structure Object (ι σ ρ : Type*) where
  code : ι → Code σ ρ
  aside : ι → Option ρ
  run_aside : ∀ input result, aside input = some result →
    ∀ state, (code input).run state = (result, state)

/-- A whole operation. -/
def Object.call (object : Object ι σ ρ) (input : ι) (state : σ) : ρ × σ :=
  (object.code input).run state

/-- Where an operation is. -/
inductive Stage (ι σ ρ : Type*) where
  | absent
  | waiting (input : ι)
  /-- It has the lock, and so much is left to do. -/
  | holding (input : ι) (code : Code σ ρ)
  | leaving (result : ρ)
  | answered (result : ρ)

/-- The result of an operation that is over. -/
def Stage.result : Stage ι σ ρ → Option ρ
  | .leaving result => some result
  | .answered result => some result
  | _ => none

instance [DecidableEq ρ] (stage : Stage ι σ ρ) (result : ρ) :
    Decidable (stage = .answered result) :=
  match stage with
  | .answered other => decidable_of_iff (other = result) (by simp)
  | .absent => isFalse (by simp)
  | .waiting _ => isFalse (by simp)
  | .holding _ _ => isFalse (by simp)
  | .leaving _ => isFalse (by simp)

/-- The operation has the lock. -/
def Stage.Holding (stage : Stage ι σ ρ) : Prop := ∃ input code, stage = .holding input code

/-- The object, the lock and the operations. -/
structure Shared (κ ι σ ρ : Type*) where
  state : σ
  holder : Option κ
  stage : κ → Stage ι σ ρ
  order : List (κ × ι)

def Shared.start (state : σ) : Shared κ ι σ ρ := ⟨state, none, fun _ => .absent, []⟩

/-- What an operation does next. -/
inductive Event (κ ι : Type*) where
  | invoke (op : κ) (input : ι)
  | acquire (op : κ)
  | work (op : κ)
  | release (op : κ)
  | bypass (op : κ)
  | respond (op : κ)

/-- The object after operations that are performed one after the other. -/
def performed (object : Object ι σ ρ) (order : List (κ × ι)) (state : σ) : σ :=
  Runs.exec (fun entry current => (object.call entry.2 current).2) order state

/-- What has happened is what would have happened one after the other. -/
structure Serial (object : Object ι σ ρ) (initial : σ) (shared : Shared κ ι σ ρ) : Prop where
  free : shared.holder = none → shared.state = performed object shared.order initial
  /-- The rest of the work ends as the whole would have ended. -/
  busy : ∀ op input code, shared.stage op = .holding input code →
    code.run shared.state = object.call input (performed object shared.order initial)
  result : ∀ op result, (shared.stage op).result = some result →
    ∃ before input later, shared.order = before ++ (op, input) :: later ∧
      (object.call input (performed object before initial)).1 = result
  effective : ∀ op input, (op, input) ∈ shared.order → (shared.stage op).result ≠ none
  nodup : (shared.order.map Prod.fst).Nodup
  holder : ∀ op, shared.holder = some op ↔ (shared.stage op).Holding

variable {object : Object ι σ ρ} {initial : σ} {shared : Shared κ ι σ ρ}

theorem Serial.start : Serial object initial (.start initial : Shared κ ι σ ρ) where
  free _ := rfl
  busy op input code hholding := by cases hholding
  result op result hresult := by cases hresult
  effective op input hmem := by cases hmem
  nodup := List.nodup_nil
  holder op := by simp [Shared.start, Stage.Holding]

/-- Two operations do not have the lock at the same time. -/
theorem Serial.exclusive (hserial : Serial object initial shared) {op other : κ}
    (hop : (shared.stage op).Holding) (hother : (shared.stage other).Holding) : other = op :=
  Option.some.inj (((hserial.holder other).mpr hother).symm.trans ((hserial.holder op).mpr hop))

theorem performed_concat (object : Object ι σ ρ) (order : List (κ × ι)) (op : κ) (input : ι)
    (initial : σ) :
    performed object (order ++ [(op, input)]) initial =
      (object.call input (performed object order initial)).2 :=
  Runs.exec_append _ _ _

/-! ## Entries of the order -/

/-- Of two entries of an order, one comes first. -/
theorem order_split {α : Type*} {before before' later later' : List α} {entry entry' : α}
    (horder : before ++ entry :: later = before' ++ entry' :: later') (hne : entry ≠ entry') :
    (∃ between, before' = before ++ entry :: between) ∨
      ∃ between, before = before' ++ entry' :: between := by
  rcases List.append_eq_append_iff.mp horder with ⟨rest, rfl, hrest⟩ | ⟨rest, rfl, hrest⟩
  · cases rest with
    | nil => exact absurd (List.cons.inj hrest).1 hne
    | cons other between =>
        obtain rfl := (List.cons.inj hrest).1
        exact .inl ⟨between, rfl⟩
  · cases rest with
    | nil => exact absurd (List.cons.inj hrest).1.symm hne
    | cons other between =>
        obtain rfl := (List.cons.inj hrest).1
        exact .inr ⟨between, rfl⟩

theorem order_unique {before before' later later' : List (κ × ι)} {op : κ} {input input' : ι}
    (hnodup : ((before ++ (op, input) :: later).map Prod.fst).Nodup)
    (horder : before ++ (op, input) :: later = before' ++ (op, input') :: later') :
    before = before' ∧ input = input' := by
  have htwice {front between back : List (κ × ι)} {one two : ι} :
      ¬ ((front ++ (op, one) :: (between ++ (op, two) :: back)).map Prod.fst).Nodup := by
    simp [List.nodup_append]
  rcases List.append_eq_append_iff.mp horder with ⟨rest, rfl, hrest⟩ | ⟨rest, rfl, hrest⟩
  · cases rest with
    | nil => exact ⟨(List.append_nil before).symm, (Prod.mk.inj (List.cons.inj hrest).1).2⟩
    | cons other between =>
        obtain ⟨-, rfl⟩ := List.cons.inj hrest
        exact absurd hnodup htwice
  · cases rest with
    | nil => exact ⟨List.append_nil before', (Prod.mk.inj (List.cons.inj hrest).1).2.symm⟩
    | cons other between =>
        obtain ⟨rfl, -⟩ := List.cons.inj hrest
        rw [List.append_assoc, List.cons_append] at hnodup
        exact absurd hnodup htwice

/-- What is returned is the result at the place in the order. -/
theorem Serial.result_at (hserial : Serial object initial shared) {op : κ} {result : ρ}
    (hresult : (shared.stage op).result = some result) {before later : List (κ × ι)} {input : ι}
    (horder : shared.order = before ++ (op, input) :: later) :
    (object.call input (performed object before initial)).1 = result := by
  obtain ⟨before', input', later', horder', hcall⟩ := hserial.result op result hresult
  obtain ⟨rfl, rfl⟩ := order_unique (horder ▸ hserial.nodup) (horder.symm.trans horder')
  exact hcall

/-! ## Steps -/

variable [DecidableEq κ]

def Shared.move (shared : Shared κ ι σ ρ) (op : κ) (stage : Stage ι σ ρ) : Shared κ ι σ ρ :=
  { shared with stage := Function.update shared.stage op stage }

/-- An operation is over. -/
def Shared.finish (shared : Shared κ ι σ ρ) (op : κ) (input : ι) (result : ρ) :
    Shared κ ι σ ρ :=
  { shared with order := shared.order ++ [(op, input)] }.move op (.leaving result)

/-- A step; one that cannot be taken has no effect.  Only `acquire` looks at the lock. -/
def step (object : Object ι σ ρ) (event : Event κ ι) (shared : Shared κ ι σ ρ) :
    Shared κ ι σ ρ :=
  match event with
  | .invoke op input =>
      match shared.stage op with
      | .absent => shared.move op (.waiting input)
      | _ => shared
  | .acquire op =>
      match shared.stage op, shared.holder with
      | .waiting input, none =>
          { shared with holder := some op }.move op (.holding input (object.code input))
      | _, _ => shared
  | .work op =>
      match shared.stage op with
      | .holding input (.step change next) =>
          { shared with state := change shared.state }.move op (.holding input (next shared.state))
      | _ => shared
  | .release op =>
      match shared.stage op with
      | .holding input (.done result) => { shared with holder := none }.finish op input result
      | _ => shared
  | .bypass op =>
      match shared.stage op with
      | .waiting input =>
          match object.aside input with
          | some result => shared.finish op input result
          | none => shared
      | _ => shared
  | .respond op =>
      match shared.stage op with
      | .leaving result => shared.move op (.answered result)
      | _ => shared

/-- What a step can do. -/
inductive Stepped (object : Object ι σ ρ) (shared : Shared κ ι σ ρ) :
    Event κ ι → Shared κ ι σ ρ → Prop
  | idle (event : Event κ ι) : Stepped object shared event shared
  | invoked {op : κ} {input : ι} (hstage : shared.stage op = .absent) :
      Stepped object shared (.invoke op input) (shared.move op (.waiting input))
  | acquired {op : κ} {input : ι} (hstage : shared.stage op = .waiting input)
      (hfree : shared.holder = none) :
      Stepped object shared (.acquire op)
        ({ shared with holder := some op }.move op (.holding input (object.code input)))
  | worked {op : κ} {input : ι} {change : σ → σ} {next : σ → Code σ ρ}
      (hstage : shared.stage op = .holding input (.step change next)) :
      Stepped object shared (.work op)
        ({ shared with state := change shared.state }.move op
          (.holding input (next shared.state)))
  | released {op : κ} {input : ι} {result : ρ}
      (hstage : shared.stage op = .holding input (.done result)) :
      Stepped object shared (.release op) ({ shared with holder := none }.finish op input result)
  | bypassed {op : κ} {input : ι} {result : ρ} (hstage : shared.stage op = .waiting input)
      (haside : object.aside input = some result) :
      Stepped object shared (.bypass op) (shared.finish op input result)
  | responded {op : κ} {result : ρ} (hstage : shared.stage op = .leaving result) :
      Stepped object shared (.respond op) (shared.move op (.answered result))

/-- It does nothing else. -/
theorem stepped_step (object : Object ι σ ρ) (event : Event κ ι) (shared : Shared κ ι σ ρ) :
    Stepped object shared event (step object event shared) := by
  cases event with
  | invoke op input =>
      simp only [step]
      cases hstage : shared.stage op with
      | absent => exact .invoked hstage
      | _ => exact .idle _
  | acquire op =>
      simp only [step]
      cases hstage : shared.stage op with
      | waiting input =>
          cases hholder : shared.holder with
          | none => exact .acquired hstage hholder
          | some other => exact .idle _
      | _ => exact .idle _
  | work op =>
      simp only [step]
      cases hstage : shared.stage op with
      | holding input code =>
          cases code with
          | done result => exact .idle _
          | step change next => exact .worked hstage
      | _ => exact .idle _
  | release op =>
      simp only [step]
      cases hstage : shared.stage op with
      | holding input code =>
          cases code with
          | done result => exact .released hstage
          | step change next => exact .idle _
      | _ => exact .idle _
  | bypass op =>
      simp only [step]
      cases hstage : shared.stage op with
      | waiting input =>
          simp only
          cases haside : object.aside input with
          | none => exact .idle _
          | some result => exact .bypassed hstage haside
      | _ => exact .idle _
  | respond op =>
      simp only [step]
      cases hstage : shared.stage op with
      | leaving result => exact .responded hstage
      | _ => exact .idle _

/-! ## The order -/

/-- A move of one operation that gives no result, as far as results go. -/
theorem Serial.results_of_move (hserial : Serial object initial shared) (op : κ)
    (stage : Stage ι σ ρ) (hresult : stage.result = (shared.stage op).result) :
    (∀ other result, ((shared.move op stage).stage other).result = some result →
      ∃ before input later, shared.order = before ++ (other, input) :: later ∧
        (object.call input (performed object before initial)).1 = result) ∧
    ∀ other input, (other, input) ∈ shared.order →
      ((shared.move op stage).stage other).result ≠ none := by
  have hsame (other : κ) :
      ((shared.move op stage).stage other).result = (shared.stage other).result := by
    by_cases hother : other = op
    · subst hother
      simp [Shared.move, hresult]
    · simp [Shared.move, Function.update_of_ne hother]
  refine ⟨fun other result hother => ?_, fun other input hmem => ?_⟩
  · exact hserial.result other result ((hsame other).symm.trans hother)
  · rw [hsame]
    exact hserial.effective other input hmem

/-- A move outside of the lock. -/
theorem Serial.move (hserial : Serial object initial shared) {op : κ} {stage : Stage ι σ ρ}
    (hresult : stage.result = (shared.stage op).result) (hholding : ¬ stage.Holding)
    (hnot : ¬ (shared.stage op).Holding) : Serial object initial (shared.move op stage) := by
  obtain ⟨hresults, heffective⟩ := hserial.results_of_move op stage hresult
  refine ⟨hserial.free, fun other input code hother => ?_, hresults, heffective, hserial.nodup,
    fun other => ?_⟩
  · by_cases hsame : other = op
    · subst hsame
      simp only [Shared.move, Function.update_self] at hother
      exact absurd ⟨input, code, hother⟩ hholding
    · simp only [Shared.move, Function.update_of_ne hsame] at hother
      exact hserial.busy other input code hother
  · refine (hserial.holder other).trans ?_
    by_cases hsame : other = op
    · subst hsame
      simp [Shared.move, hholding, hnot]
    · simp [Shared.move, Function.update_of_ne hsame]

/-- An operation gets the lock. -/
theorem Serial.acquire (hserial : Serial object initial shared) {op : κ} {input : ι}
    (hstage : shared.stage op = .waiting input) (hfree : shared.holder = none) :
    Serial object initial
      ({ shared with holder := some op }.move op (.holding input (object.code input))) := by
  have hnone (other : κ) : ¬ (shared.stage other).Holding := by
    rw [← hserial.holder other, hfree]
    simp
  obtain ⟨hresults, heffective⟩ := hserial.results_of_move op
    (.holding input (object.code input)) (by rw [hstage]; rfl)
  refine ⟨by simp [Shared.move], fun other entry code hother => ?_, hresults, heffective,
    hserial.nodup, fun other => ?_⟩
  · by_cases hsame : other = op
    · subst hsame
      simp only [Shared.move, Function.update_self, Stage.holding.injEq] at hother
      obtain ⟨rfl, rfl⟩ := hother
      show (object.code input).run shared.state = _
      rw [hserial.free hfree]
      rfl
    · simp only [Shared.move, Function.update_of_ne hsame] at hother
      exact absurd ⟨entry, code, hother⟩ (hnone other)
  · by_cases hsame : other = op
    · subst hsame
      simp [Shared.move, Stage.Holding]
    · simp [Shared.move, Function.update_of_ne hsame, Ne.symm hsame, hnone other]

/-- An operation that has the lock does a step of its work.  Nobody else has anything left
to do that the step could disturb. -/
theorem Serial.work (hserial : Serial object initial shared) {op : κ} {input : ι}
    {change : σ → σ} {next : σ → Code σ ρ}
    (hstage : shared.stage op = .holding input (.step change next)) :
    Serial object initial ({ shared with state := change shared.state }.move op
      (.holding input (next shared.state))) := by
  have hop : (shared.stage op).Holding := ⟨_, _, hstage⟩
  obtain ⟨hresults, heffective⟩ := hserial.results_of_move op
    (.holding input (next shared.state)) (by rw [hstage]; rfl)
  refine ⟨fun hfree => ?_, fun other entry code hother => ?_, hresults, heffective,
    hserial.nodup, fun other => ?_⟩
  · exact absurd (((hserial.holder op).mpr hop).symm.trans hfree) (by simp)
  · by_cases hsame : other = op
    · subst hsame
      simp only [Shared.move, Function.update_self, Stage.holding.injEq] at hother
      obtain ⟨rfl, rfl⟩ := hother
      exact hserial.busy other input _ hstage
    · simp only [Shared.move, Function.update_of_ne hsame] at hother
      exact absurd (hserial.exclusive hop ⟨entry, code, hother⟩) hsame
  · refine (hserial.holder other).trans ?_
    by_cases hsame : other = op
    · subst hsame
      simp [Shared.move, Stage.Holding, hstage]
    · simp [Shared.move, Function.update_of_ne hsame]

/-- An operation is over: it comes to the end of the order. -/
theorem Serial.finish (hserial : Serial object initial shared) {op : κ} {input : ι}
    {result : ρ} {holder : Option κ} (hnew : (shared.stage op).result = none)
    (hcall : (object.call input (performed object shared.order initial)).1 = result)
    (hfree : holder = none →
      shared.state = performed object (shared.order ++ [(op, input)]) initial)
    (hbusy : ∀ other entry code, other ≠ op → shared.stage other = .holding entry code →
      code.run shared.state =
        object.call entry (performed object (shared.order ++ [(op, input)]) initial))
    (hholder : ∀ other, holder = some other ↔ other ≠ op ∧ (shared.stage other).Holding) :
    Serial object initial ({ shared with holder := holder }.finish op input result) := by
  refine ⟨hfree, fun other entry code hother => ?_, fun other found hfound => ?_,
    fun other entry hmem => ?_, ?_, fun other => ?_⟩
  · by_cases hsame : other = op
    · subst hsame
      simp [Shared.finish, Shared.move] at hother
    · simp only [Shared.finish, Shared.move, Function.update_of_ne hsame] at hother
      exact hbusy other entry code hsame hother
  · by_cases hsame : other = op
    · subst hsame
      obtain rfl : result = found := by
        simpa [Shared.finish, Shared.move, Stage.result] using hfound
      exact ⟨shared.order, input, [], rfl, hcall⟩
    · have hold : (shared.stage other).result = some found := by
        simpa [Shared.finish, Shared.move, Function.update_of_ne hsame] using hfound
      obtain ⟨before, entry, later, horder, hresult⟩ := hserial.result other found hold
      refine ⟨before, entry, later ++ [(op, input)], ?_, hresult⟩
      show shared.order ++ [(op, input)] = before ++ (other, entry) :: (later ++ [(op, input)])
      rw [horder, List.append_assoc, List.cons_append]
  · by_cases hsame : other = op
    · subst hsame
      simp [Shared.finish, Shared.move, Stage.result]
    · rcases List.mem_append.mp hmem with hold | hlast
      · simpa [Shared.finish, Shared.move, Function.update_of_ne hsame] using
          hserial.effective other entry hold
      · exact absurd (Prod.mk.inj (List.mem_singleton.mp hlast)).1 hsame
  · show ((shared.order ++ [(op, input)]).map Prod.fst).Nodup
    rw [List.map_append, List.nodup_append]
    refine ⟨hserial.nodup, List.nodup_singleton op, fun other hother this hthis hsame => ?_⟩
    obtain ⟨⟨key, entry⟩, hmem, rfl⟩ := List.mem_map.mp hother
    obtain rfl : this = op := List.mem_singleton.mp hthis
    subst hsame
    exact hserial.effective _ entry hmem hnew
  · refine (hholder other).trans ?_
    by_cases hsame : other = op
    · subst hsame
      simp [Shared.finish, Shared.move, Stage.Holding]
    · simp [Shared.finish, Shared.move, hsame]

/-- An operation leaves the lock with what its work has come to. -/
theorem Serial.release (hserial : Serial object initial shared) {op : κ} {input : ι}
    {result : ρ} (hstage : shared.stage op = .holding input (.done result)) :
    Serial object initial ({ shared with holder := none }.finish op input result) := by
  have hop : (shared.stage op).Holding := ⟨_, _, hstage⟩
  have hrun : (result, shared.state) =
      object.call input (performed object shared.order initial) :=
    hserial.busy op input _ hstage
  refine hserial.finish ?_ ?_ ?_ ?_ ?_
  · rw [hstage]
    rfl
  · rw [← hrun]
  · intro _
    rw [performed_concat, ← hrun]
  · intro other entry code hne hother
    exact absurd (hserial.exclusive hop ⟨entry, code, hother⟩) hne
  · intro other
    refine iff_of_false (by simp) fun hother => ?_
    exact hother.1 (hserial.exclusive hop hother.2)

/-- An operation that goes past the lock does not disturb the one that has it. -/
theorem Serial.bypass (hserial : Serial object initial shared) {op : κ} {input : ι}
    {result : ρ} (hstage : shared.stage op = .waiting input)
    (haside : object.aside input = some result) :
    Serial object initial (shared.finish op input result) := by
  have hcall := object.run_aside input result haside (performed object shared.order initial)
  have hsame : performed object (shared.order ++ [(op, input)]) initial =
      performed object shared.order initial := by
    rw [performed_concat]
    exact congrArg Prod.snd hcall
  show Serial object initial ({ shared with holder := shared.holder }.finish op input result)
  refine hserial.finish ?_ (congrArg Prod.fst hcall) ?_ ?_ ?_
  · rw [hstage]
    rfl
  · rw [hsame]
    exact hserial.free
  · intro other entry code _ hother
    rw [hsame]
    exact hserial.busy other entry code hother
  · intro other
    rw [hserial.holder other]
    refine ⟨fun hholding => ⟨?_, hholding⟩, And.right⟩
    rintro rfl
    obtain ⟨entry, code, hother⟩ := hholding
    rw [hstage] at hother
    cases hother

theorem Serial.step (hserial : Serial object initial shared) (event : Event κ ι) :
    Serial object initial (step object event shared) := by
  have hstepped := stepped_step object event shared
  generalize Mutex.step object event shared = after at hstepped ⊢
  cases hstepped with
  | idle => exact hserial
  | invoked hstage =>
      refine hserial.move ?_ ?_ ?_
      · rw [hstage]
        rfl
      · simp [Stage.Holding]
      · simp [hstage, Stage.Holding]
  | acquired hstage hfree => exact hserial.acquire hstage hfree
  | worked hstage => exact hserial.work hstage
  | released hstage => exact hserial.release hstage
  | bypassed hstage haside => exact hserial.bypass hstage haside
  | responded hstage =>
      refine hserial.move ?_ ?_ ?_
      · rw [hstage]
        rfl
      · simp [Stage.Holding]
      · simp [hstage, Stage.Holding]

/-! ## Runs -/

def run (object : Object ι σ ρ) (events : List (Event κ ι)) (shared : Shared κ ι σ ρ) :
    Shared κ ι σ ρ :=
  Runs.exec (step object) events shared

theorem serial_run (object : Object ι σ ρ) (initial : σ) (events : List (Event κ ι)) :
    Serial object initial (run object events (.start initial)) :=
  Runs.exec_history (P := fun _ (shared : Shared κ ι σ ρ) => Serial object initial shared) .start
    (fun _ event hserial => hserial.step event) events

/-- The order only grows, at its end. -/
theorem order_step (object : Object ι σ ρ) (event : Event κ ι) (shared : Shared κ ι σ ρ) :
    shared.order <+: (step object event shared).order := by
  have hstepped := stepped_step object event shared
  generalize step object event shared = after at hstepped ⊢
  cases hstepped with
  | idle => exact List.prefix_rfl
  | invoked hstage => exact List.prefix_rfl
  | acquired hstage hfree => exact List.prefix_rfl
  | worked hstage => exact List.prefix_rfl
  | released hstage => exact List.prefix_append _ _
  | bypassed hstage haside => exact List.prefix_append _ _
  | responded hstage => exact List.prefix_rfl

theorem order_run (object : Object ι σ ρ) (events : List (Event κ ι)) (shared : Shared κ ι σ ρ) :
    shared.order <+: (run object events shared).order := by
  induction events generalizing shared with
  | nil => exact List.prefix_rfl
  | cons event rest ih => exact (order_step object event shared).trans (ih _)

theorem run_append (object : Object ι σ ρ) (first second : List (Event κ ι))
    (shared : Shared κ ι σ ρ) :
    run object (first ++ second) shared = run object second (run object first shared) :=
  Runs.exec_append _ _ _

/-- An operation that was answered stays so. -/
theorem answered_step {op : κ} {result : ρ} (hstage : shared.stage op = .answered result)
    (event : Event κ ι) : (step object event shared).stage op = .answered result := by
  have hmove {other : κ} {stage : Stage ι σ ρ} {state : σ} {holder : Option κ}
      {order : List (κ × ι)} (hother : shared.stage other ≠ .answered result) :
      (Shared.move ⟨state, holder, shared.stage, order⟩ other stage).stage op =
        .answered result := by
    have hne : op ≠ other := by
      rintro rfl
      exact hother hstage
    rwa [show (Shared.move _ other stage).stage op = _ from Function.update_of_ne hne _ _]
  have hstepped := stepped_step object event shared
  generalize step object event shared = after at hstepped ⊢
  cases hstepped with
  | idle => exact hstage
  | invoked hother => exact hmove (by simp [hother])
  | acquired hother hfree => exact hmove (by simp [hother])
  | worked hother => exact hmove (by simp [hother])
  | released hother => exact hmove (by simp [hother])
  | bypassed hother haside => exact hmove (by simp [hother])
  | responded hother => exact hmove (by simp [hother])

theorem answered_run {op : κ} {result : ρ} (events : List (Event κ ι))
    (hstage : shared.stage op = .answered result) :
    (run object events shared).stage op = .answered result := by
  induction events generalizing shared with
  | nil => exact hstage
  | cons event rest ih => exact ih (answered_step hstage event)

/-- An operation that has a result before another is invoked comes before it. -/
theorem before_of_result {first second : List (Event κ ι)} {op later : κ} {result : ρ}
    (hop : ((run object first (.start initial)).stage op).result = some result)
    (hlater : (run object first (.start initial)).stage later = .absent) {other : ρ}
    (hresult : ((run object (first ++ second) (.start initial)).stage later).result = some other) :
    ∃ start input between entry rest,
      (run object (first ++ second) (.start initial)).order =
        start ++ (op, input) :: (between ++ (later, entry) :: rest) := by
  have hserial := serial_run object initial first
  obtain ⟨more, hmore⟩ := order_run object second (run object first (.start initial))
  rw [← run_append] at hmore
  obtain ⟨start, input, back, hfirst, -⟩ := hserial.result op result hop
  obtain ⟨front, entry, rest, hall, -⟩ :=
    (serial_run object initial (first ++ second)).result later other hresult
  have hmem : (later, entry) ∈ more := by
    have hwhole : (later, entry) ∈ (run object (first ++ second) (.start initial)).order := by
      rw [hall]
      exact List.mem_append_right front List.mem_cons_self
    rw [← hmore] at hwhole
    rcases List.mem_append.mp hwhole with hold | hnew
    · -- it has not been invoked yet
      have hnone := hserial.effective later entry hold
      rw [hlater] at hnone
      exact absurd rfl hnone
    · exact hnew
  obtain ⟨between, rest, rfl⟩ := List.append_of_mem hmem
  refine ⟨start, input, back ++ between, entry, rest, ?_⟩
  rw [← hmore, hfirst]
  simp

/-- The operation is in the object's hands with the input. -/
def Given (shared : Shared κ ι σ ρ) (op : κ) (input : ι) : Prop :=
  shared.stage op = .waiting input ∨ (∃ code, shared.stage op = .holding input code) ∨
    (op, input) ∈ shared.order

theorem Given.of_move {this op : κ} {stage : Stage ι σ ρ} {input : ι}
    (hgiven : Given (shared.move this stage) op input) :
    Given shared op input ∨
      op = this ∧ (stage = .waiting input ∨ ∃ code, stage = .holding input code) := by
  unfold Given at hgiven
  by_cases hop : op = this
  · subst hop
    simp only [Shared.move, Function.update_self] at hgiven
    rcases hgiven with hwaiting | hholding | hmem
    · exact .inr ⟨rfl, .inl hwaiting⟩
    · exact .inr ⟨rfl, .inr hholding⟩
    · exact .inl (.inr (.inr hmem))
  · simp only [Shared.move, Function.update_of_ne hop] at hgiven
    exact .inl hgiven

theorem Given.of_finish {this op : κ} {entry input : ι} {result : ρ}
    (hgiven : Given (shared.finish this entry result) op input) :
    Given shared op input ∨ op = this ∧ entry = input := by
  rcases hgiven.of_move with hbefore | ⟨-, hwaiting | ⟨code, hholding⟩⟩
  · rcases hbefore with hstage | hstage | hmem
    · exact .inl (.inl hstage)
    · exact .inl (.inr (.inl hstage))
    · rcases List.mem_append.mp hmem with hold | hlast
      · exact .inl (.inr (.inr hold))
      · obtain ⟨rfl, rfl⟩ := Prod.mk.inj (List.mem_singleton.mp hlast)
        exact .inr ⟨rfl, rfl⟩
  · cases hwaiting
  · cases hholding

/-- No input comes from nowhere. -/
theorem Given.of_step {event : Event κ ι} {op : κ} {input : ι}
    (hgiven : Given (step object event shared) op input) :
    Given shared op input ∨ event = .invoke op input := by
  have hstepped := stepped_step object event shared
  generalize step object event shared = after at hstepped hgiven
  cases hstepped with
  | idle => exact .inl hgiven
  | invoked hstage =>
      rcases hgiven.of_move with hbefore | ⟨rfl, hwaiting | ⟨code, hholding⟩⟩
      · exact .inl hbefore
      · exact .inr (congrArg _ (Stage.waiting.inj hwaiting))
      · cases hholding
  | acquired hstage hfree =>
      rcases hgiven.of_move with hbefore | ⟨rfl, hwaiting | ⟨code, hholding⟩⟩
      · exact .inl hbefore
      · cases hwaiting
      · obtain ⟨rfl, -⟩ := Stage.holding.inj hholding
        exact .inl (.inl hstage)
  | worked hstage =>
      rcases hgiven.of_move with hbefore | ⟨rfl, hwaiting | ⟨code, hholding⟩⟩
      · exact .inl hbefore
      · cases hwaiting
      · obtain ⟨rfl, -⟩ := Stage.holding.inj hholding
        exact .inl (.inr (.inl ⟨_, hstage⟩))
  | released hstage =>
      rcases hgiven.of_finish with hbefore | ⟨rfl, rfl⟩
      · exact .inl hbefore
      · exact .inl (.inr (.inl ⟨_, hstage⟩))
  | bypassed hstage haside =>
      rcases hgiven.of_finish with hbefore | ⟨rfl, rfl⟩
      · exact .inl hbefore
      · exact .inl (.inl hstage)
  | responded hstage =>
      rcases hgiven.of_move with hbefore | ⟨-, hwaiting | ⟨code, hholding⟩⟩
      · exact .inl hbefore
      · cases hwaiting
      · cases hholding

theorem given_run {events : List (Event κ ι)} {op : κ} {input : ι}
    (hgiven : Given (run object events (.start initial)) op input) :
    .invoke op input ∈ events := by
  induction events using List.reverseRecOn with
  | nil =>
      rcases hgiven with hstage | hstage | hmem
      · cases hstage
      · obtain ⟨code, hholding⟩ := hstage
        cases hholding
      · cases hmem
  | append_singleton events event ih =>
      rw [run_append] at hgiven
      rcases hgiven.of_step with hbefore | rfl
      · exact List.mem_append_left _ (ih hbefore)
      · simp

end Mutex
