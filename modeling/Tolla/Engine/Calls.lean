import Tolla.Model.Service

/-!
# What the engine calls do

One statement for each call: the ways in which it can end, and the world it
leaves behind in each of them.  Later files take these statements apart with
`cases` and never unfold a call again.

This file has the backend calls, the writers of one document and `deboard_user`,
which ends at the first of its three steps that fails (`Deboarded`);
`Onboarding.lean` has `onboard_user`.
-/

namespace Tolla

open Effects Keyed

variable {env : Env} {world : World}

/-! ## Backend calls -/

theorem call_of_fault {α : Type} {name : Call} {error : String} {work : Engine α}
    (hfault : env.fault name = some error) : call env name work world = (.err error, world) := by
  simp [call, hfault]

theorem call_of_none {α : Type} {name : Call} {work : World → Outcome String α × World}
    (hfault : env.fault name = none) : call env name ⟨work⟩ world = work world := by
  simp [call, hfault]

/-- The call fails. -/
def Env.Fails (env : Env) (name : Call) : Prop := ∃ error, env.fault name = some error

theorem Env.Faultless.not_fails (hfaultless : env.Faultless) (name : Call) : ¬ env.Fails name := by
  rintro ⟨error, herror⟩
  rw [hfaultless name] at herror
  cases herror

variable {α : Type} {key : α → String}

/-- An insertion is rejected by a fault or by a document with the same `_id`. -/
def Rejects (env : Env) (coll : Handle key) (world : World) (id : String) : Prop :=
  env.Fails (.insertOne coll.name) ∨ (coll.get world).HasKey id

theorem insertOne_cases (env : Env) (coll : Handle key) (row : α) (world : World) :
    (Rejects env coll world (key row) ∧
      ∃ error, coll.insertOne env row world = (.err error, world)) ∨
    (¬ Rejects env coll world (key row) ∧ ∃ table, (coll.get world).insert row = some table ∧
      coll.insertOne env row world = (.ok (), coll.set table world)) := by
  unfold Handle.insertOne
  cases hfault : env.fault (.insertOne coll.name) with
  | some error => exact .inl ⟨.inl ⟨error, hfault⟩, error, call_of_fault hfault⟩
  | none =>
      rw [call_of_none hfault]
      cases hinsert : (coll.get world).insert row with
      | none => exact .inl ⟨.inr (Table.insert_eq_none_iff.mp hinsert), _, rfl⟩
      | some table =>
          refine .inr ⟨?_, table, rfl, rfl⟩
          rintro (⟨error, herror⟩ | hkey)
          · rw [hfault] at herror
            cases herror
          · exact (Table.insert_eq_some_iff.mp hinsert).1 hkey

theorem deleteOne_cases (env : Env) (coll : Handle key) (id : String) (world : World) :
    (∃ error, env.fault (.deleteOne coll.name) = some error ∧
        coll.deleteOne env id world = (.err error, world)) ∨
      (env.fault (.deleteOne coll.name) = none ∧
        coll.deleteOne env id world = (.ok (), coll.set ((coll.get world).delete id) world)) := by
  unfold Handle.deleteOne
  cases hfault : env.fault (.deleteOne coll.name) with
  | some error => exact .inl ⟨error, rfl, call_of_fault hfault⟩
  | none => exact .inr ⟨rfl, call_of_none hfault⟩

/-- A document that `find_one` returns satisfies the query, and if it returns none
then there is none. -/
theorem findOne_cases (env : Env) (coll : Handle key) (query : α → Bool) (world : World) :
    (∃ error, env.fault (.findOne coll.name) = some error ∧
      coll.findOne env query world = (.err error, world)) ∨
    (env.fault (.findOne coll.name) = none ∧
      ∃ found, coll.findOne env query world = (.ok found, world) ∧
        (∀ row, found = some row → row ∈ coll.get world ∧ query row = true) ∧
        (found = none → ∀ row ∈ coll.get world, ¬ query row = true)) := by
  unfold Handle.findOne
  cases hfault : env.fault (.findOne coll.name) with
  | some error => exact .inl ⟨error, rfl, call_of_fault hfault⟩
  | none =>
      refine .inr ⟨rfl, _, call_of_none hfault, fun row hfound => ?_,
        fun hnone row hrow hquery => ?_⟩
      · exact List.mem_filter.mp (List.mem_of_getElem? hfound)
      · -- the index is taken modulo the number of matches
        have hmatch : row ∈ (coll.get world).rows.filter query := List.mem_filter.mpr ⟨hrow, hquery⟩
        have hlength := List.length_pos_of_mem hmatch
        have hindex := List.getElem?_eq_none_iff.mp hnone
        exact absurd (Nat.mod_lt env.pick hlength) (Nat.not_lt.mpr hindex)

theorem addConsent_cases (env : Env) (consent : Consent) (world : World) :
    (Rejects env Handle.consents world consent.id ∧
      ∃ error, ConsentEngine.addConsent env consent world = (.err error, world)) ∨
    (¬ Rejects env Handle.consents world consent.id ∧
      ∃ table, world.consents.insert consent = some table ∧
        ConsentEngine.addConsent env consent world = (.ok (), { world with consents := table })) :=
  insertOne_cases env Handle.consents consent world

theorem registerView_cases (env : Env) (view : View) (world : World) :
    (Rejects env Handle.view world view.id ∧
      ∃ error, ConsentEngine.registerView env view world = (.err error, world)) ∨
    (¬ Rejects env Handle.view world view.id ∧
      ∃ table, world.view.insert view = some table ∧
        ConsentEngine.registerView env view world = (.ok (), { world with view := table })) :=
  insertOne_cases env Handle.view view world

theorem addIntent_cases (env : Env) (intent : Intent) (world : World) :
    (Rejects env Handle.intents world intent.id ∧
      ∃ error, ConsentEngine.addIntent env intent world = (.err error, world)) ∨
    (¬ Rejects env Handle.intents world intent.id ∧
      ∃ table, world.intents.insert intent = some table ∧
        ConsentEngine.addIntent env intent world = (.ok (), { world with intents := table })) :=
  insertOne_cases env Handle.intents intent world

/-! ## Deboarding -/

/-- The ways in which `deboard_user` ends. -/
inductive Deboarded (env : Env) (userId : String) (world : World) :
    Outcome String Unit → World → Prop
  | refused {error : String}
      (hremove : env.Fails .removeContainer ∨ env.resolve world.containers.rows userId = none) :
      Deboarded env userId world (.err error) world
  | consentsKept {error name : String} (hfault : env.fault (.deleteOne .consents) = some error)
      (hname : env.resolve world.containers.rows userId = some name) :
      Deboarded env userId world (.err error)
        { world with containers := world.containers.delete name }
  | viewKept {error name : String} (hfault : env.fault (.deleteOne .view) = some error)
      (hname : env.resolve world.containers.rows userId = some name) :
      Deboarded env userId world (.err error)
        { world with
          containers := world.containers.delete name
          consents := world.consents.delete userId }
  | done {name : String} (hname : env.resolve world.containers.rows userId = some name) :
      Deboarded env userId world (.ok ())
        { world with
          containers := world.containers.delete name
          consents := world.consents.delete userId
          view := world.view.delete userId }

theorem removeContainer_cases (env : Env) (id : String) (world : World) :
    ((env.Fails .removeContainer ∨ env.resolve world.containers.rows id = none) ∧
      ∃ error, StoreManager.removeContainer env id world = (.err error, world)) ∨
    (∃ name, env.resolve world.containers.rows id = some name ∧
      StoreManager.removeContainer env id world =
        (.ok (), { world with containers := world.containers.delete name })) := by
  unfold StoreManager.removeContainer
  cases hfault : env.fault .removeContainer with
  | some error => exact .inl ⟨.inl ⟨error, hfault⟩, error, call_of_fault hfault⟩
  | none =>
      rw [call_of_none hfault]
      cases hname : env.resolve world.containers.rows id with
      | none => exact .inl ⟨.inr rfl, _, rfl⟩
      | some name => exact .inr ⟨name, rfl, rfl⟩

theorem deboardUser_spec {userId : String} {outcome : Outcome String Unit} {after : World}
    (hrun : ConsentEngine.deboardUser env userId world = (outcome, after)) :
    Deboarded env userId world outcome after := by
  suffices hends : Deboarded env userId world (ConsentEngine.deboardUser env userId world).1
      (ConsentEngine.deboardUser env userId world).2 by
    rwa [hrun] at hends
  unfold ConsentEngine.deboardUser ConsentEngine.removeUser
  rcases removeContainer_cases env userId world with ⟨hrefused, error, heq⟩ | ⟨name, hname, heq⟩
  · rw [Action.bind_of_err heq]
    exact .refused hrefused
  rw [Action.bind_of_ok heq]
  rcases deleteOne_cases env Handle.consents userId
    { world with containers := world.containers.delete name } with ⟨error, hfault, heq⟩ | ⟨_, heq⟩
  · rw [Action.bind_of_err heq]
    exact .consentsKept hfault hname
  rw [Action.bind_of_ok heq]
  rcases deleteOne_cases env Handle.view userId (Handle.consents.set (world.consents.delete userId)
    { world with containers := world.containers.delete name }) with ⟨error, hfault, heq⟩ | ⟨_, heq⟩
  · exact heq.symm ▸ .viewKept hfault hname
  · exact heq.symm ▸ .done hname

end Tolla
