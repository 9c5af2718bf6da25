import Tolla.Engine.Reonboarding
import Tolla.Engine.Tenants

/-!
# Two collections for one thing

`register_view` writes into the collection `view` and `remove_user` deletes from
it.  Of the three readers, `get_tenant_ips` reads `view`; `get_views` and
`consent_based_view` read `views`, which nothing writes.  So the readers agree
with the writer only as long as there is nothing to read (`readersAgree_iff`).
-/

namespace Tolla

open Effects Keyed

variable {env : Env} {world : World} {service : Service}

/-- Every reader returns the records that `register_view` wrote and `remove_user`
has not deleted since. -/
def ReadersAgree (world : World) : Prop :=
  ∀ env : Env, env.Faultless →
    ConsentEngine.getViews env world = (.ok world.view.rows, world) ∧
    ConsentEngine.getTenantIps env world = (.ok (world.view.rows.map View.ip), world) ∧
    ∀ id ip, (ConsentEngine.consentBasedView env id world).1 = .ok ip ↔ ⟨id, ip⟩ ∈ world.view

/-- In every reachable state the readers agree with the writer if and only if no
record is registered. -/
theorem readersAgree_iff (hinitial : service.Initial) (inputs : List (Env × Request)) :
    ReadersAgree (run inputs service).world ↔ (run inputs service).world.view = Table.empty := by
  have hviews := views_empty hinitial inputs
  generalize (run inputs service).world = world at hviews ⊢
  constructor
  · intro hagree
    obtain ⟨hread, -, -⟩ := hagree (Env.calm 0) (Env.calm_faultless 0)
    rw [getViews_of_faultless (Env.calm_faultless 0), hviews] at hread
    exact Table.ext (Outcome.ok.inj (Prod.mk.inj hread).1).symm
  · intro hempty env hfaultless
    refine ⟨?_, getTenantIps_of_faultless hfaultless world, fun id ip => ?_⟩
    · rw [getViews_of_faultless hfaultless, hviews, hempty]
    · rw [consentBasedView_of_empty hfaultless hviews, hempty]
      exact iff_of_false (by simp) (Table.not_mem_empty _)

/-- Alice is onboarded: her record is there, and `get_views` does not find it. -/
theorem readers_disagree :
    ¬ ∀ service : Service, service.Initial → ∀ inputs : List (Env × Request),
      (∀ input ∈ inputs, input.1.Faultless) → ReadersAgree (run inputs service).world := by
  intro hall
  obtain ⟨hread, -, -⟩ := hall Service.blank Service.blank_initial
    [(Env.calm 7, .register (.ok ⟨"alice", ["research"]⟩))]
    (fun input hinput => List.mem_singleton.mp hinput ▸ Env.calm_faultless 7) (Env.calm 0)
    (Env.calm_faultless 0)
  exact absurd (congrArg Prod.fst hread) (by decide)

/-- Alice is onboarded and removed again. -/
theorem readersAgree_iff_alice :
    ReadersAgree (run [(Env.calm 7, .register (.ok ⟨"alice", ["research"]⟩)),
        (Env.calm 0, .remove (some "alice"))] Service.blank).world ↔
      (run [(Env.calm 7, .register (.ok ⟨"alice", ["research"]⟩)),
        (Env.calm 0, .remove (some "alice"))] Service.blank).world.view = Table.empty :=
  readersAgree_iff Service.blank_initial _

end Tolla
