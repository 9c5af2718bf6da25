import Mathlib.Data.List.Forall2
import Tolla.Engine.Calls

/-!
# What the cursor loops leave out

`get_tenant_ips`, `get_views` and `consent_based_view` ask the database for a
cursor and walk along it.  There are three errors on the way: `find` fails, the
cursor yields an error, a document cannot be decoded.  The first and the last are
returned, but an error of the cursor is passed over (`if let Ok(item) = entry`).

* A list is returned although an error was passed over, unless a document that
  cannot be decoded ends the loop as well.
* A user is reported as not found although an error was passed over, unless a
  document that cannot be decoded, or that has the id, ends the loop.

`Store` is what the driver returns, with any sequence of documents and errors; the
engine of the other files reads from one in which each error stands in the place
of a document (`Env.store`).
-/

namespace Tolla

open Effects Keyed

/-! ## The readers -/

/-- What the driver returns: the cursor of `find(None, None)` for each of the two
collections, or the error of `find`, and what `from_bson` makes of a document. -/
structure Store (δ : Type) where
  view : Except String (List (Except String δ))
  views : Except String (List (Except String δ))
  fromBson : δ → Except String View

namespace Store

variable {δ : Type} (store : Store δ)

def getTenantIps : Except String (List String) := do
  let cursor ← store.view
  ConsentEngine.collectIps store.fromBson cursor

def getViews : Except String (List View) := do
  let cursor ← store.views
  ConsentEngine.collectViews store.fromBson cursor

def consentBasedView (id : String) : Except String String := do
  let cursor ← store.views
  ConsentEngine.searchView store.fromBson id cursor

end Store

/-! ## The loops -/

section Loops

variable {δ : Type} {fromBson : δ → Except String View} {cursor : List (Except String δ)}

/-- The documents that the cursor yields. -/
def readable (cursor : List (Except String δ)) : List δ := cursor.filterMap Except.toOption

theorem mem_readable {item : δ} : item ∈ readable cursor ↔ .ok item ∈ cursor := by
  unfold readable
  rw [List.mem_filterMap]
  constructor
  · intro hread
    obtain ⟨result, hmem, hresult⟩ := hread
    cases result with
    | error error => cases hresult
    | ok other => rwa [← Option.some.inj hresult]
  · intro hmem
    exact ⟨.ok item, hmem, rfl⟩

theorem map_eq_ok_iff {ε α β : Type} {result : Except ε α} {f : α → β} {value : β} :
    result.map f = .ok value ↔ ∃ found, result = .ok found ∧ f found = value := by
  cases result with
  | error error => simp [Except.map]
  | ok found => simp [Except.map]

/-- The loop of `get_views` returns the documents that were read, in order. -/
theorem collectViews_eq_ok_iff {views : List View} :
    ConsentEngine.collectViews fromBson cursor = .ok views ↔
      List.Forall₂ (fun item view => fromBson item = .ok view) (readable cursor) views := by
  induction cursor generalizing views with
  | nil =>
      rw [show readable ([] : List (Except String δ)) = [] from rfl, List.forall₂_nil_left_iff]
      exact ⟨fun heq => (Except.ok.inj heq).symm, fun heq => heq ▸ rfl⟩
  | cons result rest ih =>
      cases result with
      | error error => exact ih
      | ok item =>
          rw [show readable (.ok item :: rest) = item :: readable rest from rfl,
            List.forall₂_cons_left_iff, ConsentEngine.collectViews]
          cases hitem : fromBson item with
          | error error => simp
          | ok view =>
              simp only [map_eq_ok_iff, ih]
              constructor
              · intro hcollect
                obtain ⟨tail, htail, rfl⟩ := hcollect
                exact ⟨view, tail, rfl, htail, rfl⟩
              · intro hviews
                obtain ⟨head, tail, hhead, htail, rfl⟩ := hviews
                obtain rfl := Except.ok.inj hhead
                exact ⟨tail, htail, rfl⟩

theorem collectViews_ok (views : List View) :
    ConsentEngine.collectViews .ok (views.map .ok : List (Except String View)) = .ok views := by
  have hread : readable (views.map .ok : List (Except String View)) = views := by
    simp [readable, List.filterMap_map, Function.comp_def, Except.toOption]
  rw [collectViews_eq_ok_iff, hread, List.forall₂_same]
  exact fun _ _ => rfl

/-- If the loop returns a list, every document could be decoded. -/
theorem exists_of_collectViews_ok {views : List View} {item : δ}
    (hcollect : ConsentEngine.collectViews fromBson cursor = .ok views)
    (hmem : .ok item ∈ cursor) : ∃ view, fromBson item = .ok view := by
  rw [collectViews_eq_ok_iff] at hcollect
  rw [← mem_readable] at hmem
  generalize readable cursor = items at hcollect hmem
  induction hcollect with
  | nil => cases hmem
  | cons hview _ ih =>
      rcases List.mem_cons.mp hmem with rfl | hlater
      · exact ⟨_, hview⟩
      · exact ih hlater

/-- If it returns an error, it is that of a document. -/
theorem exists_of_collectViews_error {error : String}
    (hcollect : ConsentEngine.collectViews fromBson cursor = .error error) :
    ∃ item, .ok item ∈ cursor ∧ fromBson item = .error error := by
  induction cursor with
  | nil => cases hcollect
  | cons result rest ih =>
      have hlater (hrest : ConsentEngine.collectViews fromBson rest = .error error) :
          ∃ item, .ok item ∈ result :: rest ∧ fromBson item = .error error := by
        obtain ⟨item, hmem, hitem⟩ := ih hrest
        exact ⟨item, List.mem_cons_of_mem _ hmem, hitem⟩
      cases result with
      | error _ => exact hlater hcollect
      | ok item =>
          rw [ConsentEngine.collectViews] at hcollect
          cases hitem : fromBson item with
          | error _ =>
              rw [hitem] at hcollect
              obtain rfl := Except.error.inj hcollect
              exact ⟨item, List.mem_cons_self, hitem⟩
          | ok view =>
              rw [hitem] at hcollect
              cases hrest : ConsentEngine.collectViews fromBson rest with
              | error _ =>
                  rw [hrest] at hcollect
                  obtain rfl := Except.error.inj hcollect
                  exact hlater hrest
              | ok tail =>
                  rw [hrest] at hcollect
                  cases hcollect

/-- The loop of `get_tenant_ips` is the same with the addresses. -/
theorem collectIps_eq_map : ConsentEngine.collectIps fromBson cursor =
    (ConsentEngine.collectViews fromBson cursor).map (List.map View.ip) := by
  induction cursor with
  | nil => rfl
  | cons result rest ih =>
      cases result with
      | error error => exact ih
      | ok item =>
          rw [ConsentEngine.collectIps, ConsentEngine.collectViews]
          cases fromBson item with
          | error error => rfl
          | ok view =>
              simp only [ih]
              cases ConsentEngine.collectViews fromBson rest with
              | error error => rfl
              | ok views => rfl

/-- The search comes to the end if every document that was read has another id.  The
errors of the decoder have other texts. -/
theorem searchView_eq_notFound_iff {id : String}
    (htexts : ∀ item error, fromBson item = .error error → error ≠ "could not find it") :
    ConsentEngine.searchView fromBson id cursor = .error "could not find it" ↔
      ∀ item, .ok item ∈ cursor → ∃ view, fromBson item = .ok view ∧ view.id ≠ id := by
  induction cursor with
  | nil => simp [ConsentEngine.searchView]
  | cons result rest ih =>
      cases result with
      | error error =>
          rw [ConsentEngine.searchView, ih]
          simp
      | ok item =>
          have hmem (P : δ → Prop) : (∀ other, .ok other ∈ .ok item :: rest → P other) ↔
              P item ∧ ∀ other, .ok other ∈ rest → P other := by
            simp
          rw [ConsentEngine.searchView, hmem, ← ih]
          cases hitem : fromBson item with
          | error error =>
              refine iff_of_false ?_ (by simp)
              intro heq
              exact htexts item error hitem (Except.error.inj heq)
          | ok view =>
              by_cases hid : view.id = id
              · simp [hid]
              · simp [hid]

/-! ## Complete answers -/

/-- The list has an entry for every result, in order, made from a document that was
read and decoded. -/
def Covers {β : Type} (fromBson : δ → Except String View) (make : View → β)
    (cursor : List (Except String δ)) (list : List β) : Prop :=
  List.Forall₂ (fun result entry => ∃ item view, result = .ok item ∧ fromBson item = .ok view ∧
    make view = entry) cursor list

/-- No error is behind the answer of a loop: the cursor yields none, or a document ends
the loop. -/
def Conclusive (fromBson : δ → Except String View) (passes : View → Prop)
    (cursor : List (Except String δ)) : Prop :=
  (∀ error, .error error ∉ cursor) ∨
    ∃ item, .ok item ∈ cursor ∧ ∀ view, fromBson item = .ok view → ¬ passes view

theorem covers_iff {β : Type} (make : View → β) {views : List View}
    (hviews : List.Forall₂ (fun item view => fromBson item = .ok view) (readable cursor) views) :
    Covers fromBson make cursor (views.map make) ↔ ∀ error, .error error ∉ cursor := by
  induction cursor generalizing views with
  | nil =>
      obtain rfl := List.forall₂_nil_left_iff.mp hviews
      exact iff_of_true .nil (by simp)
  | cons result rest ih =>
      cases result with
      | error error =>
          refine iff_of_false ?_ fun hnone => hnone error List.mem_cons_self
          intro hcovers
          obtain ⟨_, _, ⟨item, view, hresult, -⟩, -⟩ := List.forall₂_cons_left_iff.mp hcovers
          cases hresult
      | ok item =>
          obtain ⟨view, tail, hview, htail, rfl⟩ := List.forall₂_cons_left_iff.mp hviews
          rw [Covers, List.map_cons, List.forall₂_cons,
            and_iff_right ⟨item, view, rfl, hview, rfl⟩]
          refine (ih htail).trans (forall_congr' fun error => ?_)
          simp

/-- The loop that makes a list. -/
theorem lists_iff {β : Type} (make : View → β) :
    (∀ views, ConsentEngine.collectViews fromBson cursor = .ok views →
      Covers fromBson make cursor (views.map make)) ↔
      Conclusive fromBson (fun _ => True) cursor := by
  constructor
  · intro hlists
    cases hcollect : ConsentEngine.collectViews fromBson cursor with
    | ok views =>
        left
        exact (covers_iff make (collectViews_eq_ok_iff.mp hcollect)).mp (hlists views hcollect)
    | error error =>
        right
        obtain ⟨item, hmem, hitem⟩ := exists_of_collectViews_error hcollect
        refine ⟨item, hmem, fun view hview => ?_⟩
        rw [hitem] at hview
        cases hview
  · intro hconclusive views hcollect
    have hviews := collectViews_eq_ok_iff.mp hcollect
    rcases hconclusive with hnone | ⟨item, hmem, hitem⟩
    · exact (covers_iff make hviews).mpr hnone
    · obtain ⟨view, hview⟩ := exists_of_collectViews_ok hcollect hmem
      exact absurd trivial (hitem view hview)

/-- The loop that looks for an id. -/
theorem search_iff {id : String}
    (htexts : ∀ item error, fromBson item = .error error → error ≠ "could not find it") :
    (ConsentEngine.searchView fromBson id cursor = .error "could not find it" →
      ∀ result ∈ cursor, ∃ item view, result = .ok item ∧ fromBson item = .ok view ∧
        view.id ≠ id) ↔ Conclusive fromBson (fun view => view.id ≠ id) cursor := by
  rw [searchView_eq_notFound_iff htexts]
  constructor
  · intro hsearch
    by_cases hend : ∀ item, .ok item ∈ cursor → ∃ view, fromBson item = .ok view ∧ view.id ≠ id
    · left
      intro error hmem
      obtain ⟨item, view, hresult, -⟩ := hsearch hend _ hmem
      cases hresult
    · right
      push Not at hend
      obtain ⟨item, hmem, hitem⟩ := hend
      exact ⟨item, hmem, fun view hview hother => hother (hitem view hview)⟩
  · intro hconclusive hend result hmem
    rcases hconclusive with hnone | ⟨item, hitem, hends⟩
    · cases result with
      | error error => exact absurd hmem (hnone error)
      | ok item =>
          obtain ⟨view, hview, hother⟩ := hend item hmem
          exact ⟨item, view, rfl, hview, hother⟩
    · obtain ⟨view, hview, hother⟩ := hend item hitem
      exact absurd hother (hends view hview)

end Loops

/-! ## The answers of the readers -/

namespace Store

variable {δ : Type} (store : Store δ)

/-- The list of `get_tenant_ips` has every address. -/
def TenantIpsComplete : Prop :=
  ∀ ips, store.getTenantIps = .ok ips →
    ∃ cursor, store.view = .ok cursor ∧ Covers store.fromBson View.ip cursor ips

/-- The list of `get_views` has every view. -/
def ViewsComplete : Prop :=
  ∀ views, store.getViews = .ok views →
    ∃ cursor, store.views = .ok cursor ∧ Covers store.fromBson (fun view => view) cursor views

/-- `consent_based_view` reports that there is no such user only if it has read every
document and none has the id. -/
def NotFoundComplete (id : String) : Prop :=
  store.consentBasedView id = .error "could not find it" →
    ∃ cursor, store.views = .ok cursor ∧ ∀ result ∈ cursor, ∃ item view, result = .ok item ∧
      store.fromBson item = .ok view ∧ view.id ≠ id

/-- The errors of the driver and of the decoder do not have the text for a user who was
not found. -/
structure Distinct : Prop where
  find : ∀ error, store.views = .error error → error ≠ "could not find it"
  decode : ∀ item error, store.fromBson item = .error error → error ≠ "could not find it"

variable {store}

theorem tenantIpsComplete_iff : store.TenantIpsComplete ↔ ∀ cursor, store.view = .ok cursor →
    Conclusive store.fromBson (fun _ => True) cursor := by
  unfold TenantIpsComplete getTenantIps
  cases store.view with
  | error error => exact iff_of_true nofun nofun
  | ok cursor =>
      simp only [Except.ok.injEq, forall_eq', exists_eq_left', ← lists_iff View.ip]
      constructor
      · intro hips views hcollect
        apply hips
        change ConsentEngine.collectIps store.fromBson cursor = _
        rw [collectIps_eq_map, hcollect]
        rfl
      · intro hlists ips hips
        change ConsentEngine.collectIps store.fromBson cursor = _ at hips
        rw [collectIps_eq_map, map_eq_ok_iff] at hips
        obtain ⟨views, hcollect, rfl⟩ := hips
        exact hlists views hcollect

theorem viewsComplete_iff : store.ViewsComplete ↔ ∀ cursor, store.views = .ok cursor →
    Conclusive store.fromBson (fun _ => True) cursor := by
  unfold ViewsComplete getViews
  cases store.views with
  | error error => exact iff_of_true nofun nofun
  | ok cursor =>
      simp only [Except.ok.injEq, forall_eq', exists_eq_left', ← lists_iff fun view => view,
        List.map_id']
      rfl

theorem notFoundComplete_iff (hdistinct : store.Distinct) (id : String) :
    store.NotFoundComplete id ↔ ∀ cursor, store.views = .ok cursor →
      Conclusive store.fromBson (fun view => view.id ≠ id) cursor := by
  unfold NotFoundComplete consentBasedView
  cases hviews : store.views with
  | error error =>
      refine iff_of_true ?_ nofun
      intro heq
      exact absurd (Except.error.inj heq) (hdistinct.find error hviews)
  | ok cursor =>
      simp only [Except.ok.injEq, forall_eq', exists_eq_left', ← search_iff hdistinct.decode]
      rfl

/-- Each of the readers gives only complete answers if and only if its loop never comes
to the end of a cursor that yields an error. -/
theorem complete_iff_conclusive (hdistinct : store.Distinct) :
    (store.TenantIpsComplete ↔ ∀ cursor, store.view = .ok cursor →
      Conclusive store.fromBson (fun _ => True) cursor) ∧
    (store.ViewsComplete ↔ ∀ cursor, store.views = .ok cursor →
      Conclusive store.fromBson (fun _ => True) cursor) ∧
    ∀ id, store.NotFoundComplete id ↔ ∀ cursor, store.views = .ok cursor →
      Conclusive store.fromBson (fun view => view.id ≠ id) cursor :=
  ⟨tenantIpsComplete_iff, viewsComplete_iff, notFoundComplete_iff hdistinct⟩

/-- A store whose two cursors yield the same results. -/
def holding (results : List (Except String View)) : Store View := ⟨.ok results, .ok results, .ok⟩

theorem holding_distinct (results : List (Except String View)) : (holding results).Distinct :=
  ⟨nofun, nofun⟩

/-- The view of Alice is read, and then the connection is lost: both lists end with her,
and Bob is reported as not found. -/
theorem interruption_hidden :
    (holding [.ok ⟨"alice", "172.17.0.4"⟩, .error "connection reset"]).Distinct ∧
    ¬ (holding [.ok ⟨"alice", "172.17.0.4"⟩, .error "connection reset"]).TenantIpsComplete ∧
    ¬ (holding [.ok ⟨"alice", "172.17.0.4"⟩, .error "connection reset"]).ViewsComplete ∧
    ¬ (holding [.ok ⟨"alice", "172.17.0.4"⟩, .error "connection reset"]).NotFoundComplete
      "bob" := by
  refine ⟨holding_distinct _, ?_, ?_, ?_⟩
  · intro hcomplete
    obtain ⟨cursor, hcursor, hcovers⟩ := hcomplete ["172.17.0.4"] rfl
    obtain rfl := Except.ok.inj hcursor
    exact absurd hcovers.length_eq (by decide)
  · intro hcomplete
    obtain ⟨cursor, hcursor, hcovers⟩ := hcomplete [⟨"alice", "172.17.0.4"⟩] rfl
    obtain rfl := Except.ok.inj hcursor
    exact absurd hcovers.length_eq (by decide)
  · intro hcomplete
    obtain ⟨cursor, hcursor, hall⟩ := hcomplete rfl
    obtain rfl := Except.ok.inj hcursor
    obtain ⟨item, view, hresult, -⟩ := hall (.error "connection reset") (by simp)
    cases hresult

/-- Without the error the answers are complete. -/
theorem complete_iff_conclusive_alice :
    (holding [.ok ⟨"alice", "172.17.0.4"⟩]).TenantIpsComplete ∧
    (holding [.ok ⟨"alice", "172.17.0.4"⟩]).ViewsComplete ∧
    (holding [.ok ⟨"alice", "172.17.0.4"⟩]).NotFoundComplete "bob" := by
  obtain ⟨hips, hviews, hnotFound⟩ :=
    complete_iff_conclusive (holding_distinct [.ok ⟨"alice", "172.17.0.4"⟩])
  rw [hips, hviews, hnotFound]
  refine ⟨?_, ?_, ?_⟩
  all_goals
    intro cursor hcursor
    obtain rfl := Except.ok.inj hcursor
    left
    simp

end Store

/-! ## The engine -/

section Engine

variable {α : Type} {key : α → String} {env : Env} {world : World}

/-- What `find` returns: an error that the cursor yields stands in the place of a
document. -/
def Handle.cursor (env : Env) (coll : Handle key) (world : World) :
    Except String (List (Except String α)) :=
  match env.fault (.find coll.name) with
  | some error => .error error
  | none => .ok ((coll.get world).rows.mapIdx fun index document =>
      match env.fault (.next coll.name index) with
      | some error => .error error
      | none => .ok document)

theorem find_eq (env : Env) (coll : Handle key) (world : World) :
    coll.find env world = Action.ofExcept (coll.cursor env world) world := by
  unfold Handle.find Handle.cursor
  cases hfault : env.fault (.find coll.name) with
  | some error => exact call_of_fault hfault
  | none => exact call_of_none hfault

/-- A reader does nothing to the world, and nothing else matters to it than what `find`
returns. -/
theorem find_bind {β : Type} (coll : Handle key) (loop : List (Except String α) → Except String β)
    (world : World) :
    (coll.find env >>= fun cursor => Action.ofExcept (loop cursor) : Engine β) world =
      Action.ofExcept (coll.cursor env world >>= loop) world := by
  have hfind := find_eq env coll world
  cases hcursor : coll.cursor env world with
  | error error =>
      rw [hcursor] at hfind
      exact Action.bind_of_err hfind _
  | ok cursor =>
      rw [hcursor] at hfind
      exact Action.bind_of_ok hfind _

/-- A cursor that never fails yields all documents. -/
theorem cursor_of_faultless (hfaultless : env.Faultless) (coll : Handle key) (world : World) :
    coll.cursor env world = .ok ((coll.get world).rows.map .ok) := by
  unfold Handle.cursor
  simp only [hfaultless _, List.mapIdx_eq_zipIdx_map]
  rw [show (fun pair : α × Nat => Except.ok (ε := String) pair.1) = .ok ∘ Prod.fst from rfl,
    ← List.map_map, List.zipIdx_map_fst]

/-- The store that the engine reads from. -/
def Env.store (env : Env) (world : World) : Store View :=
  ⟨Handle.view.cursor env world, Handle.views.cursor env world, .ok⟩

theorem getTenantIps_eq (env : Env) (world : World) :
    ConsentEngine.getTenantIps env world = Action.ofExcept (env.store world).getTenantIps world :=
  find_bind Handle.view _ world

theorem getViews_eq (env : Env) (world : World) :
    ConsentEngine.getViews env world = Action.ofExcept (env.store world).getViews world :=
  find_bind Handle.views _ world

theorem consentBasedView_eq (env : Env) (id : String) (world : World) :
    ConsentEngine.consentBasedView env id world =
      Action.ofExcept ((env.store world).consentBasedView id) world :=
  find_bind Handle.views _ world

theorem store_of_faultless (hfaultless : env.Faultless) (world : World) :
    env.store world = ⟨.ok (world.view.rows.map .ok), .ok (world.views.rows.map .ok), .ok⟩ := by
  rw [Env.store, cursor_of_faultless hfaultless, cursor_of_faultless hfaultless]
  rfl

theorem getViews_of_faultless (hfaultless : env.Faultless) (world : World) :
    ConsentEngine.getViews env world = (.ok world.views.rows, world) := by
  rw [getViews_eq, store_of_faultless hfaultless]
  exact congrArg (Action.ofExcept · world) (collectViews_ok _)

theorem getTenantIps_of_faultless (hfaultless : env.Faultless) (world : World) :
    ConsentEngine.getTenantIps env world = (.ok (world.view.rows.map View.ip), world) := by
  have hips : ConsentEngine.collectIps .ok (world.view.rows.map .ok) =
      .ok (world.view.rows.map View.ip) := by
    rw [collectIps_eq_map, collectViews_ok]
    rfl
  rw [getTenantIps_eq, store_of_faultless hfaultless]
  exact congrArg (Action.ofExcept · world) hips

theorem consentBasedView_of_empty (hfaultless : env.Faultless) {id : String}
    (hviews : world.views = Table.empty) :
    ConsentEngine.consentBasedView env id world = (.err "could not find it", world) := by
  rw [consentBasedView_eq, store_of_faultless hfaultless, hviews]
  rfl

/-- All documents of the engine can be decoded, so every read has to work. -/
theorem conclusive_cursor_iff (coll : Handle View.id) :
    (∀ cursor, coll.cursor env world = .ok cursor → Conclusive .ok (fun _ => True) cursor) ↔
      env.Fails (.find coll.name) ∨
        ∀ index < (coll.get world).rows.length, ¬ env.Fails (.next coll.name index) := by
  unfold Handle.cursor
  cases hfind : env.fault (.find coll.name) with
  | some error => exact iff_of_true nofun (.inl ⟨error, hfind⟩)
  | none =>
      have hworks : ¬ env.Fails (.find coll.name) := by
        intro hfails
        obtain ⟨error, herror⟩ := hfails
        rw [hfind] at herror
        cases herror
      rw [or_iff_right hworks]
      constructor
      · intro hconclusive index hindex hfails
        obtain ⟨error, hnext⟩ := hfails
        rcases hconclusive _ rfl with hnone | ⟨item, -, hitem⟩
        · apply hnone error
          rw [List.mem_mapIdx]
          exact ⟨index, hindex, by rw [hnext]⟩
        · exact hitem item rfl trivial
      · intro hreads cursor hcursor
        obtain rfl := Except.ok.inj hcursor
        left
        intro error hmem
        obtain ⟨index, hindex, herror⟩ := List.mem_mapIdx.mp hmem
        cases hnext : env.fault (.next coll.name index) with
        | some fault => exact hreads index hindex ⟨fault, hnext⟩
        | none =>
            rw [hnext] at herror
            cases herror

/-- The engine sends all addresses, or an error, if and only if every document of `view`
is read. -/
theorem store_tenantIpsComplete_iff : (env.store world).TenantIpsComplete ↔
    env.Fails (.find .view) ∨
      ∀ index < world.view.rows.length, ¬ env.Fails (.next .view index) :=
  Store.tenantIpsComplete_iff.trans (conclusive_cursor_iff Handle.view)

theorem store_viewsComplete_iff : (env.store world).ViewsComplete ↔
    env.Fails (.find .views) ∨
      ∀ index < world.views.rows.length, ¬ env.Fails (.next .views index) :=
  Store.viewsComplete_iff.trans (conclusive_cursor_iff Handle.views)

end Engine
end Tolla
