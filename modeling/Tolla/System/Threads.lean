import Tolla.Engine.Lifecycle
import Tolla.Engine.Poison
import Tolla.Engine.Stepwise

/-!
# Requests on many threads

The HTTP server and the TCP server each have a pool of threads, and all of them share one
engine behind one mutex.  A handler makes one backend call after the other, and in between
the other threads run.  `run` knows nothing of that: it serves one request after the other.

It is enough, because a handler has the lock from its first backend call to its last.
However the handlers are divided into steps (`Division`), into their backend calls
(`Division.byCalls`) or finer, every interleaving of the threads has the answers of a run, in
the order in which the requests left the lock, and whenever nobody has the lock the state of
this run; a request that was answered before another was made comes before it
(`service_linearizable`).

So what is proved of `run` holds of the threads.  Two examples: registrations of one user
at the same time do not both succeed (`registrations_exclusive`), and once a request has
unwound, all later ones that need the engine do (`panic_spreads`).
-/

namespace Tolla

open Effects

variable {κ : Type}

/-- A way to do the work of the handlers in steps. -/
abbrev Division := (input : Env × Request) → Stepwise (serve input.1 input.2)

namespace Division

/-- The engine behind its mutex, as the threads see it. -/
def object (division : Division) :
    Mutex.Object (Env × Request) Service (Outcome String Answer) where
  code input := (division input).code
  aside input := input.2.aside.map Outcome.ok
  run_aside input result haside service := by
    obtain ⟨answer, hanswer, rfl⟩ := Option.map_eq_some_iff.mp haside
    rw [(division input).run]
    exact serve_aside hanswer input.1 service

/-- One step for each backend call. -/
def byCalls : Division := fun input => .serve input.1 input.2

variable (division : Division)

theorem call_object (input : Env × Request) (service : Service) :
    division.object.call input service = serve input.1 input.2 service :=
  (division input).run service

theorem performed_object (order : List (κ × (Env × Request))) (service : Service) :
    Mutex.performed division.object order service = run (order.map Prod.snd) service := by
  induction order generalizing service with
  | nil => rfl
  | cons entry rest ih =>
      have hstep : (division.object.call entry.2 service).2 = step entry.2 service :=
        congrArg Prod.snd (division.call_object entry.2 service)
      calc Mutex.performed division.object (entry :: rest) service
        _ = Mutex.performed division.object rest (division.object.call entry.2 service).2 := rfl
        _ = run (rest.map Prod.snd) (step entry.2 service) := by rw [ih, hstep]

end Division

/-- What the threads do: a request is made, gets the lock, works and leaves it, or goes past
it, and is answered. -/
abbrev Threads (κ : Type) := Mutex.Shared κ (Env × Request) Service (Outcome String Answer)

variable [DecidableEq κ] {division : Division}

def Threads.run (division : Division) (events : List (Mutex.Event κ (Env × Request)))
    (service : Service) : Threads κ :=
  Mutex.run division.object events (.start service)

/-- The order is one in which the requests could have been served one after the other. -/
structure Linearized (division : Division) (events : List (Mutex.Event κ (Env × Request)))
    (service : Service) (order : List (κ × (Env × Request))) : Prop where
  once : (order.map Prod.fst).Nodup
  made : ∀ op input, (op, input) ∈ order → .invoke op input ∈ events
  state : (Threads.run division events service).holder = none →
    (Threads.run division events service).state = run (order.map Prod.snd) service
  answers : ∀ op outcome, (Threads.run division events service).stage op = .answered outcome →
    ∃ before input later, order = before ++ (op, input) :: later ∧
      (serve input.1 input.2 (run (before.map Prod.snd) service)).1 = outcome
  /-- A request that is answered before another is made comes before it. -/
  realTime : ∀ first second, events = first ++ second → ∀ op later outcome other,
    (Threads.run division first service).stage op = .answered outcome →
    (Threads.run division first service).stage later = .absent →
    (Threads.run division events service).stage later = .answered other →
    ∃ start input between entry rest,
      order = start ++ (op, input) :: (between ++ (later, entry) :: rest)

theorem linearized_run (division : Division) (events : List (Mutex.Event κ (Env × Request)))
    (service : Service) :
    Linearized division events service (Threads.run division events service).order := by
  have hserial := Mutex.serial_run division.object service events
  refine ⟨hserial.nodup, ?_, ?_, ?_, ?_⟩
  · intro op input hmem
    exact Mutex.given_run (.inr (.inr hmem))
  · intro hfree
    exact (hserial.free hfree).trans (division.performed_object _ service)
  · intro op outcome hstage
    obtain ⟨before, input, later, horder, hresult⟩ := hserial.result op outcome (by
      rw [show (Mutex.run _ _ _).stage op = _ from hstage]
      rfl)
    rw [division.performed_object, division.call_object] at hresult
    exact ⟨before, input, later, horder, hresult⟩
  · rintro first second rfl op later outcome other hop hlater hother
    exact Mutex.before_of_result (by
      rw [show (Mutex.run _ _ _).stage op = _ from hop]
      rfl) hlater (by
      rw [show (Mutex.run _ _ _).stage later = _ from hother]
      rfl)

/-- Whatever the threads do, and in whatever steps, there is such an order. -/
theorem service_linearizable (division : Division)
    (events : List (Mutex.Event κ (Env × Request))) (service : Service) :
    ∃ order, Linearized division events service order :=
  ⟨_, linearized_run division events service⟩

/-! ## Registrations at the same time -/

/-- The answer says that the request succeeded. -/
def Answer.confirms : Answer → Bool
  | .http response => response.status = .ok
  | .reply message => message.success

/-- A confirmed registration over HTTP was a successful onboarding. -/
theorem onboardOk_register {env : Env} {user : User} {service : Service} {answer : Answer}
    (hanswer : (serve env (.register (.ok user)) service).1 = .ok answer)
    (hconfirms : answer.confirms = true) :
    OnboardOk user.id service (env, .register (.ok user)) := by
  obtain ⟨response, after, hhandle, hpure⟩ := Action.bind_eq_ok (Prod.ext hanswer rfl)
  obtain rfl : Answer.http response = answer := Outcome.ok.inj (Prod.mk.inj hpure).1
  obtain ⟨result, between, hattempt, hresponse⟩ := Action.bind_eq_ok hhandle
  cases result with
  | error error =>
      obtain rfl : ⟨.badRequest, error⟩ = response := Outcome.ok.inj (Prod.mk.inj hresponse).1
      cases hconfirms
  | ok value =>
      have hlocked := Action.attempt_eq_ok hattempt
      exact ⟨healthy_of_locked hlocked, user.purposes, rfl,
        congrArg Prod.fst (locked_eq_ok hlocked)⟩

/-- A confirmed registration over TCP was a successful onboarding. -/
theorem onboardOk_message {env : Env} {user : Proto.NewUser} {service : Service}
    {answer : Answer} (hanswer : (serve env (.message ⟨some (.user user)⟩) service).1 = .ok answer)
    (hconfirms : answer.confirms = true) :
    OnboardOk user.userid service (env, .message ⟨some (.user user)⟩) := by
  obtain ⟨reply, after, hlocked, hpure⟩ := Action.bind_eq_ok (Prod.ext hanswer rfl)
  obtain rfl : Answer.reply reply = answer := Outcome.ok.inj (Prod.mk.inj hpure).1
  obtain ⟨result, between, hattempt, hreply⟩ := Action.bind_eq_ok (locked_eq_ok hlocked)
  obtain rfl : ConsentEngine.conclude result = reply := Outcome.ok.inj (Prod.mk.inj hreply).1
  cases result with
  | error error => cases hconfirms
  | ok value =>
      exact ⟨healthy_of_locked hlocked, ["static"], rfl,
        congrArg Prod.fst (Action.attempt_eq_ok hattempt)⟩

/-- A confirmed registration was a successful onboarding. -/
theorem onboardOk_of_confirms {input : Env × Request} {service : Service} {id : String}
    {purposes : List String} {answer : Answer}
    (hrequest : input.2.onboards = some (id, purposes))
    (hanswer : (serve input.1 input.2 service).1 = .ok answer)
    (hconfirms : answer.confirms = true) : OnboardOk id service input := by
  obtain ⟨env, request⟩ := input
  simp only [Request.onboards] at hrequest
  split at hrequest
  · obtain ⟨rfl, rfl⟩ := Prod.mk.inj (Option.some.inj hrequest)
    exact onboardOk_register hanswer hconfirms
  · obtain ⟨rfl, rfl⟩ := Prod.mk.inj (Option.some.inj hrequest)
    exact onboardOk_message hanswer hconfirms
  · cases hrequest

/-- Behind a successful onboarding there is no other one as long as nobody deboards the
user. -/
theorem not_onboardOk_again {id : String} {before between : List (Env × Request)}
    {first : Env × Request} {service : Service}
    (hfirst : OnboardOk id (Tolla.run before service) first)
    (hnever : ∀ input ∈ between, input.2.deboards ≠ some id) (second : Env × Request) :
    ¬ OnboardOk id (Tolla.run (before ++ first :: between) service) second := by
  intro hsecond
  rw [run_append_cons] at hsecond
  have halong : Runs.Along step (fun state input => ¬ DeboardOk id state input) between
      (step first (Tolla.run before service)) :=
    Runs.along_of_forall fun input hinput _ hdeboard => hnever input hinput hdeboard.2.1
  exact hsecond.view.1 (Runs.exec_along (P := fun state => state.world.view.HasKey id)
    (fun _ _ => view_kept_step) halong hfirst.view.2)

/-- The operation registers the user. -/
def Registers (events : List (Mutex.Event κ (Env × Request))) (id : String) (op : κ) : Prop :=
  ∀ input, .invoke op input ∈ events → ∃ purposes, input.2.onboards = some (id, purposes)

/-- The operation was told that it succeeded. -/
def Threads.Confirmed (threads : Threads κ) (op : κ) : Prop :=
  ∃ answer, threads.stage op = .answered (.ok answer) ∧ answer.confirms = true

/-- A confirmed registration has a place in the order, and there it succeeded. -/
theorem Linearized.onboardOk {events : List (Mutex.Event κ (Env × Request))}
    {service : Service} {order : List (κ × (Env × Request))} {id : String} {op : κ}
    (hlinear : Linearized division events service order) (hregisters : Registers events id op)
    (hconfirmed : (Threads.run division events service).Confirmed op) :
    ∃ before input later, order = before ++ (op, input) :: later ∧
      OnboardOk id (Tolla.run (before.map Prod.snd) service) input := by
  obtain ⟨answer, hstage, hconfirms⟩ := hconfirmed
  obtain ⟨before, input, later, horder, hanswer⟩ := hlinear.answers op _ hstage
  have hmade := hlinear.made op input (by simp [horder])
  obtain ⟨purposes, hrequest⟩ := hregisters input hmade
  exact ⟨before, input, later, horder, onboardOk_of_confirms hrequest hanswer hconfirms⟩

/-- As long as nobody deboards a user, at most one registration of the user is confirmed,
however many there are at the same time, and on whatever threads. -/
theorem registrations_exclusive {events : List (Mutex.Event κ (Env × Request))}
    {service : Service} {id : String}
    (hnever : ∀ op input, .invoke op input ∈ events → input.2.deboards ≠ some id)
    {first second : κ} (hfirst : Registers events id first) (hsecond : Registers events id second)
    (hdistinct : first ≠ second)
    (hfirstOk : (Threads.run division events service).Confirmed first) :
    ¬ (Threads.run division events service).Confirmed second := by
  intro hsecondOk
  have hlinear := linearized_run division events service
  obtain ⟨before, input, later, horder, honboard⟩ := hlinear.onboardOk hfirst hfirstOk
  obtain ⟨before', input', later', horder', honboard'⟩ := hlinear.onboardOk hsecond hsecondOk
  have hnone (op : κ) (entry : Env × Request)
      (hmem : (op, entry) ∈ (Threads.run division events service).order) :
      entry.2.deboards ≠ some id :=
    hnever op entry (hlinear.made op entry hmem)
  -- whichever of the two comes first, the other finds its row
  have hentries : (first, input) ≠ (second, input') := fun hsame => hdistinct (Prod.mk.inj hsame).1
  rcases Mutex.order_split (horder.symm.trans horder') hentries with ⟨between, rfl⟩ | ⟨between, rfl⟩
  · rw [List.map_append, List.map_cons] at honboard'
    refine not_onboardOk_again honboard (fun entry hentry => ?_) _ honboard'
    obtain ⟨⟨op, entry⟩, hmem, rfl⟩ := List.mem_map.mp hentry
    exact hnone op entry (by simp [horder', hmem])
  · rw [List.map_append, List.map_cons] at honboard
    refine not_onboardOk_again honboard' (fun entry hentry => ?_) _ honboard
    obtain ⟨⟨op, entry⟩, hmem, rfl⟩ := List.mem_map.mp hentry
    exact hnone op entry (by simp [horder, hmem])

/-- Alice is registered over HTTP and over TCP at the same time, and the one thread tries
between all steps of the other to get the lock and on with its work. -/
def alicesRegistrations : List (Mutex.Event Nat (Env × Request)) :=
  [.invoke 0 (Env.calm 7, .register (.ok ⟨"alice", ["research"]⟩)),
    .invoke 1 (Env.calm 8, .message ⟨some (.user ⟨"alice", "alice@example.org"⟩)⟩),
    .acquire 1] ++ (List.replicate 24 [.acquire 0, .work 1, .work 0]).flatten ++
  [.release 1, .respond 1, .acquire 0] ++ List.replicate 24 (.work 0) ++ [.release 0, .respond 0]

theorem of_mem_alicesRegistrations {op : Nat} {input : Env × Request}
    (hmem : .invoke op input ∈ alicesRegistrations) :
    input = (Env.calm 7, .register (.ok ⟨"alice", ["research"]⟩)) ∨
      input = (Env.calm 8, .message ⟨some (.user ⟨"alice", "alice@example.org"⟩)⟩) := by
  have hcases : op = 0 ∧ input = (Env.calm 7, .register (.ok ⟨"alice", ["research"]⟩)) ∨
      op = 1 ∧ input =
        (Env.calm 8, .message ⟨some (.user ⟨"alice", "alice@example.org"⟩)⟩) := by
    simpa [alicesRegistrations] using hmem
  exact hcases.imp And.right And.right

theorem registrations_exclusive_alice :
    ¬ (Threads.run .byCalls alicesRegistrations Service.blank).Confirmed 0 := by
  have hnever : ∀ op input, .invoke op input ∈ alicesRegistrations →
      input.2.deboards ≠ some "alice" := by
    intro op input hmem
    rcases of_mem_alicesRegistrations hmem with rfl | rfl
    · simp [Request.deboards]
    · simp [Request.deboards]
  have hregisters (op : Nat) : Registers alicesRegistrations "alice" op := by
    intro input hmem
    rcases of_mem_alicesRegistrations hmem with rfl | rfl
    · exact ⟨_, rfl⟩
    · exact ⟨_, rfl⟩
  exact registrations_exclusive hnever (hregisters 1) (hregisters 0) (by decide)
    ⟨.reply { success := true, msg := none }, by decide +kernel, rfl⟩

/-! ## Requests after a panic -/

theorem Threads.answer_at {events : List (Mutex.Event κ (Env × Request))} {service : Service}
    {op : κ} {outcome : Outcome String Answer}
    (hstage : (Threads.run division events service).stage op = .answered outcome)
    {before later : List (κ × (Env × Request))} {input : Env × Request}
    (horder : (Threads.run division events service).order = before ++ (op, input) :: later) :
    (serve input.1 input.2 (Tolla.run (before.map Prod.snd) service)).1 = outcome := by
  have hserial := Mutex.serial_run division.object service events
  rw [← division.performed_object, ← division.call_object]
  refine hserial.result_at ?_ horder
  rw [show (Mutex.run _ _ _).stage op = _ from hstage]
  rfl

/-- Once a request has unwound, every request that is made after it and is answered was
answered without the engine, or unwinds too. -/
theorem panic_spreads {first second : List (Mutex.Event κ (Env × Request))} {service : Service}
    {op later : κ} {message : String} {outcome : Outcome String Answer}
    (hpanic : (Threads.run division first service).stage op = .answered (.panic message))
    (hlater : (Threads.run division first service).stage later = .absent)
    (houtcome : (Threads.run division (first ++ second) service).stage later = .answered outcome) :
    ∃ input, .invoke later input ∈ first ++ second ∧
      match input.2.aside with
      | some answer => outcome = .ok answer
      | none => ∃ message, outcome = .panic message := by
  have hlinear := linearized_run division (first ++ second) service
  obtain ⟨start, input, between, entry, rest, horder⟩ :=
    hlinear.realTime first second rfl op later _ outcome hpanic hlater houtcome
  have hstage : (Threads.run division (first ++ second) service).stage op =
      .answered (.panic message) := by
    rw [Threads.run, Mutex.run_append]
    exact Mutex.answered_run second hpanic
  have hunwound := Threads.answer_at hstage horder
  have hplace : (Threads.run division (first ++ second) service).order =
      (start ++ (op, input) :: between) ++ (later, entry) :: rest := by
    rw [horder, List.append_assoc, List.cons_append]
  have hanswer := Threads.answer_at houtcome hplace
  -- the lock is poisoned, and remains so until the later request comes
  have hpoisoned : (Tolla.run ((start ++ (op, input) :: between).map Prod.snd)
      service).poisoned = true := by
    have hafter : (step input (Tolla.run (start.map Prod.snd) service)).poisoned = true :=
      (guarded_serve input.1 input.2).poisons _ ⟨message, hunwound⟩
    rw [List.map_append, List.map_cons, run_append_cons, run_stuck hafter]
    exact hafter
  refine ⟨entry, hlinear.made later entry (by simp [horder]), ?_⟩
  cases haside : entry.2.aside with
  | some answer =>
      rw [serve_aside haside] at hanswer
      exact hanswer.symm
  | none =>
      obtain ⟨text, hserve⟩ := serve_poisoned haside hpoisoned entry.1
      exact ⟨text, hanswer.symm.trans hserve⟩

/-- A proxy asks for a number that no row has. -/
def strangersLease : List (Mutex.Event Nat (Env × Request)) :=
  [.invoke 0 (Env.calm 0, .lease (Text.utf8 "user=5&intent=research")), .acquire 0, .work 0,
    .release 0, .respond 0]

/-- What everybody gets from then on. -/
def poisonError : Outcome String Answer :=
  .panic "called `Result::unwrap()` on an `Err` value: PoisonError"

theorem panic_spreads_stranger :
    ∃ input, .invoke 1 input ∈ strangersLease ++
        [.invoke 1 (Env.calm 1, .query none), .acquire 1, .work 1, .release 1, .respond 1] ∧
      match input.2.aside with
      | some answer => poisonError = .ok answer
      | none => ∃ message, poisonError = .panic message := by
  have hpanic : (Threads.run .byCalls strangersLease Service.blank).stage 0 =
      .answered (.panic "called `Option::unwrap()` on a `None` value") := rfl
  have hlater : (Threads.run .byCalls strangersLease Service.blank).stage 1 = .absent := rfl
  exact panic_spreads hpanic hlater rfl

end Tolla
