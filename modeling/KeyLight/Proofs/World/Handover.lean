import KeyLight.Proofs.Scheduler.Succession
import KeyLight.Proofs.World.Callback
import KeyLight.Proofs.World.Retention

/-!
# Handing over the arguments of a thread

A script that starts a thread gives it arguments, and they are put away until the thread is resumed
for the first time. The main statement follows them there: the first visit to the thread calls its
function with the arguments as they were given, the places of nil included, and every later visit
goes on without any, so that a call which waits gives nothing.
-/

namespace KeyLight

open Machine

namespace World

/-- A call of the capability to start threads with a function starts a thread that is to be called
with the other arguments. -/
theorem call_thread (place : Place) (w : World) {f : Value} (hf : f.isFunction = true)
    (args : List Value) (frames : List Frame) :
    call place w (.builtin (.capability .thread)) (f :: args) frames =
      .running (Effect.startThread w f args).2 (.give (Effect.startThread w f args).1) frames := by
  have hroutine : ((Stack.ofArguments (f :: args)).get? 1).filter Value.isFunction = some f := by
    simp [Stack.ofArguments, Stack.get?, hf]
  have heffect : Capability.thread.effect w (.ofArguments (f :: args)) = .ok (.start f args) := by
    simp only [Capability.effect, hroutine]
    rfl
  simp only [call, callCapability, entryPoint_body, heffect, Effect.perform]
  have hresults := Stack.results_foldl_push (.ofArguments (f :: args))
    [(Effect.startThread w f args).1]
  simp only [List.foldl_cons, List.foldl_nil, List.length_singleton] at hresults
  rw [hresults]
  rfl

/-- A call of the capability to wait fails, or it suspends the thread around the call. -/
theorem call_wait (w : World) (args : List Value) (frames : List Frame) :
    (∃ f, call .thread w (.builtin (.capability .wait)) args frames =
      .running w (.raise f) frames) ∨
    ∃ w' vs seconds, call .thread w (.builtin (.capability .wait)) args frames =
      .halted w' (.yielded vs frames args) ∧
        outcome w'.heap (.yielded vs frames args) =
          .suspended seconds (.suspended frames args) := by
  cases hx : (Stack.ofArguments args).finiteNumber 1 "wait" with
  | error e =>
    refine .inl ⟨.call e, ?_⟩
    have heffect : Capability.wait.effect w (.ofArguments args) = .error (.call e) := by
      simp only [Capability.effect, hx]
      rfl
    simp only [call, callCapability, entryPoint_body, heffect]
  | ok x =>
    obtain ⟨vs, w', hcall, houtcome, -⟩ := @callCapability_wait w args frames x hx
    exact .inr ⟨w', vs, _, hcall, houtcome⟩

/-- What a thread of a script has left to do after a visit is to be continued. -/
theorem exists_frames_of_paidBy {onPrint : World → World} {fuel : Nat} {v : Visit Coroutine}
    (hpaid : v.PaidBy (resumeHeard onPrint fuel)) {rest : Coroutine}
    (hrest : v.outcome.rest? = some rest) : ∃ frames kept, rest = .suspended frames kept := by
  obtain ⟨r, r', h⟩ := hpaid
  unfold resumeHeard at h
  split at h
  · cases h
  · rename_i halt w hrun
    obtain ⟨houtcome, -⟩ := Prod.mk.inj (Option.some.inj h)
    obtain ⟨-, frames, kept, -, rfl⟩ := exists_frames_of_rest? (houtcome ▸ hrest)
    exact ⟨frames, kept, rfl⟩

/-- Visits to a thread that goes on continue it. -/
theorem suspended_of_goesOn {next last : Option Coroutine} {visits : List (Visit Coroutine)}
    (h : Scheduler.GoesOn next visits last)
    (hpaid : ∀ v ∈ visits, ∃ onPrint fuel, v.PaidBy (resumeHeard onPrint fuel))
    (hnext : ∀ rest, next = some rest → ∃ frames kept, rest = .suspended frames kept) :
    ∀ v ∈ visits, ∃ frames kept, v.routine = .suspended frames kept := by
  induction h with
  | nil => exact fun _ hv => absurd hv List.not_mem_nil
  | @cons v visits last _ ih =>
    obtain ⟨⟨onPrint, fuel, hv⟩, hpaid⟩ := List.forall_mem_cons.mp hpaid
    refine List.forall_mem_cons.mpr ⟨hnext v.routine rfl, ih hpaid fun rest hrest => ?_⟩
    exact exists_frames_of_paidBy hv hrest

/-- The first visit to a thread calls its function, and the later ones continue it. -/
theorem fresh_of_goesOn {f : Value} {args : List Value} {first : Visit Coroutine}
    {later : List (Visit Coroutine)} {last : Option Coroutine}
    (h : Scheduler.GoesOn (some (.fresh f args)) (first :: later) last)
    (hpaid : ∀ v ∈ first :: later, ∃ onPrint fuel, v.PaidBy (resumeHeard onPrint fuel)) :
    first.routine = .fresh f args ∧
      ∀ v ∈ later, ∃ frames kept, v.routine = .suspended frames kept := by
  generalize hroutine : some (Coroutine.fresh f args) = next at h
  cases h with
  | cons hlater =>
    obtain ⟨⟨onPrint, fuel, hfirst⟩, hpaid⟩ := List.forall_mem_cons.mp hpaid
    exact ⟨(Option.some.inj hroutine).symm,
      suspended_of_goesOn hlater hpaid fun _ => exists_frames_of_paidBy hfirst⟩

/-- **The arguments of a thread are handed over once, and as they were given.** A script calls the
capability to start threads with a function and any arguments, on the main script or in the middle
of a tick. It is given the handle of a thread that was not visited before, nor in that tick. The
later visits to the thread go on from one another, whatever else happens between them. The first one
calls the function with just the arguments that were given; at each other one nothing is passed, and
what suspended the thread, as a call that waits does, gives no more than nil. -/
theorem arguments_arrive_once {past visits more : List (Visit Coroutine)}
    {s s₁ s₂ : Scheduler Coroutine} (hpast : Scheduler.Course .empty past s) {place : Place}
    {w : World} {f : Value} (hf : f.isFunction = true) {args : List Value} {frames : List Frame}
    {next : Next}
    (hcall : call place w (.builtin (.capability .thread)) (f :: args) frames = next)
    (hstart : Scheduler.Amid w.scheduler next.world.scheduler s visits s₁)
    (hmore : Scheduler.Course s₁ more s₂)
    (hpaid : ∀ v ∈ more, ∃ onPrint fuel, v.PaidBy (resumeHeard onPrint fuel)) :
    ∃ id handle w', next = .running w' (.give handle) frames ∧
      w'.heap.object? handle = some (.thread ⟨id⟩) ∧
      (∀ v ∈ past ++ visits, v.id ≠ id) ∧
      (∃ last, Scheduler.GoesOn (some (.fresh f args)) (Scheduler.visitsTo id more) last) ∧
      (∀ first later, Scheduler.visitsTo id more = first :: later →
        first.routine.passed = args ∧
        (∀ w, entry w first.routine = call .thread w f args []) ∧
        ∀ v ∈ later, v.routine.passed = [] ∧
          ∃ rest kept, v.routine = .suspended rest kept ∧
            ∀ w, entry w v.routine = .running w (.give .nil) rest) ∧
      ∀ w waited rest,
        (∃ fault, call .thread w (.builtin (.capability .wait)) waited rest =
          .running w (.raise fault) rest) ∨
        ∃ w' vs seconds, call .thread w (.builtin (.capability .wait)) waited rest =
          .halted w' (.yielded vs rest waited) ∧
            outcome w'.heap (.yielded vs rest waited) =
              .suspended seconds (.suspended rest waited) := by
  rw [call_thread place w hf] at hcall
  subst hcall
  let id : ThreadId := (w.scheduler.spawn (.fresh f args)).1
  obtain ⟨hunvisited, last, hgoes⟩ :=
    Scheduler.Amid.goesOn hpast hstart hmore
  refine ⟨id, _, _, rfl, Heap.object?_addObject .., hunvisited, ⟨last, hgoes⟩,
    fun first later hto => ?_, call_wait⟩
  have hmem : ∀ v ∈ first :: later, v ∈ more := fun v hv => (List.mem_filter.mp (hto ▸ hv)).1
  obtain ⟨hfirst, hlater⟩ := fresh_of_goesOn (hto ▸ hgoes) fun v hv => hpaid v (hmem v hv)
  rw [hfirst]
  refine ⟨Coroutine.passed_fresh f args, fun w => entry_fresh w f args, fun v hv => ?_⟩
  obtain ⟨rest, kept, hrest⟩ := hlater v hv
  rw [hrest]
  exact ⟨rfl, rest, kept, rfl, fun _ => rfl⟩

/-- A world with a function of three parameters that waits for as many seconds as the second one
says. -/
def waiterWorld : World :=
  let r := Environment.firstRealm .empty .linear
  let waiter : Closure := ⟨["a", "b", "c"], [.discard (.call (.name "wait") [.name "b"])], []⟩
  ⟨{ r with heap := r.heap.addClosure waiter }, .empty⟩

/-- The main script starts a thread that calls the function with nil, one and nil. -/
def waiterCall : Next :=
  call .main waiterWorld (.builtin (.capability .thread)) [.closure 0, .nil, .int 1, .nil] []

/-- A tick at a time, with its visits, of what another one has left behind. -/
def quietTick (now : Float) (r : Realm) (s : Scheduler Coroutine) :
    Option (Except Violation TickSummary × (Realm × List (Visit Coroutine)) × Scheduler Coroutine) :=
  Scheduler.tick (resumeThread 20).recorded now (r, []) s

/-- The thread is resumed twice, a second apart: with the three arguments, and then with none. -/
theorem arguments_arrive_once_waiter :
    ∃ more s first second, Scheduler.Course waiterCall.world.scheduler more s ∧
      Scheduler.visitsTo 1 more = [first, second] ∧
      first.routine.passed = [.nil, .int 1, .nil] ∧ second.routine.passed = [] := by
  have hticks : ((quietTick 0.0 waiterCall.world.toRealm waiterCall.world.scheduler).bind
      fun (_, (r, visits), s) => (quietTick 1.0 r s).map
        fun (_, (_, visits'), _) => (visits ++ visits').map Visit.id) = some [1, 1] := by
    decide +kernel
  obtain ⟨⟨_, ⟨r₁, visits⟩, s₁⟩, h₁, hrest⟩ := Option.bind_eq_some_iff.mp hticks
  obtain ⟨⟨_, ⟨r₂, visits'⟩, s₂⟩, h₂, hids⟩ := Option.map_eq_some_iff.mp hrest
  -- the ticks are those of an environment, whose controller does nothing
  have hquiet : (resumeThread 20).Disturbs :=
    resumeHeard_id 20 ▸ resumeHeard_disturbs fun _ => .refl
  have hmore := (Scheduler.Course.nil.tick hquiet h₁).tick hquiet h₂
  rw [List.nil_append] at hmore
  obtain ⟨first, rest, hvisits, hfirst, hrest⟩ := List.map_eq_cons_iff.mp hids
  obtain ⟨second, rest, rfl, hsecond, hnil⟩ := List.map_eq_cons_iff.mp hrest
  obtain rfl := List.map_eq_nil_iff.mp hnil
  have hto : Scheduler.visitsTo 1 (visits ++ visits') = [first, second] := by
    rw [hvisits, Scheduler.visitsTo]
    simp [hfirst, hsecond]
  have hpaid : ∀ v ∈ visits ++ visits', ∃ onPrint fuel, v.PaidBy (resumeHeard onPrint fuel) := by
    intro v hv
    refine ⟨fun w => w, 20, ?_⟩
    rw [resumeHeard_id]
    exact (List.mem_append.mp hv).elim (Scheduler.paid_of_tick h₁ v) (Scheduler.paid_of_tick h₂ v)
  have hcall : call .main waiterWorld (.builtin (.capability .thread))
      (.closure 0 :: [.nil, .int 1, .nil]) [] = waiterCall := rfl
  obtain ⟨id, handle, w', hnext, hhandle, -, -, hpassed, -⟩ :=
    arguments_arrive_once .nil rfl hcall .between hmore hpaid
  rw [show waiterCall = _ from call_thread .main waiterWorld rfl _ []] at hnext
  obtain ⟨rfl, hgive, -⟩ := Next.running.inj hnext
  obtain rfl := Control.give.inj hgive
  obtain rfl : 1 = id := by
    have hobject := (Heap.object?_addObject ..).symm.trans hhandle
    exact congrArg ThreadHandle.id (Object.thread.inj (Option.some.inj hobject))
  obtain ⟨hfirst, -, hlater⟩ := hpassed first [second] hto
  exact ⟨_, s₂, first, second, hmore, hto, hfirst, (hlater second (by simp)).1⟩

end World

end KeyLight
