/-
This file holds which calls an evaluation makes to objects.
-/

import Fluent.Evaluation
import Fluent.Proofs.Host.Trace

namespace Fluent

variable {World Obj α β : Type}

/-- The call that an object has been sent. An object that is marshalled has been sent none. -/
def HostCall.call? : HostCall World Obj → Option Call
  | .dispatch call _ _ _ => some call
  | .marshal _ _ _ => none

/-- A session of a host that keeps a record of its calls. -/
abbrev Session.Traced (World Obj : Type) :=
  Session (World × List (HostCall World Obj)) Obj

/-- The calls of a chain are sent one by one, up to the first that an object refuses. -/
inductive HostCall.Dispatched (target : String) :
    List Call → List (HostCall World Obj) → Except Error Unit → Prop
  | ended : Dispatched target [] [] (.ok ())
  | accepted {call : Call} {object : Obj} {world : World} {next : Next Obj} {calls : List Call}
      {made : List (HostCall World Obj)} {result : Except Error Unit}
      (others : Dispatched target calls made result) :
      Dispatched target (call :: calls) (.dispatch call object world (.ok next) :: made) result
  | refused {call : Call} {object : Obj} {world : World} {source : HostError}
      (calls : List Call) :
      Dispatched target (call :: calls) [.dispatch call object world (.error source)]
        (.error (.dispatch target call.name source))

namespace HostCall.Dispatched

variable {target : String} {calls : List Call} {made : List (HostCall World Obj)}

theorem append {more : List Call} {later : List (HostCall World Obj)}
    {result : Except Error Unit} (first : Dispatched target calls made (.ok ()))
    (second : Dispatched target more later result) :
    Dispatched target (calls ++ more) (made ++ later) result := by
  generalize accepted : Except.ok () = outcome at first
  induction first with
  | ended => exact second
  | accepted others hypothesis => exact .accepted (hypothesis accepted)
  | refused calls => cases accepted

/-- No call is sent behind one that is refused. -/
theorem stop {error : Error} (failed : Dispatched target calls made (.error error))
    (more : List Call) : Dispatched target (calls ++ more) made (.error error) := by
  generalize refused : Except.error error = outcome at failed
  induction failed with
  | ended => cases refused
  | accepted others hypothesis => exact .accepted (hypothesis refused)
  | refused calls => exact .refused (calls ++ more)

/-- What is sent are calls of the chain, and all of them if none is refused. -/
theorem isPrefix {result : Except Error Unit} (dispatched : Dispatched target calls made result) :
    made.map HostCall.call? <+: calls.map some ∧
      (result = .ok () → made.map HostCall.call? = calls.map some) := by
  induction dispatched with
  | ended => exact ⟨List.prefix_rfl, fun _ => rfl⟩
  | @accepted call _ _ _ _ _ _ others hypothesis =>
    obtain ⟨part, whole⟩ := hypothesis
    refine ⟨(List.prefix_cons_inj _).2 part, fun accepted => ?_⟩
    exact congrArg (some call :: ·) (whole accepted)
  | refused calls => exact ⟨List.prefix_append [_] _, nofun⟩

end HostCall.Dispatched

/-- From one session to another the host answers the given calls, and the table keeps its names. -/
structure Session.Adds (host : Host World Obj) (made : List (HostCall World Obj))
    (before after : Session.Traced World Obj) : Prop where
  calls : after.world.2 = before.world.2 ++ made
  names : after.symbols.names = before.symbols.names
  answered : ∀ call ∈ made, call.Answered host

namespace Session.Adds

variable {host : Host World Obj} {made later : List (HostCall World Obj)}
  {before middle after : Session.Traced World Obj}

theorem nothing (session : Session.Traced World Obj) : Session.Adds host [] session session :=
  ⟨(List.append_nil _).symm, rfl, List.forall_mem_nil _⟩

theorem trans (first : Session.Adds host made before middle)
    (second : Session.Adds host later middle after) :
    Session.Adds host (made ++ later) before after := by
  constructor
  · rw [second.calls, first.calls, List.append_assoc]
  · rw [second.names, first.names]
  · exact List.forall_mem_append.2 ⟨first.answered, second.answered⟩

theorem record (adds : Session.Adds host made before after) (records : List Record) :
    Session.Adds host made before (after.record records) :=
  ⟨adds.calls, adds.names, adds.answered⟩

end Session.Adds

section

variable (host : Host World Obj) (target : String)

/-- One call is sent, and the chain goes on if it is accepted. -/
theorem Focus.apply_dispatched (call : Call) (focus : Focus Obj)
    (session : Session.Traced World Obj) :
    let ran := focus.apply host.traced target call session
    ∃ made, Session.Adds host made session ran.2 ∧
      HostCall.Dispatched target [call] made (ran.1.map fun _ => ()) := by
  let answer := (host.dispatch call focus.object session.world.1).answer
  have adds : Session.Adds host [.dispatch call focus.object session.world.1 answer] session
      ((session.record [.dispatching target call]).absorb focus.home
        (host.traced.dispatch call focus.object session.world)) :=
    ⟨rfl, Session.names_absorb _ focus.home _, List.forall_mem_singleton.2 rfl⟩
  have replied : (host.traced.dispatch call focus.object session.world).answer = answer := rfl
  refine ⟨[.dispatch call focus.object session.world.1 answer], ?_⟩
  rw [Focus.apply]
  simp only [Session.world_record, replied]
  rcases answer with source | _ | next
  · exact ⟨adds.record _, .refused []⟩
  · exact ⟨adds, .accepted .ended⟩
  · exact ⟨adds, .accepted .ended⟩

theorem Focus.applyAll_dispatched (calls : List Call) (focus : Focus Obj)
    (session : Session.Traced World Obj) :
    let ran := focus.applyAll host.traced target calls session
    ∃ made, Session.Adds host made session ran.2 ∧
      HostCall.Dispatched target calls made (ran.1.map fun _ => ()) := by
  induction calls generalizing focus session with
  | nil => exact ⟨[], .nothing session, .ended⟩
  | cons call calls hypothesis =>
    obtain ⟨made, adds, first⟩ := focus.apply_dispatched host target call session
    rw [Focus.applyAll]
    rcases applied : focus.apply host.traced target call session with ⟨error | next, middle⟩
    · rw [applied] at adds first
      exact ⟨made, adds, first.stop calls⟩
    · rw [applied] at adds first
      obtain ⟨later, addsLater, others⟩ := hypothesis next middle
      exact ⟨made ++ later, adds.trans addsLater, first.append others⟩

/-- An object is marshalled once. -/
theorem Focus.marshal_adds (focus : Focus Obj) (session : Session.Traced World Obj) :
    let ran := focus.marshal host.traced target session
    ∃ object world answer, Session.Adds host [.marshal object world answer] session ran.2 ∧
      ran.1 = answer.mapError (.marshal target) := by
  let answer := (host.marshal focus.object session.world.1).answer
  refine ⟨focus.object, session.world.1, answer, ?_⟩
  have adds : Session.Adds host [.marshal focus.object session.world.1 answer] session
      (session.absorb focus.home (host.traced.marshal focus.object session.world)) :=
    ⟨rfl, Session.names_absorb _ focus.home _, List.forall_mem_singleton.2 rfl⟩
  have replied : (host.traced.marshal focus.object session.world).answer = answer := rfl
  rw [Focus.marshal]
  simp only [replied]
  rcases answer with source | bytes
  · exact ⟨adds.record _, rfl⟩
  · exact ⟨adds, rfl⟩

end

/-- Objects have been asked for what is given, or for the first of it up to a failure. -/
def Session.Asked (asked : List (Option Call)) (before : Session.Traced World Obj)
    (ran : Except Error α × Session.Traced World Obj) : Prop :=
  ∃ made, ran.2.world.2 = before.world.2 ++ made ∧ made.map HostCall.call? <+: asked ∧
    ∀ value, ran.1 = .ok value → made.map HostCall.call? = asked

namespace Session.Asked

variable {before middle after : Session.Traced World Obj} {asked more : List (Option Call)}

theorem nothing (outcome : Except Error α) : Session.Asked [] before (outcome, before) :=
  ⟨[], (List.append_nil _).symm, List.prefix_refl _, fun _ _ => rfl⟩

/-- Nothing more is asked for once something has failed. -/
theorem stop {error : Error} (more : List (Option Call))
    (failed : Session.Asked asked before ((.error error, after) : Except Error α × _)) :
    Session.Asked (asked ++ more) before ((.error error, after) : Except Error β × _) := by
  obtain ⟨made, added, part, -⟩ := failed
  exact ⟨made, added, part.trans (List.prefix_append _ _), nofun⟩

/-- What has been asked for does not depend on what is made of it. -/
theorem succeed {value : α} (succeeded : Session.Asked asked before (.ok value, after))
    (other : β) : Session.Asked asked before (.ok other, after) := by
  obtain ⟨made, added, part, whole⟩ := succeeded
  exact ⟨made, added, part, fun _ _ => whole value rfl⟩

/-- What has been asked before stays on the record. -/
theorem isPrefix {ran : Except Error α × Session.Traced World Obj}
    (asks : Session.Asked asked before ran) : before.world.2 <+: ran.2.world.2 := by
  obtain ⟨made, added, -⟩ := asks
  exact ⟨made, added.symm⟩

theorem append {value : α} {ran : Except Error β × Session.Traced World Obj}
    (first : Session.Asked asked before (.ok value, middle))
    (second : Session.Asked more middle ran) : Session.Asked (asked ++ more) before ran := by
  obtain ⟨made, added, -, whole⟩ := first
  obtain ⟨later, addedLater, part, wholeLater⟩ := second
  refine ⟨made ++ later, ?_, ?_, fun last succeeded => ?_⟩
  · rw [addedLater, added, List.append_assoc]
  · rw [List.map_append, whole value rfl]
    exact (List.prefix_append_right_inj _).2 part
  · rw [List.map_append, whole value rfl, wholeLater last succeeded]

end Session.Asked

/-- A chain asks of objects the calls that it consists of. -/
theorem Session.Asked.of_dispatched {host : Host World Obj} {target : String} {calls : List Call}
    {before : Session.Traced World Obj} {ran : Except Error α × Session.Traced World Obj}
    (sent : ∃ made, Session.Adds host made before ran.2 ∧
      HostCall.Dispatched target calls made (ran.1.map fun _ => ())) :
    Session.Asked (calls.map some) before ran := by
  obtain ⟨made, adds, dispatched⟩ := sent
  obtain ⟨part, whole⟩ := dispatched.isPrefix
  refine ⟨made, adds.calls, part, fun value succeeded => whole ?_⟩
  rw [succeeded]
  rfl

section

variable (host : Host World Obj) (target : String)

theorem Focus.apply_asked (call : Call) (focus : Focus Obj)
    (session : Session.Traced World Obj) :
    Session.Asked [some call] session (focus.apply host.traced target call session) :=
  .of_dispatched (focus.apply_dispatched host target call session)

theorem Focus.applyAll_asked (calls : List Call) (focus : Focus Obj)
    (session : Session.Traced World Obj) :
    Session.Asked (calls.map some) session
      (focus.applyAll host.traced target calls session) :=
  .of_dispatched (focus.applyAll_dispatched host target calls session)

theorem Focus.marshal_asked (focus : Focus Obj) (session : Session.Traced World Obj) :
    Session.Asked [none] session (focus.marshal host.traced target session) := by
  obtain ⟨object, world, answer, adds, -⟩ := focus.marshal_adds host target session
  exact ⟨_, adds.calls, List.prefix_rfl, fun _ _ => rfl⟩

end

/-- A chain of more calls goes on where one of fewer calls has succeeded. -/
theorem Focus.applyAll_append (host : Host World Obj) (target : String) (calls more : List Call)
    (focus : Focus Obj) (session : Session World Obj) :
    focus.applyAll host target (calls ++ more) session =
      match focus.applyAll host target calls session with
      | (.error error, session) => (.error error, session)
      | (.ok last, session) => last.applyAll host target more session := by
  induction calls generalizing focus session with
  | nil => rfl
  | cons call calls hypothesis =>
    simp only [List.cons_append, Focus.applyAll]
    rcases focus.apply host target call session with ⟨error | next, after⟩
    · rfl
    · exact hypothesis next after

namespace Definition

/-- Performs the calls of a definition on its receiver. -/
def dispatch (host : Host World Obj) (definition : Definition) (session : Session World Obj) :
    Except Error (Focus Obj) × Session World Obj :=
  match session.resolve definition.target definition.receiver with
  | .error missing => (.error missing, session)
  | .ok focus => focus.applyAll host definition.target definition.calls session

theorem dispatch_append (host : Host World Obj) (target receiver : String)
    (calls more : List Call) (session : Session World Obj) :
    dispatch host ⟨target, receiver, calls ++ more⟩ session =
      match dispatch host ⟨target, receiver, calls⟩ session with
      | (.error error, session) => (.error error, session)
      | (.ok focus, session) => focus.applyAll host target more session := by
  rw [dispatch, dispatch]
  rcases session.resolve target receiver with missing | focus
  · rfl
  · exact focus.applyAll_append host target calls more session

/-- A definition is evaluated by its calls and then by marshalling what they end on. -/
theorem evaluate_eq (host : Host World Obj) (definition : Definition)
    (session : Session World Obj) :
    definition.evaluate host session =
      match definition.dispatch host session with
      | (.error error, session) => (.error error, session)
      | (.ok focus, session) => focus.marshal host definition.target session := by
  rw [evaluate, dispatch]
  cases session.resolve definition.target definition.receiver <;> rfl

/-- Definitions are evaluated, and then the calls of the one that the input breaks off in. -/
def evaluateReached (host : Host World Obj) (definitions : List Definition)
    (unfinished : Option Definition) (session : Session World Obj) :
    Except Error Unit × Session World Obj :=
  match evaluateAll host definitions session with
  | (.error error, session) => (.error error, session)
  | (.ok _, session) =>
    match unfinished with
    | none => (.ok (), session)
    | some definition =>
      match definition.dispatch host session with
      | (.error error, session) => (.error error, session)
      | (.ok _, session) => (.ok (), session)

/-- What a definition asks of objects: its calls, and then to be marshalled. -/
def asks (definition : Definition) : List (Option Call) :=
  definition.calls.map some ++ [none]

/-- What definitions and the one that the input breaks off in ask of objects. -/
def asksReached (definitions : List Definition) (unfinished : Option Definition) :
    List (Option Call) :=
  definitions.flatMap asks ++ unfinished.elim [] fun definition => definition.calls.map some

section

variable (host : Host World Obj) (definition : Definition) (definitions : List Definition)
  (unfinished : Option Definition) (session : Session.Traced World Obj)

theorem dispatch_asked :
    Session.Asked (definition.calls.map some) session
      (definition.dispatch host.traced session) := by
  rw [dispatch]
  cases session.resolve definition.target definition.receiver with
  | error missing => exact (Session.Asked.nothing (α := Unit) (.error missing)).stop _
  | ok focus => exact focus.applyAll_asked host definition.target definition.calls session

theorem evaluate_asked :
    Session.Asked definition.asks session (definition.evaluate host.traced session) := by
  have first := definition.dispatch_asked host session
  rw [evaluate_eq]
  rcases dispatched : definition.dispatch host.traced session with ⟨error | focus, after⟩
  · rw [dispatched] at first
    exact first.stop [none]
  · rw [dispatched] at first
    exact first.append (focus.marshal_asked host definition.target after)

theorem evaluateAll_asked :
    Session.Asked (definitions.flatMap asks) session
      (evaluateAll host.traced definitions session) := by
  induction definitions generalizing session with
  | nil => exact .nothing (.ok [])
  | cons definition definitions hypothesis =>
    have first := definition.evaluate_asked host session
    rw [evaluateAll, List.flatMap_cons]
    rcases evaluated : definition.evaluate host.traced session with ⟨error | bytes, middle⟩
    · rw [evaluated] at first
      exact first.stop (definitions.flatMap asks)
    · rw [evaluated] at first
      have others := first.append (hypothesis middle)
      dsimp only
      rcases later : evaluateAll host.traced definitions middle with ⟨error | members, last⟩
      · rw [later] at others
        exact others
      · rw [later] at others
        exact others.succeed ((definition.target, bytes) :: members)

theorem evaluateReached_asked :
    Session.Asked (asksReached definitions unfinished) session
      (evaluateReached host.traced definitions unfinished session) := by
  have first := evaluateAll_asked host definitions session
  rw [evaluateReached, asksReached]
  rcases evaluated : evaluateAll host.traced definitions session with ⟨error | members, middle⟩
  · rw [evaluated] at first
    exact first.stop _
  · rw [evaluated] at first
    apply first.append
    cases unfinished with
    | none => exact .nothing (.ok ())
    | some definition =>
      have second := definition.dispatch_asked host middle
      dsimp only
      rcases dispatched : definition.dispatch host.traced middle with ⟨error | focus, last⟩
      · rw [dispatched] at second
        simpa using second.stop []
      · rw [dispatched] at second
        exact second.succeed ()

end

end Definition

end Fluent
