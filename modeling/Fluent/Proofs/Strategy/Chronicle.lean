/-
This file proves that the log of a run tells what has happened in it.
-/

import Fluent.Proofs.Parser.Walk
import Fluent.Proofs.Strategy.Atomicity
import Fluent.Proofs.Strategy.Interruption

namespace Fluent

variable {World Obj α β : Type}

/-- A run makes a record, or calls an object for a binding. -/
inductive Event (World Obj : Type) where
  | logged (record : Record)
  | called (binding : String) (call : HostCall World Obj)

/-- The records that an object leaves in the log when it is called. -/
def HostCall.records (host : Host World Obj) : HostCall World Obj → List Record
  | .dispatch call object world _ => (host.dispatch call object world).log
  | .marshal object world _ => (host.marshal object world).log

/-- The call that a record announces, with its binding. -/
def Record.announced? : Record → Option (String × Call)
  | .dispatching target call => some (target, call)
  | _ => none

/-- Whether a record reports that an object has refused something. -/
def Record.isReport : Record → Bool
  | .rejected _ _ _ | .marshalFailed _ _ => true
  | _ => false

/-- The report of an error, which is made where an object has refused something. -/
def Error.report? : Error → Option Record
  | .dispatch target method source => some (.rejected target method source)
  | .marshal target source => some (.marshalFailed target source)
  | .lexical _ | .unexpected _ | .receiverNotFound _ _ | .transport _ => none

/-- The report of an outcome. -/
def report? : Except Error α → Option Record
  | .ok _ => none
  | .error error => error.report?

theorem report?_eq_some {outcome : Except Error α} {record : Record}
    (reported : report? outcome = some record) : record.isReport = true := by
  cases outcome with
  | ok value => cases reported
  | error error =>
    cases error <;> cases reported <;> rfl

namespace Event

/-- What stands in the log of an event. -/
def records (host : Host World Obj) : Event World Obj → List Record
  | .logged record => [record]
  | .called _ call => call.records host

/-- The record that a run makes by itself. -/
def record? : Event World Obj → Option Record
  | .logged record => some record
  | .called _ _ => none

def call? : Event World Obj → Option (HostCall World Obj)
  | .logged _ => none
  | .called _ call => some call

/-- What an object is asked for, with the binding. An object that is marshalled gets no call. -/
def request? : Event World Obj → Option (String × Option Call)
  | .logged _ => none
  | .called binding call => some (binding, call.call?)

/-- The call that an object gets, with its binding. -/
def dispatched? : Event World Obj → Option (String × Call)
  | .logged _ => none
  | .called binding call => call.call?.map (binding, ·)

theorem logged_mem_iff {history : List (Event World Obj)} {record : Record} :
    .logged record ∈ history ↔ record ∈ history.filterMap record? := by
  rw [List.mem_filterMap]
  constructor
  · intro present
    exact ⟨_, present, rfl⟩
  · rintro ⟨event, present, same⟩
    cases event with
    | logged made =>
      obtain rfl := Option.some.inj same
      exact present
    | called binding call => cases same

/-- The events that are only records. -/
theorem filterMap_map_logged (records : List Record) :
    let history : List (Event World Obj) := records.map .logged
    history.filterMap record? = records ∧ history.filterMap call? = [] ∧
      history.filterMap request? = [] ∧ history.filterMap dispatched? = [] ∧
      ∀ host, history.flatMap (Event.records host) = records := by
  induction records with
  | nil => exact ⟨rfl, rfl, rfl, rfl, fun _ => rfl⟩
  | cons record records hypothesis =>
    obtain ⟨made, called, requested, dispatched, logged⟩ := hypothesis
    exact ⟨congrArg (record :: ·) made, called, requested, dispatched,
      fun host => congrArg (record :: ·) (logged host)⟩

end Event

/-- Objects are asked for what is given, or for the first of it if something fails. -/
structure Session.Chronicle (host : Host World Obj) (requests : List (String × Option Call))
    (before : Session.Traced World Obj) (ran : Except Error α × Session.Traced World Obj)
    (history : List (Event World Obj)) : Prop where
  log : ran.2.log = before.log ++ history.flatMap (Event.records host)
  calls : ran.2.world.2 = before.world.2 ++ history.filterMap Event.call?
  /-- The run announces every call, reports the failure, and makes no other record. -/
  records : history.filterMap Event.record? =
    (history.filterMap Event.dispatched?).map (fun sent => .dispatching sent.1 sent.2) ++
      (report? ran.1).toList
  part : history.filterMap Event.request? <+: requests
  whole : ∀ value, ran.1 = .ok value → history.filterMap Event.request? = requests

namespace Session.Chronicle

variable {host : Host World Obj} {requests more : List (String × Option Call)}
  {before middle after : Session.Traced World Obj} {history later : List (Event World Obj)}

theorem nothing (value : α) : Chronicle host [] before (.ok value, before) [] where
  log := (List.append_nil _).symm
  calls := (List.append_nil _).symm
  records := rfl
  part := List.prefix_rfl
  whole _ _ := rfl

/-- Where nothing is asked of objects, a failure is not reported. -/
theorem failed {error : Error} (silent : error.report? = none) :
    Chronicle host requests before ((.error error, before) : Except Error α × _) [] where
  log := (List.append_nil _).symm
  calls := (List.append_nil _).symm
  records := (congrArg Option.toList silent).symm
  part := List.nil_prefix
  whole := nofun

/-- A failure is the same whatever was to be made of a success. -/
theorem recast {error : Error}
    (failed : Chronicle host requests before ((.error error, after) : Except Error α × _) history) :
    Chronicle host requests before ((.error error, after) : Except Error β × _) history where
  log := failed.log
  calls := failed.calls
  records := failed.records
  part := failed.part
  whole := nofun

/-- Nothing more happens once something has failed. -/
theorem stop {error : Error} (more : List (String × Option Call))
    (failed : Chronicle host requests before ((.error error, after) : Except Error α × _) history) :
    Chronicle host (requests ++ more) before ((.error error, after) : Except Error β × _) history :=
  { failed.recast with
    part := failed.part.trans (List.prefix_append _ _)
    whole := nofun }

/-- What has happened does not depend on what is made of it. -/
theorem succeed {value : α} (done : Chronicle host requests before (.ok value, after) history)
    (other : β) : Chronicle host requests before (.ok other, after) history where
  log := done.log
  calls := done.calls
  records := done.records
  part := done.part
  whole _ _ := done.whole value rfl

/-- What goes wrong later, and not with an object, is not reported. -/
theorem fail {value : α} (done : Chronicle host requests before (.ok value, after) history)
    {error : Error} (silent : error.report? = none) :
    Chronicle host requests before ((.error error, after) : Except Error β × _) history where
  log := done.log
  calls := done.calls
  records := by
    rw [done.records]
    exact congrArg (_ ++ ·) (congrArg Option.toList silent).symm
  part := done.part
  whole := nofun

theorem append {value : α} {ran : Except Error β × Session.Traced World Obj}
    (first : Chronicle host requests before (.ok value, middle) history)
    (second : Chronicle host more middle ran later) :
    Chronicle host (requests ++ more) before ran (history ++ later) where
  log := by rw [second.log, first.log, List.flatMap_append, List.append_assoc]
  calls := by rw [second.calls, first.calls, List.filterMap_append, List.append_assoc]
  records := by
    have announced : history.filterMap Event.record? = _ ++ [] := first.records
    rw [List.filterMap_append, List.filterMap_append, List.map_append, announced, second.records,
      List.append_nil, List.append_assoc]
  part := by
    rw [List.filterMap_append, first.whole value rfl]
    exact (List.prefix_append_right_inj _).2 second.part
  whole last succeeded := by
    rw [List.filterMap_append, first.whole value rfl, second.whole last succeeded]

/-- Behind the opening of a run, no definition is recorded as read. -/
theorem not_parsed {outcome : Except Error α} (done : Chronicle host requests before
    (outcome, after) history) (definition : Definition) :
    .logged (.parsed definition) ∉ history := by
  rw [Event.logged_mem_iff, done.records, List.mem_append, not_or, Option.mem_toList]
  refine ⟨fun announced => ?_, fun reported => ?_⟩
  · obtain ⟨sent, -, same⟩ := List.mem_map.1 announced
    cases same
  · cases report?_eq_some reported

/-- A history that comes behind records that only open it. -/
theorem opened {opening : List Record} {ran : Except Error α × Session.Traced World Obj}
    (body : Chronicle host requests (before.record opening) ran history) :
    let whole := opening.map .logged ++ history
    ran.2.log = before.log ++ whole.flatMap (Event.records host) ∧
      ran.2.world.2 = before.world.2 ++ whole.filterMap Event.call? ∧
      whole.filterMap Event.request? <+: requests ∧
      whole.filterMap Event.record? = opening ++
        (whole.filterMap Event.dispatched?).map (fun sent => .dispatching sent.1 sent.2) ++
        (report? ran.1).toList := by
  obtain ⟨made, called, requested, dispatched, logged⟩ :=
    @Event.filterMap_map_logged World Obj opening
  dsimp only
  rw [List.flatMap_append, List.filterMap_append, List.filterMap_append, List.filterMap_append,
    List.filterMap_append, made, called, requested, dispatched, logged]
  refine ⟨?_, body.calls, body.part, ?_⟩
  · rw [body.log, ← List.append_assoc]
    rfl
  · rw [body.records, ← List.append_assoc]
    rfl

end Session.Chronicle

section

variable (host : Host World Obj) (target : String)

/-- A call is announced, an object gets it, and if it is refused, that is reported. -/
theorem Focus.apply_chronicle (call : Call) (focus : Focus Obj)
    (session : Session.Traced World Obj) :
    ∃ history, Session.Chronicle host [(target, some call)] session
      (focus.apply host.traced target call session) history := by
  let reply := host.dispatch call focus.object session.world.1
  let announcement := Record.dispatching target call
  let made : HostCall World Obj := .dispatch call focus.object session.world.1 reply.answer
  let answered := (session.record [announcement]).absorb focus.home
    (host.traced.dispatch call focus.object session.world)
  have accepted (next : Focus Obj) :
      Session.Chronicle host [(target, some call)] session (.ok next, answered)
        [.logged announcement, .called target made] := by
    refine ⟨?_, rfl, rfl, List.prefix_rfl, fun _ _ => rfl⟩
    show session.log ++ [announcement] ++ reply.log =
      session.log ++ ([announcement] ++ (reply.log ++ []))
    simp
  have replied : (host.traced.dispatch call focus.object session.world).answer = reply.answer := rfl
  rw [Focus.apply]
  simp only [Session.world_record, replied]
  cases reply.answer with
  | ok taken => cases taken <;> exact ⟨_, accepted _⟩
  | error source =>
    let report := Record.rejected target call.name source
    refine ⟨[.logged announcement, .called target made, .logged report], ?_, rfl, rfl,
      List.prefix_rfl, fun _ succeeded => by cases succeeded⟩
    show session.log ++ [announcement] ++ reply.log ++ [report] =
      session.log ++ ([announcement] ++ (reply.log ++ ([report] ++ [])))
    simp

theorem Focus.applyAll_chronicle (calls : List Call) (focus : Focus Obj)
    (session : Session.Traced World Obj) :
    ∃ history, Session.Chronicle host (calls.map fun call => (target, some call)) session
      (focus.applyAll host.traced target calls session) history := by
  induction calls generalizing focus session with
  | nil => exact ⟨[], .nothing focus⟩
  | cons call calls hypothesis =>
    obtain ⟨history, first⟩ := focus.apply_chronicle host target call session
    rw [Focus.applyAll]
    rcases applied : focus.apply host.traced target call session with ⟨error | next, middle⟩
    · rw [applied] at first
      exact ⟨history, first.stop _⟩
    · rw [applied] at first
      obtain ⟨later, others⟩ := hypothesis next middle
      exact ⟨history ++ later, first.append others⟩

/-- An object is marshalled without announcement, and if it cannot be, that is reported. -/
theorem Focus.marshal_chronicle (focus : Focus Obj) (session : Session.Traced World Obj) :
    ∃ history, Session.Chronicle host [(target, none)] session
      (focus.marshal host.traced target session) history := by
  let reply := host.marshal focus.object session.world.1
  let made : HostCall World Obj := .marshal focus.object session.world.1 reply.answer
  have replied : (host.traced.marshal focus.object session.world).answer = reply.answer := rfl
  rw [Focus.marshal]
  simp only [replied]
  cases reply.answer with
  | ok bytes =>
    refine ⟨[.called target made], ?_, rfl, rfl, List.prefix_rfl, fun _ _ => rfl⟩
    show session.log ++ reply.log = session.log ++ (reply.log ++ [])
    simp
  | error source =>
    let report := Record.marshalFailed target source
    refine ⟨[.called target made, .logged report], ?_, rfl, rfl, List.prefix_rfl,
      fun _ succeeded => by cases succeeded⟩
    show session.log ++ reply.log ++ [report] = session.log ++ (reply.log ++ ([report] ++ []))
    simp

end

namespace Definition

/-- What a definition asks of objects, with its binding. -/
def requests (definition : Definition) : List (String × Option Call) :=
  definition.asks.map (definition.target, ·)

/-- What definitions and the one that the input breaks off in ask of objects, with the bindings. -/
def requestsReached (definitions : List Definition) (unfinished : Option Definition) :
    List (String × Option Call) :=
  definitions.flatMap requests ++
    unfinished.elim [] fun definition =>
      definition.calls.map fun call => (definition.target, some call)

section

variable (host : Host World Obj) (definition : Definition) (definitions : List Definition)
  (unfinished : Option Definition) (session : Session.Traced World Obj)

theorem dispatch_chronicle :
    ∃ history, Session.Chronicle host
      (definition.calls.map fun call => (definition.target, some call)) session
      (definition.dispatch host.traced session) history := by
  rw [dispatch, Session.resolve]
  cases session.symbols.get? definition.receiver with
  | none => exact ⟨[], .failed rfl⟩
  | some object => exact Focus.applyAll_chronicle host definition.target definition.calls _ session

theorem evaluate_chronicle :
    ∃ history, Session.Chronicle host definition.requests session
      (definition.evaluate host.traced session) history := by
  obtain ⟨history, first⟩ := definition.dispatch_chronicle host session
  rw [evaluate_eq, requests, asks, List.map_append, List.map_map]
  rcases dispatched : definition.dispatch host.traced session with ⟨error | focus, middle⟩
  · rw [dispatched] at first
    exact ⟨history, first.stop _⟩
  · rw [dispatched] at first
    obtain ⟨later, last⟩ := focus.marshal_chronicle host definition.target middle
    exact ⟨history ++ later, first.append last⟩

theorem evaluateAll_chronicle :
    ∃ history, Session.Chronicle host (definitions.flatMap requests) session
      (evaluateAll host.traced definitions session) history := by
  induction definitions generalizing session with
  | nil => exact ⟨[], .nothing []⟩
  | cons definition definitions hypothesis =>
    obtain ⟨history, first⟩ := definition.evaluate_chronicle host session
    rw [evaluateAll, List.flatMap_cons]
    rcases evaluated : definition.evaluate host.traced session with ⟨error | bytes, middle⟩
    · rw [evaluated] at first
      exact ⟨history, first.stop _⟩
    · rw [evaluated] at first
      obtain ⟨later, others⟩ := hypothesis middle
      have both := first.append others
      dsimp only
      rcases evaluatedAll : evaluateAll host.traced definitions middle with ⟨error | members, last⟩
      · rw [evaluatedAll] at both
        exact ⟨history ++ later, both.recast⟩
      · rw [evaluatedAll] at both
        exact ⟨history ++ later, both.succeed _⟩

theorem evaluateReached_chronicle :
    ∃ history, Session.Chronicle host (requestsReached definitions unfinished) session
      (evaluateReached host.traced definitions unfinished session) history := by
  obtain ⟨history, first⟩ := evaluateAll_chronicle host definitions session
  rw [evaluateReached, requestsReached]
  rcases evaluated : evaluateAll host.traced definitions session with ⟨error | members, middle⟩
  · rw [evaluated] at first
    exact ⟨history, first.stop _⟩
  · rw [evaluated] at first
    cases unfinished with
    | none =>
      rw [Option.elim_none, List.append_nil]
      exact ⟨history, first.succeed ()⟩
    | some definition =>
      obtain ⟨later, second⟩ := definition.dispatch_chronicle host middle
      have both := first.append second
      dsimp only
      rcases dispatched : definition.dispatch host.traced middle with ⟨error | focus, last⟩
      · rw [dispatched] at both
        exact ⟨history ++ later, both.recast⟩
      · rw [dispatched] at both
        exact ⟨history ++ later, both.succeed ()⟩

end

end Definition

/-- What the records of a run tell of it. -/
structure Event.Tells (history : List (Event World Obj)) (result : Except Error Unit) : Prop where
  /-- The calls that objects get are announced, in order, with the binding. -/
  announced : (history.filterMap record?).filterMap Record.announced? =
    history.filterMap dispatched?
  rejected : ∀ target method source, .logged (.rejected target method source) ∈ history ↔
    result = .error (.dispatch target method source)
  marshalFailed : ∀ target source, .logged (.marshalFailed target source) ∈ history ↔
    result = .error (.marshal target source)
  /-- Only the last record that a run makes is a report. -/
  last : ∀ record ∈ (history.filterMap record?).dropLast, record.isReport = false

section

variable {history : List (Event World Obj)} {opening : List Record} {result : Except Error Unit}

/-- What records tell of a run that makes them at its opening, for calls, and for its failure. -/
theorem Event.tells_of_records
    (opens : ∀ record ∈ opening, record.announced? = none ∧ record.isReport = false)
    (records : history.filterMap record? = opening ++
      (history.filterMap dispatched?).map (fun sent => .dispatching sent.1 sent.2) ++
      (report? result).toList) : Tells history result := by
  have plain : ∀ record ∈ opening ++
      (history.filterMap dispatched?).map (fun sent => Record.dispatching sent.1 sent.2),
      record.isReport = false := by
    rw [List.forall_mem_append]
    refine ⟨fun record opened => (opens record opened).2, fun record announced => ?_⟩
    obtain ⟨sent, -, rfl⟩ := List.mem_map.1 announced
    rfl
  have reported {record : Record} (reports : record.isReport = true) :
      .logged record ∈ history ↔ report? result = some record := by
    rw [logged_mem_iff, records, List.mem_append, Option.mem_toList]
    refine or_iff_right fun early => ?_
    rw [plain record early] at reports
    cases reports
  constructor
  · have opened : opening.filterMap Record.announced? = [] :=
      List.filterMap_eq_nil_iff.2 fun record opened => (opens record opened).1
    have closed : (report? result).toList.filterMap Record.announced? = [] := by
      refine List.filterMap_eq_nil_iff.2 fun record last => ?_
      have reports := report?_eq_some (Option.mem_toList.1 last)
      cases record <;> first | rfl | cases reports
    rw [records, List.filterMap_append, List.filterMap_append, opened, closed, List.filterMap_map,
      List.append_nil, List.nil_append]
    exact List.filterMap_some
  · intro target method source
    rw [reported rfl]
    cases result with
    | ok value => exact ⟨nofun, nofun⟩
    | error error => cases error <;> simp [report?, Error.report?]
  · intro target source
    rw [reported rfl]
    cases result with
    | ok value => exact ⟨nofun, nofun⟩
    | error error => cases error <;> simp [report?, Error.report?]
  · intro record early
    apply plain
    rw [records] at early
    cases last : report? result with
    | none =>
      rw [last, Option.toList_none, List.append_nil] at early
      exact List.dropLast_subset _ early
    | some report =>
      rwa [last, Option.toList_some, List.dropLast_concat] at early

end

/-- The errors of a parser are no fault of an object. -/
theorem Parser.report?_report (mismatch : Grammar.Mismatch) (parser : Parser) :
    (parser.report mismatch).1.report? = none := by
  have pending {error : Error} (silent : error.report? = none) :
      (parser.faultOr error).1.report? = none := by
    rw [faultOr]
    cases parser.fault with
    | none => exact silent
    | some fault => rfl
  obtain ⟨expected, _ | lexeme⟩ := mismatch
  · exact pending rfl
  · by_cases illegal : lexeme.kind = .illegal
    · rw [report_of_illegal illegal]
      split
      · exact pending rfl
      · rfl
    · rw [report_of_legal illegal]
      rfl

theorem Parser.report?_of_definitions {parser : Parser} (going : parser.done = false)
    {error : Error} (failed : parser.definitions.2.1 = some error) : error.report? = none := by
  rw [parser.error_definitions going] at failed
  split at failed
  next mismatch stopped =>
    obtain rfl := Option.some.inj failed
    exact parser.report?_report mismatch
  next through =>
    obtain ⟨fault, -, rfl⟩ := Option.map_eq_some_iff.1 failed
    rfl

section

variable {τ : Type} [Sink τ] {contents : τ → List UInt8} {sink : τ}

/-- An input that ends in good order breaks off in no definition. -/
theorem Remainder.unfinished?_of_error? {remainder : Remainder}
    (finished : remainder.error? = none) : remainder.unfinished? = none := by
  cases remainder with
  | finished => rfl
  | broken target error => rfl
  | begun target receiver calls error => cases finished

/-- The definitions of an input that a strategy reads before it evaluates any are recorded. -/
def Strategy.readings (strategy : Strategy) (definitions : List Definition) : List Record :=
  match strategy with
  | .twoPhase => definitions.map .parsed
  | .streaming => []

/-- A two-phase evaluation records each definition that it reads, and then evaluates them. -/
theorem TwoPhase.run_chronicle (takes : Sink.TakesAll contents sink) (host : Host World Obj)
    (parser : Parser) (going : parser.done = false) (session : Session World Obj) :
    let outline := parser.outline
    let ran := TwoPhase.run host.traced parser session.untraced sink
    ∃ opening history,
      (∀ record ∈ opening, ∃ count, record = .evaluating count) ∧
      Session.Chronicle host
        (Definition.requestsReached outline.definitions outline.remainder.unfinished?)
        (session.untraced.record (outline.definitions.map .parsed ++ opening)) (ran.1, ran.2.1)
        history := by
  obtain ⟨same, ending⟩ := parser.definitions_eq_outline going
  dsimp only
  cases read : parser.program.1 with
  | error error =>
    have failed := (parser.program_eq_error_iff error).1 read
    rw [TwoPhase.run_of_unparsed host.traced read, same]
    refine ⟨[], [], nofun, ?_⟩
    rw [List.append_nil]
    exact .failed (Parser.report?_of_definitions going failed)
  | ok program =>
    obtain ⟨sameProgram, finished⟩ := (parser.program_eq_ok_iff program).1 read
    have definitions := same.symm.trans sameProgram
    have complete : parser.outline.remainder.unfinished? = none :=
      Remainder.unfinished?_of_error? (ending.symm.trans finished)
    rw [TwoPhase.run_of_parsed takes host.traced read, definitions, complete]
    let opening := [Record.evaluating program.definitions.length]
    have start : (session.untraced.record (program.definitions.map .parsed)).record opening =
        session.untraced.record (program.definitions.map .parsed ++ opening) :=
      congrArg (Session.mk session.untraced.symbols session.untraced.world)
        (List.append_assoc session.untraced.log _ _)
    obtain ⟨history, body⟩ := Definition.evaluateAll_chronicle host program.definitions
      (session.untraced.record (program.definitions.map .parsed ++ opening))
    refine ⟨opening, history, List.forall_mem_singleton.2 ⟨_, rfl⟩, ?_⟩
    rw [start]
    generalize Definition.evaluateAll host.traced program.definitions _ = evaluated at body
    obtain ⟨error | members, last⟩ := evaluated
    · exact body.stop []
    · rw [Definition.requestsReached, Option.elim_none, List.append_nil]
      exact body.succeed ()

/-- A streaming evaluation evaluates the definitions of its input as far as the input goes. -/
theorem Streaming.run_chronicle (takes : Sink.TakesAll contents sink) (host : Host World Obj)
    (parser : Parser) (going : parser.done = false) (session : Session World Obj) :
    let ran := Streaming.run host.traced parser session.untraced sink
    ∃ history, Session.Chronicle host
      (Definition.requestsReached parser.outline.definitions parser.outline.remainder.unfinished?)
      (session.untraced.record [.streaming]) (ran.1, ran.2.1) history := by
  obtain ⟨sameSession, sameResult⟩ :=
    Streaming.run_eq_evaluateReached takes host.traced parser session.untraced
  obtain ⟨history, body⟩ := Definition.evaluateReached_chronicle host parser.outline.definitions
    parser.outline.remainder.unfinished? (session.untraced.record [.streaming])
  dsimp only
  rw [sameSession, sameResult]
  generalize Definition.evaluateReached host.traced _ _ _ = reached at body
  obtain ⟨failure | value, last⟩ := reached
  · exact ⟨history, body⟩
  · cases ending : parser.outline.remainder.error? with
    | none => exact ⟨history, body⟩
    | some error =>
      have failed : parser.definitions.2.1 = some error :=
        (parser.definitions_eq_outline going).2.trans ending
      exact ⟨history, body.fail (Parser.report?_of_definitions going failed)⟩

/-- A run opens with records that are no announcements, and then asks objects in order. -/
theorem Strategy.run_chronicle (takes : Sink.TakesAll contents sink) (strategy : Strategy)
    (host : Host World Obj) (parser : Parser) (going : parser.done = false)
    (session : Session World Obj) :
    let ran := strategy.run host.traced parser session.untraced sink
    ∃ opening history,
      (∀ record ∈ opening, record = .streaming ∨ ∃ count, record = .evaluating count) ∧
      Session.Chronicle host
        (Definition.requestsReached parser.outline.definitions
          parser.outline.remainder.unfinished?)
        (session.untraced.record (strategy.readings parser.outline.definitions ++ opening))
        (ran.1, ran.2.1) history := by
  cases strategy with
  | twoPhase =>
    obtain ⟨opening, history, opens, body⟩ := TwoPhase.run_chronicle takes host parser going session
    exact ⟨opening, history, fun record opened => .inr (opens record opened), body⟩
  | streaming =>
    obtain ⟨history, body⟩ := Streaming.run_chronicle takes host parser going session
    exact ⟨[.streaming], history, List.forall_mem_singleton.2 (.inl rfl), body⟩

/-- The log of a run announces each call that an object gets, and reports a failure last. -/
theorem Strategy.log_tells_run (takes : Sink.TakesAll contents sink) (strategy : Strategy)
    (host : Host World Obj) (input : Input) (session : Session World Obj) :
    let ran := strategy.run host input.parser session sink
    ∃ (definitions : List Definition) (unfinished : Option Definition)
      (history later : List (Event World Obj)),
      Program.Reached (Lexer.tokens input.characters) definitions unfinished ∧
      input.parser.definitions.1 = definitions ∧
      ran.2.1.log = session.log ++ history.flatMap (Event.records host) ∧
      history.filterMap Event.call? = strategy.hostCalls host input.parser session sink ∧
      history.filterMap Event.request? <+: Definition.requestsReached definitions unfinished ∧
      Event.Tells history ran.1 ∧
      history = (strategy.readings definitions).map .logged ++ later ∧
      ∀ definition, .logged (.parsed definition) ∉ later := by
  have going : input.parser.done = false := by cases input <;> rfl
  have reached := input.parser.reached_outline
  rw [input.tokens_ahead] at reached
  obtain ⟨opening, history, opens, body⟩ :=
    strategy.run_chronicle takes host input.parser going session
  obtain ⟨log, calls, part, records⟩ := body.opened
  have plain : ∀ record ∈ strategy.readings input.parser.outline.definitions ++ opening,
      record.announced? = none ∧ record.isReport = false := by
    rw [List.forall_mem_append]
    constructor
    · intro record read
      cases strategy with
      | twoPhase =>
        obtain ⟨definition, -, rfl⟩ := List.mem_map.1 read
        exact ⟨rfl, rfl⟩
      | streaming => cases read
    · intro record opened
      obtain rfl | ⟨count, rfl⟩ := opens record opened
      · exact ⟨rfl, rfl⟩
      · exact ⟨rfl, rfl⟩
  have tells := Event.tells_of_records plain records
  have split := List.append_assoc
    ((strategy.readings input.parser.outline.definitions).map Event.logged)
    (opening.map Event.logged) history
  rw [← List.map_append] at split
  intro ran
  rw [show ran = _ from (strategy.run_traced host input.parser session sink).symm]
  refine ⟨_, _, _, opening.map .logged ++ history, reached,
    (input.parser.definitions_eq_outline going).1, log, calls.symm, part, tells, split,
    fun definition => ?_⟩
  rw [List.mem_append, not_or]
  refine ⟨fun present => ?_, body.not_parsed definition⟩
  obtain ⟨record, opened, same⟩ := List.mem_map.1 present
  cases same
  obtain same | ⟨count, same⟩ := opens _ opened
  · cases same
  · cases same

end

theorem Strategy.log_tells_run_refused :
    let refusal := HostError.unknownMethod ⟨"B", "e"⟩
    let host := Host.nullsRefusing "e" refusal [.noMethod "B" "e"]
    let session := Session.withReceiver "b" ()
    let input := Input.text "a := b.c(); d := b.e().f();"
    let first : Definition := ⟨"a", "b", [⟨"c", []⟩]⟩
    let second : Definition := ⟨"d", "b", [⟨"e", []⟩, ⟨"f", []⟩]⟩
    let ran := Strategy.twoPhase.run host input.parser session Output.unlimited
    Sink.TakesAll Output.written Output.unlimited ∧
      ran.1 = .error (.dispatch "d" "e" refusal) ∧
      ran.2.1.log =
        [.parsed first, .parsed second, .evaluating 2, .dispatching "a" ⟨"c", []⟩,
          .dispatching "d" ⟨"e", []⟩, .noMethod "B" "e", .rejected "d" "e" refusal] ∧
      ∃ history : List (Event Unit Unit),
        ran.2.1.log = history.flatMap (Event.records host) ∧
          .logged (.rejected "d" "e" refusal) ∈ history := by
  intro refusal host session input first second ran
  have failed : ran.1 = .error (.dispatch "d" "e" refusal) := by decide +kernel
  obtain ⟨-, -, history, -, -, -, log, -, -, tells, -⟩ :=
    Strategy.log_tells_run Output.takesAll_unlimited .twoPhase host input session
  exact ⟨Output.takesAll_unlimited, failed, by decide +kernel, history, log,
    (tells.rejected "d" "e" refusal).2 failed⟩

end Fluent
