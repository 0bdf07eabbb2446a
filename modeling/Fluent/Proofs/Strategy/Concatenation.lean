/-
This file proves that evaluation goes along with concatenation.
-/

import Fluent.Proofs.Host.Marshalling
import Fluent.Proofs.Parser.Concatenation
import Fluent.Proofs.Strategy.Agreement
import Fluent.Proofs.Strategy.Calls

namespace Fluent

variable {World Obj : Type}

namespace Answer

/-- What an answer has between its braces, in braces. -/
def braced (body : List UInt8) : List UInt8 :=
  openBrace ++ body ++ closeBrace

/-- The members of two answers as those of one. -/
def join (first second : List UInt8) : List UInt8 :=
  if second = [] then first else if first = [] then second else first ++ separator ++ second

theorem encode_eq_braced (entries : List (String × List UInt8)) :
    encode entries = braced (body true entries) :=
  encode_eq_body entries

theorem body_append (first : Bool) (entries later : List (String × List UInt8)) :
    body first (entries ++ later) =
      body first entries ++ body (first && entries.isEmpty) later := by
  induction entries generalizing first with
  | nil => simp [body]
  | cons entry entries hypothesis => simp [body, hypothesis, List.append_assoc]

theorem exists_body_concat (first : Bool) (entries : List (String × List UInt8))
    (target : String) (value : List UInt8) :
    ∃ before, body first (entries ++ [(target, value)]) = before ++ member target value := by
  refine ⟨body first entries ++ if first && entries.isEmpty then [] else separator, ?_⟩
  rw [body_append, body, body, List.append_nil, List.append_assoc]

theorem body_eq_nil_iff {entries : List (String × List UInt8)} :
    body true entries = [] ↔ entries = [] := by
  cases entries with
  | nil => simp [body]
  | cons entry entries =>
    have written : key entry.1 ≠ [] := by
      rw [← List.length_pos_iff, key, Utf8.length_encode]
      exact Nat.add_pos_left (Char.utf8Size_pos _) _
    simp [body, member, written]

theorem body_eq_join (entries later : List (String × List UInt8)) :
    body true (entries ++ later) = join (body true entries) (body true later) := by
  rw [body_append, join]
  cases later with
  | nil => simp [body]
  | cons entry later =>
    rw [if_neg (body_eq_nil_iff.not.2 (List.cons_ne_nil entry later))]
    cases entries with
    | nil => simp [body]
    | cons first entries =>
      rw [if_neg (body_eq_nil_iff.not.2 (List.cons_ne_nil first entries))]
      simp [body, List.append_assoc]

end Answer

/-- Definitions behind others are performed where those have succeeded. -/
theorem Definition.perform_append (host : Host World Obj) (definitions later : List Definition)
    (session : Session World Obj) :
    let performed := perform host definitions session
    perform host (definitions ++ later) session =
      match performed.failure with
      | some _ => performed
      | none =>
        let others := perform host later performed.session
        { others with members := performed.members ++ others.members } := by
  induction definitions generalizing session with
  | nil => rfl
  | cons definition definitions hypothesis =>
    simp only [List.cons_append, perform]
    rcases definition.evaluate host session with ⟨error | bytes, after⟩
    · rfl
    · simp only [hypothesis]
      rcases perform host definitions after with ⟨members, _ | failure, last⟩ <;> rfl

/-- A definition that fails has its target named. -/
theorem Definition.exists_target_of_failed {host : Host World Obj}
    {definitions : List Definition} {session : Session World Obj} {error : Error}
    (failed : (perform host definitions session).result = .error error) :
    ∃ target, (perform host definitions session).failure = some ⟨some target, error⟩ := by
  induction definitions generalizing session with
  | nil => cases failed
  | cons definition definitions hypothesis =>
    rw [perform] at failed ⊢
    rcases evaluated : definition.evaluate host session with ⟨refusal | bytes, after⟩
    · rw [evaluated] at failed
      cases failed
      exact ⟨definition.target, rfl⟩
    · rw [evaluated] at failed
      exact hypothesis failed

/-- What has been recorded before a run does not change it. -/
theorem Host.shows_later (host : Host World Obj) (earlier : List (HostCall World Obj)) :
    Host.Shows (fun world => (world.1, earlier ++ world.2)) host.traced host.traced where
  dispatch call object world := by simp [traced, Reply.translate]
  marshal object world := by simp [traced, Reply.translate]

/-- Definitions behind others do what they do alone on the session that those leave. -/
theorem Definition.perform_traced_append (host : Host World Obj)
    (definitions later : List Definition) {session : Session.Traced World Obj}
    {middle : Session World Obj} :
    let one := perform host.traced definitions session
    let two := perform host.traced later middle.untraced
    let both := perform host.traced (definitions ++ later) session
    one.failure = none → middle.symbols = one.session.symbols →
      middle.world = one.session.world.1 →
      both.members = one.members ++ two.members ∧ both.failure = two.failure ∧
        both.session.symbols = two.session.symbols ∧
        both.session.world = (two.session.world.1, one.session.world.2 ++ two.session.world.2) := by
  intro one two both finished symbols world
  have split : both = { perform host.traced later one.session with
      members := one.members ++ (perform host.traced later one.session).members } := by
    have appended := perform_append host.traced definitions later session
    dsimp only at appended
    rw [finished] at appended
    exact appended
  have same := perform_of_same_state host.traced later one.session
    (middle.untraced.translate (fun world => (world.1, one.session.world.2 ++ world.2)) [])
    symbols.symm (by simp [Session.untraced, world])
  rw [perform_translate (host.shows_later one.session.world.2)] at same
  obtain ⟨members, failure, sameSymbols, sameWorld⟩ := same
  rw [split]
  exact ⟨congrArg (one.members ++ ·) members, failure, sameSymbols, sameWorld⟩

/-- What a run on a program writes. A two-phase evaluation that fails writes nothing. -/
def Strategy.answer (strategy : Strategy) (performed : Performance World Obj) : List UInt8 :=
  let whole := Answer.encode (performed.members ++ performed.remains)
  match strategy with
  | .twoPhase => if performed.failure.isSome then [] else whole
  | .streaming => whole

namespace Strategy

variable {one two : Performance World Obj}

theorem answer_congr (strategy : Strategy) (members : one.members = two.members)
    (failure : one.failure = two.failure) : strategy.answer one = strategy.answer two := by
  have remains : one.remains = two.remains := by
    rw [Performance.remains, Performance.remains, failure]
  cases strategy with
  | twoPhase => simp only [answer, members, failure, remains]
  | streaming => simp only [answer, members, remains]

theorem answer_of_finished (strategy : Strategy) (finished : one.failure = none) :
    strategy.answer one = Answer.braced (Answer.body true one.members) := by
  have remains : one.remains = [] := by
    rw [Performance.remains, finished]
  rw [← Answer.encode_eq_braced]
  cases strategy with
  | twoPhase => simp [answer, finished, remains]
  | streaming => simp [answer, remains]

theorem answer_twoPhase_of_failed {failure : Failure} (failed : one.failure = some failure) :
    twoPhase.answer one = [] := by
  simp [answer, failed]

theorem answer_streaming_of_failed {target : String} {error : Error}
    (failed : one.failure = some ⟨some target, error⟩) :
    streaming.answer one =
      Answer.braced (Answer.body true (one.members ++ [(target, Answer.failure error)])) := by
  rw [answer, Answer.encode_eq_braced, Performance.remains, failed]

end Strategy

section

variable {τ : Type} [Sink τ] {contents : τ → List UInt8} {sink : τ}

/-- On a program, a run records the performance of its definitions. -/
theorem Strategy.exists_recorded_of_parsed (takes : Sink.TakesAll contents sink)
    (strategy : Strategy) (host : Host World Obj) (parser : Parser) (going : parser.done = false)
    {program : Program} (parsed : parser.program.1 = .ok program) (session : Session World Obj) :
    ∃ records,
      let performed := Definition.perform host program.definitions (session.record records)
      performed.Recorded contents sink (strategy.answer performed)
        (strategy.run host parser session sink) := by
  obtain ⟨sameDefinitions, finished⟩ := (parser.program_eq_ok_iff program).1 parsed
  obtain ⟨outlined, ending⟩ := parser.definitions_eq_outline going
  rw [finished] at ending
  rw [← sameDefinitions, outlined]
  cases strategy with
  | twoPhase =>
    have recorded := TwoPhase.run_recorded takes host parser going session
    rw [← ending] at recorded
    dsimp only at recorded
    have logged : (session.record (parser.outline.definitions.map .parsed)).record
        [.evaluating parser.outline.definitions.length] =
          session.record (parser.outline.definitions.map .parsed ++
            [.evaluating parser.outline.definitions.length]) := by
      simp [Session.record, List.append_assoc]
    rw [logged] at recorded
    refine ⟨_, recorded.result, recorded.session, recorded.output.trans ?_, recorded.takes⟩
    rw [answer, Performance.remains]
    cases (Definition.perform host parser.outline.definitions _).failure <;> simp
  | streaming =>
    have recorded := Streaming.run_recorded takes host parser session
    rw [Outline.perform_of_finished host parser.outline ending.symm] at recorded
    exact ⟨[.streaming], recorded⟩

/-- The calls, the state and the output on a program are those of performing its definitions. -/
theorem Strategy.run_of_parsed (takes : Sink.TakesAll contents sink) (strategy : Strategy)
    (host : Host World Obj) (parser : Parser) (going : parser.done = false) {program : Program}
    (parsed : parser.program.1 = .ok program) (session : Session World Obj) :
    let performed := Definition.perform host.traced program.definitions session.untraced
    let ran := strategy.run host parser session sink
    ran.1 = performed.result ∧ ran.2.1.symbols = performed.session.symbols ∧
      (ran.2.1.world, strategy.hostCalls host parser session sink) = performed.session.world ∧
      contents ran.2.2 = contents sink ++ strategy.answer performed := by
  intro performed ran
  obtain ⟨records, recorded⟩ :=
    strategy.exists_recorded_of_parsed takes host.traced parser going parsed session.untraced
  obtain ⟨members, failure, symbols, world⟩ :=
    Definition.perform_of_same_state host.traced program.definitions
      (session.untraced.record records) session.untraced rfl rfl
  have untraced : Prod.map id (Prod.map (Session.translate Prod.fst []) id) _ = ran :=
    strategy.run_traced host parser session sink
  rw [← untraced]
  refine ⟨?_, ?_, ?_, ?_⟩
  · rw [Performance.result, ← failure]
    exact recorded.result
  · rw [← symbols, ← recorded.session]
    rfl
  · rw [← world, ← recorded.session]
    rfl
  · refine recorded.output.trans ?_
    rw [strategy.answer_congr members failure]

/-- Behind a program that succeeds, a program does what it does alone on the session left. -/
theorem Strategy.run_append (takes : Sink.TakesAll contents sink) (strategy : Strategy)
    (host : Host World Obj) {first second : String} {program other : Program}
    (parsed : parse first = .ok program) (parsedOther : parse second = .ok other)
    (session : Session World Obj) :
    let one := strategy.run host (Parser.ofString first) session sink
    let two := strategy.run host (Parser.ofString second) one.2.1 sink
    let both := strategy.run host (Parser.ofString (first ++ second)) session sink
    one.1 = .ok () →
      both.1 = two.1 ∧ both.2.1.symbols = two.2.1.symbols ∧ both.2.1.world = two.2.1.world ∧
      strategy.hostCalls host (Parser.ofString (first ++ second)) session sink =
        strategy.hostCalls host (Parser.ofString first) session sink ++
          strategy.hostCalls host (Parser.ofString second) one.2.1 sink ∧
      ∃ members, contents one.2.2 = contents sink ++ Answer.braced members ∧
        (two.1 = .ok () → ∃ others, contents two.2.2 = contents sink ++ Answer.braced others ∧
          contents both.2.2 = contents sink ++ Answer.braced (Answer.join members others)) ∧
        ∀ error, two.1 = .error error →
          match strategy with
          | .twoPhase => contents two.2.2 = contents sink ∧ contents both.2.2 = contents sink
          | .streaming => ∃ before target,
            let others := before ++ Answer.member target (Answer.failure error)
            contents two.2.2 = contents sink ++ Answer.braced others ∧
              contents both.2.2 = contents sink ++ Answer.braced (Answer.join members others) := by
  intro one two both succeeded
  obtain ⟨result, symbols, record, output⟩ :=
    strategy.run_of_parsed takes host (Parser.ofString first) rfl parsed session
  obtain ⟨resultTwo, symbolsTwo, recordTwo, outputTwo⟩ :=
    strategy.run_of_parsed takes host (Parser.ofString second) rfl parsedOther one.2.1
  obtain ⟨resultBoth, symbolsBoth, recordBoth, outputBoth⟩ :=
    strategy.run_of_parsed takes host (Parser.ofString (first ++ second)) rfl
      (parse_append_of_parsed parsed parsedOther) session
  have finished := Performance.result_eq_ok_iff.1 (result.symm.trans succeeded)
  have composed := Definition.perform_traced_append host program.definitions other.definitions
    finished symbols (congrArg Prod.fst record)
  obtain ⟨membersBoth, failureBoth, sameSymbols, sameWorld⟩ := composed
  rw [sameWorld, ← recordTwo, ← record, Prod.mk.injEq] at recordBoth
  refine ⟨?_, (symbolsBoth.trans sameSymbols).trans symbolsTwo.symm, recordBoth.1, recordBoth.2,
    _, output.trans (congrArg _ (strategy.answer_of_finished finished)), fun succeededTwo => ?_,
    fun error failed => ?_⟩
  · rw [resultBoth, resultTwo, Performance.result, Performance.result, failureBoth]
  · have finishedTwo := Performance.result_eq_ok_iff.1 (resultTwo.symm.trans succeededTwo)
    refine ⟨_, outputTwo.trans (congrArg _ (strategy.answer_of_finished finishedTwo)), ?_⟩
    rw [outputBoth, strategy.answer_of_finished (failureBoth.trans finishedTwo), membersBoth,
      Answer.body_eq_join]
  · obtain ⟨target, failedTwo⟩ :=
      Definition.exists_target_of_failed (resultTwo.symm.trans failed)
    cases strategy with
    | twoPhase =>
      rw [outputTwo, outputBoth, answer_twoPhase_of_failed failedTwo,
        answer_twoPhase_of_failed (failureBoth.trans failedTwo), List.append_nil]
      exact ⟨rfl, rfl⟩
    | streaming =>
      obtain ⟨before, others⟩ := Answer.exists_body_concat true
        (Definition.perform host.traced other.definitions one.2.1.untraced).members target
        (Answer.failure error)
      refine ⟨before, target, ?_, ?_⟩
      · rw [outputTwo, answer_streaming_of_failed failedTwo, others]
      · rw [outputBoth, answer_streaming_of_failed (failureBoth.trans failedTwo), membersBoth,
          List.append_assoc, Answer.body_eq_join, others]

end

theorem Strategy.run_append_missing_receiver :
    let host := Host.nulls
    let session := Session.withReceiver "b" ()
    let first := Parser.ofString "a := b.c();"
    let second := Parser.ofString "d := e.f();"
    let both := Parser.ofString ("a := b.c();" ++ "d := e.f();")
    let one := streaming.run host first session Output.unlimited
    Sink.TakesAll Output.written Output.unlimited ∧
      parse "a := b.c();" = .ok ⟨[⟨"a", "b", [⟨"c", []⟩]⟩]⟩ ∧
      parse "d := e.f();" = .ok ⟨[⟨"d", "e", [⟨"f", []⟩]⟩]⟩ ∧ one.1 = .ok () ∧
      (streaming.run host both session Output.unlimited).1 =
        .error (.receiverNotFound "d" "e") ∧
      streaming.hostCalls host both session Output.unlimited =
        streaming.hostCalls host first session Output.unlimited ++
          streaming.hostCalls host second one.2.1 Output.unlimited := by
  intro host session first second both one
  have takes := Output.takesAll_unlimited
  have parsed : parse "a := b.c();" = .ok ⟨[⟨"a", "b", [⟨"c", []⟩]⟩]⟩ :=
    (first.program_eq_ok_iff _).2 (by decide +kernel)
  have parsedOther : parse "d := e.f();" = .ok ⟨[⟨"d", "e", [⟨"f", []⟩]⟩]⟩ :=
    (second.program_eq_ok_iff _).2 (by decide +kernel)
  have succeeded : one.1 = .ok () :=
    (streaming.run_of_parsed takes host first rfl parsed session).1
  obtain ⟨symbols, -⟩ := (streaming.run_of_parsed takes host first rfl parsed session).2
  obtain ⟨result, -, -, calls, -⟩ :=
    Strategy.run_append takes streaming host parsed parsedOther session succeeded
  obtain ⟨fails, -⟩ := streaming.run_of_parsed takes host second rfl parsedOther one.2.1
  refine ⟨takes, parsed, parsedOther, succeeded, (result.trans fails).trans ?_, calls⟩
  have missing : one.2.1.symbols = session.symbols := symbols
  simp only [Definition.perform, Definition.evaluate, Session.resolve, Session.untraced,
    Session.symbols_translate, missing]
  rfl

end Fluent
