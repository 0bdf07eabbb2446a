/-
This file holds what a streaming evaluation does with an input that is cut.
-/

import Fluent.Proofs.Host.Marshalling
import Fluent.Proofs.Parser.Closings
import Fluent.Proofs.Strategy.Agreement
import Fluent.Proofs.Strategy.Interruption

namespace Fluent

variable {World Obj α β : Type}

namespace Definition

theorem evaluateReached_cons (host : Host World Obj) (definition : Definition)
    (definitions : List Definition) (unfinished : Option Definition)
    (session : Session World Obj) :
    evaluateReached host (definition :: definitions) unfinished session =
      match definition.evaluate host session with
      | (.error error, session) => (.error error, session)
      | (.ok _, session) => evaluateReached host definitions unfinished session := by
  simp only [evaluateReached, evaluateAll]
  rcases definition.evaluate host session with ⟨error | bytes, after⟩
  · rfl
  · dsimp only
    rcases evaluateAll host definitions after with ⟨error | members, last⟩ <;> rfl

theorem evaluateReached_append (host : Host World Obj) (definitions others : List Definition)
    (unfinished : Option Definition) (session : Session World Obj) :
    evaluateReached host (definitions ++ others) unfinished session =
      match evaluateAll host definitions session with
      | (.error error, session) => (.error error, session)
      | (.ok _, session) => evaluateReached host others unfinished session := by
  induction definitions generalizing session with
  | nil => rfl
  | cons definition definitions hypothesis =>
    rw [List.cons_append, evaluateReached_cons, evaluateAll]
    rcases definition.evaluate host session with ⟨error | bytes, after⟩
    · rfl
    · dsimp only
      rw [hypothesis]
      rcases evaluateAll host definitions after with ⟨error | members, last⟩ <;> rfl

end Definition

/-- A longer run ends where a shorter one has failed, and else goes on from where that ends. -/
def Session.Continues (first : Except Error α × Session.Traced World Obj)
    (whole : Except Error β × Session.Traced World Obj) : Prop :=
  whole.2 = first.2 ∨
    (∃ value, first.1 = .ok value) ∧ first.2.world.2 <+: whole.2.world.2

/-- A shorter run makes the first calls of a longer one, as many as it asks for. -/
theorem Session.Asked.take_of_continues {asked : List (Option Call)}
    {before : Session.Traced World Obj} {first : Except Error α × Session.Traced World Obj}
    {whole : Except Error β × Session.Traced World Obj}
    (asks : Session.Asked asked before first) (fresh : before.world.2 = [])
    (continues : Session.Continues first whole) :
    first.2.world.2 = whole.2.world.2.take asked.length := by
  obtain ⟨made, added, part, all⟩ := asks
  rw [fresh, List.nil_append] at added
  have most := part.length_le
  rw [List.length_map] at most
  rcases continues with same | ⟨⟨value, succeeded⟩, more, goesOn⟩
  · rw [same, added, List.take_of_length_le most]
  · have count : made.length = asked.length := by
      rw [← all value succeeded, List.length_map]
    rw [← goesOn, added, ← count, List.take_left]

namespace Definition

section

variable (host : Host World Obj) (session : Session.Traced World Obj)

/-- More calls are made behind fewer ones. -/
theorem dispatch_isPrefix_append {target receiver : String} {calls : List Call}
    {focus : Focus Obj} {after : Session.Traced World Obj}
    (dispatched : dispatch host.traced ⟨target, receiver, calls⟩ session = (.ok focus, after))
    (more : List Call) :
    after.world.2 <+:
      (dispatch host.traced ⟨target, receiver, calls ++ more⟩ session).2.world.2 := by
  rw [dispatch_append, dispatched]
  exact (focus.applyAll_asked host target more after).isPrefix

theorem dispatch_isPrefix_evaluate (definition : Definition) :
    (definition.dispatch host.traced session).2.world.2 <+:
      (definition.evaluate host.traced session).2.world.2 := by
  rw [evaluate_eq]
  rcases definition.dispatch host.traced session with ⟨error | focus, after⟩
  · exact List.prefix_rfl
  · exact (focus.marshal_asked host definition.target after).isPrefix

theorem evaluate_isPrefix_evaluateReached (definition : Definition)
    (definitions : List Definition) (unfinished : Option Definition) :
    (definition.evaluate host.traced session).2.world.2 <+:
      (evaluateReached host.traced (definition :: definitions) unfinished session).2.world.2 := by
  rw [evaluateReached_cons]
  rcases definition.evaluate host.traced session with ⟨error | bytes, after⟩
  · exact List.prefix_rfl
  · exact (evaluateReached_asked host definitions unfinished after).isPrefix

end

/-- An evaluation of more goes on where the evaluation of less has succeeded. -/
theorem Extends.continues {definitions others : List Definition}
    {unfinished last : Option Definition}
    (longer : Definition.Extends definitions unfinished others last) (host : Host World Obj)
    (session : Session.Traced World Obj) :
    Session.Continues (evaluateReached host.traced definitions unfinished session)
      (evaluateReached host.traced others last session) := by
  cases longer with
  | further others last =>
    rw [evaluateReached_append, evaluateReached]
    rcases evaluateAll host.traced definitions session with ⟨error | members, middle⟩
    · exact .inl rfl
    · exact .inr ⟨⟨(), rfl⟩, (evaluateReached_asked host others last middle).isPrefix⟩
  | @begun target receiver calls more =>
    rw [evaluateReached, evaluateReached]
    rcases evaluateAll host.traced definitions session with ⟨error | members, middle⟩
    · exact .inl rfl
    · rcases dispatched : dispatch host.traced ⟨target, receiver, calls⟩ middle with
        ⟨error | focus, after⟩
      · left
        simp only [dispatch_append, dispatched]
      · right
        have grows := dispatch_isPrefix_append host middle dispatched more
        dsimp only
        rw [dispatched]
        refine ⟨⟨(), rfl⟩, ?_⟩
        rcases longer : dispatch host.traced ⟨target, receiver, calls ++ more⟩ middle with
          ⟨error | final, ending⟩ <;> rwa [longer] at grows
  | @ended target receiver calls more others last =>
    rw [evaluateReached_append, evaluateReached]
    rcases evaluateAll host.traced definitions session with ⟨error | members, middle⟩
    · exact .inl rfl
    · rcases dispatched : dispatch host.traced ⟨target, receiver, calls⟩ middle with
        ⟨error | focus, after⟩
      · left
        simp only [evaluateReached_cons, evaluate_eq, dispatch_append, dispatched]
      · right
        have grows := dispatch_isPrefix_append host middle dispatched more
        have evaluated := dispatch_isPrefix_evaluate host middle
          ⟨target, receiver, calls ++ more⟩
        have further := evaluate_isPrefix_evaluateReached host middle
          ⟨target, receiver, calls ++ more⟩ others last
        dsimp only
        rw [dispatched]
        exact ⟨⟨(), rfl⟩, (grows.trans evaluated).trans further⟩

end Definition

section

variable (host : Host World Obj) (session : Session World Obj) {parser other : Parser}

theorem Outline.hostCalls_isPrefix_asks (outline : Outline) :
    (outline.hostCalls host session).map HostCall.call? <+: outline.asks := by
  obtain ⟨made, added, part, -⟩ := Definition.evaluateReached_asked host outline.definitions
    outline.remainder.unfinished? session.untraced
  rw [Outline.hostCalls, added]
  exact part

/-- The calls that an input leads to are completed one by one by its closing lexemes. -/
theorem Parser.hostCalls_completes (parser : Parser) :
    let made := parser.outline.hostCalls host session
    let closings := parser.ahead.filter Lexeme.isClosing
    made.length ≤ closings.length ∧
      List.Forall₂ (fun call closing => Lexeme.Completes parser.ahead call.call? closing) made
        (closings.take made.length) := by
  intro made closings
  obtain ⟨used, rest, split, completes⟩ := parser.exists_completes
  have prefixed : made.map HostCall.call? <+: parser.outline.asks :=
    parser.outline.hostCalls_isPrefix_asks host session
  have most := prefixed.length_le
  rw [List.length_map, completes.length_eq] at most
  have first := List.prefix_iff_eq_take.1 prefixed
  have taken := List.forall₂_take made.length completes
  rw [List.length_map] at first
  rw [← first, List.forall₂_map_left_iff] at taken
  have whole : closings = used.filter Lexeme.isClosing ++ rest.filter Lexeme.isClosing := by
    rw [← List.filter_append, ← split]
  rw [whole, List.take_append_of_le_length most, List.length_append]
  exact ⟨most.trans (Nat.le_add_right _ _), taken⟩

/-- A shorter input leads to the first calls, one for each of its closing lexemes. -/
theorem Parser.hostCalls_append {more : List Lexeme}
    (split : other.ahead = parser.ahead ++ more) :
    parser.outline.hostCalls host session =
      (other.outline.hostCalls host session).take
        (parser.ahead.filter Lexeme.isClosing).length := by
  rcases Parser.outline_append split with ⟨sameDefinitions, sameUnfinished⟩ | ⟨counted, longer⟩
  · have same : other.outline.hostCalls host session = parser.outline.hostCalls host session := by
      rw [Outline.hostCalls, Outline.hostCalls, sameDefinitions, sameUnfinished]
    rw [same, List.take_of_length_le (parser.hostCalls_completes host session).1]
  · rw [counted]
    exact (Definition.evaluateReached_asked host _ _ session.untraced).take_of_continues rfl
      (longer.continues host session.untraced)

/-- Inputs that share lexemes up to a place share the calls up to there. -/
theorem Parser.hostCalls_of_cut {cut whole : Parser} {common extra rest : List Lexeme}
    (aheadCut : cut.ahead = common ++ extra) (aheadWhole : whole.ahead = common ++ rest)
    (plain : ∀ lexeme ∈ extra, lexeme.isClosing = false) :
    cut.outline.hostCalls host session =
      (whole.outline.hostCalls host session).take (common.filter Lexeme.isClosing).length := by
  let shared : Parser := { cut with ahead := common }
  have splitCut : cut.ahead = shared.ahead ++ extra := aheadCut
  have splitWhole : whole.ahead = shared.ahead ++ rest := aheadWhole
  have most := (cut.hostCalls_completes host session).1
  rw [aheadCut, List.filter_append, filter_isClosing_of_plain plain, List.append_nil] at most
  have ofCut := Parser.hostCalls_append host session splitCut
  rw [List.take_of_length_le most] at ofCut
  rw [← ofCut]
  exact Parser.hostCalls_append host session splitWhole

end

/-- The lexemes up to a place come with as many calls as there are of them. -/
theorem Lexeme.take_eq_filter_zip {count : Nat} {first rest : List Lexeme}
    (before : ∀ lexeme ∈ first, lexeme.byteEnd ≤ count)
    (behind : ∀ lexeme ∈ rest, count < lexeme.byteEnd) (made : List α) :
    made.take first.length =
      ((made.zip (first ++ rest)).filter fun entry => entry.2.byteEnd ≤ count).map Prod.fst := by
  induction first generalizing made with
  | nil =>
    have none : (made.zip rest).filter (fun entry => entry.2.byteEnd ≤ count) = [] := by
      rw [List.filter_eq_nil_iff]
      rintro ⟨value, lexeme⟩ present
      have late := behind lexeme (List.of_mem_zip present).2
      simpa using late
    rw [List.nil_append, none]
    rfl
  | cons lexeme first hypothesis =>
    obtain ⟨early, others⟩ := List.forall_mem_cons.1 before
    cases made with
    | nil => rfl
    | cons value made =>
      have later := hypothesis others made
      simp [early, later]

section

variable {τ : Type} [Sink τ] {contents : τ → List UInt8} {sink : τ}

/-- A cut input leads to the calls of the whole one whose closing lexemes have arrived. -/
theorem Streaming.run_of_cut (takes : Sink.TakesAll contents sink) (host : Host World Obj)
    (text : String) (capacity : Nat) (positive : 0 < capacity) (count : Nat) (fault : Fault)
    (session : Session World Obj) :
    let whole := Parser.ofString text
    let cut := Parser.ofSource (ByteSource.ofReader (Reader.ofBytes capacity positive
      ((Utf8.encode text.toList).take count) (.failing fault)))
    let made := Strategy.streaming.hostCalls host whole session sink
    let closings := whole.ahead.filter Lexeme.isClosing
    (Strategy.streaming.run host cut session sink).1 ≠ .ok () ∧
      List.Forall₂ (fun call closing => Lexeme.Completes whole.ahead call.call? closing) made
        (closings.take made.length) ∧
      Strategy.streaming.hostCalls host cut session sink =
        ((made.zip closings).filter fun entry => entry.2.byteEnd ≤ count).map Prod.fst := by
  intro whole cut made closings
  obtain ⟨broken, common, extra, rest, aheadCut, aheadWhole, plain, before, behind⟩ :=
    Parser.exists_lexemes_of_cut text capacity positive count fault
  obtain ⟨error, failed⟩ := Parser.error_of_fault broken
  have sameMade : made = whole.outline.hostCalls host (session.record [.streaming]) :=
    Streaming.hostCalls_eq takes host whole session
  obtain ⟨-, completes⟩ := whole.hostCalls_completes host (session.record [.streaming])
  rw [← sameMade] at completes
  refine ⟨Strategy.streaming.run_ne_ok_of_broken takes host cut rfl failed session, completes, ?_⟩
  have sameCalls := Parser.hostCalls_of_cut host (session.record [.streaming]) aheadCut
    aheadWhole plain
  have split : closings = common.filter Lexeme.isClosing ++ rest.filter Lexeme.isClosing := by
    rw [← List.filter_append, ← aheadWhole]
  rw [Streaming.hostCalls_eq takes host cut session, sameCalls, ← sameMade, split]
  apply Lexeme.take_eq_filter_zip
  · intro lexeme present
    exact before lexeme (List.mem_filter.1 present).1
  · intro lexeme present
    obtain ⟨late, closing⟩ := List.mem_filter.1 present
    exact behind lexeme late closing

end

theorem Streaming.run_of_cut_in_character :
    let host := Host.nulls
    let session := Session.withReceiver "b" ()
    let text := "a := b.c().d(\"é\");"
    let cut := Parser.ofSource (ByteSource.ofReader (Reader.ofBytes 8 (by decide)
      ((Utf8.encode text.toList).take 15) (.failing (.device "gone"))))
    Sink.TakesAll Output.written Output.unlimited ∧ 0 < 8 ∧
      (Strategy.streaming.run host cut session Output.unlimited).1 ≠ .ok () ∧
      (Strategy.streaming.hostCalls host cut session Output.unlimited).map HostCall.call? =
        [some ⟨"c", []⟩] := by
  intro host session text cut
  obtain ⟨fails, -, made⟩ := Streaming.run_of_cut Output.takesAll_unlimited host text 8
    (by decide) 15 (.device "gone") session
  refine ⟨Output.takesAll_unlimited, by decide, fails, ?_⟩
  rw [made]
  decide +kernel

end Fluent
