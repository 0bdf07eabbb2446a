/-
This file holds what an evaluation leaves alone.
-/

import Fluent.Proofs.Parser.Interruption
import Fluent.Proofs.Strategy.Calls
import Fluent.Proofs.Strategy.Streaming

namespace Fluent

variable {World Obj Answer : Type}

/-- The table keeps its names, and only objects of the given names may have changed. -/
structure Session.Keeps (touched : List String) (before after : Session World Obj) : Prop where
  names : after.symbols.names = before.symbols.names
  objects : ∀ name ∉ touched, after.symbols.get? name = before.symbols.get? name

namespace Session.Keeps

variable {touched more : List String} {before middle after : Session World Obj}

theorem refl (touched : List String) (session : Session World Obj) :
    Session.Keeps touched session session :=
  ⟨rfl, fun _ _ => rfl⟩

theorem trans (first : Session.Keeps touched before middle)
    (second : Session.Keeps touched middle after) : Session.Keeps touched before after :=
  ⟨second.names.trans first.names, fun name apart =>
    (second.objects name apart).trans (first.objects name apart)⟩

theorem mono (keeps : Session.Keeps touched before after) (fewer : touched ⊆ more) :
    Session.Keeps more before after :=
  ⟨keeps.names, fun name apart => keeps.objects name fun present => apart (fewer present)⟩

/-- Only the table counts. -/
theorem of_symbols (same : after.symbols = middle.symbols)
    (keeps : Session.Keeps touched before middle) : Session.Keeps touched before after := by
  obtain ⟨names, objects⟩ := keeps
  rw [← same] at names objects
  exact ⟨names, objects⟩

theorem absorb {home : Option String} (own : ∀ name ∈ home, name ∈ touched)
    (session : Session World Obj) (reply : Reply World Obj Answer) :
    Session.Keeps touched session (session.absorb home reply) := by
  refine ⟨Session.names_absorb session home reply, fun name apart => ?_⟩
  cases home with
  | none => rfl
  | some known =>
    have other : name ≠ known := by
      rintro rfl
      exact apart (own name rfl)
    show (session.symbols.replace known reply.object).get? name = _
    rw [SymbolTable.get?_replace, if_neg other]

end Session.Keeps

namespace Focus

variable {touched : List String} {host : Host World Obj} {target : String}
  {focus next : Focus Obj} {session after : Session World Obj}

/-- The registered object of a chain, where it still is at one, has one of the given names. -/
def Within (touched : List String) (focus : Focus Obj) : Prop :=
  ∀ name ∈ focus.home, name ∈ touched

/-- A call changes the table as its reply says. -/
theorem symbols_apply (host : Host World Obj) (target : String) (call : Call)
    (focus : Focus Obj) (session : Session World Obj) :
    (focus.apply host target call session).2.symbols =
      (session.absorb focus.home (host.dispatch call focus.object session.world)).symbols := by
  simp only [apply, Session.world_record]
  split <;> rfl

theorem symbols_marshal (host : Host World Obj) (target : String) (focus : Focus Obj)
    (session : Session World Obj) :
    (focus.marshal host target session).2.symbols =
      (session.absorb focus.home (host.marshal focus.object session.world)).symbols := by
  simp only [marshal]
  split <;> rfl

/-- A call leaves a chain where it is, or takes it away from the table. -/
theorem home_of_apply {call : Call}
    (applied : focus.apply host target call session = (.ok next, after)) :
    next.home = focus.home ∨ next.home = none := by
  simp only [apply] at applied
  split at applied
  · cases applied
    exact .inl rfl
  · cases applied
    exact .inr rfl
  · cases applied

theorem Within.apply (within : focus.Within touched) {call : Call}
    (applied : focus.apply host target call session = (.ok next, after)) :
    next.Within touched := by
  intro name home
  rcases home_of_apply applied with same | away
  · exact within name (same ▸ home)
  · rw [away] at home
    cases home

theorem Within.apply_keeps (within : focus.Within touched) (host : Host World Obj)
    (target : String) (call : Call) (session : Session World Obj) :
    Session.Keeps touched session (focus.apply host target call session).2 :=
  .of_symbols (symbols_apply host target call focus session) (.absorb within session _)

theorem Within.marshal_keeps (within : focus.Within touched) (host : Host World Obj)
    (target : String) (session : Session World Obj) :
    Session.Keeps touched session (focus.marshal host target session).2 :=
  .of_symbols (symbols_marshal host target focus session) (.absorb within session _)

/-- A chain touches no registered object but the one that it started at. -/
theorem Within.applyAll_keeps (within : focus.Within touched) (host : Host World Obj)
    (target : String) (calls : List Call) (session : Session World Obj) :
    let ran := focus.applyAll host target calls session
    Session.Keeps touched session ran.2 ∧ ∀ last, ran.1 = .ok last → last.Within touched := by
  induction calls generalizing focus session with
  | nil =>
    refine ⟨.refl touched session, fun last finished => ?_⟩
    obtain rfl := Except.ok.inj finished
    exact within
  | cons call calls hypothesis =>
    have first := within.apply_keeps host target call session
    rw [applyAll]
    rcases applied : focus.apply host target call session with ⟨error | next, middle⟩
    · rw [applied] at first
      refine ⟨first, fun last finished => ?_⟩
      cases finished
    · rw [applied] at first
      obtain ⟨others, belongs⟩ := hypothesis (within.apply applied) middle
      exact ⟨first.trans others, belongs⟩

end Focus

namespace Session

/-- The session with another table. -/
def withSymbols (table : SymbolTable Obj) (session : Session World Obj) : Session World Obj :=
  { session with symbols := table }

/-- A name that is resolved stands for a registered object. -/
theorem within_of_resolve {session : Session World Obj} {target receiver : String}
    {focus : Focus Obj} (resolved : session.resolve target receiver = .ok focus) :
    focus.Within [receiver] := by
  simp only [resolve] at resolved
  split at resolved
  · obtain rfl := Except.ok.inj resolved
    intro name home
    obtain rfl : receiver = name := Option.some.inj home
    exact List.mem_singleton_self receiver
  · cases resolved

end Session

namespace Focus

/-- A chain has calls left, then the failure of the input if it breaks off, or marshalling. -/
def finish (host : Host World Obj) (target : String) (calls : List Call)
    (failure : Option Error) (focus : Focus Obj) (session : Session World Obj) :
    Except Error (List UInt8) × Session World Obj :=
  match focus.applyAll host target calls session with
  | (.error error, session) => (.error error, session)
  | (.ok last, session) =>
    match failure with
    | some error => (.error error, session)
    | none => last.marshal host target session

section

variable {focus : Focus Obj} (away : focus.home = none) (host : Host World Obj) (target : String)
  (session : Session World Obj) (table : SymbolTable Obj)

include away

/-- A chain that has left the table reads and writes nothing there. -/
theorem apply_withSymbols (call : Call) :
    focus.apply host target call (session.withSymbols table) =
      Prod.map id (Session.withSymbols table) (focus.apply host target call session) := by
  simp only [apply, away, Session.absorb, Session.record, Session.withSymbols, Prod.map]
  split <;> rfl

theorem marshal_withSymbols :
    focus.marshal host target (session.withSymbols table) =
      Prod.map id (Session.withSymbols table) (focus.marshal host target session) := by
  simp only [marshal, away, Session.absorb, Session.record, Session.withSymbols, Prod.map]
  split <;> rfl

theorem applyAll_withSymbols (calls : List Call) :
    focus.applyAll host target calls (session.withSymbols table) =
      Prod.map id (Session.withSymbols table) (focus.applyAll host target calls session) := by
  induction calls generalizing focus session with
  | nil => rfl
  | cons call calls hypothesis =>
    rw [applyAll, applyAll, apply_withSymbols away]
    rcases applied : focus.apply host target call session with ⟨error | next, middle⟩
    · rfl
    · have further : next.home = none := by
        rcases home_of_apply applied with same | left
        · exact same.trans away
        · exact left
      exact hypothesis further middle

theorem finish_withSymbols (calls : List Call) (failure : Option Error) :
    focus.finish host target calls failure (session.withSymbols table) =
      Prod.map id (Session.withSymbols table)
        (focus.finish host target calls failure session) := by
  rw [finish, finish, applyAll_withSymbols away]
  rcases applied : focus.applyAll host target calls session with ⟨error | last, middle⟩
  · rfl
  · cases failure with
    | some error => rfl
    | none =>
      have within : focus.Within [] := fun name home => by
        rw [away] at home
        cases home
      have belongs := (within.applyAll_keeps host target calls session).2
      rw [applied] at belongs
      have further : last.home = none :=
        Option.eq_none_iff_forall_not_mem.2 fun name home =>
          List.not_mem_nil (belongs last rfl name home)
      exact marshal_withSymbols further host target middle table

end

end Focus

section

variable (host : Host World Obj)

theorem Definition.evaluate_keeps (definition : Definition) (session : Session World Obj) :
    Session.Keeps [definition.receiver] session (definition.evaluate host session).2 := by
  rw [evaluate]
  cases resolved : session.resolve definition.target definition.receiver with
  | error missing => exact .refl _ session
  | ok focus =>
    have within := Session.within_of_resolve resolved
    obtain ⟨first, belongs⟩ :=
      within.applyAll_keeps host definition.target definition.calls session
    dsimp only
    rcases applied : focus.applyAll host definition.target definition.calls session with
      ⟨error | last, middle⟩
    · rw [applied] at first
      exact first
    · rw [applied] at first belongs
      exact first.trans ((belongs last rfl).marshal_keeps host definition.target middle)

/-- Definitions touch no objects but their receivers. -/
theorem Definition.evaluateAll_keeps (definitions : List Definition)
    (session : Session World Obj) :
    Session.Keeps (definitions.map Definition.receiver) session
      (evaluateAll host definitions session).2 := by
  induction definitions generalizing session with
  | nil => exact .refl [] session
  | cons definition definitions hypothesis =>
    have first := (definition.evaluate_keeps host session).mono
      (List.cons_subset_cons definition.receiver
        (List.nil_subset (definitions.map Definition.receiver)))
    rw [evaluateAll, List.map_cons]
    rcases evaluated : definition.evaluate host session with ⟨error | bytes, middle⟩
    · rw [evaluated] at first
      exact first
    · rw [evaluated] at first
      have others := first.trans ((hypothesis middle).mono (List.subset_cons_self _ _))
      dsimp only
      rcases later : evaluateAll host definitions middle with ⟨error | members, last⟩ <;>
      · rw [later] at others
        exact others

theorem Program.evaluate_keeps (program : Program) (session : Session World Obj) :
    Session.Keeps (program.definitions.map Definition.receiver) session
      (program.evaluate host session).2 := by
  have keeps := Definition.evaluateAll_keeps host program.definitions
    (session.record [.evaluating program.definitions.length])
  rw [Program.evaluate]
  rcases evaluated : Definition.evaluateAll host program.definitions
    (session.record [.evaluating program.definitions.length]) with ⟨error | members, last⟩ <;>
  · rw [evaluated] at keeps
    exact ⟨keeps.names, keeps.objects⟩

end

/-- The receivers that an input names, in order, whether or not their chains end. -/
def Outline.receivers (outline : Outline) : List String :=
  (outline.definitions ++ outline.remainder.unfinished?.toList).map Definition.receiver

section

variable {τ : Type} [Sink τ] (host : Host World Obj)

theorem TwoPhase.run_keeps (parser : Parser) (session : Session World Obj) (sink : τ) :
    Session.Keeps (parser.definitions.1.map Definition.receiver) session
      (TwoPhase.run host parser session sink).2.1 := by
  rw [TwoPhase.run, TwoPhase.read_eq]
  rcases parser.definitions with ⟨definitions, _ | error, rest⟩
  · have keeps := Program.evaluate_keeps host ⟨definitions⟩
      (session.record (definitions.map .parsed))
    dsimp only
    rcases evaluated : Program.evaluate host ⟨definitions⟩
      (session.record (definitions.map .parsed)) with ⟨error | bytes, last⟩
    · rw [evaluated] at keeps
      exact ⟨keeps.names, keeps.objects⟩
    · rw [evaluated] at keeps
      dsimp only
      rcases Sink.write bytes sink with ⟨_ | fault, written⟩ <;>
        exact ⟨keeps.names, keeps.objects⟩
  · exact ⟨rfl, fun _ _ => rfl⟩

namespace Streaming

theorem calls_keeps {touched : List String} {focus : Focus Obj} (within : focus.Within touched)
    (target : String) (first : Bool) (parser : Parser) (session : Session World Obj) :
    let ran := calls host target first focus parser session
    Session.Keeps touched session ran.2.2 ∧ ∀ last, ran.1 = .ok last → last.Within touched := by
  obtain ⟨keeps, belongs⟩ := within.applyAll_keeps host target (parser.calls first).1 session
  have performed := calls_eq host target first focus parser session
  rcases applied : focus.applyAll host target (parser.calls first).1 session with
    ⟨refusal | final, last⟩
  · rw [applied] at performed keeps
    obtain ⟨rest, streamed⟩ := performed
    rw [streamed]
    refine ⟨keeps, fun last finished => ?_⟩
    cases finished
  · rw [applied] at performed keeps belongs
    dsimp only at performed
    rw [performed]
    refine ⟨keeps, fun last finished => belongs last ?_⟩
    cases failure : (parser.calls first).2.1 with
    | none => rwa [failure] at finished
    | some error =>
      rw [failure] at finished
      cases finished

/-- A chain that is performed as it is read touches no object but its receiver. -/
theorem chain_keeps {touched : List String} {parser : Parser}
    (named : ∀ receiver received, parser.receiver = (.ok receiver, received) →
      receiver ∈ touched) (target : String) (session : Session World Obj) :
    Session.Keeps touched session (chain host target parser session).2.2 := by
  rw [chain]
  rcases received : parser.receiver with ⟨error | receiver, behind⟩
  · exact .refl touched session
  · dsimp only
    cases resolved : session.resolve target receiver with
    | error missing => exact .refl touched session
    | ok focus =>
      have within : focus.Within touched := fun name home => by
        rw [List.mem_singleton.1 (Session.within_of_resolve resolved name home)]
        exact named receiver behind received
      obtain ⟨keeps, belongs⟩ := calls_keeps host within target true behind session
      dsimp only
      rcases streamed : calls host target true focus behind session with
        ⟨error | final, after, last⟩
      · rw [streamed] at keeps
        exact keeps
      · rw [streamed] at keeps belongs
        exact keeps.trans ((belongs final rfl).marshal_keeps host target last)

/-- A binding touches its receiver, and the others what they touch. -/
theorem bindings_keeps_of_target {touched : List String} (first : Bool) {parser named : Parser}
    {target : String} (read : parser.target = (.ok (some target), named))
    (own : ∀ receiver received, named.receiver = (.ok receiver, received) → receiver ∈ touched)
    (session : Session World Obj) (sink : τ)
    (others : ∀ bytes after last, chain host target named session = (.ok bytes, after, last) →
      ∀ sink : τ, Session.Keeps touched last (bindings host false after last sink).2.1) :
    Session.Keeps touched session (bindings host first parser session sink).2.1 := by
  have keeps := chain_keeps host own target session
  rw [bindings_eq, read]
  dsimp only
  rcases Sink.writeAll (Answer.opening first target) sink with ⟨_ | fault, keyed⟩
  · dsimp only
    rcases chained : chain host target named session with ⟨error | bytes, after, last⟩
    · rw [chained] at keeps
      dsimp only
      rcases Sink.write (Answer.failure error) keyed with ⟨_ | fault, written⟩ <;> exact keeps
    · rw [chained] at keeps
      dsimp only
      rcases Sink.write bytes keyed with ⟨_ | fault, written⟩
      · exact keeps.trans (others bytes after last chained written)
      · exact keeps
  · exact .refl touched session

/-- Bindings touch no objects but the receivers of their input, whatever becomes of the writes. -/
theorem bindings_keeps {touched : List String} (first : Bool) (parser : Parser)
    (named : parser.outline.receivers ⊆ touched) (session : Session World Obj) (sink : τ) :
    Session.Keeps touched session (bindings host first parser session sink).2.1 := by
  induction parser using Parser.outline.induct generalizing first session sink with
  | case1 parser error after failed =>
    rw [bindings_eq, failed]
    exact .refl touched session
  | case2 parser after ended =>
    rw [bindings_eq, ended]
    exact .refl touched session
  | case3 parser target after read error rest unreceived =>
    refine bindings_keeps_of_target host first read (fun receiver received taken => ?_) session sink
      fun bytes last left chained => ?_
    · rw [unreceived] at taken
      cases taken
    · rw [chain, unreceived] at chained
      cases chained
  | case4 parser target after read receiver rest received calls error last called =>
    refine bindings_keeps_of_target host first read (fun other received' taken => ?_) session sink
      fun bytes last' left chained => ?_
    · rw [received] at taken
      cases taken
      apply named
      rw [Parser.outline_eq, read]
      simp [received, called, Outline.receivers, Remainder.unfinished?]
    · obtain ⟨failed, left, final, streamed, -⟩ := chain_begun host target session received called
      rw [streamed] at chained
      cases chained
  | case5 parser target after read receiver rest received calls last called hypothesis =>
    rw [Parser.outline_eq, read] at named
    simp only [received, called, Outline.receivers, List.cons_append, List.map_cons,
      List.cons_subset] at named
    refine bindings_keeps_of_target host first read (fun other received' taken => ?_) session sink
      fun bytes last' left chained => ?_
    · rw [received] at taken
      cases taken
      exact named.1
    · have streamed := chain_complete host target session received called
      rw [chained] at streamed
      rcases evaluated : Definition.evaluate host ⟨target, receiver, calls⟩ session with
        ⟨error | bytes, final⟩
      · rw [evaluated] at streamed
        obtain ⟨rest, streamed⟩ := streamed
        cases streamed
      · rw [evaluated] at streamed
        cases streamed
        exact fun written => hypothesis false named.2 left written

theorem run_keeps (parser : Parser) (session : Session World Obj) (sink : τ) :
    Session.Keeps parser.outline.receivers session (run host parser session sink).2.1 := by
  rw [run]
  rcases Sink.write Answer.openBrace sink with ⟨_ | fault, opened⟩
  · have keeps := bindings_keeps host true parser (List.Subset.refl _)
      (session.record [.streaming]) opened
    dsimp only
    rcases bound : bindings host true parser (session.record [.streaming]) opened with
      ⟨outcome, last, written⟩
    rw [bound] at keeps
    dsimp only
    rcases Sink.write Answer.closeBrace written with ⟨_ | fault, closed⟩ <;>
      exact ⟨keeps.names, keeps.objects⟩
  · exact ⟨rfl, fun _ _ => rfl⟩

end Streaming

/-- Under either strategy an evaluation touches no objects but the receivers of its input. -/
theorem Strategy.run_keeps (strategy : Strategy) {parser : Parser} (going : parser.done = false)
    (session : Session World Obj) (sink : τ) :
    Session.Keeps parser.outline.receivers session (strategy.run host parser session sink).2.1 := by
  cases strategy with
  | streaming => exact Streaming.run_keeps host parser session sink
  | twoPhase =>
    refine (TwoPhase.run_keeps host parser session sink).mono ?_
    rw [(Parser.definitions_eq_outline parser going).1, Outline.receivers, List.map_append]
    exact List.subset_append_left _ _

end

end Fluent
