/-
This file holds what an evaluation logs.
-/

import Fluent.Program

namespace Fluent

inductive Level where
  | debug
  | trace
  deriving DecidableEq, Repr

inductive Record where
  | parsed (definition : Definition)
  | evaluating (count : Nat)
  | streaming
  | dispatching (target : String) (call : Call)
  | rejected (target method : String) (source : HostError)
  | marshalFailed (target : String) (source : HostError)
  | noMethod (typeName method : String)
  deriving DecidableEq, Repr

def Level.name : Level → String
  | .debug => "DEBUG"
  | .trace => "TRACE"

def Record.level : Record → Level
  | .parsed _ | .dispatching _ _ => .trace
  | .evaluating _ | .streaming | .rejected _ _ _ | .marshalFailed _ _ | .noMethod _ _ => .debug

def Record.text : Record → String
  | .parsed definition =>
    let written := definition.render
    s!"parsed `{written}`"
  | .evaluating count => s!"evaluating {count} definition(s)"
  | .streaming => "streaming evaluation"
  | .dispatching target call =>
    let written := call.render
    s!"{target}: dispatching {written}"
  | .rejected target method source =>
    let reason := source.message
    s!"{target}: `{method}` rejected: {reason}"
  | .marshalFailed target source =>
    let reason := source.message
    s!"{target}: marshalling failed: {reason}"
  | .noMethod typeName method => s!"{typeName}: no method `{method}`"

def Record.render (record : Record) : String :=
  record.level.name ++ " " ++ record.text

end Fluent
