/-
This file holds hosts whose objects are written as JSON texts, and the simplest of them.
-/

import Fluent.Proofs.Json.Quoting
import Fluent.Session

namespace Fluent

variable {World Obj : Type}

/-- Hosts whose objects give a JSON text wherever they give any. -/
def Host.MarshalsJson (host : Host World Obj) : Prop :=
  ∀ object world bytes, (host.marshal object world).answer = .ok bytes →
    ∃ tree : Json.Tree, tree.Encoded bytes

namespace Host

/-- Every object takes every call and is written as `null`. -/
def nulls : Host Unit Unit where
  dispatch _ object world := ⟨.ok .this, object, world, []⟩
  marshal object world := ⟨.ok (Utf8.encode ['n', 'u', 'l', 'l']), object, world, []⟩

/-- Every object refuses calls of one name, which it logs, and is written as `null`. -/
def nullsRefusing (name : String) (source : HostError) (log : List Record) : Host Unit Unit where
  dispatch call object world :=
    if call.name = name then ⟨.error source, object, world, log⟩
    else nulls.dispatch call object world
  marshal := nulls.marshal

/-- Every object is a text that a call adds its name to, and is written in quotes. -/
def texts : Host Unit String where
  dispatch call object world := ⟨.ok .this, object ++ call.name, world, []⟩
  marshal object world := ⟨.ok (Utf8.encode (Json.quote object).toList), object, world, []⟩

theorem marshalsJson_nulls : nulls.MarshalsJson := by
  intro object world bytes marshalled
  obtain rfl := Except.ok.inj marshalled
  exact ⟨.null, _, .padded .nil .null .nil, rfl⟩

theorem marshalsJson_texts : texts.MarshalsJson := by
  intro object world bytes marshalled
  obtain rfl := Except.ok.inj marshalled
  exact ⟨_, _, .padded .nil (Json.spelled_quote object) .nil, by simp⟩

end Host

/-- A session in which one object has a name. -/
def Session.withReceiver (name : String) (object : Obj) : Session Unit Obj :=
  ⟨⟨[(name, object)], by simp⟩, (), []⟩

end Fluent
