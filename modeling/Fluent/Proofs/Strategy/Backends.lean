/-
This file proves that an evaluation cannot tell where its program comes from.
-/

import Fluent.Proofs.Host.Marshalling
import Fluent.Proofs.Source.Bytes
import Fluent.Proofs.Source.Transcript
import Fluent.Proofs.Strategy.Trace

namespace Fluent

open Viewed (Shows)

/-- Sources that show the same view are read alike. -/
theorem Parser.ofSource_eq_of_shows {σ τ : Type} [CharSource σ] [Viewed σ] [CharSource τ]
    [Viewed τ] {source : σ} {other : τ} {view : View} (shown : Shows source view)
    (shownOther : Shows other view) : Parser.ofSource source = Parser.ofSource other := by
  rw [Parser.ofSource, Parser.ofSource, Transcript.ofSource_eq_transcript shown,
    Transcript.ofSource_eq_transcript shownOther]

theorem Parser.ofSource_reader_eq_ofString {reader : Reader} {text : String}
    (whole : reader.bytes = Utf8.encode text.toList) (finished : reader.ending = .finished) :
    Parser.ofSource (ByteSource.ofReader reader) = Parser.ofString text := by
  have shown := ByteSource.ofReader_shows reader
  rw [View.ofReader_encode whole finished] at shown
  exact Parser.ofSource_eq_of_shows shown (TextSource.ofList_shows text.toList)

/-- A text in memory and its bytes, in blocks of any size, are evaluated alike. -/
theorem Strategy.run_bytes_eq_run_text {World Obj τ : Type} [Sink τ] (strategy : Strategy)
    (host : Host World Obj) (text : String) (capacity : Nat) (positive : 0 < capacity)
    (session : Session World Obj) (sink : τ) :
    let inMemory := Parser.ofSource (TextSource.ofString text)
    let decoded := Parser.ofSource (ByteSource.ofReader
      (Reader.ofBytes capacity positive (Utf8.encode text.toList) .finished))
    strategy.run host decoded session sink = strategy.run host inMemory session sink ∧
      strategy.hostCalls host decoded session sink =
        strategy.hostCalls host inMemory session sink := by
  intro inMemory decoded
  have same : decoded = inMemory := Parser.ofSource_reader_eq_ofString rfl rfl
  rw [same]
  exact ⟨rfl, rfl⟩

theorem Strategy.run_bytes_eq_run_text_accented :
    let host := Host.nulls
    let session := Session.withReceiver "b" ()
    let text := "a := b.c(\"é€😀\"); d := é"
    let reader := Reader.ofBytes 3 (by decide) (Utf8.encode text.toList) .finished
    0 < 3 ∧
      Strategy.streaming.run host (Parser.ofSource (ByteSource.ofReader reader)) session
          (Output.limited 20 true) =
        Strategy.streaming.run host (Parser.ofString text) session (Output.limited 20 true) :=
  ⟨by decide, (Strategy.run_bytes_eq_run_text .streaming _ _ 3 (by decide) _ _).1⟩

end Fluent
