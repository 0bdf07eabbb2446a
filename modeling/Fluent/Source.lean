/-
This file holds what a source of characters is.
-/

import Fluent.Fault

namespace Fluent

/-- `remaining` bounds what a source can still deliver, so that reading to the end terminates. -/
class CharSource (σ : Type) where
  /-- The next character, or `none` at the end and after a fault. -/
  read : σ → Option Char × σ
  /-- The character of the last `read` is taken back, unless it has been already. -/
  unread : σ → σ
  startToken : σ → σ
  /-- The text read since the token was started. -/
  tokenText : σ → String
  /-- Where the token starts, in bytes. -/
  byteOffset : σ → Nat
  /-- Where the token starts, in characters. -/
  charOffset : σ → Nat
  /-- The fault that cut the input short, reported once. -/
  takeFault : σ → Option Fault × σ
  remaining : σ → Nat
  remaining_read_lt : ∀ source, (read source).1 ≠ none →
    remaining (read source).2 < remaining source
  remaining_read_le : ∀ source, remaining (read source).2 ≤ remaining source
  remaining_unread_le : ∀ source, (read source).1 ≠ none →
    remaining (unread (read source).2) ≤ remaining source
  remaining_startToken_le : ∀ source, remaining (startToken source) ≤ remaining source
  remaining_takeFault_lt : ∀ source, (takeFault source).1 ≠ none →
    remaining (takeFault source).2 < remaining source
  remaining_takeFault_le : ∀ source, remaining (takeFault source).2 ≤ remaining source

end Fluent
