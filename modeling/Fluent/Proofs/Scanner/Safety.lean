/-
This file proves that the scanner is a safe user of its source.
-/

import Fluent.Proofs.Source.Guard

namespace Fluent

open CharSource

/-- A source with a record of the requests made of it, the earliest first. -/
structure Recorded (σ : Type) where
  source : σ
  requests : List Request
  deriving DecidableEq, Repr

variable {σ : Type} [CharSource σ]

instance : CharSource (Recorded σ) where
  read recorded := ((read recorded.source).1,
    ⟨(read recorded.source).2, recorded.requests ++ [.read]⟩)
  unread recorded := ⟨unread recorded.source, recorded.requests ++ [.unread]⟩
  startToken recorded := ⟨startToken recorded.source, recorded.requests ++ [.startToken]⟩
  tokenText recorded := tokenText recorded.source
  byteOffset recorded := byteOffset recorded.source
  charOffset recorded := charOffset recorded.source
  takeFault recorded := ((takeFault recorded.source).1,
    ⟨(takeFault recorded.source).2, recorded.requests ++ [.takeFault]⟩)
  remaining recorded := remaining recorded.source
  remaining_read_lt recorded := remaining_read_lt recorded.source
  remaining_read_le recorded := remaining_read_le recorded.source
  remaining_unread_le recorded := remaining_unread_le recorded.source
  remaining_startToken_le recorded := remaining_startToken_le recorded.source
  remaining_takeFault_lt recorded := remaining_takeFault_lt recorded.source
  remaining_takeFault_le recorded := remaining_takeFault_le recorded.source

namespace Scanner

/-- What a scanner can be asked for. -/
inductive Use where
  | scan (ignoreBlanks : Bool)
  | literal
  | span
  | illegal
  | lexicalError
  | takeFault
  | next
  deriving DecidableEq, Repr

/-- The source once a scanner over it has been used. What only looks at the token leaves it. -/
def Use.perform (source : σ) : Use → σ
  | .scan ignoreBlanks => (Scanner.scan ignoreBlanks source).2
  | .literal | .span | .illegal => source
  | .lexicalError => (Scanner.lexicalError source).2
  | .takeFault => (CharSource.takeFault source).2
  | .next => (Scanner.next source).2

/-- The source once a scanner over it has been used several times, in this order. -/
def performAll (source : σ) (uses : List Use) : σ :=
  uses.foldl Use.perform source

/-- What the scanner asks of a source while it is used. -/
def requests (source : σ) (uses : List Use) : List Request :=
  (performAll (⟨source, []⟩ : Recorded σ) uses).requests

end Scanner

namespace Recorded

variable {before between after : Recorded σ}

/-- One recorded source comes from another by orderly requests, which the record has gained. -/
def Gains (before after : Recorded σ) : Prop :=
  ∃ made, Orderly made ∧ after.requests = before.requests ++ made ∧
    after.source = obeyAll before.source made

theorem Gains.refl (recorded : Recorded σ) : recorded.Gains recorded :=
  ⟨[], .nil, (List.append_nil _).symm, rfl⟩

theorem Gains.trans (first : before.Gains between) (second : between.Gains after) :
    before.Gains after := by
  obtain ⟨made, orderly, split, reached⟩ := first
  obtain ⟨more, orderlyMore, splitMore, reachedMore⟩ := second
  refine ⟨made ++ more, orderly.append orderlyMore, ?_, ?_⟩
  · rw [splitMore, split, List.append_assoc]
  · rw [reachedMore, reached, obeyAll, obeyAll, obeyAll, List.foldl_append]

theorem gains_read (recorded : Recorded σ) : recorded.Gains (read recorded).2 :=
  ⟨[.read], .read .nil, rfl, rfl⟩

theorem gains_unread_read (recorded : Recorded σ) :
    recorded.Gains (unread (read recorded).2) :=
  ⟨[.read, .unread], .undone .nil, List.append_assoc .., rfl⟩

theorem gains_read_startToken (recorded : Recorded σ) :
    recorded.Gains (read (startToken recorded)).2 :=
  ⟨[.startToken, .read], .token .nil, List.append_assoc .., rfl⟩

theorem gains_takeFault (recorded : Recorded σ) : recorded.Gains (takeFault recorded).2 :=
  ⟨[.takeFault], .report .nil, rfl, rfl⟩

/-- With and without the record, the same has come of a source. -/
def Echoes {α : Type} (plain : α × σ) (before : Recorded σ) (outcome : α × Recorded σ) : Prop :=
  ∃ value after, plain = (value, after.source) ∧ outcome = (value, after) ∧ before.Gains after

theorem read_of_recorded {found : Option Char} (outcome : read before = (found, after)) :
    read before.source = (found, after.source) ∧ before.Gains after := by
  obtain ⟨rfl, rfl⟩ := Prod.mk.inj outcome
  exact ⟨rfl, before.gains_read⟩

theorem run_echoes (state : Lexer.State) (recorded : Recorded σ) :
    Echoes (Lexer.run state recorded.source) recorded (Lexer.run state recorded) := by
  fun_induction Lexer.run state recorded with
  | case1 state recorded after found =>
    obtain ⟨plain, gains⟩ := read_of_recorded found
    rw [Lexer.run_eq, plain]
    exact ⟨_, _, rfl, rfl, gains⟩
  | case2 state recorded character after found next moved hypothesis =>
    obtain ⟨plain, gains⟩ := read_of_recorded found
    obtain ⟨kind, last, plainLater, outcome, later⟩ := hypothesis
    rw [Lexer.run_eq, plain]
    simp only [moved]
    exact ⟨kind, last, plainLater, outcome, gains.trans later⟩
  | case3 state recorded character after found kind moved =>
    obtain ⟨plain, gains⟩ := read_of_recorded found
    rw [Lexer.run_eq, plain]
    simp only [moved]
    exact ⟨_, _, rfl, rfl, gains⟩
  | case4 state recorded character after found kind moved =>
    obtain ⟨plain, -⟩ := read_of_recorded found
    have gains := recorded.gains_unread_read
    rw [found] at gains
    rw [Lexer.run_eq, plain]
    simp only [moved]
    exact ⟨_, _, rfl, rfl, gains⟩

theorem token_echoes (recorded : Recorded σ) :
    Echoes (Scanner.token recorded.source) recorded (Scanner.token recorded) := by
  have gains := recorded.gains_read_startToken
  rw [Scanner.token, Scanner.token]
  cases outcome : read (startToken recorded) with
  | mk found after =>
    rw [outcome] at gains
    obtain ⟨plain, -⟩ := read_of_recorded outcome
    change read (startToken recorded.source) = (found, after.source) at plain
    rw [plain]
    cases found with
    | none => exact ⟨_, _, rfl, rfl, gains⟩
    | some character =>
      dsimp only
      cases Lexer.first character with
      | alone kind => exact ⟨_, _, rfl, rfl, gains⟩
      | opens state =>
        obtain ⟨kind, last, plainLater, outcome, later⟩ := run_echoes state after
        dsimp only
        rw [plainLater, outcome]
        exact ⟨_, _, rfl, rfl, gains.trans later⟩

theorem scan_echoes (ignoreBlanks : Bool) (recorded : Recorded σ) :
    Echoes (Scanner.scan ignoreBlanks recorded.source) recorded
      (Scanner.scan ignoreBlanks recorded) := by
  obtain ⟨kind, after, plain, outcome, gains⟩ := token_echoes recorded
  rw [Scanner.scan, Scanner.scan, plain, outcome]
  cases kind with
  | blank =>
    cases ignoreBlanks with
    | true =>
      obtain ⟨proper, last, plainLater, outcome, later⟩ := token_echoes after
      exact ⟨proper, last, plainLater, outcome, gains.trans later⟩
    | false => exact ⟨_, _, rfl, rfl, gains⟩
  | _ => exact ⟨_, _, rfl, rfl, gains⟩

theorem takeFault_echoes (recorded : Recorded σ) :
    Echoes (takeFault recorded.source) recorded (takeFault recorded) :=
  ⟨_, _, rfl, rfl, recorded.gains_takeFault⟩

theorem lexicalError_echoes (recorded : Recorded σ) :
    Echoes (Scanner.lexicalError recorded.source) recorded (Scanner.lexicalError recorded) := by
  obtain ⟨fault, after, plain, outcome, gains⟩ := takeFault_echoes recorded
  rw [Scanner.lexicalError, Scanner.lexicalError, plain, outcome]
  cases fault with
  | none => exact ⟨_, _, rfl, rfl, gains⟩
  | some fault => exact ⟨_, _, rfl, rfl, gains⟩

theorem next_echoes (recorded : Recorded σ) :
    Echoes (Scanner.next recorded.source) recorded (Scanner.next recorded) := by
  obtain ⟨kind, after, plain, outcome, gains⟩ := scan_echoes true recorded
  rw [Scanner.next, Scanner.next, plain, outcome]
  cases kind with
  | finish =>
    obtain ⟨fault, last, plainLater, outcome, later⟩ := takeFault_echoes after
    dsimp only
    rw [plainLater, outcome]
    cases fault with
    | none => exact ⟨_, _, rfl, rfl, gains.trans later⟩
    | some fault => exact ⟨_, _, rfl, rfl, gains.trans later⟩
  | illegal =>
    obtain ⟨error, last, plainLater, outcome, later⟩ := lexicalError_echoes after
    dsimp only
    rw [plainLater, outcome]
    exact ⟨_, _, rfl, rfl, gains.trans later⟩
  | _ => exact ⟨_, _, rfl, rfl, gains⟩

theorem Echoes.source_eq {α : Type} {plain : α × σ} {outcome : α × Recorded σ}
    (echoes : Echoes plain before outcome) :
    plain.2 = outcome.2.source ∧ before.Gains outcome.2 := by
  obtain ⟨value, after, rfl, rfl, gains⟩ := echoes
  exact ⟨rfl, gains⟩

/-- A use of the scanner does to a recorded source what it does to the source. -/
theorem perform (recorded : Recorded σ) (use : Scanner.Use) :
    use.perform recorded.source = (use.perform recorded).source ∧
      recorded.Gains (use.perform recorded) := by
  cases use with
  | scan ignoreBlanks => exact (scan_echoes ignoreBlanks recorded).source_eq
  | literal | span | illegal => exact ⟨rfl, .refl recorded⟩
  | lexicalError => exact (lexicalError_echoes recorded).source_eq
  | takeFault => exact (takeFault_echoes recorded).source_eq
  | next => exact (next_echoes recorded).source_eq

theorem performAll (recorded : Recorded σ) (uses : List Scanner.Use) :
    Scanner.performAll recorded.source uses = (Scanner.performAll recorded uses).source ∧
      recorded.Gains (Scanner.performAll recorded uses) := by
  induction uses generalizing recorded with
  | nil => exact ⟨rfl, .refl recorded⟩
  | cons use uses hypothesis =>
    obtain ⟨plain, gains⟩ := recorded.perform use
    obtain ⟨plainAll, gainsAll⟩ := hypothesis (use.perform recorded)
    refine ⟨?_, gains.trans gainsAll⟩
    rw [← plain] at plainAll
    exact plainAll

end Recorded

namespace Scanner

variable {source : σ} {uses : List Use}

/-- The scanner does nothing to a source but by requests, and these are orderly. -/
theorem performAll_eq (source : σ) (uses : List Use) :
    performAll source uses = obeyAll source (requests source uses) ∧
      Orderly (requests source uses) := by
  obtain ⟨plain, made, orderly, split, reached⟩ := Recorded.performAll ⟨source, []⟩ uses
  change requests source uses = made at split
  rw [split]
  exact ⟨plain.trans reached, orderly⟩

/-- One invariant holds all along, the other once a use is over and where it takes back. -/
structure Keeps (placed settled : σ → Prop) (source : σ) (uses : List Use) : Prop where
  /-- The source that is left is what the requests have made of it. -/
  obeyed : performAll source uses = obeyAll source (requests source uses)
  left : settled (performAll source uses)
  throughout : ∀ front, front <+: requests source uses → placed (obeyAll source front)
  /-- Only what the request right before has read is taken back. -/
  behind : ∀ front, front ++ [.unread] <+: requests source uses →
    settled (obeyAll source front) ∧ ∃ earlier, front = earlier ++ [.read]
  within : ∀ front, front <+: requests source uses → ¬ ReachesBack source front
  /-- To take back what a read has not found would change nothing. -/
  idle : ∀ front, front <+: requests source uses → (read (obeyAll source front)).1 = none →
    unread (read (obeyAll source front)).2 = (read (obeyAll source front)).2

theorem Keeps.of_guard (guard : Guard σ) (settled : guard.settled source) (uses : List Use) :
    Keeps guard.placed guard.settled source uses := by
  obtain ⟨obeyed, orderly⟩ := performAll_eq source uses
  obtain ⟨left, throughout⟩ := guard.obeyAll orderly settled
  rw [← obeyed] at left
  exact
    { obeyed
      left
      throughout
      behind := fun _ part =>
        ⟨guard.settled_of_unread orderly settled part, orderly.exists_read part⟩
      within := fun _ part => orderly.not_reachesBack part source
      idle := fun _ _ none => guard.unread_of_none none }

theorem Keeps.imp {placed settled placed' settled' : σ → Prop}
    (keeps : Keeps placed settled source uses) (weaker : ∀ source, placed source → placed' source)
    (stronger : ∀ source, settled source → settled' source) :
    Keeps placed' settled' source uses where
  obeyed := keeps.obeyed
  left := stronger _ keeps.left
  throughout front part := weaker _ (keeps.throughout front part)
  behind front part := (keeps.behind front part).imp_left (stronger _)
  within := keeps.within
  idle := keeps.idle

/-- The places that a source remembers stay within the input, whatever a scanner is used for. -/
theorem uses_keep_places (text : String) (reader : Reader) (uses : List Use) :
    Keeps (TextSource.Placed text.toList) (TextSource.Settled text.toList)
        (TextSource.ofString text) uses ∧
      Keeps ByteSource.Placed ByteSource.Settled (ByteSource.ofReader reader) uses := by
  constructor
  · have settled := TextSource.settled_ofString text
    apply (Keeps.of_guard (TextSource.guard text.toList) settled uses).imp
    · rintro source ⟨before, token, cuts, -⟩
      exact cuts.placed
    · rintro source ⟨before, token, cuts, takes⟩
      exact cuts.settled takes
  · exact Keeps.of_guard ByteSource.guard (ByteSource.settled_ofReader reader) uses

example : requests (TextSource.ofString " a.") [.scan true] =
    [.startToken, .read, .read, .unread, .startToken, .read, .read, .unread] := by cbv

end Scanner

end Fluent
