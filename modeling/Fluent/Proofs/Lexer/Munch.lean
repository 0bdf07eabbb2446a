/-
This file proves that the lexer reads the longest text that a token can begin with.
-/

import Fluent.Proofs.Lexer.Truncation
import Fluent.Proofs.Text.Prefixes

namespace Fluent.Lexer

/-- The texts that complete a legal token from a state. -/
def State.Completes : State → List Char → Prop
  | state, [] => state.atEnd ≠ .illegal
  | state, character :: rest =>
    match step state character with
    | .advance next => next.Completes rest
    | .close kind => kind ≠ .illegal ∧ rest = []
    | .stop _ => False

section

variable {state next : State} {character : Char} {kind : Kind} {rest : List Char}

theorem completes_nil : state.Completes [] ↔ state.atEnd ≠ .illegal :=
  Iff.rfl

theorem completes_of_advance (moved : step state character = .advance next) :
    state.Completes (character :: rest) ↔ next.Completes rest := by
  rw [State.Completes, moved]

theorem completes_of_close (moved : step state character = .close kind) :
    state.Completes (character :: rest) ↔ kind ≠ .illegal ∧ rest = [] := by
  rw [State.Completes, moved]

theorem not_completes_of_stop (moved : step state character = .stop kind) :
    ¬ state.Completes (character :: rest) := by
  rw [State.Completes, moved]
  exact id

theorem begins_of_advance (moved : step state character = .advance next) :
    Begins state.Completes (character :: rest) ↔ Begins next.Completes rest :=
  exists_congr fun _ => completes_of_advance moved

/-- Characters that belong to one token are completed as the state behind them is. -/
theorem completes_append {final : State} {front : List Char}
    (advanced : advanceAll state front = some final) :
    state.Completes (front ++ rest) ↔ final.Completes rest := by
  fun_induction advanceAll state front with
  | case1 state =>
    cases advanced
    rfl
  | case2 state character later next moved hypothesis =>
    rw [List.cons_append, completes_of_advance moved]
    exact hypothesis advanced
  | case3 => cases advanced
  | case4 => cases advanced

end

section

variable {part next : Quoted} {character : Char} (depth : Nat)

theorem step_quoted_of_inside (inside : part.step character = .inside next) :
    step (.quoted part) character = .advance (.quoted next) := by
  rw [step, inside]

theorem step_quoted_of_closed (closed : part.step character = .closed) :
    step (.quoted part) character = .close .text := by
  rw [step, closed]

theorem step_quoted_of_broken (broken : part.step character = .broken) :
    step (.quoted part) character = .close .illegal := by
  rw [step, broken]

theorem step_blobQuoted_of_inside (inside : part.step character = .inside next) :
    step (.blobQuoted depth part) character = .advance (.blobQuoted depth next) := by
  rw [step, inside]

theorem step_blobQuoted_of_closed (closed : part.step character = .closed) :
    step (.blobQuoted depth part) character = .advance (.blob depth) := by
  rw [step, closed]

theorem step_blobQuoted_of_broken (broken : part.step character = .broken) :
    step (.blobQuoted depth part) character = .close .illegal := by
  rw [step, broken]

end

/-- Of an escape's four digits, at most three have been seen. -/
def Quoted.Live : Quoted → Prop
  | .body | .escape => True
  | .unicode seen => seen < 4

/-- The states that a token can come to. -/
def State.Live : State → Prop
  | .quoted part | .blobQuoted _ part => part.Live
  | .blanks | .word | .number _ | .blob _ | .colon => True

theorem Quoted.Live.step {part next : Quoted} {character : Char} (live : part.Live)
    (moved : part.step character = .inside next) : next.Live := by
  cases part with
  | body =>
    simp only [Quoted.step] at moved
    split_ifs at moved <;> cases moved <;> trivial
  | escape =>
    simp only [Quoted.step] at moved
    split_ifs at moved <;> cases moved
    · trivial
    · exact Nat.zero_lt_succ 3
  | unicode seen =>
    change seen < 4 at live
    simp only [Quoted.step] at moved
    split_ifs at moved with digit last <;> cases moved
    · trivial
    · change seen + 1 < 4
      omega

theorem State.Live.step {state next : State} {character : Char} (live : state.Live)
    (moved : Lexer.step state character = .advance next) : next.Live := by
  cases state with
  | quoted part =>
    cases inside : part.step character with
    | inside later =>
      rw [step_quoted_of_inside inside] at moved
      cases moved
      exact Quoted.Live.step live inside
    | closed => cases (step_quoted_of_closed inside).symm.trans moved
    | broken => cases (step_quoted_of_broken inside).symm.trans moved
  | blobQuoted depth part =>
    cases inside : part.step character with
    | inside later =>
      rw [step_blobQuoted_of_inside depth inside] at moved
      cases moved
      exact Quoted.Live.step live inside
    | closed =>
      rw [step_blobQuoted_of_closed depth inside] at moved
      cases moved
      trivial
    | broken => cases (step_blobQuoted_of_broken depth inside).symm.trans moved
  | number part =>
    cases part <;> simp only [Lexer.step, Numeral.step] at moved <;> split_ifs at moved <;>
      cases moved <;> trivial
  | blob depth =>
    unfold Lexer.step at moved
    dsimp only at moved
    split at moved <;> cases moved <;> trivial
  | blanks | word | colon =>
    simp only [Lexer.step] at moved
    split_ifs at moved
    all_goals cases moved
    all_goals trivial

theorem State.Live.advanceAll {state final : State} {text : List Char} (live : state.Live)
    (advanced : Lexer.advanceAll state text = some final) : final.Live := by
  fun_induction Lexer.advanceAll state text with
  | case1 state =>
    cases advanced
    exact live
  | case2 state character rest next moved hypothesis => exact hypothesis (live.step moved) advanced
  | case3 => cases advanced
  | case4 => cases advanced

/-- Whatever has been read of a quoted text, there is a way to close it. -/
theorem Quoted.Live.exists_completes {part : Quoted} (live : part.Live) :
    ∃ text, (State.quoted part).Completes text := by
  have closed : (State.quoted .body).Completes ['"'] := ⟨by decide, rfl⟩
  cases part with
  | body => exact ⟨['"'], closed⟩
  | escape => exact ⟨['b', '"'], closed⟩
  | unicode seen =>
    match seen, live with
    | 0, _ => exact ⟨['0', '0', '0', '0', '"'], closed⟩
    | 1, _ => exact ⟨['0', '0', '0', '"'], closed⟩
    | 2, _ => exact ⟨['0', '0', '"'], closed⟩
    | 3, _ => exact ⟨['0', '"'], closed⟩

theorem exists_completes_blob (depth : Nat) : ∃ text, (State.blob depth).Completes text := by
  induction depth with
  | zero => exact ⟨['\x7d'], by decide, rfl⟩
  | succ depth hypothesis =>
    obtain ⟨text, completes⟩ := hypothesis
    exact ⟨'\x7d' :: text, completes⟩

/-- The characters before the last quote lead from place to place, also within a blob. -/
theorem exists_place_of_advanceAll {part : Quoted} {text : List Char} {state : State}
    (advanced : advanceAll (.quoted part) text = some state) :
    ∃ next, state = .quoted next ∧
      ∀ depth, advanceAll (.blobQuoted depth part) text = some (.blobQuoted depth next) := by
  induction text generalizing part with
  | nil =>
    cases advanced
    exact ⟨part, rfl, fun depth => rfl⟩
  | cons character rest hypothesis =>
    cases moved : part.step character with
    | inside later =>
      rw [advanceAll_cons_of_advance (step_quoted_of_inside moved)] at advanced
      obtain ⟨next, place, onward⟩ := hypothesis advanced
      refine ⟨next, place, fun depth => ?_⟩
      rw [advanceAll_cons_of_advance (step_blobQuoted_of_inside depth moved)]
      exact onward depth
    | closed =>
      rw [advanceAll, step_quoted_of_closed moved] at advanced
      cases advanced
    | broken =>
      rw [advanceAll, step_quoted_of_broken moved] at advanced
      cases advanced

/-- What completes a quoted text ends with the character that closes it. -/
theorem exists_closing_of_completes {part : Quoted} {text : List Char}
    (completes : (State.quoted part).Completes text) :
    ∃ front character last, text = front ++ [character] ∧
      advanceAll (.quoted part) front = some (.quoted last) ∧ last.step character = .closed := by
  induction text generalizing part with
  | nil => exact absurd rfl completes
  | cons character rest hypothesis =>
    cases moved : part.step character with
    | inside next =>
      have advanced := step_quoted_of_inside moved
      obtain ⟨front, closing, last, rfl, before, closed⟩ :=
        hypothesis ((completes_of_advance advanced).1 completes)
      exact ⟨character :: front, closing, last, rfl,
        (advanceAll_cons_of_advance advanced front).trans before, closed⟩
    | closed =>
      obtain ⟨-, rfl⟩ := (completes_of_close (step_quoted_of_closed moved)).1 completes
      exact ⟨[], character, part, rfl, rfl, moved⟩
    | broken =>
      exact absurd rfl ((completes_of_close (step_quoted_of_broken moved)).1 completes).1

/-- What closes a quoted text leads back into the blob that it stands in. -/
theorem advanceAll_blobQuoted {part : Quoted} {text : List Char} (depth : Nat)
    (completes : (State.quoted part).Completes text) :
    advanceAll (.blobQuoted depth part) text = some (.blob depth) := by
  obtain ⟨front, character, last, rfl, before, closed⟩ := exists_closing_of_completes completes
  obtain ⟨next, place, onward⟩ := exists_place_of_advanceAll before
  cases place
  exact advanceAll_concat_iff.2 ⟨_, onward depth, step_blobQuoted_of_closed depth closed⟩

/-- No state that a token can come to is a dead end. -/
theorem State.Live.exists_completes {state : State} (live : state.Live) :
    ∃ text, state.Completes text := by
  cases state with
  | blanks => exact ⟨[], completes_nil.2 (by decide)⟩
  | word => exact ⟨[], completes_nil.2 (by decide)⟩
  | number part =>
    cases part with
    | whole | fraction | exponentDigits => exact ⟨[], completes_nil.2 (by decide)⟩
    | sign => exact ⟨['0'], show Kind.integer ≠ .illegal by decide⟩
    | exponent | exponentSign => exact ⟨['0'], show Kind.float ≠ .illegal by decide⟩
  | quoted part => exact Quoted.Live.exists_completes live
  | blob depth => exact exists_completes_blob depth
  | blobQuoted depth part =>
    obtain ⟨text, closing⟩ := Quoted.Live.exists_completes live
    obtain ⟨rest, completes⟩ := exists_completes_blob depth
    exact ⟨text ++ rest, (completes_append (advanceAll_blobQuoted depth closing)).2 completes⟩
  | colon => exact ⟨['='], by decide, rfl⟩

/-- A character that cannot go on with a token leaves a state in which no token ends. -/
theorem atEnd_of_close_illegal {state : State} {character : Char}
    (closed : step state character = .close .illegal) : state.atEnd = .illegal := by
  cases state with
  | number part =>
    cases part <;> simp only [step, Numeral.step] at closed <;> split_ifs at closed <;> rfl
  | blanks | word =>
    simp only [step] at closed
    split_ifs at closed
  | _ => rfl

theorem atEnd_ne_illegal_of_stop {state : State} {character : Char} {kind : Kind}
    (stopped : step state character = .stop kind) : state.atEnd ≠ .illegal := by
  cases state with
  | number part =>
    cases part <;> simp only [step, Numeral.step] at stopped <;> split_ifs at stopped <;> decide
  | blanks | word => decide
  | quoted part | blobQuoted depth part =>
    simp only [step] at stopped
    split at stopped <;> cases stopped
  | blob depth =>
    unfold step at stopped
    dsimp only at stopped
    split at stopped <;> cases stopped
  | colon =>
    simp only [step] at stopped
    split_ifs at stopped

/-- Where no text goes on with the next character, the longest that can be completed is empty. -/
theorem State.Live.longestPrefix_nil {state : State} {character : Char} (live : state.Live)
    (stuck : ∀ rest, ¬ state.Completes (character :: rest)) (later : List Char) :
    LongestPrefix (Begins state.Completes) (character :: later) [] where
  isPrefix := List.nil_prefix
  holds := live.exists_completes
  longest other before begins := by
    rcases List.prefix_cons_iff.1 before with rfl | ⟨behind, rfl, -⟩
    · exact List.nil_prefix
    · obtain ⟨rest, completes⟩ := begins
      exact absurd completes (stuck (behind ++ rest))

/-- Where a character closes a legal token, nothing longer can be completed. -/
theorem longestPrefix_of_close {state : State} {character : Char} {kind : Kind}
    (closed : step state character = .close kind) (legal : kind ≠ .illegal) (later : List Char) :
    LongestPrefix (Begins state.Completes) (character :: later) [character] where
  isPrefix := ⟨later, rfl⟩
  holds := ⟨[], (completes_of_close closed).2 ⟨legal, rfl⟩⟩
  longest other before begins := by
    rcases List.prefix_cons_iff.1 before with rfl | ⟨behind, rfl, -⟩
    · exact List.nil_prefix
    · obtain ⟨rest, completes⟩ := begins
      have nothing := ((completes_of_close closed).1 completes).2
      obtain rfl : behind = [] := (List.append_eq_nil_iff.1 nothing).1
      exact List.prefix_rfl

/-- The longest text that can be completed is read; the next character may make it illegal. -/
theorem readFrom_longest {state : State} (live : state.Live) (text : List Char) :
    ∃ front rest, text = front ++ rest ∧ LongestPrefix (Begins state.Completes) text front ∧
      (state.Completes front → (readFrom state text).kind ≠ .illegal ∧
        (readFrom state text).literal = front ∧ (readFrom state text).rest = rest) ∧
      (¬ state.Completes front →
        readFrom state text = ⟨.illegal, front ++ rest.take 1, rest.drop 1, rest.isEmpty⟩) := by
  induction text generalizing state with
  | nil =>
    refine ⟨[], [], rfl, ⟨List.nil_prefix, live.exists_completes, fun _ before _ => before⟩,
      fun legal => ⟨legal, rfl, rfl⟩, fun broken => ?_⟩
    have illegal : state.atEnd = .illegal := Decidable.of_not_not broken
    rw [readFrom, illegal]
    rfl
  | cons character later hypothesis =>
    cases moved : step state character with
    | advance next =>
      obtain ⟨front, rest, split, longest, legal, illegal⟩ := hypothesis (live.step moved)
      refine ⟨character :: front, rest, congrArg (character :: ·) split,
        longest.cons fun _ => begins_of_advance moved, ?_⟩
      rw [readFrom_of_advance moved, completes_of_advance moved]
      refine ⟨fun completes => ?_, fun broken => ?_⟩
      · obtain ⟨kind, literal, left⟩ := legal completes
        exact ⟨kind, congrArg (character :: ·) literal, left⟩
      · rw [illegal broken]
        rfl
    | close kind =>
      rw [readFrom_of_close moved]
      by_cases legal : kind = .illegal
      · subst legal
        have unfinished := atEnd_of_close_illegal moved
        have stuck (rest : List Char) : ¬ state.Completes (character :: rest) := fun completes =>
          ((completes_of_close moved).1 completes).1 rfl
        exact ⟨[], character :: later, rfl, live.longestPrefix_nil stuck later,
          fun completes => absurd unfinished completes, fun _ => rfl⟩
      · have whole := (completes_of_close moved).2 ⟨legal, rfl⟩
        exact ⟨[character], later, rfl, longestPrefix_of_close moved legal later,
          fun _ => ⟨legal, rfl, rfl⟩, fun broken => absurd whole broken⟩
    | stop kind =>
      have finished := atEnd_ne_illegal_of_stop moved
      have stuck (rest : List Char) : ¬ state.Completes (character :: rest) :=
        not_completes_of_stop moved
      rw [readFrom_of_stop moved]
      exact ⟨[], character :: later, rfl, live.longestPrefix_nil stuck later,
        fun _ => ⟨atEnd_of_stop moved ▸ finished, rfl, rfl⟩,
        fun broken => absurd finished broken⟩

end Fluent.Lexer
