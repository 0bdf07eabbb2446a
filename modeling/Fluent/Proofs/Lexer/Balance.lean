/-
This file proves that a blob is the shortest text with as many closing braces as opening ones.
-/

import Fluent.Proofs.Lexer.Blob
import Fluent.Proofs.Lexer.Quoted
import Mathlib.Data.List.Induction

namespace Fluent.Lexer

/-- Braces, quoted texts and other characters, with the numbers of opening and closing braces. -/
inductive Pieces : List Char → Nat → Nat → Prop
  | nil : Pieces [] 0 0
  | opening {rest : List Char} {opened closed : Nat} (others : Pieces rest opened closed) :
      Pieces ('\x7b' :: rest) (opened + 1) closed
  | closing {rest : List Char} {opened closed : Nat} (others : Pieces rest opened closed) :
      Pieces ('\x7d' :: rest) opened (closed + 1)
  | quoted {quoted rest : List Char} {opened closed : Nat} (whole : IsQuoted quoted)
      (others : Pieces rest opened closed) : Pieces (quoted ++ rest) opened closed
  | filler {character : Char} {rest : List Char} {opened closed : Nat}
      (filler : isFiller character) (others : Pieces rest opened closed) :
      Pieces (character :: rest) opened closed

/-- A text that closes as many braces as it opens. -/
def Balanced (text : List Char) : Prop :=
  text ≠ [] ∧ ∃ braces, Pieces text braces braces

/-- A text whose last character spoils the quoted text in which it ends. -/
def Malformed (text : List Char) : Prop :=
  ∃ before front character, text = before ++ (front ++ [character]) ∧
    (∃ opened closed, Pieces before opened closed) ∧ IsQuotedFront front ∧
    ¬ Begins IsQuoted (front ++ [character])

/-- The depth behind a first brace counts the braces that are opened and not closed. -/
inductive Reached : List Char → State → Prop
  | outside {taken : List Char} {opened closed depth : Nat} (pieces : Pieces taken opened closed)
      (count : closed + depth = opened) : Reached taken (.blob depth)
  | inside {before span : List Char} {opened closed depth : Nat} {part : Quoted}
      (pieces : Pieces before opened closed) (count : closed + depth = opened)
      (advanced : advanceAll (.quoted .body) span = some (.quoted part)) :
      Reached (before ++ '"' :: span) (.blobQuoted depth part)

theorem Pieces.append {first second : List Char} {opened closed more others : Nat}
    (pieces : Pieces first opened closed) (behind : Pieces second more others) :
    Pieces (first ++ second) (opened + more) (closed + others) := by
  induction pieces with
  | nil => simpa using behind
  | opening _ hypothesis =>
    rw [Nat.add_right_comm]
    exact .opening hypothesis
  | closing _ hypothesis =>
    rw [Nat.add_right_comm]
    exact .closing hypothesis
  | quoted whole _ hypothesis =>
    rw [List.append_assoc]
    exact .quoted whole hypothesis
  | filler filler _ hypothesis => exact .filler filler hypothesis

/-- What begins with a brace goes on with pieces behind it. -/
theorem Pieces.of_opening {rest : List Char} {opened closed : Nat}
    (pieces : Pieces ('\x7b' :: rest) opened closed) :
    ∃ inner, opened = inner + 1 ∧ Pieces rest inner closed := by
  generalize split : '\x7b' :: rest = text at pieces
  cases pieces with
  | nil => cases split
  | opening others =>
    cases split
    exact ⟨_, rfl, others⟩
  | closing => cases split
  | quoted whole others =>
    obtain ⟨behind, rfl, -⟩ := whole
    cases split
  | filler filler =>
    cases split
    exact absurd filler (by decide)

/-- What a character does outside the quoted texts of a blob. -/
theorem step_blob_cases (depth : Nat) (character : Char) :
    (character = '"' ∧ step (.blob depth) character = .advance (.blobQuoted depth .body)) ∨
      (character = '\x7b' ∧ step (.blob depth) character = .advance (.blob (depth + 1))) ∨
      (character = '\x7d' ∧ depth = 0 ∧ step (.blob depth) character = .close .blob) ∨
      (∃ outer, character = '\x7d' ∧ depth = outer + 1 ∧
        step (.blob depth) character = .advance (.blob outer)) ∨
      (isFiller character ∧ step (.blob depth) character = .advance (.blob depth)) := by
  by_cases quote : character = '"'
  · subst quote
    exact .inl ⟨rfl, rfl⟩
  by_cases opening : character = '\x7b'
  · subst opening
    exact .inr (.inl ⟨rfl, rfl⟩)
  by_cases closing : character = '\x7d'
  · subst closing
    cases depth with
    | zero => exact .inr (.inr (.inl ⟨rfl, rfl, rfl⟩))
    | succ outer => exact .inr (.inr (.inr (.inl ⟨outer, rfl, rfl, rfl⟩)))
  have filler : isFiller character := by simp [isFiller, quote, opening, closing]
  exact .inr (.inr (.inr (.inr ⟨filler, step_blob_of_isFiller filler depth⟩)))

theorem IsQuoted.keeps_blob {quoted : List Char} (whole : IsQuoted quoted) (depth : Nat) :
    Keeps (.blob depth) quoted := by
  obtain ⟨text, rfl, completes⟩ := whole.exists_completes
  have opened : step (.blob depth) '"' = .advance (.blobQuoted depth .body) := rfl
  rw [Keeps, advanceAll_cons_of_advance opened]
  exact advanceAll_blobQuoted depth completes

/-- Pieces are read to the depth that they leave, unless the blob is closed among them. -/
theorem Pieces.advanceAll {text : List Char} {opened closed : Nat}
    (pieces : Pieces text opened closed) (depth : Nat) :
    (∃ left, closed + left = opened + depth ∧
        Lexer.advanceAll (.blob depth) text = some (.blob left)) ∨
      ∃ inside later, text = inside ++ '\x7d' :: later ∧
        Lexer.advanceAll (.blob depth) inside = some (.blob 0) := by
  induction pieces generalizing depth with
  | nil => exact .inl ⟨depth, rfl, rfl⟩
  | @opening rest opened closed others hypothesis =>
    have moved : step (.blob depth) '\x7b' = .advance (.blob (depth + 1)) := rfl
    rcases hypothesis (depth + 1) with ⟨left, count, advanced⟩ | ⟨inside, later, rfl, advanced⟩
    · exact .inl ⟨left, by omega, (advanceAll_cons_of_advance moved rest).trans advanced⟩
    · exact .inr ⟨'\x7b' :: inside, later, rfl,
        (advanceAll_cons_of_advance moved inside).trans advanced⟩
  | @closing rest opened closed others hypothesis =>
    cases depth with
    | zero => exact .inr ⟨[], rest, rfl, rfl⟩
    | succ outer =>
      have moved : step (.blob (outer + 1)) '\x7d' = .advance (.blob outer) := rfl
      rcases hypothesis outer with ⟨left, count, advanced⟩ | ⟨inside, later, rfl, advanced⟩
      · exact .inl ⟨left, by omega, (advanceAll_cons_of_advance moved rest).trans advanced⟩
      · exact .inr ⟨'\x7d' :: inside, later, rfl,
          (advanceAll_cons_of_advance moved inside).trans advanced⟩
  | @quoted quoted rest opened closed whole others hypothesis =>
    have joined (text : List Char) : Lexer.advanceAll (.blob depth) (quoted ++ text) =
        Lexer.advanceAll (.blob depth) text := by
      rw [advanceAll_append, whole.keeps_blob depth, Option.bind_some]
    rcases hypothesis depth with ⟨left, count, advanced⟩ | ⟨inside, later, rfl, advanced⟩
    · exact .inl ⟨left, count, (joined rest).trans advanced⟩
    · exact .inr ⟨quoted ++ inside, later, (List.append_assoc ..).symm,
        (joined inside).trans advanced⟩
  | @filler character rest opened closed filler others hypothesis =>
    have moved := step_blob_of_isFiller filler depth
    rcases hypothesis depth with ⟨left, count, advanced⟩ | ⟨inside, later, rfl, advanced⟩
    · exact .inl ⟨left, count, (advanceAll_cons_of_advance moved rest).trans advanced⟩
    · exact .inr ⟨character :: inside, later, rfl,
        (advanceAll_cons_of_advance moved inside).trans advanced⟩

/-- One more character of a blob is one more piece, or belongs to a quoted text. -/
theorem Reached.step {taken : List Char} {state next : State} {character : Char}
    (reached : Reached taken state) (moved : Lexer.step state character = .advance next) :
    Reached (taken ++ [character]) next := by
  cases reached with
  | @outside _ opened closed depth pieces count =>
    rcases step_blob_cases depth character with ⟨rfl, same⟩ | ⟨rfl, same⟩ | ⟨-, -, same⟩ |
      ⟨outer, rfl, rfl, same⟩ | ⟨filler, same⟩ <;> cases same.symm.trans moved
    · exact .inside pieces count rfl
    · exact .outside (pieces.append (.opening .nil)) (by omega)
    · exact .outside (pieces.append (.closing .nil)) (by omega)
    · exact .outside (pieces.append (.filler filler .nil)) count
  | @inside before span opened closed depth part pieces count advanced =>
    cases inside : part.step character with
    | inside later =>
      cases (step_blobQuoted_of_inside depth inside).symm.trans moved
      rw [List.append_assoc]
      exact .inside pieces count
        (advanceAll_concat_iff.2 ⟨_, advanced, step_quoted_of_inside inside⟩)
    | closed =>
      cases (step_blobQuoted_of_closed depth inside).symm.trans moved
      have last : (State.quoted part).Completes [character] :=
        (completes_of_close (step_quoted_of_closed inside)).2 ⟨Kind.noConfusion, rfl⟩
      have whole : IsQuoted ('"' :: (span ++ [character])) :=
        isQuoted_iff_completes.2 ((completes_append advanced).2 last)
      have piece : Pieces ('"' :: (span ++ [character])) 0 0 := by
        simpa using Pieces.quoted whole .nil
      rw [List.append_assoc]
      exact .outside (pieces.append piece) count
    | broken => cases (step_blobQuoted_of_broken depth inside).symm.trans moved

/-- Behind the first brace of a blob the depth counts the braces that are open. -/
theorem reached_of_advanceAll {taken : List Char} {state : State}
    (advanced : advanceAll (.blob 0) taken = some state) : Reached taken state := by
  induction taken using List.reverseRecOn generalizing state with
  | nil =>
    cases advanced
    exact .outside .nil rfl
  | append_singleton front character hypothesis =>
    obtain ⟨middle, before, moved⟩ := advanceAll_concat_iff.1 advanced
    exact (hypothesis before).step moved

section

variable {inside taken rest text : List Char}

theorem readFrom_blob_of_closed (advanced : advanceAll (.blob 0) inside = some (.blob 0))
    (later : List Char) :
    readFrom (.blob 0) (inside ++ '\x7d' :: later) =
      ⟨.blob, inside ++ ['\x7d'], later, false⟩ := by
  rw [readFrom_append_of_advanceAll advanced]
  rfl

theorem readFrom_blobQuoted_of_broken {depth : Nat} {part : Quoted} {character : Char}
    (advanced : advanceAll (.blob 0) taken = some (.blobQuoted depth part))
    (broken : part.step character = .broken) (later : List Char) :
    readFrom (.blob 0) (taken ++ character :: later) =
      ⟨.illegal, taken ++ [character], later, false⟩ := by
  rw [readFrom_append_of_advanceAll advanced,
    readFrom_of_close (step_blobQuoted_of_broken depth broken)]
  rfl

/-- A blob ends at its last brace, at a character that spoils a quoted text, or with the text. -/
theorem readFrom_blob_cases (text : List Char) :
    (∃ inside later, text = inside ++ '\x7d' :: later ∧
        advanceAll (.blob 0) inside = some (.blob 0)) ∨
      (∃ taken character later depth part, text = taken ++ character :: later ∧
        advanceAll (.blob 0) taken = some (.blobQuoted depth part) ∧
        part.step character = .broken) ∨
      (∃ state, advanceAll (.blob 0) text = some state) ∧
        readFrom (.blob 0) text = ⟨.illegal, text, [], true⟩ := by
  by_cases ended : (readFrom (.blob 0) text).ended
  · obtain ⟨state, advanced, read⟩ := advanceAll_of_ended ended
    refine .inr (.inr ⟨⟨state, advanced⟩, ?_⟩)
    cases reached_of_advanceAll advanced <;> exact read
  · obtain ⟨before, character, later, final, rfl, advanced, halted⟩ :=
      exists_halt_of_going (Bool.eq_false_iff.2 ended)
    cases reached_of_advanceAll advanced with
    | @outside _ opened closed depth pieces count =>
      rcases step_blob_cases depth character with ⟨-, moved⟩ | ⟨-, moved⟩ | ⟨rfl, rfl, -⟩ |
        ⟨outer, -, -, moved⟩ | ⟨-, moved⟩
      · exact absurd moved (halted _)
      · exact absurd moved (halted _)
      · exact .inl ⟨before, later, rfl, advanced⟩
      · exact absurd moved (halted _)
      · exact absurd moved (halted _)
    | @inside front span opened closed depth part =>
      cases inside : part.step character with
      | inside next => exact absurd (step_blobQuoted_of_inside depth inside) (halted _)
      | closed => exact absurd (step_blobQuoted_of_closed depth inside) (halted _)
      | broken => exact .inr (.inl ⟨_, character, later, depth, part, rfl, advanced, inside⟩)

/-- What is read up to a last brace is balanced with it. -/
theorem balanced_of_advanceAll (advanced : advanceAll (.blob 0) inside = some (.blob 0)) :
    Balanced ('\x7b' :: (inside ++ ['\x7d'])) := by
  cases reached_of_advanceAll advanced with
  | @outside _ opened closed _ pieces count =>
    have whole := Pieces.opening (pieces.append (.closing .nil))
    rw [Nat.add_zero] at count
    exact ⟨List.cons_ne_nil _ _, opened + 1, count ▸ whole⟩

/-- A balanced text that begins with a brace has a last brace for it. -/
theorem exists_closed_of_balanced (balanced : Balanced ('\x7b' :: text)) :
    ∃ inside later, text = inside ++ '\x7d' :: later ∧
      advanceAll (.blob 0) inside = some (.blob 0) := by
  obtain ⟨-, braces, pieces⟩ := balanced
  obtain ⟨inner, rfl, others⟩ := pieces.of_opening
  rcases others.advanceAll 0 with ⟨left, count, -⟩ | closed
  · omega
  · exact closed

/-- The last brace of a blob ends the shortest balanced text. -/
theorem shortestPrefix_balanced (advanced : advanceAll (.blob 0) inside = some (.blob 0))
    (later : List Char) :
    ShortestPrefix Balanced ('\x7b' :: (inside ++ '\x7d' :: later))
      ('\x7b' :: (inside ++ ['\x7d'])) where
  isPrefix := ⟨later, by simp⟩
  holds := balanced_of_advanceAll advanced
  shortest other before balanced := by
    rcases List.prefix_cons_iff.1 before with rfl | ⟨text, rfl, behind⟩
    · exact absurd rfl balanced.1
    · obtain ⟨within, rest, rfl, closed⟩ := exists_closed_of_balanced balanced
      obtain ⟨more, split⟩ := behind
      rw [List.append_assoc, List.cons_append] at split
      have same := readFrom_blob_of_closed closed (rest ++ more)
      rw [split, readFrom_blob_of_closed advanced] at same
      have literal : inside ++ ['\x7d'] = within ++ ['\x7d'] := congrArg Reading.literal same
      refine List.cons_prefix_cons.2 ⟨rfl, rest, ?_⟩
      rw [literal, List.append_assoc]
      rfl

/-- A text that ends in a spoiled quoted text is not read to its end. -/
theorem advanceAll_of_malformed (malformed : Malformed ('\x7b' :: text)) :
    advanceAll (.blob 0) text = none := by
  obtain ⟨before, front, character, split, ⟨opened, closed, pieces⟩, begun, strange⟩ := malformed
  obtain ⟨span, part, rfl, advanced⟩ := isQuotedFront_iff.1 begun
  rw [not_begins_isQuoted_iff advanced] at strange
  cases before with
  | nil => cases split
  | cons brace before =>
    rw [List.cons_append] at split
    obtain ⟨rfl, rfl⟩ := List.cons.inj split
    obtain ⟨inner, rfl, others⟩ := pieces.of_opening
    rcases others.advanceAll 0 with ⟨depth, -, outside⟩ | ⟨inside, later, rfl, closed⟩
    · obtain ⟨_, ⟨⟩, onward⟩ := exists_place_of_advanceAll advanced
      have quote : step (.blob depth) '"' = .advance (.blobQuoted depth .body) := rfl
      rw [advanceAll_append, outside, Option.bind_some, List.cons_append,
        advanceAll_cons_of_advance quote, advanceAll_append, onward depth, Option.bind_some,
        advanceAll, step_blobQuoted_of_broken depth strange]
    · rw [List.append_assoc, advanceAll_append, closed]
      rfl

theorem not_malformed_of_advanceAll {state : State} {front : List Char}
    (advanced : advanceAll (.blob 0) text = some state) (before : front <+: '\x7b' :: text) :
    ¬ Malformed front := by
  intro malformed
  rcases List.prefix_cons_iff.1 before with rfl | ⟨behind, rfl, within⟩
  · obtain ⟨_, _, _, split, -⟩ := malformed
    simp at split
  · obtain ⟨middle, going⟩ := advanceAll_of_isPrefix advanced within
    cases (advanceAll_of_malformed malformed).symm.trans going

/-- The character that spoils a quoted text in a blob ends the shortest text that is so spoiled. -/
theorem shortestPrefix_malformed {depth : Nat} {part : Quoted} {character : Char}
    (advanced : advanceAll (.blob 0) taken = some (.blobQuoted depth part))
    (broken : part.step character = .broken) (later : List Char) :
    ShortestPrefix Malformed ('\x7b' :: (taken ++ character :: later))
      ('\x7b' :: taken ++ [character]) := by
  refine .of_concat ⟨later, by simp⟩ ?_ fun other => not_malformed_of_advanceAll advanced
  cases reached_of_advanceAll advanced with
  | @inside before span opened closed _ _ pieces count inside =>
    exact ⟨'\x7b' :: before, '"' :: span, character, by simp,
      ⟨opened + 1, closed, .opening pieces⟩, isQuotedFront_iff.2 ⟨span, part, rfl, inside⟩,
      (not_begins_isQuoted_iff inside).2 broken⟩

/-- Where the token is no blob, no balanced text stands at the front. -/
theorem not_balanced_of_kind {front : List Char} (unclosed : (readFrom (.blob 0) text).kind ≠ .blob)
    (before : front <+: '\x7b' :: text) : ¬ Balanced front := by
  intro balanced
  rcases List.prefix_cons_iff.1 before with rfl | ⟨behind, rfl, within⟩
  · exact balanced.1 rfl
  · obtain ⟨inside, later, rfl, advanced⟩ := exists_closed_of_balanced balanced
    obtain ⟨more, rfl⟩ := within
    rw [List.append_assoc, List.cons_append, readFrom_blob_of_closed advanced] at unclosed
    exact unclosed rfl

/-- The token at a brace is the shortest balanced text, or ends where a quoted text is spoiled. -/
theorem readToken_blob_cases (rest : List Char) :
    (∃ blob later, '\x7b' :: rest = blob ++ later ∧
      ShortestPrefix Balanced ('\x7b' :: rest) blob ∧
      readToken ('\x7b' :: rest) = ⟨.blob, blob, later, false⟩) ∨
    (∀ front, front <+: '\x7b' :: rest → ¬ Balanced front) ∧
      ((∃ broken later, '\x7b' :: rest = broken ++ later ∧
          ShortestPrefix Malformed ('\x7b' :: rest) broken ∧
          readToken ('\x7b' :: rest) = ⟨.illegal, broken, later, false⟩) ∨
        (∀ front, front <+: '\x7b' :: rest → ¬ Malformed front) ∧
          readToken ('\x7b' :: rest) = ⟨.illegal, '\x7b' :: rest, [], true⟩) := by
  have opened : first '\x7b' = .opens (.blob 0) := by decide
  rcases readFrom_blob_cases rest with ⟨inside, later, rfl, advanced⟩ |
    ⟨taken, character, later, depth, part, rfl, advanced, broken⟩ | ⟨⟨state, advanced⟩, read⟩
  · refine .inl ⟨'\x7b' :: (inside ++ ['\x7d']), later, by simp,
      shortestPrefix_balanced advanced later, ?_⟩
    rw [readToken_of_opens opened, readFrom_blob_of_closed advanced]
    rfl
  · have read := readFrom_blobQuoted_of_broken advanced broken later
    refine .inr ⟨fun front => not_balanced_of_kind (by rw [read]; exact Kind.noConfusion),
      .inl ⟨'\x7b' :: taken ++ [character], later, by simp,
        shortestPrefix_malformed advanced broken later, ?_⟩⟩
    rw [readToken_of_opens opened, read]
    rfl
  · refine .inr ⟨fun front => not_balanced_of_kind (by rw [read]; exact Kind.noConfusion),
      .inr ⟨fun front => not_malformed_of_advanceAll advanced, ?_⟩⟩
    rw [readToken_of_opens opened, read]
    rfl

end

end Fluent.Lexer

namespace Fluent

open CharSource Viewed Lexer

variable {σ : Type} [CharSource σ]

/-- A blob is scanned at a brace exactly if it is the shortest balanced text there. -/
theorem Scanner.scan_shortest_balanced [Viewed σ] {source : σ} {view : View}
    (shown : Shows source view) {rest : List Char} (ahead : view.ahead = '\x7b' :: rest)
    (ignoreBlanks : Bool) :
    let scanned := scan ignoreBlanks source
    (∀ blob,
      (scanned.1 = .blob ∧ tokenText scanned.2 = String.ofList blob ∧
        ∃ later, view.ahead = blob ++ later ∧
          Shows scanned.2 { view.startToken with token := blob, ahead := later }) ↔
      ShortestPrefix Balanced view.ahead blob) ∧
    ((∀ front, front <+: view.ahead → ¬ Balanced front) →
      scanned.1 = .illegal ∧
      ((∃ broken later, view.ahead = broken ++ later ∧
          ShortestPrefix Malformed view.ahead broken ∧
          tokenText scanned.2 = String.ofList broken ∧
          Shows scanned.2 { view.startToken with token := broken, ahead := later }) ∨
        (∀ front, front <+: view.ahead → ¬ Malformed front) ∧
          tokenText scanned.2 = String.ofList view.ahead ∧
          Shows scanned.2 { view.startToken with
            token := view.ahead
            ahead := []
            tail := view.tail.reach })) ∧
    (∀ taken state, advanceAll (.blob 0) taken = some state → Reached taken state) := by
  intro scanned
  have cases := readToken_blob_cases rest
  rw [← ahead] at cases
  refine ⟨fun blob => ?_, fun none => ?_, fun taken state => reached_of_advanceAll⟩
  · rcases cases with ⟨whole, later, split, shortest, read⟩ | ⟨none, others⟩
    · obtain ⟨kind, literal, after⟩ := scan_of_readToken shown read Kind.noConfusion ignoreBlanks
      constructor
      · rintro ⟨-, same, -⟩
        exact String.ofList_injective (literal.symm.trans same) ▸ shortest
      · intro least
        obtain rfl := least.unique shortest
        exact ⟨kind, literal, later, split, after⟩
    · refine iff_of_false ?_ fun least => none blob least.isPrefix least.holds
      rintro ⟨found, -⟩
      rcases others with ⟨broken, later, -, -, read⟩ | ⟨-, read⟩ <;>
        cases found.symm.trans (scan_of_readToken shown read Kind.noConfusion ignoreBlanks).1
  · rcases cases with ⟨whole, later, -, shortest, -⟩ | ⟨-, ⟨broken, later, split, shortest, read⟩ |
      ⟨sound, read⟩⟩
    · exact absurd shortest.holds (none whole shortest.isPrefix)
    · obtain ⟨kind, literal, after⟩ := scan_of_readToken shown read Kind.noConfusion ignoreBlanks
      exact ⟨kind, .inl ⟨broken, later, split, shortest, literal, after⟩⟩
    · obtain ⟨kind, literal, after⟩ := scan_of_readToken shown read Kind.noConfusion ignoreBlanks
      exact ⟨kind, .inr ⟨sound, literal, after⟩⟩

/-- A brace in a quoted text does not count. -/
theorem Scanner.scan_shortest_balanced_hidden :
    let text := ['\x7b', '"', '\x7d', '"', '\x7b', '\x7d', '\x7d', '\x7d']
    let blob := ['\x7b', '"', '\x7d', '"', '\x7b', '\x7d', '\x7d']
    let scanned := scan true (TextSource.ofList text)
    scanned.1 = .blob ∧ tokenText scanned.2 = String.ofList blob ∧
      ShortestPrefix Balanced text blob ∧ Shows scanned.2 ⟨blob, ['\x7d'], 0, 0, .sound⟩ := by
  intro text blob scanned
  have ahead : (View.ofText text).ahead = '\x7b' :: text.tail := rfl
  obtain ⟨exactly, -, -⟩ := scan_shortest_balanced (TextSource.ofList_shows text) ahead true
  have inside : advanceAll (.blob 0) ['"', '\x7d', '"', '\x7b', '\x7d'] = some (.blob 0) := by
    decide
  have shortest : ShortestPrefix Balanced text blob := shortestPrefix_balanced inside ['\x7d']
  obtain ⟨kind, literal, later, split, after⟩ := (exactly blob).2 shortest
  have behind : blob ++ ['\x7d'] = blob ++ later := split
  obtain rfl := List.append_cancel_left behind
  exact ⟨kind, literal, shortest, after⟩

end Fluent
