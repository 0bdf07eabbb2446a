/-
This file proves that a token is the same before every character that cannot continue it.
-/

import Fluent.Proofs.Lexer.Reading

namespace Fluent.Lexer

/-- Whether a character cannot continue a token of the given kind. -/
def delimits : Kind → Char → Bool
  | .blank, character => !isBlank character
  | .identifier, character | .trueWord, character | .falseWord, character
  | .nullWord, character => !isWordPart character
  | .integer, character =>
    !character.isDigit && character ≠ '.' && !isExponentMark character
  | .float, character => !character.isDigit && !isExponentMark character
  | .illegal, _ => false
  | _, _ => true

/-- The state behind characters that all belong to one token. -/
def advanceAll : State → List Char → Option State
  | state, [] => some state
  | state, character :: rest =>
    match step state character with
    | .advance next => advanceAll next rest
    | .close _ | .stop _ => none

theorem advanceAll_cons_of_advance {state next : State} {character : Char}
    (moved : step state character = .advance next) (rest : List Char) :
    advanceAll state (character :: rest) = advanceAll next rest := by
  rw [advanceAll, moved]

theorem advanceAll_append (state : State) (first second : List Char) :
    advanceAll state (first ++ second) =
      (advanceAll state first).bind fun middle => advanceAll middle second := by
  fun_induction advanceAll state first with
  | case1 state => rfl
  | case2 state character rest next moved hypothesis =>
    rw [List.cons_append, advanceAll_cons_of_advance moved, hypothesis]
  | case3 state character rest kind moved => simp [advanceAll, moved]
  | case4 state character rest kind moved => simp [advanceAll, moved]

theorem advanceAll_concat_iff {state final : State} {front : List Char} {character : Char} :
    advanceAll state (front ++ [character]) = some final ↔
      ∃ middle, advanceAll state front = some middle ∧ step middle character = .advance final := by
  rw [advanceAll_append, Option.bind_eq_some_iff]
  refine exists_congr fun middle => and_congr_right fun _ => ?_
  cases moved : step middle character <;> simp [advanceAll, moved]

theorem advanceAll_of_isPrefix {state final : State} {front whole : List Char}
    (advanced : advanceAll state whole = some final) (before : front <+: whole) :
    ∃ middle, advanceAll state front = some middle := by
  obtain ⟨later, rfl⟩ := before
  rw [advanceAll_append, Option.bind_eq_some_iff] at advanced
  obtain ⟨middle, first, -⟩ := advanced
  exact ⟨middle, first⟩

theorem readFrom_append_of_advanceAll {state final : State} {literal : List Char}
    (advanced : advanceAll state literal = some final) (text : List Char) :
    readFrom state (literal ++ text) = (readFrom final text).prepend literal := by
  fun_induction advanceAll state literal with
  | case1 state =>
    cases advanced
    simp
  | case2 state character rest next moved hypothesis =>
    rw [List.cons_append, readFrom_of_advance moved, hypothesis advanced]
    simp
  | case3 => cases advanced
  | case4 => cases advanced

/-- The last character of a literal closes it, or leaves a state in which it may end. -/
theorem whole_cases (state : State) (literal : List Char)
    (whole : (readFrom state literal).rest = []) :
    (∃ final, advanceAll state literal = some final ∧
        (readFrom state literal).kind = final.atEnd) ∨
      ∀ text, readFrom state (literal ++ text) =
        ⟨(readFrom state literal).kind, literal, text, false⟩ := by
  fun_induction readFrom state literal with
  | case1 state => exact .inl ⟨state, rfl, rfl⟩
  | case2 state character rest next moved hypothesis =>
    rcases hypothesis whole with ⟨final, advanced, kind⟩ | closed
    · refine .inl ⟨final, ?_, kind⟩
      rw [advanceAll, moved]
      exact advanced
    · refine .inr fun text => ?_
      rw [List.cons_append, readFrom_of_advance moved, closed]
      rfl
  | case3 state character rest kind moved =>
    cases whole
    exact .inr fun text => readFrom_of_close moved
  | case4 state character rest kind moved => cases whole

/-- A delimiter ends a token in every state in which the token may end. -/
theorem step_of_delimits {final : State} {character : Char}
    (delimited : delimits final.atEnd character) :
    step final character = .stop final.atEnd := by
  cases final with
  | blanks => simp_all [delimits, State.atEnd, step]
  | word => simp_all [delimits, State.atEnd, step]
  | number part =>
    cases part <;> simp_all [delimits, State.atEnd, Numeral.atEnd, step, Numeral.step]
  | _ => simp [delimits, State.atEnd] at delimited

theorem delimits_classify (kind : Kind) (literal : String) (character : Char) :
    delimits (classify kind literal) character = delimits kind character := by
  by_cases word : kind = .identifier
  · subst word
    rw [classify, if_pos rfl]
    split
    · rfl
    · split
      · rfl
      · split <;> rfl
  · rw [classify, if_neg word]

/-- A literal that is one token by itself is that token before every delimiter. -/
theorem readToken_append_of_delimits {literal : List Char} {character : Char}
    (some : literal ≠ []) (whole : (readToken literal).rest = [])
    (delimited : delimits (readToken literal).kind character) (rest : List Char) :
    readToken (literal ++ character :: rest) =
      ⟨(readToken literal).kind, literal, character :: rest, false⟩ := by
  obtain ⟨initial, later, rfl⟩ := List.exists_cons_of_ne_nil some
  cases opened : first initial with
  | opens state =>
    rw [readToken_of_opens opened] at whole delimited ⊢
    rw [List.cons_append, readToken_of_opens opened]
    have all : (readFrom state later).literal = later := by
      have parts := readFrom_literal_append_rest state later
      have wholeLater : (readFrom state later).rest = [] := whole
      rwa [wholeLater, List.append_nil] at parts
    rcases whole_cases state later whole with ⟨final, advanced, kind⟩ | closed
    · have stopped : step final character = .stop final.atEnd := by
        apply step_of_delimits
        rw [← kind]
        simpa only [Reading.classified, Reading.prepend, delimits_classify] using delimited
      rw [readFrom_append_of_advanceAll advanced, readFrom_of_stop stopped]
      simp [Reading.classified, Reading.prepend, kind, all]
    · rw [closed]
      simp [Reading.classified, Reading.prepend, all]
  | alone kind =>
    rw [readToken_of_alone opened] at whole ⊢
    obtain rfl : later = [] := whole
    exact readToken_of_alone opened

theorem tokens_cons (character : Char) (rest : List Char) :
    tokens (character :: rest) =
      let reading := readToken (character :: rest)
      if reading.kind = .blank then tokens reading.rest
      else ⟨reading.kind, String.ofList reading.literal⟩ :: tokens reading.rest := by
  rw [tokens]

theorem tokens_eq_of_readToken (text : List Char) :
    tokens text =
      if (readToken text).kind ∈ [.blank, .finish] then tokens (readToken text).rest
      else ⟨(readToken text).kind, String.ofList (readToken text).literal⟩ ::
        tokens (readToken text).rest := by
  cases text with
  | nil => rfl
  | cons character rest =>
    have going := (kind_readToken_cons character rest).1
    rw [tokens_cons]
    simp [going]

/-- A literal that is one token comes first in a text that goes on with a delimiter. -/
theorem tokens_append_of_delimits {literal : List Char} {character : Char}
    (some : literal ≠ []) (whole : (readToken literal).rest = [])
    (proper : (readToken literal).kind ≠ .blank)
    (delimited : delimits (readToken literal).kind character) (rest : List Char) :
    tokens (literal ++ character :: rest) =
      ⟨(readToken literal).kind, String.ofList literal⟩ :: tokens (character :: rest) := by
  have read := readToken_append_of_delimits some whole delimited rest
  obtain ⟨initial, later, rfl⟩ := List.exists_cons_of_ne_nil some
  rw [List.cons_append] at read ⊢
  rw [tokens_cons, read]
  simp [proper]

theorem tokens_of_alone {character : Char} {kind : Kind} (stands : first character = .alone kind)
    (proper : kind ≠ .blank) (rest : List Char) :
    tokens (character :: rest) = ⟨kind, String.ofList [character]⟩ :: tokens rest := by
  rw [tokens_cons, readToken_of_alone stands]
  simp [proper]

theorem first_of_isBlank {character : Char} (blank : isBlank character) :
    first character = .opens .blanks := by
  unfold first
  rw [if_pos blank]

/-- A run of blanks takes all blanks that there are. -/
theorem readFrom_blanks (text : List Char) :
    (readFrom .blanks text).kind = .blank ∧
      (readFrom .blanks text).rest = text.dropWhile isBlank := by
  induction text with
  | nil => exact ⟨rfl, rfl⟩
  | cons character rest hypothesis =>
    by_cases blank : isBlank character
    · have moved : step .blanks character = .advance .blanks := by rw [step, if_pos blank]
      rw [readFrom_of_advance moved, List.dropWhile_cons_of_pos blank]
      exact hypothesis
    · have moved : step .blanks character = .stop .blank := by rw [step, if_neg blank]
      rw [readFrom_of_stop moved, List.dropWhile_cons_of_neg blank]
      exact ⟨rfl, rfl⟩

theorem readToken_of_isBlank {character : Char} (blank : isBlank character) (rest : List Char) :
    (readToken (character :: rest)).kind = .blank ∧
      (readToken (character :: rest)).rest = rest.dropWhile isBlank := by
  obtain ⟨kind, left⟩ := readFrom_blanks rest
  rw [readToken_of_opens (first_of_isBlank blank)]
  simp [Reading.classified, Reading.prepend, classify, kind, left]

/-- A token of blanks takes the blanks that a text begins with. -/
theorem readToken_of_kind_blank {text : List Char} (blank : (readToken text).kind = .blank) :
    (readToken text).literal = text.takeWhile isBlank ∧
      (readToken text).rest = text.dropWhile isBlank := by
  have whole := readToken_literal_append_rest text
  have left : (readToken text).rest = text.dropWhile isBlank := by
    cases text with
    | nil => rfl
    | cons character rest =>
      have opening := (kind_readToken_cons character rest).2 blank
      rw [(readToken_of_isBlank opening rest).2, List.dropWhile_cons_of_pos opening]
  rw [left] at whole
  exact ⟨List.append_cancel_right (whole.trans List.takeWhile_append_dropWhile.symm), left⟩

/-- A text whose first token is no blank one begins with no blank. -/
theorem takeWhile_isBlank_of_kind_ne {text : List Char} (proper : (readToken text).kind ≠ .blank) :
    text.takeWhile isBlank = [] ∧ text.dropWhile isBlank = text := by
  cases text with
  | nil => exact ⟨rfl, rfl⟩
  | cons character rest =>
    have solid : ¬ isBlank character := fun blank => proper (readToken_of_isBlank blank rest).1
    exact ⟨List.takeWhile_cons_of_neg solid, List.dropWhile_cons_of_neg solid⟩

theorem tokens_dropWhile_isBlank (text : List Char) :
    tokens (text.dropWhile isBlank) = tokens text := by
  cases text with
  | nil => rfl
  | cons character rest =>
    by_cases blank : isBlank character
    · obtain ⟨kind, left⟩ := readToken_of_isBlank blank rest
      rw [List.dropWhile_cons_of_pos blank, tokens_cons]
      simp [kind, left]
    · rw [List.dropWhile_cons_of_neg blank]

/-- Blanks before a text do not matter to its tokens. -/
theorem tokens_of_isBlank {character : Char} (blank : isBlank character) (rest : List Char) :
    tokens (character :: rest) = tokens rest := by
  rw [← tokens_dropWhile_isBlank, List.dropWhile_cons_of_pos blank, tokens_dropWhile_isBlank]

/-- A token that a character stops would have ended there without the character too. -/
theorem atEnd_of_stop {state : State} {character : Char} {kind : Kind}
    (stopped : step state character = .stop kind) : state.atEnd = kind := by
  cases state with
  | blanks =>
    rw [step] at stopped
    split at stopped <;> cases stopped
    rfl
  | word =>
    rw [step] at stopped
    split at stopped <;> cases stopped
    rfl
  | number part =>
    cases part <;> simp only [step, Numeral.step] at stopped <;> grind [State.atEnd, Numeral.atEnd]
  | quoted part =>
    rw [step] at stopped
    split at stopped <;> cases stopped
  | blob depth =>
    unfold step at stopped
    dsimp only at stopped
    split at stopped <;> cases stopped
  | blobQuoted depth part =>
    rw [step] at stopped
    split at stopped <;> cases stopped
  | colon =>
    rw [step] at stopped
    split at stopped <;> cases stopped

/-- The literal of a token is the same token by itself. -/
theorem readFrom_literal (state : State) (text : List Char) :
    (readFrom state (readFrom state text).literal).kind = (readFrom state text).kind ∧
      (readFrom state (readFrom state text).literal).rest = [] := by
  fun_induction readFrom state text with
  | case1 state => exact ⟨rfl, rfl⟩
  | case2 state character rest next moved hypothesis =>
    rw [Reading.prepend, List.singleton_append, readFrom_of_advance moved]
    exact hypothesis
  | case3 state character rest kind moved =>
    rw [readFrom_of_close moved]
    exact ⟨rfl, rfl⟩
  | case4 state character rest kind moved => exact ⟨atEnd_of_stop moved, rfl⟩

theorem readToken_literal (text : List Char) :
    (readToken (readToken text).literal).kind = (readToken text).kind ∧
      (readToken (readToken text).literal).rest = [] := by
  cases text with
  | nil => exact ⟨rfl, rfl⟩
  | cons character rest =>
    cases opened : first character with
    | opens state =>
      obtain ⟨kind, whole⟩ := readFrom_literal state rest
      have parts := readFrom_literal_append_rest state (readFrom state rest).literal
      rw [whole, List.append_nil] at parts
      rw [readToken_of_opens opened]
      dsimp only [Reading.classified, Reading.prepend]
      rw [List.singleton_append, readToken_of_opens opened]
      simp [Reading.classified, Reading.prepend, kind, whole, parts]
    | alone kind =>
      rw [readToken_of_alone opened, readToken_of_alone opened]
      exact ⟨rfl, rfl⟩

/-- Every token of a text is the one token of its literal. -/
theorem readToken_of_mem_tokens {text : List Char} {token : Token} (present : token ∈ tokens text) :
    (readToken token.literal.toList).kind = token.kind ∧
      (readToken token.literal.toList).rest = [] := by
  fun_induction tokens text with
  | case1 => cases present
  | case2 character rest reading blank hypothesis => exact hypothesis present
  | case3 character rest reading proper hypothesis =>
    rcases List.mem_cons.1 present with rfl | later
    · rw [String.toList_ofList]
      exact readToken_literal (character :: rest)
    · exact hypothesis later

theorem kind_of_mem_tokens {text : List Char} {token : Token} (present : token ∈ tokens text) :
    token.kind ≠ .blank ∧ token.kind ≠ .finish := by
  fun_induction tokens text with
  | case1 => cases present
  | case2 character rest reading blank hypothesis => exact hypothesis present
  | case3 character rest reading proper hypothesis =>
    rcases List.mem_cons.1 present with rfl | later
    · exact ⟨proper, (kind_readToken_cons character rest).1⟩
    · exact hypothesis later

/-- A text is one token exactly if its first token is all of it. -/
theorem tokens_eq_singleton_iff {kind : Kind} {literal : String} :
    tokens literal.toList = [⟨kind, literal⟩] ↔
      literal ≠ "" ∧ kind ≠ .blank ∧ (readToken literal.toList).kind = kind ∧
        (readToken literal.toList).rest = [] := by
  constructor
  · intro single
    have present : (⟨kind, literal⟩ : Token) ∈ tokens literal.toList := by simp [single]
    refine ⟨?_, (kind_of_mem_tokens present).1, readToken_of_mem_tokens present⟩
    rintro rfl
    simp [tokens] at single
  · rintro ⟨some, proper, rfl, whole⟩
    have parts := readToken_literal_append_rest literal.toList
    rw [whole, List.append_nil] at parts
    have nonempty : literal.toList ≠ [] := fun none => some (String.toList_eq_nil_iff.1 none)
    obtain ⟨character, rest, spelled⟩ := List.exists_cons_of_ne_nil nonempty
    rw [spelled, tokens_cons, ← spelled]
    dsimp only
    rw [if_neg proper, whole, parts, String.ofList_toList, tokens]

/-- Every token of a text is the only token of its literal. -/
theorem tokens_literal {text : List Char} {token : Token} (present : token ∈ tokens text) :
    tokens token.literal.toList = [token] := by
  obtain ⟨proper, going⟩ := kind_of_mem_tokens present
  obtain ⟨kind, whole⟩ := readToken_of_mem_tokens present
  apply tokens_eq_singleton_iff.2
  refine ⟨?_, proper, kind, whole⟩
  intro empty
  rw [empty] at kind
  exact going kind.symm

/-- A token that is alone in its literal comes first before a delimiter, or not at all. -/
theorem tokens_literal_append {token : Token} (alone : tokens token.literal.toList = [token])
    {rest : List Char} (delimited : ∀ character ∈ rest.head?, delimits token.kind character) :
    tokens (token.literal.toList ++ rest) = token :: tokens rest := by
  obtain ⟨nonempty, proper, kind, whole⟩ := tokens_eq_singleton_iff.1 alone
  cases rest with
  | nil => rw [List.append_nil, alone, tokens.eq_1]
  | cons character rest =>
    have some : token.literal.toList ≠ [] := fun none => nonempty (String.toList_eq_nil_iff.1 none)
    have first := delimited character rfl
    rw [← kind] at first proper
    rw [tokens_append_of_delimits some whole proper first, kind, String.ofList_toList]

end Fluent.Lexer
