/-
This file holds what a source delivers of a text of which only the first bytes arrive.
-/

import Fluent.Proofs.Source.Bytes
import Fluent.Proofs.Source.Extension

namespace Fluent

/-- Whether a lexeme ends a call or a definition. -/
def Lexeme.isClosing (lexeme : Lexeme) : Bool :=
  lexeme.kind.isClosing

/-- The place behind a lexeme, in bytes. -/
def Lexeme.byteEnd (lexeme : Lexeme) : Nat :=
  lexeme.byteOffset + Utf8.size lexeme.literal.toList

/-- A cut has left all of a lexeme, or the lexeme goes on with what is missing. -/
structure Lexeme.FrontOf (missing : List Char) (front whole : Lexeme) : Prop where
  byteOffset : front.byteOffset = whole.byteOffset
  charOffset : front.charOffset = whole.charOffset
  literal : front.literal.toList <+: whole.literal.toList
  rest : front.token = whole.token ∨
    ∃ character ∈ missing.head?, front.byteEnd + character.utf8Size ≤ whole.byteEnd

namespace View

variable {view : View}

theorem byteStart_startToken_afterToken (view : View) :
    view.afterToken.startToken.byteStart =
      view.startToken.byteStart + Utf8.size (Lexer.readToken view.ahead).literal := rfl

theorem byteEnd_lexeme_afterToken (view : View) (kind : Kind) :
    (view.afterToken.lexeme kind).byteEnd = view.afterToken.startToken.byteStart := by
  rw [Lexeme.byteEnd, lexeme, String.toList_ofList]
  rfl

/-- A token takes at least its first character, and what it leaves goes on where it ends. -/
theorem byteStart_afterToken_bounds {character : Char} {rest : List Char}
    (ahead : view.ahead = character :: rest) :
    view.startToken.byteStart + character.utf8Size ≤ view.afterToken.startToken.byteStart ∧
      view.afterToken.startToken.byteStart + Utf8.size view.afterToken.ahead =
        view.startToken.byteStart + Utf8.size view.ahead := by
  obtain ⟨later, literal⟩ := Lexer.exists_literal_readToken character rest
  rw [← ahead] at literal
  refine ⟨?_, view.startToken_afterToken.1⟩
  rw [byteStart_startToken_afterToken, literal, Utf8.size_cons]
  omega

/-- A lexeme of what is ahead is the next token or comes behind it. -/
theorem mem_transcript_cons {lexeme : Lexeme} {character : Char} {rest : List Char}
    (ahead : view.ahead = character :: rest) (present : lexeme ∈ view.transcript.lexemes) :
    lexeme = view.afterToken.lexeme (Lexer.readToken view.ahead).kind ∨
      lexeme ∈ view.afterToken.transcript.lexemes := by
  by_cases blank : (Lexer.readToken view.ahead).kind = .blank
  · rw [transcript_of_blank blank] at present
    exact .inr present
  · rw [transcript_of_proper ahead blank] at present
    exact List.mem_cons.1 present

/-- A lexeme ends behind the first character ahead, and not behind the last. -/
def Covers (view : View) (lexeme : Lexeme) : Prop :=
  ∃ character rest, view.ahead = character :: rest ∧
    view.startToken.byteStart + character.utf8Size ≤ lexeme.byteEnd ∧
    lexeme.byteEnd ≤ view.startToken.byteStart + Utf8.size view.ahead

theorem Covers.of_afterToken {lexeme : Lexeme} {character : Char} {rest : List Char}
    (ahead : view.ahead = character :: rest) (later : view.afterToken.Covers lexeme) :
    view.Covers lexeme := by
  obtain ⟨next, further, -, lower, upper⟩ := later
  obtain ⟨first, whole⟩ := byteStart_afterToken_bounds ahead
  exact ⟨character, rest, ahead, by omega, by omega⟩

theorem covers_of_mem_transcript {lexeme : Lexeme}
    (present : lexeme ∈ view.transcript.lexemes) : view.Covers lexeme := by
  induction view using View.transcript.induct with
  | case1 view ended =>
    rw [transcript_of_nil ended] at present
    cases present
  | case2 view character rest ahead kind blank hypothesis =>
    rw [transcript_of_blank blank] at present
    exact .of_afterToken ahead (hypothesis present)
  | case3 view character rest ahead kind proper hypothesis =>
    rw [transcript_of_proper ahead proper] at present
    rcases List.mem_cons.1 present with rfl | later
    · obtain ⟨first, whole⟩ := byteStart_afterToken_bounds ahead
      rw [← byteEnd_lexeme_afterToken view (Lexer.readToken view.ahead).kind] at first whole
      exact ⟨character, rest, ahead, first, by omega⟩
    · exact .of_afterToken ahead (hypothesis later)

/-- The fault that an input ends with, once it is met. -/
theorem fault_transcript {fault : Fault} (broken : view.tail.reach = .met fault) :
    view.transcript.fault = some fault := by
  have behind (view : View) (broken : view.tail.reach = .met fault) :
      view.afterToken.tail.reach = .met fault := by
    show (if _ then view.tail.reach else view.tail).reach = _
    split
    · rw [broken]
      rfl
    · exact broken
  induction view using View.transcript.induct with
  | case1 view ended =>
    rw [transcript_of_nil ended]
    show view.afterToken.takeFault.1 = _
    have met : view.afterToken.tail = .met fault := by
      show (if (Lexer.readToken view.ahead).ended then view.tail.reach else view.tail) = _
      rw [ended, broken]
      rfl
    rw [takeFault, met]
  | case2 view character rest ahead kind blank hypothesis =>
    rw [transcript_of_blank blank]
    exact hypothesis (behind view broken)
  | case3 view character rest ahead kind proper hypothesis =>
    rw [transcript_of_proper ahead proper]
    exact hypothesis (behind view broken)

/-- A view whose input is cut short, beside one in which more is ahead. -/
structure Cut (fault : Fault) (more : List Char) (cut whole : View) : Prop where
  token : cut.token = whole.token
  byteStart : cut.byteStart = whole.byteStart
  charStart : cut.charStart = whole.charStart
  ahead : whole.ahead = cut.ahead ++ more
  broken : cut.tail = .broken fault
  sound : whole.tail = .sound

namespace Cut

variable {fault : Fault} {more : List Char} {cut whole : View}

theorem toExtends (views : Cut fault more cut whole) : Extends more cut whole := by
  obtain ⟨token, byteStart, charStart, ahead, broken, sound⟩ := views
  refine ⟨token, byteStart, charStart, ahead, ?_, ?_⟩
  · rw [broken]
    exact nofun
  · rw [sound]
    exact nofun

/-- Both have the same lexemes until the first is at the cut, or in a token that meets it. -/
theorem exists_seam (views : Cut fault more cut whole) :
    ∃ common near far, Cut fault more near far ∧
      near.startToken.byteStart + Utf8.size near.ahead =
        cut.startToken.byteStart + Utf8.size cut.ahead ∧
      cut.transcript = { near.transcript with lexemes := common ++ near.transcript.lexemes } ∧
      whole.transcript = { far.transcript with lexemes := common ++ far.transcript.lexemes } ∧
      (near.ahead = [] ∨ (Lexer.readToken near.ahead).ended = true) := by
  obtain ⟨common, near, far, seam, tail, tailWhole, place, before, beforeWhole, ended⟩ :=
    views.toExtends.exists_seam
  obtain ⟨token, byteStart, charStart, ahead, -, -⟩ := seam
  exact ⟨common, near, far, ⟨token, byteStart, charStart, ahead, tail.trans views.broken,
    tailWhole.trans views.sound⟩, place.1, before, beforeWhole, ended⟩

/-- A token that meets the cut is the front of one of the whole text. -/
theorem frontOf_of_ended (views : Cut fault more cut whole) {character : Char} {rest : List Char}
    (ahead : cut.ahead = character :: rest)
    (ended : (Lexer.readToken cut.ahead).ended = true) :
    (Lexer.readToken cut.ahead).rest = [] ∧
      Lexeme.FrontOf more (cut.afterToken.lexeme (Lexer.readToken cut.ahead).kind)
        (whole.afterToken.lexeme (Lexer.readToken whole.ahead).kind) := by
  have all := Lexer.readToken_literal_append_rest cut.ahead
  rw [ahead] at ended
  obtain ⟨nothing, -, -, further, literal, left⟩ := Lexer.readToken_of_ended ended more
  rw [← ahead] at nothing literal left
  rw [← views.ahead] at literal left
  rw [nothing, List.append_nil] at all
  have literalCut :
      (cut.afterToken.lexeme (Lexer.readToken cut.ahead).kind).literal.toList = cut.ahead := by
    rw [lexeme, String.toList_ofList]
    exact all
  have literalWhole :
      (whole.afterToken.lexeme (Lexer.readToken whole.ahead).kind).literal.toList =
        cut.ahead ++ further := by
    rw [lexeme, String.toList_ofList]
    exact literal
  have place := views.toExtends.byteStart_startToken
  refine ⟨nothing, place, views.toExtends.charStart_startToken, ?_, ?_⟩
  · rw [literalCut, literalWhole]
    exact List.prefix_append _ _
  · cases further with
    | nil =>
      have alone := (Lexer.readToken_literal whole.ahead).1
      rw [literal, List.append_nil] at alone
      rw [List.append_nil, ← literalCut] at literalWhole
      left
      rw [Lexeme.token, Lexeme.token, ← String.toList_inj.1 literalWhole]
      exact congrArg (Token.mk · _) alone
    | cons first further =>
      right
      refine ⟨first, by rw [← left]; rfl, ?_⟩
      rw [Lexeme.byteEnd, Lexeme.byteEnd, literalCut, literalWhole, Utf8.size_append,
        Utf8.size_cons]
      have start : (cut.afterToken.lexeme (Lexer.readToken cut.ahead).kind).byteOffset =
        (whole.afterToken.lexeme (Lexer.readToken whole.ahead).kind).byteOffset := place
      omega

/-- A token that meets the cut ends there, and is marked as cut. -/
theorem lexeme_of_ended (views : Cut fault more cut whole)
    (nothing : (Lexer.readToken cut.ahead).rest = [])
    (ended : (Lexer.readToken cut.ahead).ended = true) :
    let front := cut.afterToken.lexeme (Lexer.readToken cut.ahead).kind
    front.byteEnd = cut.startToken.byteStart + Utf8.size cut.ahead ∧ front.cut = true := by
  have place := cut.startToken_afterToken.1
  rw [show cut.afterToken.ahead = [] from nothing] at place
  have tail : cut.afterToken.tail = .met fault := by
    show (if (Lexer.readToken cut.ahead).ended then cut.tail.reach else _) = _
    rw [if_pos ended, views.broken]
    rfl
  constructor
  · rw [byteEnd_lexeme_afterToken]
    exact place
  · show cut.afterToken.takeFault.1.isSome = true
    rw [takeFault, tail]
    rfl

/-- Behind the tokens that end before the cut comes nothing, or the front of one. -/
theorem lexemes_of_ended (views : Cut fault more cut whole)
    (ended : cut.ahead = [] ∨ (Lexer.readToken cut.ahead).ended = true) :
    cut.transcript.lexemes = [] ∨
      ∃ front lexeme rest, cut.transcript.lexemes = [front] ∧
        whole.transcript.lexemes = lexeme :: rest ∧ Lexeme.FrontOf more front lexeme ∧
        front.byteEnd = cut.startToken.byteStart + Utf8.size cut.ahead ∧ front.cut = true ∧
        front.kind ∈
          [.illegal, .identifier, .trueWord, .falseWord, .nullWord, .integer, .float] := by
  cases ahead : cut.ahead with
  | nil =>
    rw [transcript_of_nil ahead]
    exact .inl rfl
  | cons character rest =>
    have met := ended.resolve_left (by rw [ahead]; exact List.cons_ne_nil _ _)
    obtain ⟨nothing, front⟩ := views.frontOf_of_ended ahead met
    obtain ⟨byteEnd, marked⟩ := views.lexeme_of_ended nothing met
    have behind : cut.afterToken.transcript.lexemes = [] := by
      rw [transcript_of_nil (show cut.afterToken.ahead = [] from nothing)]
    by_cases blank : (Lexer.readToken cut.ahead).kind = .blank
    · rw [transcript_of_blank blank]
      exact .inl behind
    · have aheadWhole : whole.ahead = character :: (rest ++ more) := by
        rw [views.ahead, ahead, List.cons_append]
      have proper : (Lexer.readToken whole.ahead).kind ≠ .blank := by
        intro blankWhole
        rw [aheadWhole] at blankWhole
        rw [ahead] at blank
        have opening := (Lexer.kind_readToken_cons character _).2 blankWhole
        exact blank (Lexer.readToken_of_isBlank opening rest).1
      refine .inr ⟨cut.afterToken.lexeme (Lexer.readToken cut.ahead).kind,
        whole.afterToken.lexeme (Lexer.readToken whole.ahead).kind,
        whole.afterToken.transcript.lexemes, ?_, ?_, front, ?_, ?_, ?_⟩
      · rw [transcript_of_proper ahead blank, behind]
      · rw [transcript_of_proper aheadWhole proper]
      · rw [← ahead]
        exact byteEnd
      · exact marked
      · rw [ahead] at met blank
        have among := Lexer.kind_of_ended met
        show (Lexer.readToken cut.ahead).kind ∈ _
        rw [ahead]
        exact (List.mem_cons.1 among).resolve_left blank

/-- A closing lexeme that the cut has kept away ends behind the first character that is missing. -/
def KeptAway (more : List Char) (cut : View) (lexeme : Lexeme) : Prop :=
  ∃ character rest, more = character :: rest ∧
    cut.startToken.byteStart + Utf8.size cut.ahead + character.utf8Size ≤ lexeme.byteEnd

/-- A token that reaches the cut leaves nothing behind it, and is no closing one. -/
theorem isClosing_of_ended (views : Cut fault more cut whole) {character : Char}
    {rest : List Char} (ahead : cut.ahead = character :: rest)
    (ended : (Lexer.readToken cut.ahead).ended = true) :
    (∀ lexeme ∈ cut.transcript.lexemes, lexeme.isClosing = false) ∧
      ∀ lexeme ∈ whole.transcript.lexemes, lexeme.isClosing → KeptAway more cut lexeme := by
  rw [ahead] at ended
  obtain ⟨nothing, plain, plainWhole, further, literal, left⟩ :=
    Lexer.readToken_of_ended ended more
  rw [← ahead] at nothing plain
  rw [← ahead, ← views.ahead] at plainWhole literal left
  have aheadWhole : whole.ahead = character :: (rest ++ more) := by rw [views.ahead, ahead]; rfl
  have behind : ∀ lexeme ∈ whole.afterToken.transcript.lexemes, KeptAway more cut lexeme := by
    intro lexeme present
    obtain ⟨next, later, aheadNext, lower, -⟩ := covers_of_mem_transcript present
    have place := byteStart_startToken_afterToken whole
    rw [literal, Utf8.size_append, ← views.toExtends.byteStart_startToken] at place
    change (Lexer.readToken whole.ahead).rest = next :: later at aheadNext
    rw [aheadNext] at left
    cases further with
    | nil =>
      refine ⟨next, later, left.symm, ?_⟩
      rw [Utf8.size_nil] at place
      omega
    | cons first further =>
      refine ⟨first, further ++ next :: later, left.symm, ?_⟩
      rw [Utf8.size_cons] at place
      omega
  constructor
  · intro lexeme present
    rcases mem_transcript_cons ahead present with rfl | later
    · exact plain
    · have ended : cut.afterToken.ahead = [] := nothing
      rw [transcript_of_nil ended] at later
      cases later
  · intro lexeme present closing
    rcases mem_transcript_cons aheadWhole present with rfl | later
    · exact absurd closing (by rw [Lexeme.isClosing, lexeme, plainWhole]; exact Bool.false_ne_true)
    · exact behind lexeme later

/-- The lexemes before the cut are the same. Behind them comes no closing one before the cut. -/
theorem exists_lexemes (views : Cut fault more cut whole) :
    ∃ common extra rest, cut.transcript.lexemes = common ++ extra ∧
      whole.transcript.lexemes = common ++ rest ∧
      (∀ lexeme ∈ extra, lexeme.isClosing = false) ∧
      ∀ lexeme ∈ rest, lexeme.isClosing → KeptAway more cut lexeme := by
  obtain ⟨common, near, far, seam, place, before, beforeWhole, ended⟩ := views.exists_seam
  have behind : (∀ lexeme ∈ near.transcript.lexemes, lexeme.isClosing = false) ∧
      ∀ lexeme ∈ far.transcript.lexemes, lexeme.isClosing → KeptAway more near lexeme := by
    cases ahead : near.ahead with
    | nil =>
      rw [transcript_of_nil ahead]
      refine ⟨nofun, fun lexeme present _ => ?_⟩
      obtain ⟨character, rest, aheadFar, lower, -⟩ := covers_of_mem_transcript present
      rw [seam.ahead, ahead] at aheadFar
      rw [← seam.toExtends.byteStart_startToken] at lower
      exact ⟨character, rest, aheadFar, by rw [ahead]; exact lower⟩
    | cons character rest =>
      have met := ended.resolve_left (by rw [ahead]; exact List.cons_ne_nil _ _)
      exact seam.isClosing_of_ended ahead met
  refine ⟨common, near.transcript.lexemes, far.transcript.lexemes,
    congrArg Transcript.lexemes before, congrArg Transcript.lexemes beforeWhole, behind.1,
    fun lexeme present closing => ?_⟩
  obtain ⟨character, rest, first, lower⟩ := behind.2 lexeme present closing
  exact ⟨character, rest, first, place ▸ lower⟩

end Cut

end View

/-- A text whose reader fails is read as the view of the characters that have arrived. -/
theorem Parser.exists_cut (text : String) (capacity : Nat) (positive : 0 < capacity)
    (count : Nat) (fault : Fault) :
    ∃ arrived missing cut, View.Cut fault missing cut (View.ofText text.toList) ∧
      Parser.ofSource (ByteSource.ofReader (Reader.ofBytes capacity positive
        ((Utf8.encode text.toList).take count) (.failing fault))) =
          Parser.ofTranscript cut.transcript ∧
      Parser.ofString text = Parser.ofTranscript (View.ofText text.toList).transcript ∧
      cut.startToken.byteStart + Utf8.size cut.ahead = Utf8.size arrived ∧
      Utf8.size arrived ≤ count ∧
      ∀ character ∈ missing.head?, count < Utf8.size arrived + character.utf8Size := by
  obtain ⟨arrived, missing, part, split, taken, enough, short, unfinished⟩ :=
    Utf8.exists_arrived count text.toList
  let reader := Reader.ofBytes capacity positive ((Utf8.encode text.toList).take count)
    (.failing fault)
  have shown := ByteSource.ofReader_shows reader
  have bytes : reader.bytes = Utf8.encode arrived ++ part := taken
  have delivered := ByteSource.upcoming_of_part bytes rfl unfinished 0
  rw [View.ofReader, delivered] at shown
  refine ⟨arrived, missing, ⟨[], arrived, 0, 0, .broken fault⟩, ⟨rfl, rfl, rfl, split, rfl, rfl⟩,
    ?_, ?_, Nat.zero_add _, enough, short⟩
  · exact congrArg Parser.ofTranscript (Transcript.ofSource_eq_transcript shown)
  · exact congrArg Parser.ofTranscript
      (Transcript.ofSource_eq_transcript (TextSource.ofList_shows text.toList))

/-- Ahead are the lexemes that end before the cut, and no closing one behind them. -/
theorem Parser.exists_lexemes_of_cut (text : String) (capacity : Nat) (positive : 0 < capacity)
    (count : Nat) (fault : Fault) :
    let whole := Parser.ofString text
    let cut := Parser.ofSource (ByteSource.ofReader (Reader.ofBytes capacity positive
      ((Utf8.encode text.toList).take count) (.failing fault)))
    cut.fault = some fault ∧ ∃ common extra rest,
      cut.ahead = common ++ extra ∧ whole.ahead = common ++ rest ∧
      (∀ lexeme ∈ extra, lexeme.isClosing = false) ∧
      (∀ lexeme ∈ common, lexeme.byteEnd ≤ count) ∧
      ∀ lexeme ∈ rest, lexeme.isClosing → count < lexeme.byteEnd := by
  obtain ⟨arrived, missing, cut, views, same, sameWhole, place, enough, short⟩ :=
    exists_cut text capacity positive count fault
  obtain ⟨common, extra, rest, splitCut, splitWhole, plain, kept⟩ := views.exists_lexemes
  rw [same, sameWhole]
  refine ⟨View.fault_transcript (by rw [views.broken]; rfl), common, extra, rest, splitCut,
    splitWhole, plain, fun lexeme present => ?_, fun lexeme present closing => ?_⟩
  · have member := List.mem_append_left extra present
    rw [← splitCut] at member
    obtain ⟨-, -, -, -, upper⟩ := View.covers_of_mem_transcript member
    omega
  · obtain ⟨character, later, first, lower⟩ := kept lexeme present closing
    have fewer := short character (by rw [first]; rfl)
    omega

end Fluent
