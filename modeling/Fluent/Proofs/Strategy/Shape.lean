/-
This file proves that a streaming answer is one JSON object with the members of its bindings.
-/

import Mathlib
import Fluent.Proofs.Json.Quoting
import Fluent.Proofs.Json.Reading
import Fluent.Proofs.Parser.Targets
import Fluent.Proofs.Strategy.Course
import Fluent.Proofs.Strategy.Trace

namespace Fluent

open Json (Item Phrase Spaces Tree textOfItems)

namespace Answer

/-- The member of an object that a member of an answer is read as. -/
structure Describes (member : String × List UInt8) (entry : List Item × Tree) : Prop where
  spelled : Item.AllSpelled entry.1 member.1.toList
  key : textOfItems entry.1 = some member.1
  value : entry.2.Encoded member.2

theorem Describes.spelled_member {member : String × List UInt8} {entry : List Item × Tree}
    (described : Describes member entry) {before : List Char} (leading : Spaces before) :
    ∃ text, Phrase.Spelled (.member entry.1 entry.2) text ∧
      Utf8.encode text = Utf8.encode before ++ Answer.member member.1 member.2 := by
  obtain ⟨text, spelled, encoded⟩ := described.value
  refine ⟨_, .member leading described.spelled Spaces.nil spelled, ?_⟩
  simp [Answer.member, Answer.key, encoded]

/-- The members of an answer spell the members of an object. -/
theorem spelled_body {member : String × List UInt8} {entry : List Item × Tree}
    {members : List (String × List UInt8)} {entries : List (List Item × Tree)}
    (described : Describes member entry) (others : List.Forall₂ Describes members entries)
    {before : List Char} (leading : Spaces before) :
    ∃ text, Phrase.Spelled (.members (entry :: entries)) text ∧
      Utf8.encode text =
        Utf8.encode before ++ (Answer.member member.1 member.2 ++ body false members) := by
  induction others generalizing member entry before with
  | nil =>
    obtain ⟨text, spelled, encoded⟩ := described.spelled_member leading
    refine ⟨text, .lastMember spelled, ?_⟩
    rw [encoded, body, List.append_nil]
  | cons next others hypothesis =>
    obtain ⟨text, spelled, encoded⟩ := described.spelled_member leading
    have newline : Spaces ['\n'] := Spaces.singleton (by decide)
    obtain ⟨rest, later, encodedLater⟩ := hypothesis next newline
    refine ⟨text ++ ',' :: rest, .moreMembers spelled later, ?_⟩
    rw [Utf8.encode_append, encoded, Utf8.encode_cons, encodedLater, body]
    simp [separator]

theorem encode_encoded {members : List (String × List UInt8)}
    {entries : List (List Item × Tree)} (described : List.Forall₂ Describes members entries) :
    (Tree.object entries).Encoded (encode members) := by
  rw [encode_eq_body]
  cases described with
  | nil =>
    have spelled : Phrase.Spelled (.value (.object [])) ('\x7b' :: ([] ++ ['\x7d'])) :=
      .emptyObject Spaces.nil
    exact ⟨_, .padded Spaces.nil spelled Spaces.nil, by simp [body, openBrace, closeBrace]⟩
  | cons first others =>
    obtain ⟨text, spelled, encoded⟩ := spelled_body first others Spaces.nil
    refine ⟨_, .padded Spaces.nil (.object spelled) Spaces.nil, ?_⟩
    simp only [List.nil_append, List.append_nil, Utf8.encode_cons, Utf8.encode_append, encoded]
    simp [body, openBrace, closeBrace]

/-- A binding that has failed is written as an object with the text of the error. -/
theorem failure_encoded (error : Error) :
    ∃ label text, textOfItems label = some "error" ∧ textOfItems text = some error.message ∧
      (Tree.object [(label, .text text)]).Encoded (failure error) := by
  have encoded : (Tree.object [("error".toList.map .ofCharacter,
      .text (error.message.toList.map .ofCharacter))]).Encoded (failure error) := by
    rw [failure]
    exact ⟨_, Json.spelled_labelled "error" error.message, rfl⟩
  exact ⟨"error".toList.map .ofCharacter, error.message.toList.map .ofCharacter,
    Json.textOfItems_ofCharacter "error", Json.textOfItems_ofCharacter error.message, encoded⟩

end Answer

variable {World Obj : Type}

theorem Lexer.allSpelled_of_isName {name : String} (named : Lexer.isName name) :
    Item.AllSpelled (name.toList.map .plain) name.toList := by
  apply Json.Item.allSpelled_plain
  intro character present
  have part := Lexer.isWordPart_of_isName named character present
  refine ⟨?_, ?_, ?_⟩
  · have printable := Lexer.le_toNat_of_isWordPart part
    omega
  · rintro rfl
    exact absurd part (by decide)
  · rintro rfl
    exact absurd part (by decide)

/-- A name is a key that stands for itself. -/
theorem Answer.describes_of_isName {target : String} {bytes : List UInt8} {tree : Tree}
    (named : Lexer.isName target) (encoded : tree.Encoded bytes) :
    Answer.Describes (target, bytes) (target.toList.map .plain, tree) :=
  ⟨Lexer.allSpelled_of_isName named, Json.textOfItems_plain target, encoded⟩

theorem Answer.exists_entries {members : List (String × List UInt8)}
    (described : ∀ member ∈ members, ∃ entry, Answer.Describes member entry) :
    ∃ entries, List.Forall₂ Answer.Describes members entries := by
  induction members with
  | nil => exact ⟨[], .nil⟩
  | cons member members hypothesis =>
    obtain ⟨⟨entry, first⟩, later⟩ := List.forall_mem_cons.1 described
    obtain ⟨entries, others⟩ := hypothesis later
    exact ⟨entry :: entries, .cons first others⟩

/-- The member that stands for a failure, if it is one behind a `:=`. -/
inductive Answer.Fragment : Option String → Except Error Unit → List (List Item × Tree) → Prop
  | none {result : Except Error Unit} : Fragment none result []
  | failure {target : String} {error : Error} {key label text : List Item}
      (named : textOfItems key = some target) (labelled : textOfItems label = some "error")
      (explained : textOfItems text = some error.message) :
      Fragment (some target) (.error error) [(key, .object [(label, .text text)])]

/-- What remains of a binding that has failed is the fragment that explains why. -/
theorem Performance.exists_fragment (performed : Performance World Obj)
    (named : ∀ target ∈ performed.failure.bind Failure.target, Lexer.isName target) :
    ∃ fragment, List.Forall₂ Answer.Describes performed.remains fragment ∧
      Answer.Fragment (performed.failure.bind Failure.target) performed.result fragment := by
  obtain ⟨members, failure, session⟩ := performed
  rcases failure with _ | ⟨_ | target, error⟩
  · exact ⟨[], .nil, .none⟩
  · exact ⟨[], .nil, .none⟩
  · obtain ⟨label, text, labelled, explained, encoded⟩ := Answer.failure_encoded error
    have described := Answer.describes_of_isName (named target rfl) encoded
    exact ⟨_, .cons described .nil, .failure (Json.textOfItems_plain target) labelled explained⟩

/-- A streaming evaluation adds one JSON object with the members of its course and its fragment. -/
theorem Streaming.run_writes_object {τ : Type} [Sink τ] {contents : τ → List UInt8} {sink : τ}
    (takes : Sink.TakesAll contents sink) (host : Host World Obj)
    (marshals : host.MarshalsJson) (input : Input) (session : Session World Obj) :
    let ran := Strategy.streaming.run host input.parser session sink
    let made := Strategy.streaming.hostCalls host input.parser session sink
    ∃ outline members failing entries fragment written,
      Outline.Reads outline (Lexer.tokens input.characters) ∧
        outline.Course session.symbols.names made members failing ran.1 ∧
        (∀ call ∈ made, call.Answered host) ∧
        List.Forall₂ Answer.Describes members entries ∧
        Answer.Fragment failing ran.1 fragment ∧
        contents ran.2.2 = contents sink ++ written ∧
        ∀ tree : Tree, tree.Encoded written ↔ tree = .object (entries ++ fragment) := by
  have recorded := Streaming.run_recorded takes host.traced input.parser session.untraced
  have reads := input.parser.outline_reads
  rw [input.tokens_ahead] at reads
  obtain ⟨made, adds, course⟩ := Outline.perform_course host input.parser.outline.definitions
    input.parser.outline.remainder (session.untraced.record [.streaming])
  simp only [Strategy.streaming.run_eq_traced host input.parser session sink]
  simp only [Strategy.hostCalls, Strategy.run]
  generalize Streaming.run host.traced input.parser session.untraced sink = ran at recorded
  generalize Outline.perform host.traced _ _ = performed at recorded adds course
  have named : ∀ target ∈ performed.members.map Prod.fst ++
      (performed.failure.bind Failure.target).toList, Lexer.isName target := fun target present =>
    input.named.isName_of_mem_targets target (course.targets.subset present)
  have described : ∀ member ∈ performed.members, ∃ entry, Answer.Describes member entry := by
    intro member present
    obtain ⟨tree, encoded⟩ := course.encoded marshals adds.answered member present
    have key := named member.1 (List.mem_append_left _ (List.mem_map_of_mem present))
    exact ⟨_, Answer.describes_of_isName key encoded⟩
  obtain ⟨entries, completed⟩ := Answer.exists_entries described
  obtain ⟨fragment, remains, explained⟩ := performed.exists_fragment fun target failing =>
    named target (List.mem_append_right _ (Option.mem_toList.2 failing))
  have encoded := Answer.encode_encoded (List.rel_append completed remains)
  have only : ran.2.1.world.2 = made := (congrArg (·.world.2) recorded.session).trans adds.calls
  rw [recorded.result, only]
  refine ⟨_, performed.members, performed.failure.bind Failure.target, entries, fragment,
    Answer.encode (performed.members ++ performed.remains), reads, course, adds.answered, completed,
    explained, recorded.output, fun tree => ⟨fun again => again.unique encoded, ?_⟩⟩
  rintro rfl
  exact encoded

theorem Streaming.run_writes_object_cut :
    let session := Session.withReceiver "b" ""
    let input := Input.bytes (.ofBytes 8 (by decide)
      (Utf8.encode "a := b.c(); d := b.e().f(); g := b.".toList) (.failing (.device "gone")))
    let ran := Strategy.streaming.run Host.texts input.parser session Output.unlimited
    let plain (text : String) : List Item := text.toList.map .plain
    let tree : Tree := .object [(plain "a", .text (plain "c")), (plain "d", .text (plain "cef")),
      (plain "g", .object [(plain "error", .text (plain "gone"))])]
    Sink.TakesAll Output.written Output.unlimited ∧ Host.texts.MarshalsJson ∧
      Strategy.streaming.hostCalls Host.texts input.parser session Output.unlimited =
        [.dispatch ⟨"c", []⟩ "" () (.ok .this),
          .marshal "c" () (.ok (Utf8.encode ['"', 'c', '"'])),
          .dispatch ⟨"e", []⟩ "c" () (.ok .this), .dispatch ⟨"f", []⟩ "ce" () (.ok .this),
          .marshal "cef" () (.ok (Utf8.encode ['"', 'c', 'e', 'f', '"']))] ∧
      tree.Encoded ran.2.2.written := by
  intro session input ran plain tree
  obtain ⟨outline, members, failing, entries, fragment, written, -, -, -, -, -, output, object⟩ :=
    Streaming.run_writes_object Output.takesAll_unlimited Host.texts Host.marshalsJson_texts input
      session
  refine ⟨Output.takesAll_unlimited, Host.marshalsJson_texts, by decide +kernel, ?_⟩
  have encoded : (Tree.object (entries ++ fragment)).Encoded ran.2.2.written :=
    output ▸ (object _).2 rfl
  have shown : ran.2.2.written = Utf8.encode
      "\x7b\"a\":\"c\",\n\"d\":\"cef\",\n\"g\":\x7b\"error\":\"gone\"\x7d\x7d".toList := by
    decide +kernel
  rw [shown] at encoded ⊢
  exact encoded.of_read? (by cbv)

end Fluent
