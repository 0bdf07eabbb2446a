/-
This file proves when the answer to a program is a JSON object with its members.
-/

import Fluent.Proofs.Json.Keys
import Fluent.Proofs.Strategy.Shape

namespace Fluent

open Json (Item Phrase Plain Spaces Tree textOfItems decodeItems readItems readMembers
  readValue skipSpaces)

namespace Json

/-- An object that is read and does not close at once has members. -/
theorem exists_of_readValue_object {fuel : Nat} {text rest : List Char} {tree : Tree}
    (read : readValue (fuel + 1) ('\x7b' :: '"' :: text) = some (tree, rest)) :
    ∃ entries, readMembers fuel ('"' :: text) = some (entries, rest) ∧ tree = .object entries := by
  have opened := skipSpaces_of_not_isSpace (show isSpace '"' = false by decide) text
  rw [readValue, skipSpaces_of_not_isSpace (by decide)] at read
  rcases found : readMembers fuel ('"' :: text) with _ | ⟨entries, left⟩
  · simp [opened, found] at read
  · obtain ⟨rfl, rfl⟩ : Tree.object entries = tree ∧ left = rest := by
      simpa [opened, found] using read
    exact ⟨entries, rfl, rfl⟩

/-- Members that are read are a key, a value and what comes behind them. -/
theorem exists_of_readMembers {fuel : Nat} {before rest left : List Char}
    {entries : List (List Item × Tree)} (leading : Spaces before)
    (read : readMembers (fuel + 1) (before ++ '"' :: rest) = some (entries, left)) :
    ∃ key behind body value after others, readItems rest = some (key, behind) ∧
      skipSpaces behind = ':' :: body ∧ readValue fuel body = some (value, after) ∧
      entries = (key, value) :: others ∧
      ∀ more, skipSpaces after = ',' :: more → readMembers fuel more = some (others, left) := by
  have opened := skipSpaces_append_cons leading (show isSpace '"' = false by decide) rest
  simp only [readMembers, opened] at read
  split at read
  · cases read
  next key behind named =>
    split at read
    next body marked =>
      split at read
      · cases read
      next value after valued =>
        split at read
        next closed =>
          cases read
          exact ⟨key, behind, body, value, after, [], named, marked, valued, rfl, by simp [closed]⟩
        next more separated =>
          simp only [Option.map_eq_some_iff, Prod.mk.injEq] at read
          obtain ⟨⟨others, last⟩, later, rfl, rfl⟩ := read
          exact ⟨key, behind, body, value, after, others, named, marked, valued, rfl,
            by simp [separated, later]⟩
        · cases read
    · cases read

theorem decodeItems_of_textOfItems {items : List Item} {text : String}
    (known : textOfItems items = some text) : decodeItems items = some text.toList := by
  obtain ⟨characters, decoded, rfl⟩ := Option.map_eq_some_iff.1 known
  rw [decoded, String.toList_ofList]

/-- A member that is read under the key it was given needs no escape. -/
theorem plain_of_readMembers {key : String} {before value rest left : List Char}
    {tree : Tree} {entry : List Item × Tree} {others : List (List Item × Tree)} {fuel : Nat}
    (leading : Spaces before) (spelled : tree.Spelled value)
    (enough : 2 * value.length ≤ fuel + 1) (ends : EndsValue rest)
    (read : readMembers (fuel + 2) (before ++ '"' :: (key.toList ++ '"' :: ':' ::
      (value ++ rest))) = some (entry :: others, left))
    (named : textOfItems entry.1 = some key) :
    Plain key.toList ∧
      ∀ more, rest = ',' :: more → readMembers (fuel + 1) more = some (others, left) := by
  obtain ⟨items, behind, body, found, after, later, readKey, marked, readFound, same, readLater⟩ :=
    exists_of_readMembers leading read
  obtain ⟨rfl, rfl⟩ := List.cons.inj same
  obtain ⟨plain, rfl⟩ := plain_of_readItems readKey (decodeItems_of_textOfItems named)
  refine ⟨plain, ?_⟩
  rintro more rfl
  rw [skipSpaces_of_not_isSpace (by decide)] at marked
  obtain ⟨-, rfl⟩ := List.cons.inj marked
  obtain ⟨blank, trailing, readValue⟩ := spelled.read fuel (',' :: more) enough ends
  rw [readValue, Option.some.injEq, Prod.mk.injEq] at readFound
  obtain ⟨-, rfl⟩ := readFound
  exact readLater more (skipSpaces_append_cons trailing (by decide) more)

end Json

namespace Answer

/-- The members of an answer whose values are texts. -/
def characters : Bool → List (String × List Char) → List Char
  | _, [] => []
  | first, entry :: entries =>
    (if first then [] else [',', '\n']) ++
      '"' :: (entry.1.toList ++ '"' :: ':' :: (entry.2 ++ characters false entries))

theorem encode_characters (first : Bool) (entries : List (String × List Char)) :
    Utf8.encode (characters first entries) =
      body first (entries.map (Prod.map id Utf8.encode)) := by
  induction entries generalizing first with
  | nil => rfl
  | cons entry entries hypothesis =>
    cases first <;> simp [characters, body, member, key, separator, hypothesis]

/-- Members that are read under the keys they were given need no escape. -/
theorem plain_of_readMembers {entry : String × List Char} {entries : List (String × List Char)}
    {before rest left : List Char} {found : List (List Item × Tree)} {fuel : Nat}
    (spelled : ∀ known ∈ entry :: entries, ∃ tree : Tree, tree.Spelled known.2)
    (leading : Spaces before)
    (enough : 2 * (entry.2 ++ characters false entries).length ≤ fuel + 1)
    (read : readMembers (fuel + 2) (before ++ '"' :: (entry.1.toList ++ '"' :: ':' ::
      (entry.2 ++ (characters false entries ++ '\x7d' :: rest)))) = some (found, left))
    (named : List.Forall₂ (fun known member => textOfItems member.1 = some known.1)
      (entry :: entries) found) :
    ∀ known ∈ entry :: entries, Plain known.1.toList := by
  induction entries generalizing entry before found fuel with
  | nil =>
    obtain ⟨member, others, namedFirst, -, rfl⟩ := List.forall₂_cons_left_iff.1 named
    obtain ⟨tree, spelledFirst⟩ := spelled entry List.mem_cons_self
    rw [List.length_append] at enough
    obtain ⟨plain, -⟩ := Json.plain_of_readMembers leading spelledFirst (by omega)
      (by simp [Json.EndsValue, characters]) read namedFirst
    exact List.forall_mem_singleton.2 plain
  | cons next entries hypothesis =>
    obtain ⟨member, others, namedFirst, namedLater, rfl⟩ := List.forall₂_cons_left_iff.1 named
    obtain ⟨⟨tree, spelledFirst⟩, spelledLater⟩ := List.forall_mem_cons.1 spelled
    simp only [characters, List.length_append, List.length_cons] at enough
    obtain ⟨plain, later⟩ := Json.plain_of_readMembers leading spelledFirst (by omega)
      (by simp [Json.EndsValue, characters]) read namedFirst
    have newline : Spaces ['\n'] := Spaces.singleton (by decide)
    obtain ⟨less, rfl⟩ : ∃ less, fuel = less + 1 := ⟨fuel - 1, by omega⟩
    have readLater := later ('\n' :: '"' :: (next.1.toList ++ '"' :: ':' ::
      (next.2 ++ (characters false entries ++ '\x7d' :: rest)))) (by simp [characters])
    refine List.forall_mem_cons.2 ⟨plain, hypothesis spelledLater newline ?_ readLater namedLater⟩
    rw [List.length_append]
    omega

/-- Values that are JSON texts have characters. -/
theorem exists_texts {members : List (String × List UInt8)}
    (values : ∀ known ∈ members, ∃ tree : Tree, tree.Encoded known.2) :
    ∃ texts : List (String × List Char), members = texts.map (Prod.map id Utf8.encode) ∧
      ∀ known ∈ texts, ∃ tree : Tree, tree.Spelled known.2 := by
  induction members with
  | nil => exact ⟨[], rfl, nofun⟩
  | cons known members hypothesis =>
    obtain ⟨⟨tree, text, spelled, encoded⟩, later⟩ := List.forall_mem_cons.1 values
    obtain ⟨texts, rfl, spelledLater⟩ := hypothesis later
    refine ⟨(known.1, text) :: texts, ?_, List.forall_mem_cons.2 ⟨⟨tree, spelled⟩, spelledLater⟩⟩
    rw [List.map_cons, Prod.map_apply, encoded]
    rfl

/-- An answer that is an object with the keys it was given needs no escape. -/
theorem plain_of_encoded {members : List (String × List UInt8)}
    {entries : List (List Item × Tree)}
    (values : ∀ known ∈ members, ∃ tree : Tree, tree.Encoded known.2)
    (encoded : (Tree.object entries).Encoded (encode members))
    (named : List.Forall₂ (fun known entry => textOfItems entry.1 = some known.1)
      members entries) :
    ∀ known ∈ members, Plain known.1.toList := by
  obtain ⟨texts, rfl, spelled⟩ := exists_texts values
  obtain ⟨text, whole, same⟩ := encoded
  have written : text = '\x7b' :: (characters true texts ++ ['\x7d']) := by
    apply Utf8.encode_injective
    rw [same, encode_eq_body, ← encode_characters]
    simp [openBrace, closeBrace]
  subst written
  cases texts with
  | nil => exact List.forall_mem_nil _
  | cons first texts =>
    have read := Tree.read?_of_spelled whole
    rw [Tree.read?] at read
    split at read
    next tree left readWhole =>
      obtain ⟨found, readFound, rfl⟩ := Json.exists_of_readValue_object readWhole
      obtain ⟨-, rfl⟩ : skipSpaces left = [] ∧ found = entries := by simpa using read
      have texted : List.Forall₂ (fun known entry => textOfItems entry.1 = some known.1)
          (first :: texts) found := List.forall₂_map_left_iff.1 named
      have fuel : 2 * ('\x7b' :: (characters true (first :: texts) ++ ['\x7d'])).length + 1 =
          (2 * (characters true (first :: texts)).length + 3) + 2 := by
        simp only [List.length_cons, List.length_append, List.length_nil]
        omega
      have shape : characters true (first :: texts) ++ ['\x7d'] = [] ++ '"' ::
          (first.1.toList ++ '"' :: ':' :: (first.2 ++ (characters false texts ++ ['\x7d']))) := by
        simp [characters]
      have enough : 2 * (first.2 ++ characters false texts).length ≤
          2 * (characters true (first :: texts)).length + 3 + 1 := by
        simp only [characters, if_true, List.nil_append, List.length_append, List.length_cons]
        omega
      change readMembers _ (characters true (first :: texts) ++ ['\x7d']) = _ at readFound
      rw [fuel, shape] at readFound
      exact List.forall_mem_map.2
        (plain_of_readMembers spelled Spaces.nil enough readFound texted)
    · cases read

end Answer

/-- The member of an object that a member of an answer comes back as. -/
structure Answer.Reads (known : String × List UInt8) (entry : List Item × Tree) : Prop where
  key : textOfItems entry.1 = some known.1
  value : entry.2.Encoded known.2

variable {World Obj : Type}

/-- The calls that the evaluation of a program makes to objects, in order. -/
def Program.hostCalls (host : Host World Obj) (program : Program) (session : Session World Obj) :
    List (HostCall World Obj) :=
  (program.evaluate host.traced session.untraced).2.world.2

/-- The answer to a program holds what its objects have been marshalled to, under its targets. -/
theorem Program.exists_members {host : Host World Obj} (program : Program)
    {session last : Session World Obj} {bytes : List UInt8}
    (evaluated : program.evaluate host session = (.ok bytes, last)) :
    ∃ members, Definition.evaluateAll host program.definitions
        (session.record [.evaluating program.definitions.length]) = (.ok members, last) ∧
      Definition.EvaluatedAll session.symbols.names program.definitions
        (program.hostCalls host session) (.ok members) ∧
      (∀ call ∈ program.hostCalls host session, call.Answered host) ∧
      bytes = Answer.encode members := by
  have shown : Definition.evaluateAll host program.definitions
      (session.record [.evaluating program.definitions.length]) = _ :=
    Definition.evaluateAll_translate host.shows_traced [] program.definitions
      (session.untraced.record [.evaluating program.definitions.length])
  obtain ⟨made, adds, evaluatedAll⟩ := Definition.evaluateAll_evaluated host program.definitions
    (session.untraced.record [.evaluating program.definitions.length])
  rw [Program.evaluate, shown] at evaluated
  rw [shown, hostCalls, Program.evaluate]
  generalize Definition.evaluateAll host.traced program.definitions _ = ran
    at evaluated adds evaluatedAll ⊢
  obtain ⟨error | members, final⟩ := ran
  · cases evaluated
  · cases evaluated
    have only : final.world.2 = made := adds.calls
    rw [only]
    exact ⟨members, rfl, evaluatedAll, adds.answered, rfl⟩

theorem Definition.EvaluatedAll.members {host : Host World Obj} (marshals : host.MarshalsJson)
    {names : List String} {definitions : List Definition} {made : List (HostCall World Obj)}
    {members : List (String × List UInt8)}
    (evaluated : EvaluatedAll names definitions made (.ok members))
    (answered : ∀ call ∈ made, call.Answered host) :
    members.map Prod.fst = definitions.map Definition.target ∧
      ∀ member ∈ members, ∃ tree : Tree, tree.Encoded member.2 := by
  generalize succeeded : Except.ok members = result at evaluated
  cases evaluated with
  | finished completed =>
    obtain rfl := Except.ok.inj succeeded
    exact ⟨completed.targets, completed.encoded marshals answered⟩
  | failed split completed fails => cases succeeded

/-- An answer is an object with the members of its program exactly if no target needs an escape. -/
theorem Program.evaluate_encoded_iff {host : Host World Obj} (marshals : host.MarshalsJson)
    (program : Program) {session last : Session World Obj} {bytes : List UInt8}
    (evaluated : program.evaluate host session = (.ok bytes, last)) :
    ∃ members, Definition.evaluateAll host program.definitions
        (session.record [.evaluating program.definitions.length]) = (.ok members, last) ∧
      Definition.EvaluatedAll session.symbols.names program.definitions
        (program.hostCalls host session) (.ok members) ∧
      (∀ call ∈ program.hostCalls host session, call.Answered host) ∧
      members.map Prod.fst = program.definitions.map Definition.target ∧
      ((∃ entries, (∀ tree : Tree, tree.Encoded bytes ↔ tree = .object entries) ∧
          List.Forall₂ Answer.Reads members entries) ↔
        ∀ definition ∈ program.definitions, Plain definition.target.toList) := by
  obtain ⟨members, all, evaluatedAll, answered, rfl⟩ := program.exists_members evaluated
  obtain ⟨targets, values⟩ := evaluatedAll.members marshals answered
  refine ⟨members, all, evaluatedAll, answered, targets, ?_⟩
  have named : (∀ definition ∈ program.definitions, Plain definition.target.toList) ↔
      ∀ known ∈ members, Plain known.1.toList := calc
    _ ↔ ∀ target ∈ program.definitions.map Definition.target, Plain target.toList :=
      List.forall_mem_map.symm
    _ ↔ ∀ target ∈ members.map Prod.fst, Plain target.toList := by rw [targets]
    _ ↔ _ := List.forall_mem_map
  rw [named]
  constructor
  · rintro ⟨entries, object, reads⟩
    exact Answer.plain_of_encoded values ((object _).2 rfl) (reads.imp fun _ _ read => read.key)
  · intro plain
    obtain ⟨entries, described⟩ := Answer.exists_entries fun known present => by
      obtain ⟨tree, encoded⟩ := values known present
      exact ⟨(known.1.toList.map .plain, tree), Json.Item.allSpelled_plain (plain known present),
        Json.textOfItems_plain known.1, encoded⟩
    have encoded := Answer.encode_encoded described
    refine ⟨entries, fun tree => ⟨fun again => again.unique encoded, ?_⟩,
      described.imp fun _ _ one => ⟨one.key, one.value⟩⟩
    rintro rfl
    exact encoded

theorem Program.evaluate_encoded_iff_blank_target :
    let session := Session.withReceiver "b" ""
    let program : Program := ⟨[⟨"a b", "b", [⟨"c", []⟩]⟩]⟩
    let tree : Tree := .object [([.plain 'a', .plain ' ', .plain 'b'], .text [.plain 'c'])]
    Host.texts.MarshalsJson ∧ ∃ bytes last,
      program.evaluate Host.texts session = (.ok bytes, last) ∧ tree.Encoded bytes := by
  intro session program tree
  have answer : (program.evaluate Host.texts session).1 =
      .ok (Utf8.encode "\x7b\"a b\":\"c\"\x7d".toList) := by decide +kernel
  have evaluated : program.evaluate Host.texts session =
      (.ok _, (program.evaluate Host.texts session).2) := Prod.ext answer rfl
  obtain ⟨members, -, -, -, -, object⟩ :=
    Program.evaluate_encoded_iff Host.marshalsJson_texts program evaluated
  have free : ∀ definition ∈ program.definitions, Plain definition.target.toList := by
    refine List.forall_mem_singleton.2 ?_
    simp [Plain]
  obtain ⟨entries, encoded, -⟩ := object.2 free
  exact ⟨Host.marshalsJson_texts, _, _, evaluated, ((encoded _).2 rfl).of_read? (by cbv)⟩

/-- A target with a quote in it leaves an answer that is no JSON text. -/
theorem Program.not_evaluate_encoded :
    let session := Session.withReceiver "b" ()
    let program : Program := ⟨[⟨"a\"", "b", []⟩]⟩
    Host.nulls.MarshalsJson ∧ ∃ bytes last,
      program.evaluate Host.nulls session = (.ok bytes, last) ∧
        ∀ tree : Tree, ¬ tree.Encoded bytes := by
  intro session program
  refine ⟨Host.marshalsJson_nulls, _, _, rfl, ?_⟩
  rintro tree ⟨text, spelled, same⟩
  have written : text = "\x7b\"a\"\":null\x7d".toList := by
    apply Utf8.encode_injective
    rw [same]
    rfl
  have read := Tree.read?_of_spelled spelled
  rw [written, show Tree.read? "\x7b\"a\"\":null\x7d".toList = none by decide +kernel] at read
  cases read

end Fluent
