/-
This file holds which order of requests keeps a source from harm.
-/

import Fluent.Proofs.Source.Lockstep
import Fluent.Proofs.Source.Places

namespace Fluent

/-- A read, a read that is undone, the start of a token with its first read, or a report. -/
inductive Orderly : List Request → Prop where
  | nil : Orderly []
  | read {later : List Request} : Orderly later → Orderly (.read :: later)
  | undone {later : List Request} : Orderly later → Orderly (.read :: .unread :: later)
  | token {later : List Request} : Orderly later → Orderly (.startToken :: .read :: later)
  | report {later : List Request} : Orderly later → Orderly (.takeFault :: later)

namespace Orderly

variable {first second requests front : List Request}

theorem append (one : Orderly first) (other : Orderly second) : Orderly (first ++ second) := by
  induction one with
  | nil => exact other
  | read _ hypothesis => exact .read hypothesis
  | undone _ hypothesis => exact .undone hypothesis
  | token _ hypothesis => exact .token hypothesis
  | report _ hypothesis => exact .report hypothesis

/-- An unread stands right behind a read, also where other requests come first. -/
theorem isChain (orderly : Orderly requests) (previous : Request) :
    (previous :: requests).IsChain fun one next => next = .unread → one = .read := by
  induction orderly generalizing previous with
  | nil => exact .singleton _
  | read _ hypothesis => exact .cons_cons nofun (hypothesis _)
  | undone _ hypothesis => exact .cons_cons nofun (.cons_cons (fun _ => rfl) (hypothesis _))
  | token _ hypothesis => exact .cons_cons nofun (.cons_cons nofun (hypothesis _))
  | report _ hypothesis => exact .cons_cons nofun (hypothesis _)

theorem exists_read (orderly : Orderly requests) (part : front ++ [.unread] <+: requests) :
    ∃ earlier, front = earlier ++ [.read] := by
  obtain ⟨later, rfl⟩ := part
  have chain := orderly.isChain .startToken
  rw [List.append_assoc, ← List.cons_append, List.isChain_append] at chain
  obtain ⟨-, -, neighbours⟩ := chain
  rcases List.eq_nil_or_concat' front with rfl | ⟨earlier, last, rfl⟩
  · cases neighbours .startToken rfl .unread rfl rfl
  · have ending : (.startToken :: (earlier ++ [last])).getLast? = some last := by
      rw [← List.cons_append, List.getLast?_concat]
    refine ⟨earlier, ?_⟩
    rw [neighbours last ending .unread rfl rfl]

theorem not_reachesBack {σ : Type} [CharSource σ] (orderly : Orderly requests)
    (part : front <+: requests) (source : σ) : ¬ CharSource.ReachesBack source front := by
  rintro ⟨earlier, between, later, rfl, -, idle, started, -⟩
  obtain ⟨former, split⟩ := orderly.exists_read ((List.prefix_append _ later).trans part)
  rcases List.eq_nil_or_concat' between with rfl | ⟨others, last, rfl⟩
  · cases started
  · rw [← List.append_assoc] at split
    obtain ⟨-, same⟩ := List.append_inj' split rfl
    have idleLast := idle last (by simp)
    rw [List.singleton_inj.1 same] at idleLast
    rcases idleLast with wrong | wrong <;> cases wrong

end Orderly

open CharSource

/-- The start of a token leaves the weaker invariant; a read restores the stronger one. -/
structure Guard (σ : Type) [CharSource σ] where
  placed : σ → Prop
  settled : σ → Prop
  placed_of_settled : ∀ {source}, settled source → placed source
  read : ∀ {source}, placed source → settled (read source).2
  unread : ∀ {source}, settled source → settled (unread source)
  startToken : ∀ {source}, settled source → placed (startToken source)
  takeFault : ∀ {source}, settled source → settled (takeFault source).2
  unread_of_none : ∀ {source : σ}, (CharSource.read source).1 = none →
    CharSource.unread (CharSource.read source).2 = (CharSource.read source).2

namespace Guard

variable {σ : Type} [CharSource σ] {source : σ} {request : Request}
  {requests front : List Request}

theorem placed_of_cons (guard : Guard σ) (now : guard.placed source)
    (later : ∀ front, front <+: requests → guard.placed (obeyAll (obey source request) front)) :
    ∀ front, front <+: request :: requests → guard.placed (obeyAll source front) := by
  intro front part
  rcases List.prefix_cons_iff.1 part with rfl | ⟨behind, rfl, within⟩
  · exact now
  · exact later behind within

/-- Orderly requests keep the weaker invariant all the way and end with the stronger one. -/
theorem obeyAll (guard : Guard σ) (orderly : Orderly requests) (settled : guard.settled source) :
    guard.settled (obeyAll source requests) ∧
      ∀ front, front <+: requests → guard.placed (obeyAll source front) := by
  induction orderly generalizing source with
  | nil =>
    refine ⟨settled, fun front part => ?_⟩
    rw [List.prefix_nil.1 part]
    exact guard.placed_of_settled settled
  | read _ hypothesis =>
    have placed := guard.placed_of_settled settled
    obtain ⟨last, later⟩ := hypothesis (guard.read placed)
    exact ⟨last, guard.placed_of_cons placed later⟩
  | undone _ hypothesis =>
    have placed := guard.placed_of_settled settled
    have found := guard.read placed
    obtain ⟨last, later⟩ := hypothesis (guard.unread found)
    exact ⟨last, guard.placed_of_cons placed
      (guard.placed_of_cons (guard.placed_of_settled found) later)⟩
  | token _ hypothesis =>
    have started := guard.startToken settled
    obtain ⟨last, later⟩ := hypothesis (guard.read started)
    exact ⟨last, guard.placed_of_cons (guard.placed_of_settled settled)
      (guard.placed_of_cons started later)⟩
  | report _ hypothesis =>
    obtain ⟨last, later⟩ := hypothesis (guard.takeFault settled)
    exact ⟨last, guard.placed_of_cons (guard.placed_of_settled settled) later⟩

/-- Whenever orderly requests take something back, the stronger invariant holds. -/
theorem settled_of_unread (guard : Guard σ) (orderly : Orderly requests)
    (settled : guard.settled source) (part : front ++ [.unread] <+: requests) :
    guard.settled (CharSource.obeyAll source front) := by
  obtain ⟨earlier, rfl⟩ := orderly.exists_read part
  have within : earlier <+: requests :=
    (List.prefix_append _ _).trans ((List.prefix_append _ _).trans part)
  rw [obeyAll_concat]
  exact guard.read ((guard.obeyAll orderly settled).2 earlier within)

end Guard

namespace TextSource

variable {text before token : List Char} {source : TextSource}

/-- A text, cut where the token starts and where the next read is, and the places of both. -/
structure Cuts (text before token : List Char) (source : TextSource) : Prop where
  text : text = before ++ (token ++ source.rest)
  past : source.past = (before ++ token).reverse
  start : source.start = Utf8.size before
  startCount : source.startCount = before.length
  offset : source.offset = Utf8.size (before ++ token)
  count : source.count = (before ++ token).length

/-- What can be taken back is the last character of a text, or there is nothing. -/
def TakesBack (text : List Char) (source : TextSource) : Prop :=
  source.lastWidth = 0 ∨
    ∃ earlier character, text = earlier ++ [character] ∧ source.lastWidth = character.utf8Size

theorem TakesBack.append (takes : source.TakesBack token) : source.TakesBack (before ++ token) := by
  rcases takes with none | ⟨earlier, character, rfl, width⟩
  · exact .inl none
  · exact .inr ⟨before ++ earlier, character, (List.append_assoc ..).symm, width⟩

theorem Cuts.read (cuts : source.Cuts text before token) :
    ∃ token, source.read.2.Cuts text before token ∧ source.read.2.TakesBack token := by
  rw [TextSource.read]
  split
  next ended => exact ⟨token, { cuts with }, .inl rfl⟩
  next character rest going =>
    refine ⟨token ++ [character], ?_, .inr ⟨token, character, rfl, rfl⟩⟩
    exact
      { start := cuts.start
        startCount := cuts.startCount
        text := by simp [cuts.text, going]
        past := by simp [cuts.past]
        offset := by simp [cuts.offset, Nat.add_assoc]
        count := by simp [cuts.count, Nat.add_assoc] }

theorem Cuts.unread (cuts : source.Cuts text before token) (takes : source.TakesBack token) :
    ∃ token, source.unread.Cuts text before token ∧ source.unread.TakesBack token := by
  rcases takes with none | ⟨earlier, character, rfl, width⟩
  · rw [TextSource.unread, if_pos none]
    exact ⟨token, cuts, .inl none⟩
  · have wide : source.lastWidth ≠ 0 := width ▸ Nat.ne_of_gt character.utf8Size_pos
    have past : source.past = character :: (before ++ earlier).reverse := by simp [cuts.past]
    rw [TextSource.unread, if_neg wide, past]
    refine ⟨earlier, ?_, .inl rfl⟩
    exact
      { start := cuts.start
        startCount := cuts.startCount
        text := by simp [cuts.text]
        past := rfl
        offset := by simp [cuts.offset, width, ← Nat.add_assoc]
        count := by simp [cuts.count, ← Nat.add_assoc] }

theorem unread_read_of_none (none : source.read.1 = none) :
    source.read.2.unread = source.read.2 := by
  rw [TextSource.read] at none ⊢
  split at none
  next ended => exact if_pos rfl
  next character rest going => cases none

theorem Cuts.startToken (cuts : source.Cuts text before token) :
    source.startToken.Cuts text (before ++ token) [] where
  text := by simp [cuts.text, TextSource.startToken]
  past := by simp [cuts.past, TextSource.startToken]
  start := cuts.offset
  startCount := cuts.count
  offset := by simp [cuts.offset, TextSource.startToken]
  count := by simp [cuts.count, TextSource.startToken]

/-- Started tokens and reads keep to the text, and what a read has found belongs to the token. -/
def guard (text : List Char) : Guard TextSource where
  placed source := ∃ before token,
    source.Cuts text before token ∧ source.TakesBack (before ++ token)
  settled source := ∃ before token, source.Cuts text before token ∧ source.TakesBack token
  placed_of_settled := by
    rintro source ⟨before, token, cuts, takes⟩
    exact ⟨before, token, cuts, takes.append⟩
  read := by
    rintro source ⟨before, token, cuts, -⟩
    exact ⟨before, cuts.read⟩
  unread := by
    rintro source ⟨before, token, cuts, takes⟩
    exact ⟨before, cuts.unread takes⟩
  startToken := by
    rintro source ⟨before, token, cuts, takes⟩
    refine ⟨before ++ token, [], cuts.startToken, ?_⟩
    rw [List.append_nil]
    exact takes.append
  takeFault settled := settled
  unread_of_none := unread_read_of_none

/-- The places that a source remembers stand within a text, as do the token and what is ahead. -/
structure Placed (text : List Char) (source : TextSource) : Prop where
  begun : source.start ≤ source.offset
  inside : source.offset ≤ Utf8.size text
  token : Spells text source.start source.offset source.tokenText source.startCount
  ahead : Spells text source.offset (Utf8.size text) (String.ofList source.rest) source.count

/-- What can be taken back is the character right before, and it is one of the token. -/
structure Settled (text : List Char) (source : TextSource) : Prop extends Placed text source where
  last : source.lastWidth = 0 ∨ ∃ character, source.lastWidth = character.utf8Size ∧
    Spells text (source.offset - source.lastWidth) source.offset (String.ofList [character])
      (source.count - 1) ∧
    source.start + source.lastWidth ≤ source.offset ∧ source.startCount < source.count

theorem Cuts.tokenText_eq (cuts : source.Cuts text before token) :
    source.tokenText = String.ofList token := by
  have length : source.count - source.startCount = token.reverse.length := by
    rw [cuts.count, cuts.startCount, List.length_append, List.length_reverse,
      Nat.add_sub_cancel_left]
  rw [TextSource.tokenText, cuts.past, List.reverse_append, length, List.take_left,
    List.reverse_reverse]

theorem Cuts.placed (cuts : source.Cuts text before token) : source.Placed text where
  begun := by
    rw [cuts.start, cuts.offset, Utf8.size_append]
    exact Nat.le_add_right _ _
  inside := by
    rw [cuts.offset, cuts.text, ← List.append_assoc, Utf8.size_append (before ++ token)]
    exact Nat.le_add_right _ _
  token := by
    refine ⟨before, source.rest, ?_, cuts.start, ?_, cuts.startCount⟩
    · rw [cuts.tokenText_eq, String.toList_ofList, cuts.text]
    · rw [cuts.tokenText_eq, String.toList_ofList, cuts.offset]
  ahead := by
    refine ⟨before ++ token, [], ?_, cuts.offset, ?_, cuts.count⟩
    · simp [cuts.text]
    · simp [cuts.text]

theorem Cuts.settled (cuts : source.Cuts text before token) (takes : source.TakesBack token) :
    source.Settled text where
  toPlaced := cuts.placed
  last := by
    refine takes.imp_right ?_
    rintro ⟨earlier, character, rfl, width⟩
    have offset := cuts.offset
    have count := cuts.count
    have start := cuts.start
    have startCount := cuts.startCount
    simp only [Utf8.size_append, Utf8.size_cons, Utf8.size_nil] at offset
    simp only [List.length_append, List.length_cons, List.length_nil] at count
    refine ⟨character, width, ⟨before ++ earlier, source.rest, ?_, ?_, ?_, ?_⟩, ?_, ?_⟩
    · simp [cuts.text]
    · simp only [Utf8.size_append]
      omega
    · simp [cuts.offset]
    · simp only [List.length_append]
      omega
    · omega
    · omega

theorem settled_ofString (text : String) :
    (guard text.toList).settled (TextSource.ofString text) :=
  ⟨[], [], ⟨rfl, rfl, rfl, rfl, rfl, rfl⟩, .inl rfl⟩

end TextSource

namespace ByteSource

variable {source : ByteSource}

/-- The token is what has been read since its start, and nothing is taken back twice. -/
structure Placed (source : ByteSource) : Prop where
  offset : source.offset = source.start + Utf8.size source.token
  count : source.count = source.startCount + source.token.length
  back : source.pushedBack.isSome → source.last = none

/-- Moreover what can be taken back is the last character of the token. -/
structure Settled (source : ByteSource) : Prop extends Placed source where
  last : ∀ character, source.last = some character →
    source.token.head? = some character ∧
    source.start + character.utf8Size ≤ source.offset ∧ source.startCount < source.count

theorem read_cases (source : ByteSource) :
    (∃ reader failed fault,
        source.read = (none, { source with reader, last := none, failed, fault })) ∨
      ∃ character reader, source.read =
        (some character, deliver character { source with reader, pushedBack := none }) := by
  rw [read]
  split
  next character pushed => exact .inr ⟨character, source.reader, rfl⟩
  next fresh =>
    split
    next failed => exact .inl ⟨source.reader, source.failed, source.fault, rfl⟩
    next going =>
      split
      next character reader decoded =>
        refine .inr ⟨character, reader, ?_⟩
        rw [← fresh]
      next reader decoded => exact .inl ⟨reader, source.failed, source.fault, rfl⟩
      next fault reader decoded => exact .inl ⟨reader, true, some fault, rfl⟩

theorem Placed.settled (placed : source.Placed)
    (last : ∀ character, source.last = some character → source.token.head? = some character) :
    source.Settled where
  toPlaced := placed
  last character found := by
    obtain ⟨token, split⟩ := List.head?_eq_some_iff.1 (last character found)
    refine ⟨last character found, ?_⟩
    rw [placed.offset, placed.count, split, Utf8.size_cons, List.length_cons]
    omega

theorem Placed.read (placed : source.Placed) : source.read.2.Settled := by
  rcases source.read_cases with ⟨reader, failed, fault, found⟩ | ⟨character, reader, found⟩
  · rw [found]
    exact ⟨⟨placed.offset, placed.count, fun _ => rfl⟩, nofun⟩
  · rw [found]
    refine Placed.settled ⟨?_, ?_, nofun⟩ fun _ same => same
    · simp only [deliver, Utf8.size_cons, placed.offset]
      omega
    · simp only [deliver, List.length_cons, placed.count]
      omega

theorem unread_read_of_none (none : source.read.1 = none) :
    source.read.2.unread = source.read.2 := by
  rcases source.read_cases with ⟨reader, failed, fault, found⟩ | ⟨character, reader, found⟩
  · rw [found]
    rfl
  · rw [found] at none
    cases none

theorem Settled.unread (settled : source.Settled) : source.unread.Settled := by
  cases last : source.last with
  | none => rwa [ByteSource.unread, last]
  | some character =>
    rw [ByteSource.unread, last]
    obtain ⟨token, split⟩ := List.head?_eq_some_iff.1 (settled.last character last).1
    have offset := settled.offset
    have count := settled.count
    rw [split, Utf8.size_cons] at offset
    rw [split, List.length_cons] at count
    refine ⟨⟨?_, ?_, fun _ => rfl⟩, fun _ found => by cases found⟩
    · simp only [split, List.tail_cons]
      omega
    · simp only [split, List.tail_cons]
      omega

def guard : Guard ByteSource where
  placed := Placed
  settled := Settled
  placed_of_settled settled := settled.toPlaced
  read := Placed.read
  unread := Settled.unread
  startToken settled := ⟨rfl, rfl, settled.back⟩
  takeFault settled := ⟨⟨settled.offset, settled.count, settled.back⟩, settled.last⟩
  unread_of_none := unread_read_of_none

theorem settled_ofReader (reader : Reader) : (ofReader reader).Settled :=
  ⟨⟨rfl, rfl, nofun⟩, nofun⟩

end ByteSource

end Fluent
