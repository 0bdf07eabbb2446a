/-
This file proves that a text and a reader of its bytes cannot be told apart step by step.
-/

import Mathlib
import Fluent.Proofs.Source.Interleaving

namespace Fluent

namespace CharSource

variable {σ : Type} [CharSource σ]

/-- The source once a request has been made of it. -/
def obey (source : σ) : Request → σ
  | .read => (read source).2
  | .unread => unread source
  | .startToken => startToken source
  | .takeFault => (takeFault source).2

/-- The source once requests have been made of it, in this order. -/
def obeyAll (source : σ) (requests : List Request) : σ :=
  requests.foldl obey source

theorem obeyAll_concat (source : σ) (requests : List Request) (request : Request) :
    obeyAll source (requests ++ [request]) = obey (obeyAll source requests) request := by
  rw [obeyAll, List.foldl_append]
  rfl

/-- Since the last start of a token, an unread has undone a read from before that start. -/
def ReachesBack (source : σ) (requests : List Request) : Prop :=
  ∃ earlier between later,
    requests = earlier ++ [.read] ++ between ++ [.unread] ++ later ∧
    (read (obeyAll source earlier)).1 ≠ none ∧
    (∀ request ∈ between, request = .startToken ∨ request = .takeFault) ∧
    .startToken ∈ between ∧ .startToken ∉ later

/-- Only the start of a token makes up for a character that was taken back from the former one. -/
theorem ReachesBack.concat {source : σ} {requests : List Request} {request : Request}
    (reaches : ReachesBack source requests) (going : request ≠ .startToken) :
    ReachesBack source (requests ++ [request]) := by
  obtain ⟨earlier, between, later, rfl, found, idle, started, since⟩ := reaches
  refine ⟨earlier, between, later ++ [request], by simp, found, idle, started, ?_⟩
  intro present
  rcases List.mem_append.1 present with before | last
  · exact since before
  · exact going (List.mem_singleton.1 last).symm

end CharSource

/-- A text in memory and a source of its bytes that have come equally far. -/
structure Abreast (memory : TextSource) (bytes : ByteSource) : Prop where
  start : memory.start = bytes.start
  startCount : memory.startCount = bytes.startCount
  offset : memory.offset = bytes.offset
  count : memory.count = bytes.count
  /-- Both can take back the same character, or neither can take back any. -/
  last : (memory.lastWidth = 0 ∧ bytes.last = none) ∨
    ∃ character earlier, memory.past = character :: earlier ∧
      memory.lastWidth = character.utf8Size ∧ bytes.last = some character ∧
      bytes.pushedBack = none
  coming : ∃ later, memory.rest = bytes.pushedBack.toList ++ later ∧
    bytes.reader.bytes = Utf8.encode later
  finished : bytes.reader.ending = .finished
  unfailed : bytes.failed = false
  faultless : bytes.fault = none

/-- The two have the same text of the token. -/
structure Alike (memory : TextSource) (bytes : ByteSource) : Prop where
  begun : memory.startCount ≤ memory.count
  token : bytes.token = memory.past.take (memory.count - memory.startCount)

namespace Abreast

variable {memory : TextSource} {bytes : ByteSource}

theorem ofText (text : List Char) {reader : Reader} (whole : reader.bytes = Utf8.encode text)
    (finished : reader.ending = .finished) :
    Abreast (TextSource.ofList text) (ByteSource.ofReader reader) where
  start := rfl
  startCount := rfl
  offset := rfl
  count := rfl
  last := .inl ⟨rfl, rfl⟩
  coming := ⟨text, rfl, whole⟩
  finished := finished
  unfailed := rfl
  faultless := rfl

/-- At the end both find nothing, and no character can be taken back any more. -/
theorem read_nil (abreast : Abreast memory bytes) (ended : memory.rest = []) :
    memory.read = (none, { memory with lastWidth := 0 }) ∧
      ∃ reader, bytes.read = (none, { bytes with reader, last := none }) ∧
        Abreast { memory with lastWidth := 0 } { bytes with reader, last := none } := by
  obtain ⟨later, split, left⟩ := abreast.coming
  rw [ended] at split
  obtain ⟨nothing, rfl⟩ := List.append_eq_nil_iff.1 split.symm
  have fresh : bytes.pushedBack = none := Option.toList_eq_nil_iff.1 nothing
  have decoded : ByteSource.decode bytes.offset bytes.reader = (.ok none, bytes.reader.refill) := by
    rw [ByteSource.decode, Reader.peek_of_nil left, abreast.finished]
    rfl
  refine ⟨by rw [TextSource.read, ended], bytes.reader.refill, ?_, ?_⟩
  · rw [ByteSource.read, fresh, abreast.unfailed]
    simp only [Bool.false_eq_true, if_false, decoded]
  · exact { abreast with
      last := .inl ⟨rfl, rfl⟩
      coming := ⟨[], ended.trans split, bytes.reader.bytes_refill.trans left⟩
      finished := bytes.reader.ending_refill.trans abreast.finished }

/-- Both read the same character, and both can take it back. -/
theorem read_cons {character : Char} {rest : List Char} (abreast : Abreast memory bytes)
    (going : memory.rest = character :: rest) :
    memory.read.1 = some character ∧
      ∃ reader,
        bytes.read =
          (some character, ByteSource.deliver character { bytes with reader, pushedBack := none }) ∧
        Abreast memory.read.2
          (ByteSource.deliver character { bytes with reader, pushedBack := none }) := by
  have found : memory.read =
      (some character,
        { memory with
          past := character :: memory.past
          rest := rest
          offset := memory.offset + character.utf8Size
          count := memory.count + 1
          lastWidth := character.utf8Size }) := by
    rw [TextSource.read, going]
  rw [found]
  refine ⟨rfl, ?_⟩
  have ahead {reader : Reader} (left : reader.bytes = Utf8.encode rest)
      (finished : reader.ending = .finished) :
      Abreast
        { memory with
          past := character :: memory.past
          rest := rest
          offset := memory.offset + character.utf8Size
          count := memory.count + 1
          lastWidth := character.utf8Size }
        (ByteSource.deliver character { bytes with reader, pushedBack := none }) :=
    { abreast with
      offset := congrArg (· + character.utf8Size) abreast.offset
      count := congrArg (· + 1) abreast.count
      last := .inr ⟨character, memory.past, rfl, rfl, rfl, rfl⟩
      coming := ⟨rest, rfl, left⟩
      finished := finished }
  obtain ⟨later, split, left⟩ := abreast.coming
  rw [going] at split
  cases pushed : bytes.pushedBack with
  | some former =>
    rw [pushed] at split
    obtain ⟨rfl, rfl⟩ := List.cons.inj split
    refine ⟨bytes.reader, ?_, ahead left abreast.finished⟩
    rw [ByteSource.read, pushed]
  | none =>
    rw [pushed] at split
    change character :: rest = later at split
    rw [← split, Utf8.encode_cons] at left
    obtain ⟨reader, decoded, behind, ending⟩ := ByteSource.decode_of_encoded left bytes.offset
    refine ⟨reader, ?_, ahead behind (ending.trans abreast.finished)⟩
    rw [ByteSource.read, pushed, abreast.unfailed]
    simp only [Bool.false_eq_true, if_false, decoded]

theorem read (abreast : Abreast memory bytes) :
    memory.read.1 = bytes.read.1 ∧ Abreast memory.read.2 bytes.read.2 := by
  cases going : memory.rest with
  | nil =>
    obtain ⟨one, reader, other, after⟩ := abreast.read_nil going
    rw [one, other]
    exact ⟨rfl, after⟩
  | cons character rest =>
    obtain ⟨one, reader, other, after⟩ := abreast.read_cons going
    rw [one, other]
    exact ⟨rfl, after⟩

theorem unread (abreast : Abreast memory bytes) : Abreast memory.unread bytes.unread := by
  rcases abreast.last with ⟨width, none⟩ | ⟨character, earlier, past, width, some, fresh⟩
  · rwa [TextSource.unread, if_pos width, ByteSource.unread, none]
  · have wide : memory.lastWidth ≠ 0 := width ▸ Nat.ne_of_gt character.utf8Size_pos
    obtain ⟨later, split, left⟩ := abreast.coming
    rw [fresh] at split
    rw [TextSource.unread, if_neg wide, past, ByteSource.unread, some]
    exact { abreast with
      offset := by rw [width, abreast.offset]
      count := congrArg (· - 1) abreast.count
      last := .inl ⟨rfl, rfl⟩
      coming := ⟨later, congrArg (character :: ·) split, left⟩ }

theorem startToken (abreast : Abreast memory bytes) :
    Abreast memory.startToken bytes.startToken :=
  { abreast with
    start := abreast.offset
    startCount := abreast.count }

theorem takeFault (abreast : Abreast memory bytes) : Abreast memory bytes.takeFault.2 :=
  { abreast with faultless := rfl }

end Abreast

namespace Alike

variable {memory : TextSource} {bytes : ByteSource}

theorem read (alike : Alike memory bytes) (abreast : Abreast memory bytes) :
    Alike memory.read.2 bytes.read.2 := by
  have begun := alike.begun
  cases going : memory.rest with
  | nil =>
    obtain ⟨one, reader, other, -⟩ := abreast.read_nil going
    rw [one, other]
    exact ⟨begun, alike.token⟩
  | cons character rest =>
    obtain ⟨-, reader, other, -⟩ := abreast.read_cons going
    rw [other, TextSource.read, going]
    have longer : memory.count + 1 - memory.startCount =
        memory.count - memory.startCount + 1 := by omega
    refine ⟨Nat.le_succ_of_le begun, ?_⟩
    dsimp only [ByteSource.deliver]
    rw [longer, List.take_succ_cons, alike.token]

/-- A character of the token is taken back from both texts. -/
theorem unread (alike : Alike memory bytes) (abreast : Abreast memory bytes)
    (within : bytes.last ≠ none → memory.startCount < memory.count) :
    Alike memory.unread bytes.unread := by
  rcases abreast.last with ⟨width, none⟩ | ⟨character, earlier, past, width, some, fresh⟩
  · rwa [TextSource.unread, if_pos width, ByteSource.unread, none]
  · have wide : memory.lastWidth ≠ 0 := width ▸ Nat.ne_of_gt character.utf8Size_pos
    have inside : memory.startCount < memory.count := by
      apply within
      rw [some]
      exact Option.some_ne_none character
    have shorter : memory.count - memory.startCount =
        memory.count - 1 - memory.startCount + 1 := by omega
    have token := alike.token
    rw [past, shorter, List.take_succ_cons] at token
    rw [TextSource.unread, if_neg wide, past, ByteSource.unread, some]
    refine ⟨Nat.le_sub_one_of_lt inside, ?_⟩
    dsimp only
    rw [token, List.tail_cons]

theorem startToken (memory : TextSource) (bytes : ByteSource) :
    Alike memory.startToken bytes.startToken := by
  refine ⟨Nat.le_refl _, ?_⟩
  dsimp only [TextSource.startToken, ByteSource.startToken]
  rw [Nat.sub_self, List.take_zero]

theorem tokenText_eq (alike : Alike memory bytes) : memory.tokenText = bytes.tokenText := by
  rw [TextSource.tokenText, ByteSource.tokenText, alike.token]

end Alike

open CharSource

/-- What holds of a text in memory and a source of its bytes after the same requests. -/
structure InStep (initial : TextSource) (requests : List Request) (memory : TextSource)
    (bytes : ByteSource) : Prop where
  abreast : Abreast memory bytes
  alike : ¬ ReachesBack initial requests → Alike memory bytes
  /-- The read that can be undone is the last request but for starts and reports. -/
  latest : bytes.last ≠ none → ∃ earlier between, requests = earlier ++ [.read] ++ between ∧
    (CharSource.read (obeyAll initial earlier)).1 ≠ none ∧
    (∀ request ∈ between, request = .startToken ∨ request = .takeFault) ∧
    (.startToken ∉ between → ¬ ReachesBack initial requests → memory.startCount < memory.count)

namespace InStep

variable {initial memory : TextSource} {bytes : ByteSource} {requests : List Request}

theorem read (step : InStep initial requests memory bytes)
    (reached : obeyAll initial requests = memory) :
    InStep initial (requests ++ [.read]) memory.read.2 bytes.read.2 := by
  have former (kept : ¬ ReachesBack initial (requests ++ [.read])) : Alike memory bytes :=
    step.alike fun reaches => kept (reaches.concat (by decide))
  refine ⟨step.abreast.read.2, fun kept => (former kept).read step.abreast, fun undoable => ?_⟩
  cases going : memory.rest with
  | nil =>
    obtain ⟨-, reader, other, -⟩ := step.abreast.read_nil going
    rw [other] at undoable
    exact absurd rfl undoable
  | cons character rest =>
    obtain ⟨found, -⟩ := step.abreast.read_cons going
    refine ⟨requests, [], (List.append_nil _).symm, ?_, nofun, fun _ kept => ?_⟩
    · rw [reached]
      exact found ▸ Option.some_ne_none character
    · rw [TextSource.read, going]
      exact Nat.lt_succ_of_le (former kept).begun

theorem unread (step : InStep initial requests memory bytes) :
    InStep initial (requests ++ [.unread]) memory.unread bytes.unread := by
  refine ⟨step.abreast.unread, fun kept => ?_, fun undoable => ?_⟩
  · have former : ¬ ReachesBack initial requests := fun reaches =>
      kept (reaches.concat (by decide))
    apply (step.alike former).unread step.abreast
    intro undoable
    obtain ⟨earlier, between, rfl, found, idle, within⟩ := step.latest undoable
    apply within _ former
    intro started
    exact kept ⟨earlier, between, [], (List.append_nil _).symm, found, idle, started, nofun⟩
  · apply absurd _ undoable
    cases last : bytes.last with
    | none => rw [ByteSource.unread, last]; exact last
    | some character => rw [ByteSource.unread, last]

theorem startToken (step : InStep initial requests memory bytes) :
    InStep initial (requests ++ [.startToken]) memory.startToken bytes.startToken := by
  refine ⟨step.abreast.startToken, fun _ => Alike.startToken memory bytes, fun undoable => ?_⟩
  obtain ⟨earlier, between, rfl, found, idle, -⟩ := step.latest undoable
  refine ⟨earlier, between ++ [.startToken], List.append_assoc .., found, ?_, fun unstarted => ?_⟩
  · exact List.forall_mem_append.2 ⟨idle, by simp⟩
  · exact absurd (by simp) unstarted

theorem takeFault (step : InStep initial requests memory bytes) :
    InStep initial (requests ++ [.takeFault]) memory bytes.takeFault.2 := by
  have former (kept : ¬ ReachesBack initial (requests ++ [.takeFault])) :
      ¬ ReachesBack initial requests := fun reaches => kept (reaches.concat (by decide))
  refine ⟨step.abreast.takeFault, fun kept => ?_, fun undoable => ?_⟩
  · obtain ⟨begun, token⟩ := step.alike (former kept)
    exact ⟨begun, token⟩
  · obtain ⟨earlier, between, rfl, found, idle, within⟩ := step.latest undoable
    refine ⟨earlier, between ++ [.takeFault], List.append_assoc .., found, ?_,
      fun unstarted kept => within ?_ (former kept)⟩
    · exact List.forall_mem_append.2 ⟨idle, by simp⟩
    · exact fun started => unstarted (List.mem_append_left _ started)

/-- A text and a source of its bytes stay in step whatever is asked of both. -/
theorem obeyAll (text : List Char) {reader : Reader} (whole : reader.bytes = Utf8.encode text)
    (finished : reader.ending = .finished) (requests : List Request) :
    InStep (TextSource.ofList text) requests
      (CharSource.obeyAll (TextSource.ofList text) requests)
      (CharSource.obeyAll (ByteSource.ofReader reader) requests) := by
  induction requests using List.reverseRecOn with
  | nil =>
    exact ⟨Abreast.ofText text whole finished, fun _ => ⟨Nat.le_refl _, rfl⟩,
      fun undoable => absurd rfl undoable⟩
  | append_singleton requests request hypothesis =>
    rw [obeyAll_concat, obeyAll_concat]
    cases request with
    | read => exact hypothesis.read rfl
    | unread => exact hypothesis.unread
    | startToken => exact hypothesis.startToken
    | takeFault => exact hypothesis.takeFault

end InStep

/-- A text in memory and a reader of its bytes agree, unless an unread reaches back. -/
theorem CharSource.obeyAll_agree (text : String) (capacity : Nat) (positive : 0 < capacity)
    (requests : List Request) :
    let reader := Reader.ofBytes capacity positive (Utf8.encode text.toList) .finished
    let memory := obeyAll (TextSource.ofString text) requests
    let bytes := obeyAll (ByteSource.ofReader reader) requests
    (read memory).1 = (read bytes).1 ∧
      byteOffset memory = byteOffset bytes ∧ charOffset memory = charOffset bytes ∧
      (takeFault memory).1 = none ∧ (takeFault bytes).1 = none ∧
      (¬ ReachesBack (TextSource.ofString text) requests → tokenText memory = tokenText bytes) := by
  intro reader memory bytes
  have step : InStep (TextSource.ofString text) requests memory bytes :=
    InStep.obeyAll text.toList rfl rfl requests
  have abreast := step.abreast
  exact ⟨abreast.read.1, abreast.start, abreast.startCount, rfl, abreast.faultless,
    fun kept => (step.alike kept).tokenText_eq⟩

/-- A character taken back over a start is left out in memory and kept by the bytes. -/
theorem CharSource.obeyAll_agree_reaching_back :
    let memory := TextSource.ofString "é€"
    let reader := Reader.ofBytes 1 (by decide) (Utf8.encode "é€".toList) .finished
    let bytes := ByteSource.ofReader reader
    let kept := [.read, .unread, .unread, .read, .read, .unread]
    let reaching := [.read, .startToken, .unread, .read, .read]
    0 < 1 ∧ ¬ ReachesBack memory kept ∧
      tokenText (obeyAll memory kept) = tokenText (obeyAll bytes kept) ∧
      tokenText (obeyAll bytes kept) = "é" ∧
      ReachesBack memory reaching ∧
      charOffset (obeyAll memory reaching) = charOffset (obeyAll bytes reaching) ∧
      tokenText (obeyAll memory reaching) = "€" ∧ tokenText (obeyAll bytes reaching) = "é€" := by
  intro memory reader bytes kept reaching
  have unreached : ¬ ReachesBack memory kept := by
    rintro ⟨earlier, between, later, split, -, -, started, -⟩
    have present : .startToken ∈ kept := by
      rw [split]
      simp [started]
    exact absurd present (by decide)
  obtain ⟨-, -, -, -, -, text⟩ := obeyAll_agree "é€" 1 (by decide) kept
  obtain ⟨-, -, place, -⟩ := obeyAll_agree "é€" 1 (by decide) reaching
  have reached : ReachesBack memory reaching :=
    ⟨[], [.startToken], [.read, .read], rfl, by decide, by decide, by decide, by decide⟩
  exact ⟨by decide, unreached, text unreached, by cbv, reached, place, by cbv, by cbv⟩

end Fluent
