/-
This file proves that the interleaving of reads and unreads does not change what is read.
-/

import Fluent.Proofs.Source.Decoding

namespace Fluent

/-- What a source can be asked for. -/
inductive Request where
  | read
  | unread
  | startToken
  | takeFault
  deriving DecidableEq, Repr

/-- What has come of the requests to a source, as the one who makes them can tell. -/
structure Account where
  /-- The characters obtained, each once, however often it was taken back and delivered again. -/
  obtained : List Char
  /-- The character of the last read, as long as it can be taken back. -/
  last : Option Char
  /-- The character taken back, until it is delivered again. -/
  back : Option Char
  /-- Whether a read has found nothing. -/
  ended : Bool
  reports : List Fault
  deriving DecidableEq, Repr

namespace Account

def empty : Account :=
  ⟨[], none, none, false, []⟩

def read (found : Option Char) (account : Account) : Account :=
  { account with
    obtained := if account.back.isSome then account.obtained else account.obtained ++ found.toList
    last := found
    back := none
    ended := account.ended || found.isNone }

def unread (account : Account) : Account :=
  match account.last with
  | none => account
  | some character => { account with last := none, back := some character }

def report (fault : Option Fault) (account : Account) : Account :=
  { account with reports := account.reports ++ fault.toList }

theorem read_none {account : Account} (fresh : account.back = none) :
    account.read none = ⟨account.obtained, none, none, true, account.reports⟩ := by
  simp [read, fresh]

theorem read_some {account : Account} (fresh : account.back = none) (character : Char) :
    account.read (some character) =
      ⟨account.obtained ++ [character], some character, none, account.ended, account.reports⟩ := by
  simp [read, fresh]

end Account

namespace ByteSource

/-- Makes a request to a source and keeps account of it. -/
def serve : Request → ByteSource × Account → ByteSource × Account
  | .read, (source, account) => (source.read.2, account.read source.read.1)
  | .unread, (source, account) => (source.unread, account.unread)
  | .startToken, (source, account) => (source.startToken, account)
  | .takeFault, (source, account) => (source.takeFault.2, account.report source.takeFault.1)

def serveAll : List Request → ByteSource × Account → ByteSource × Account
  | [], state => state
  | request :: requests, state => serveAll requests (serve request state)

/-- A source and the account of it agree about a text and the fault that comes behind it. -/
structure Tracks (text : List Char) (fault : Option Fault) (source : ByteSource)
    (account : Account) : Prop where
  obtained : account.obtained <+: text
  last : source.last = account.last
  back : source.pushedBack = account.back
  /-- Only the latest character is taken back. -/
  latest : ∀ character, account.last = some character ∨ account.back = some character →
    account.obtained.getLast? = some character
  once : account.last.isSome → account.back = none
  /-- A character that was taken back is not counted in. -/
  offset : source.offset + (account.back.elim 0 Char.utf8Size) = Utf8.size account.obtained
  coming : source.failed = false → source.fault = none ∧
    upcoming (Utf8.size account.obtained) source.reader =
      (text.drop account.obtained.length, fault)
  failed : source.failed = true → account.ended = true
  ended : account.ended = true → account.obtained = text ∧ account.last = none ∧
    account.back = none ∧ (source.failed = false → fault = none)
  reports : account.reports ++ source.fault.toList =
    if account.ended = true then fault.toList else []

namespace Tracks

variable {text : List Char} {fault : Option Fault} {source : ByteSource} {account : Account}

theorem ofReader (reader : Reader) :
    Tracks (upcoming 0 reader).1 (upcoming 0 reader).2 (ByteSource.ofReader reader) .empty where
  obtained := List.nil_prefix
  last := rfl
  back := rfl
  latest := by simp [Account.empty]
  once := nofun
  offset := rfl
  coming _ := ⟨rfl, rfl⟩
  failed := nofun
  ended := nofun
  reports := rfl

theorem startToken (tracks : Tracks text fault source account) :
    Tracks text fault source.startToken account :=
  { tracks with }

theorem takeFault (tracks : Tracks text fault source account) :
    Tracks text fault source.takeFault.2 (account.report source.takeFault.1) :=
  { tracks with
    coming := fun going => ⟨rfl, (tracks.coming going).2⟩
    reports := by
      show account.reports ++ source.fault.toList ++ [] = _
      rw [List.append_nil, tracks.reports]
      rfl }

/-- Where a character can be taken back or was, no read has found nothing. -/
theorem not_ended {character : Char} (tracks : Tracks text fault source account)
    (known : account.last = some character ∨ account.back = some character) :
    account.ended ≠ true := by
  intro ended
  obtain ⟨-, last, back, -⟩ := tracks.ended ended
  rw [last, back] at known
  rcases known with known | known <;> cases known

theorem unread (tracks : Tracks text fault source account) :
    Tracks text fault source.unread account.unread := by
  have last := tracks.last
  cases known : account.last with
  | none =>
    rw [known] at last
    rwa [ByteSource.unread, Account.unread, last, known]
  | some character =>
    have none := tracks.once (by rw [known]; rfl)
    have latest := tracks.latest character (.inl known)
    have unended := tracks.not_ended (.inl known)
    have offset := tracks.offset
    obtain ⟨before, split⟩ := List.getLast?_eq_some_iff.1 latest
    rw [none, split, Utf8.size_append, Utf8.size_cons, Utf8.size_nil] at offset
    rw [known] at last
    rw [ByteSource.unread, Account.unread, last, known]
    exact { tracks with
      last := rfl
      back := rfl
      latest := by rintro other (same | same) <;> simp_all
      once := fun some => by cases some
      offset := by
        show source.offset - character.utf8Size + character.utf8Size = _
        rw [split, Utf8.size_append, Utf8.size_cons, Utf8.size_nil]
        simp only [Option.elim_none] at offset
        omega
      ended := fun ended => absurd ended unended }

/-- A character that was taken back is delivered again. -/
theorem read_back {character : Char} (tracks : Tracks text fault source account)
    (known : account.back = some character) :
    source.read.1 = account.obtained.getLast? ∧
      Tracks text fault source.read.2 (account.read source.read.1) := by
  have back := tracks.back
  have latest := tracks.latest character (.inr known)
  have offset := tracks.offset
  have unended := tracks.not_ended (.inr known)
  have stays : (account.ended || (some character).isNone) = account.ended := Bool.or_false _
  rw [known] at back offset
  rw [ByteSource.read, back, Account.read, known]
  refine ⟨latest.symm, ?_⟩
  exact { tracks with
    last := rfl
    back := rfl
    latest := by
      rintro other (same | same)
      · exact same ▸ latest
      · cases same
    once := fun _ => rfl
    offset := offset
    failed := fun broken => absurd (tracks.failed broken) unended
    ended := fun ended => absurd (stays ▸ ended) unended
    reports := by
      rw [stays]
      exact tracks.reports }

/-- A source of which a read has found nothing. -/
theorem of_ended {reports : List Fault} (last : source.last = none)
    (back : source.pushedBack = none) (offset : source.offset = Utf8.size text)
    (coming : source.failed = false → source.fault = none ∧ fault = none ∧
      upcoming (Utf8.size text) source.reader = ([], none))
    (reported : reports ++ source.fault.toList = fault.toList) :
    Tracks text fault source ⟨text, none, none, true, reports⟩ where
  obtained := List.prefix_rfl
  last := last
  back := back
  latest := by simp
  once := nofun
  offset := offset
  coming going := by
    obtain ⟨pending, none, ended⟩ := coming going
    exact ⟨pending, by rw [none, ended, List.drop_length]⟩
  failed _ := rfl
  ended _ := ⟨rfl, rfl, rfl, fun going => (coming going).2.1⟩
  reports := reported

/-- A source that has delivered one more character of the text. -/
theorem delivered {character : Char} {later : List Char} {reader : Reader}
    (tracks : Tracks text fault source account) (known : account.back = none)
    (going : source.failed = false) (split : account.obtained ++ character :: later = text)
    (coming : upcoming (source.offset + character.utf8Size) reader = (later, fault)) :
    Tracks text fault (ByteSource.deliver character { source with reader })
      ⟨account.obtained ++ [character], some character, none, account.ended, account.reports⟩ := by
  have back := tracks.back
  have offset := tracks.offset
  rw [known] at back offset
  have sized : Utf8.size (account.obtained ++ [character]) =
      source.offset + character.utf8Size := by
    rw [Utf8.size_append, ← offset]
    rfl
  rw [List.append_cons] at split
  have dropped : text.drop (account.obtained ++ [character]).length = later := by
    rw [← split, List.drop_left]
  have unended : account.ended ≠ true := fun ended => by
    have whole := (tracks.ended ended).1
    rw [← split] at whole
    simp at whole
  exact
    { obtained := ⟨later, split⟩
      last := rfl
      back := back
      latest := by rintro other (same | same) <;> simp_all
      once := fun _ => rfl
      offset := sized.symm
      coming := fun _ => ⟨(tracks.coming going).1, by rw [sized, dropped]; exact coming⟩
      failed := fun broken => by cases going.symm.trans broken
      ended := fun ended => absurd ended unended
      reports := tracks.reports }

/-- What a read finds where nothing was taken back: the next character of the text. -/
theorem read_fresh (tracks : Tracks text fault source account) (known : account.back = none) :
    source.read.1 = text[account.obtained.length]? ∧
      Tracks text fault source.read.2 (account.read source.read.1) := by
  obtain ⟨later, split⟩ := tracks.obtained
  have next : text[account.obtained.length]? = later.head? := by
    rw [← split, List.getElem?_append_right (Nat.le_refl _), Nat.sub_self, List.head?_eq_getElem?]
  have dropped : text.drop account.obtained.length = later := by rw [← split, List.drop_left]
  have back := tracks.back
  have offset := tracks.offset
  rw [known] at back offset
  change source.offset = _ at offset
  rw [next]
  cases failed : source.failed with
  | true =>
    have ended := tracks.failed failed
    have whole := (tracks.ended ended).1
    have reports := tracks.reports
    have found : source.read = (none, { source with last := none }) := by
      simp only [ByteSource.read, back, failed, if_true]
    obtain rfl : later = [] := by simpa [whole] using split
    rw [ended, if_pos rfl] at reports
    rw [found, Account.read_none known, whole]
    refine ⟨rfl, of_ended rfl back (whole ▸ offset) (fun going => ?_) reports⟩
    cases failed.symm.trans going
  | false =>
    obtain ⟨pending, coming⟩ := tracks.coming failed
    rw [dropped, upcoming_eq, ← offset] at coming
    have reports := tracks.reports
    rw [pending, Option.toList_none, List.append_nil] at reports
    rcases decoded : decode source.offset source.reader with ⟨failure | _ | character, reader⟩
    · have found : source.read =
          (none, { source with reader, last := none, failed := true, fault := some failure }) := by
        simp only [ByteSource.read, back, failed, decoded, if_false, Bool.false_eq_true]
      rw [decoded] at coming
      obtain ⟨rfl, rfl⟩ := Prod.mk.inj coming
      have unended : account.ended ≠ true := fun ended => by
        cases (tracks.ended ended).2.2.2 failed
      rw [if_neg unended] at reports
      rw [List.append_nil] at split
      rw [found, Account.read_none known, split, reports]
      refine ⟨rfl, of_ended rfl back (split ▸ offset) (fun going => ?_) rfl⟩
      cases going
    · have found : source.read = (none, { source with reader, last := none }) := by
        simp only [ByteSource.read, back, failed, decoded, if_false, Bool.false_eq_true]
      rw [decoded] at coming
      obtain ⟨rfl, rfl⟩ := Prod.mk.inj coming
      have none : account.reports = [] := by simpa using reports
      rw [List.append_nil] at split
      rw [found, Account.read_none known, split, none]
      refine ⟨rfl, of_ended rfl back (split ▸ offset) (fun _ => ⟨pending, rfl, ?_⟩) ?_⟩
      · rw [upcoming_eq, decode_of_ended decoded]
      · rw [pending]
        rfl
    · have found : source.read = (some character, deliver character { source with reader }) := by
        simp only [ByteSource.read, back, failed, decoded, if_false, Bool.false_eq_true]
      rw [decoded] at coming
      obtain ⟨rfl, rfl⟩ := Prod.mk.inj coming
      rw [found, Account.read_some known]
      exact ⟨rfl, tracks.delivered known failed split rfl⟩

/-- What a read finds: the character taken back, or else the next one of the text. -/
theorem read (tracks : Tracks text fault source account) :
    (source.read.1 = if account.back.isSome then account.obtained.getLast?
        else text[account.obtained.length]?) ∧
      Tracks text fault source.read.2 (account.read source.read.1) := by
  cases known : account.back with
  | some character => exact tracks.read_back known
  | none => exact tracks.read_fresh known

theorem serve (tracks : Tracks text fault source account) (request : Request) :
    Tracks text fault (ByteSource.serve request (source, account)).1
      (ByteSource.serve request (source, account)).2 := by
  cases request with
  | read => exact tracks.read.2
  | unread => exact tracks.unread
  | startToken => exact tracks.startToken
  | takeFault => exact tracks.takeFault

theorem serveAll (tracks : Tracks text fault source account) (requests : List Request) :
    Tracks text fault (ByteSource.serveAll requests (source, account)).1
      (ByteSource.serveAll requests (source, account)).2 := by
  induction requests generalizing source account with
  | nil => exact tracks
  | cons request requests hypothesis => exact hypothesis (tracks.serve request)

end Tracks

/-- The longest text at the front of the bytes is obtained, and then one fault at most. -/
theorem serveAll_decodes (capacity : Nat) (positive : 0 < capacity) (bytes : List UInt8)
    (ending : Ending) :
    ∃ text rest fault, bytes = Utf8.encode text ++ rest ∧
      (∀ other, Utf8.encode other <+: bytes → other <+: text) ∧
      Breaks (Utf8.size text) ending rest fault ∧
      (∀ other, Breaks (Utf8.size text) ending rest other → other = fault) ∧
      ∀ requests,
        let reader := Reader.ofBytes capacity positive bytes ending
        let (source, account) := serveAll requests (ByteSource.ofReader reader, .empty)
        account.obtained <+: text ∧
        (account.ended = true → account.obtained = text ∧ source.read.1 = none) ∧
        (source.read.1 = if account.back.isSome then account.obtained.getLast?
          else text[account.obtained.length]?) ∧
        account.reports ++ source.takeFault.1.toList =
          if account.ended = true then fault.toList else [] := by
  have tracks := Tracks.ofReader (Reader.ofBytes capacity positive bytes ending)
  obtain ⟨rest, split, breaks⟩ :=
    upcoming_breaks 0 (Reader.ofBytes capacity positive bytes ending)
  rw [Nat.zero_add] at breaks
  generalize (upcoming 0 _).1 = text at tracks split breaks
  generalize (upcoming 0 _).2 = fault at tracks breaks
  have longest (other : List Char) (before : Utf8.encode other <+: bytes) : other <+: text :=
    Utf8.isPrefix_of_stuck breaks.stuck (split ▸ before)
  refine ⟨text, rest, fault, split, longest, breaks, fun other => breaks.unique, ?_⟩
  intro requests reader
  have tracked := tracks.serveAll requests
  generalize serveAll requests (ByteSource.ofReader reader, .empty) = state at tracked
  obtain ⟨source, account⟩ := state
  have found := tracked.read.1
  refine ⟨tracked.obtained, fun ended => ?_, found, tracked.reports⟩
  obtain ⟨whole, -, nothing, -⟩ := tracked.ended ended
  refine ⟨whole, found.trans ?_⟩
  rw [nothing, whole]
  simp

theorem serveAll_decodes_truncated :
    let reader := Reader.ofBytes 2 (by decide) [0x61, 0xE2, 0x82] .finished
    let requests := [.read, .takeFault, .unread, .read, .read, .takeFault, .read, .takeFault]
    0 < 2 ∧
      (serveAll requests (ByteSource.ofReader reader, .empty)).2 =
        ⟨['a'], none, none, true, [.truncated]⟩ ∧
      ∃ text, (∀ other, Utf8.encode other <+: [0x61, 0xE2, 0x82] → other <+: text) ∧
        ∀ requests,
          (serveAll requests (ByteSource.ofReader reader, .empty)).2.obtained <+: text := by
  obtain ⟨text, rest, fault, split, longest, breaks, unique, served⟩ :=
    serveAll_decodes 2 (by decide) [0x61, 0xE2, 0x82] .finished
  exact ⟨by decide, by decide, text, longest, fun requests => (served requests).1⟩

end ByteSource

end Fluent
