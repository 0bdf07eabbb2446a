/-
This file proves that a failure of the input comes last among the tokens.
-/

import Fluent.Proofs.Lexer.Truncation
import Fluent.Proofs.Source.Decoding

namespace Fluent

open Viewed (Shows)

namespace View

/-- The view of the text alone. -/
def calm (view : View) : View :=
  { view with tail := .sound }

/-- What is left of a view is a text that the given fault cuts short, if any. -/
def Ends (fault : Option Fault) (view : View) : Prop :=
  view.tail = Tail.ofFault fault ∨ view.tail = Tail.ofPending fault ∧ view.ahead = []

/-- Nothing is left of a view, neither text nor a fault. -/
structure Exhausted (view : View) : Prop where
  ahead : view.ahead = []
  tail : view.tail = .sound

/-- The fault that a view has met, or else the given item. -/
def settle (item : Option (Except Error Token)) (view : View) :
    Option (Except Error Token) × View :=
  match view.takeFault with
  | (some fault, after) => (some (.error (.transport fault)), after)
  | (none, after) => (item, after)

/-- The token of a view, taken as illegal. -/
def illegal (view : View) : Except Error Token :=
  .error (.lexical ⟨String.ofList view.token, view.byteStart, view.charStart⟩)

/-- What a view yields next, and what is left of it then. -/
def next (view : View) : Option (Except Error Token) × View :=
  let after := view.afterBlanks.afterToken
  match (Lexer.readToken view.afterBlanks.ahead).kind with
  | .finish => after.settle none
  | .illegal => after.settle (some after.illegal)
  | kind => (some (.ok ⟨kind, String.ofList after.token⟩), after)

variable {view : View} {fault : Option Fault}

theorem calm_afterToken (view : View) : view.calm.afterToken = view.afterToken.calm := by
  cases ended : (Lexer.readToken view.ahead).ended <;>
    simp [calm, afterToken, consume, startToken, Tail.reach, ended]

theorem calm_afterBlanks (view : View) : view.calm.afterBlanks = view.afterBlanks.calm := by
  rw [afterBlanks, afterBlanks, calm_afterToken]
  show (if (Lexer.readToken view.ahead).kind = .blank then _ else _) = _
  split <;> rfl

/-- A token that ends with the text has met the fault, and no other has. -/
theorem Ends.afterToken_cases (ends : view.Ends fault) :
    if (Lexer.readToken view.ahead).ended then
      view.afterToken.tail = Tail.ofPending fault ∧ view.afterToken.ahead = []
    else view.afterToken.tail = Tail.ofFault fault := by
  have tail : view.afterToken.tail =
      if (Lexer.readToken view.ahead).ended then view.tail.reach else view.tail := rfl
  split
  next ended =>
    rw [tail, if_pos ended]
    constructor
    · rcases ends with unmet | ⟨met, -⟩
      · rw [unmet]
        cases fault <;> rfl
      · rw [met]
        cases fault <;> rfl
    · show (Lexer.readToken view.ahead).rest = []
      cases ahead : view.ahead with
      | nil => rfl
      | cons character rest =>
        rw [ahead] at ended
        exact (Lexer.readToken_of_ended ended []).1
  next going =>
    rw [tail, if_neg going]
    refine ends.resolve_right fun met => going ?_
    rw [met.2]
    rfl

theorem Ends.afterToken (ends : view.Ends fault) : view.afterToken.Ends fault := by
  have cases := ends.afterToken_cases
  split at cases
  · exact .inr cases
  · exact .inl cases

theorem Ends.afterBlanks (ends : view.Ends fault) : view.afterBlanks.Ends fault := by
  rw [View.afterBlanks]
  split
  · exact ends.afterToken
  · exact ends

theorem settle_of_pending (tail : view.tail = Tail.ofPending fault)
    (item : Option (Except Error Token)) :
    view.settle item = ((fault.map fun met => .error (.transport met)).or item, view.calm) := by
  rw [settle, takeFault_of_pending tail]
  cases fault <;> rfl

theorem settle_of_fault (tail : view.tail = Tail.ofFault fault)
    (item : Option (Except Error Token)) : view.settle item = (item, view) := by
  rw [settle, takeFault_of_fault tail]

theorem next_of_finish (finish : (Lexer.readToken view.afterBlanks.ahead).kind = .finish) :
    view.next = view.afterBlanks.afterToken.settle none := by
  simp only [next, finish]

theorem next_of_illegal (refused : (Lexer.readToken view.afterBlanks.ahead).kind = .illegal) :
    view.next =
      view.afterBlanks.afterToken.settle (some view.afterBlanks.afterToken.illegal) := by
  simp only [next, refused]

theorem next_of_proper (going : (Lexer.readToken view.afterBlanks.ahead).kind ≠ .finish)
    (accepted : (Lexer.readToken view.afterBlanks.ahead).kind ≠ .illegal) :
    view.next =
      (some (.ok ⟨(Lexer.readToken view.afterBlanks.ahead).kind,
        String.ofList view.afterBlanks.afterToken.token⟩), view.afterBlanks.afterToken) := by
  rw [next]
  split
  next finish => exact absurd finish going
  next refused => exact absurd refused accepted
  next => rfl

/-- The text alone has the tokens that the view has, and settles as it would without a fault. -/
theorem next_calm (view : View) :
    view.calm.next =
      let after := view.afterBlanks.afterToken.calm
      match (Lexer.readToken view.afterBlanks.ahead).kind with
      | .finish => (none, after)
      | .illegal => (some view.afterBlanks.afterToken.illegal, after)
      | kind => (some (.ok ⟨kind, String.ofList view.afterBlanks.afterToken.token⟩), after) := by
  rw [next, calm_afterBlanks, calm_afterToken]
  rfl

/-- A view yields what its text alone yields, and at the end of it its fault. -/
theorem next_of_ends (ends : view.Ends fault) :
    (∃ item after, view.next = (some item, after) ∧ view.calm.next = (some item, after.calm) ∧
        after.Ends fault ∧ ∀ met, item ≠ .error (.transport met)) ∨
      ∃ item after, view.next = (fault.map fun met => .error (.transport met), after) ∧
        view.calm.next = (item, after) ∧ after.Exhausted ∧ (fault = none → item = none) := by
  have behind := ends.afterBlanks.afterToken
  have settled := ends.afterBlanks.afterToken_cases
  by_cases finish : (Lexer.readToken view.afterBlanks.ahead).kind = .finish
  · rw [Lexer.eq_nil_of_kind_finish finish] at settled
    obtain ⟨met, left⟩ := settled
    refine .inr ⟨none, view.afterBlanks.afterToken.calm, ?_, ?_, ⟨left, rfl⟩, fun _ => rfl⟩
    · rw [next_of_finish finish, settle_of_pending met, Option.or_none]
    · simp only [next_calm, finish]
  by_cases refused : (Lexer.readToken view.afterBlanks.ahead).kind = .illegal
  · have calm : view.calm.next = (some view.afterBlanks.afterToken.illegal,
        view.afterBlanks.afterToken.calm) := by
      simp only [next_calm, refused]
    rw [next_of_illegal refused]
    split at settled
    · obtain ⟨met, left⟩ := settled
      rw [settle_of_pending met]
      cases fault with
      | none => exact .inl ⟨_, _, rfl, calm, .inl rfl, nofun⟩
      | some fault => exact .inr ⟨_, _, rfl, calm, ⟨left, rfl⟩, nofun⟩
    · rw [settle_of_fault settled]
      exact .inl ⟨_, _, rfl, calm, behind, nofun⟩
  · refine .inl ⟨_, _, next_of_proper finish refused, ?_, behind, nofun⟩
    rw [next_calm]
    dsimp only
    split
    next ended => exact absurd ended finish
    next illegal => exact absurd illegal refused
    next => rfl

/-- Where nothing is left, nothing comes. -/
theorem Exhausted.next (exhausted : view.Exhausted) :
    view.next.1 = none ∧ view.next.2.Exhausted := by
  obtain ⟨ahead, tail⟩ := exhausted
  have start : view.afterBlanks = view := by
    rw [afterBlanks, ahead]
    exact if_neg (by decide)
  have ends : view.Ends none := .inl tail
  have settled := ends.afterToken_cases
  rw [ahead] at settled
  obtain ⟨sound, left⟩ := settled
  rw [next_of_finish (by rw [start, ahead]; rfl), start, settle_of_pending sound]
  exact ⟨rfl, left, rfl⟩

end View

namespace Scanner

variable {σ τ : Type} [CharSource σ] [Viewed σ] [CharSource τ] [Viewed τ] {source : σ}
  {other : τ} {view : View}

/-- The fault of a source settles an item as that of its view does. -/
theorem takeFault_shows (shown : Shows source view) {fault : Option Fault} {after : σ}
    (taken : CharSource.takeFault source = (fault, after))
    (item : Option (Except Error Token)) :
    ∃ left, view.settle item = ((fault.map fun met => .error (.transport met)).or item, left) ∧
      Shows after left ∧ (fault = none → left = view) := by
  obtain ⟨same, left⟩ := Viewed.takeFault shown
  rw [taken] at same left
  rw [View.settle]
  rcases takenView : view.takeFault with ⟨pending, calmed⟩
  rw [takenView] at same left
  obtain rfl : fault = pending := same
  refine ⟨calmed, ?_, left, ?_⟩
  · cases fault <;> rfl
  · rintro rfl
    rw [View.takeFault] at takenView
    split at takenView <;> cases takenView
    rfl

/-- A refused token is settled as that of the view is. -/
theorem lexicalError_shows (shown : Shows source view) :
    some (.error (lexicalError source).1) = (view.settle (some view.illegal)).1 ∧
      Shows (lexicalError source).2 (view.settle (some view.illegal)).2 := by
  rw [lexicalError]
  rcases taken : CharSource.takeFault source with ⟨fault, after⟩
  obtain ⟨left, settled, shownLeft, unmet⟩ := takeFault_shows shown taken (some view.illegal)
  rw [settled]
  cases fault with
  | some fault => exact ⟨rfl, shownLeft⟩
  | none =>
    obtain rfl := unmet rfl
    have place : illegal after = ⟨String.ofList left.token, left.byteStart, left.charStart⟩ := by
      unfold illegal
      rw [Viewed.tokenText shownLeft, Viewed.byteOffset shownLeft, Viewed.charOffset shownLeft]
    dsimp only
    rw [place]
    exact ⟨rfl, shownLeft⟩

/-- A source yields what its view yields. -/
theorem next_shows (shown : Shows source view) :
    (next source).1 = view.next.1 ∧ Shows (next source).2 view.next.2 := by
  obtain ⟨kind, after⟩ := scan_shows shown
  rw [next]
  rcases scanned : scan true source with ⟨found, left⟩
  rw [scanned] at kind after
  dsimp only at kind after
  split
  next same =>
    cases same
    rcases taken : CharSource.takeFault left with ⟨fault, rest⟩
    obtain ⟨last, settled, shownLast, -⟩ := takeFault_shows after taken none
    rw [View.next_of_finish kind.symm, settled]
    cases fault <;> exact ⟨rfl, shownLast⟩
  next same =>
    cases same
    rw [View.next_of_illegal kind.symm]
    exact lexicalError_shows after
  next going accepted same =>
    cases same
    rw [kind] at going accepted
    rw [View.next_of_proper going accepted, kind, Viewed.tokenText after]
    exact ⟨rfl, after⟩

/-- What so many calls of `next` yield, one after the other. -/
def nexts {σ : Type} [CharSource σ] : Nat → σ → List (Option (Except Error Token))
  | 0, _ => []
  | count + 1, source => (next source).1 :: nexts count (next source).2

theorem nexts_of_exhausted (shown : Shows source view) (exhausted : view.Exhausted)
    (count : Nat) : nexts count source = List.replicate count none := by
  induction count generalizing source view with
  | zero => rfl
  | succ count hypothesis =>
    obtain ⟨nothing, left⟩ := exhausted.next
    obtain ⟨same, after⟩ := next_shows shown
    rw [nexts, hypothesis after left, same, nothing]
    rfl

theorem tokens_of_none {σ : Type} [CharSource σ] {source after : σ}
    (ended : next source = (none, after)) : tokens source = ([], after) := by
  rw [tokens]
  split
  next same => rw [ended] at same; cases same; rfl
  next same => rw [ended] at same; cases same

theorem tokens_of_some {σ : Type} [CharSource σ] {source after : σ} {item : Except Error Token}
    (found : next source = (some item, after)) :
    tokens source = (item :: (tokens after).1, (tokens after).2) := by
  rw [tokens]
  split
  next same => rw [found] at same; cases same
  next same => rw [found] at same; cases same; rfl

theorem tokens_of_exhausted (shown : Shows source view) (exhausted : view.Exhausted) :
    (tokens source).1 = [] ∧ ∃ last : View, Shows (tokens source).2 last ∧ last.Exhausted := by
  obtain ⟨nothing, left⟩ := exhausted.next
  obtain ⟨same, after⟩ := next_shows shown
  have ended : next source = (none, (next source).2) := Prod.ext (same.trans nothing) rfl
  rw [tokens_of_none ended]
  exact ⟨rfl, _, after, left⟩

/-- A source yields the items of its text, and its fault comes last. -/
theorem tokens_of_ends {fault : Option Fault} (shown : Shows source view)
    (shownCalm : Shows other view.calm) (ends : view.Ends fault) :
    ∃ before left, (tokens source).1 = before ++ fault.toList.map (.error ∘ .transport) ∧
      (tokens other).1 = before ++ left ∧ (fault = none → left = []) ∧
      (∀ item ∈ before, ∀ met, item ≠ .error (.transport met)) ∧
      ∃ last : View, Shows (tokens source).2 last ∧ last.Exhausted := by
  induction source using tokens.induct generalizing view other with
  | case1 source after found =>
    obtain ⟨same, shownAfter⟩ := next_shows shown
    obtain ⟨sameCalm, -⟩ := next_shows shownCalm
    rw [found] at same shownAfter
    rw [tokens_of_none found]
    rcases View.next_of_ends ends with
      ⟨item, left, yields, -⟩ | ⟨item, left, yields, calm, rest, complete⟩
    · rw [yields] at same
      cases same
    · rw [yields] at same shownAfter
      obtain rfl := Option.map_eq_none_iff.1 same.symm
      have ended : next other = (none, (next other).2) :=
        Prod.ext (sameCalm.trans ((congrArg Prod.fst calm).trans (complete rfl))) rfl
      rw [tokens_of_none ended]
      exact ⟨[], [], rfl, rfl, fun _ => rfl, List.forall_mem_nil _, left, shownAfter, rest⟩
  | case2 source item after found items final later hypothesis =>
    obtain ⟨same, shownAfter⟩ := next_shows shown
    obtain ⟨sameCalm, shownCalmAfter⟩ := next_shows shownCalm
    rw [found] at same shownAfter
    rw [tokens_of_some found]
    rcases View.next_of_ends ends with
      ⟨yielded, left, yields, calm, endsLeft, sound⟩ | ⟨yielded, left, yields, calm, rest, -⟩
    · rw [yields] at same shownAfter
      obtain rfl : item = yielded := Option.some.inj same
      rw [calm] at sameCalm shownCalmAfter
      have foundCalm : next other = (some item, (next other).2) := Prod.ext sameCalm rfl
      rw [tokens_of_some foundCalm]
      obtain ⟨before, others, items, itemsCalm, whole, faultless, last, shownLast, exhausted⟩ :=
        hypothesis shownAfter shownCalmAfter endsLeft
      exact ⟨item :: before, others, by rw [items]; rfl, by rw [itemsCalm]; rfl, whole,
        List.forall_mem_cons.2 ⟨sound, faultless⟩, last, shownLast, exhausted⟩
    · rw [yields] at same shownAfter
      obtain ⟨met, rfl, rfl⟩ := Option.map_eq_some_iff.1 same.symm
      obtain ⟨nothing, last⟩ := tokens_of_exhausted shownAfter rest
      exact ⟨[], (tokens other).1, by rw [nothing]; rfl, rfl, nofun,
        List.forall_mem_nil _, last⟩

/-- The calls of `next` yield the items, and then nothing for ever. -/
theorem nexts_eq {last : View} (shown : Shows (tokens source).2 last)
    (exhausted : last.Exhausted) (count : Nat) :
    nexts ((tokens source).1.length + count) source =
      (tokens source).1.map some ++ List.replicate count none := by
  induction source using tokens.induct with
  | case1 source after ended =>
    rw [tokens_of_none ended] at shown ⊢
    rw [List.length_nil, Nat.zero_add, List.map_nil, List.nil_append]
    cases count with
    | zero => rfl
    | succ count =>
      rw [nexts, ended, nexts_of_exhausted shown exhausted]
      rfl
  | case2 source item after found items final later hypothesis =>
    rw [tokens_of_some found] at shown ⊢
    rw [List.length_cons, Nat.succ_add, nexts, found, hypothesis shown]
    rfl

end Scanner

/-- An input fails if its reader does, or if its bytes are those of no text. -/
theorem Breaks.ne_none_iff {rest : List UInt8} {text : List Char} {position : Nat}
    {ending : Ending} {fault : Option Fault} (breaks : Breaks position ending rest fault) :
    fault ≠ none ↔
      ending ≠ .finished ∨ ∀ whole, Utf8.encode whole ≠ Utf8.encode text ++ rest := by
  have foreign (missing : rest ≠ []) : ∀ whole, Utf8.encode whole ≠ Utf8.encode text ++ rest := by
    intro whole same
    have part : whole <+: text :=
      Utf8.isPrefix_of_stuck breaks.stuck (same ▸ List.prefix_rfl)
    obtain ⟨later, rfl⟩ := part
    rw [Utf8.encode_append, List.append_assoc] at same
    have nothing := List.self_eq_append_right.1 same
    exact missing (List.append_eq_nil_iff.1 nothing).2
  cases breaks with
  | finished done => simp [done]
  | failed failing | cut _ _ failing => simp [failing]
  | lead | truncated | tail => exact iff_of_true nofun (.inr (foreign (List.cons_ne_nil _ _)))

/-- Whether two items are the same can be decided. -/
instance Scanner.decidableEqItem : DecidableEq (Except Error Token)
  | .ok first, .ok second =>
    decidable_of_iff (first = second) ⟨congrArg Except.ok, Except.ok.inj⟩
  | .error first, .error second =>
    decidable_of_iff (first = second) ⟨congrArg Except.error, Except.error.inj⟩
  | .ok _, .error _ => .isFalse nofun
  | .error _, .ok _ => .isFalse nofun

/-- A failure of the input comes once and last among the items, behind those of its text. -/
theorem Scanner.tokens_of_failing_input (capacity : Nat) (positive : 0 < capacity)
    (bytes : List UInt8) (ending : Ending) :
    let source := ByteSource.ofReader (.ofBytes capacity positive bytes ending)
    let items := (tokens source).1
    ∃ text rest fault before, bytes = Utf8.encode text ++ rest ∧
      (∀ other, Utf8.encode other <+: bytes → other <+: text) ∧
      Breaks (Utf8.size text) ending rest fault ∧
      ((∃ met, .error (.transport met) ∈ items) ↔
        ending ≠ .finished ∨ ∀ whole, Utf8.encode whole ≠ bytes) ∧
      items = before ++ fault.toList.map (.error ∘ .transport) ∧
      (∀ item ∈ before, ∀ met, item ≠ .error (.transport met)) ∧
      before <+: (tokens (TextSource.ofList text)).1 ∧
      (fault = none → before = (tokens (TextSource.ofList text)).1) ∧
      ∀ count, nexts (items.length + count) source =
        items.map some ++ List.replicate count none := by
  intro source items
  let reader := Reader.ofBytes capacity positive bytes ending
  obtain ⟨rest, split, breaks⟩ := ByteSource.upcoming_breaks 0 reader
  have shown : Shows source (View.ofReader reader) := ByteSource.ofReader_shows reader
  have shownText : Shows (TextSource.ofList (ByteSource.upcoming 0 reader).1)
      (View.ofReader reader).calm := TextSource.ofList_shows _
  obtain ⟨before, left, whole, wholeText, complete, faultless, last, shownLast, exhausted⟩ :=
    tokens_of_ends shown shownText (.inl rfl)
  rw [Nat.zero_add] at breaks
  have same : bytes = Utf8.encode (ByteSource.upcoming 0 reader).1 ++ rest := split
  refine ⟨_, rest, _, before, same, fun other part => ?_, breaks, ?_, whole, faultless,
    ⟨left, wholeText.symm⟩, fun unbroken => ?_, nexts_eq shownLast exhausted⟩
  · exact Utf8.isPrefix_of_stuck breaks.stuck (same ▸ part)
  · rw [same, show items = _ from whole]
    refine Iff.trans ⟨?_, ?_⟩ breaks.ne_none_iff
    · rintro ⟨met, present⟩ unbroken
      rw [unbroken, Option.toList_none, List.map_nil, List.append_nil] at present
      exact faultless _ present met rfl
    · intro failed
      obtain ⟨met, fault⟩ := Option.ne_none_iff_exists'.1 failed
      exact ⟨met, by simp [fault]⟩
  · rw [wholeText, complete unbroken, List.append_nil]

theorem Scanner.tokens_of_failing_input_in_mark :
    let bytes := Utf8.encode "ab :".toList ++ [0xff]
    let source := ByteSource.ofReader (.ofBytes 3 (by decide) bytes .finished)
    0 < 3 ∧
      (tokens (TextSource.ofString "ab :")).1 =
        [.ok ⟨.identifier, "ab"⟩, .error (.lexical ⟨":", 3, 3⟩)] ∧
      nexts 5 source = [some (.ok ⟨.identifier, "ab"⟩),
        some (.error (.transport (.invalidLead 0xff 4))), none, none, none] := by
  intro bytes source
  have items : (tokens source).1 =
      [.ok ⟨.identifier, "ab"⟩, .error (.transport (.invalidLead 0xff 4))] := by decide +kernel
  obtain ⟨text, rest, fault, before, -, -, -, -, -, -, -, -, calls⟩ :=
    tokens_of_failing_input 3 (by decide) bytes .finished
  have five := calls 3
  rw [show (tokens (ByteSource.ofReader _)).1 = _ from items] at five
  exact ⟨by decide, by decide +kernel, five⟩

end Fluent
