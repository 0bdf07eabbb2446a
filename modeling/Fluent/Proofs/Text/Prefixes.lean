/-
This file holds the longest and the shortest prefix of a text with some property.
-/

namespace Fluent

/-- The longest of the prefixes of a text that have the property. -/
structure LongestPrefix (property : List Char → Prop) (text front : List Char) : Prop where
  isPrefix : front <+: text
  holds : property front
  longest : ∀ other, other <+: text → property other → other <+: front

/-- The shortest of the prefixes of a text that have the property. -/
structure ShortestPrefix (property : List Char → Prop) (text front : List Char) : Prop where
  isPrefix : front <+: text
  holds : property front
  shortest : ∀ other, other <+: text → property other → front <+: other

/-- Some word of the language begins so. -/
def Begins (language : List Char → Prop) (front : List Char) : Prop :=
  ∃ rest, language (front ++ rest)

variable {property language : List Char → Prop} {text rest front : List Char} {character : Char}

theorem Begins.of_isPrefix {whole : List Char} (begins : Begins language whole)
    (before : front <+: whole) : Begins language front := by
  obtain ⟨later, rfl⟩ := before
  obtain ⟨rest, word⟩ := begins
  rw [List.append_assoc] at word
  exact ⟨later ++ rest, word⟩

/-- A prefix is the shortest if nothing up to its last character will do. -/
theorem ShortestPrefix.of_concat (before : front ++ [character] <+: text)
    (holds : property (front ++ [character]))
    (none : ∀ other, other <+: front → ¬ property other) :
    ShortestPrefix property text (front ++ [character]) where
  isPrefix := before
  holds := holds
  shortest other within found := by
    rcases List.prefix_or_prefix_of_prefix before within with less | more
    · exact less
    · rcases List.prefix_concat_iff.1 more with rfl | shorter
      · exact List.prefix_rfl
      · exact absurd found (none other shorter)

theorem ShortestPrefix.unique {other : List Char} (one : ShortestPrefix property text front)
    (two : ShortestPrefix property text other) : front = other := by
  have less := one.shortest other two.isPrefix two.holds
  have more := two.shortest front one.isPrefix one.holds
  exact less.eq_of_length_le more.length_le

namespace LongestPrefix

/-- A text that begins with a character has the longest prefix that goes on behind it. -/
theorem cons (longest : LongestPrefix property rest front)
    (same : ∀ other, language (character :: other) ↔ property other) :
    LongestPrefix language (character :: rest) (character :: front) where
  isPrefix := List.cons_prefix_cons.2 ⟨rfl, longest.isPrefix⟩
  holds := (same front).2 longest.holds
  longest other before word := by
    rcases List.prefix_cons_iff.1 before with rfl | ⟨later, rfl, behind⟩
    · exact List.nil_prefix
    · have shorter := longest.longest later behind ((same later).1 word)
      exact List.cons_prefix_cons.2 ⟨rfl, shorter⟩

/-- The shortest prefix that begins no word is one character longer than the longest that does. -/
theorem shortest_not_begins (longest : LongestPrefix (Begins language) text front)
    (split : text = front ++ character :: rest) :
    ShortestPrefix (fun other => ¬ Begins language other) text (front ++ [character]) := by
  have within : front ++ [character] <+: text := ⟨rest, by rw [split, List.append_assoc]; rfl⟩
  refine .of_concat within (fun begins => ?_)
    fun other before => not_not_intro (longest.holds.of_isPrefix before)
  have length := (longest.longest (front ++ [character]) within begins).length_le
  rw [List.length_append] at length
  exact absurd length (Nat.not_succ_le_self _)

end LongestPrefix

end Fluent
