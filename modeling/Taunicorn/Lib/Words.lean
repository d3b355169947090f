import Mathlib.Data.List.Infix

/-!
# Words in a text

Whether a word occurs in a text that is put together from pieces. A word does not reach across a
character that it does not have, so that in a text whose pieces are set apart by spaces it occurs in
one of the pieces or not at all. A number occurs as its decimal digits, in which no word occurs that
has a letter.

## Main results

* `infix_append_cons_iff` — a character that the word does not have
* `contains_append_space_append` — two texts set apart by a space
* `contains_toString_nat` — a number
-/

namespace Words

variable {α : Type}

/-- **A word does not reach across a character that it does not have.** -/
theorem infix_append_cons_iff {word l₁ l₂ : List α} {c : α} (hc : c ∉ word) :
    word <:+: l₁ ++ c :: l₂ ↔ word <:+: l₁ ∨ word <:+: l₂ := by
  constructor
  · rintro ⟨s, t, h⟩
    rcases List.append_eq_append_iff.mp h with ⟨rest, hl₁, -⟩ | ⟨rest, hl₁, hl₂⟩
    · exact Or.inl ⟨s, rest, hl₁.symm⟩
    · cases rest with
      | nil => exact Or.inl ⟨s, [], by simpa using hl₁⟩
      | cons d rest =>
        obtain ⟨rfl, rfl⟩ := List.cons.inj hl₂
        have hword : word <:+ l₁ ++ c :: rest := ⟨s, hl₁⟩
        -- the longer of two suffixes would have the character
        rcases List.suffix_or_suffix_of_suffix hword (List.suffix_append l₁ (c :: rest)) with
          hshort | hlong
        · rcases List.suffix_cons_iff.mp hshort with rfl | hrest
          · exact absurd List.mem_cons_self hc
          · exact Or.inr (hrest.isInfix.trans (List.prefix_append rest t).isInfix)
        · exact absurd (hlong.subset List.mem_cons_self) hc
  · rintro (h | h)
    · exact List.infix_append_of_infix_left h
    · exact List.infix_append_of_infix_right (h.trans (List.suffix_cons c l₂).isInfix)

/-- A word with a character of another kind does not occur. -/
theorem not_infix_of_forall {p : α → Prop} {word l : List α} {c : α} (hmem : c ∈ word) (hc : ¬p c)
    (hl : ∀ d ∈ l, p d) : ¬word <:+: l :=
  fun h => hc (hl c (h.subset hmem))

variable {word a b : String}

/-- Two texts set apart by a space. -/
theorem contains_append_space_append (hspace : ' ' ∉ word.toList) (a b : String) :
    (a ++ " " ++ b).contains word = (a.contains word || b.contains word) := by
  rw [Bool.eq_iff_iff, Bool.or_eq_true, String.contains_string_iff, String.contains_string_iff,
    String.contains_string_iff, ← infix_append_cons_iff hspace]
  simp

/-- No letter occurs in a number. -/
theorem contains_toString_nat {c : Char} (hmem : c ∈ word.toList) (hc : c.isDigit = false) (n : ℕ) :
    (toString n).contains word = false := by
  rw [String.contains_string_eq_false_iff, Nat.toString_eq_repr, Nat.toList_repr]
  refine not_infix_of_forall (p := fun d => d.isDigit = true) hmem ?_ fun d hd =>
    Nat.isDigit_of_mem_toDigits (by decide) (by decide) hd
  rw [hc]
  exact Bool.false_ne_true

end Words
