import Mathlib.Data.List.Forall2
import Mathlib.Data.List.Infix
import Mathlib.Tactic.Common

/-!
# Wildcard patterns

Patterns whose places stand for any text, for any one character or for a given character,
which is compared after folding (letter case, say). A pattern between two places for any
text looks for a part of the text that the pattern accepts; for a pattern without
wildcards this is the search for a substring.

## Main definitions

- `Item`: one place of a pattern
- `accepts`: the pattern fits the whole text
- `accepts_anywhere_iff`, `accepts_literal_iff`: what a search finds
-/

namespace Wildcard

variable {α β : Type} [DecidableEq β]

/-- A place of a pattern. -/
inductive Item (α : Type) where
  | many
  | one
  | lit (a : α)
  deriving DecidableEq, Repr

/-- The pattern fits the whole text. -/
def accepts (fold : α → β) : List (Item α) → List α → Bool
  | [], text => text.isEmpty
  | .many :: pattern, text => text.tails.any (accepts fold pattern)
  | .one :: _, [] => false
  | .one :: pattern, _ :: text => accepts fold pattern text
  | .lit _ :: _, [] => false
  | .lit a :: pattern, b :: text => fold a = fold b && accepts fold pattern text

variable {fold : α → β}

theorem accepts_many_iff {pattern : List (Item α)} {text : List α} :
    accepts fold (.many :: pattern) text = true ↔
      ∃ skipped rest, text = skipped ++ rest ∧ accepts fold pattern rest = true := by
  simp only [accepts, List.any_eq_true, List.mem_tails]
  constructor
  · intro ⟨rest, ⟨skipped, htext⟩, hrest⟩
    exact ⟨skipped, rest, htext.symm, hrest⟩
  · intro ⟨skipped, rest, htext, hrest⟩
    exact ⟨rest, ⟨skipped, htext.symm⟩, hrest⟩

theorem accepts_one_iff {pattern : List (Item α)} {text : List α} :
    accepts fold (.one :: pattern) text = true ↔
      ∃ b rest, text = b :: rest ∧ accepts fold pattern rest = true := by
  cases text <;> simp [accepts]

theorem accepts_lit_iff {a : α} {pattern : List (Item α)} {text : List α} :
    accepts fold (.lit a :: pattern) text = true ↔
      ∃ b rest, text = b :: rest ∧ fold a = fold b ∧ accepts fold pattern rest = true := by
  cases text <;> simp [accepts]

/-- Two patterns in a row fit two texts in a row. -/
theorem accepts_append_iff {pattern pattern' : List (Item α)} {text : List α} :
    accepts fold (pattern ++ pattern') text = true ↔
      ∃ front rest, text = front ++ rest ∧ accepts fold pattern front = true ∧
        accepts fold pattern' rest = true := by
  induction pattern generalizing text with
  | nil => simp [accepts]
  | cons item pattern ih =>
    rw [List.cons_append]
    cases item with
    | many =>
      rw [accepts_many_iff]
      constructor
      · rintro ⟨skipped, tail, rfl, htail⟩
        obtain ⟨front, rest, rfl, hfront, hrest⟩ := ih.mp htail
        exact ⟨skipped ++ front, rest, (List.append_assoc ..).symm,
          accepts_many_iff.mpr ⟨skipped, front, rfl, hfront⟩, hrest⟩
      · rintro ⟨front, rest, rfl, hfront, hrest⟩
        obtain ⟨skipped, tail, rfl, htail⟩ := accepts_many_iff.mp hfront
        exact ⟨skipped, tail ++ rest, List.append_assoc ..,
          ih.mpr ⟨tail, rest, rfl, htail, hrest⟩⟩
    | one =>
      rw [accepts_one_iff]
      constructor
      · rintro ⟨b, tail, rfl, htail⟩
        obtain ⟨front, rest, rfl, hfront, hrest⟩ := ih.mp htail
        exact ⟨b :: front, rest, rfl, accepts_one_iff.mpr ⟨b, front, rfl, hfront⟩, hrest⟩
      · rintro ⟨front, rest, rfl, hfront, hrest⟩
        obtain ⟨b, tail, rfl, htail⟩ := accepts_one_iff.mp hfront
        exact ⟨b, tail ++ rest, rfl, ih.mpr ⟨tail, rest, rfl, htail, hrest⟩⟩
    | lit a =>
      rw [accepts_lit_iff]
      constructor
      · rintro ⟨b, tail, rfl, hab, htail⟩
        obtain ⟨front, rest, rfl, hfront, hrest⟩ := ih.mp htail
        exact ⟨b :: front, rest, rfl, accepts_lit_iff.mpr ⟨b, front, rfl, hab, hfront⟩, hrest⟩
      · rintro ⟨front, rest, rfl, hfront, hrest⟩
        obtain ⟨b, tail, rfl, hab, htail⟩ := accepts_lit_iff.mp hfront
        exact ⟨b, tail ++ rest, rfl, hab, ih.mpr ⟨tail, rest, rfl, htail, hrest⟩⟩

/-- Between two places for any text, the pattern fits some part of the text. -/
theorem accepts_anywhere_iff {pattern : List (Item α)} {text : List α} :
    accepts fold (.many :: (pattern ++ [.many])) text = true ↔
      ∃ part, part <:+: text ∧ accepts fold pattern part = true := by
  have hany : ∀ rest : List α, accepts fold [.many] rest = true := fun rest =>
    accepts_many_iff.mpr ⟨rest, [], (List.append_nil _).symm, rfl⟩
  rw [accepts_many_iff]
  constructor
  · rintro ⟨skipped, tail, rfl, htail⟩
    obtain ⟨part, rest, rfl, hpart, -⟩ := accepts_append_iff.mp htail
    exact ⟨part, ⟨skipped, rest, List.append_assoc ..⟩, hpart⟩
  · rintro ⟨part, ⟨skipped, rest, rfl⟩, hpart⟩
    exact ⟨skipped, part ++ rest, List.append_assoc ..,
      accepts_append_iff.mpr ⟨part, rest, rfl, hpart, hany rest⟩⟩

/-! ## Patterns without wildcards -/

/-- A pattern of given characters accepts one text, up to folding. -/
theorem accepts_literal_iff {word text : List α} :
    accepts fold (word.map .lit) text = true ↔ word.map fold = text.map fold := by
  induction word generalizing text with
  | nil => cases text <;> simp [accepts]
  | cons a word ih => cases text <;> simp [accepts, ih]

omit [DecidableEq β] in
/-- A text contains a word if it does so after folding. -/
theorem infix_map_iff {word text : List α} :
    word.map fold <:+: text.map fold ↔
      ∃ part, part <:+: text ∧ word.map fold = part.map fold := by
  constructor
  · intro ⟨before, after, htext⟩
    obtain ⟨front, rest, rfl, hfront, hrest⟩ := List.map_eq_append_iff.mp htext.symm
    obtain ⟨skipped, part, rfl, hskipped, hpart⟩ := List.map_eq_append_iff.mp hfront
    exact ⟨part, ⟨skipped, rest, rfl⟩, hpart.symm⟩
  · rintro ⟨part, hinfix, hpart⟩
    rw [hpart]
    exact hinfix.map fold

/-- A pattern written with the characters it stands for accepts them. -/
theorem accepts_of_map_eq {item : α → Item α}
    (hitem : ∀ a, item a = .many ∨ item a = .one ∨ item a = .lit a) {word text : List α}
    (h : word.map fold = text.map fold) : accepts fold (word.map item) text = true := by
  induction word generalizing text with
  | nil =>
    rw [List.map_nil, eq_comm, List.map_eq_nil_iff] at h
    rw [h]
    rfl
  | cons a word ih =>
    obtain ⟨b, text, rfl, hab, hrest⟩ := List.map_eq_cons_iff.mp h.symm
    have htail := ih hrest.symm
    rw [List.map_cons]
    obtain ha | ha | ha := hitem a
    · exact ha ▸ accepts_many_iff.mpr ⟨[b], text, rfl, htail⟩
    · exact ha ▸ accepts_one_iff.mpr ⟨b, text, rfl, htail⟩
    · exact ha ▸ accepts_lit_iff.mpr ⟨b, text, rfl, hab.symm, htail⟩

end Wildcard
