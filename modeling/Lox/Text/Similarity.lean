set_option autoImplicit false

namespace Lox

/-- A character in which a partner is looked for, and whether it has one. -/
structure Slot where
  char : Char
  paired : Bool
deriving DecidableEq

/-- Pairs `c` with the first free slot that holds it. The first `skipped` slots are too far away,
and so are those behind the next `width`. -/
def pairWith? (c : Char) : (skipped width : Nat) → List Slot → Option (List Slot)
  | _, _, [] => none
  | skipped + 1, width, slot :: rest => (pairWith? c skipped width rest).map (slot :: ·)
  | 0, 0, _ :: _ => none
  | 0, width + 1, slot :: rest =>
    if slot.char = c ∧ slot.paired = false then some (⟨c, true⟩ :: rest)
    else (pairWith? c 0 width rest).map (slot :: ·)

/-- Gives each character of a text a partner at most `reach` places away, if one is left; the text
begins at place `place`. The characters that got one are returned, and what became of the slots. -/
def pairAll (reach : Nat) : (place : Nat) → List Char → List Slot → List Char × List Slot
  | _, [], slots => ([], slots)
  | place, c :: rest, slots =>
    let skipped := place - reach
    match pairWith? c skipped (place + reach + 1 - skipped) slots with
    | none => pairAll reach (place + 1) rest slots
    | some slots =>
      let (paired, slots) := pairAll reach (place + 1) rest slots
      (c :: paired, slots)

/-- The characters that two texts share, as a list for each, in the order that they have there. -/
def sharedCharacters (first second : List Char) : List Char × List Char :=
  let reach := max first.length second.length / 2 - 1
  let (paired, slots) := pairAll reach 0 first (second.map (⟨·, false⟩))
  (paired, (slots.filter Slot.paired).map Slot.char)

/-- How many of the shared characters have to change places for both orders to agree. -/
def transpositions (first second : List Char) : Nat :=
  ((first.zip second).filter fun (c, d) => c != d).length / 2

/-- Two texts are similar if three shares have a mean of at least seven tenths: that of the shared
characters in the first text, that in the second, and that of the shared ones which are in place. -/
def similar (first second : List Char) : Bool :=
  let (shared, partners) := sharedCharacters first second
  let m := shared.length
  let inPlace := m - transpositions shared partners
  let a := first.length
  let b := second.length
  m != 0 && decide (21 * (a * b * m) ≤ 10 * (m * b * m + a * m * m + a * b * inPlace))

end Lox
