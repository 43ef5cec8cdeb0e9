import Lox.Proofs.Token.Items

set_option autoImplicit false

namespace Lox.TokenStream

variable {first second : String} {items : List (Except ScanError Token)}

theorem toList_lineBreak (first second : String) :
    (first ++ "\n" ++ second).toList = first.toList ++ '\n' :: second.toList := by
  simp

theorem lineAfter_lineBreak (first : String) :
    lineAfter firstLine (first.toList ++ ['\n']) = firstLine + (first.toList.count '\n' + 1) := by
  simp only [lineAfter, List.count_append, List.count_singleton_self]

theorem hasItems_behind_lineBreak (has : HasItems firstLine second.toList items)
    (first : String) :
    HasItems (lineAfter firstLine first.toList) ('\n' :: second.toList)
      (items.map (movedItem (first.toList.count '\n' + 1))) := by
  have lineFeed : Gap second.toList ['\n'] := .blank (by decide) .nil
  have moved := has.moved (first.toList.count '\n' + 1)
  rw [← lineAfter_lineBreak, lineAfter_append] at moved
  exact .gap_append lineFeed moved

theorem movedItem_ending (first second : String) :
    movedItem (first.toList.count '\n' + 1) (.ok (ending second)) =
      .ok (ending (first ++ "\n" ++ second)) := by
  have lines : lineAfter firstLine (first ++ "\n" ++ second).toList =
      lineAfter firstLine second.toList + (first.toList.count '\n' + 1) := by
    simp only [toList_lineBreak, lineAfter, List.count_append, List.count_cons_self]
    omega
  simp only [movedItem, Token.moved, ending, Token.endOfInput, lines]

theorem isClosed_of_errors (has : HasItems firstLine first.toList items)
    (closed : ∀ error ∈ (ofSource first).errors, error.fault ≠ .unterminatedString) :
    ∀ item ∈ items, IsClosed item := by
  rintro _ member error rfl
  apply closed error
  rw [errors, items_of_hasItems has]
  exact List.mem_filterMap.mpr ⟨.error error, List.mem_append_left _ member, rfl⟩

/-- Scanning is compositional at line breaks. What stands behind the break has no effect on the
items in front of it, errors included, and what stands in front moves the others down by its lines
and does nothing else to them. -/
theorem items_append_lineBreak (first second : String)
    (closed : ∀ error ∈ (ofSource first).errors, error.fault ≠ .unterminatedString) :
    ∃ before, (ofSource first).items = before ++ [.ok (ending first)] ∧
      (ofSource (first ++ "\n" ++ second)).items =
        before ++ (ofSource second).items.map (movedItem (first.toList.count '\n' + 1)) := by
  obtain ⟨before, hasFirst⟩ := exists_hasItems first
  obtain ⟨behind, hasSecond⟩ := exists_hasItems second
  have whole := hasFirst.append (isClosed_of_errors hasFirst closed)
    (hasItems_behind_lineBreak hasSecond first)
  rw [← toList_lineBreak] at whole
  refine ⟨before, items_of_hasItems hasFirst, ?_⟩
  rw [items_of_hasItems whole, items_of_hasItems hasSecond, List.map_append, List.map_singleton,
    movedItem_ending, List.append_assoc]

/-- The first source ends with one half of an operator behind a stray character, and the second one
starts with the other half and leaves a string open. -/
theorem items_append_lineBreak_halves :
    let first := "7. // \"\n@<"
    let second := "=\"\n"
    (∀ error ∈ (ofSource first).errors, error.fault ≠ .unterminatedString) ∧
      ∃ before, (ofSource first).items = before ++ [.ok (ending first)] ∧
        (ofSource (first ++ "\n" ++ second)).items =
          before ++ (ofSource second).items.map (movedItem (first.toList.count '\n' + 1)) := by
  intro first second
  have closed : ∀ error ∈ (ofSource first).errors, error.fault ≠ .unterminatedString := by
    decide +kernel
  exact ⟨closed, items_append_lineBreak first second closed⟩

end Lox.TokenStream
