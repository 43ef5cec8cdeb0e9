import Lox.Proofs.Cursor.Walk

set_option autoImplicit false

namespace Lox

theorem Bytes.ofText_append (front behind : String) :
    ofText (front ++ behind) = ofText front ++ ofText behind := by
  simp only [ofText_eq_flatMap, String.toList_append, List.flatMap_append]

theorem Bytes.length_ofText (text : String) : (ofText text).length = text.utf8ByteSize :=
  String.size_toByteArray

/-- The text between two byte offsets of a text; `none` if one of them is not a character boundary
or if the first is past the second. -/
def byteRange? (text : String) (first last : Nat) : Option String :=
  if first ≤ last ∧ String.Pos.Raw.isValid text ⟨first⟩ ∧ String.Pos.Raw.isValid text ⟨last⟩ then
    Bytes.toText? (((Bytes.ofText text).take last).drop first)
  else none

theorem isValid_append (front behind : String) :
    String.Pos.Raw.isValid (front ++ behind) ⟨front.utf8ByteSize⟩ = true :=
  String.Pos.Raw.isValid_eq_true_iff.mpr
    (String.Pos.Raw.isValid_iff_exists_append.mpr ⟨front, behind, rfl, rfl⟩)

/-- Between the offsets of two boundaries stands the text that is between them. -/
theorem byteRange?_append (front middle behind : String) :
    byteRange? (front ++ middle ++ behind) front.utf8ByteSize (front ++ middle).utf8ByteSize =
      some middle := by
  have ordered : front.utf8ByteSize ≤ (front ++ middle).utf8ByteSize := by
    rw [String.utf8ByteSize_append]
    exact Nat.le_add_right _ _
  have first : String.Pos.Raw.isValid (front ++ middle ++ behind) ⟨front.utf8ByteSize⟩ = true := by
    rw [String.append_assoc]
    exact isValid_append front _
  have taken : ((Bytes.ofText (front ++ middle ++ behind)).take
      (front ++ middle).utf8ByteSize).drop front.utf8ByteSize = Bytes.ofText middle := by
    rw [Bytes.ofText_append, ← Bytes.length_ofText (front ++ middle), List.take_left,
      Bytes.ofText_append, ← Bytes.length_ofText front, List.drop_left]
  rw [byteRange?, if_pos ⟨ordered, first, isValid_append _ behind⟩, taken, Bytes.toText?_ofText]

theorem byteRange?_eq_none {text : String} {first last : Nat} (past : last < first) :
    byteRange? text first last = none :=
  if_neg fun ordered => Nat.not_le_of_lt past ordered.1

namespace Cursor

def sliceUntil? (start stop : Cursor) : Option String :=
  byteRange? start.source start.offset stop.offset

section Slices

variable {source : String} {a b c m : Cursor} {i j k : Nat}

namespace HasPassed

theorem slice?_eq (before : m.HasPassed source i) (later : c.HasPassed source j) (ordered : i ≤ j) :
    m.slice? c = some (String.ofList ((source.toList.drop i).take (j - i))) := by
  have within := later.within
  rw [slice?, if_pos ((before.offset_le_iff later).mpr ordered), ahead, before.rest_eq,
    later.rest_eq, List.length_drop, List.length_drop,
    show source.toList.length - i - (source.toList.length - j) = j - i by omega]

theorem exists_parts (before : m.HasPassed source i) (later : c.HasPassed source j)
    (ordered : i ≤ j) :
    ∃ front middle behind, source = front ++ middle ++ behind ∧
      m.offset = front.utf8ByteSize ∧ c.offset = (front ++ middle).utf8ByteSize ∧
      m.slice? c = some middle := by
  have taken : source.toList.take j =
      source.toList.take i ++ (source.toList.drop i).take (j - i) := by
    rw [← List.take_add, Nat.add_sub_cancel' ordered]
  refine ⟨String.ofList (source.toList.take i), _, String.ofList (source.toList.drop j), ?_, ?_, ?_,
    before.slice?_eq later ordered⟩
  · rw [← String.ofList_append, ← taken, ← String.ofList_append, List.take_append_drop,
      String.ofList_toList]
  · rw [before.offset_eq, utf8Length_eq_utf8ByteSize]
  · rw [later.offset_eq, utf8Length_eq_utf8ByteSize, taken, String.ofList_append]

/-- No slice of the bytes fails for the place where it begins or ends. -/
theorem slice?_eq_sliceUntil? (before : m.HasPassed source i) (later : c.HasPassed source j) :
    m.slice? c = m.sliceUntil? c := by
  rcases Nat.lt_or_ge c.offset m.offset with past | ordered
  · rw [sliceUntil?, byteRange?_eq_none past, slice?, if_neg (Nat.not_le_of_lt past)]
  · have ordered := (before.offset_le_iff later).mp ordered
    obtain ⟨front, middle, behind, parts, first, last, slice⟩ := before.exists_parts later ordered
    rw [slice, sliceUntil?, before.source_eq, first, last, parts, byteRange?_append]

theorem sliceUntil?_skip (passed : c.HasPassed source i) (n : Nat) :
    c.sliceUntil? (c.skip n) = some (c.ahead n) := by
  have within := passed.within
  have forward : i ≤ min (i + n) source.toList.length := by omega
  rw [← passed.slice?_eq_sliceUntil? (passed.skip n), passed.slice?_eq (passed.skip n) forward,
    ahead, passed.rest_eq, List.take_eq_take_min (i := n), List.length_drop,
    show min (i + n) source.toList.length - i = min n (source.toList.length - i) by omega]

/-- Two slices that meet make one. -/
theorem exists_slices (first : a.HasPassed source i) (second : b.HasPassed source j)
    (third : c.HasPassed source k) (lower : i ≤ j) (upper : j ≤ k) :
    ∃ s t, a.slice? b = some s ∧ b.slice? c = some t ∧ a.slice? c = some (s ++ t) := by
  refine ⟨_, _, first.slice?_eq second lower, second.slice?_eq third upper, ?_⟩
  rw [first.slice?_eq third (Nat.le_trans lower upper), ← String.ofList_append,
    show k - i = (j - i) + (k - j) by omega, List.take_add, List.drop_drop,
    Nat.add_sub_cancel' lower]

end HasPassed

theorem Walk.answers_replicate_next (clones : List Cursor) (n : Nat) (c : Cursor)
    (within : n ≤ c.rest.length) :
    (Walk.mk c clones).answers (List.replicate n .next) =
        (c.rest.take n).map (fun a => .char (some a)) ∧
      (Walk.mk c clones).after (List.replicate n .next) = ⟨c.skip n, clones⟩ := by
  induction n generalizing c with
  | zero => exact ⟨rfl, rfl⟩
  | succ n ih =>
    obtain ⟨a, later, rest⟩ := List.exists_cons_of_length_pos (Nat.lt_of_lt_of_le n.succ_pos within)
    have peek : c.peek = some a := by rw [peek_eq_head?, rest]; rfl
    have skipped : (c.skip 1).rest = later := by rw [rest_skip, rest]; rfl
    have performed : (Walk.mk c clones).perform .next = (.char (some a), ⟨c.skip 1, clones⟩) := by
      rw [← peek]
      rfl
    have bound : n ≤ (c.skip 1).rest.length := by
      rw [skipped]
      rw [rest, List.length_cons] at within
      exact Nat.le_of_succ_le_succ within
    obtain ⟨answers, after⟩ := ih (c.skip 1) bound
    rw [List.replicate_succ, Walk.answers, Walk.after, performed, answers, after, skip_skip, rest,
      List.take_succ_cons, List.map_cons, skipped, Nat.add_comm 1 n]
    exact ⟨rfl, rfl⟩

/-- Calls of `next` from one position to another spell the slice between them. -/
theorem HasPassed.answers_next_of_slice? {text : String} (before : m.HasPassed source i)
    (later : c.HasPassed source j) (slice : m.slice? c = some text) (clones : List Cursor) :
    (Walk.mk m clones).answers (List.replicate text.length .next) =
        text.toList.map (fun a => .char (some a)) ∧
      (Walk.mk m clones).after (List.replicate text.length .next) = ⟨c, clones⟩ := by
  have ordered : i ≤ j := by
    refine (before.offset_le_iff later).mp (Nat.le_of_not_lt fun past => ?_)
    rw [slice?, if_neg (Nat.not_le_of_lt past)] at slice
    cases slice
  obtain rfl := Option.some.inj ((before.slice?_eq later ordered).symm.trans slice)
  have within : j - i ≤ m.rest.length := by
    rw [before.rest_eq, List.length_drop]
    exact Nat.sub_le_sub_right later.within i
  have length : (String.ofList ((source.toList.drop i).take (j - i))).length = j - i := by
    rw [String.length_ofList, ← before.rest_eq, List.length_take_of_le within]
  have reached : m.skip (j - i) = c := by
    rw [before.eq_skip, later.eq_skip, skip_skip, Nat.add_sub_cancel' ordered]
  have nexts := Walk.answers_replicate_next clones (j - i) m within
  rw [reached, before.rest_eq] at nexts
  rwa [length, String.toList_ofList]

end Slices

end Cursor

end Lox
