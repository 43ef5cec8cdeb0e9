set_option autoImplicit false

namespace Lox

abbrev Bytes := List UInt8

def Bytes.ofText (text : String) : Bytes :=
  text.toUTF8.data.toList

/-- The text that the bytes encode; `none` if they are not UTF-8. -/
def Bytes.toText? (bytes : Bytes) : Option String :=
  String.fromUTF8? ⟨bytes.toArray⟩

def utf8Length : List Char → Nat
  | [] => 0
  | c :: rest => c.utf8Size + utf8Length rest

@[simp] theorem utf8Length_nil : utf8Length [] = 0 := rfl

@[simp] theorem utf8Length_append (first second : List Char) :
    utf8Length (first ++ second) = utf8Length first + utf8Length second := by
  induction first with
  | nil => exact (Nat.zero_add _).symm
  | cons c rest ih => simp only [List.cons_append, utf8Length, ih, Nat.add_assoc]

theorem Bytes.toText?_ofText (text : String) : (Bytes.ofText text).toText? = some text := by
  have encoded : (⟨text.toUTF8.data.toList.toArray⟩ : ByteArray) = text.toByteArray := rfl
  simp only [Bytes.toText?, Bytes.ofText, String.fromUTF8?, encoded, dif_pos text.isValidUTF8]
  rfl

theorem Bytes.ofText_eq_flatMap (text : String) :
    Bytes.ofText text = text.toList.flatMap String.utf8EncodeChar := by
  have encoded : text.toUTF8 = text.toList.utf8Encode := String.utf8Encode_toList.symm
  rw [Bytes.ofText, encoded, List.utf8Encode, List.data_toByteArray]

theorem Bytes.ofText_of_toText? {bytes : Bytes} {text : String}
    (decoded : bytes.toText? = some text) : Bytes.ofText text = bytes := by
  simp only [Bytes.toText?, String.fromUTF8?] at decoded
  split at decoded
  next valid =>
    obtain rfl := Option.some.inj decoded
    rfl
  next => cases decoded

end Lox
