import Snowform.Proofs.Text.Bytes
import Snowform.Text.Encoding

/-!
# Bytes in UTF-8

The bytes of a text are those of its characters, one after the other.  A text
has as many of them as its size says, and the byte of a line feed is part of
no other character.
-/

namespace Snowform.Text

/-! ## Lists of bytes -/

/-- The loop over an array gives what it has read and the rest of the array. -/
theorem byteArray_toList_loop (array : ByteArray) (place : Nat)
    (read : List UInt8) :
    ByteArray.toList.loop array place read =
      read.reverse ++ array.data.toList.drop place := by
  fun_induction ByteArray.toList.loop array place read with
  | case1 place read inside ih =>
      have bound : place < array.data.toList.length := by simpa using inside
      rw [ih, List.drop_eq_getElem_cons bound]
      simp [ByteArray.get!, inside]
  | case2 place read outside =>
      have bound : array.data.toList.length ≤ place := by
        simpa using Nat.le_of_not_lt outside
      rw [List.drop_eq_nil_of_le bound, List.append_nil]

/-- The bytes of a text are those of its characters. -/
theorem encode_eq_flatMap (text : Text) :
    encode text = text.flatMap String.utf8EncodeChar := by
  change ByteArray.toList.loop
    (text.flatMap String.utf8EncodeChar).toByteArray 0 [] = _
  rw [byteArray_toList_loop, List.toList_data_toByteArray]
  rfl

@[simp]
theorem encode_nil : encode [] = [] := by
  rw [encode_eq_flatMap]
  rfl

theorem encode_cons (character : Char) (rest : Text) :
    encode (character :: rest) =
      String.utf8EncodeChar character ++ encode rest := by
  rw [encode_eq_flatMap, encode_eq_flatMap, List.flatMap_cons]

@[simp]
theorem encode_append (first second : Text) :
    encode (first ++ second) = encode first ++ encode second := by
  simp only [encode_eq_flatMap, List.flatMap_append]

@[simp]
theorem length_encode (text : Text) :
    (encode text).length = byteSize text := by
  induction text with
  | nil => rw [encode_nil, List.length_nil, byteSize_nil]
  | cons character rest ih =>
      rw [encode_cons, List.length_append, String.length_utf8EncodeChar, ih,
        byteSize_cons]

/-! ## Line feeds -/

/-- The byte of a line feed. -/
def feedByte : UInt8 := 10

/-- A line feed is one byte. -/
theorem utf8EncodeChar_feed : String.utf8EncodeChar '\n' = [feedByte] := by
  decide

/-- Another number below 256 is another byte than a line feed. -/
theorem ofNat_ne_feedByte {number : Nat} (bound : number < 256)
    (other : number ≠ 10) : UInt8.ofNat number ≠ feedByte := by
  intro same
  have equal := congrArg UInt8.toNat same
  rw [UInt8.toNat_ofNat', Nat.mod_eq_of_lt bound] at equal
  exact other equal

/-- No other character has the byte of a line feed. -/
theorem not_feed_of_mem_utf8EncodeChar {character : Char}
    (other : character ≠ '\n') :
    ∀ byte ∈ String.utf8EncodeChar character, byte ≠ feedByte := by
  have code : character.val.toNat ≠ 10 := by
    intro same
    exact other (Char.ext (UInt32.toNat_inj.mp same))
  -- The first byte of several is at least 192, the others at least 128.
  rw [String.utf8EncodeChar]
  split
  next =>
    rw [List.forall_mem_singleton]
    exact ofNat_ne_feedByte (by omega) code
  next =>
    split
    next =>
      simp only [List.forall_mem_cons, List.not_mem_nil]
      refine ⟨ofNat_ne_feedByte ?_ ?_, ofNat_ne_feedByte ?_ ?_, by simp⟩ <;>
        omega
    next =>
      split
      next =>
        simp only [List.forall_mem_cons, List.not_mem_nil]
        refine ⟨ofNat_ne_feedByte ?_ ?_, ofNat_ne_feedByte ?_ ?_,
          ofNat_ne_feedByte ?_ ?_, by simp⟩ <;> omega
      next =>
        simp only [List.forall_mem_cons, List.not_mem_nil]
        refine ⟨ofNat_ne_feedByte ?_ ?_, ofNat_ne_feedByte ?_ ?_,
          ofNat_ne_feedByte ?_ ?_, ofNat_ne_feedByte ?_ ?_, by simp⟩ <;> omega

end Snowform.Text
