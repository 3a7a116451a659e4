import FencePreview.Text.Basic

/-! Texts as bytes in UTF-8. `decode?` refuses bytes that are no text, `decodeLossy` puts the
replacement character in place of each longest piece that could have begun a character. -/

namespace FencePreview

namespace Text

def encode (text : Text) : ByteArray := (String.ofList text).toByteArray

def decode? (bytes : ByteArray) : Option Text := (String.fromUTF8? bytes).map String.toList

def byteSize (text : Text) : Nat := (String.ofList text).utf8ByteSize

def isContinuation (byte : UInt8) : Bool := 0x80 ≤ byte && byte ≤ 0xBF

/-- Whether `second` can follow `first` in a character of two or more bytes. The narrower ranges
keep out overlong forms, surrogates and code points past the last plane. -/
def opensSequence (first second : UInt8) : Bool :=
  if first = 0xE0 then 0xA0 ≤ second && second ≤ 0xBF
  else if first = 0xED then 0x80 ≤ second && second ≤ 0x9F
  else if first = 0xF0 then 0x90 ≤ second && second ≤ 0xBF
  else if first = 0xF4 then 0x80 ≤ second && second ≤ 0x8F
  else 0xC2 ≤ first && first ≤ 0xF3 && isContinuation second

/-- The character whose bits are those of a lead byte below `lead` and of continuation bytes. -/
def assembleScalar (lead first : UInt8) (continuations : List UInt8) : Char :=
  Char.ofNat (continuations.foldl (fun bits byte => bits * 64 + (byte.toNat - 0x80))
    (first.toNat - lead.toNat))

def replacementCharacter : Char := Char.ofNat 0xFFFD

def decodeLossyBytes : List UInt8 → Text
  | [] => []
  | first :: rest =>
      if first < 0x80 then Char.ofNat first.toNat :: decodeLossyBytes rest
      else
        match rest with
        | [] => [replacementCharacter]
        | second :: rest =>
            if !opensSequence first second then
              replacementCharacter :: decodeLossyBytes (second :: rest)
            else if first < 0xE0 then
              assembleScalar 0xC0 first [second] :: decodeLossyBytes rest
            else
              match rest with
              | [] => [replacementCharacter]
              | third :: rest =>
                  if !isContinuation third then
                    replacementCharacter :: decodeLossyBytes (third :: rest)
                  else if first < 0xF0 then
                    assembleScalar 0xE0 first [second, third] :: decodeLossyBytes rest
                  else
                    match rest with
                    | [] => [replacementCharacter]
                    | fourth :: rest =>
                        if isContinuation fourth then
                          assembleScalar 0xF0 first [second, third, fourth] :: decodeLossyBytes rest
                        else replacementCharacter :: decodeLossyBytes (fourth :: rest)

def decodeLossy (bytes : ByteArray) : Text := decodeLossyBytes bytes.toList

/-- For a literal the hypothesis is closed by `rfl`, and its characters need not be decoded. -/
theorem toList_eq_of_eq_ofList (literal : String) (text : Text) (same : literal = String.ofList text) :
    literal.toList = text := by
  rw [same, String.toList_ofList]

theorem toList_loop_eq (bytes : ByteArray) (index : Nat) (done : List UInt8) :
    ByteArray.toList.loop bytes index done = done.reverse ++ bytes.data.toList.drop index := by
  fun_induction ByteArray.toList.loop bytes index done with
  | case1 index done inside ih =>
      have bound : index < bytes.data.toList.length := inside
      have next : bytes.get! index = bytes.data.toList[index] := by
        cases bytes
        exact getElem!_pos _ index inside
      rw [ih, next, List.drop_eq_getElem_cons bound, List.reverse_cons, List.append_assoc,
        List.singleton_append]
  | case2 index done outside =>
      have beyond : bytes.data.toList.length ≤ index := Nat.le_of_not_lt outside
      rw [List.drop_of_length_le beyond, List.append_nil]

theorem encode_toList (text : Text) : (encode text).toList = text.flatMap String.utf8EncodeChar := by
  rw [ByteArray.toList, toList_loop_eq, List.reverse_nil, List.nil_append, List.drop_zero, encode,
    String.toByteArray_ofList, List.utf8Encode, List.toList_data_toByteArray]

theorem decode?_encode (text : Text) : decode? (encode text) = some text := by
  have valid : String.fromUTF8? (String.ofList text).toByteArray = some (String.ofList text) := by
    rw [String.fromUTF8?]
    rw [dif_pos (String.ofList text).isValidUTF8]
    rfl
  rw [decode?, encode, valid, Option.map_some, String.toList_ofList]

theorem encode_injective (first second : Text) (same : encode first = encode second) :
    first = second := by
  have texts := congrArg decode? same
  simpa [decode?_encode] using texts

end Text

end FencePreview
