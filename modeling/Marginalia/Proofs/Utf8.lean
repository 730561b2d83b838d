import Marginalia.Proofs.LineCount
import Marginalia.Proofs.Tokens

/-! # Texts as bytes

A text may be cut at the byte offsets at which a character starts, and at its
end. The first byte of a character is told from the later ones by its value
alone. So the bytes of a token stand only where its characters do, and the place
where they are found, and the one after them, are places where the text may be
cut.
-/

namespace Marginalia

/-- The bytes of a text in UTF-8. -/
def utf8Bytes (text : String) : List UInt8 :=
  text.toByteArray.data.toList

theorem utf8Bytes_eq_flatMap (text : String) :
    utf8Bytes text = text.toList.flatMap String.utf8EncodeChar := by
  rw [utf8Bytes, ← String.utf8Encode_toList, List.utf8Encode, List.toList_data_toByteArray]

theorem length_utf8Bytes (text : String) : (utf8Bytes text).length = text.utf8ByteSize := by
  rw [utf8Bytes, Array.length_toList, ByteArray.size_data, String.size_toByteArray]

theorem length_flatMap_utf8EncodeChar (text : List Char) :
    (text.flatMap String.utf8EncodeChar).length = utf8Length text := by
  rw [← utf8ByteSize_ofList_eq, ← length_utf8Bytes, utf8Bytes_eq_flatMap, String.toList_ofList]

/-! ## Boundaries -/

/-- A text may be cut exactly where a part of it in front ends. -/
theorem isValid_iff_exists_front {text : String} {offset : Nat} :
    String.Pos.Raw.IsValid text ⟨offset⟩ ↔
      ∃ front back, text.toList = front ++ back ∧ offset = utf8Length front := by
  rw [String.Pos.Raw.isValid_iff_exists_append]
  constructor
  · rintro ⟨front, back, rfl, hoffset⟩
    refine ⟨front.toList, back.toList, String.toList_append, ?_⟩
    rw [utf8Length_toList]
    exact congrArg String.Pos.Raw.byteIdx hoffset
  · rintro ⟨front, back, htext, rfl⟩
    refine ⟨String.ofList front, String.ofList back, ?_, ?_⟩
    · rw [← String.ofList_append, ← htext, String.ofList_toList]
    · rw [String.rawEndPos, utf8ByteSize_ofList_eq]

/-- A byte with which a character can start stands nowhere else. -/
theorem isValid_of_isUTF8FirstByte {text : String} {offset : Nat} {byte : UInt8}
    (h : (utf8Bytes text)[offset]? = some byte) (hfirst : byte.IsUTF8FirstByte) :
    String.Pos.Raw.IsValid text ⟨offset⟩ := by
  obtain ⟨hlt, hbyte⟩ := List.getElem?_eq_some_iff.mp h
  have hend : (⟨offset⟩ : String.Pos.Raw) < text.rawEndPos := by
    rw [length_utf8Bytes] at hlt
    exact hlt
  have hget : text.getUTF8Byte ⟨offset⟩ hend = byte := hbyte
  rw [String.Pos.Raw.isValid_iff_isUTF8FirstByte]
  exact .inr ⟨hend, hget ▸ hfirst⟩

/-- The part of a text between two byte offsets. There is none unless the offsets
are in order and the text may be cut at both of them. -/
def slice? (text : String) (start stop : Nat) : Option String :=
  if h : start ≤ stop ∧ String.Pos.Raw.IsValid text ⟨start⟩ ∧
      String.Pos.Raw.IsValid text ⟨stop⟩ then
    some (String.extract (⟨⟨start⟩, h.2.1⟩ : text.Pos) ⟨⟨stop⟩, h.2.2⟩)
  else none

theorem extract_middle (front middle back : ByteArray) :
    (front ++ (middle ++ back)).extract front.size (front.size + middle.size) = middle := by
  have hshift := ByteArray.extract_append_size_add (a := front) (b := middle ++ back) (i := 0)
    (j := middle.size)
  rw [Nat.add_zero] at hshift
  rw [hshift, ByteArray.extract_append_eq_left rfl]

theorem slice?_eq_some {text : String} {front middle back : List Char}
    (h : text.toList = front ++ (middle ++ back)) :
    slice? text (utf8Length front) (utf8Length (front ++ middle)) =
      some (String.ofList middle) := by
  have hstart : String.Pos.Raw.IsValid text ⟨utf8Length front⟩ :=
    isValid_iff_exists_front.mpr ⟨front, _, h, rfl⟩
  have hstop : String.Pos.Raw.IsValid text ⟨utf8Length (front ++ middle)⟩ :=
    isValid_iff_exists_front.mpr ⟨front ++ middle, back, by rw [h, List.append_assoc], rfl⟩
  have hle : utf8Length front ≤ utf8Length (front ++ middle) := by
    rw [utf8Length_append]
    exact Nat.le_add_right _ _
  have hbytes : text.toByteArray = (String.ofList front).toByteArray ++
      ((String.ofList middle).toByteArray ++ (String.ofList back).toByteArray) := by
    rw [← String.toByteArray_append, ← String.toByteArray_append, ← String.ofList_append,
      ← String.ofList_append, ← h, String.ofList_toList]
  have hextract : text.toByteArray.extract (utf8Length front) (utf8Length (front ++ middle)) =
      (String.ofList middle).toByteArray := by
    have hsize (part : List Char) : utf8Length part = (String.ofList part).toByteArray.size := by
      rw [String.size_toByteArray, utf8ByteSize_ofList_eq]
    rw [hbytes, utf8Length_append, hsize front, hsize middle, extract_middle]
  rw [slice?, dif_pos ⟨hle, hstart, hstop⟩]
  exact congrArg some (String.toByteArray_inj.mp hextract)

theorem slice?_to {text : String} {front back : List Char} (h : text.toList = front ++ back) :
    slice? text 0 (utf8Length front) = some (String.ofList front) :=
  slice?_eq_some (show text.toList = [] ++ (front ++ back) from h)

theorem slice?_from {text : String} {front back : List Char} (h : text.toList = front ++ back) :
    slice? text (utf8Length front) text.utf8ByteSize = some (String.ofList back) := by
  rw [← utf8Length_toList, h]
  exact slice?_eq_some (by rw [h, List.append_nil])

/-! ## Tokens among the bytes -/

theorem utf8Bytes_prefix_iff {pattern text : String} :
    utf8Bytes pattern <+: utf8Bytes text ↔ pattern.toList <+: text.toList := by
  constructor
  · rintro ⟨rest, hrest⟩
    apply List.isPrefix_of_utf8Encode_append_eq_utf8Encode rest.toByteArray
    rw [String.utf8Encode_toList, String.utf8Encode_toList]
    apply ByteArray.ext
    apply Array.toList_inj.mp
    rw [ByteArray.data_append, Array.toList_append, List.toList_data_toByteArray]
    exact hrest
  · rintro ⟨rest, hrest⟩
    refine ⟨rest.flatMap String.utf8EncodeChar, ?_⟩
    rw [utf8Bytes_eq_flatMap, utf8Bytes_eq_flatMap, ← List.flatMap_append, hrest]

theorem drop_utf8Bytes {text : String} {front back : List Char}
    (h : text.toList = front ++ back) :
    (utf8Bytes text).drop (utf8Length front) = utf8Bytes (String.ofList back) := by
  rw [utf8Bytes_eq_flatMap, utf8Bytes_eq_flatMap, String.toList_ofList, h, List.flatMap_append,
    ← length_flatMap_utf8EncodeChar front, List.drop_left]

namespace Token

def newline : Token :=
  ⟨'\n', []⟩

/-- The number of bytes of the token. -/
def size (token : Token) : Nat :=
  utf8Length token.chars

theorem size_pos (token : Token) : 0 < token.size := by
  rw [size, chars, utf8Length_cons]
  exact Nat.add_pos_left token.first.utf8Size_pos _

@[simp] theorem toList_toString (token : Token) : token.toString.toList = token.chars :=
  String.toList_ofList

/-- Whether the bytes of a text start with those of the token. -/
def begins (token : Token) (text : String) : Bool :=
  (utf8Bytes token.toString).isPrefixOf (utf8Bytes text)

theorem begins_iff {token : Token} {text : String} :
    token.begins text = true ↔ token.chars <+: text.toList := by
  rw [begins, List.isPrefixOf_iff_prefix, utf8Bytes_prefix_iff, toList_toString]

/-- The first byte offset at which the bytes of the token stand in a text. -/
def offset? (token : Token) (text : String) : Option Nat :=
  (List.range text.utf8ByteSize).find? fun offset =>
    (utf8Bytes token.toString).isPrefixOf ((utf8Bytes text).drop offset)

theorem exists_utf8Bytes_eq_cons (token : Token) :
    ∃ byte rest, utf8Bytes token.toString = byte :: rest ∧ byte.IsUTF8FirstByte := by
  obtain ⟨byte, rest, hchar⟩ :=
    List.exists_cons_of_ne_nil (String.utf8EncodeChar_ne_nil (c := token.first))
  refine ⟨byte, rest ++ token.rest.flatMap String.utf8EncodeChar, ?_, ?_⟩
  · rw [utf8Bytes_eq_flatMap, toList_toString, chars, List.flatMap_cons, hchar, List.cons_append]
  · have hfirst := UInt8.isUTF8FirstByte_getElem_zero_utf8EncodeChar (c := token.first)
    simpa only [hchar, List.getElem_cons_zero] using hfirst

/-- The bytes of a token stand only where its characters do. -/
theorem prefix_drop_utf8Bytes_iff {token : Token} {text : String} {offset : Nat} :
    utf8Bytes token.toString <+: (utf8Bytes text).drop offset ↔
      ∃ front back, text.toList = front ++ (token.chars ++ back) ∧ offset = utf8Length front := by
  constructor
  · intro hstands
    have hvalid : String.Pos.Raw.IsValid text ⟨offset⟩ := by
      obtain ⟨byte, rest, hbytes, hfirst⟩ := token.exists_utf8Bytes_eq_cons
      obtain ⟨tail, htail⟩ := hstands
      refine isValid_of_isUTF8FirstByte ?_ hfirst
      rw [← List.head?_drop, ← htail, hbytes, List.cons_append, List.head?_cons]
    obtain ⟨front, back, htext, rfl⟩ := isValid_iff_exists_front.mp hvalid
    rw [drop_utf8Bytes htext, utf8Bytes_prefix_iff, toList_toString,
      String.toList_ofList] at hstands
    obtain ⟨rest, rfl⟩ := hstands
    exact ⟨front, rest, htext, rfl⟩
  · rintro ⟨front, back, htext, rfl⟩
    rw [drop_utf8Bytes htext, utf8Bytes_prefix_iff, toList_toString, String.toList_ofList]
    exact List.prefix_append _ _

/-- Searching the bytes for a token finds the place where its characters first
occur. -/
theorem offset?_eq (token : Token) (text : String) :
    token.offset? text =
      (token.indexFrom? 0 text.toList).map fun place => utf8Length (text.toList.take place) := by
  have hstands (offset : Nat) :
      (utf8Bytes token.toString).isPrefixOf ((utf8Bytes text).drop offset) = true ↔
        ∃ front back, text.toList = front ++ (token.chars ++ back) ∧
          offset = utf8Length front := by
    rw [List.isPrefixOf_iff_prefix, prefix_drop_utf8Bytes_iff]
  cases hindex : token.indexFrom? 0 text.toList with
  | none =>
      rw [Option.map_none, offset?, List.find?_range_eq_none]
      intro offset _
      rw [Bool.not_eq_true', ← Bool.not_eq_true, hstands]
      rintro ⟨front, back, htext, -⟩
      obtain ⟨place, -, hplace⟩ := token.exists_indexFrom?_le 0 front back
      rw [← htext, hindex] at hplace
      exact Option.some_ne_none _ hplace.symm
  | some place =>
      obtain ⟨body, after, htext, hplace, hleast⟩ := indexFrom?_eq_some_iff.mp hindex
      have htake : text.toList.take place = body := by
        rw [htext, hplace, Nat.zero_add, List.take_left]
      rw [Option.map_some, htake, offset?, List.find?_range_eq_some]
      refine ⟨(hstands _).mpr ⟨body, after, htext, rfl⟩, ?_, ?_⟩
      · have hpos := token.size_pos
        rw [List.mem_range, ← utf8Length_toList, htext, utf8Length_append, utf8Length_append]
        unfold size at hpos
        omega
      · intro offset hoffset
        rw [Bool.not_eq_true', ← Bool.not_eq_true, hstands]
        rintro ⟨front, back, hfront, rfl⟩
        -- no occurrence has a shorter front, so this one is not in front of the first
        obtain ⟨tail, rfl⟩ : body <+: front :=
          List.prefix_of_prefix_length_le ⟨_, htext.symm⟩ ⟨_, hfront.symm⟩
            (hleast front back hfront)
        rw [utf8Length_append] at hoffset
        omega

end Token

end Marginalia
