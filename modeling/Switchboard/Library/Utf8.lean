import Mathlib.Tactic

/-!
# UTF-8 lengths of texts

Encoding, decoding without errors, and replacing, with what they do to the number of bytes.
-/

namespace Switchboard.Utf8

/-- The number of bytes of characters. -/
def size (text : List Char) : ℕ := (text.map Char.utf8Size).sum

@[simp] theorem size_nil : size [] = 0 := rfl

@[simp] theorem size_cons (c : Char) (text : List Char) :
    size (c :: text) = c.utf8Size + size text := by
  simp [size]

@[simp] theorem size_append (s t : List Char) : size (s ++ t) = size s + size t := by
  simp [size]

theorem utf8ByteSize_ofList (text : List Char) : (String.ofList text).utf8ByteSize = size text := by
  rw [← String.size_toByteArray, String.toByteArray_ofList, List.utf8Encode, List.size_toByteArray,
    List.length_flatMap]
  simp [size]

theorem utf8ByteSize_eq (text : String) : text.utf8ByteSize = size text.toList := by
  rw [← utf8ByteSize_ofList, String.ofList_toList]

/-- `text.encode("utf-8")` -/
def encode (text : String) : List UInt8 := text.toList.flatMap String.utf8EncodeChar

/-- Bytes that begin no character are left out. The number says how many bytes are still part
of the last character. -/
def decodeFrom : ℕ → List UInt8 → List Char
  | _, [] => []
  | skip + 1, _ :: bytes => decodeFrom skip bytes
  | 0, b :: bytes =>
    match (b :: bytes).toByteArray.utf8DecodeChar? 0 with
    | some c => c :: decodeFrom (c.utf8Size - 1) bytes
    | none => decodeFrom 0 bytes

/-- `data.decode("utf-8", errors="ignore")` -/
def decodeIgnore (data : List UInt8) : String := .ofList (decodeFrom 0 data)

theorem size_decodeFrom (skip : ℕ) (bytes : List UInt8) :
    size (decodeFrom skip bytes) + skip ≤ max skip bytes.length := by
  induction bytes generalizing skip with
  | nil => cases skip <;> simp [decodeFrom]
  | cons b bytes ih =>
    cases skip with
    | succ skip =>
      have hrest := ih skip
      simp only [decodeFrom, List.length_cons]
      omega
    | zero =>
      simp only [decodeFrom, List.length_cons]
      split
      · next c hc =>
        have hfits := ByteArray.le_size_of_utf8DecodeChar?_eq_some hc
        have hpos := c.utf8Size_pos
        have hrest := ih (c.utf8Size - 1)
        rw [List.size_toByteArray, List.length_cons] at hfits
        rw [size_cons]
        omega
      · have hrest := ih 0
        omega

/-- Decoding gives no more bytes than it reads. -/
theorem utf8ByteSize_decodeIgnore (data : List UInt8) :
    (decodeIgnore data).utf8ByteSize ≤ data.length := by
  have hsize := size_decodeFrom 0 data
  rw [decodeIgnore, utf8ByteSize_ofList]
  omega

/-! ## Replacing -/

/-- `text.replace(old, new)` for a text `old` that is not empty. The number says how many
characters are still part of the last occurrence. -/
def replaceFrom (old new : List Char) : ℕ → List Char → List Char
  | _, [] => []
  | skip + 1, _ :: text => replaceFrom old new skip text
  | 0, c :: text =>
    if old <+: c :: text then new ++ replaceFrom old new (old.length - 1) text
    else c :: replaceFrom old new 0 text

def replace (text old new : String) : String :=
  .ofList (replaceFrom old.toList new.toList 0 text.toList)

/-- A replacement of the same length keeps the length of the text. -/
theorem size_replaceFrom {old new : List Char} (hold : old ≠ []) (hsize : size old = size new)
    (skip : ℕ) (text : List Char) :
    size (replaceFrom old new skip text) = size (text.drop skip) := by
  induction text generalizing skip with
  | nil => simp [replaceFrom]
  | cons c text ih =>
    cases skip with
    | succ skip => exact ih skip
    | zero =>
      rw [replaceFrom]
      split_ifs with hprefix
      · obtain ⟨after, happ⟩ := hprefix
        obtain ⟨d, rest, rfl⟩ := List.exists_cons_of_ne_nil hold
        rw [List.cons_append] at happ
        obtain ⟨rfl, rfl⟩ := List.cons.inj happ
        have hdrop : (rest ++ after).drop ((d :: rest).length - 1) = after := by simp
        calc size (new ++ replaceFrom (d :: rest) new ((d :: rest).length - 1) (rest ++ after))
          _ = size new + size after := by rw [size_append, ih, hdrop]
          _ = size (d :: rest ++ after) := by rw [← hsize, size_append]
      · rw [size_cons, ih]
        simp

theorem utf8ByteSize_replace {text old new : String} (hold : old ≠ "")
    (hsize : old.utf8ByteSize = new.utf8ByteSize) :
    (replace text old new).utf8ByteSize = text.utf8ByteSize := by
  rw [utf8ByteSize_eq old, utf8ByteSize_eq new] at hsize
  have hne : old.toList ≠ [] := fun h => hold (String.toList_eq_nil_iff.mp h)
  rw [replace, utf8ByteSize_ofList, size_replaceFrom hne hsize, List.drop_zero, utf8ByteSize_eq]

end Switchboard.Utf8
