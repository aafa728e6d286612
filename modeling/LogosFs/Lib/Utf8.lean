import LogosFs.Lib.Text

/-! # Bytes that may be no text

`decodeLossy` decodes UTF-8, and puts a replacement character where the bytes are no character: one for
each longest beginning of a character, and one for each byte that begins none. What encodes a text is
decoded to it (`decodeLossy_encode`). A text may also spell bytes by their hexadecimal digits, each
after a `%`; `percentDecode` reads them. -/

namespace LogosFs.Utf8

/-- The bytes of a text. -/
def encode (text : Str) : List UInt8 := text.flatMap String.utf8EncodeChar

/-- What stands for bytes that are no character. -/
def replacement : Char := '\uFFFD'

/-- The byte is not the first one of a character. -/
def isContinuation (byte : UInt8) : Bool := 0x80 ≤ byte ∧ byte ≤ 0xBF

/-- What may follow a first byte: the bounds of the second byte, and how many bytes come after it. -/
def following (first : UInt8) : Option (UInt8 × UInt8 × Nat) :=
  if 0xC2 ≤ first ∧ first ≤ 0xDF then some (0x80, 0xBF, 0)
  else if first = 0xE0 then some (0xA0, 0xBF, 1)
  else if first = 0xED then some (0x80, 0x9F, 1)
  else if 0xE1 ≤ first ∧ first ≤ 0xEF then some (0x80, 0xBF, 1)
  else if first = 0xF0 then some (0x90, 0xBF, 2)
  else if first = 0xF4 then some (0x80, 0x8F, 2)
  else if 0xF1 ≤ first ∧ first ≤ 0xF3 then some (0x80, 0xBF, 2)
  else none

/-- How many bytes, at the start of bytes that are no character, begin one. -/
def brokenLength : List UInt8 → Nat
  | first :: second :: rest => match following first with
    | some (low, high, more) =>
      if low ≤ second ∧ second ≤ high then 2 + ((rest.take more).takeWhile isContinuation).length
      else 1
    | none => 1
  | _ => 1

/-- The text of some bytes. -/
def decodeLossy (bytes : List UInt8) : Str := go bytes.length bytes
where
  /-- At most `fuel` characters; as many as there are bytes is always enough. -/
  go : Nat → List UInt8 → Str
    | 0, _ => []
    | _ + 1, [] => []
    | fuel + 1, bytes => match bytes.toByteArray.utf8DecodeChar? 0 with
      | some c => c :: go fuel (bytes.drop c.utf8Size)
      | none => replacement :: go fuel (bytes.drop (brokenLength bytes))

/-- `encode` writes the bytes of the characters, one after the other. -/
theorem encode_cons (c : Char) (text : Str) :
    encode (c :: text) = String.utf8EncodeChar c ++ encode text := List.flatMap_cons

/-- **A text is decoded from its bytes**: `decodeLossy` undoes `encode`. -/
theorem decodeLossy_encode (text : Str) : decodeLossy (encode text) = text := by
  have hgo : ∀ fuel, (encode text).length ≤ fuel → decodeLossy.go fuel (encode text) = text := by
    induction text with
    | nil => exact fun fuel _ => by cases fuel <;> rfl
    | cons c text ih =>
      intro fuel hfuel
      have hpos := c.utf8Size_pos
      rw [encode_cons, List.length_append, String.length_utf8EncodeChar] at hfuel
      obtain ⟨fuel, rfl⟩ : ∃ n, fuel = n + 1 := ⟨fuel - 1, by omega⟩
      -- The first character is decoded, and what is left are the bytes of the others.
      have hfirst : (encode (c :: text)).toByteArray.utf8DecodeChar? 0 = some c := by
        rw [encode_cons, List.toByteArray_append]
        exact ByteArray.utf8DecodeChar?_utf8EncodeChar_append
      have hrest : (encode (c :: text)).drop c.utf8Size = encode text := by
        rw [encode_cons, ← String.length_utf8EncodeChar, List.drop_left]
      obtain ⟨byte, bytes, hbytes⟩ : ∃ byte bytes, encode (c :: text) = byte :: bytes := by
        refine List.exists_cons_of_ne_nil fun hnil => ?_
        rw [hnil] at hfirst
        cases hfirst
      rw [hbytes] at hfirst hrest ⊢
      rw [decodeLossy.go, hfirst]
      dsimp only
      rw [hrest, ih fuel (by omega)]
      exact nofun
  exact hgo _ (Nat.le_refl _)

/-- The text of some bytes, if they are the bytes of a text. -/
def decode? (bytes : List UInt8) : Option Str :=
  if encode (decodeLossy bytes) = bytes then some (decodeLossy bytes) else none

/-- The bytes that `decode?` reads as a text are the ones that `encode` makes of it. -/
theorem decode?_eq_some_iff {bytes : List UInt8} {text : Str} :
    decode? bytes = some text ↔ bytes = encode text := by
  constructor
  · intro h
    unfold decode? at h
    split at h
    · rename_i hencode
      rw [← Option.some_inj.mp h, hencode]
    · cases h
  · rintro rfl
    rw [decode?, decodeLossy_encode, if_pos rfl]

/-! ## Percent encoding -/

/-- The value of a hexadecimal digit. -/
def hexDigit? (c : Char) : Option Nat :=
  if '0' ≤ c ∧ c ≤ '9' then some (c.toNat - '0'.toNat)
  else if 'a' ≤ c ∧ c ≤ 'f' then some (c.toNat - 'a'.toNat + 10)
  else if 'A' ≤ c ∧ c ≤ 'F' then some (c.toNat - 'A'.toNat + 10)
  else none

/-- The byte that two hexadecimal digits spell. -/
def hexByte? (high low : Char) : Option UInt8 := do
  return UInt8.ofNat (16 * (← hexDigit? high) + (← hexDigit? low))

/-- The bytes of a text in which `%` and two hexadecimal digits stand for a byte; any other `%` stands
for itself. -/
def percentDecode : Str → List UInt8
  | '%' :: high :: low :: rest => match hexByte? high low with
    | some byte => byte :: percentDecode rest
    | none => String.utf8EncodeChar '%' ++ percentDecode (high :: low :: rest)
  | c :: rest => String.utf8EncodeChar c ++ percentDecode rest
  | [] => []

/-- A text without `%` is spelled by its characters: `percentDecode` and `encode` agree on it. -/
theorem percentDecode_of_notMem {text : Str} (h : '%' ∉ text) : percentDecode text = encode text := by
  induction text with
  | nil => rfl
  | cons c rest ih =>
    rw [List.mem_cons, not_or] at h
    rw [encode_cons, ← ih h.2, percentDecode.eq_2]
    exact fun _ _ _ hc => absurd hc.symm h.1

end LogosFs.Utf8
