import Mathlib.Data.List.Basic

/-! # Percent-encoding

An encoder writes some bytes as a percent sign with two hexadecimal digits. It leaves percent
signs as they are, so that what was encoded before is not encoded twice. A decoder reads every
percent sign as the begin of an encoded byte. Bytes without a percent sign are read back
(`PercentEncoding.decode_encode`), and bytes with one are refused or become fewer
(`PercentEncoding.length_decode_encode`).
-/

namespace PercentEncoding

/-- The percent sign. -/
def mark : UInt8 := 37

/-- A hexadecimal digit. -/
def hexDigit (value : ℕ) : UInt8 := UInt8.ofNat (if value < 10 then 48 + value else 55 + value)

/-- The value of a hexadecimal digit of either case. -/
def hexValue (byte : UInt8) : Option ℕ :=
  if 48 ≤ byte ∧ byte ≤ 57 then some (byte.toNat - 48)
  else if 65 ≤ byte ∧ byte ≤ 70 then some (byte.toNat - 55)
  else if 97 ≤ byte ∧ byte ≤ 102 then some (byte.toNat - 87)
  else none

/-- Encode the bytes that have to be escaped. -/
def encode (escapes : UInt8 → Bool) (bytes : List UInt8) : List UInt8 :=
  bytes.flatMap fun byte =>
    if escapes byte then [mark, hexDigit (byte.toNat / 16), hexDigit (byte.toNat % 16)]
    else [byte]

/-- Decode bytes, unless a percent sign is not followed by two digits. -/
def decode : List UInt8 → Option (List UInt8)
  | [] => some []
  | byte :: bytes =>
      if byte = mark then
        match bytes with
        | high :: low :: rest =>
            match hexValue high, hexValue low with
            | some tens, some ones => (decode rest).map (UInt8.ofNat (16 * tens + ones) :: ·)
            | _, _ => none
        | _ => none
      else (decode bytes).map (byte :: ·)

section Decoding

variable {byte high low : UInt8} {bytes rest : List UInt8}

theorem decode_cons (plain : byte ≠ mark) (bytes : List UInt8) :
    decode (byte :: bytes) = (decode bytes).map (byte :: ·) := by
  rw [decode.eq_def]
  simp only [plain, ↓reduceIte]

theorem decode_mark {tens ones : ℕ} (first : hexValue high = some tens)
    (second : hexValue low = some ones) (rest : List UInt8) :
    decode (mark :: high :: low :: rest) =
      (decode rest).map (UInt8.ofNat (16 * tens + ones) :: ·) := by
  rw [decode, if_pos rfl]
  simp only [first, second]

/-- A decoded percent sign is followed by two digits. -/
theorem decode_mark_some {decoded : List UInt8} (done : decode (mark :: bytes) = some decoded) :
    ∃ high low rest tens ones tail, bytes = high :: low :: rest ∧ hexValue high = some tens ∧
      hexValue low = some ones ∧ decode rest = some tail ∧
      decoded = UInt8.ofNat (16 * tens + ones) :: tail := by
  rw [decode.eq_def] at done
  simp only [↓reduceIte] at done
  split at done
  · next high low rest =>
      split at done
      · next tens ones first second =>
          obtain ⟨tail, read, rfl⟩ := Option.map_eq_some_iff.mp done
          exact ⟨high, low, rest, tens, ones, tail, rfl, first, second, read, rfl⟩
      · cases done
  · cases done

theorem hexValue_mark : hexValue mark = none := by decide

theorem hexValue_hexDigit : ∀ value < 16, hexValue (hexDigit value) = some value := by decide

end Decoding

section Encoding

variable {escapes : UInt8 → Bool} {byte : UInt8}

theorem encode_cons_of_escapes (escaped : escapes byte = true) (bytes : List UInt8) :
    encode escapes (byte :: bytes) =
      mark :: hexDigit (byte.toNat / 16) :: hexDigit (byte.toNat % 16) :: encode escapes bytes := by
  rw [encode, List.flatMap_cons, if_pos escaped]
  rfl

theorem encode_cons_of_kept (kept : escapes byte = false) (bytes : List UInt8) :
    encode escapes (byte :: bytes) = byte :: encode escapes bytes := by
  rw [encode, List.flatMap_cons, kept, if_neg Bool.false_ne_true]
  rfl

/-- An encoded byte is read back. -/
theorem decode_encode_cons (escaped : escapes byte = true) (bytes : List UInt8) :
    decode (encode escapes (byte :: bytes)) = (decode (encode escapes bytes)).map (byte :: ·) := by
  have bound := byte.toNat_lt
  rw [encode_cons_of_escapes escaped, decode_mark (hexValue_hexDigit _ (by omega))
    (hexValue_hexDigit _ (by omega)), Nat.div_add_mod, UInt8.ofNat_toNat]

/-- Bytes without a percent sign are read back. -/
theorem decode_encode (escapes : UInt8 → Bool) {bytes : List UInt8} (plain : mark ∉ bytes) :
    decode (encode escapes bytes) = some bytes := by
  induction bytes with
  | nil => rfl
  | cons byte bytes ih =>
      have own := List.ne_of_not_mem_cons plain
      have others := List.not_mem_of_not_mem_cons plain
      cases escaped : escapes byte with
      | true => rw [decode_encode_cons escaped, ih others, Option.map_some]
      | false =>
          rw [encode_cons_of_kept escaped, decode_cons (Ne.symm own), ih others, Option.map_some]

/-- What begins with a digit after encoding has begun with it before. -/
theorem encode_eq_cons {bytes rest : List UInt8} {digit : UInt8} {value : ℕ}
    (encoded : encode escapes bytes = digit :: rest) (valued : hexValue digit = some value) :
    ∃ tail, bytes = digit :: tail ∧ rest = encode escapes tail := by
  cases bytes with
  | nil => cases encoded
  | cons byte bytes =>
      cases escaped : escapes byte with
      | true =>
          rw [encode_cons_of_escapes escaped] at encoded
          obtain ⟨rfl, -⟩ := List.cons.inj encoded
          rw [hexValue_mark] at valued
          cases valued
      | false =>
          rw [encode_cons_of_kept escaped] at encoded
          obtain ⟨rfl, rfl⟩ := List.cons.inj encoded
          exact ⟨bytes, rfl, rfl⟩

/-- Decoding gives at most as many bytes as have been encoded, and fewer if there was a percent
sign among them. -/
theorem length_decode_encode (unescaped : escapes mark = false) {bytes decoded : List UInt8}
    (done : decode (encode escapes bytes) = some decoded) :
    decoded.length ≤ bytes.length ∧ (mark ∈ bytes → decoded.length < bytes.length) := by
  induction count : bytes.length using Nat.strongRecOn generalizing bytes decoded with
  | ind total ih =>
      subst count
      cases bytes with
      | nil =>
          cases done
          exact ⟨Nat.le_refl _, nofun⟩
      | cons byte bytes =>
          by_cases percent : byte = mark
          · subst percent
            rw [encode_cons_of_kept unescaped] at done
            obtain ⟨high, low, rest, tens, ones, tail, encoded, first, second, read, rfl⟩ :=
              decode_mark_some done
            obtain ⟨others, rfl, remaining⟩ := encode_eq_cons encoded first
            obtain ⟨bytes, rfl, rfl⟩ := encode_eq_cons remaining.symm second
            have short := (ih bytes.length (by simp only [List.length_cons]; omega) read rfl).1
            simp only [List.length_cons]
            exact ⟨by omega, fun _ => by omega⟩
          · have split : decode (encode escapes (byte :: bytes)) =
                (decode (encode escapes bytes)).map (byte :: ·) := by
              cases escaped : escapes byte with
              | true => exact decode_encode_cons escaped bytes
              | false => rw [encode_cons_of_kept escaped, decode_cons percent]
            rw [split] at done
            obtain ⟨tail, read, rfl⟩ := Option.map_eq_some_iff.mp done
            obtain ⟨short, shorter⟩ := ih bytes.length (Nat.lt_succ_self _) read rfl
            refine ⟨Nat.succ_le_succ short, fun member => ?_⟩
            obtain same | later := List.mem_cons.mp member
            · exact absurd same.symm percent
            · exact Nat.succ_lt_succ (shorter later)

end Encoding

end PercentEncoding
