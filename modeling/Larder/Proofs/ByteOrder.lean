import Mathlib
import Larder.Keyed

/-!
# The order of keys and of their bytes

Keys are compared by their code points. `lt_iff_bytes_lt` says that this is the order of their UTF-8
bytes: the encoding of a greater code point is greater at the first byte where the two differ,
whatever follows them (`encodeChar_lt`). Longer encodings begin with greater bytes, and those of one
length are the digits of the code point to the base 64.
-/

namespace Larder.Text

/-- The UTF-8 bytes of a text. -/
def bytes (s : String) : List UInt8 := s.toUTF8.data.toList

/-- The UTF-8 bytes of characters, one after the other. -/
def encoded (cs : List Char) : List UInt8 := cs.flatMap String.utf8EncodeChar

theorem bytes_eq_encoded (s : String) : bytes s = encoded s.toList := by
  rw [bytes, String.toUTF8_eq_toByteArray, ← String.utf8Encode_toList, List.utf8Encode, encoded,
    List.data_toByteArray]

theorem codePoint_lt (c : Char) : c.val.toNat < 1114112 := by
  rcases c.valid with h | h
  · exact Nat.lt_trans h (by decide)
  · exact h.2

/-- The bytes of a lesser character come first, whatever follows. -/
theorem encodeChar_lt {c d : Char} (h : c < d) (xs ys : List UInt8) :
    String.utf8EncodeChar c ++ xs < String.utf8EncodeChar d ++ ys := by
  have hlt : c.val.toNat < d.val.toNat := h
  have hd : d.val.toNat < 1114112 := codePoint_lt d
  -- all digits are remainders of quotients by the base, one from the other
  have hsquare : ∀ n, n / 4096 = n / 64 / 64 := by omega
  have hcube : ∀ n, n / 262144 = n / 64 / 64 / 64 := by omega
  unfold String.utf8EncodeChar
  generalize c.val.toNat = m at *
  generalize d.val.toNat = n at *
  dsimp only
  simp only [hsquare, hcube]
  split_ifs <;>
    simp only [List.cons_append, List.nil_append, List.cons_lt_cons_iff, UInt8.lt_iff_toNat_lt,
      ← UInt8.toNat_inj, UInt8.toNat_ofNat'] <;>
    omega

theorem encoded_lt {cs ds : List Char} (h : cs < ds) : encoded cs < encoded ds := by
  induction cs generalizing ds with
  | nil =>
      cases ds with
      | nil => cases h
      | cons d ds =>
          have hd : String.utf8EncodeChar d ≠ [] := String.utf8EncodeChar_ne_nil
          obtain ⟨b, bs, hbytes⟩ := List.exists_cons_of_ne_nil hd
          show [] < String.utf8EncodeChar d ++ encoded ds
          rw [hbytes]
          exact .nil
  | cons c cs ih =>
      cases ds with
      | nil => cases h
      | cons d ds =>
          rcases List.cons_lt_cons_iff.mp h with hchar | ⟨rfl, hrest⟩
          · exact encodeChar_lt hchar (encoded cs) (encoded ds)
          · exact List.append_left_lt (ih hrest)

theorem encoded_lt_iff {cs ds : List Char} : encoded cs < encoded ds ↔ cs < ds := by
  refine ⟨fun h => ?_, encoded_lt⟩
  rcases lt_trichotomy cs ds with hlt | rfl | hgt
  · exact hlt
  · exact absurd h (List.lt_irrefl _)
  · exact absurd h (List.lt_asymm (encoded_lt hgt))

/-- Texts are in the order of their bytes. -/
theorem lt_iff_bytes_lt {s t : String} : s < t ↔ bytes s < bytes t := by
  rw [bytes_eq_encoded, bytes_eq_encoded, encoded_lt_iff, String.lt_iff]

end Larder.Text
