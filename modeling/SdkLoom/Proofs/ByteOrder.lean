import Mathlib.Tactic.SplitIfs
import SdkLoom.Proofs.Maps

/-!
# The order of names is that of their bytes

Maps are sorted by the characters of their keys. The bytes of a text in UTF-8 are ordered in the same way: of two characters
the lesser one has the lesser first byte, or the same first bytes and then a lesser one. So the keys of a map are in byte
order (`NameSet.keys_in_byte_order`).
-/

namespace SdkLoom

/-- The bytes of a text. -/
def Text.bytes (s : String) : List UInt8 := s.toByteArray.data.toList

namespace Text

theorem bytes_eq (s : String) : bytes s = s.toList.flatMap String.utf8EncodeChar := by
  rw [bytes, ← String.utf8Encode_toList, List.utf8Encode, List.data_toByteArray, List.toList_toArray]

/-- Bytes that are given by their values are ordered by these. -/
theorem ofNat_cons_lt_iff {a b : Nat} (ha : a < 256) (hb : b < 256) (x y : List UInt8) :
    UInt8.ofNat a :: x < UInt8.ofNat b :: y ↔ a < b ∨ a = b ∧ x < y := by
  rw [List.cons_lt_cons_iff, UInt8.ofNat_lt_iff_lt ha hb, ← UInt8.toNat_inj, UInt8.toNat_ofNat_of_lt' ha,
    UInt8.toNat_ofNat_of_lt' hb]

/-- The bytes of a lesser character are less, whatever follows. -/
theorem encodeChar_append_lt {c d : Char} (h : c < d) (x y : List UInt8) :
    String.utf8EncodeChar c ++ x < String.utf8EncodeChar d ++ y := by
  have hlt : c.val.toNat < d.val.toNat := h
  have hmax : d.val.toNat < 0x110000 := by
    have hvalid := d.valid
    simp only [UInt32.isValidChar, Nat.isValidChar] at hvalid
    omega
  unfold String.utf8EncodeChar
  generalize c.val.toNat = v at hlt
  generalize d.val.toNat = w at hlt hmax
  -- the digits of the two values in base 64, of which the sequences of four bytes are made
  have hfirst : v / 262144 % 8 = v / 262144 ∧ w / 262144 % 8 = w / 262144 := by omega
  have hdigits : v / 262144 < w / 262144 ∨ v / 262144 = w / 262144 ∧ (v / 4096 % 64 < w / 4096 % 64 ∨
      v / 4096 % 64 = w / 4096 % 64 ∧ (v / 64 % 64 < w / 64 % 64 ∨ v / 64 % 64 = w / 64 % 64 ∧ v % 64 < w % 64)) := by
    omega
  dsimp only
  rw [hfirst.1, hfirst.2]
  split_ifs <;> simp (disch := omega) only [List.cons_append, List.nil_append, ofNat_cons_lt_iff] <;> omega

/-- Texts in order have their bytes in order. -/
theorem bytes_lt_of_lt {s t : String} (h : s < t) : bytes s < bytes t := by
  have hlists : ∀ l l' : List Char, l < l' → l.flatMap String.utf8EncodeChar < l'.flatMap String.utf8EncodeChar := by
    intro l
    induction l with
    | nil =>
      intro l' hl
      cases l' with
      | nil => exact absurd hl (List.not_lt_nil _)
      | cons d l' =>
        obtain ⟨b, bs, hbytes⟩ := List.exists_cons_of_ne_nil (String.utf8EncodeChar_ne_nil (c := d))
        rw [List.flatMap_cons, hbytes]
        exact List.nil_lt_cons _ _
    | cons c l ih =>
      intro l' hl
      cases l' with
      | nil => exact absurd hl (List.not_lt_nil _)
      | cons d l' =>
        rw [List.flatMap_cons, List.flatMap_cons]
        rcases List.cons_lt_cons_iff.1 hl with hcd | ⟨rfl, htail⟩
        · exact encodeChar_append_lt hcd _ _
        · exact List.append_left_lt (ih l' htail)
  rw [bytes_eq, bytes_eq]
  exact hlists _ _ (String.lt_iff.1 h)

end Text

/-- The names of a set are listed in the order of their bytes. -/
theorem NameSet.keys_in_byte_order (names : NameSet) : names.keys.Pairwise fun a b => Text.bytes a < Text.bytes b :=
  List.pairwise_map.2 (names.sorted.imp fun h => Text.bytes_lt_of_lt (compareOfLessAndEq_eq_lt.1 h))

end SdkLoom
