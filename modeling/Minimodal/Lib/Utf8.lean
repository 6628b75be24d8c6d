import Mathlib.Data.List.Basic

namespace Lib

theorem toList_loop (b : ByteArray) (i : Nat) (r : List UInt8) :
    ByteArray.toList.loop b i r = r.reverse ++ b.data.toList.drop i := by
  fun_induction ByteArray.toList.loop b i r with
  | case1 i r hi ih =>
    have hget : b.data.toList.drop i = b.get! i :: b.data.toList.drop (i + 1) := by
      rw [List.drop_eq_getElem_cons (by simpa using hi)]
      simp [ByteArray.get!, hi]
    rw [ih, hget]
    simp
  | case2 i r hi => simp [List.drop_eq_nil_of_le, Nat.le_of_not_lt hi]

theorem toByteArray_toList (b : ByteArray) : b.toList.toByteArray = b := by
  refine ByteArray.ext ?_
  rw [List.data_toByteArray, ByteArray.toList, toList_loop]
  simp

theorem toByteArray_take (b : List UInt8) (n : Nat) :
    (b.take n).toByteArray = b.toByteArray.extract 0 n := by
  refine ByteArray.ext ?_
  simp [List.data_toByteArray]

def IsUtf8 (b : List UInt8) : Prop := b.toByteArray.IsValidUTF8

namespace IsUtf8

variable {a b m : List UInt8} {n : Nat}

theorem append (ha : IsUtf8 a) (hm : IsUtf8 m) : IsUtf8 (a ++ m) := by
  unfold IsUtf8
  rw [List.toByteArray_append]
  exact ByteArray.IsValidUTF8.append ha hm

theorem char (c : Char) : IsUtf8 (String.utf8EncodeChar c) :=
  Char.isValidUTF8_toByteArray_utf8EncodeChar

theorem nil : IsUtf8 [] := by
  unfold IsUtf8
  rw [List.toByteArray_nil]
  exact ByteArray.isValidUTF8_empty

theorem replicate {c : UInt8} (hc : IsUtf8 [c]) (n : Nat) : IsUtf8 (List.replicate n c) := by
  induction n with
  | zero => exact nil
  | succ n ih => exact hc.append ih

theorem getElem_zero (hb : IsUtf8 b) (hne : 0 < b.length) : b[0].IsUTF8FirstByte := by
  have hfirst := hb.isUTF8FirstByte_getElem_zero (by simpa using hne)
  rwa [List.getElem_toByteArray] at hfirst

theorem take_iff (hb : IsUtf8 b) (hn : n < b.length) :
    IsUtf8 (b.take n) ↔ b[n].IsUTF8FirstByte := by
  obtain ⟨s, hs⟩ : ∃ s : String, s.toByteArray = b.toByteArray := ⟨String.ofByteArray _ hb, rfl⟩
  have hsize : s.utf8ByteSize = b.length := by
    rw [← String.size_toByteArray, hs, List.size_toByteArray]
  have hlt : (⟨n⟩ : String.Pos.Raw) < s.rawEndPos := by
    simpa [String.Pos.Raw.lt_iff, hsize] using hn
  have hvalid : String.Pos.Raw.IsValid s ⟨n⟩ ↔ IsUtf8 (b.take n) := by
    rw [String.Pos.Raw.isValid_iff_isValidUTF8_extract_zero, hs, ← toByteArray_take]
    exact and_iff_right (Nat.le_of_lt hlt)
  have hbyte : s.getUTF8Byte ⟨n⟩ hlt = b[n] := by
    rw [String.getUTF8Byte_eq_getElem]
    simp only [hs, List.getElem_toByteArray]
  rw [← hvalid, String.Pos.Raw.isValid_iff_isUTF8FirstByte, ← hbyte]
  constructor
  · rintro (he | ⟨_, hfirst⟩)
    · rw [he] at hlt
      exact absurd hlt (Nat.lt_irrefl _)
    · exact hfirst
  · exact fun hfirst => .inr ⟨hlt, hfirst⟩

theorem append_iff (hm : IsUtf8 m) (hne : m ≠ []) : IsUtf8 (a ++ m) ↔ IsUtf8 a := by
  refine ⟨fun h => ?_, fun ha => ha.append hm⟩
  have hpos : 0 < m.length := List.length_pos_iff.mpr hne
  have htake := (h.take_iff (n := a.length) (by simpa using hpos)).mpr
  rw [List.take_left] at htake
  refine htake ?_
  rw [List.getElem_append_right (Nat.le_refl _)]
  simpa using hm.getElem_zero hpos

end IsUtf8

end Lib
