import Pingsix.Lib.HttpMessage
import Pingsix.Lib.Utf8

/-!
# Header values as texts

The texts of header values are the texts of visible characters and tabs, and
each such text is a header value.
-/

namespace HttpMessage

def Visible (c : Char) : Prop := c.toNat < 127 ∧ (32 ≤ c.toNat ∨ c = '\t')

theorem Visible.ascii {c : Char} (h : Visible c) : 0 < c.toNat ∧ c.toNat < 0x80 := by
  obtain ⟨hlt, h32 | rfl⟩ := h
  · omega
  · decide

theorem Visible.isVisibleAscii {c : Char} (h : Visible c) : isVisibleAscii (UInt8.ofNat c.toNat) = true := by
  obtain ⟨hlt, h32 | rfl⟩ := h
  · have hnat : (UInt8.ofNat c.toNat).toNat = c.toNat := UInt8.toNat_ofNat_of_lt' (show c.toNat < 256 by omega)
    have hle : (32 : UInt8) ≤ UInt8.ofNat c.toNat := UInt8.le_iff_toNat_le.mpr (h32.trans_eq hnat.symm)
    have hlt' : UInt8.ofNat c.toNat < 127 := UInt8.lt_iff_toNat_lt.mpr (hnat.trans_lt hlt)
    unfold HttpMessage.isVisibleAscii
    simp [hle, hlt']
  · decide

theorem isValidByte_of_visible {b : UInt8} (h : isVisibleAscii b = true) : isValidByte b = true := by
  unfold isVisibleAscii at h
  unfold isValidByte
  rw [Bool.or_eq_true, Bool.and_eq_true] at h ⊢
  refine h.imp (fun h => ?_) id
  refine ⟨h.1, ?_⟩
  have hlt : b < 127 := by simpa using h.2
  have hne : b ≠ 127 := fun e => by
    rw [e] at hlt
    exact absurd hlt (by decide)
  simpa using hne

namespace HeaderValue

theorem toStr_eq_some {v : HeaderValue} {s : String} :
    v.toStr = some s ↔ v.bytes.all isVisibleAscii = true ∧ String.ofList (v.bytes.map fun b => Char.ofNat b.toNat) = s := by
  unfold toStr
  by_cases hv : v.bytes.all isVisibleAscii = true
  · rw [if_pos hv, Option.some.injEq, and_iff_right hv]
  · rw [if_neg hv]
    exact ⟨nofun, fun h => absurd h.1 hv⟩

theorem visible_of_toStr {v : HeaderValue} {s : String} (h : v.toStr = some s) : ∀ c ∈ s.toList, Visible c := by
  obtain ⟨hall, rfl⟩ := toStr_eq_some.mp h
  intro c hc
  rw [String.toList_ofList] at hc
  obtain ⟨b, hb, rfl⟩ := List.mem_map.mp hc
  have hvis := List.all_eq_true.mp hall b hb
  unfold isVisibleAscii at hvis
  rw [Bool.or_eq_true, Bool.and_eq_true] at hvis
  cases hvis with
  | inl hvis =>
    have hle : (32 : UInt8) ≤ b := by simpa using hvis.1
    have hlt : b < 127 := by simpa using hvis.2
    unfold Visible
    rw [toNat_ofNat_byte]
    exact ⟨UInt8.lt_iff_toNat_lt.mp hlt, .inl (UInt8.le_iff_toNat_le.mp hle)⟩
  | inr hvis =>
    rw [eq_of_beq hvis]
    exact ⟨by decide, .inr rfl⟩

theorem ofString_of_visible {s : String} (h : ∀ c ∈ s.toList, Visible c) :
    ∃ v, ofString s = some v ∧ v.toStr = some s := by
  have hbytes : s.toUTF8.data.toList = s.toList.map fun c => UInt8.ofNat c.toNat := by
    rw [Utf8.toUTF8_toList, Utf8.encode_ascii fun c hc => (h c hc).ascii]
  have hvis : ∀ b ∈ s.toUTF8.data.toList, isVisibleAscii b = true := by
    intro b hb
    rw [hbytes] at hb
    obtain ⟨c, hc, rfl⟩ := List.mem_map.mp hb
    exact (h c hc).isVisibleAscii
  have hvalid : ∀ b ∈ s.toUTF8.data.toList, isValidByte b = true := fun b hb => isValidByte_of_visible (hvis b hb)
  refine ⟨⟨s.toUTF8.data.toList, hvalid⟩, by unfold ofString; rw [dif_pos hvalid], ?_⟩
  refine toStr_eq_some.mpr ⟨List.all_eq_true.mpr hvis, ?_⟩
  show String.ofList (s.toUTF8.data.toList.map fun b => Char.ofNat b.toNat) = s
  rw [hbytes, Utf8.decode_ascii fun c hc => (h c hc).ascii.2, String.ofList_toList]

end HeaderValue

end HttpMessage
