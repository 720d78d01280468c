import Mathlib.Data.List.Sort
import Mathlib.Data.List.Perm.Subperm
import Mathlib.Data.String.Basic
import Pingsix.Lib.Delimited
import Pingsix.Lib.Utf8

/-!
# A canonical encoding of documents

Documents over any type of numbers and their encoding by tags, lengths and
terminated texts, with the members of an object in key order. No encoding is
the start of another, and two are equal exactly for documents that differ in
the order of members only.
-/

universe u

inductive Document (ν : Type u) where
  | null
  | bool (b : Bool)
  | num (n : ν)
  | str (s : String)
  | arr (items : List (Document ν))
  | obj (members : List (String × Document ν))

namespace Document

variable {ν : Type u}

/-! ## Encoding -/

/-- The bytes of a text and one that no text has. -/
def strBytes (s : String) : List UInt8 := s.toUTF8.data.toList ++ [0xff]

/-- The lowest bytes of a number, the lowest first. -/
def lengthBytes : Nat → Nat → List UInt8
  | 0, _ => []
  | size + 1, n => UInt8.ofNat (n % 256) :: lengthBytes size (n / 256)

def keyLe {α : Type u} (a b : String × α) : Prop := a.1 ≤ b.1

instance {α : Type u} (a b : String × α) : Decidable (keyLe a b) := inferInstanceAs (Decidable (a.1 ≤ b.1))

mutual
def encode (render : ν → String) : Document ν → List UInt8
  | .null => [0]
  | .bool b => [1, if b then 1 else 0]
  | .num n => 2 :: strBytes (render n)
  | .str s => 3 :: strBytes s
  | .arr items => 4 :: (lengthBytes 8 items.length ++ encodeItems render items)
  | .obj members =>
    5 :: (lengthBytes 8 members.length ++
      ((encodeMembers render members).insertionSort keyLe).flatMap fun m => strBytes m.1 ++ m.2)

def encodeItems (render : ν → String) : List (Document ν) → List UInt8
  | [] => []
  | item :: items => encode render item ++ encodeItems render items

def encodeMembers (render : ν → String) : List (String × Document ν) → List (String × List UInt8)
  | [] => []
  | (key, value) :: members => (key, encode render value) :: encodeMembers render members
end

/-! ## Documents in memory -/

mutual
/-- Lengths fit into 64 bits and objects have distinct keys. -/
def Fits : Document ν → Prop
  | .arr items => items.length < 2 ^ 64 ∧ FitsItems items
  | .obj members => members.length < 2 ^ 64 ∧ (members.map Prod.fst).Nodup ∧ FitsMembers members
  | _ => True

def FitsItems : List (Document ν) → Prop
  | [] => True
  | item :: items => Fits item ∧ FitsItems items

def FitsMembers : List (String × Document ν) → Prop
  | [] => True
  | (_, value) :: members => Fits value ∧ FitsMembers members
end

mutual
/-- The same document up to the order of members, with numbers compared by the relation. -/
def Same (eqv : ν → ν → Prop) : Document ν → Document ν → Prop
  | .null, .null => True
  | .bool a, .bool b => a = b
  | .num m, .num n => eqv m n
  | .str s, .str t => s = t
  | .arr as, .arr bs => SameItems eqv as bs
  | .obj ms, .obj ns => ms.length = ns.length ∧ SameMembers eqv ms ns
  | _, _ => False

def SameItems (eqv : ν → ν → Prop) : List (Document ν) → List (Document ν) → Prop
  | [], [] => True
  | a :: as, b :: bs => Same eqv a b ∧ SameItems eqv as bs
  | _, _ => False

/-- Each member has one of its key and of the same value among the others. -/
def SameMembers (eqv : ν → ν → Prop) : List (String × Document ν) → List (String × Document ν) → Prop
  | [], _ => True
  | (key, value) :: ms, ns => (∃ other, (key, other) ∈ ns ∧ Same eqv value other) ∧ SameMembers eqv ms ns
end

/-! ## Pieces -/

theorem byte_ne_ff {c : Char} {b : UInt8} (h : b ∈ String.utf8EncodeChar c) : b ≠ 0xff := by
  have hbyte : ∀ n, n < 255 → UInt8.ofNat n ≠ 0xff := by
    intro n hn he
    have := congrArg UInt8.toNat he
    rw [Utf8.toNat_ofNat (by omega)] at this
    have h255 : (0xff : UInt8).toNat = 255 := rfl
    omega
  have hv : c.toNat < 0x110000 := by
    obtain h | h := c.valid
    · exact Nat.lt_trans h (by decide)
    · exact h.2
  unfold String.utf8EncodeChar at h
  simp only [show c.val.toNat = c.toNat from rfl] at h
  generalize c.toNat = v at h hv
  split at h
  · rw [List.mem_singleton.mp h]
    exact hbyte v (by omega)
  split at h
  · simp only [List.mem_cons, List.not_mem_nil, or_false] at h
    obtain rfl | rfl := h <;> exact hbyte _ (by omega)
  split at h
  · simp only [List.mem_cons, List.not_mem_nil, or_false] at h
    obtain rfl | rfl | rfl := h <;> exact hbyte _ (by omega)
  · simp only [List.mem_cons, List.not_mem_nil, or_false] at h
    obtain rfl | rfl | rfl | rfl := h <;> exact hbyte _ (by omega)

theorem ff_not_mem (s : String) : 0xff ∉ s.toUTF8.data.toList := by
  rw [Utf8.toUTF8_toList, List.mem_flatMap]
  rintro ⟨c, -, hb⟩
  exact byte_ne_ff hb rfl

theorem strBytes_append_inj {s t : String} {r r' : List UInt8} (h : strBytes s ++ r = strBytes t ++ r') :
    s = t ∧ r = r' := by
  unfold strBytes at h
  rw [List.append_assoc, List.append_assoc, List.singleton_append, List.singleton_append] at h
  obtain ⟨hs, hr⟩ := Delimited.append_sep_inj (ff_not_mem s) (ff_not_mem t) h
  exact ⟨String.toByteArray_inj.mp (ByteArray.ext (Array.toList_inj.mp hs)), hr⟩

theorem lengthBytes_append_inj : ∀ {size m n : Nat} {r r' : List UInt8}, m < 256 ^ size → n < 256 ^ size →
    lengthBytes size m ++ r = lengthBytes size n ++ r' → m = n ∧ r = r'
  | 0, m, n, r, r', hm, hn, h => by
    rw [Nat.pow_zero, Nat.lt_one_iff] at hm hn
    exact ⟨hm.trans hn.symm, h⟩
  | size + 1, m, n, r, r', hm, hn, h => by
    obtain ⟨hlow, hrest⟩ := List.cons.inj h
    rw [Nat.pow_succ] at hm hn
    obtain ⟨hhigh, hr⟩ := lengthBytes_append_inj (Nat.div_lt_of_lt_mul (by rwa [Nat.mul_comm]))
      (Nat.div_lt_of_lt_mul (by rwa [Nat.mul_comm])) hrest
    have hmod : m % 256 = n % 256 := by
      have := congrArg UInt8.toNat hlow
      rwa [Utf8.toNat_ofNat (Nat.mod_lt _ (by decide)), Utf8.toNat_ofNat (Nat.mod_lt _ (by decide))] at this
    refine ⟨?_, hr⟩
    rw [← Nat.div_add_mod m 256, ← Nat.div_add_mod n 256, hhigh, hmod]

variable {render : ν → String} {eqv : ν → ν → Prop}

theorem encodeMembers_eq : ∀ ms : List (String × Document ν),
    encodeMembers render ms = ms.map fun m => (m.1, encode render m.2)
  | [] => rfl
  | (key, value) :: ms => by rw [encodeMembers, encodeMembers_eq ms, List.map_cons]

theorem fitsMembers_iff : ∀ {ms : List (String × Document ν)}, FitsMembers ms ↔ ∀ m ∈ ms, Fits m.2
  | [] => by simp [FitsMembers]
  | (key, value) :: ms => by simp [FitsMembers, fitsMembers_iff]

theorem sameMembers_iff : ∀ {ms ns : List (String × Document ν)},
    SameMembers eqv ms ns ↔ ∀ m ∈ ms, ∃ other, (m.1, other) ∈ ns ∧ Same eqv m.2 other
  | [], ns => by simp [SameMembers]
  | (key, value) :: ms, ns => by simp [SameMembers, sameMembers_iff]

/-- The members in key order, each as its key and its value's encoding. -/
theorem encode_obj (ms : List (String × Document ν)) : encode render (.obj ms) =
    5 :: (lengthBytes 8 ms.length ++
      (ms.insertionSort keyLe).flatMap fun m => strBytes m.1 ++ encode render m.2) := by
  rw [encode, encodeMembers_eq,
    ← List.map_insertionSort keyLe keyLe (fun m : String × Document ν => (m.1, encode render m.2)) ms
      fun _ _ _ _ => Iff.rfl,
    List.flatMap_map]

/-! ## Unambiguity -/

/-- Members whose values are told apart by their encodings are told apart by the encodings of the lists. -/
theorem members_append_inj : ∀ {as bs : List (String × Document ν)} {r s : List UInt8},
    (∀ a ∈ as, ∀ b ∈ bs, ∀ r s, encode render a.2 ++ r = encode render b.2 ++ s → Same Eq a.2 b.2 ∧ r = s) →
      as.length = bs.length →
        (as.flatMap fun m => strBytes m.1 ++ encode render m.2) ++ r =
          (bs.flatMap fun m => strBytes m.1 ++ encode render m.2) ++ s →
            List.Forall₂ (fun a b => a.1 = b.1 ∧ Same Eq a.2 b.2) as bs ∧ r = s
  | [], [], r, s, _, _, h => ⟨.nil, h⟩
  | [], _ :: _, _, _, _, hlen, _ => by cases hlen
  | _ :: _, [], _, _, _, hlen, _ => by cases hlen
  | a :: as, b :: bs, r, s, hinj, hlen, h => by
    simp only [List.flatMap_cons, List.append_assoc] at h
    obtain ⟨hkey, hvalue⟩ := strBytes_append_inj h
    obtain ⟨hsame, hrest⟩ := hinj a List.mem_cons_self b List.mem_cons_self _ _ hvalue
    obtain ⟨hall, hr⟩ := members_append_inj
      (fun a ha b hb => hinj a (List.mem_cons_of_mem _ ha) b (List.mem_cons_of_mem _ hb)) (Nat.succ.inj hlen) hrest
    exact ⟨.cons ⟨hkey, hsame⟩ hall, hr⟩

theorem exists_of_forall₂ {α β : Type u} {R : α → β → Prop} {as : List α} {bs : List β} (h : List.Forall₂ R as bs) :
    ∀ a ∈ as, ∃ b ∈ bs, R a b := by
  induction h with
  | nil => exact fun a ha => nomatch ha
  | cons hab _ ih =>
    intro a ha
    cases List.mem_cons.mp ha with
    | inl he => exact ⟨_, List.mem_cons_self, he ▸ hab⟩
    | inr ha =>
      obtain ⟨b, hb, hr⟩ := ih a ha
      exact ⟨b, List.mem_cons_of_mem _ hb, hr⟩

theorem sameMembers_of_sorted {ms ns : List (String × Document ν)}
    (h : List.Forall₂ (fun a b => a.1 = b.1 ∧ Same eqv a.2 b.2) (ms.insertionSort keyLe) (ns.insertionSort keyLe)) :
    SameMembers eqv ms ns := by
  rw [sameMembers_iff]
  intro m hm
  obtain ⟨n, hn, hkey, hsame⟩ := exists_of_forall₂ h m ((List.mem_insertionSort keyLe).mpr hm)
  refine ⟨n.2, ?_, hsame⟩
  rw [hkey]
  exact (List.mem_insertionSort keyLe).mp hn

mutual
/-- No encoding starts another one, and two are equal only for documents with the same members. -/
theorem encode_append_inj (hr : Function.Injective render) : ∀ (v w : Document ν) (r s : List UInt8), Fits v → Fits w →
    encode render v ++ r = encode render w ++ s → Same Eq v w ∧ r = s
  | .null, w, r, s, _, _, h => by
    cases w with
    | null => exact ⟨trivial, (List.cons.inj h).2⟩
    | _ => exact absurd (List.cons.inj h).1 (by decide)
  | .bool a, w, r, s, _, _, h => by
    cases w with
    | bool b =>
      obtain ⟨hb, hr⟩ := List.cons.inj (List.cons.inj h).2
      refine ⟨?_, hr⟩
      cases a with
      | false => cases b with
        | false => rfl
        | true => cases hb
      | true => cases b with
        | false => cases hb
        | true => rfl
    | _ => exact absurd (List.cons.inj h).1 (by decide)
  | .num n, w, r, s, _, _, h => by
    cases w with
    | num m =>
      obtain ⟨hs, hr'⟩ := strBytes_append_inj (List.cons.inj h).2
      exact ⟨hr hs, hr'⟩
    | _ => exact absurd (List.cons.inj h).1 (by decide)
  | .str t, w, r, s, _, _, h => by
    cases w with
    | str u => exact strBytes_append_inj (List.cons.inj h).2
    | _ => exact absurd (List.cons.inj h).1 (by decide)
  | .arr items, w, r, s, hv, hw, h => by
    cases w with
    | arr others =>
      rw [encode, encode, List.cons_append, List.cons_append, List.append_assoc, List.append_assoc] at h
      obtain ⟨hlen, hitems⟩ := lengthBytes_append_inj hv.1 hw.1 (List.cons.inj h).2
      exact encodeItems_append_inj hr items others r s hv.2 hw.2 hlen hitems
    | _ => exact absurd (List.cons.inj h).1 (by decide)
  | .obj ms, w, r, s, hv, hw, h => by
    cases w with
    | obj ns =>
      rw [encode_obj, encode_obj, List.cons_append, List.cons_append, List.append_assoc, List.append_assoc] at h
      obtain ⟨hlen, hmembers⟩ := lengthBytes_append_inj hv.1 hw.1 (List.cons.inj h).2
      have hvalues := encodeValues_append_inj hr ms hv.2.2
      have hsorted := (List.perm_insertionSort keyLe ms).length_eq
      have hsorted' := (List.perm_insertionSort keyLe ns).length_eq
      obtain ⟨hall, hrest⟩ := members_append_inj (fun a ha b hb r s =>
        hvalues a ((List.mem_insertionSort keyLe).mp ha) b.2 r s
          (fitsMembers_iff.mp hw.2.2 b ((List.mem_insertionSort keyLe).mp hb)))
        (hsorted.trans (hlen.trans hsorted'.symm)) hmembers
      exact ⟨⟨hlen, sameMembers_of_sorted hall⟩, hrest⟩
    | _ => exact absurd (List.cons.inj h).1 (by decide)

theorem encodeItems_append_inj (hr : Function.Injective render) : ∀ (as bs : List (Document ν)) (r s : List UInt8),
    FitsItems as → FitsItems bs → as.length = bs.length → encodeItems render as ++ r = encodeItems render bs ++ s →
      SameItems Eq as bs ∧ r = s
  | [], [], r, s, _, _, _, h => ⟨trivial, h⟩
  | [], _ :: _, _, _, _, _, hlen, _ => by cases hlen
  | _ :: _, [], _, _, _, _, hlen, _ => by cases hlen
  | a :: as, b :: bs, r, s, ha, hb, hlen, h => by
    rw [encodeItems, encodeItems, List.append_assoc, List.append_assoc] at h
    obtain ⟨hsame, hrest⟩ := encode_append_inj hr a b _ _ ha.1 hb.1 h
    obtain ⟨hall, hr⟩ := encodeItems_append_inj hr as bs r s ha.2 hb.2 (Nat.succ.inj hlen) hrest
    exact ⟨⟨hsame, hall⟩, hr⟩

theorem encodeValues_append_inj (hr : Function.Injective render) : ∀ (ms : List (String × Document ν)), FitsMembers ms →
    ∀ m ∈ ms, ∀ (w : Document ν) (r s : List UInt8), Fits w → encode render m.2 ++ r = encode render w ++ s →
      Same Eq m.2 w ∧ r = s
  | (key, value) :: ms, hms, m, hm, w, r, s, hw, h => by
    cases List.mem_cons.mp hm with
    | inl he =>
      subst he
      exact encode_append_inj hr value w r s hms.1 hw h
    | inr hm => exact encodeValues_append_inj hr ms hms.2 m hm w r s hw h
end

theorem encode_arr_append_inj (hr : Function.Injective render) {as bs : List (Document ν)} {r s : List UInt8}
    (ha : FitsItems as) (hb : FitsItems bs) (hlen : as.length = bs.length)
    (h : encode render (.arr as) ++ r = encode render (.arr bs) ++ s) : SameItems Eq as bs ∧ r = s := by
  rw [encode, encode, hlen, List.cons_append, List.cons_append, List.append_assoc, List.append_assoc] at h
  exact encodeItems_append_inj hr as bs r s ha hb hlen (List.append_cancel_left (List.cons.inj h).2)

/-! ## One encoding for each document -/

theorem keyLe_total (a b : String × List UInt8) : keyLe a b ∨ keyLe b a := le_total a.1 b.1

/-- Members in another order are the same members in key order. -/
theorem insertionSort_eq_of_perm {as bs : List (String × List UInt8)} (h : as.Perm bs) (hn : (as.map Prod.fst).Nodup) :
    as.insertionSort keyLe = bs.insertionSort keyLe := by
  have : Std.Total (@keyLe (List UInt8)) := ⟨keyLe_total⟩
  have : IsTrans (String × List UInt8) keyLe := ⟨fun a b c (hab : a.1 ≤ b.1) hbc => hab.trans hbc⟩
  refine @List.Perm.eq_of_pairwise _ keyLe _ _ (fun a b ha hb (hab : a.1 ≤ b.1) hba => ?_)
    (List.pairwise_insertionSort keyLe as) (List.pairwise_insertionSort keyLe bs)
    ((List.perm_insertionSort keyLe as).trans (h.trans (List.perm_insertionSort keyLe bs).symm))
  have ha' := (List.mem_insertionSort keyLe).mp ha
  have hb' := h.mem_iff.mpr ((List.mem_insertionSort keyLe).mp hb)
  exact List.inj_on_of_nodup_map hn ha' hb' (hab.antisymm hba)

theorem keys_encodeMembers (ms : List (String × Document ν)) :
    (encodeMembers render ms).map Prod.fst = ms.map Prod.fst := by
  rw [encodeMembers_eq, List.map_map]
  rfl

mutual
theorem encode_eq_of_same : ∀ (v w : Document ν), Fits v → Fits w → Same Eq v w → encode render v = encode render w
  | .null, w, _, _, h => by
    cases w with
    | null => rfl
    | _ => exact h.elim
  | .bool a, w, _, _, h => by
    cases w with
    | bool b => rw [show a = b from h]
    | _ => exact h.elim
  | .num n, w, _, _, h => by
    cases w with
    | num m => rw [show n = m from h]
    | _ => exact h.elim
  | .str s, w, _, _, h => by
    cases w with
    | str t => rw [show s = t from h]
    | _ => exact h.elim
  | .arr items, w, hv, hw, h => by
    cases w with
    | arr others =>
      obtain ⟨hlen, hitems⟩ := encodeItems_eq_of_same items others hv.2 hw.2 h
      rw [encode, encode, hlen, hitems]
    | _ => exact h.elim
  | .obj ms, w, hv, hw, h => by
    cases w with
    | obj ns =>
      have hsub := mem_encodeMembers_of_same ms ns h.2 hv.2.2 hw.2.2
      have hkeys : ((encodeMembers render ms).map Prod.fst).Nodup := keys_encodeMembers ms ▸ hv.2.1
      have hlen : (encodeMembers render ns).length ≤ (encodeMembers render ms).length := by
        rw [encodeMembers_eq, encodeMembers_eq, List.length_map, List.length_map, h.1]
      have hperm := (List.subperm_of_subset (List.Nodup.of_map _ hkeys) hsub).perm_of_length_le hlen
      rw [encode, encode, insertionSort_eq_of_perm hperm hkeys, h.1]
    | _ => exact h.elim

theorem encodeItems_eq_of_same : ∀ (as bs : List (Document ν)), FitsItems as → FitsItems bs → SameItems Eq as bs →
    as.length = bs.length ∧ encodeItems render as = encodeItems render bs
  | [], [], _, _, _ => ⟨rfl, rfl⟩
  | [], _ :: _, _, _, h => h.elim
  | _ :: _, [], _, _, h => h.elim
  | a :: as, b :: bs, ha, hb, h => by
    obtain ⟨hlen, hitems⟩ := encodeItems_eq_of_same as bs ha.2 hb.2 h.2
    exact ⟨congrArg Nat.succ hlen, by rw [encodeItems, encodeItems, encode_eq_of_same a b ha.1 hb.1 h.1, hitems]⟩

theorem mem_encodeMembers_of_same : ∀ (ms ns : List (String × Document ν)), SameMembers Eq ms ns → FitsMembers ms →
    FitsMembers ns → encodeMembers render ms ⊆ encodeMembers render ns
  | [], _, _, _, _ => List.nil_subset _
  | (key, value) :: ms, ns, h, hms, hns => by
    obtain ⟨⟨other, hm, hsame⟩, hrest⟩ := h
    rw [encodeMembers, List.cons_subset]
    refine ⟨?_, mem_encodeMembers_of_same ms ns hrest hms.2 hns⟩
    rw [encode_eq_of_same value other hms.1 (fitsMembers_iff.mp hns _ hm) hsame, encodeMembers_eq]
    exact List.mem_map.mpr ⟨_, hm, rfl⟩
end

/-- The encodings of two documents are equal if and only if the documents are the same up to the order of members. -/
theorem encode_eq_iff (hr : Function.Injective render) {v w : Document ν} (hv : Fits v) (hw : Fits w) :
    encode render v = encode render w ↔ Same Eq v w := by
  constructor
  · intro h
    exact (encode_append_inj hr v w [] [] hv hw (by rw [h])).1
  · exact encode_eq_of_same v w hv hw

/-! ## One member changed -/

/-- The member with the value in place of its own, if it has the key. -/
def substMember (key : String) (value : Document ν) (m : String × Document ν) : String × Document ν :=
  (m.1, if m.1 = key then value else m.2)

theorem flatMap_subst_inj {key : String} {x y : Document ν} {P : Prop}
    (hinj : ∀ r s, encode render x ++ r = encode render y ++ s → P) :
    ∀ ms : List (String × Document ν), key ∈ ms.map Prod.fst →
      ((ms.map (substMember key x)).flatMap fun m => strBytes m.1 ++ encode render m.2) =
        ((ms.map (substMember key y)).flatMap fun m => strBytes m.1 ++ encode render m.2) → P
  | [], hm, _ => absurd hm List.not_mem_nil
  | m :: ms, hm, h => by
    simp only [List.map_cons, List.flatMap_cons, List.append_assoc] at h
    have hvalue := (strBytes_append_inj h).2
    by_cases hkey : m.1 = key
    · simp only [substMember, if_pos hkey] at hvalue
      exact hinj _ _ hvalue
    · simp only [substMember, if_neg hkey] at hvalue
      refine flatMap_subst_inj hinj ms ?_ (List.append_cancel_left hvalue)
      exact (List.mem_cons.mp hm).resolve_left fun he => hkey he.symm

/-- Objects that differ in one member are told apart by what tells the values of that member apart. -/
theorem encode_subst_inj {key : String} {x y : Document ν} {P : Prop} {ms : List (String × Document ν)}
    (hinj : ∀ r s, encode render x ++ r = encode render y ++ s → P) (hkey : key ∈ ms.map Prod.fst)
    (h : encode render (.obj (ms.map (substMember key x))) = encode render (.obj (ms.map (substMember key y)))) :
    P := by
  rw [encode_obj, encode_obj, List.length_map, List.length_map] at h
  have hmembers := List.append_cancel_left (List.cons.inj h).2
  rw [← List.map_insertionSort keyLe keyLe (substMember key x) ms fun _ _ _ _ => Iff.rfl,
    ← List.map_insertionSort keyLe keyLe (substMember key y) ms fun _ _ _ _ => Iff.rfl] at hmembers
  refine flatMap_subst_inj hinj _ ?_ hmembers
  obtain ⟨m, hm, he⟩ := List.mem_map.mp hkey
  exact List.mem_map.mpr ⟨m, (List.mem_insertionSort keyLe).mpr hm, he⟩

end Document
