/-
  MappingFlow.Proofs.Markup.Encoding — texts survive being written in UTF-8.

  A character takes one to four bytes. The first tells how many, and each of the others
  holds six bits, so that one step of the reader gives the character back
  (`utf8Step_utf8Bytes`).
-/

import MappingFlow.Markup.Encoding

namespace MappingFlow.Encoding

theorem toNat_ofNat (h : n < 256) : (UInt8.ofNat n).toNat = n := UInt8.toNat_ofNat_of_lt' h

/-- A byte that continues a character holds six bits of it. -/
theorem isTail_ofNat (m : Nat) : isTail (UInt8.ofNat (0x80 + m % 64)) = true := by
  have hm := toNat_ofNat (show 0x80 + m % 64 < 256 by omega)
  unfold isTail
  generalize UInt8.ofNat (0x80 + m % 64) = b at hm
  simp [UInt8.lt_iff_toNat_lt, UInt8.le_iff_toNat_le, hm]
  omega

theorem tailBits_ofNat (m : Nat) : tailBits (UInt8.ofNat (0x80 + m % 64)) = m % 64 := by
  unfold tailBits
  rw [toNat_ofNat (by omega)]
  omega

section

variable {a b c d : UInt8} (rest : Bytes)

theorem utf8Step_one (ha : a.toNat < 0x80) : utf8Step (a :: rest) = some (Char.ofNat a.toNat, rest) := by
  simp [utf8Step, UInt8.lt_iff_toNat_lt, ha]

theorem utf8Step_two (ha : 0xC2 ≤ a.toNat) (ha' : a.toNat < 0xE0) (hb : isTail b) :
    utf8Step (a :: b :: rest) = some (Char.ofNat (a.toNat % 32 * 64 + tailBits b), rest) := by
  have h1 : ¬a.toNat < 0x80 := by omega
  simp [utf8Step, UInt8.lt_iff_toNat_lt, UInt8.le_iff_toNat_le, h1, ha, ha', hb]

theorem utf8Step_three (ha : 0xE0 ≤ a.toNat) (ha' : a.toNat < 0xF0) (hb : isTail b)
    (hc : isTail c) (hn : (a.toNat % 16 * 64 + tailBits b) * 64 + tailBits c = n) (hlong : 0x800 ≤ n)
    (hwhole : n < 0xD800 ∨ 0xDFFF < n) : utf8Step (a :: b :: c :: rest) = some (Char.ofNat n, rest) := by
  have h1 : ¬a.toNat < 0x80 := by omega
  have h2 : ¬a.toNat < 0xE0 := by omega
  have hwhole' : n < 0xD800 ∨ 0xE000 ≤ n := by omega
  simp [utf8Step, UInt8.lt_iff_toNat_lt, UInt8.le_iff_toNat_le, h1, h2, ha, ha', hb, hc, hn, hlong, hwhole']

theorem utf8Step_four (ha : 0xF0 ≤ a.toNat) (ha' : a.toNat < 0xF5) (hb : isTail b)
    (hc : isTail c) (hd : isTail d) (hn : ((a.toNat % 8 * 64 + tailBits b) * 64 + tailBits c) * 64 + tailBits d = n)
    (hlong : 0x10000 ≤ n) (hshort : n < 0x110000) : utf8Step (a :: b :: c :: d :: rest) = some (Char.ofNat n, rest) := by
  have h1 : ¬a.toNat < 0x80 := by omega
  have h2 : ¬a.toNat < 0xE0 := by omega
  have h3 : ¬a.toNat < 0xF0 := by omega
  simp [utf8Step, UInt8.lt_iff_toNat_lt, UInt8.le_iff_toNat_le, h1, h2, h3, ha, ha', hb, hc, hd, hn, hlong, hshort]

end

theorem utf8Step_utf8Bytes (c : Char) (rest : Bytes) : utf8Step (utf8Bytes c ++ rest) = some (c, rest) := by
  have hvalid : c.toNat < 0xD800 ∨ 0xDFFF < c.toNat ∧ c.toNat < 0x110000 := c.valid
  have hc : Char.ofNat c.toNat = c := Char.ofNat_toNat c
  unfold utf8Bytes
  dsimp only
  generalize c.toNat = n at hvalid hc
  subst hc
  by_cases h1 : n < 0x80
  · have ha := toNat_ofNat (show n < 256 by omega)
    rw [if_pos h1, List.singleton_append, utf8Step_one rest (by omega), ha]
  rw [if_neg h1]
  by_cases h2 : n < 0x800
  · have ha := toNat_ofNat (show 0xC0 + n / 64 < 256 by omega)
    rw [if_pos h2]
    refine (utf8Step_two rest (by omega) (by omega) (isTail_ofNat _)).trans ?_
    rw [ha, tailBits_ofNat]
    congr
    omega
  rw [if_neg h2]
  by_cases h3 : n < 0x10000
  · have ha := toNat_ofNat (show 0xE0 + n / 0x1000 < 256 by omega)
    rw [if_pos h3]
    refine utf8Step_three rest (by omega) (by omega) (isTail_ofNat _) (isTail_ofNat _) ?_ (by omega) (by omega)
    rw [ha, tailBits_ofNat, tailBits_ofNat]
    omega
  · have ha := toNat_ofNat (show 0xF0 + n / 0x40000 < 256 by omega)
    rw [if_neg h3]
    refine utf8Step_four rest (by omega) (by omega) (isTail_ofNat _) (isTail_ofNat _) (isTail_ofNat _) ?_ (by omega) (by omega)
    rw [ha, tailBits_ofNat, tailBits_ofNat, tailBits_ofNat]
    omega

theorem utf8Bytes_ne_nil (c : Char) : utf8Bytes c ≠ [] := by
  unfold utf8Bytes
  dsimp only
  split
  · simp
  · split
    · simp
    · split <;> simp

/-- A text is read back as it was written. -/
theorem decodeUtf8_encodeUtf8 (t : List Char) : decodeUtf8? (encodeUtf8 t) = some t := by
  -- Every character takes a step, and there are at least as many bytes as characters.
  suffices h : ∀ fuel done, (encodeUtf8 t).length ≤ fuel → 
      utf8From fuel done (encodeUtf8 t) = some (done.reverse ++ t) from
    h _ [] (Nat.le_refl _)
  induction t with
  | nil => intro fuel done _; cases fuel <;> simp [utf8From, encodeUtf8]
  | cons c t ih =>
    intro fuel done hfuel
    have hcons : encodeUtf8 (c :: t) = utf8Bytes c ++ encodeUtf8 t := List.flatMap_cons
    have hpos := List.length_pos_iff.mpr (utf8Bytes_ne_nil c)
    rw [hcons, List.length_append] at hfuel
    obtain ⟨fuel, rfl⟩ : ∃ k, fuel = k + 1 := ⟨fuel - 1, by omega⟩
    rw [hcons, utf8From, if_neg (by simp [utf8Bytes_ne_nil c]), utf8Step_utf8Bytes]
    dsimp only
    rw [ih fuel (c :: done) (by omega), List.reverse_cons, List.append_assoc, List.singleton_append]

end MappingFlow.Encoding
