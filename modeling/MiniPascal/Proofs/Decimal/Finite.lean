import MiniPascal.Decimal.Binary

/-!
# Integers as doubles

A double is made from a bit pattern by taking the pattern apart and putting it together again. This
leaves the exponent of a finite number finite. So an integer that is not beyond the finite doubles
becomes one that has an integer part (`truncate_ofInt?`).
-/

namespace MiniPascal.Decimal

open Float.Model (Format)
open Float.Model.UnpackedFloat

/-- The exponent that stands for infinity and for what is not a number. -/
abbrev topExponent : BitVec Format.binary64.exponentBits := -1#11

theorem toNat_unpackExponent (b : BitVec Format.binary64.numBits) :
    (unpackExponent b).toNat = b.toNat / Nat.pow 2 52 % 2048 := by
  unfold unpackExponent
  rw [BitVec.toNat_cast, BitVec.extractLsb_toNat, Nat.shiftRight_eq_div_pow]
  rfl

/-- The exponent of a finite number in the range of the format. -/
theorem unpackExponent_pack_finite {s : Sign} {m : Nat} {e : Int} (hm : 0 < m)
    (h : (e + 1075).toNat < 2047) :
    unpackExponent (pack Format.binary64 (.finite s m e hm)) ≠ topExponent := by
  have hbias : e + (1023 : Int) + (52 : Int) = e + 1075 := by omega
  have hpack : pack Format.binary64 (.finite s m e hm) =
      if 2048 ≤ (e + (1023 : Int) + (52 : Int)).toNat + 1 then packedInfinity Format.binary64 s
      else if m.log2 + 1 = 53 then
        packComponents Format.binary64 s (.ofNat 11 (e + (1023 : Int) + (52 : Int)).toNat)
          (.ofNat 52 m)
      else packComponents Format.binary64 s 0 (.ofNat 52 m) := rfl
  rw [hpack, hbias, if_neg (by omega)]
  split
  · rw [unpackExponent_packComponents]
    intro ht
    have hnat := congrArg BitVec.toNat ht
    rw [BitVec.toNat_ofNat] at hnat
    have htop : topExponent.toNat = 2047 := rfl
    omega
  · rw [unpackExponent_packComponents]
    decide

/-- A bit pattern with a finite exponent is that of a finite number in the range of the format. -/
theorem unpack_finite {b : BitVec Format.binary64.numBits} (h : unpackExponent b ≠ topExponent) :
    (∃ s, unpack Format.binary64 b = .zero s) ∨
      ∃ s m e hm, unpack Format.binary64 b = .finite s m e hm ∧ (e + 1075).toNat < 2047 := by
  have hlt : (unpackExponent b).toNat < 2047 := by
    have hle : (unpackExponent b).toNat < 2048 := (unpackExponent b).isLt
    have hne : (unpackExponent b).toNat ≠ 2047 := fun ht => h (BitVec.eq_of_toNat_eq ht)
    omega
  by_cases hzero : unpackExponent b = .ofNat _ 0
  · have hnat : (unpackExponent b).toNat = 0 := congrArg BitVec.toNat hzero
    by_cases hmantissa : unpackMantissa b = .ofNat _ 0
    · exact .inl ⟨_, (if_neg h).trans ((if_pos hzero).trans (dif_pos hmantissa))⟩
    · refine .inr ⟨_, _, _, _, (if_neg h).trans ((if_pos hzero).trans (dif_neg hmantissa)), ?_⟩
      show ((unpackExponent b).toNat - (1023 + 52 : Int) + 1 + 1075).toNat < 2047
      omega
  · refine .inr ⟨_, _, _, _, (if_neg h).trans (if_neg hzero), ?_⟩
    show ((unpackExponent b).toNat - (1023 + 52 : Int) + 1075).toNat < 2047
    omega

/-- Making a double keeps a finite exponent finite. -/
theorem unpackExponent_pack_unpack {b : BitVec Format.binary64.numBits}
    (h : unpackExponent b ≠ topExponent) :
    unpackExponent (pack Format.binary64 (unpack Format.binary64 b)) ≠ topExponent := by
  obtain ⟨s, hs⟩ | ⟨s, m, e, hm, hs, he⟩ := unpack_finite h
  · rw [hs]
    show unpackExponent (packComponents Format.binary64 _ 0 0) ≠ topExponent
    rw [unpackExponent_packComponents]
    decide
  · rw [hs]
    exact unpackExponent_pack_finite hm he

/-- The parts of a double that is made from the bit pattern of a finite magnitude. -/
theorem parts_ofMagnitude {negative : Bool} {bits : Nat} (h : bits < infinityBits) :
    ∃ s m e, parts (ofMagnitude negative bits) = .finite s m e := by
  have hbits : bits < 2047 * Nat.pow 2 52 := h
  generalize hb : UInt64.ofNat (bits + if negative then Nat.pow 2 63 else 0) = b
  have hpattern : b.toBitVec.toNat = bits + if negative then Nat.pow 2 63 else 0 := by
    rw [← hb]
    show (bits + if negative then Nat.pow 2 63 else 0) % Nat.pow 2 64 = _
    refine Nat.mod_eq_of_lt ?_
    cases negative <;> simp at hbits ⊢ <;> omega
  have hexponent : @unpackExponent Format.binary64 b.toBitVec ≠ topExponent := by
    intro ht
    have hfield := toNat_unpackExponent b.toBitVec
    rw [ht, hpattern] at hfield
    cases negative <;> simp [topExponent] at hbits hfield <;> omega
  have hfield := toNat_unpackExponent
    (pack Format.binary64 (unpack Format.binary64 b.toBitVec))
  have hne : (ofMagnitude negative bits).toBits.toNat / Nat.pow 2 52 % 2048 ≠ 2047 := by
    intro ht
    refine unpackExponent_pack_unpack hexponent (BitVec.eq_of_toNat_eq ?_)
    rw [hfield]
    unfold ofMagnitude at ht
    rw [hb] at ht
    exact ht
  unfold parts
  dsimp only
  rw [if_neg hne]
  split <;> exact ⟨_, _, _, rfl⟩

/-- The integers that are doubles have integer parts. -/
theorem truncate_ofInt? {n : Int} {x : Float} (h : ofInt? n = some x) :
    ∃ i, truncate x = .ok i := by
  unfold ofInt? at h
  dsimp only at h
  split at h
  · cases h
  · next hne =>
    have hle : nearestBits n.natAbs 1 ≤ infinityBits := by
      unfold nearestBits
      split
      · exact Nat.zero_le _
      · exact Nat.min_le_right ..
    obtain ⟨s, m, e, hparts⟩ := @parts_ofMagnitude (decide (n < 0)) _
      (Nat.lt_of_le_of_ne hle hne)
    obtain rfl := Option.some.inj h
    unfold truncate
    rw [hparts]
    exact ⟨_, rfl⟩

end MiniPascal.Decimal
