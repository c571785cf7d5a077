import Calculator.Binary64
import Mathlib.Algebra.Group.Nat.Defs

/-!
# The words of doubles

What a double stands for is what the model of `Float` unpacks its word into. A finite double is
determined by its word, and its magnitude can be read off the word: in words without a sign, the
shift counts multiples of the leading bit and the mantissa is added to them.
-/

set_option autoImplicit false

namespace Calculator

open Float.Model (Format UnpackedFloat)
open Float.Model.UnpackedFloat (unpackSign unpackExponent unpackMantissa packComponents Sign)

theorem leadingBit_eq : leadingBit = 4503599627370496 := rfl

theorem infinityWord_eq : infinityWord = 9218868437227405312 := rfl

/-!
## Words and their fields
-/

namespace Word

private theorem toBitVec_ofBitVec (bit : BitVec 1) : (Sign.ofBitVec bit).toBitVec = bit := by
  revert bit
  decide

private theorem fields_append (word : BitVec 64) :
    (word.extractLsb' 63 1 ++ word.extractLsb' 52 11 : BitVec 12) ++ word.extractLsb' 0 52 =
      word := by
  ext i bound
  simp only [BitVec.getElem_append, BitVec.getElem_extractLsb', Nat.zero_add]
  split
  · rw [BitVec.getLsbD_eq_getElem]
  · split
    · rw [show 52 + (i - 52) = i by omega, BitVec.getLsbD_eq_getElem]
    · rw [show 63 + (i - 52 - 11) = i by omega, BitVec.getLsbD_eq_getElem]

private theorem packComponents_fields (word : BitVec 64) :
    packComponents Format.binary64 (Sign.ofBitVec (@unpackSign Format.binary64 word))
      (@unpackExponent Format.binary64 word) (@unpackMantissa Format.binary64 word) = word := by
  unfold packComponents
  rw [toBitVec_ofBitVec]
  exact fields_append word

theorem unpackExponent_toNat (word : BitVec 64) :
    (@unpackExponent Format.binary64 word).toNat = word.toNat / 2 ^ 52 % 2048 := by
  show (word.extractLsb' 52 11).toNat = _
  rw [BitVec.extractLsb'_toNat, Nat.shiftRight_eq_div_pow]

theorem unpackMantissa_toNat (word : BitVec 64) :
    (@unpackMantissa Format.binary64 word).toNat = word.toNat % leadingBit := by
  show (word.extractLsb' 0 52).toNat = _
  rw [BitVec.extractLsb'_toNat, Nat.shiftRight_zero]
  rfl

theorem unpackSign_toNat (word : BitVec 64) :
    (@unpackSign Format.binary64 word).toNat = word.toNat / 2 ^ 63 := by
  have bound := word.isLt
  show (word.extractLsb' 63 1).toNat = _
  rw [BitVec.extractLsb'_toNat, Nat.shiftRight_eq_div_pow]
  omega

theorem unpackExponent_eq_last_iff {word : BitVec 64} :
    @unpackExponent Format.binary64 word = -1#_ ↔ word.toNat / 2 ^ 52 % 2048 = 2047 := by
  rw [← unpackExponent_toNat, ← BitVec.toNat_inj]
  exact Iff.rfl

theorem unpackExponent_eq_zero_iff {word : BitVec 64} :
    @unpackExponent Format.binary64 word = 0#_ ↔ word.toNat / 2 ^ 52 % 2048 = 0 := by
  rw [← unpackExponent_toNat, ← BitVec.toNat_inj]
  exact Iff.rfl

theorem unpackMantissa_eq_zero_iff {word : BitVec 64} :
    @unpackMantissa Format.binary64 word = 0#_ ↔ word.toNat % leadingBit = 0 := by
  rw [← unpackMantissa_toNat, ← BitVec.toNat_inj]
  exact Iff.rfl

theorem isNegative_unpackSign (word : BitVec 64) :
    (Sign.ofBitVec (@unpackSign Format.binary64 word) == .negative) =
      decide (word.toNat / 2 ^ 63 = 1) := by
  rw [← unpackSign_toNat]
  generalize @unpackSign Format.binary64 word = bit
  revert bit
  decide

theorem leading_append_toNat (fraction : BitVec 52) :
    (1#1 ++ fraction).toNat = leadingBit + fraction.toNat := by
  rw [BitVec.toNat_append, BitVec.toNat_ofNat, Nat.shiftLeft_eq, Nat.one_mul, Nat.or_comm,
    Nat.or_two_pow_eq_add_of_lt fraction.isLt, Nat.add_comm]
  rfl
private theorem pack_subnormal (sign : Sign) (fraction : BitVec 52)
    (positive : 0 < fraction.toNat) :
    Float.Model.UnpackedFloat.pack Format.binary64 (.finite sign fraction.toNat (-1074) positive) =
      packComponents Format.binary64 sign 0#_ fraction := by
  have narrow : fraction.toNat.log2 < 52 := (Nat.log2_lt (by omega)).mpr fraction.isLt
  have notFull : ¬ fraction.toNat.log2 + 1 = Format.binary64.mantissaBits := by
    show ¬ fraction.toNat.log2 + 1 = 53
    omega
  unfold Float.Model.UnpackedFloat.pack
  dsimp only
  rw [if_neg (by decide), if_neg notFull, BitVec.ofNat_toNat, BitVec.setWidth_eq]

private theorem pack_normal (sign : Sign) (exponent : BitVec 11) (fraction : BitVec 52)
    (positive : 0 < (1#1 ++ fraction).toNat) (finite : exponent ≠ -1#11) :
    Float.Model.UnpackedFloat.pack Format.binary64
        (.finite sign (1#1 ++ fraction).toNat (exponent.toNat - 1075) positive) =
      packComponents Format.binary64 sign exponent fraction := by
  have below := fraction.isLt
  have whole : (1#1 ++ fraction).toNat = 2 ^ 52 + fraction.toNat := leading_append_toNat fraction
  have full : (1#1 ++ fraction).toNat.log2 + 1 = Format.binary64.mantissaBits := by
    rw [whole, (Nat.log2_eq_iff (by omega)).mpr ⟨Nat.le_add_right _ _, by omega⟩]
    rfl
  have biased : ((exponent.toNat : Int) - 1075 + Format.binary64.exponentBias +
      (52 : Nat)).toNat = exponent.toNat := by
    show ((exponent.toNat : Int) - 1075 + (1023 : Nat) + (52 : Nat)).toNat = exponent.toNat
    omega
  have notLast : ¬ 2 ^ Format.binary64.exponentBits ≤ exponent.toNat + 1 := by
    show ¬ 2048 ≤ exponent.toNat + 1
    have different : exponent.toNat ≠ 2047 := fun last => finite (BitVec.eq_of_toNat_eq last)
    have bound := exponent.isLt
    omega
  have kept : BitVec.ofNat 52 (1#1 ++ fraction).toNat = fraction := by
    apply BitVec.eq_of_toNat_eq
    rw [whole, BitVec.toNat_ofNat]
    omega
  unfold Float.Model.UnpackedFloat.pack
  dsimp only
  rw [biased, if_neg notLast, if_pos full, kept, BitVec.ofNat_toNat, BitVec.setWidth_eq]

/-- Unless it is the word of an infinity or a non-number, a word that is taken apart, given another
sign and put together again keeps its other fields. -/
theorem pack_map_unpack {word : BitVec 64} (finite : @unpackExponent Format.binary64 word ≠ -1#_)
    {change : UnpackedFloat → UnpackedFloat} {changeSign : Sign → Sign}
    (zero : ∀ sign, change (.zero sign) = .zero (changeSign sign))
    (nonzero : ∀ sign mantissa exponent positive, change (.finite sign mantissa exponent positive) =
      .finite (changeSign sign) mantissa exponent positive) :
    UnpackedFloat.pack Format.binary64 (change (UnpackedFloat.unpack Format.binary64 word)) =
      packComponents Format.binary64
        (changeSign (Sign.ofBitVec (@unpackSign Format.binary64 word)))
        (@unpackExponent Format.binary64 word) (@unpackMantissa Format.binary64 word) := by
  unfold UnpackedFloat.unpack
  dsimp only
  rw [if_neg finite]
  by_cases subnormal : @unpackExponent Format.binary64 word = 0#_
  · rw [if_pos subnormal, subnormal]
    by_cases empty : @unpackMantissa Format.binary64 word = 0#_
    · rw [dif_pos empty, zero, empty]
      rfl
    · rw [dif_neg empty, nonzero]
      exact pack_subnormal _ _ _
  · rw [if_neg subnormal, nonzero]
    exact pack_normal _ _ _ _ finite

theorem pack_unpack {word : BitVec 64}
    (finite : @unpackExponent Format.binary64 word ≠ -1#_) :
    UnpackedFloat.pack Format.binary64 (UnpackedFloat.unpack Format.binary64 word) = word := by
  have packed := @pack_map_unpack word finite id id (fun _ => rfl) fun _ _ _ _ => rfl
  exact packed.trans (packComponents_fields word)

private theorem toNat_toBitVec_neg (bit : BitVec 1) :
    (-Sign.ofBitVec bit).toBitVec.toNat = 1 - bit.toNat := by
  revert bit
  decide

private theorem packComponents_toNat (sign : Sign) (exponent : BitVec 11) (fraction : BitVec 52) :
    (packComponents Format.binary64 sign exponent fraction).toNat =
      sign.toBitVec.toNat * 2 ^ 63 + exponent.toNat * 2 ^ 52 + fraction.toNat := by
  show ((sign.toBitVec ++ exponent : BitVec 12) ++ fraction).toNat = _
  rw [BitVec.toNat_append, BitVec.toNat_append, Nat.shiftLeft_eq, Nat.shiftLeft_eq,
    Nat.mul_comm _ (2 ^ 11), Nat.mul_comm _ (2 ^ 52), ← Nat.two_pow_add_eq_or_of_lt fraction.isLt,
    ← Nat.two_pow_add_eq_or_of_lt exponent.isLt]
  omega

/-- The negative of a word differs from it in the sign only. -/
theorem pack_neg_unpack_toNat {word : BitVec 64}
    (finite : @unpackExponent Format.binary64 word ≠ -1#_) :
    (UnpackedFloat.pack Format.binary64
      (UnpackedFloat.unpack Format.binary64 word).neg).toNat =
        (1 - word.toNat / 2 ^ 63) * 2 ^ 63 + word.toNat % 2 ^ 63 := by
  rw [pack_map_unpack finite (fun _ => rfl) fun _ _ _ _ => rfl, packComponents_toNat,
    toNat_toBitVec_neg, unpackExponent_toNat, unpackSign_toNat, unpackMantissa_toNat,
    leadingBit_eq]
  omega

end Word

/-!
## Doubles and their words
-/

/-- What a double stands for, beside the parts that its word is unpacked into. There a finite
magnitude is `mantissa * 2 ^ exponent`, and here the shift counts from the exponent of the unit. -/
inductive Binary64.Unpacks : UnpackedFloat → Binary64 → Prop where
  | notANumber : Unpacks .notANumber .nan
  | infinity {sign : Sign} : Unpacks (.infinity sign) (.infinite (sign == .negative))
  | zero {sign : Sign} : Unpacks (.zero sign) (.finite (sign == .negative) 0 0)
  | finite {sign : Sign} {mantissa shift : Nat} {exponent : Int} {positive : 0 < mantissa} :
      exponent = shift - 1074 →
      Unpacks (.finite sign mantissa exponent positive) (.finite (sign == .negative) mantissa shift)

/-- Every double stands for what it is unpacked into. -/
theorem Binary64.unpacks_ofFloat (value : Float) :
    Unpacks value.toModel.unpack (ofFloat value) := by
  show Unpacks (UnpackedFloat.unpack Format.binary64 value.toBits.toBitVec) (ofFloat value)
  unfold ofFloat UnpackedFloat.unpack
  dsimp only
  rw [Nat.shiftRight_eq_div_pow, Nat.shiftRight_eq_div_pow, ← UInt64.toNat_toBitVec,
    ← Word.isNegative_unpackSign]
  generalize value.toBits.toBitVec = word
  by_cases last : word.toNat / 2 ^ 52 % 2048 = 2047
  · rw [if_pos last, if_pos (Word.unpackExponent_eq_last_iff.mpr last)]
    by_cases empty : word.toNat % leadingBit = 0
    · rw [if_pos empty, if_pos (Word.unpackMantissa_eq_zero_iff.mpr empty)]
      exact .infinity
    · rw [if_neg empty, if_neg (mt Word.unpackMantissa_eq_zero_iff.mp empty)]
      exact .notANumber
  · rw [if_neg last, if_neg (mt Word.unpackExponent_eq_last_iff.mp last)]
    by_cases subnormal : word.toNat / 2 ^ 52 % 2048 = 0
    · rw [if_pos subnormal, if_pos (Word.unpackExponent_eq_zero_iff.mpr subnormal),
        ← Word.unpackMantissa_toNat]
      by_cases empty : @unpackMantissa Format.binary64 word = 0#_
      · rw [dif_pos empty, empty]
        exact .zero
      · rw [dif_neg empty]
        refine .finite ?_
        rw [Word.unpackExponent_toNat, subnormal]
        rfl
    · rw [if_neg subnormal, if_neg (mt Word.unpackExponent_eq_zero_iff.mp subnormal),
        ← Word.unpackMantissa_toNat, ← Word.leading_append_toNat]
      refine .finite ?_
      rw [Word.unpackExponent_toNat]
      show ((word.toNat / 2 ^ 52 % 2048 : Nat) : Int) - 1075 = _
      omega

theorem Binary64.exists_of_isFinite {value : Float} (finite : value.isFinite = true) :
    ∃ negative mantissa shift, ofFloat value = .finite negative mantissa shift := by
  have unpacks := unpacks_ofFloat value
  have inside : value.toModel.unpack.isFinite = true := finite
  generalize value.toModel.unpack = parts at unpacks inside
  generalize ofFloat value = double at unpacks
  cases unpacks with
  | notANumber => cases inside
  | infinity => cases inside
  | zero => exact ⟨_, _, _, rfl⟩
  | finite => exact ⟨_, _, _, rfl⟩

theorem Binary64.biasedExponent_ne {value : Float} {negative : Bool} {mantissa shift : Nat}
    (stands : ofFloat value = .finite negative mantissa shift) :
    value.toBits.toNat / 2 ^ 52 % 2048 ≠ 2047 := by
  intro last
  rw [ofFloat, Nat.shiftRight_eq_div_pow _ 52, if_pos last] at stands
  split at stands <;> cases stands

theorem biasedExponent_ne_of_isFinite {value : Float} (finite : value.isFinite = true) :
    value.toBits.toNat / 2 ^ 52 % 2048 ≠ 2047 := by
  obtain ⟨negative, mantissa, shift, stands⟩ := Binary64.exists_of_isFinite finite
  exact Binary64.biasedExponent_ne stands

theorem ofBits_toBits {value : Float} (finite : value.isFinite = true) :
    Float.ofBits value.toBits = value := by
  have notLast := biasedExponent_ne_of_isFinite finite
  have same := Word.pack_unpack (mt Word.unpackExponent_eq_last_iff.mp notLast)
  obtain ⟨⟨bits, valid⟩⟩ := value
  refine congrArg Float.ofModel ?_
  unfold Float.Model.ofBits Float.Model.pack
  rw [Float.Model.mk.injEq]
  exact congrArg UInt64.ofBitVec same

theorem toBits_ofBits {word : Nat} (finite : word < infinityWord) :
    (Float.ofBits (UInt64.ofNat word)).toBits.toNat = word := by
  rw [infinityWord_eq] at finite
  have kept : (UInt64.ofNat word).toNat = word :=
    UInt64.toNat_ofNat_of_lt' (Nat.lt_trans finite (by decide))
  have inside : @unpackExponent Format.binary64 (UInt64.ofNat word).toBitVec ≠ -1#_ := by
    rw [ne_eq, Word.unpackExponent_eq_last_iff, UInt64.toNat_toBitVec, kept]
    omega
  show (Float.Model.UnpackedFloat.pack _ (Float.Model.UnpackedFloat.unpack _ _)).toNat = word
  rw [Word.pack_unpack inside, UInt64.toNat_toBitVec, kept]

structure IsUnsigned (value : Float) : Prop where
  finite : value.isFinite = true
  sign : value.toBits >>> 63 = 0

private theorem IsUnsigned.toBits_lt {value : Float} (unsigned : IsUnsigned value) :
    value.toBits.toNat < infinityWord := by
  have notLast := biasedExponent_ne_of_isFinite unsigned.finite
  have clear := congrArg UInt64.toNat unsigned.sign
  rw [UInt64.toNat_shiftRight, Nat.shiftRight_eq_div_pow] at clear
  replace clear : value.toBits.toNat / 2 ^ 63 = 0 := clear
  rw [infinityWord_eq]
  omega

theorem IsUnsigned.ofBits_toNat {value : Float} (unsigned : IsUnsigned value) :
    Float.ofBits (UInt64.ofNat value.toBits.toNat) = value := by
  rw [UInt64.ofNat_toNat]
  exact ofBits_toBits unsigned.finite

/-- Which mantissas and shifts are those of doubles. Only the least shift comes with mantissas that
lack the leading bit. -/
structure IsMagnitude (mantissa shift : Nat) : Prop where
  mantissa_lt : mantissa < 2 * leadingBit
  shift_le : shift ≤ 2045
  full : shift ≠ 0 → leadingBit ≤ mantissa

theorem IsMagnitude.zero : IsMagnitude 0 0 :=
  ⟨by decide, by decide, nofun⟩

theorem IsMagnitude.word_lt {mantissa shift : Nat} (magnitude : IsMagnitude mantissa shift) :
    shift * leadingBit + mantissa < infinityWord := by
  have narrow := magnitude.mantissa_lt
  have least := magnitude.shift_le
  rw [leadingBit_eq] at narrow ⊢
  rw [infinityWord_eq]
  omega

/-- Every word without a sign that is not too large is put together from a magnitude. -/
theorem exists_isMagnitude {word : Nat} (finite : word < infinityWord) :
    ∃ mantissa shift, IsMagnitude mantissa shift ∧ word = shift * leadingBit + mantissa := by
  have leading := leadingBit_eq
  rw [infinityWord_eq] at finite
  by_cases subnormal : word < leadingBit
  · exact ⟨word, 0, ⟨by omega, by omega, nofun⟩, by omega⟩
  · refine ⟨leadingBit + word % leadingBit, word / leadingBit - 1, ⟨?_, ?_, ?_⟩, ?_⟩
    all_goals
      rw [leading] at subnormal ⊢
      omega

/-- A magnitude as the double whose word is put together from it. -/
theorem Binary64.ofFloat_of_word {value : Float} {mantissa shift : Nat}
    (magnitude : IsMagnitude mantissa shift)
    (word : value.toBits.toNat = shift * leadingBit + mantissa) :
    ofFloat value = .finite false mantissa shift := by
  obtain ⟨narrow, least, full⟩ := magnitude
  unfold ofFloat
  dsimp only
  rw [leadingBit_eq] at word narrow full ⊢
  rw [word, Nat.shiftRight_eq_div_pow, Nat.shiftRight_eq_div_pow, decide_eq_false (by omega)]
  by_cases subnormal : shift = 0 ∧ mantissa < 4503599627370496
  · obtain ⟨rfl, subnormal⟩ := subnormal
    rw [if_neg (by omega), if_pos (by omega), Nat.zero_mul, Nat.zero_add,
      Nat.mod_eq_of_lt subnormal]
  · have biased : (shift * 4503599627370496 + mantissa) / 2 ^ 52 % 2048 - 1 = shift := by omega
    have fraction :
        4503599627370496 + (shift * 4503599627370496 + mantissa) % 4503599627370496 =
          mantissa := by omega
    rw [if_neg (by omega), if_neg (by omega), biased, fraction]

theorem Binary64.isMagnitude_of_ofFloat {value : Float} {negative : Bool} {mantissa shift : Nat}
    (stands : ofFloat value = .finite negative mantissa shift) : IsMagnitude mantissa shift := by
  unfold ofFloat at stands
  dsimp only at stands
  generalize value.toBits.toNat = word at stands
  have leading := leadingBit_eq
  have fraction : word % leadingBit < leadingBit := Nat.mod_lt _ (by decide)
  have biased : (word >>> 52) % 2048 < 2048 := Nat.mod_lt _ (by decide)
  split at stands
  · split at stands <;> cases stands
  · split at stands
    · cases stands
      exact ⟨by omega, by omega, by omega⟩
    · cases stands
      exact ⟨by omega, by omega, by omega⟩

/-- A finite double stands for a number with the sign of its word. -/
theorem Binary64.exists_finite {value : Float} (finite : value.isFinite = true) :
    ∃ mantissa shift, ofFloat value =
      .finite (decide (value.toBits >>> 63 = 1)) mantissa shift := by
  have notLast := biasedExponent_ne_of_isFinite finite
  have sign : value.toBits.toNat >>> 63 = 1 ↔ value.toBits >>> 63 = 1 := by
    rw [← UInt64.toNat_inj, UInt64.toNat_shiftRight]
    exact Iff.rfl
  unfold ofFloat
  dsimp only
  rw [decide_eq_decide.mpr sign, Nat.shiftRight_eq_div_pow _ 52, if_neg notLast]
  by_cases subnormal : value.toBits.toNat / 2 ^ 52 % 2048 = 0
  · exact ⟨_, _, if_pos subnormal⟩
  · exact ⟨_, _, if_neg subnormal⟩

theorem toBits_neg {value : Float} (finite : value.toBits.toNat / 2 ^ 52 % 2048 ≠ 2047) :
    (-value).toBits.toNat =
      (1 - value.toBits.toNat / 2 ^ 63) * 2 ^ 63 + value.toBits.toNat % 2 ^ 63 :=
  Word.pack_neg_unpack_toNat (mt Word.unpackExponent_eq_last_iff.mp finite)

/-- The negative of a finite double stands for the opposite number. -/
theorem Binary64.ofFloat_neg {value : Float} {negative : Bool} {mantissa shift : Nat}
    (stands : ofFloat value = .finite negative mantissa shift) :
    ofFloat (-value) = .finite (!negative) mantissa shift := by
  have finite := biasedExponent_ne stands
  have word := toBits_neg finite
  have bound : value.toBits.toNat < 2 ^ 64 := value.toBits.toBitVec.isLt
  have biased : (-value).toBits.toNat / 2 ^ 52 % 2048 = value.toBits.toNat / 2 ^ 52 % 2048 := by
    omega
  have fraction : (-value).toBits.toNat % leadingBit = value.toBits.toNat % leadingBit := by
    rw [leadingBit_eq]
    omega
  have sign : decide ((-value).toBits.toNat / 2 ^ 63 = 1) =
      !decide (value.toBits.toNat / 2 ^ 63 = 1) := by
    rw [← decide_not, decide_eq_decide]
    omega
  rw [ofFloat, Nat.shiftRight_eq_div_pow, Nat.shiftRight_eq_div_pow] at stands ⊢
  rw [biased, fraction, sign]
  rw [if_neg finite] at stands ⊢
  split at stands
  next subnormal =>
    rw [if_pos subnormal]
    cases stands
    rfl
  next normal =>
    rw [if_neg normal]
    cases stands
    rfl

/-- An unsigned double stands for a magnitude, from which its word is put together. -/
theorem IsUnsigned.exists_magnitude {value : Float} (unsigned : IsUnsigned value) :
    ∃ mantissa shift, Binary64.ofFloat value = .finite false mantissa shift ∧
      IsMagnitude mantissa shift ∧ value.toBits.toNat = shift * leadingBit + mantissa := by
  obtain ⟨mantissa, shift, magnitude, word⟩ := exists_isMagnitude unsigned.toBits_lt
  exact ⟨mantissa, shift, Binary64.ofFloat_of_word magnitude word, magnitude, word⟩

end Calculator
