import Mathlib.Data.List.TakeWhile
import Mathlib.Data.Nat.Init
import Mathlib.Tactic.Positivity
import Mathlib.Tactic.Ring
import Crochet.Decimal.Read

/-! Whole numbers read from doubles, printed and read again. A double holds 53 significant bits, so the
whole number it stands for has a decimal text that reads as the same double; one too large for a word
is cut to the greatest word, whose text reads as the next power of two and is cut again. -/
namespace Crochet.Decimal
open Float.Model (Format UnpackedFloat)
open Float.Model.UnpackedFloat

def Unsigned (x : Float) : Prop := x.toBits.toNat < 2 ^ 63

def signOf : UnpackedFloat → Sign
  | .notANumber => .positive
  | .infinity s | .zero s | .finite s _ _ _ => s

theorem packedBits (s : Sign) (e : BitVec 11) (m : BitVec 52) :
    (packComponents Format.binary64 s e m).toNat =
      s.toBitVec.toNat * 2 ^ 63 + e.toNat * 2 ^ 52 + m.toNat := by
  have he := e.isLt
  have hm := m.isLt
  simp only [packComponents, BitVec.toNat_append]
  rw [← Nat.shiftLeft_add_eq_or_of_lt hm, ← Nat.shiftLeft_add_eq_or_of_lt he]
  simp only [Nat.shiftLeft_eq]
  omega

variable {u v : UnpackedFloat} {b : BitVec 64} {x y : Float} {cs : List Char} {e : Int} {m k : Nat}

theorem packedUnsigned (sign : signOf u = .positive) :
    (pack Format.binary64 u).toNat < 2 ^ 63 := by
  have clear (e : BitVec 11) (m : BitVec 52) :
      (packComponents Format.binary64 .positive e m).toNat < 2 ^ 63 := by
    have he := e.isLt
    have hm := m.isLt
    rw [packedBits, show Sign.positive.toBitVec.toNat = 0 from rfl]
    omega
  cases u with
  | notANumber => exact clear _ _
  | infinity s => cases sign; exact clear _ _
  | zero s => cases sign; exact clear _ _
  | finite s m e positive =>
    cases sign
    unfold pack
    dsimp only
    split
    · exact clear _ _
    split
    · exact clear _ _
    · exact clear _ _

theorem signBit (b : BitVec 64) : (@unpackSign Format.binary64 b).toNat = b.toNat / 2 ^ 63 % 2 := by
  rw [← Nat.shiftRight_eq_div_pow]
  rfl

theorem unpackedSign (unsigned : b.toNat < 2 ^ 63) :
    Sign.ofBitVec (@unpackSign Format.binary64 b) = .positive := by
  have bit : @unpackSign Format.binary64 b = 0#1 := by
    apply BitVec.eq_of_toNat_eq
    rw [signBit, Nat.div_eq_of_lt unsigned]
    rfl
  rw [bit]
  rfl

theorem unpackCases (b : BitVec 64) {s : Sign}
    (sign : Sign.ofBitVec (@unpackSign Format.binary64 b) = s) :
    @unpackExponent Format.binary64 b = -1#11 ∧
      (unpack Format.binary64 b = .infinity s ∨ unpack Format.binary64 b = .notANumber) ∨
    @unpackExponent Format.binary64 b = 0#11 ∧
      (@unpackMantissa Format.binary64 b = 0#52 ∧ unpack Format.binary64 b = .zero s ∨
        ∃ m e positive, unpack Format.binary64 b = .finite s m e positive) ∨
    @unpackExponent Format.binary64 b ≠ -1#11 ∧ ∃ positive, unpack Format.binary64 b =
      .finite s (1#1 ++ @unpackMantissa Format.binary64 b).toNat
        ((@unpackExponent Format.binary64 b).toNat -
          (Format.binary64.exponentBias + Format.binary64.mantissaBitsWithoutImplicit)) positive := by
  subst sign
  unfold unpack
  dsimp only
  by_cases last : @unpackExponent Format.binary64 b = -1#11
  · refine .inl ⟨last, ?_⟩
    rw [if_pos last]
    by_cases none : @unpackMantissa Format.binary64 b = 0#52
    · exact .inl (if_pos none)
    · exact .inr (if_neg none)
  rw [if_neg last]
  refine .inr ?_
  by_cases first : @unpackExponent Format.binary64 b = 0#11
  · refine .inl ⟨first, ?_⟩
    rw [if_pos first]
    by_cases none : @unpackMantissa Format.binary64 b = 0#52
    · exact .inl ⟨none, dif_pos none⟩
    · have positive : 0 < (@unpackMantissa Format.binary64 b).toNat :=
        Nat.pos_of_ne_zero fun zero => none (BitVec.eq_of_toNat_eq zero)
      exact .inr ⟨_, _, positive, dif_neg none⟩
  · have positive : 0 < (1#1 ++ @unpackMantissa Format.binary64 b).toNat := by
      rw [BitVec.toNat_append]
      exact Nat.lt_of_lt_of_le (by decide) Nat.left_le_or
    exact .inr ⟨last, positive, if_neg first⟩

theorem unpackedPositive (unsigned : b.toNat < 2 ^ 63) :
    signOf (unpack Format.binary64 b) = .positive := by
  rcases unpackCases b (unpackedSign unsigned) with
    ⟨_, same | same⟩ | ⟨_, ⟨_, same⟩ | ⟨_, _, _, same⟩⟩ | ⟨_, _, same⟩
  all_goals
    rw [same]
    rfl

theorem eitherSign {p : Prop} [Decidable p] {s : Sign} (yes : signOf u = s) (no : signOf v = s) :
    signOf (if p then u else v) = s := by
  split
  · exact yes
  · exact no

theorem roundedSign (s : Sign) (m : Nat) (e : Int) (accuracy : Accuracy) :
    signOf (roundWithAccuracy Format.binary64 s m e accuracy) = s := by
  unfold roundWithAccuracy
  dsimp only
  rw [apply_dite signOf]
  exact ite_self s

theorem productPositive (first : signOf u = .positive) (second : signOf v = .positive) :
    signOf (mul Format.binary64 u v) = .positive := by
  cases u <;> cases v <;> cases first <;> cases second <;>
    first | rfl | exact roundedSign _ _ _ _

theorem quotientPositive (first : signOf u = .positive) (second : signOf v = .positive) :
    signOf (div Format.binary64 u v) = .positive := by
  cases u <;> cases v <;> cases first <;> cases second <;>
    first | rfl | exact roundedSign _ _ _ _

theorem packUnsigned (sign : signOf u = .positive) :
    Unsigned (.ofModel (.pack u)) := packedUnsigned sign

theorem unpackUnsigned (unsigned : Unsigned x) : signOf x.toModel.unpack = .positive :=
  unpackedPositive unsigned

theorem mulUnsigned (first : Unsigned x) (second : Unsigned y) : Unsigned (x * y) :=
  packUnsigned (productPositive (unpackUnsigned first) (unpackUnsigned second))

theorem divUnsigned (first : Unsigned x) (second : Unsigned y) : Unsigned (x / y) :=
  packUnsigned (quotientPositive (unpackUnsigned first) (unpackUnsigned second))

theorem wordUnsigned (n : UInt64) : Unsigned n.toFloat := by
  refine packUnsigned ?_
  unfold ofUInt64 ofNat ofInt UnpackedFloat.normalize
  split
  · rename_i below
    rw [compare_lt_iff_lt] at below
    omega
  · rfl
  · exact roundedSign _ _ _ _

theorem scientificPositive (m : Nat) (e : Int) :
    signOf (ofScientific Format.binary64 m e) = .positive := by
  unfold ofScientific
  by_cases none : m = 0
  · rw [dif_pos none]
    rfl
  rw [dif_neg none]
  refine eitherSign rfl (eitherSign rfl (eitherSign ?_ ?_))
  · exact productPositive rfl rfl
  · exact quotientPositive rfl rfl

theorem scientificUnsigned (m : Nat) (s : Bool) (e : Nat) : Unsigned (Float.ofScientific m s e) := by
  unfold Float.ofScientific
  split
  · rename_i small
    have power : ∀ p ∈ Float.exactlyRepresentablePowersOfTen, Unsigned p := by
      unfold Unsigned
      decide +kernel
    simp only
    split
    · exact divUnsigned (wordUnsigned _) (power _ (Array.getElem_mem _))
    · exact mulUnsigned (wordUnsigned _) (power _ (Array.getElem_mem _))
  · exact packUnsigned (scientificPositive m _)

theorem scaledUnsigned (digits : List Char) (e : Int) : Unsigned (scaled digits e) := by
  have zero : Unsigned 0.0 := scientificUnsigned _ _ _
  have one : Unsigned 1.0 := scientificUnsigned _ _ _
  unfold scaled
  simp only
  split
  · exact zero
  split
  · exact divUnsigned one zero
  split
  · exact zero
  split
  · exact scientificUnsigned _ _ _
  · exact scientificUnsigned _ _ _

variable {c : Char}

theorem realUnsigned (bare : c ≠ '-') (ok : realOf (c :: cs) = .ok x) : Unsigned x := by
  have zero : Unsigned 0.0 := scientificUnsigned _ _ _
  have one : Unsigned 1.0 := scientificUnsigned _ _ _
  have plain {cs : List Char} (found : unsigned? cs = some x) : Unsigned x := by
    unfold unsigned? at found
    simp only at found
    split at found
    all_goals
      split at found
      · cases found
      · obtain ⟨e, _, rfl⟩ := Option.map_eq_some_iff.mp found
        exact scaledUnsigned _ _
  have magnitude {cs : List Char} (found : (if cs.map Char.toLower = "inf".toList ||
      cs.map Char.toLower = "infinity".toList then some (1.0 / 0.0)
      else if cs.map Char.toLower = "nan".toList then some (0.0 / 0.0)
      else unsigned? cs) = some x) : Unsigned x := by
    split at found
    · cases found
      exact divUnsigned one zero
    split at found
    · cases found
      exact divUnsigned zero zero
    · exact plain found
  unfold realOf at ok
  simp only at ok
  split at ok
  · cases ok
  split at ok
  · rename_i found
    cases ok
    split at found
    · rename_i same
      exact absurd (List.cons.inj same).1 bare
    · exact magnitude found
    · exact magnitude found
  · cases ok

section Exact
variable {c : Nat} (low : 2 ^ 52 ≤ c) (high : c < 2 ^ 53)

theorem shiftExact (c k : Nat) :
    (⟨c * 2 ^ k, false, false⟩ : ExtendedMantissa) >>> k = ⟨c, false, false⟩ := by
  show k.repeat ExtendedMantissa.shiftRightOne _ = _
  induction k generalizing c with
  | zero => simp [Nat.repeat]
  | succ k ih =>
    have step : c * 2 ^ (k + 1) = c * 2 * 2 ^ k := by ring
    rw [Nat.repeat, step, ih]
    simp [ExtendedMantissa.shiftRightOne]

include low high

theorem logNormal (k : Nat) : (c * 2 ^ k).log2 = 52 + k := by
  have positive : 0 < c := by omega
  rw [Nat.log2_eq_iff (by positivity)]
  constructor
  · rw [pow_add]
    exact Nat.mul_le_mul_right _ low
  · rw [show 52 + k + 1 = 53 + k by omega, pow_add]
    exact Nat.mul_lt_mul_of_pos_right high (by positivity)

theorem targetNormal (k : Nat) (e : Int) (above : -1074 ≤ e + k) :
    Format.binary64.targetExponent (Float.Model.totalExponent (c * 2 ^ k) e) = e + k := by
  rw [Format.targetExponent, Float.Model.totalExponent, logNormal low high]
  simp [show Format.binary64.mantissaBits = 53 from rfl, Format.minExponent]
  omega

theorem roundExact (s : Sign) (k : Nat) {e' : Int} (above : -1074 ≤ e') (same : e + k = e') :
    roundWithAccuracy Format.binary64 s (c * 2 ^ k) e .exact =
      .finite s c e' (Nat.lt_of_lt_of_le (by decide) low) := by
  subst same
  have shifted : shiftToTargetExponent Format.binary64 (c * 2 ^ k) e .exact =
      (⟨c, false, false⟩, e + k) := by
    rw [shiftToTargetExponent, targetNormal low high k e above, shiftToExponent]
    simp [ExtendedMantissa.ofMantissaAndAccuracy, shiftExact]
  have again : shiftToTargetExponent Format.binary64 c (e + k) .exact =
      (⟨c, false, false⟩, e + k) := by
    have target := targetNormal low high 0 (e + k) (by omega)
    rw [pow_zero, mul_one] at target
    rw [shiftToTargetExponent, target, shiftToExponent]
    simp [ExtendedMantissa.ofMantissaAndAccuracy]
    rfl
  have kept : (⟨c, false, false⟩ : ExtendedMantissa).roundedMantissa = c := rfl
  unfold roundWithAccuracy
  rw [shifted]
  dsimp only
  rw [kept, again]
  exact dif_neg (Nat.ne_of_gt (Nat.lt_of_lt_of_le (by decide) low))

theorem packedNormal (above : -1074 ≤ e) (below : e ≤ 971) (positive : 0 < c) :
    pack Format.binary64 (.finite .positive c e positive) =
      packComponents Format.binary64 .positive (BitVec.ofNat 11 (e + 1075).toNat) (BitVec.ofNat 52 c) := by
  have bits : c.log2 + 1 = Format.binary64.mantissaBits := by
    have log := logNormal low high 0
    rw [pow_zero, mul_one] at log
    rw [log]
    rfl
  have biased : e + Format.binary64.exponentBias + Format.binary64.mantissaBitsWithoutImplicit =
      e + 1075 := by
    simp [Format.exponentBias]
    omega
  unfold pack
  simp only [biased, bits, if_true]
  rw [if_neg]
  simp only [show 2 ^ Format.binary64.exponentBits = 2048 from rfl]
  omega

theorem unpackPacked (above : -1074 ≤ e) (below : e ≤ 971) (positive : 0 < c) :
    unpack Format.binary64 (pack Format.binary64 (.finite .positive c e positive)) =
      .finite .positive c e positive := by
  have unsigned := @packedUnsigned (.finite .positive c e positive) rfl
  rw [packedNormal low high above below] at unsigned ⊢
  have field : (BitVec.ofNat 11 (e + 1075).toNat).toNat = (e + 1075).toNat := by
    rw [BitVec.toNat_ofNat]
    omega
  have notLast : BitVec.ofNat 11 (e + 1075).toNat ≠ -1#11 := by
    intro same
    have value := congrArg BitVec.toNat same
    rw [field] at value
    simp at value
    omega
  have notFirst : BitVec.ofNat 11 (e + 1075).toNat ≠ 0#11 := by
    intro same
    have value := congrArg BitVec.toNat same
    rw [field] at value
    simp at value
    omega
  have mantissa : (1#1 ++ BitVec.ofNat 52 c).toNat = c := by
    rw [BitVec.toNat_append, ← Nat.shiftLeft_add_eq_or_of_lt (BitVec.isLt _)]
    simp only [Nat.shiftLeft_eq, BitVec.toNat_ofNat]
    omega
  have exponent : ((e + 1075).toNat : Int) -
      (Format.binary64.exponentBias + Format.binary64.mantissaBitsWithoutImplicit) = e := by
    simp [Format.exponentBias]
    omega
  have form := unpackCases _ (unpackedSign unsigned)
  rw [unpackExponent_packComponents, unpackMantissa_packComponents] at form
  rcases form with ⟨last, _⟩ | ⟨first, _⟩ | ⟨_, _, same⟩
  · exact absurd last notLast
  · exact absurd first notFirst
  · rw [same, UnpackedFloat.finite.injEq, field]
    exact ⟨rfl, mantissa, exponent⟩

theorem binaryPacked (above : -1074 ≤ e) (below : e ≤ 971) (positive : 0 < c) :
    binary (.ofModel (.pack (.finite .positive c e positive))) = .finite false c e := by
  have bits : (Float.ofModel (.pack (.finite .positive c e positive))).toBits.toNat =
      (e + 1075).toNat * 2 ^ 52 + (c - 2 ^ 52) := by
    show (pack Format.binary64 (.finite .positive c e positive)).toNat = _
    rw [packedNormal low high above below, packedBits, show Sign.positive.toBitVec.toNat = 0 from rfl,
      BitVec.toNat_ofNat, BitVec.toNat_ofNat]
    omega
  generalize Float.ofModel (.pack (.finite .positive c e positive)) = packed at bits ⊢
  unfold binary
  simp only [bits, hiddenBit, leastExponent]
  have field : ((e + 1075).toNat * 2 ^ 52 + (c - 2 ^ 52)) / Nat.pow 2 52 % 2048 = (e + 1075).toNat := by
    simp only [Nat.pow_eq]
    omega
  have fraction : ((e + 1075).toNat * 2 ^ 52 + (c - 2 ^ 52)) % Nat.pow 2 52 = c - 2 ^ 52 := by
    simp only [Nat.pow_eq]
    omega
  have sign : (((e + 1075).toNat * 2 ^ 52 + (c - 2 ^ 52)) / Nat.pow 2 63 == 1) = false := by
    simp only [Nat.pow_eq, beq_eq_false_iff_ne]
    omega
  rw [field, fraction, sign, if_neg (by omega), if_neg (by omega)]
  have mantissa : Nat.pow 2 52 + (c - 2 ^ 52) = c := by
    simp only [Nat.pow_eq]
    omega
  have exponent : (-1074 : Int) + ((e + 1075).toNat - 1 : Nat) = e := by omega
  rw [mantissa, exponent]

section
variable {n l : Nat} (value : n * 2 ^ 52 = c * 2 ^ l)
include value

theorem productExact (some : n ≠ 0) (positive : 0 < c) :
    ofScientific Format.binary64 n (Int.ofNat 0) = .finite .positive c (l - 52) positive := by
  have shifted : n <<< 53 * 10 ^ (Int.ofNat 0).toNat = c * 2 ^ (l + 1) := by
    show n <<< 53 * 10 ^ 0 = c * 2 ^ (l + 1)
    rw [Nat.shiftLeft_eq, pow_zero, mul_one, pow_succ, ← mul_assoc, value]
    ring
  have rounded : roundWithAccuracy Format.binary64 .positive (n <<< 53 * 10 ^ (Int.ofNat 0).toNat)
      (-53 + 0) .exact = .finite .positive c (l - 52) positive := by
    rw [shifted]
    exact roundExact low high _ _ (by omega) (by push_cast; omega)
  unfold ofScientific
  rw [dif_neg some, if_neg (by decide), if_neg (by simp), if_pos (by decide)]
  exact rounded

theorem wordExact (short : l ≤ 52) (some : n ≠ 0) (positive : 0 < c) :
    ofNat Format.binary64 n = .finite .positive c (l - 52) positive := by
  have whole : n * 2 ^ (52 - l) = c := by
    have split : 2 ^ 52 = 2 ^ (52 - l) * 2 ^ l := by rw [← pow_add]; congr 1; omega
    rw [split, ← mul_assoc] at value
    exact Nat.eq_of_mul_eq_mul_right (by positivity) value
  have log : n.log2 = l := by
    rw [Nat.log2_eq_iff some]
    rw [← whole] at low high
    constructor
    · refine Nat.le_of_mul_le_mul_right ?_ (Nat.two_pow_pos (52 - l))
      rw [← pow_add, show l + (52 - l) = 52 by omega]
      exact low
    · refine Nat.lt_of_mul_lt_mul_right (a := 2 ^ (52 - l)) ?_
      rw [← pow_add, show l + 1 + (52 - l) = 53 by omega]
      exact high
  have target : Format.binary64.targetExponent (Float.Model.totalExponent n 0) = l - 52 := by
    rw [Format.targetExponent, Float.Model.totalExponent, log]
    simp [show Format.binary64.mantissaBits = 53 from rfl, Format.minExponent]
    omega
  have amount : ((0 : Int) - (l - 52)).toNat = 52 - l := by omega
  have rounded : roundWithAccuracy Format.binary64 .positive (c * 2 ^ 0) (0 - (52 - l : Nat)) .exact = _ :=
    roundExact low high .positive 0 (by omega) (show _ = (l : Int) - 52 by omega)
  rw [pow_zero, mul_one] at rounded
  refine Eq.trans ?_ rounded
  unfold ofNat ofInt UnpackedFloat.normalize
  rw [show compare (n : Int) 0 = .gt by rw [compare_gt_iff_gt]; omega]
  simp only [Int.toNat_natCast, UnpackedFloat.round, target, decreaseExponent]
  rw [amount, Nat.shiftLeft_eq, whole]

theorem scientificExact (word : l < 63) (positive : 0 < c) :
    Float.ofScientific n false 0 = .ofModel (.pack (.finite .positive c (l - 52) positive)) := by
  have some : n ≠ 0 := by
    rintro rfl
    have : 0 < c * 2 ^ l := by positivity
    omega
  unfold Float.ofScientific
  by_cases small : n < 2 ^ 53 ∧ 0 ≤ 22
  · rw [dif_pos small]
    have short : l ≤ 52 := by
      by_contra long
      have : 2 ^ 53 ≤ 2 ^ l := Nat.pow_le_pow_right (by decide) (by omega)
      have : 2 ^ 52 * 2 ^ 53 ≤ c * 2 ^ l := Nat.mul_le_mul low this
      omega
    have one : Float.exactlyRepresentablePowersOfTen[0].toModel.unpack =
        .finite .positive (2 ^ 52) (-52) (by decide) := rfl
    have read : n.toUInt64.toFloat.toModel.unpack = .finite .positive c (l - 52) positive := by
      show unpack Format.binary64 (pack Format.binary64 (ofNat Format.binary64 n.toUInt64.toNat)) = _
      have fits : n.toUInt64.toNat = n := Nat.mod_eq_of_lt (by omega)
      rw [fits, wordExact low high value short some positive]
      exact unpackPacked low high (by omega) (by omega) positive
    have product : mul Format.binary64 n.toUInt64.toFloat.toModel.unpack
        Float.exactlyRepresentablePowersOfTen[0].toModel.unpack = .finite .positive c (l - 52) positive := by
      rw [one, read]
      exact roundExact low high _ _ (by omega) (by push_cast; omega)
    exact congrArg (fun u => Float.ofModel (.pack u)) product
  · rw [dif_neg small]
    show Float.ofModel (.pack (ofScientific Format.binary64 n (Int.ofNat 0))) = _
    rw [productExact low high value some positive]

end

end Exact

theorem normalForm (some : 0 < m) (bits : m < 2 ^ 53) : ∃ c, 2 ^ 52 ≤ c ∧ c < 2 ^ 53 ∧
    m * 2 ^ k * 2 ^ 52 = c * 2 ^ (m * 2 ^ k).log2 := by
  have log : 2 ^ m.log2 ≤ m ∧ m < 2 ^ (m.log2 + 1) := (Nat.log2_eq_iff (by omega)).mp rfl
  have short : m.log2 < 53 := (Nat.pow_lt_pow_iff_right (by decide)).mp (Nat.lt_of_le_of_lt log.1 bits)
  have shifted : (m * 2 ^ k).log2 = m.log2 + k := by
    rw [Nat.log2_eq_iff (by positivity), pow_add, show m.log2 + k + 1 = m.log2 + 1 + k by omega, pow_add]
    exact ⟨Nat.mul_le_mul_right _ log.1, Nat.mul_lt_mul_of_pos_right log.2 (by positivity)⟩
  have split : 2 ^ (52 - m.log2) * 2 ^ m.log2 = 2 ^ 52 := by rw [← pow_add]; congr 1; omega
  refine ⟨m * 2 ^ (52 - m.log2), ?_, ?_, ?_⟩
  · rw [← split, mul_comm]
    exact Nat.mul_le_mul_right _ log.1
  · have last : 2 ^ (52 - m.log2) * 2 ^ (m.log2 + 1) = 2 ^ 53 := by rw [← pow_add]; congr 1; omega
    rw [← last, mul_comm]
    exact Nat.mul_lt_mul_of_pos_left log.2 (by positivity)
  · rw [shifted, ← split, pow_add]
    ring

theorem wholeValue {n c l : Nat} (value : n * 2 ^ 52 = c * 2 ^ l) :
    (Binary.finite false c (l - 52)).whole? = some (n : Int) := by
  unfold Binary.whole?
  simp only [Nat.pow_eq, Bool.false_eq_true, if_false]
  by_cases long : 52 ≤ l
  · have amount : ((l : Int) - 52).toNat = l - 52 := by omega
    have whole : c * 2 ^ (l - 52) = n := by
      refine Nat.eq_of_mul_eq_mul_right (Nat.two_pow_pos 52) ?_
      rw [mul_assoc, ← pow_add, show l - 52 + 52 = l by omega, value]
    rw [if_pos (by omega), amount, whole]
    rfl
  · have amount : (-((l : Int) - 52)).toNat = 52 - l := by omega
    have whole : c = n * 2 ^ (52 - l) := by
      refine Nat.eq_of_mul_eq_mul_right (Nat.two_pow_pos l) ?_
      rw [mul_assoc, ← pow_add, show 52 - l + l = 52 by omega, value]
    rw [if_neg (by omega), amount, whole, if_pos (Nat.mul_mod_left _ _),
      Nat.mul_div_cancel _ (Nat.two_pow_pos _)]
    rfl

theorem clampFits {n : Nat} (word : n < 2 ^ 63) : clampWord n = n := by
  have least : leastWord = -2 ^ 63 := rfl
  have greatest : greatestWord = 2 ^ 63 - 1 := rfl
  rw [clampWord, least, greatest]
  omega

theorem wholeWordExact (bits : m < 2 ^ 53) (word : m * 2 ^ k < 2 ^ 63) (some : 0 < m) :
    wholeWord? (Float.ofScientific (m * 2 ^ k) false 0) = .some ((m * 2 ^ k : Nat) : Int) := by
  obtain ⟨c, low, high, value⟩ := @normalForm m k some bits
  have short : (m * 2 ^ k).log2 < 63 := (Nat.log2_lt (by positivity)).mpr word
  generalize m * 2 ^ k = n at value word short
  generalize n.log2 = l at value short
  rw [scientificExact low high value short (by omega), wholeWord?,
    binaryPacked low high (by omega) (by omega), wholeValue value]
  exact congrArg Option.some (clampFits word)

theorem binaryUnsigned (unsigned : Unsigned x) {negative : Bool} {mantissa : Nat} {exponent : Int}
    (found : binary x = .finite negative mantissa exponent) :
    negative = false ∧ mantissa < 2 ^ 53 := by
  have sign : (x.toBits.toNat / Nat.pow 2 63 == 1) = false := by
    rw [Nat.pow_eq, Nat.div_eq_of_lt unsigned]
    rfl
  have fraction : x.toBits.toNat % Nat.pow 2 52 < 2 ^ 52 := Nat.mod_lt _ (by decide)
  unfold binary at found
  simp only [sign, hiddenBit] at found
  split at found
  · split at found <;> cases found
  split at found
  · cases found
    exact ⟨rfl, by omega⟩
  · cases found
    refine ⟨rfl, ?_⟩
    rw [show Nat.pow 2 52 = 2 ^ 52 from rfl] at fraction ⊢
    omega

theorem wholeParts {n : Int} (unsigned : Unsigned x) (found : wholeWord? x = some n) :
    n = greatestWord ∨ ∃ m k : Nat, m < 2 ^ 53 ∧ m * 2 ^ k < 2 ^ 63 ∧ n = (m * 2 ^ k : Nat) := by
  obtain ⟨value, whole, rfl⟩ := Option.map_eq_some_iff.mp found
  have parts : ∃ m k : Nat, m < 2 ^ 53 ∧ value = (m * 2 ^ k : Nat) := by
    cases form : binary x with
    | nan => rw [form] at whole; cases whole
    | infinite negative => rw [form] at whole; cases whole
    | finite negative mantissa exponent =>
      obtain ⟨rfl, bits⟩ := binaryUnsigned unsigned form
      rw [form] at whole
      unfold Binary.whole? at whole
      simp only [Bool.false_eq_true, if_false] at whole
      split at whole
      · cases whole
        exact ⟨mantissa, exponent.toNat, bits, rfl⟩
      split at whole
      · cases whole
        refine ⟨mantissa / Nat.pow 2 (-exponent).toNat, 0, ?_, by simp⟩
        exact Nat.lt_of_le_of_lt (Nat.div_le_self _ _) bits
      · cases whole
  obtain ⟨m, k, bits, rfl⟩ := parts
  by_cases word : m * 2 ^ k < 2 ^ 63
  · exact .inr ⟨m, k, bits, word, clampFits word⟩
  · refine .inl ?_
    have least : leastWord = -2 ^ 63 := rfl
    have greatest : greatestWord = 2 ^ 63 - 1 := rfl
    rw [clampWord, least, greatest]
    omega

def Rereads (n : Nat) : Prop := wholeWord? (scaled (Nat.toDigits 10 n) 0) = some (n : Int)

theorem digitsBack (n : Nat) : digitsValue (Nat.toDigits 10 n) = n := by
  rw [digitsValue]
  have back := @Nat.ofDigitChars_ten_toDigits n
  rw [Nat.ofDigitChars_eq_foldl] at back
  exact back

theorem wholeRereads (bits : m < 2 ^ 53) (word : m * 2 ^ k < 2 ^ 63) :
    Rereads (m * 2 ^ k) := by
  have length : (Nat.toDigits 10 (m * 2 ^ k)).length ≤ 19 := by
    rw [Nat.length_toDigits_le_iff (by decide) (by decide)]
    omega
  unfold Rereads scaled
  simp only [digitsBack]
  split
  · rename_i zero
    rw [zero]
    decide +kernel
  · rename_i some
    rw [if_neg (by omega), if_neg (by omega), if_pos (by omega)]
    exact wholeWordExact bits word (Nat.pos_of_mul_pos_right (Nat.pos_of_ne_zero some))

theorem greatestRereads : Rereads (2 ^ 63 - 1) := by
  unfold Rereads
  decide +kernel

theorem realRereads {n : Int} (bare : c ≠ '-') (ok : realOf (c :: cs) = .ok x)
    (found : wholeWord? x = some n) :
    0 ≤ n ∧ Rereads n.toNat := by
  rcases wholeParts (realUnsigned bare ok) found with rfl | ⟨m, k, bits, word, rfl⟩
  · exact ⟨by decide, greatestRereads⟩
  · exact ⟨by omega, by rw [Int.toNat_natCast]; exact wholeRereads bits word⟩

theorem digitToLower (digit : c.isDigit = true) : c.toLower = c := by
  simp only [Char.isDigit, Bool.and_eq_true, decide_eq_true_eq, UInt32.le_iff_toNat_le] at digit
  unfold Char.toLower
  rw [dif_neg]
  simp only [ge_iff_le, UInt32.le_iff_toNat_le]
  simp at digit ⊢
  omega

theorem realLead (digit : c.isDigit = true) (plain : unsigned? (c :: cs) = some x) :
    realOf (c :: cs) = .ok x := by
  have noWord (w : Char) (ws : List Char) (letter : w.isDigit = false) :
      (c :: cs).map Char.toLower ≠ w :: ws := by
    intro same
    rw [List.map_cons, digitToLower digit] at same
    rw [← (List.cons.inj same).1, digit] at letter
    cases letter
  have noSign (s : Char) (sign : s.isDigit = false) : c ≠ s := by
    rintro rfl
    rw [digit] at sign
    cases sign
  have inf : ((c :: cs).map Char.toLower = "inf".toList) = False := eq_false (noWord _ _ rfl)
  have infinity : ((c :: cs).map Char.toLower = "infinity".toList) = False :=
    eq_false (noWord _ _ rfl)
  have nan : ((c :: cs).map Char.toLower = "nan".toList) = False := eq_false (noWord _ _ rfl)
  unfold realOf
  simp only [List.isEmpty_cons, Bool.false_eq_true, if_false]
  split
  all_goals
    rename_i found
    split at found
    · rename_i same
      exact absurd (List.cons.inj same).1 (noSign '-' rfl)
    · rename_i same
      exact absurd (List.cons.inj same).1 (noSign '+' rfl)
    · simp only [inf, infinity, nan, plain] at found
      cases found <;> rfl

theorem realDigits {digits : List Char} (all : ∀ d ∈ digits, d.isDigit = true) (some : digits ≠ []) :
    realOf digits = .ok (scaled digits 0) := by
  have run : Text.runOf Char.isDigit digits = (digits, []) := by
    have none := List.dropWhile_eq_nil_iff.mpr all
    have whole := List.takeWhile_append_dropWhile (p := Char.isDigit) (l := digits)
    rw [none, List.append_nil] at whole
    rw [Text.runOf, whole, none]
  have plain : unsigned? digits = Option.some (scaled digits 0) := by
    simp [unsigned?, run, some, exponent?]
  cases digits with
  | nil => exact absurd rfl some
  | cons c cs => exact realLead (all c List.mem_cons_self) plain

end Crochet.Decimal
