import Crochet.Decimal.Text
import Crochet.Proofs.Decimal.Whole

/-! The characters of a number as text. A finite number with a clear sign bit is written with digits
and a point, so no mark of a spec or of a node name stands in it. -/
namespace Crochet.Decimal
open Float.Model (Format UnpackedFloat)
open Float.Model.UnpackedFloat

def isPlainChar (c : Char) : Bool := c.isDigit || c ∈ ['-', '.', 'i', 'n', 'f', 'N', 'a']

def isPointed (c : Char) : Bool := c.isDigit || c == '.'

theorem pointedPlain {c : Char} (pointed : isPointed c = true) : isPlainChar c = true := by
  rcases Bool.or_eq_true_iff.mp pointed with digit | point
  · simp [isPlainChar, digit]
  · rw [beq_iff_eq.mp point]
    decide

theorem positionalPointed (d : Digits) : ∀ c ∈ plainLayout.finite d.scientific,
    isPointed c = true := by
  have digit : ∀ c ∈ Nat.toDigits 10 d.digits, isPointed c = true := by
    intro c inside
    simp [isPointed, Nat.isDigit_of_mem_toDigits (by decide) (by decide) inside]
  have zero : ∀ n, ∀ c ∈ zeros n, isPointed c = true := by
    intro n c inside
    rw [List.eq_of_mem_replicate inside]
    decide
  have parts : (∀ c ∈ d.scientific.positional.1, isPointed c = true) ∧
      ∀ c ∈ d.scientific.positional.2, isPointed c = true := by
    unfold Scientific.positional
    split
    · refine ⟨by simp [isPointed], ?_⟩
      intro c inside
      rcases List.mem_append.mp inside with leading | own
      · exact zero _ c leading
      · exact digit c own
    · constructor
      · intro c inside
        rcases List.mem_append.mp inside with own | trailing
        · exact digit c (List.mem_of_mem_take own)
        · exact zero _ c trailing
      · intro c inside
        exact digit c (List.mem_of_mem_drop inside)
  intro c inside
  simp only [plainLayout] at inside
  split at inside
  · exact parts.1 c inside
  · rcases List.mem_append.mp inside with whole | fraction
    · exact parts.1 c whole
    · rcases List.mem_cons.mp fraction with rfl | places
      · decide
      · exact parts.2 c places

theorem plainChars (x : Float) : ∀ c ∈ (plain x).toList, isPlainChar c = true := by
  have sign : ∀ negative : Bool,
      (if negative then ['-'] else [] : List Char).all isPlainChar = true := by decide
  have words : ∀ word ∈ [plainLayout.nan, plainLayout.infinity, plainLayout.zero],
      word.all isPlainChar = true := by decide
  intro c inside
  rw [plain, String.toList_ofList] at inside
  unfold Layout.chars at inside
  simp only at inside
  split at inside
  · exact List.all_eq_true.mp (words _ (by simp)) c inside
  · rcases List.mem_append.mp inside with signed | word
    · exact List.all_eq_true.mp (sign _) c signed
    · exact List.all_eq_true.mp (words _ (by simp)) c word
  · rcases List.mem_append.mp inside with signed | word
    · exact List.all_eq_true.mp (sign _) c signed
    · exact List.all_eq_true.mp (words _ (by simp)) c word
  · rcases List.mem_append.mp inside with signed | number
    · exact List.all_eq_true.mp (sign _) c signed
    · exact pointedPlain (positionalPointed _ c number)

section
variable (b : BitVec 64)

theorem exponentBits : (@unpackExponent Format.binary64 b).toNat = b.toNat / 2 ^ 52 % 2048 := by
  simp [unpackExponent, Nat.shiftRight_eq_div_pow]

theorem mantissaBits : (@unpackMantissa Format.binary64 b).toNat = b.toNat % 2 ^ 52 := by
  simp [unpackMantissa]

end

variable {x : Float}

theorem binaryFinite (finite : x.isFinite = true) :
    ∃ negative mantissa exponent, binary x = .finite negative mantissa exponent := by
  have below : ¬ x.toBits.toNat / hiddenBit % 2048 = 2047 := by
    intro last
    have exponent : @unpackExponent Format.binary64 x.toModel.toBits.toBitVec = -1#11 := by
      apply BitVec.eq_of_toNat_eq
      rw [exponentBits]
      exact last
    have infinite : (unpack Format.binary64 x.toModel.toBits.toBitVec).isFinite = false := by
      rcases unpackCases x.toModel.toBits.toBitVec rfl with ⟨_, same | same⟩ | ⟨first, _⟩ | ⟨other, _⟩
      · rw [same]
        rfl
      · rw [same]
        rfl
      · rw [exponent] at first
        cases first
      · exact absurd exponent other
    cases infinite.symm.trans finite
  unfold binary
  simp only [if_neg below]
  split
  · exact ⟨_, _, _, rfl⟩
  · exact ⟨_, _, _, rfl⟩

theorem plainPointed (finite : x.isFinite = true) (unsigned : Unsigned x) :
    ∀ c ∈ (plain x).toList, isPointed c = true := by
  obtain ⟨negative, mantissa, exponent, form⟩ := binaryFinite finite
  obtain ⟨rfl, -⟩ := binaryUnsigned unsigned form
  intro c inside
  rw [plain, String.toList_ofList, Layout.chars, form] at inside
  cases mantissa with
  | zero =>
    have word : plainLayout.zero.all isPointed = true := by decide
    exact List.all_eq_true.mp word c inside
  | succ m => exact positionalPointed _ c inside

theorem unsignedNotLess (unsigned : Unsigned x) : ¬ x < 0.0 := by
  have zero : (0.0 : Float).toModel.unpack = .zero .positive := rfl
  have sign := unpackUnsigned unsigned
  have above : x.toModel.unpack.lt (.zero .positive) = false := by
    cases form : x.toModel.unpack with
    | notANumber => rfl
    | infinity s =>
      rw [form] at sign
      cases sign
      rfl
    | zero s => rfl
    | finite s m e positive =>
      rw [form] at sign
      cases sign
      rfl
  intro less
  have negative : x.toModel.unpack.lt (0.0 : Float).toModel.unpack = true :=
    of_decide_eq_true less
  rw [zero, above] at negative
  cases negative

theorem unpackedNegative {b : BitVec 64} (signed : 2 ^ 63 ≤ b.toNat) :
    Sign.ofBitVec (@unpackSign Format.binary64 b) = .negative := by
  have bound := b.isLt
  have bit : @unpackSign Format.binary64 b = 1#1 := by
    apply BitVec.eq_of_toNat_eq
    have value : (1#1).toNat = 1 := rfl
    rw [signBit, value]
    omega
  rw [bit]
  rfl

theorem negativeZero (bits : x.toModel.toBits.toBitVec.toNat = 2 ^ 63) : x = -0.0 := by
  have same : x.toModel.toBits = (-0.0 : Float).toModel.toBits := UInt64.toNat_inj.mp bits
  cases x with
  | ofModel m =>
    cases m with
    | mk own valid =>
      simp only at same
      subst same
      rfl

theorem unsignedOfLe (above : 0.0 ≤ x) (other : x ≠ -0.0) : Unsigned x := by
  by_contra signed
  have high : 2 ^ 63 ≤ x.toModel.toBits.toBitVec.toNat := Nat.le_of_not_lt signed
  have bound := x.toModel.toBits.toBitVec.isLt
  have zero : (0.0 : Float).toModel.unpack = .zero .positive := rfl
  have least : UnpackedFloat.le (.zero .positive)
      (unpack Format.binary64 x.toModel.toBits.toBitVec) = true := by
    rw [← zero]
    exact of_decide_eq_true above
  rcases unpackCases _ (unpackedNegative high) with
    ⟨_, same | same⟩ | ⟨first, ⟨second, _⟩ | ⟨_, _, _, same⟩⟩ | ⟨_, _, same⟩
  · rw [same] at least
    cases least
  · rw [same] at least
    cases least
  · have exponent := exponentBits x.toModel.toBits.toBitVec
    have mantissa := mantissaBits x.toModel.toBits.toBitVec
    rw [first, show (0#11).toNat = 0 from rfl] at exponent
    rw [second, show (0#52).toNat = 0 from rfl] at mantissa
    exact other (negativeZero (by omega))
  · rw [same] at least
    cases least
  · rw [same] at least
    cases least

end Crochet.Decimal
