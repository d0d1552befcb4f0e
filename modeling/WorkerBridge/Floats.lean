import Mathlib

namespace Floats

open Float.Model (UnpackedFloat)
open Float.Model.UnpackedFloat (Sign)

namespace Unpacked

variable {u v : UnpackedFloat}

theorem compare_swap (u v : UnpackedFloat) : u.compare v = (v.compare u).map Ordering.swap := by
  have hsign : ∀ s t : Sign, compare s t = (compare t s).swap := by
    intro s t
    cases s <;> cases t <;> rfl
  cases u with
  | notANumber => cases v <;> rfl
  | infinity s =>
    cases v with
    | infinity t => exact congrArg some (hsign s t)
    | notANumber | zero | finite => cases s <;> rfl
  | zero s =>
    cases v with
    | notANumber | zero => rfl
    | infinity t => cases t <;> rfl
    | finite t => cases t <;> rfl
  | finite s m e hm =>
    cases v with
    | notANumber => cases s <;> rfl
    | infinity t => cases s <;> cases t <;> rfl
    | zero t => cases s <;> rfl
    | finite t n f hn =>
      have hswap : (compare e f).then (compare m n) =
          ((compare f e).then (compare n m)).swap := by
        rw [Ordering.swap_then, ← Std.OrientedOrd.eq_swap, ← Std.OrientedOrd.eq_swap]
      cases s <;> cases t <;> simp [UnpackedFloat.compare, hswap]

theorem compare_isSome (hu : u.isNaN = false) (hv : v.isNaN = false) :
    (u.compare v).isSome = true := by
  cases u with
  | notANumber => cases hu
  | infinity s =>
    cases v with
    | notANumber => cases hv
    | infinity t => rfl
    | zero | finite => cases s <;> rfl
  | zero s =>
    cases v with
    | notANumber => cases hv
    | zero => rfl
    | infinity t => cases t <;> rfl
    | finite t => cases t <;> rfl
  | finite s =>
    cases v with
    | notANumber => cases hv
    | infinity t => cases s <;> cases t <;> rfl
    | zero => cases s <;> rfl
    | finite t => cases s <;> cases t <;> rfl

theorem zero_or_finite (h : u.isFinite = true) :
    (∃ s, u = .zero s) ∨ ∃ s m e hm, u = .finite s m e hm := by
  cases u with
  | notANumber | infinity => cases h
  | zero s => exact Or.inl ⟨s, rfl⟩
  | finite s m e hm => exact Or.inr ⟨s, m, e, hm, rfl⟩

theorem isNaN_of_le (h : u.le v = true) : u.isNaN = false ∧ v.isNaN = false := by
  cases u <;> cases v <;> first | exact ⟨rfl, rfl⟩ | cases h

theorem le_of_not_lt (hu : u.isNaN = false) (hv : v.isNaN = false) (h : u.lt v = false) :
    v.le u = true := by
  obtain ⟨o, ho⟩ := Option.isSome_iff_exists.mp (compare_isSome hu hv)
  unfold UnpackedFloat.lt at h
  rw [ho] at h
  unfold UnpackedFloat.le
  rw [compare_swap, ho]
  cases o with
  | lt => cases h
  | eq | gt => rfl

theorem le_of_lt (h : u.lt v = true) : u.le v = true := by
  have ho : u.compare v = some .lt := by simpa [UnpackedFloat.lt] using h
  unfold UnpackedFloat.le
  rw [ho]
  rfl

theorem le_self (hu : u.isNaN = false) : u.le u = true := by
  obtain ⟨o, ho⟩ := Option.isSome_iff_exists.mp (compare_isSome hu hu)
  have hswap := compare_swap u u
  unfold UnpackedFloat.le
  rw [ho, Option.map_some, Option.some.injEq] at hswap
  rw [ho]
  cases o with
  | lt | gt => cases hswap
  | eq => rfl

theorem pos_of_le (hu : (UnpackedFloat.zero .positive).lt u = true) (h : u.le v = true) :
    (UnpackedFloat.zero .positive).lt v = true := by
  cases u with
  | notANumber | zero => cases hu
  | infinity s =>
    cases s with
    | negative => cases hu
    | positive =>
      cases v with
      | notANumber | zero | finite => cases h
      | infinity t =>
        cases t with
        | negative => cases h
        | positive => rfl
  | finite s m e hm =>
    cases s with
    | negative => cases hu
    | positive =>
      cases v with
      | notANumber | zero => cases h
      | infinity t | finite t =>
        cases t with
        | negative => cases h
        | positive => rfl

end Unpacked

section Float

variable {x y c : Float}

theorem le_iff : x ≤ y ↔ x.toModel.unpack.le y.toModel.unpack = true := decide_eq_true_iff

theorem lt_iff : x < y ↔ x.toModel.unpack.lt y.toModel.unpack = true := decide_eq_true_iff

theorem le_iff_of_not_lt (hy : y.isNaN = false) (h : ¬ x < y) : y ≤ x ↔ x.isNaN = false := by
  rw [le_iff]
  constructor
  · exact fun hle => (Unpacked.isNaN_of_le hle).2
  · intro hx
    rw [lt_iff, Bool.not_eq_true] at h
    exact Unpacked.le_of_not_lt hx hy h

theorem le_of_lt (h : x < y) : x ≤ y := le_iff.mpr (Unpacked.le_of_lt (lt_iff.mp h))

theorem pos_of_le (hc : 0.0 < c) (h : c ≤ x) : 0.0 < x := by
  have hzero : (0.0 : Float).toModel.unpack = .zero .positive := rfl
  rw [lt_iff, hzero] at hc ⊢
  exact Unpacked.pos_of_le hc (le_iff.mp h)

theorem le_self_of_isFinite (h : x.isFinite = true) : x ≤ x := by
  refine le_iff.mpr (Unpacked.le_self ?_)
  rcases Unpacked.zero_or_finite (u := x.toModel.unpack) h with ⟨s, hu⟩ | ⟨s, m, e, hm, hu⟩ <;>
    rw [hu] <;> rfl

end Float

section Sums

open Float.Model (Format)
open Float.Model.UnpackedFloat

theorem isFinite_unpack_iff (b : BitVec Format.binary64.numBits) :
    (unpack .binary64 b).isFinite = true ↔ unpackExponent b ≠ -1#_ := by
  unfold unpack
  dsimp only
  split
  · next he =>
    refine iff_of_false ?_ (not_not_intro he)
    split <;> exact Bool.false_ne_true
  · next he =>
    refine iff_of_true ?_ he
    split
    · split <;> rfl
    · rfl

theorem toNat_exponentBias : Format.binary64.exponentBias = 1023 := rfl

theorem unpackExponent_pack {s : Sign} {m : Nat} {e : Int} {hm : 0 < m} (he : e < 972) :
    unpackExponent (pack .binary64 (.finite s m e hm)) ≠ -1#_ := by
  unfold pack
  dsimp only
  have hbiased : (e + (Format.binary64.exponentBias : Nat) + (52 : Nat)).toNat < 2047 := by
    rw [toNat_exponentBias]
    omega
  split
  · next hlarge =>
    have hlarge : 2 ^ 11 ≤ (e + (Format.binary64.exponentBias : Nat) + (52 : Nat)).toNat + 1 := hlarge
    omega
  · split
    · rw [unpackExponent_packComponents]
      intro h
      have hn : (e + (Format.binary64.exponentBias : Nat) + (52 : Nat)).toNat % 2 ^ 11 = 2047 :=
        congrArg BitVec.toNat h
      omega
    · rw [unpackExponent_packComponents]
      decide

theorem unpackExponent_pack_unpack {b : BitVec Format.binary64.numBits}
    (h : unpackExponent b ≠ -1#_) :
    unpackExponent (pack .binary64 (unpack .binary64 b)) ≠ -1#_ := by
  have hlt : (unpackExponent b).toNat < 2047 := by
    have hne : (unpackExponent b).toNat ≠ 2047 := fun he => h (BitVec.eq_of_toNat_eq he)
    have hlt : (unpackExponent b).toNat < 2 ^ 11 := (unpackExponent b).isLt
    omega
  unfold unpack
  dsimp only
  rw [if_neg h, toNat_exponentBias]
  split
  · next hzero =>
    split
    · rw [pack, packedZero, unpackExponent_packComponents]
      decide
    · have hn : (unpackExponent b).toNat = 0 := congrArg BitVec.toNat hzero
      exact unpackExponent_pack (by omega)
  · exact unpackExponent_pack (by omega)

theorem unpack_add (x y : Float) : (x + y).toModel.unpack =
    (Float.Model.pack (add .binary64 x.toModel.unpack y.toModel.unpack)).unpack :=
  rfl

variable {x y z : Float}

theorem add_infinity {u : UnpackedFloat} (hu : u.isFinite = true) :
    add .binary64 u (.infinity .positive) = .infinity .positive := by
  rcases Unpacked.zero_or_finite hu with ⟨s, rfl⟩ | ⟨s, m, e, hm, rfl⟩ <;> rfl

theorem not_infinity_le {u : UnpackedFloat} (hu : u.isFinite = true) :
    (UnpackedFloat.infinity .positive).le u = false := by
  rcases Unpacked.zero_or_finite hu with ⟨s, rfl⟩ | ⟨s, m, e, hm, rfl⟩ <;> rfl

theorem isFinite_of_add_le (hx : x.isFinite = true) (hz : z.isFinite = true) (hy : 0.0 < y)
    (h : x + y ≤ z) : y.isFinite = true := by
  have hzero : (0.0 : Float).toModel.unpack = .zero .positive := rfl
  rw [lt_iff, hzero] at hy
  rw [le_iff, unpack_add] at h
  show y.toModel.unpack.isFinite = true
  cases hv : y.toModel.unpack with
  | notANumber =>
    rw [hv] at hy
    cases hy
  | zero | finite => rfl
  | infinity t =>
    rw [hv] at hy h
    cases t with
    | negative => cases hy
    | positive =>
      have hkeep : (Float.Model.pack (.infinity .positive)).unpack = .infinity .positive := by rfl
      rw [add_infinity hx, hkeep, not_infinity_le hz] at h
      cases h

theorem isFinite_zero_add (h : x.isFinite = true) : (0.0 + x).isFinite = true := by
  let b : BitVec Format.binary64.numBits := x.toModel.toBits.toBitVec
  have hx : unpackExponent b ≠ -1#_ := (isFinite_unpack_iff b).mp h
  have hzero : (0.0 : Float).toModel.unpack = .zero .positive := rfl
  show (0.0 + x).toModel.unpack.isFinite = true
  rw [unpack_add, hzero]
  refine (isFinite_unpack_iff _).mpr ?_
  rcases Unpacked.zero_or_finite (u := x.toModel.unpack) h with ⟨s, hu⟩ | ⟨s, m, e, hm, hu⟩
  · rw [hu]
    cases s <;> decide
  · have hkeep := unpackExponent_pack_unpack hx
    rw [show unpack .binary64 b = _ from hu] at hkeep
    rw [hu]
    exact hkeep

end Sums

def value (x : Float) : Option ℚ :=
  match x.toModel.unpack with
  | .notANumber | .infinity _ => none
  | .zero _ => some 0
  | .finite .positive m e _ => some (m * 2 ^ e)
  | .finite .negative m e _ => some (-(m * 2 ^ e))

theorem value_pos {x : Float} (h : 0.0 < x) (hfinite : x.isFinite = true) :
    ∃ q, value x = some q ∧ 0 < q := by
  have hzero : (0.0 : Float).toModel.unpack = .zero .positive := rfl
  rw [lt_iff, hzero] at h
  unfold value
  rcases Unpacked.zero_or_finite (u := x.toModel.unpack) hfinite with ⟨s, hu⟩ | ⟨s, m, e, hm, hu⟩
  · rw [hu] at h
    cases h
  · rw [hu] at h ⊢
    cases s with
    | negative => cases h
    | positive => exact ⟨m * 2 ^ e, rfl, mul_pos (Nat.cast_pos.mpr hm) (zpow_pos two_pos e)⟩

end Floats
