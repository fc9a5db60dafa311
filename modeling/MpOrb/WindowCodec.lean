import MpOrb.FluidModel
import MpOrb.Lib.Significand

/-!
# The window codec

`encode_cwnd_roundtrip` keeps 12 significant bits of a window.

* `bitLength_eq` — `int.bit_length` is the binary size.
* `encodeCwndRoundtrip_eq` — the code rounds to a significand of 12 bits; the carry it handles is
  the only one that can occur.
* `codec_rounds` — exact on small windows, of the encoded form, close, monotone and idempotent.
-/

set_option autoImplicit false

namespace MpOrb.FluidModel

theorem bitLength_eq (w : ℕ) : bitLength w = Nat.size w := by
  unfold bitLength
  split
  · rename_i h
    rw [h, Nat.size_zero]
  · rename_i h
    apply le_antisymm
    · exact Nat.lt_size.2 (Nat.log2_self_le h)
    · exact Nat.size_le.2 Nat.lt_log2_self

/-- **The codec rounds to 12 significant bits.** -/
theorem encodeCwndRoundtrip_eq {w : ℤ} (hw : 0 ≤ w) :
    encodeCwndRoundtrip w = Significand.round 12 w.toNat := by
  unfold encodeCwndRoundtrip
  split
  · rename_i hsmall
    rw [Significand.round_of_lt (by omega), Int.toNat_of_nonneg hw]
  · simp only [bitLength_eq, Nat.shiftLeft_eq, Nat.shiftRight_eq_div_pow, one_mul]
    rw [Significand.round_eq]
    have hle := Significand.significand_le 12 w.toNat
    unfold Significand.significand Significand.exponent at hle ⊢
    split
    · rename_i hcarry
      have hfull : (w.toNat + 2 ^ (w.toNat.size - 12) / 2) / 2 ^ (w.toNat.size - 12) = 4096 := by
        omega
      rw [hfull, pow_succ]
      push_cast
      ring
    · rfl

/-- **The window codec is a rounding.**  Windows of up to 12 bits pass unchanged; every window comes
out as 12 bits times a power of two, off by at most one part in 4096; a larger window never comes
out smaller; and a second pass changes nothing. -/
theorem codec_rounds (w : ℤ) (hw : 0 ≤ w) :
    (w ≤ 4095 → encodeCwndRoundtrip w = w) ∧
      (∃ s k : ℕ, s ≤ 4095 ∧ encodeCwndRoundtrip w = s * 2 ^ k) ∧
      |encodeCwndRoundtrip w - w| * 4096 ≤ w ∧
      (∀ w', w ≤ w' → encodeCwndRoundtrip w ≤ encodeCwndRoundtrip w') ∧
      encodeCwndRoundtrip (encodeCwndRoundtrip w) = encodeCwndRoundtrip w := by
  rw [encodeCwndRoundtrip_eq hw]
  refine ⟨?_, ?_, ?_, ?_, ?_⟩
  · intro hsmall
    rw [Significand.round_of_lt (by omega), Int.toNat_of_nonneg hw]
  · obtain ⟨s, k, hs, hround⟩ := Significand.round_representable (p := 12) (by decide) w.toNat
    refine ⟨s, k, by omega, ?_⟩
    rw [hround]
    push_cast
    rfl
  · have herror := Significand.abs_round_sub_le 12 w.toNat
    rwa [Int.toNat_of_nonneg hw] at herror
  · intro w' hle
    rw [encodeCwndRoundtrip_eq (hw.trans hle)]
    exact Int.ofNat_le.2 (Significand.round_mono (by decide) (Int.toNat_le_toNat hle))
  · rw [encodeCwndRoundtrip_eq (Int.natCast_nonneg _), Int.toNat_natCast,
      Significand.round_idem (by decide)]

example : encodeCwndRoundtrip 144800 = 144832 := by decide +kernel

/-- The largest window of 13 bits is carried to the next power of two. -/
theorem codec_rounds_carry : encodeCwndRoundtrip 8191 = 8192 ∧
    encodeCwndRoundtrip (encodeCwndRoundtrip 8191) = encodeCwndRoundtrip 8191 :=
  ⟨by decide +kernel, (codec_rounds 8191 (by decide)).2.2.2.2⟩

end MpOrb.FluidModel
