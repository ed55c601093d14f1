import Listing.Config
import Listing.Proofs.Outcome
/-!
# Accepted configurations

Whatever the environment, a configuration that is accepted gives out pages: the size of a page without
a wish is at least one and at most the greatest (`Config.limits_of_ofEnvironment`).
-/
namespace Listing

namespace Text

theorem wholeFrom_lt {bound n m : Nat} {ds : List Char} (hn : n < bound) (h : wholeFrom bound n ds = .ok m) :
    m < bound := by
  induction ds generalizing n with
  | nil =>
    cases h
    exact hn
  | cons c ds ih =>
    simp only [wholeFrom] at h
    split at h
    · cases h
    · split at h
      · cases h
      · next hlt => exact ih (Nat.lt_of_not_le hlt) h

theorem whole_lt {bound n : Nat} {text : String} (hbound : 0 < bound) (h : whole bound text = .ok n) : n < bound := by
  unfold whole at h
  split at h
  · cases h
  · exact wholeFrom_lt hbound h

end Text

namespace Config

theorem number_lt {env : Environment} {name : String} {bits default n : Nat} (hdefault : default < .pow 2 bits)
    (h : number env name bits default = .ok n) : n < .pow 2 bits := by
  unfold number at h
  split at h
  · cases h
    exact hdefault
  · split at h
    · next hwhole =>
      cases h
      exact Text.whole_lt (Nat.two_pow_pos bits) hwhole
    · cases h

/-- The default size of a page is no wish that is refused or cut. -/
theorem limits_of_ofEnvironment {env : Environment} {config : Config} (h : ofEnvironment env = .ok config) :
    1 ≤ config.pageLimits.default ∧ config.pageLimits.default ≤ config.pageLimits.max := by
  obtain ⟨_, _, h⟩ := bind_eq_ok.1 h
  obtain ⟨_, _, h⟩ := bind_eq_ok.1 h
  obtain ⟨items, hitems, h⟩ := bind_eq_ok.1 h
  obtain ⟨most, hmost, h⟩ := bind_eq_ok.1 h
  obtain ⟨_, _, h⟩ := bind_eq_ok.1 h
  have hitems := number_lt (by decide) hitems
  have hmost := number_lt (by decide) hmost
  split at h
  · cases h
  · next hpositive =>
    cases h
    have hleast : (UInt64.ofNat (min items most)).toNat = min items most :=
      UInt64.toNat_ofNat_of_lt' (Nat.lt_of_le_of_lt (Nat.min_le_left ..) hitems)
    have hgreatest : (UInt64.ofNat most).toNat = most := UInt64.toNat_ofNat_of_lt' hmost
    simp only [pageLimits, UInt64.le_iff_toNat_le, hleast, hgreatest, UInt64.toNat_one]
    omega

end Config
end Listing
