import AddressMap.Text.Case
import Mathlib.Data.List.Basic

set_option autoImplicit false

namespace AddressMap.Text

def IsSign (c : Char) : Prop := 0 < c.toNat ∧ c.toNat < 65

theorem toLower_of_sign {c : Char} (hc : c.toNat < 128) (h : IsSign c.toLower) : c.toLower = c := by
  have ascii : ∀ n < 128, (Char.ofNat n).toLower.toNat < 65 → (Char.ofNat n).toLower = Char.ofNat n := by decide
  rw [← Char.ofNat_toNat c] at h ⊢
  exact ascii _ hc h.2

theorem runShift_lower (n : Nat) (hn : 128 ≤ n) : 65 ≤ n + runShift lowerRuns n := by
  have runs : ∀ r ∈ lowerRuns, 65 ≤ (r.1 : Int) + r.2.2.2 := by decide +kernel
  unfold runShift
  split
  · rename_i r hr
    have bound := runs r (Array.mem_of_find?_eq_some hr)
    have inside := Array.find?_some hr
    simp only [Bool.and_eq_true, decide_eq_true_eq] at inside
    omega
  · omega

theorem toNat_ofNat (n : Nat) : (Char.ofNat n).toNat = if n.isValidChar then n else 0 := by
  by_cases valid : n.isValidChar
  · rw [if_pos valid, Char.ofNat, dif_pos valid]
    rfl
  · rw [if_neg valid, Char.ofNat, dif_neg valid]
    rfl

theorem not_isSign_shifted {n : Nat} (hn : 128 ≤ n) : ¬ IsSign (shifted lowerRuns n) := by
  have bound := runShift_lower n hn
  rintro ⟨hpos, hlt⟩
  unfold shifted at hpos hlt
  generalize hv : (n + runShift lowerRuns n).toNat = v at hpos hlt
  by_cases valid : v.isValidChar
  · rw [toNat_ofNat, if_pos valid] at hlt
    omega
  · rw [toNat_ofNat, if_neg valid] at hpos
    exact Nat.lt_irrefl 0 hpos

theorem eq_of_mem_lowerChar {c d : Char} (h : d ∈ lowerChar c) (hd : IsSign d) : d = c := by
  unfold lowerChar at h
  split at h
  · rename_i hc
    rw [List.mem_singleton] at h
    subst h
    exact toLower_of_sign hc hd
  · rename_i hc
    split at h
    · have letters : ∀ d ∈ ['i', '\u0307'], 65 ≤ d.toNat :=
        List.forall_mem_cons.mpr ⟨by decide, List.forall_mem_singleton.mpr (by decide)⟩
      exact absurd hd.2 (Nat.not_lt.mpr (letters d h))
    · rw [List.mem_singleton] at h
      exact absurd (h ▸ hd) (not_isSign_shifted (Nat.not_lt.mp hc))

theorem mem_of_mem_lowerAfter {before cs : List Char} {c : Char} (h : c ∈ lowerAfter before cs) (hc : IsSign c) :
    c ∈ cs := by
  induction cs generalizing before with
  | nil => cases h
  | cons d rest ih =>
    rw [lowerAfter] at h
    rcases List.mem_append.mp h with hhere | hrest
    · split_ifs at hhere
      · rw [List.mem_singleton.mp hhere] at hc
        exact absurd hc.2 (by decide)
      · rw [List.mem_singleton.mp hhere] at hc
        exact absurd hc.2 (by decide)
      · exact eq_of_mem_lowerChar hhere hc ▸ List.mem_cons_self
    · exact List.mem_cons_of_mem _ (ih hrest)

theorem mem_of_mem_lower {s : String} {c : Char} (h : c ∈ (lower s).toList) (hc : IsSign c) : c ∈ s.toList := by
  rw [lower, String.toList_ofList] at h
  exact mem_of_mem_lowerAfter h hc

end AddressMap.Text
