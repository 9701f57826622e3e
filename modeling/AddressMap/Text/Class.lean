import AddressMap.Text.LetterTable
import AddressMap.Text.MarkTable

set_option autoImplicit false

namespace AddressMap.Text

def inRanges (ranges : Array (Nat × Nat)) (n : Nat) : Bool :=
  ranges.any fun r => r.1 ≤ n && n ≤ r.2

/-- White space: `White_Space`, which has no member outside these ranges. -/
def isBlank (c : Char) : Bool :=
  let n := c.toNat
  (9 ≤ n && n ≤ 13) || n == 0x20 || n == 0x85 || n == 0xA0 || n == 0x1680 ||
    (0x2000 ≤ n && n ≤ 0x200A) || n == 0x2028 || n == 0x2029 || n == 0x202F || n == 0x205F ||
    n == 0x3000

def isAlphabetic (c : Char) : Bool :=
  c.isAlpha || (128 ≤ c.toNat && inRanges alphabeticRanges c.toNat)

def isAlphanumeric (c : Char) : Bool :=
  c.isAlphanum || (128 ≤ c.toNat &&
    (inRanges alphabeticRanges c.toNat || inRanges numberRanges c.toNat))

def isDecimalDigit (c : Char) : Bool :=
  c.isDigit || (128 ≤ c.toNat && inRanges decimalDigitRanges c.toNat)

/-- A character of a word in the sense of pattern matching: letters, marks, decimal digits, connector
    punctuation and join controls. -/
def isWord (c : Char) : Bool :=
  c.isAlphanum || c == '_' || (128 ≤ c.toNat && (inRanges alphabeticRanges c.toNat ||
    inRanges decimalDigitRanges c.toNat || inRanges wordMarkRanges c.toNat))

/-- A character that a quoted name writes by its code point. -/
def isHidden (c : Char) : Bool :=
  c.toNat < 32 || c.toNat == 127 || (128 ≤ c.toNat && inRanges hiddenRanges c.toNat)

def trim (s : String) : String :=
  let front := s.toList.dropWhile isBlank
  String.ofList (front.reverse.dropWhile isBlank).reverse

theorem isAlphabetic_of_isAlpha {c : Char} (h : c.isAlpha = true) : isAlphabetic c = true := by
  simp [isAlphabetic, h]

theorem inRanges_eq (ranges : Array (Nat × Nat)) (n : Nat) :
    inRanges ranges n = ranges.toList.any fun r => r.1 ≤ n && n ≤ r.2 :=
  Array.any_toList.symm

def wideBlanks : List Nat :=
  [0x85, 0xA0, 0x1680, 0x2000, 0x2001, 0x2002, 0x2003, 0x2004, 0x2005, 0x2006, 0x2007, 0x2008, 0x2009,
    0x200A, 0x2028, 0x2029, 0x202F, 0x205F, 0x3000]

theorem isBlank_cases {c : Char} (h : isBlank c = true) :
    (9 ≤ c.toNat ∧ c.toNat ≤ 13 ∨ c.toNat = 32) ∨ c.toNat ∈ wideBlanks := by
  simp only [isBlank, Bool.or_eq_true, Bool.and_eq_true, decide_eq_true_eq, beq_iff_eq] at h
  simp only [wideBlanks, List.mem_cons, List.not_mem_nil, or_false]
  omega

theorem isAlphanumeric_of_isBlank {c : Char} (h : isBlank c = true) : isAlphanumeric c = false := by
  have letters : ∀ n ∈ wideBlanks, (alphabeticRanges.toList.any fun r => r.1 ≤ n && n ≤ r.2) = false := by
    decide +kernel
  have numbers : ∀ n ∈ wideBlanks, (numberRanges.toList.any fun r => r.1 ≤ n && n ≤ r.2) = false := by
    decide +kernel
  have ascii : ∀ n ∈ wideBlanks ++ [9, 10, 11, 12, 13, 32], (Char.ofNat n).isAlphanum = false := by
    decide
  have narrow : c.isAlphanum = false := by
    rw [← Char.ofNat_toNat c]
    refine ascii c.toNat (List.mem_append.mpr ((isBlank_cases h).symm.imp_right fun hc => ?_))
    simp only [List.mem_cons, List.not_mem_nil, or_false]
    omega
  rw [isAlphanumeric, narrow, inRanges_eq, inRanges_eq, Bool.false_or]
  rcases isBlank_cases h with hc | hc
  · have hlt : ¬ 128 ≤ c.toNat := by omega
    simp [hlt]
  · rw [letters _ hc, numbers _ hc]
    simp

end AddressMap.Text
