import AddressMap.Proofs.Names
import AddressMap.Proofs.Record.Placement
import AddressMap.Proofs.View.Reading

set_option autoImplicit false

namespace AddressMap

variable {patterns : PatternReader}

namespace Metadata

theorem resolve_users {es : Props} {m : Metadata} (h : resolve es = .ok m) :
    m.users.Nodup ∧ m.users.length ≤ maxUsers := by
  obtain ⟨d, _, parts, _, type, _, hchecked⟩ := resolve_eq_ok.mp h
  obtain ⟨_, _, hcount, hunique, rfl⟩ := MetadataDecl.checked_eq_ok.mp hchecked
  exact ⟨checkUnique_eq_ok.mp hunique, hcount⟩

theorem mem_userBits {users : List String} {user : String} {bit : Nat} :
    (user, bit) ∈ userBits users ↔ ∃ i : Nat, users[i]? = some user ∧ bit = 2 ^ i := by
  unfold userBits
  simp only [List.mem_map, Prod.exists, List.mem_zipIdx_iff_getElem?, Prod.mk.injEq]
  constructor
  · rintro ⟨_, i, hi, rfl, rfl⟩
    exact ⟨i, hi, rfl⟩
  · rintro ⟨i, hi, rfl⟩
    exact ⟨user, i, hi, rfl, rfl⟩

end Metadata

namespace Access

/-- The number that a value stands for, its fraction dropped. -/
def number? (v : Value) : Option Int := (Scalar.ofValue? v).bind fun x => x.truncated.toInt?

/-- The value gives a right to user number `i`: by the user's name, or by a number that has bit `i`. -/
def Names (user : String) (i : Nat) (v : Value) : Prop :=
  v = .string user ∨ ∃ n : Nat, number? v = some (n : Int) ∧ n.testBit i

def Grants (user : String) (i : Nat) (permission : Option Value) : Prop :=
  ∃ v ∈ listed permission, Names user i v

section Users

variable {users : List String} {user : String} {i : Nat} (hn : users.Nodup) (hi : users[i]? = some user)
include hn hi

theorem bitsOf_testBit {v : Value} {bits : Nat} (h : bitsOf (Metadata.userBits users) v = .ok bits) :
    bits.testBit i ↔ Names user i v := by
  unfold bitsOf at h
  unfold Names number?
  split at h
  · cases h
    simp [Scalar.ofValue?]
  · rename_i other
    split at h
    · rename_i bit hbit
      cases h
      obtain ⟨j, hj, rfl⟩ := Metadata.mem_userBits.mp (Entries.mem_of_get? hbit)
      have places : j = i ↔ other = user := by
        constructor
        · rintro rfl
          exact Option.some.inj (hj.symm.trans hi)
        · rintro rfl
          exact (List.getElem?_inj (List.getElem?_eq_some_iff.mp hj).1 hn).mp (hj.trans hi.symm)
      simp [Scalar.ofValue?, Scalar.truncated, Scalar.toInt?, Nat.testBit_two_pow, places]
    · cases h
  · rename_i hnull hstring
    have named : v ≠ .string user := hstring user
    split at h
    · rename_i n hnumber
      split at h
      · rename_i hpos
        cases h
        rw [hnumber]
        simp only [named, Option.some.injEq, false_or]
        constructor
        · exact fun hbit => ⟨n.toNat, (Int.toNat_of_nonneg hpos).symm, hbit⟩
        · rintro ⟨k, rfl, hbit⟩
          exact hbit
      · cases h
    · cases h

theorem joinBits_testBit {vs : List Value} {bits joined : Nat}
    (h : joinBits (Metadata.userBits users) bits vs = .ok joined) :
    joined.testBit i ↔ bits.testBit i ∨ ∃ v ∈ vs, Names user i v := by
  induction vs generalizing bits with
  | nil =>
    cases h
    simp
  | cons v rest ih =>
    simp only [joinBits] at h
    split at h
    · cases h
    · rename_i more hmore
      rw [ih h, Nat.testBit_or, Bool.or_eq_true, bitsOf_testBit hn hi hmore, List.exists_mem_cons_iff, or_assoc]

theorem permission_testBit {r : Record} {p : Permission} {bits : Nat}
    (h : permission (Metadata.userBits users) r p = .ok bits) :
    bits.testBit i ↔ Grants user i (r.props.get? p.key) := by
  unfold permission at h
  split at h
  · cases h
  · rename_i joined hjoined
    split at h
    · cases h
    · cases h
      rw [joinBits_testBit hn hi hjoined, Nat.zero_testBit]
      simp [Grants]

end Users

theorem permission_lt {users : Entries Nat} {r : Record} {p : Permission} {bits : Nat}
    (h : permission users r p = .ok bits) : bits < limit := by
  unfold permission at h
  split at h
  · cases h
  · split at h
    · cases h
    · cases h
      omega

end Access

structure Record.Ruled (users : Entries Nat) (r : Record) : Prop where
  readers : Access.permission users r .read = .ok r.readers
  writers : Access.permission users r .write = .ok r.writers

theorem Record.Ruled.testBit_access {users : Entries Nat} {r : Record} (h : r.Ruled users) {i : Nat} (hi : i < 4) :
    r.access.testBit (4 + i) = r.readers.testBit i ∧ r.access.testBit i = r.writers.testBit i := by
  have bound : r.writers < 2 ^ 4 := Access.permission_lt h.writers
  have split := fun j => Nat.testBit_two_pow_mul_add r.readers bound j
  have joined : r.access = 2 ^ 4 * r.readers + r.writers := by
    rw [Record.access, Nat.add_comm]
    rfl
  rw [joined, split, split, if_neg (by omega), if_pos hi, Nat.add_sub_cancel_left]
  exact ⟨rfl, rfl⟩

namespace Resolution

theorem finishRecord_ruled {users : Entries Nat} {env : Env} {r r' : Record}
    (h : finishRecord users env r = .done r') : r'.Ruled users := by
  obtain ⟨s, hs, ht⟩ := finishRecord_steps h
  simp only [Access.resolve, bind_eq_ok] at hs
  obtain ⟨readers, hreaders, writers, hwriters, hs⟩ := hs
  cases hs
  simp only [Scaling.resolve, bind_eq_ok] at ht
  obtain ⟨factor, _, default, _, min, _, max, _, ht⟩ := ht
  cases ht
  exact ⟨hreaders, hwriters⟩

theorem addMetadata_users {r r' : Resolution} {es : Props} {m : Metadata} (h : r.addMetadata es = .done r')
    (hr : r.metadata = none) (hm : r'.metadata = some m) : m.users.Nodup ∧ m.users.length ≤ Metadata.maxUsers := by
  rcases addMetadata_eq_done h with rfl | ⟨read, hread, rfl⟩
  · rw [hr] at hm
    cases hm
  · exact Option.some.inj hm ▸ Metadata.resolve_users hread

theorem resolve_eq_finished {d : Description} {c : ResolvedMap} (h : resolve d patterns = .ok c) :
    ∃ r m, finished d patterns = .done r ∧ r.metadata = some m ∧ c.metadata.users = m.users ∧ c.maps = r.maps := by
  obtain ⟨r, r', hdone, hprint, rfl⟩ := resolve_eq_ok.mp h
  obtain ⟨m, hm, rfl⟩ := addFingerprints_eq_done hprint
  refine ⟨r, m, hdone, hm, ?_, ?_⟩
  · simp only [finish, Option.getD_some]
  · simp only [finish]

/-- The records of the result have the rights that the users of the result are given by their keys. -/
theorem resolve_ruled {d : Description} {c : ResolvedMap} (h : resolve d patterns = .ok c) :
    (c.metadata.users.Nodup ∧ c.metadata.users.length ≤ Metadata.maxUsers) ∧
      ∀ m ∈ c.maps, ∀ r ∈ m.records, r.Ruled (Metadata.userBits c.metadata.users) := by
  obtain ⟨r₈, m, hdone, hm, users, maps⟩ := resolve_eq_finished h
  obtain ⟨r₁, r₂, r₃, r₄, r₅, r₆, r₇, h₁, h₂, h₃, h₄, h₅, h₆, h₇, h₈⟩ := finished_eq_done hdone
  have kept := finished_metadata h₃ h₄ h₅ h₆ h₇ h₈
  obtain ⟨finished, hfin, rfl⟩ := finishRecords_eq_done h₈
  have bits : r₇.userBits = Metadata.userBits m.users := by
    rw [userBits, show r₇.metadata = some m from hm]
    rfl
  rw [users, maps, ← bits]
  exact ⟨addMetadata_users h₂ (addDefines_beside h₁).metadata (kept.symm.trans hm),
    finishRecords_forall (fun _ _ => finishRecord_ruled) hfin⟩

end Resolution

end AddressMap
