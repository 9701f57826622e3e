import AddressMap.Bitfield
import AddressMap.Proofs.Outcome

set_option autoImplicit false

namespace AddressMap.Bitfield

/-- The members follow each other from bit `start` to bit `stop`, none of them empty. -/
def Packs (start stop : Nat) : List BitfieldMember → Prop
  | [] => start = stop
  | m :: rest => m.offset = start ∧ 0 < m.width ∧ Packs (start + m.width) stop rest

def Packed (b : Bitfield) : Prop := Packs 0 (8 * b.base.size) b.members

theorem packs_append {start middle stop : Nat} {ms ns : List BitfieldMember}
    (hm : Packs start middle ms) (hn : Packs middle stop ns) : Packs start stop (ms ++ ns) := by
  induction ms generalizing start with
  | nil =>
    have h : start = middle := hm
    simpa only [h, List.nil_append] using hn
  | cons m rest ih => exact ⟨hm.1, hm.2.1, ih hm.2.2⟩

theorem packs_le {start stop : Nat} {ms : List BitfieldMember} (h : Packs start stop ms) :
    start ≤ stop := by
  induction ms generalizing start with
  | nil => exact Nat.le_of_eq h
  | cons m rest ih =>
    have hle := ih h.2.2
    omega

theorem memberWidth_pos {env : Env} {name : String} {d : BitDecl} {width : Nat}
    (h : memberWidth env name d = .ok width) : 0 < width := by
  unfold memberWidth at h
  split at h
  · cases h
    exact Nat.one_pos
  · split at h
    · cases h
    · split at h
      · rename_i i
        rw [guard_eq_ok (by simp [invalid]), guard_eq_ok (by simp [invalid])] at h
        obtain ⟨hlimit, hzero, heq⟩ := h
        simp only [Bool.or_eq_true, decide_eq_true_eq, not_or] at hlimit
        cases heq
        omega
      · cases h

theorem membersFrom_packs {env : Env} {name : String} {offset : Nat} {ds : List BitDecl}
    {ms : List BitfieldMember} (h : membersFrom env name offset ds = .ok ms) :
    Packs offset (offset + totalWidth ms) ms := by
  induction ds generalizing offset ms with
  | nil =>
    cases h
    exact rfl
  | cons d rest ih =>
    simp only [membersFrom] at h
    split at h
    · cases h
    · rename_i width hw
      obtain ⟨ns, hns, rfl⟩ := map_eq_ok.mp h
      have tail := ih hns
      refine ⟨rfl, memberWidth_pos hw, ?_⟩
      simpa only [totalWidth, Nat.add_assoc] using tail

/-- The declared members, with padding up to the size of the integer if bits remain. -/
def filled (base : Primitive) (declared : List BitfieldMember) : List BitfieldMember :=
  let bits := totalWidth declared
  if bits < 8 * base.size then declared ++ [padding bits (8 * base.size - bits)] else declared

theorem resolve_eq_ok {env : Env} {name : String} {d : BitfieldDecl} {b : Bitfield} :
    resolve env name d = .ok b ↔ ∃ declared base,
      membersFrom env name 0 d.members = .ok declared ∧ totalWidth declared ≤ maxBits ∧
      baseType name (totalWidth declared) d.head.type = .ok base ∧
      totalWidth declared ≤ 8 * base.size ∧
      checkUnique name ((filled base declared).map (·.name)) = .ok () ∧
      ⟨filled base declared, d.head.type, base, d.head.description, d.head.props⟩ = b := by
  unfold resolve
  rw [bind_eq_ok]
  refine exists_congr fun declared => ?_
  dsimp only
  rw [guard_eq_ok (by simp [invalid, bind_eq_ok]), bind_eq_ok, Nat.not_lt, ← exists_and_left,
    ← exists_and_left]
  refine exists_congr fun base => and_congr_right fun _ => and_congr_right fun _ =>
    and_congr_right fun _ => ?_
  rw [guard_eq_ok (by simp [invalid, bind_eq_ok]), check_bind_eq_ok, Nat.not_lt]
  simp only [filled, pure, Except.pure, Except.ok.injEq]

theorem filled_packs {base : Primitive} {declared : List BitfieldMember}
    (h : Packs 0 (totalWidth declared) declared) (hfits : totalWidth declared ≤ 8 * base.size) :
    Packs 0 (8 * base.size) (filled base declared) := by
  unfold filled
  dsimp only
  split
  · refine packs_append h ⟨rfl, ?_, ?_⟩
    · simp only [padding]
      omega
    · simp only [padding, Packs]
      omega
  · have hfull : totalWidth declared = 8 * base.size := by omega
    rwa [hfull] at h

theorem resolve_packed {env : Env} {name : String} {d : BitfieldDecl} {b : Bitfield}
    (h : resolve env name d = .ok b) : b.Packed := by
  obtain ⟨declared, base, hd, _, _, hfits, _, rfl⟩ := resolve_eq_ok.mp h
  have packed := membersFrom_packs hd
  rw [Nat.zero_add] at packed
  exact filled_packs packed hfits

end AddressMap.Bitfield
