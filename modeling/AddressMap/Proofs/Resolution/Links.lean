import AddressMap.Proofs.Resolution.Tables

set_option autoImplicit false

namespace AddressMap

variable {patterns : PatternReader}

structure ResolvedMap.Linked (c : ResolvedMap) : Prop where
  /-- A name stands for one typedef. -/
  single : ∀ name t t', (name, t) ∈ c.typedefs → (name, t') ∈ c.typedefs → t = t'
  typedefs : ∀ e ∈ c.typedefs, ∀ name ∈ e.2.deps, name ∈ c.typedefs.keys
  bitfields : ∀ e ∈ c.typedefs, e.2.usesBitfields → c.bitfields ≠ []
  enums : ∀ e ∈ c.typedefs, e.2.usesEnums → c.enums ≠ []
  maps : ∀ m ∈ c.maps, m.type ∈ c.typedefs.keys

theorem Typedef.mem_deps {t : Typedef} {name : String} (h : name ∈ t.deps) :
    ∃ e ∈ t.elements, e.kind = .typedef name := by
  obtain ⟨e, he, hname⟩ := List.mem_filterMap.mp (mem_sortedNames.mp h)
  refine ⟨e, he, ?_⟩
  unfold Element.typedefName at hname
  split at hname
  · cases hname
    assumption
  · cases hname

theorem Typedef.exists_bitfield {t : Typedef} (h : t.usesBitfields) :
    ∃ e ∈ t.elements, ∃ name, e.kind = .bitfield name := by
  obtain ⟨e, he, hb⟩ := List.any_eq_true.mp h
  refine ⟨e, he, ?_⟩
  unfold Element.isBitfield at hb
  split at hb
  · exact ⟨_, by assumption⟩
  · cases hb

theorem Typedef.exists_enumeration {t : Typedef} (h : t.usesEnums) :
    ∃ e ∈ t.elements, ∃ name, e.kind = .enumeration name := by
  obtain ⟨e, he, hn⟩ := List.any_eq_true.mp h
  refine ⟨e, he, ?_⟩
  unfold Element.enumName at hn
  split at hn
  · exact ⟨_, by assumption⟩
  · cases hn

namespace Resolution

theorem resolve_linked {d : Description} {c : ResolvedMap} (h : resolve d patterns = .ok c) : c.Linked := by
  obtain ⟨table, walked⟩ := resolve_walkedFrom h
  obtain ⟨r₈, r₉, hdone, h₉, rfl⟩ := resolve_eq_ok.mp h
  obtain ⟨r₁, r₂, r₃, r₄, r₅, r₆, r₇, h₁, h₂, h₃, h₄, h₅, h₆, h₇, h₈⟩ := finished_eq_done hdone
  obtain ⟨published, _⟩ := published_of_stages h₁ h₂ h₃ h₄ h₅
  obtain ⟨_, _, _, _, _, _, rfl⟩ := addMaps_eq_done h₆
  obtain ⟨_, _, rfl⟩ := addOverrides_eq_done h₇
  obtain ⟨_, _, rfl⟩ := finishRecords_eq_done h₈
  obtain ⟨_, _, rfl⟩ := addFingerprints_eq_done h₉
  have sized : ∀ e ∈ inOrder r₅.typedefOrder r₅.typedefs, ∀ x ∈ e.2.elements,
      x.Sized r₅.bitfields r₅.typedefs := by
    intro e he
    exact published.resolved.sized e.1 e.2 (mem_inOrder.mp he).2
  refine ⟨fun name t t' ht ht' => ?_, fun e he name hn => ?_, fun e he hu => ?_, fun e he hu => ?_, fun m hm => ?_⟩
  · have first := (mem_inOrder.mp ht).2
    rw [(mem_inOrder.mp ht').2] at first
    exact (Option.some.inj first).symm
  · obtain ⟨x, hx, hk⟩ := Typedef.mem_deps hn
    have hsized := sized e he x hx
    rw [Element.Sized, hk] at hsized
    obtain ⟨t, ht, _⟩ := hsized
    exact List.mem_map.mpr ⟨(name, t), mem_inOrder.mpr ⟨published.typedefs name t ht, ht⟩, rfl⟩
  · obtain ⟨x, hx, name, hk⟩ := Typedef.exists_bitfield hu
    have hsized := sized e he x hx
    rw [Element.Sized, hk] at hsized
    obtain ⟨b, hb, _⟩ := hsized
    exact List.ne_nil_of_mem (mem_inOrder.mpr ⟨published.bitfields name b hb, hb⟩)
  · obtain ⟨x, hx, name, hk⟩ := Typedef.exists_enumeration hu
    have hget := published.enumerations e.1 e.2 (mem_inOrder.mp he).2 x hx name hk
    obtain ⟨enum, henum⟩ := Option.isSome_iff_exists.mp hget
    exact List.ne_nil_of_mem (mem_inOrder.mpr ⟨published.enums name enum henum, henum⟩)
  · obtain ⟨root, _, _, _, hroot, _⟩ := walked.walked m hm
    exact List.mem_map.mpr ⟨_, walked.typedefs m.type root hroot, rfl⟩

end Resolution

end AddressMap
