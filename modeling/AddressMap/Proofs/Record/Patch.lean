import AddressMap.Proofs.Entries.KeyOrder
import AddressMap.Proofs.Record.Placement

set_option autoImplicit false

namespace AddressMap.Override

variable {patterns : PatternReader}

def descriptionAfter (changes : Props) (old : Option String) : Option String :=
  (changes.under "description").foldl (fun _ e => descriptionOf e.2) old

theorem descriptionAfter_eq {changes : Props} (h : (Entries.keys changes).Nodup) (old : Option String) :
    descriptionAfter changes old = (Entries.get? changes "description").elim old descriptionOf := by
  rw [descriptionAfter, Entries.under_eq_ofOption h]
  cases Entries.get? changes "description" <;> rfl

theorem foldl_setKey (changes : Props) (r : Record) :
    changes.foldl (fun r e => setKey r e.1 e.2) r =
      { r with
        description := descriptionAfter changes r.description
        props := r.props.merge (changes.only fun key => key ≠ "description") } := by
  induction changes generalizing r with
  | nil => rfl
  | cons e rest ih =>
    obtain ⟨key, v⟩ := e
    rw [List.foldl_cons, ih]
    by_cases h : key = "description"
    · subst h
      simp [setKey, descriptionAfter, Entries.under, Entries.only_cons]
    · simp [setKey, descriptionAfter, Entries.under, Entries.only_cons, h, Entries.merge]

theorem patch_eq (r : Record) (changes : Props) : patch r changes =
    { r with
      description := descriptionAfter changes r.description
      props := r.props.merge (changes.only fun key => key ≠ "description")
      defaultChanged := some (changesDefault r changes) } := by
  unfold patch
  rw [foldl_setKey]

/-- An override is a mapping with a map to go to and no computed keys, under a key that selects. -/
theorem read_eq_ok {defaultMap : Option String} {key : String} {v : Value} {e : Entry} :
    read patterns defaultMap key v = .ok e ↔ ∃ es, v = .object es ∧
      mapName defaultMap key (Entries.get? es "map") = .ok e.mapName ∧
      e.changes = Entries.swapErase es "map" ∧ (∀ k ∈ e.changes.keys, isComputed k = false) ∧
      Selector.ofKey patterns key = .ok e.selector ∧ e.key = key := by
  cases v with
  | object es =>
    obtain ⟨ekey, emap, echanges, eselector⟩ := e
    unfold read
    simp only [bind_eq_ok, Value.object.injEq, exists_eq_left']
    constructor
    · rintro ⟨name, hname, h⟩
      split at h
      · cases h
      · rename_i hnone
        obtain ⟨selector, hselector, h⟩ := bind_eq_ok.mp h
        cases h
        simp only [List.find?_eq_none, Bool.not_eq_true] at hnone
        exact ⟨hname, rfl, hnone, hselector, rfl⟩
    · rintro ⟨hname, rfl, hfree, hselector, rfl⟩
      refine ⟨emap, hname, ?_⟩
      rw [List.find?_eq_none.mpr fun k hk => by rw [hfree k hk]; exact Bool.false_ne_true]
      exact bind_eq_ok.mpr ⟨eselector, hselector, rfl⟩
  | _ => simp [read, invalid]

theorem patch_only {keep : String → Bool} {changes : Props} (h : ∀ k ∈ changes.keys, keep k = false)
    (r : Record) : (patch r changes).props.only keep = r.props.only keep := by
  have none : (changes.only fun key => key ≠ "description").only keep = [] := by
    rw [Entries.only_only]
    refine List.filter_eq_nil_iff.mpr fun e he => ?_
    dsimp only
    rw [h e.1 (List.mem_map_of_mem he), Bool.false_and]
    exact Bool.false_ne_true
  rw [patch_eq]
  change Entries.only (Entries.merge r.props _) keep = _
  rw [Entries.only_merge, none]
  rfl

end AddressMap.Override
