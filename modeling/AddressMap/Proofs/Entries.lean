import AddressMap.Entries

set_option autoImplicit false

namespace AddressMap.Entries

variable {α β : Type}

theorem get?_insert (es : Entries α) (key other : String) (value : α) :
    (es.insert key value).get? other = if other = key then some value else es.get? other := by
  induction es with
  | nil => simp only [insert, get?, eq_comm]
  | cons e rest ih =>
    obtain ⟨k, v⟩ := e
    unfold insert
    by_cases hk : k = key
    · subst hk
      by_cases ho : other = k
      · simp [get?, ho]
      · simp [get?, ho, Ne.symm ho]
    · simp only [hk, if_false]
      split
      · simp only [get?, eq_comm]
      · by_cases ho : k = other
        · subst ho
          simp [get?, hk]
        · simp [get?, ho, ih]

theorem mem_of_get? {es : Entries α} {key : String} {value : α} (h : es.get? key = some value) :
    (key, value) ∈ es := by
  induction es with
  | nil => simp [get?] at h
  | cons e rest ih =>
    obtain ⟨k, v⟩ := e
    by_cases hk : k = key
    · simp only [get?, hk, if_true, Option.some.injEq] at h
      simp [hk, h]
    · simp only [get?, hk, if_false] at h
      exact List.mem_cons_of_mem _ (ih h)

theorem mem_keys_of_get? {es : Entries α} {key : String} {value : α} (h : es.get? key = some value) :
    key ∈ es.keys :=
  List.mem_map.mpr ⟨(key, value), mem_of_get? h, rfl⟩

theorem get?_isSome_iff {es : Entries α} {key : String} : (es.get? key).isSome ↔ key ∈ es.keys := by
  induction es with
  | nil => simp [get?, keys]
  | cons e rest ih =>
    obtain ⟨k, v⟩ := e
    simp only [keys] at ih
    by_cases hk : k = key
    · simp [get?, keys, hk]
    · simp [get?, keys, hk, ih, Ne.symm hk]

theorem mem_keys_insert {es : Entries α} {key other : String} {value : α} :
    other ∈ (es.insert key value).keys ↔ other = key ∨ other ∈ es.keys := by
  rw [← get?_isSome_iff, ← get?_isSome_iff, get?_insert]
  by_cases h : other = key <;> simp [h]

theorem get?_mapValues (es : Entries α) (f : α → β) (key : String) :
    (es.mapValues f).get? key = (es.get? key).map f := by
  induction es with
  | nil => rfl
  | cons e rest ih =>
    obtain ⟨k, v⟩ := e
    simp only [mapValues] at ih
    by_cases hk : k = key
    · simp [mapValues, get?, hk]
    · simp [mapValues, get?, hk, ih]

theorem get?_append (es fs : Entries α) (key : String) :
    Entries.get? (es ++ fs) key = (es.get? key).or (fs.get? key) := by
  induction es with
  | nil => rfl
  | cons e rest ih =>
    obtain ⟨k, v⟩ := e
    by_cases hk : k = key
    · simp [get?, hk]
    · simp [get?, hk, ih]

theorem get?_ofOption (key other : String) (value : Option α) :
    (ofOption key value).get? other = if key = other then value else none := by
  cases value with
  | none => simp [ofOption, get?]
  | some v => simp [ofOption, get?]

theorem get?_filter (es : Entries α) (keep : String → Bool) {key : String} (h : keep key) :
    Entries.get? (es.filter fun e => keep e.1) key = es.get? key := by
  induction es with
  | nil => rfl
  | cons e rest ih =>
    obtain ⟨k, v⟩ := e
    by_cases hk : k = key
    · subst hk
      simp [get?, h]
    · by_cases hkeep : keep k
      · simp [get?, hk, hkeep, ih]
      · simp [get?, hk, hkeep, ih]

theorem get?_of_mem {es : Entries α} {key : String} {value : α} (h : es.keys.Nodup)
    (hmem : (key, value) ∈ es) : es.get? key = some value := by
  induction es with
  | nil => cases hmem
  | cons e rest ih =>
    obtain ⟨k, v⟩ := e
    rw [keys, List.map_cons, List.nodup_cons] at h
    rcases List.mem_cons.mp hmem with heq | hin
    · cases heq
      simp [get?]
    · have hne : k ≠ key := by
        rintro rfl
        exact h.1 (List.mem_map.mpr ⟨(k, value), hin, rfl⟩)
      simp [get?, hne, ih h.2 hin]

theorem get?_merge_of_not_mem {es layer : Entries α} {key : String} (h : key ∉ layer.keys) :
    (es.merge layer).get? key = es.get? key := by
  induction layer generalizing es with
  | nil => rfl
  | cons e rest ih =>
    simp only [keys, List.map_cons, List.mem_cons, not_or] at h
    have tail := @ih (es.set e.1 e.2) h.2
    rw [get?_set_of_ne es e.2 (Ne.symm h.1)] at tail
    exact tail

theorem get?_merge_eq_some {es layer : Entries α} {key : String} {value : α}
    (h : (es.merge layer).get? key = some value) : es.get? key = some value ∨ (key, value) ∈ layer := by
  induction layer generalizing es with
  | nil => exact .inl h
  | cons e rest ih =>
    rcases @ih (es.set e.1 e.2) h with hset | hin
    · by_cases hk : e.1 = key
      · subst hk
        rw [get?_set_self] at hset
        cases hset
        exact .inr List.mem_cons_self
      · rw [get?_set_of_ne es e.2 hk] at hset
        exact .inl hset
    · exact .inr (List.mem_cons_of_mem _ hin)

theorem set_mapValues (es : Entries α) (f : α → β) (key : String) (value : α) :
    (es.mapValues f).set key (f value) = (es.set key value).mapValues f := by
  induction es with
  | nil => rfl
  | cons e rest ih =>
    obtain ⟨k, v⟩ := e
    simp only [mapValues] at ih
    by_cases hk : k = key
    · simp [mapValues, set, hk]
    · simp [mapValues, set, hk, ih]

theorem merge_mapValues (es layer : Entries α) (f : α → β) :
    (es.mapValues f).merge (layer.mapValues f) = (es.merge layer).mapValues f := by
  induction layer generalizing es with
  | nil => rfl
  | cons e rest ih =>
    have tail := ih (es.set e.1 e.2)
    rw [← set_mapValues] at tail
    exact tail

theorem get?_eq_find? (es : Entries α) (key : String) :
    es.get? key = (es.find? fun e => e.1 = key).map (·.2) := by
  induction es with
  | nil => rfl
  | cons e rest ih =>
    obtain ⟨k, v⟩ := e
    by_cases hk : k = key
    · simp [get?, hk]
    · simp [get?, hk, ih]

theorem mapValues_cons (e : String × α) (es : Entries α) (f : α → β) :
    mapValues (e :: es) f = (e.1, f e.2) :: es.mapValues f := rfl

theorem place_mapValues (es : Entries α) (e : String × α) (f : α → β) :
    (es.mapValues f).place (e.1, f e.2) = (es.place e).mapValues f := by
  induction es with
  | nil => rfl
  | cons g rest ih =>
    rw [place]
    by_cases h : e.1 ≤ g.1
    · rw [if_pos h]
      exact if_pos h
    · rw [if_neg h, mapValues_cons, mapValues_cons, ← ih]
      exact if_neg h

theorem sortByKey_mapValues (es : Entries α) (f : α → β) :
    (es.mapValues f).sortByKey = es.sortByKey.mapValues f := by
  induction es with
  | nil => rfl
  | cons e rest ih =>
    change ((mapValues rest f).sortByKey).place (e.1, f e.2) = _
    rw [ih, place_mapValues]
    rfl

theorem place_perm (es : Entries α) (e : String × α) : (es.place e).Perm (e :: es) := by
  induction es with
  | nil => exact .refl _
  | cons f rest ih =>
    rw [place]
    split
    · exact .refl _
    · exact (ih.cons f).trans (.swap e f rest)

theorem sortByKey_perm (es : Entries α) : es.sortByKey.Perm es := by
  induction es with
  | nil => exact .nil
  | cons e rest ih => exact (place_perm _ e).trans (ih.cons e)

theorem place_ascending {es : Entries α} (e : String × α) (h : es.Pairwise fun a b => a.1 ≤ b.1) :
    (es.place e).Pairwise fun a b => a.1 ≤ b.1 := by
  induction es with
  | nil => exact List.pairwise_singleton _ _
  | cons f rest ih =>
    obtain ⟨least, hrest⟩ := List.pairwise_cons.mp h
    rw [place]
    split
    · rename_i hle
      refine List.pairwise_cons.mpr ⟨List.forall_mem_cons.mpr ⟨hle, fun g hg => ?_⟩, h⟩
      exact String.le_trans hle (least g hg)
    · rename_i hle
      refine List.pairwise_cons.mpr ⟨fun g hg => ?_, ih hrest⟩
      rcases List.mem_cons.mp ((place_perm rest e).mem_iff.mp hg) with rfl | hg
      · exact (String.le_total f.1 g.1).resolve_right hle
      · exact least g hg

theorem filter_place {es : Entries α} {e : String × α} {p : String × α → Bool}
    (h : p e → ∀ f ∈ es.filter p, e.1 ≤ f.1) : (es.place e).filter p = (e :: es).filter p := by
  induction es with
  | nil => rfl
  | cons f rest ih =>
    rw [place]
    split
    · rfl
    · rename_i hle
      have ih := ih fun he g hg => h he g (((List.sublist_cons_self f rest).filter p).mem hg)
      by_cases hf : p f
      · have he : ¬p e := fun he => hle (h he f (List.mem_filter.mpr ⟨List.mem_cons_self, hf⟩))
        rw [List.filter_cons_of_pos hf, ih, List.filter_cons_of_neg he, List.filter_cons_of_neg he,
          List.filter_cons_of_pos hf]
      · rw [List.filter_cons_of_neg hf, ih, List.filter_cons, List.filter_cons, List.filter_cons_of_neg hf]

section Sorting

variable (es : Entries α)

theorem sortByKey_ascending : es.sortByKey.Pairwise fun a b => a.1 ≤ b.1 := by
  induction es with
  | nil => exact .nil
  | cons e rest ih => exact place_ascending e ih

/-- Sorting is stable: entries that stand in ascending order keep it. -/
theorem filter_sortByKey {p : String × α → Bool} (h : (es.filter p).Pairwise fun a b => a.1 ≤ b.1) :
    es.sortByKey.filter p = es.filter p := by
  induction es with
  | nil => rfl
  | cons e rest ih =>
    have behind := ih (h.sublist ((List.sublist_cons_self e rest).filter p))
    change (place (sortByKey rest) e).filter p = _
    rw [filter_place, List.filter_cons, behind, ← List.filter_cons]
    intro he f hf
    rw [behind] at hf
    rw [List.filter_cons_of_pos he] at h
    exact List.rel_of_pairwise_cons h hf

theorem filter_sortByKey_key (key : String) :
    es.sortByKey.filter (fun e => e.1 = key) = es.filter fun e => e.1 = key := by
  refine filter_sortByKey es (List.Pairwise.imp_of_mem ?_ (List.pairwise_of_forall fun _ _ => trivial))
  intro a b ha hb _
  simp only [List.mem_filter, decide_eq_true_eq] at ha hb
  exact ha.2 ▸ hb.2 ▸ String.le_refl key

/-- The first entry of a key is the same before and after sorting. -/
theorem get?_sortByKey (key : String) : es.sortByKey.get? key = es.get? key := by
  rw [get?_eq_find?, get?_eq_find?, ← List.head?_filter, ← List.head?_filter, filter_sortByKey_key]

end Sorting

theorem sortByKey_eq_of_perm {es fs : Entries α} (h : es.Perm fs) (hkeys : es.keys.Nodup) :
    es.sortByKey = fs.sortByKey := by
  have perm : es.sortByKey.Perm fs.sortByKey :=
    (sortByKey_perm es).trans (h.trans (sortByKey_perm fs).symm)
  refine perm.eq_of_pairwise ?_ (sortByKey_ascending es) (sortByKey_ascending fs)
  rintro ⟨k, v⟩ ⟨l, w⟩ hv hw hkl hlk
  obtain rfl : k = l := String.le_antisymm hkl hlk
  have first := get?_of_mem hkeys ((sortByKey_perm es).mem_iff.mp hv)
  have second := get?_of_mem hkeys (h.mem_iff.mpr ((sortByKey_perm fs).mem_iff.mp hw))
  rw [first] at second
  cases second
  rfl

theorem swapErase_perm {es : Entries α} (h : es.keys.Nodup) (key : String) :
    (es.swapErase key).Perm (es.filter fun e => e.1 ≠ key) := by
  induction es with
  | nil => exact .nil
  | cons e rest ih =>
    obtain ⟨k, v⟩ := e
    rw [keys, List.map_cons, List.nodup_cons] at h
    rw [swapErase]
    by_cases hk : k = key
    · have kept : rest.filter (fun e => e.1 ≠ key) = rest := by
        refine List.filter_eq_self.mpr fun e he => decide_eq_true ?_
        intro heq
        exact h.1 (List.mem_map.mpr ⟨e, he, heq.trans hk.symm⟩)
      rw [if_pos hk, List.filter_cons_of_neg (by simpa using hk), kept]
      rcases List.eq_nil_or_concat rest with rfl | ⟨front, last, rfl⟩
      · exact .nil
      · rw [List.concat_eq_append, List.getLast?_concat, List.dropLast_concat]
        exact (List.perm_append_singleton last front).symm
    · rw [if_neg hk, List.filter_cons_of_pos (by simpa using hk)]
      exact (ih h.2).cons _

theorem keys_swapErase_nodup {es : Entries α} (h : es.keys.Nodup) (key : String) : (es.swapErase key).keys.Nodup :=
  ((swapErase_perm h key).map Prod.fst).nodup_iff.mpr (h.sublist (List.filter_sublist.map _))

theorem get?_swapErase {es : Entries α} (h : es.keys.Nodup) {key other : String} (hne : other ≠ key) :
    (es.swapErase key).get? other = es.get? other := by
  rw [← get?_sortByKey, sortByKey_eq_of_perm (swapErase_perm h key) (keys_swapErase_nodup h key), get?_sortByKey]
  exact get?_filter es (fun k => k ≠ key) (by simpa using hne)

def Extends (es fs : Entries α) : Prop := ∀ key value, es.get? key = some value → fs.get? key = some value

theorem extends_insert {es : Entries α} {key : String} {value : α}
    (h : ∀ old, es.get? key = some old → old = value) : es.Extends (es.insert key value) := by
  intro other v hv
  rw [get?_insert]
  by_cases ho : other = key
  · subst ho
    simp [h v hv]
  · simp [ho, hv]

end AddressMap.Entries

namespace AddressMap

theorem mem_sortedNames {names : List String} {name : String} : name ∈ sortedNames names ↔ name ∈ names := by
  have fold : ∀ es : Entries Unit, name ∈
      Entries.keys (names.foldl (fun (es : Entries Unit) name => es.insert name ()) es) ↔
        name ∈ names ∨ name ∈ es.keys := by
    induction names with
    | nil => simp
    | cons first rest ih =>
      intro es
      rw [List.foldl_cons, ih, Entries.mem_keys_insert, List.mem_cons]
      exact or_left_comm.trans or_assoc.symm
  exact (fold []).trans (or_iff_left List.not_mem_nil)

end AddressMap
