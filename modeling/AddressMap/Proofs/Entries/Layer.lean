import AddressMap.Proofs.Entries

set_option autoImplicit false

namespace AddressMap.Entries

variable {α : Type}

/-- The value of a key in the last of the layers that have it. -/
def topmost (layers : List (Entries α)) (key : String) : Option α :=
  layers.reverse.findSome? fun layer => layer.get? key

theorem topmost_cons (layer : Entries α) (layers : List (Entries α)) (key : String) :
    topmost (layer :: layers) key = (topmost layers key).or (layer.get? key) := by
  simp [topmost, List.findSome?_append]

theorem topmost_eq_none_iff {layers : List (Entries α)} {key : String} :
    topmost layers key = none ↔ ∀ layer ∈ layers, key ∉ layer.keys := by
  simp only [topmost, List.findSome?_eq_none_iff, List.mem_reverse, ← get?_isSome_iff,
    Option.not_isSome_iff_eq_none]

theorem keys_set (es : Entries α) (key : String) (value : α) :
    (es.set key value).keys = if key ∈ es.keys then es.keys else es.keys ++ [key] := by
  induction es with
  | nil => rfl
  | cons e rest ih =>
    obtain ⟨k, v⟩ := e
    by_cases hk : k = key
    · simp [set, keys, hk]
    · simp only [keys] at ih
      by_cases hin : key ∈ rest.map (·.1)
      · simp [set, keys, hk, ih, hin]
      · simp [set, keys, hk, Ne.symm hk, ih, hin]

theorem nodup_keys_set {es : Entries α} (h : es.keys.Nodup) (key : String) (value : α) :
    (es.set key value).keys.Nodup := by
  rw [keys_set]
  split
  · exact h
  · rename_i hnot
    refine List.nodup_append.mpr ⟨h, List.pairwise_singleton _ key, fun k hk other hother heq => hnot ?_⟩
    rwa [← List.mem_singleton.mp hother, ← heq]

theorem get?_set (es : Entries α) (key other : String) (value : α) :
    (es.set key value).get? other = if other = key then some value else es.get? other := by
  by_cases h : other = key
  · rw [h, get?_set_self, if_pos rfl]
  · rw [get?_set_of_ne es value (Ne.symm h), if_neg h]

theorem set_set (es : Entries α) (key : String) (first second : α) :
    (es.set key first).set key second = es.set key second := by
  induction es with
  | nil => simp [set]
  | cons e rest ih =>
    obtain ⟨k, v⟩ := e
    by_cases hk : k = key
    · simp [set, hk]
    · simp [set, hk, ih]

theorem mem_set {es : Entries α} {key : String} {value : α} {e : String × α} (h : e ∈ es.set key value) :
    e ∈ es ∨ e = (key, value) := by
  induction es with
  | nil => exact .inr (List.mem_singleton.mp h)
  | cons first rest ih =>
    obtain ⟨k, v⟩ := first
    unfold set at h
    split at h
    · rename_i hk
      rcases List.mem_cons.mp h with rfl | h
      · exact .inr (hk ▸ rfl)
      · exact .inl (List.mem_cons_of_mem _ h)
    · rcases List.mem_cons.mp h with rfl | h
      · exact .inl List.mem_cons_self
      · rcases ih h with h | h
        · exact .inl (List.mem_cons_of_mem _ h)
        · exact .inr h

theorem nodup_keys_merge {es : Entries α} (h : es.keys.Nodup) (layer : Entries α) :
    (es.merge layer).keys.Nodup := by
  induction layer generalizing es with
  | nil => exact h
  | cons e rest ih => exact ih (nodup_keys_set h e.1 e.2)

theorem set_of_not_mem {es : Entries α} {key : String} (h : key ∉ es.keys) (value : α) :
    es.set key value = es ++ [(key, value)] := by
  induction es with
  | nil => rfl
  | cons e rest ih =>
    obtain ⟨k, v⟩ := e
    simp only [keys, List.map_cons, List.mem_cons, not_or] at h
    rw [set, if_neg (Ne.symm h.1), ih h.2, List.cons_append]

theorem set_eq_map {es : Entries α} (h : es.keys.Nodup) {key : String} (hkey : key ∈ es.keys) (value : α) :
    es.set key value = es.map fun e => if e.1 = key then (key, value) else e := by
  induction es with
  | nil => cases hkey
  | cons e rest ih =>
    obtain ⟨k, v⟩ := e
    rw [keys, List.map_cons, List.nodup_cons] at h
    rw [set, List.map_cons]
    by_cases hk : k = key
    · have others : rest.map (fun e => if e.1 = key then (key, value) else e) = rest.map id := by
        refine List.map_congr_left fun e he => if_neg ?_
        rintro rfl
        exact h.1 (List.mem_map.mpr ⟨e, he, hk.symm⟩)
      rw [if_pos hk, if_pos hk, others, List.map_id, hk]
    · rw [keys, List.map_cons, List.mem_cons] at hkey
      rw [if_neg hk, if_neg hk, ih h.2 (hkey.resolve_left (Ne.symm hk))]

theorem mem_merge {es layer : Entries α} {e : String × α} (h : e ∈ es.merge layer) : e ∈ es ∨ e ∈ layer := by
  induction layer generalizing es with
  | nil => exact .inl h
  | cons first rest ih =>
    have later : e ∈ (es.set first.1 first.2).merge rest := h
    rcases ih later with h | h
    · rcases mem_set h with h | rfl
      · exact .inl h
      · exact .inr List.mem_cons_self
    · exact .inr (List.mem_cons_of_mem _ h)

/-- Merging writes down keys that are all new in their order. -/
theorem merge_eq_append {es layer : Entries α} (h : (es.keys ++ layer.keys).Nodup) : es.merge layer = es ++ layer := by
  induction layer generalizing es with
  | nil => exact (List.append_nil es).symm
  | cons e rest ih =>
    obtain ⟨k, v⟩ := e
    have fresh : k ∉ es.keys := fun hin => (List.nodup_append.mp h).2.2 k hin k List.mem_cons_self rfl
    have step : es.merge ((k, v) :: rest) = (es.set k v).merge rest := rfl
    have moved : (es ++ [(k, v)]).keys ++ keys rest = es.keys ++ keys ((k, v) :: rest) := by simp [keys]
    rw [step, set_of_not_mem fresh, ih (moved ▸ h), List.append_assoc, List.singleton_append]

theorem get?_merge (es : Entries α) {layer : Entries α} (h : layer.keys.Nodup) (key : String) :
    (es.merge layer).get? key = (layer.get? key).or (es.get? key) := by
  induction layer generalizing es with
  | nil => rfl
  | cons e rest ih =>
    obtain ⟨k, v⟩ := e
    rw [keys, List.map_cons, List.nodup_cons] at h
    have tail : merge es ((k, v) :: rest) = (es.set k v).merge rest := rfl
    rw [tail, ih _ h.2]
    by_cases hk : k = key
    · subst hk
      have absent : get? rest k = none := by
        rw [← Option.not_isSome_iff_eq_none, get?_isSome_iff]
        exact h.1
      rw [absent, get?_set_self]
      simp [get?]
    · rw [get?_set_of_ne es v hk]
      simp [get?, hk]

theorem get?_foldl_merge (es : Entries α) {layers : List (Entries α)}
    (h : ∀ layer ∈ layers, layer.keys.Nodup) (key : String) :
    (layers.foldl merge es).get? key = topmost (es :: layers) key := by
  induction layers generalizing es with
  | nil => simp [topmost]
  | cons layer rest ih =>
    rw [List.forall_mem_cons] at h
    rw [List.foldl_cons, ih (es.merge layer) h.2, topmost_cons, get?_merge es h.1, topmost_cons, topmost_cons,
      Option.or_assoc]

end AddressMap.Entries
