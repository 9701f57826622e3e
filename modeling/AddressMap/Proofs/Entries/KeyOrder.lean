import AddressMap.Proofs.Entries
import Mathlib.Logic.Function.Basic

set_option autoImplicit false

namespace AddressMap.Entries

variable {α β : Type}

theorem length_mapValues (es : Entries α) (f : α → β) : (es.mapValues f).length = es.length :=
  List.length_map _

theorem insert_mapValues (es : Entries α) (f : α → β) (key : String) (value : α) :
    (es.insert key value).mapValues f = (es.mapValues f).insert key (f value) := by
  induction es with
  | nil => rfl
  | cons e rest ih =>
    obtain ⟨k, v⟩ := e
    rw [mapValues_cons, insert, insert]
    by_cases hk : k = key
    · rw [if_pos hk, if_pos hk]
      rfl
    · rw [if_neg hk, if_neg hk]
      by_cases hlt : key < k
      · rw [if_pos hlt, if_pos hlt]
        rfl
      · rw [if_neg hlt, if_neg hlt, mapValues_cons, ih]

theorem mapValues_eq_cons {es : Entries α} {f : α → β} {key : String} {y : β} {rest : Entries β}
    (h : es.mapValues f = (key, y) :: rest) :
    ∃ x tail, es = (key, x) :: tail ∧ f x = y ∧ mapValues tail f = rest := by
  cases es with
  | nil => cases h
  | cons e tail =>
    obtain ⟨k, x⟩ := e
    rw [mapValues_cons, List.cons.injEq, Prod.mk.injEq] at h
    obtain ⟨⟨rfl, hx⟩, htail⟩ := h
    exact ⟨x, tail, rfl, hx, htail⟩

def only (es : Entries α) (keep : String → Bool) : Entries α := es.filter fun e => keep e.1

theorem only_cons (e : String × α) (es : Entries α) (keep : String → Bool) :
    only (e :: es) keep = if keep e.1 then e :: es.only keep else es.only keep := List.filter_cons

theorem only_set (es : Entries α) (keep : String → Bool) (key : String) (value : α) :
    (es.set key value).only keep =
      if keep key then (es.only keep).set key value else es.only keep := by
  induction es with
  | nil =>
    by_cases h : keep key <;> simp [set, only, h]
  | cons e rest ih =>
    obtain ⟨k, v⟩ := e
    by_cases hk : k = key
    · subst hk
      by_cases h : keep k <;> simp [set, only_cons, h]
    · by_cases h : keep k
      · by_cases hkey : keep key <;> simp [set, only_cons, hk, h, hkey, ih]
      · by_cases hkey : keep key <;> simp [set, only_cons, hk, h, hkey, ih]

theorem only_merge (es layer : Entries α) (keep : String → Bool) :
    (es.merge layer).only keep = (es.only keep).merge (layer.only keep) := by
  induction layer generalizing es with
  | nil => rfl
  | cons e rest ih =>
    have tail := ih (es.set e.1 e.2)
    rw [only_set] at tail
    rw [only_cons]
    by_cases h : keep e.1
    · rw [if_pos h] at tail ⊢
      exact tail
    · rw [if_neg h] at tail ⊢
      exact tail

theorem only_append (es fs : Entries α) (keep : String → Bool) :
    only (es ++ fs) keep = es.only keep ++ fs.only keep := List.filter_append ..

theorem mapValues_append (es fs : Entries α) (f : α → β) :
    mapValues (es ++ fs) f = es.mapValues f ++ fs.mapValues f := List.map_append

theorem only_ofOption (key : String) (value : Option α) (keep : String → Bool) :
    (ofOption key value).only keep = if keep key then ofOption key value else [] := by
  cases value with
  | none => simp [ofOption, only]
  | some v => by_cases h : keep key <;> simp [ofOption, only, h]

theorem mapValues_ofOption (key : String) (value : Option α) (f : α → β) :
    (ofOption key value).mapValues f = ofOption key (value.map f) := by
  cases value <;> rfl

theorem only_mapValues (es : Entries α) (f : α → β) (keep : String → Bool) :
    (es.mapValues f).only keep = (es.only keep).mapValues f := by
  unfold only mapValues
  rw [List.filter_map]
  rfl

theorem only_only (es : Entries α) (keep more : String → Bool) :
    (es.only keep).only more = es.only fun key => more key && keep key := List.filter_filter

theorem get?_only (es : Entries α) (keep : String → Bool) (key : String) :
    (es.only keep).get? key = if keep key then es.get? key else none := by
  by_cases h : keep key
  · rw [if_pos h, only, get?_filter es keep h]
  · rw [if_neg h]
    cases hget : (es.only keep).get? key with
    | none => rfl
    | some value => exact absurd (List.mem_filter.mp (mem_of_get? hget)).2 h

theorem only_true (es : Entries α) : (es.only fun _ => true) = es := by simp [only]

def under (es : Entries α) (key : String) : Entries α := es.only fun k => k = key

theorem under_cons_self (key : String) (value : α) (es : Entries α) :
    under ((key, value) :: es) key = (key, value) :: es.under key := by
  simp [under, only]

theorem under_cons_of_ne {k key : String} (value : α) (es : Entries α) (h : k ≠ key) :
    under ((k, value) :: es) key = es.under key := by
  simp [under, only, h]

theorem under_only (es : Entries α) (keep : String → Bool) (key : String) :
    (es.only keep).under key = if keep key then es.under key else [] := by
  induction es with
  | nil => simp [under, only]
  | cons e rest ih =>
    obtain ⟨k, v⟩ := e
    rw [only_cons]
    by_cases hk : k = key
    · subst hk
      by_cases h : keep k <;> simp_all [under_cons_self]
    · by_cases h : keep k <;> simp [under_cons_of_ne _ _ hk, h, ih]

theorem mem_under {es : Entries α} {e : String × α} {key : String} :
    e ∈ es.under key ↔ e ∈ es ∧ e.1 = key := by
  simp [under, only]

/-- With distinct keys there is at most one entry under a key. -/
theorem under_eq_ofOption {es : Entries α} (h : es.keys.Nodup) (key : String) :
    es.under key = ofOption key (es.get? key) := by
  induction es with
  | nil => rfl
  | cons e rest ih =>
    obtain ⟨k, v⟩ := e
    rw [keys, List.map_cons, List.nodup_cons] at h
    by_cases hk : k = key
    · subst hk
      have absent : get? rest k = none := by
        rw [← Option.not_isSome_iff_eq_none, get?_isSome_iff]
        exact h.1
      rw [under_cons_self, ih h.2, absent]
      simp [get?, ofOption]
    · rw [under_cons_of_ne v rest hk, ih h.2]
      simp [get?, hk]

theorem under_sortByKey (es : Entries α) (key : String) : es.sortByKey.under key = es.under key :=
  filter_sortByKey_key es key

theorem eq_of_under_eq {es fs : Entries α} (he : es.Pairwise fun a b => a.1 ≤ b.1)
    (hf : fs.Pairwise fun a b => a.1 ≤ b.1) (h : ∀ key, es.under key = fs.under key) : es = fs := by
  induction es generalizing fs with
  | nil =>
    cases fs with
    | nil => rfl
    | cons f fs =>
      have key := h f.1
      rw [under_cons_self] at key
      cases key
  | cons e es ih =>
    obtain ⟨k, v⟩ := e
    cases fs with
    | nil =>
      have key := h k
      rw [under_cons_self] at key
      cases key
    | cons f fs =>
      obtain ⟨l, w⟩ := f
      -- Each first key is found in the other list, and is no less than the first key there.
      have hk : k = l := by
        have first := h k
        have second := h l
        rw [under_cons_self] at first second
        have hin := mem_under.mp (first ▸ List.mem_cons_self : (k, v) ∈ under ((l, w) :: fs) k)
        have hin' := mem_under.mp (second ▸ List.mem_cons_self : (l, w) ∈ under ((k, v) :: es) l)
        refine String.le_antisymm ?_ ?_
        · rcases List.mem_cons.mp hin'.1 with heq | htail
          · cases heq
            exact String.le_refl _
          · exact List.rel_of_pairwise_cons he htail
        · rcases List.mem_cons.mp hin.1 with heq | htail
          · cases heq
            exact String.le_refl _
          · exact List.rel_of_pairwise_cons hf htail
      subst hk
      have first := h k
      rw [under_cons_self, under_cons_self, List.cons.injEq] at first
      obtain ⟨heq, hrest⟩ := first
      cases heq
      refine congrArg _ (ih he.of_cons hf.of_cons fun key => ?_)
      by_cases hkey : k = key
      · exact hkey ▸ hrest
      · have other := h key
        rwa [under_cons_of_ne _ _ hkey, under_cons_of_ne _ _ hkey] at other

/-- Two lists sort to the same list exactly if they have the same entries under every key. -/
theorem sortByKey_eq_iff {es fs : Entries α} :
    es.sortByKey = fs.sortByKey ↔ ∀ key, es.under key = fs.under key := by
  constructor
  · intro h key
    rw [← under_sortByKey es, h, under_sortByKey]
  · intro h
    refine eq_of_under_eq (sortByKey_ascending es) (sortByKey_ascending fs) fun key => ?_
    rw [under_sortByKey, under_sortByKey, h]

theorem sortByKey_of_ascending {es : Entries α} (h : es.Pairwise fun a b => a.1 ≤ b.1) : es.sortByKey = es :=
  eq_of_under_eq (sortByKey_ascending es) h (under_sortByKey es)

theorem sortByKey_sortByKey (es : Entries α) : es.sortByKey.sortByKey = es.sortByKey :=
  sortByKey_of_ascending (sortByKey_ascending es)

theorem only_sortByKey (es : Entries α) (keep : String → Bool) :
    es.sortByKey.only keep = (es.only keep).sortByKey := by
  refine eq_of_under_eq ((sortByKey_ascending es).filter _) (sortByKey_ascending _) fun key => ?_
  rw [under_only, under_sortByKey, under_sortByKey, under_only]

section Congr

variable {es fs : Entries α}

theorem get?_congr (h : es.sortByKey = fs.sortByKey) (key : String) : es.get? key = fs.get? key := by
  rw [← get?_sortByKey es, h, get?_sortByKey]

theorem mapValues_congr (h : es.sortByKey = fs.sortByKey) (f : α → β) :
    (es.mapValues f).sortByKey = (fs.mapValues f).sortByKey := by
  rw [sortByKey_mapValues, h, sortByKey_mapValues]

theorem append_congr {es' fs' : Entries α} (h : es.sortByKey = fs.sortByKey) (h' : es'.sortByKey = fs'.sortByKey) :
    (es ++ es').sortByKey = (fs ++ fs').sortByKey := by
  rw [sortByKey_eq_iff] at h h' ⊢
  intro key
  unfold under at h h' ⊢
  rw [only_append, only_append, h, h']

theorem set_congr (h : es.sortByKey = fs.sortByKey) (key : String) (value : α) :
    (es.set key value).sortByKey = (fs.set key value).sortByKey := by
  rw [sortByKey_eq_iff] at h ⊢
  intro other
  unfold under at h ⊢
  rw [only_set, only_set, h]

theorem merge_congr {layer layer' : Entries α} (h : es.sortByKey = fs.sortByKey)
    (hl : layer.sortByKey = layer'.sortByKey) :
    (es.merge layer).sortByKey = (fs.merge layer').sortByKey := by
  rw [sortByKey_eq_iff] at h hl ⊢
  intro key
  unfold under at h hl ⊢
  rw [only_merge, only_merge, h, hl]

end Congr

/-- What depends on a view of the values follows from the views. -/
theorem sortByKey_of_views {γ : Type} [Inhabited γ] {v : α → β} {g : α → γ}
    (hg : ∀ x y, v x = v y → g x = g y) {es fs : Entries α}
    (h : (es.mapValues v).sortByKey = (fs.mapValues v).sortByKey) :
    (es.mapValues g).sortByKey = (fs.mapValues g).sortByKey := by
  obtain ⟨g', rfl⟩ : ∃ g' : β → γ, g = g' ∘ v := by
    refine ⟨Function.extend v g fun _ => default, funext fun x => ?_⟩
    exact (Function.FactorsThrough.extend_apply (fun x y => hg x y) _ x).symm
  have split : ∀ gs : Entries α, gs.mapValues (g' ∘ v) = (gs.mapValues v).mapValues g' := by
    intro gs
    simp [mapValues]
  rw [split, split]
  exact mapValues_congr h g'

def whole (es : Entries (Option α)) : Option (Entries α) :=
  match es with
  | [] => some []
  | (key, value) :: rest => value.bind fun x => (whole rest).map ((key, x) :: ·)

theorem whole_eq_some {es : Entries (Option α)} {fs : Entries α} :
    es.whole = some fs ↔ es = fs.mapValues some := by
  induction es generalizing fs with
  | nil =>
    cases fs with
    | nil => simp [whole, mapValues]
    | cons f rest => simp [whole, mapValues]
  | cons e rest ih =>
    obtain ⟨key, value⟩ := e
    cases value with
    | none => cases fs <;> simp [whole, mapValues]
    | some x =>
      simp only [whole, Option.bind_some, Option.map_eq_some_iff, ih]
      cases fs with
      | nil => simp [mapValues]
      | cons f fs =>
        obtain ⟨k, y⟩ := f
        simp [mapValues, and_comm, and_assoc]

theorem mapValues_some_injective {es fs : Entries α} (h : es.mapValues some = fs.mapValues some) : es = fs :=
  Option.some.inj ((whole_eq_some.mpr rfl).symm.trans (whole_eq_some.mpr h))

theorem whole_mapValues (es : Entries (Option α)) (f : α → β) :
    es.whole.map (mapValues · f) = (es.mapValues (Option.map f)).whole := by
  induction es with
  | nil => rfl
  | cons e rest ih =>
    obtain ⟨key, value⟩ := e
    rw [mapValues_cons, whole, whole, ← ih]
    cases value with
    | none => rfl
    | some x => simp [mapValues, Function.comp_def]

theorem whole_sortByKey (es : Entries (Option α)) : es.whole.map sortByKey = es.sortByKey.whole := by
  refine Option.ext fun gs => ?_
  rw [Option.map_eq_some_iff, whole_eq_some]
  constructor
  · rintro ⟨fs, hfs, rfl⟩
    rw [whole_eq_some.mp hfs, sortByKey_mapValues]
  · intro h
    have found : ∃ fs : Entries α, es = fs.mapValues some := by
      have all : ∀ e ∈ es, e.2.isSome := by
        intro e he
        rw [← (sortByKey_perm es).mem_iff, h] at he
        obtain ⟨f, _, rfl⟩ := List.mem_map.mp he
        rfl
      refine ⟨es.filterMap fun e => e.2.map (e.1, ·), ?_⟩
      clear h
      induction es with
      | nil => rfl
      | cons e rest ih =>
        obtain ⟨key, value⟩ := e
        obtain ⟨x, rfl⟩ := Option.isSome_iff_exists.mp (all _ List.mem_cons_self)
        have tail := ih fun e he => all e (List.mem_cons_of_mem _ he)
        simpa [mapValues] using tail
    obtain ⟨fs, rfl⟩ := found
    rw [sortByKey_mapValues] at h
    exact ⟨fs, whole_eq_some.mpr rfl, mapValues_some_injective h⟩

end AddressMap.Entries
