import AddressMap.Expr
import AddressMap.Proofs.Entries.KeyOrder
import AddressMap.Proofs.Outcome

set_option autoImplicit false

namespace AddressMap

namespace Value

theorem sortItems_eq (xs : List Value) : sortItems xs = xs.map sortKeys := by
  induction xs with
  | nil => rfl
  | cons x xs ih => rw [sortItems, ih, List.map_cons]

theorem sortEntries_eq (es : Entries Value) : sortEntries es = es.mapValues sortKeys := by
  induction es with
  | nil => rfl
  | cons e es ih => rw [sortEntries, ih, Entries.mapValues, Entries.mapValues, List.map_cons]

theorem sortKeys_object (es : Entries Value) :
    (Value.object es).sortKeys = .object (es.mapValues sortKeys).sortByKey := by
  rw [sortKeys, sortEntries_eq]

theorem sortKeys_array (xs : List Value) : (Value.array xs).sortKeys = .array (xs.map sortKeys) := by
  rw [sortKeys, sortItems_eq]

theorem sortKeys_of_perm {es fs : Entries Value} (h : es.Perm fs) (hkeys : es.keys.Nodup) :
    (Value.object es).sortKeys = (Value.object fs).sortKeys := by
  rw [sortKeys_object, sortKeys_object, Entries.sortByKey_mapValues, Entries.sortByKey_mapValues,
    Entries.sortByKey_eq_of_perm h hkeys]

mutual

theorem sortKeys_sortKeys : (v : Value) → v.sortKeys.sortKeys = v.sortKeys
  | .null | .bool _ | .number _ | .string _ => rfl
  | .array xs => by
    rw [sortKeys, sortKeys, sortItems_sortItems xs]
  | .object es => by
    have inner := sortEntries_sortEntries es
    rw [sortEntries_eq (sortEntries es)] at inner
    rw [sortKeys, sortKeys_object, ← Entries.sortByKey_mapValues, inner, Entries.sortByKey_sortByKey]

theorem sortItems_sortItems : (xs : List Value) → sortItems (sortItems xs) = sortItems xs
  | [] => rfl
  | x :: xs => by
    rw [sortItems, sortItems, sortKeys_sortKeys x, sortItems_sortItems xs]

theorem sortEntries_sortEntries : (es : List (String × Value)) →
    sortEntries (sortEntries es) = sortEntries es
  | [] => rfl
  | (k, x) :: es => by
    rw [sortEntries, sortEntries, sortKeys_sortKeys x, sortEntries_sortEntries es]

end

theorem evaluateValue_sortKeys (v : Value) (env : Env) :
    (evaluateValue v.sortKeys env).toOption = (evaluateValue v env).toOption := by
  cases v <;> rfl

theorem sameEntries_eq_all (xs : List (String × Value)) (ys : Entries Value) :
    sameEntries xs ys = xs.all fun e =>
      match ys.get? e.1 with
      | some y => e.2.same y
      | none => false := by
  induction xs with
  | nil => rfl
  | cons e xs ih =>
    rw [sameEntries, List.all_cons]
    exact congrArg (_ && ·) ih

theorem sameEntries_congr {xs xs' : List (String × Value)} (h : xs.Perm xs') (ys : Entries Value) :
    sameEntries xs ys = sameEntries xs' ys := by
  rw [sameEntries_eq_all, sameEntries_eq_all, h.all_eq]

theorem length_sorted (es : Entries Value) : (es.mapValues sortKeys).sortByKey.length = es.length := by
  rw [(Entries.sortByKey_perm _).length_eq, Entries.mapValues, List.length_map]

mutual

theorem same_sortKeys : (v w : Value) → v.sortKeys.same w.sortKeys = v.same w
  | .null, w | .bool _, w | .number _, w | .string _, w => by cases w <;> rfl
  | .array xs, w => by
    cases w with
    | array ys => rw [sortKeys, sortKeys, same, same, sameItems_sortItems xs ys]
    | _ => rfl
  | .object xs, w => by
    cases w with
    | object ys =>
      rw [sortKeys, sortKeys_object, same, same, sameEntries_congr (Entries.sortByKey_perm _),
        sameEntries_sortEntries xs ys, length_sorted, sortEntries_eq, length_sorted]
    | _ => rfl

theorem sameItems_sortItems : (xs ys : List Value) → sameItems (sortItems xs) (sortItems ys) = sameItems xs ys
  | [], ys => by cases ys <;> rfl
  | x :: xs, ys => by
    cases ys with
    | nil => rfl
    | cons y ys => rw [sortItems, sortItems, sameItems, sameItems, same_sortKeys x y, sameItems_sortItems xs ys]

theorem sameEntries_sortEntries : (xs : List (String × Value)) → (ys : Entries Value) →
    sameEntries (sortEntries xs) (ys.mapValues sortKeys).sortByKey = sameEntries xs ys
  | [], _ => rfl
  | (k, x) :: xs, ys => by
    rw [sortEntries, sameEntries, sameEntries, sameEntries_sortEntries xs ys, Entries.get?_sortByKey,
      Entries.get?_mapValues]
    cases ys.get? k with
    | none => rfl
    | some y => exact congrArg (· && sameEntries xs ys) (same_sortKeys x y)

end

end Value

/-- The entries under the keys that are kept, up to the order of keys. -/
def Props.view (keep : String → Bool) (es : Props) : Props :=
  Entries.sortByKey (Entries.mapValues (Entries.only es keep) Value.sortKeys)

def every : String → Bool := fun _ => true

namespace Props

variable {keep : String → Bool} {es fs : Props}

@[simp] theorem view_nil : view keep [] = [] := by
  simp [view, Entries.only, Entries.mapValues, Entries.sortByKey]

theorem view_every (es : Props) :
    view every es = Entries.sortByKey (Entries.mapValues es Value.sortKeys) :=
  congrArg (fun kept => Entries.sortByKey (Entries.mapValues kept Value.sortKeys)) (Entries.only_true es)

theorem sortKeys_object (es : Props) : (Value.object es).sortKeys = .object (view every es) := by
  rw [view_every, Value.sortKeys_object]

theorem get?_view (es : Props) {key : String} (h : keep key) :
    (view keep es).get? key = (es.get? key).map Value.sortKeys := by
  rw [view, Entries.get?_sortByKey, Entries.get?_mapValues, Entries.only, Entries.get?_filter es keep h]

theorem get?_congr (h : view keep es = view keep fs) (key : String) (hkey : keep key) :
    (es.get? key).map Value.sortKeys = (fs.get? key).map Value.sortKeys := by
  rw [← get?_view es hkey, h, get?_view fs hkey]

theorem view_of_view {more : String → Bool} (h : view keep es = view keep fs)
    (hmore : ∀ key, more key → keep key) : view more es = view more fs := by
  have less : ∀ gs : Props, view more gs = (view keep gs).only more := by
    intro gs
    have inside : (fun key => more key && keep key) = more := by
      funext key
      cases hm : more key with
      | false => rfl
      | true => exact hmore key hm
    rw [view, view, Entries.only_sortByKey, Entries.only_mapValues, Entries.only_only, inside]
  rw [less, less, h]

theorem view_view (es : Props) : view keep (view keep es) = view keep es := by
  have twice : Entries.mapValues (Entries.mapValues (Entries.only es keep) Value.sortKeys) Value.sortKeys =
      Entries.mapValues (Entries.only es keep) Value.sortKeys := by
    simp [Entries.mapValues, Value.sortKeys_sortKeys]
  rw [view, view, Entries.only_sortByKey, Entries.only_mapValues, Entries.only_only,
    ← Entries.sortByKey_mapValues]
  simp only [Bool.and_self, twice, Entries.sortByKey_sortByKey]

theorem view_append (hes : view keep es = view keep fs) {es' fs' : Props}
    (hes' : view keep es' = view keep fs') : view keep (es ++ es') = view keep (fs ++ fs') := by
  unfold view at *
  rw [Entries.only_append, Entries.only_append, Entries.mapValues_append, Entries.mapValues_append]
  exact Entries.append_congr hes hes'

theorem view_merge (h : view keep es = view keep fs) {layer layer' : Props}
    (hl : view keep layer = view keep layer') : view keep (es.merge layer) = view keep (fs.merge layer') := by
  unfold view at *
  rw [Entries.only_merge, Entries.only_merge, ← Entries.merge_mapValues, ← Entries.merge_mapValues]
  exact Entries.merge_congr h hl

end Props

end AddressMap
