import AddressMap.Proofs.View.Stages

set_option autoImplicit false

namespace AddressMap

variable {r s : Record}

namespace Access

theorem bitsOf_sortKeys (users : Entries Nat) (v : Value) :
    (bitsOf users v.sortKeys).toOption = (bitsOf users v).toOption := by
  cases v <;> rfl

theorem joinBits_sortKeys (users : Entries Nat) (bits : Nat) (vs : List Value) :
    (joinBits users bits (vs.map Value.sortKeys)).toOption = (joinBits users bits vs).toOption := by
  induction vs generalizing bits with
  | nil => rfl
  | cons v vs ih =>
    have head := bitsOf_sortKeys users v
    rw [List.map_cons, joinBits, joinBits]
    cases hv : bitsOf users v with
    | error e =>
      cases hw : bitsOf users v.sortKeys with
      | error e' => rfl
      | ok more => simp [hv, hw, Except.toOption] at head
    | ok more =>
      cases hw : bitsOf users v.sortKeys with
      | error e' => simp [hv, hw, Except.toOption] at head
      | ok more' =>
        simp only [hv, hw, Except.toOption, Option.some.injEq] at head
        subst head
        exact ih _

theorem listed_sortKeys (v : Option Value) : listed (v.map Value.sortKeys) = (listed v).map Value.sortKeys := by
  cases v with
  | none => rfl
  | some v =>
    cases v with
    | array xs => rw [Option.map_some, Value.sortKeys_array]; rfl
    | _ => rfl

theorem permission_toOption (users : Entries Nat) (r : Record) (p : Permission) :
    (permission users r p).toOption = (joinBits users 0 (listed (r.props.get? p.key))).toOption.bind fun bits =>
      if limit ≤ bits then none else some bits := by
  unfold permission
  cases joinBits users 0 (listed (r.props.get? p.key)) with
  | error fault => rfl
  | ok bits => exact toOption_ite _ _ _

theorem permission_congr (users : Entries Nat) (h : r.view every = s.view every) (p : Permission) :
    (permission users r p).toOption = (permission users s p).toOption := by
  have props := Props.get?_congr (congrArg Record.props h) p.key rfl
  rw [permission_toOption, permission_toOption, ← joinBits_sortKeys, ← listed_sortKeys, props,
    listed_sortKeys, joinBits_sortKeys]

theorem resolve_congr (users : Entries Nat) (h : r.view every = s.view every) :
    (resolve users r).toOption.map (Record.view every) = (resolve users s).toOption.map (Record.view every) := by
  unfold resolve
  rw [toOption_bind, toOption_bind, permission_congr users h]
  refine bind_map_same _ fun readers => ?_
  rw [toOption_bind, toOption_bind, permission_congr users h]
  refine bind_map_same _ fun writers => ?_
  exact congrArg (fun t => some { t with readers, writers : Record }) h

end Access

namespace Scaling

theorem isIntegral_congr (h : r.view every = s.view every) : r.isIntegral = s.isIntegral := by
  have shape := congrArg Record.shape h
  change r.shape.view = s.shape.view at shape
  unfold Record.isIntegral
  cases hr : r.shape with
  | item t =>
    cases hs : s.shape with
    | item t' =>
      rw [hr, hs] at shape
      have type := congrArg ItemShape.itemType (Shape.item.inj shape)
      change t.itemType = t'.itemType at type
      simp only [type]
    | bits t' =>
      rw [hr, hs] at shape
      cases shape
  | bits t =>
    cases hs : s.shape with
    | item t' =>
      rw [hr, hs] at shape
      cases shape
    | bits t' => rfl

theorem evaluateKey_toOption (env : Env) (r : Record) (key : String) : (evaluateKey env r key).toOption =
    match (Entries.get? r.props key).map Value.sortKeys with
    | none | some .null => some none
    | some v => (evaluateValue v env).toOption.map some := by
  unfold evaluateKey
  cases Entries.get? r.props key with
  | none => rfl
  | some v =>
    cases v with
    | null | array _ | object _ => rfl
    | bool b => cases h : evaluateValue (.bool b) env <;> simp [h, Except.toOption, Value.sortKeys]
    | number n => cases h : evaluateValue (.number n) env <;> simp [h, Except.toOption, Value.sortKeys]
    | string t => cases h : evaluateValue (.string t) env <;> simp [h, Except.toOption, Value.sortKeys]

theorem evaluateKey_congr (env : Env) (h : r.view every = s.view every) (key : String) :
    (evaluateKey env r key).toOption = (evaluateKey env s key).toOption := by
  rw [evaluateKey_toOption, evaluateKey_toOption, Props.get?_congr (congrArg Record.props h) key rfl]

theorem scaledValue_congr (env : Env) (h : r.view every = s.view every) (factor : Option Scalar) (key : String) :
    (scaledValue env r factor key).toOption = (scaledValue env s factor key).toOption := by
  unfold scaledValue
  rw [toOption_bind, toOption_bind, evaluateKey_congr env h, isIntegral_congr h]
  refine congrArg _ (funext fun x => ?_)
  cases x with
  | none => rfl
  | some x =>
    cases factor with
    | none => rfl
    | some f =>
      dsimp only
      cases divide x f s.isIntegral <;> rfl

theorem resolve_congr (env : Env) (h : r.view every = s.view every) :
    (resolve env r).toOption.map (Record.view every) = (resolve env s).toOption.map (Record.view every) := by
  unfold resolve
  rw [toOption_bind, toOption_bind, evaluateKey_congr env h]
  refine bind_map_same _ fun factor => ?_
  rw [toOption_bind, toOption_bind, scaledValue_congr env h]
  refine bind_map_same _ fun default => ?_
  rw [toOption_bind, toOption_bind, scaledValue_congr env h]
  refine bind_map_same _ fun min => ?_
  rw [toOption_bind, toOption_bind, scaledValue_congr env h]
  refine bind_map_same _ fun max => ?_
  exact congrArg (fun t => some { t with scalingFactor := factor, default, min, max : Record }) h

end Scaling

namespace Resolution

theorem finishRecord_reached (users : Entries Nat) (env : Env) (r : Record) :
    (finishRecord users env r).reached =
      (Access.resolve users r).toOption.bind fun r => (Scaling.resolve env r).toOption := by
  unfold finishRecord
  cases Access.resolve users r with
  | error e => rfl
  | ok r =>
    dsimp only
    cases hv : Scaling.resolve env r <;> simp [hv, Except.toOption, Outcome.reached, Outcome.toExcept, Outcome.done]

theorem finishRecord_congr (users : Entries Nat) (env : Env) (h : r.view every = s.view every) :
    (finishRecord users env r).reached.map (Record.view every) =
      (finishRecord users env s).reached.map (Record.view every) := by
  rw [finishRecord_reached, finishRecord_reached]
  exact bind_map_congr (Access.resolve_congr users h) fun t t' ht => Scaling.resolve_congr env ht

theorem finishAll_reached {α : Type} (finish : α → Outcome α) (xs : List α) :
    (finishAll finish xs).reached = xs.mapM fun x => (finish x).reached := by
  induction xs with
  | nil => rfl
  | cons x rest ih =>
    rw [List.mapM_cons, finishAll, ← ih]
    obtain ⟨y, e⟩ := finish x
    cases e with
    | some e => rfl
    | none =>
      obtain ⟨ys, e⟩ := finishAll finish rest
      cases e <;> rfl

def finishedRecords (users : Entries Nat) (env : Env) (rs : List Record) : Option (List Record) :=
  rs.mapM fun r => (finishRecord users env r).reached

theorem finishMap_reached (users : Entries Nat) (env : Env) (m : FlatMap) :
    (finishMap users env m).reached = (finishedRecords users env m.records).map fun rs =>
      { m with records := rs, folded := LoopNest.fold rs } := by
  unfold finishMap finishedRecords
  rw [← finishAll_reached]
  obtain ⟨rs, e⟩ := finishAll (finishRecord users env) m.records
  cases e <;> rfl

theorem finishAll_recordsOf (users : Entries Nat) (env : Env) (maps : List FlatMap) :
    (finishAll (finishMap users env) maps).reached.map recordsOf =
      ((recordsOf maps).mapValues (finishedRecords users env)).whole := by
  rw [finishAll_reached]
  induction maps with
  | nil => rfl
  | cons m rest ih =>
    rw [List.mapM_cons, finishMap_reached, recordsOf, List.map_cons, Entries.mapValues_cons, Entries.whole]
    change _ = (finishedRecords users env m.records).bind fun rs =>
      ((recordsOf rest).mapValues (finishedRecords users env)).whole.map ((m.name, rs) :: ·)
    rw [← ih]
    cases finishedRecords users env m.records with
    | none => rfl
    | some rs =>
      cases rest.mapM fun m => (finishMap users env m).reached <;> rfl

theorem finishedRecords_congr (users : Entries Nat) (env : Env) {rs ss : List Record}
    (h : rs.map (Record.view every) = ss.map (Record.view every)) :
    (finishedRecords users env rs).map (List.map (Record.view every)) =
      (finishedRecords users env ss).map (List.map (Record.view every)) := by
  have aligned := forall₂_of_views h
  clear h
  unfold finishedRecords
  induction aligned with
  | nil => rfl
  | cons head _ ih =>
    rw [List.mapM_cons, List.mapM_cons]
    refine bind_map_congr (finishRecord_congr users env head) fun r s hrs => ?_
    refine bind_map_congr ih fun rs ss hrest => ?_
    simp only [Option.pure_def, Option.map_some, List.map_cons, hrs, hrest]

theorem finishAll_congr (users : Entries Nat) (env : Env) {maps maps' : List FlatMap}
    (h : seenMaps every maps = seenMaps every maps') :
    (finishAll (finishMap users env) maps).reached.map (seenMaps every) =
      (finishAll (finishMap users env) maps').reached.map (seenMaps every) := by
  have seen : ∀ ms : List FlatMap, (finishAll (finishMap users env) ms).reached.map (seenMaps every) =
      ((recordsOf ms).mapValues fun rs =>
        (finishedRecords users env rs).map (List.map (Record.view every))).sortByKey.whole := by
    intro ms
    have split : seenMaps every = fun ms : List FlatMap =>
        Entries.sortByKey ((recordsOf ms).mapValues (List.map (Record.view every))) := rfl
    have together : ((recordsOf ms).mapValues (finishedRecords users env)).mapValues
        (Option.map (List.map (Record.view every))) = (recordsOf ms).mapValues fun rs =>
          (finishedRecords users env rs).map (List.map (Record.view every)) := by
      simp [Entries.mapValues, Function.comp_def]
    rw [← Entries.whole_sortByKey, ← together, ← Entries.whole_mapValues, ← finishAll_recordsOf, split,
      Option.map_map, Option.map_map]
    rfl
  rw [seen, seen]
  exact congrArg _ (Entries.sortByKey_of_views (fun rs ss hrs => finishedRecords_congr users env hrs) h)

end Resolution

end AddressMap
