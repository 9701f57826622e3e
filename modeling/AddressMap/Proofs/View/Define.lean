import AddressMap.Proofs.Define.Listing
import AddressMap.Proofs.Value.KeyOrder

set_option autoImplicit false

namespace AddressMap

def PendingDefine.view (d : PendingDefine) : PendingDefine := ⟨d.value.sortKeys, none, []⟩

namespace Define

theorem evaluate_sortKeys (env : Env) (name : String) (v : Value) :
    evaluate env name v.sortKeys = evaluate env name v := by
  cases v <;> rfl

def Pass.view (p : Pass) : Pass where
  env := p.env
  resolved := p.resolved.mapValues PendingDefine.view
  postponed := p.postponed.mapValues PendingDefine.view
  error := p.error

theorem pass_view (env : Env) (ds : Entries PendingDefine) :
    pass env (ds.mapValues PendingDefine.view) = (pass env ds).view := by
  induction ds generalizing env with
  | nil => rfl
  | cons e rest ih =>
    obtain ⟨name, d⟩ := e
    have value : evaluate env name d.view.value = evaluate env name d.value :=
      evaluate_sortKeys env name d.value
    simp only [Entries.mapValues_cons, pass, value]
    cases evaluate env name d.value with
    | ok x =>
      simp only [ih]
      rfl
    | error e =>
      cases hmay : mayResolve e with
      | true =>
        simp only [hmay, if_true, ih]
        rfl
      | false => simp [hmay, Pass.view, Entries.mapValues]

theorem passes_view (n : Nat) (ds : Entries PendingDefine) {t t' : Table} (h : t.env = t'.env) :
    (passes n t (ds.mapValues PendingDefine.view)).reached.map (·.env) =
      (passes n t' ds).reached.map (·.env) := by
  induction n generalizing ds t t' with
  | zero =>
    cases ds with
    | nil => exact congrArg some h
    | cons e rest => rfl
  | succ n ih =>
    cases ds with
    | nil => exact congrArg some h
    | cons e rest =>
      have step := pass_view t.env (e :: rest)
      rw [h, Entries.mapValues_cons] at step
      rw [Entries.mapValues_cons]
      unfold passes
      rw [h, step]
      dsimp only [Pass.view]
      cases (pass t'.env (e :: rest)).error with
      | some e => rfl
      | none =>
        have same : ((pass t'.env (e :: rest)).resolved.mapValues PendingDefine.view).isEmpty =
            (pass t'.env (e :: rest)).resolved.isEmpty := by
          simp [Entries.mapValues]
        dsimp only
        rw [same]
        split
        · rfl
        · refine ih _ ?_
          rw [addAll_env, addAll_env]

theorem resolve_reached (t : Table) (es : Props) : (resolve t es).reached =
    (pendingAll es).toOption.bind fun ds => (passes ds.length t ds.sortByKey).reached := by
  unfold resolve
  cases pendingAll es <;> rfl

def pendingView (ds : Entries PendingDefine) : Entries PendingDefine :=
  (ds.mapValues PendingDefine.view).sortByKey

/-- Defines with the same values make the same constants known, or neither of them does. -/
theorem resolve_congr {t t' : Table} (ht : t.env = t'.env) {es fs : Props}
    (h : (pendingAll es).toOption.map pendingView = (pendingAll fs).toOption.map pendingView) :
    (resolve t es).reached.map (·.env) = (resolve t' fs).reached.map (·.env) := by
  rw [resolve_reached, resolve_reached]
  refine bind_map_congr h fun ds ds' hds => ?_
  unfold pendingView at hds
  have length : ds.length = ds'.length := by
    have sorted := congrArg List.length hds
    rwa [(Entries.sortByKey_perm _).length_eq, (Entries.sortByKey_perm _).length_eq,
      Entries.length_mapValues, Entries.length_mapValues] at sorted
  rw [Entries.sortByKey_mapValues, Entries.sortByKey_mapValues] at hds
  calc (passes ds.length t ds.sortByKey).reached.map (·.env)
      = (passes ds.length t (ds.sortByKey.mapValues PendingDefine.view)).reached.map (·.env) :=
        (passes_view _ _ rfl).symm
    _ = (passes ds'.length t (ds'.sortByKey.mapValues PendingDefine.view)).reached.map (·.env) := by
        rw [hds, length]
    _ = (passes ds'.length t' ds'.sortByKey).reached.map (·.env) := passes_view _ _ ht

end Define

end AddressMap
