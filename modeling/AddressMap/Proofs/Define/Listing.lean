import AddressMap.Proofs.Expr.Stability
import AddressMap.Proofs.Outcome
import AddressMap.Resolution

set_option autoImplicit false

/-!
A listing takes defines one after the other and evaluates each of them with the ones before it. All
listings agree on the values, whatever their order, because a value that was found once does not change
when more is known. The passes of the resolver make up one listing, and it can only end where no define
is left that could be added: so it is a largest one, and its names do not depend on the passes.
-/

namespace AddressMap.Define

/-- The names are evaluated one after the other, each with what is known before it. -/
inductive Listing (table : Entries PendingDefine) : Env → List String → Env → Prop
  | nil (env : Env) : Listing table env [] env
  | cons {env env' : Env} {name : String} {d : PendingDefine} {x : Scalar} {rest : List String}
      (hd : table.get? name = some d) (hx : evaluate env name d.value = .ok x)
      (hrest : Listing table (env.insert name x) rest env') : Listing table env (name :: rest) env'

/-- Whatever is known has the value that its define has when all this is known. -/
def Solved (table : Entries PendingDefine) (env : Env) : Prop :=
  ∀ name x, env.get? name = some x → ∃ d, table.get? name = some d ∧ evaluate env name d.value = .ok x

def Closed (table : Entries PendingDefine) (env : Env) : Prop :=
  ∀ name d x, table.get? name = some d → evaluate env name d.value = .ok x → (env.get? name).isSome

section Known

variable {env env' : Env} {name : String} {v : Value} {x : Scalar}

theorem evaluate_known (h : env.Extends env') :
    evaluate env' name v = evaluate env name v ∨ ∃ e, evaluate env name v = .error e ∧ mayResolve e := by
  cases v with
  | string s =>
    simp only [evaluate]
    split
    · exact .inl rfl
    · rcases evaluate_extends h s with heq | ⟨unknown, he, _⟩
      · exact .inl (by rw [heq])
      · exact .inr ⟨_, by rw [he]; rfl, rfl⟩
  | null | bool | number | array | object => exact .inl rfl

theorem evaluate_mono (h : env.Extends env') (hx : evaluate env name v = .ok x) :
    evaluate env' name v = .ok x := by
  rcases evaluate_known h with heq | ⟨e, he, _⟩
  · rw [heq, hx]
  · rw [hx] at he
    cases he

theorem evaluate_ne_unresolved {u : Unresolved} : evaluate env name v ≠ .error (.unresolved u) := by
  cases v with
  | string s =>
    simp only [evaluate]
    split
    · exact fun h => by cases h
    · cases AddressMap.evaluate s env <;> exact fun h => by cases h
  | number n => cases n <;> exact fun h => by cases h
  | null | bool | array | object => exact fun h => by cases h

end Known

section Listing

variable {table : Entries PendingDefine} {env env' env'' : Env} {names others : List String}

theorem Listing.append (h : Listing table env names env') (h' : Listing table env' others env'') :
    Listing table env (names ++ others) env'' := by
  induction h with
  | nil => exact h'
  | cons hd hx _ ih => exact .cons hd hx (ih h')

theorem Listing.known (h : Listing table env names env') (name : String) :
    (env'.get? name).isSome ↔ (env.get? name).isSome ∨ name ∈ names := by
  induction h with
  | nil => simp
  | @cons env env' first d x rest _ _ _ ih =>
    rw [ih, Entries.get?_insert, List.mem_cons]
    by_cases hn : name = first <;> simp [hn]

theorem solved_nil (table : Entries PendingDefine) : Solved table [] :=
  fun name x hx => by cases hx

theorem solved_insert (h : Solved table env) {name : String} {d : PendingDefine} {x : Scalar}
    (hd : table.get? name = some d) (hx : evaluate env name d.value = .ok x) :
    env.Extends (env.insert name x) ∧ Solved table (env.insert name x) := by
  have grows : env.Extends (env.insert name x) := by
    apply Entries.extends_insert
    intro old hold
    obtain ⟨d', hd', hx'⟩ := h name old hold
    rw [hd] at hd'
    cases hd'
    rw [hx] at hx'
    cases hx'
    rfl
  refine ⟨grows, fun other y hy => ?_⟩
  rw [Entries.get?_insert] at hy
  split at hy
  · rename_i hother
    cases hy
    subst hother
    exact ⟨d, hd, evaluate_mono grows hx⟩
  · obtain ⟨d', hd', hy'⟩ := h other y hy
    exact ⟨d', hd', evaluate_mono grows hy'⟩

theorem Listing.solved (h : Listing table env names env') (hs : Solved table env) : Solved table env' := by
  induction h with
  | nil => exact hs
  | cons hd hx _ ih => exact ih (solved_insert hs hd hx).2

/-- Nothing outside of a closed solution can ever be listed. -/
theorem Listing.extends_closed (h : Listing table env names env') (hs : Solved table env'')
    (hc : Closed table env'') (hle : env.Extends env'') : env'.Extends env'' := by
  induction h with
  | nil => exact hle
  | @cons env env' name d x rest hd hx _ ih =>
    apply ih
    have there := evaluate_mono hle hx
    obtain ⟨y, hy⟩ := Option.isSome_iff_exists.mp (hc name d x hd there)
    obtain ⟨d', hd', hy'⟩ := hs name y hy
    rw [hd] at hd'
    cases hd'
    rw [there] at hy'
    cases hy'
    intro other z hz
    rw [Entries.get?_insert] at hz
    split at hz
    · rename_i hother
      cases hz
      rw [hother, hy]
    · exact hle other z hz

end Listing

theorem pass_splits (env : Env) (pending : Entries PendingDefine) :
    ((pass env pending).resolved ++ (pass env pending).postponed).Perm pending := by
  induction pending generalizing env with
  | nil => exact .refl _
  | cons e rest ih =>
    obtain ⟨name, d⟩ := e
    rw [pass]
    split
    · exact (ih _).cons _
    · split
      · exact List.perm_middle.trans ((ih env).cons _)
      · exact .refl _

theorem pass_fewer {env : Env} {pending : Entries PendingDefine} (h : ¬(pass env pending).resolved.isEmpty) :
    (pass env pending).postponed.length < pending.length := by
  have count := (pass_splits env pending).length_eq
  have hpos := List.length_pos_iff.mpr fun hnil => h (List.isEmpty_iff.mpr hnil)
  rw [List.length_append] at count
  omega

theorem pass_listing {table : Entries PendingDefine} (env : Env) {pending : Entries PendingDefine}
    (h : ∀ e ∈ pending, table.get? e.1 = some e.2) :
    Listing table env (pass env pending).resolved.keys (pass env pending).env := by
  induction pending generalizing env with
  | nil => exact .nil env
  | cons e rest ih =>
    obtain ⟨name, d⟩ := e
    have tail := fun env => ih env fun e he => h e (List.mem_cons_of_mem _ he)
    rw [pass]
    split
    · rename_i x hx
      exact .cons (h (name, d) List.mem_cons_self) hx (tail _)
    · split
      · exact tail env
      · exact .nil env

/-- The error that ends a pass is final, and its define is put off. -/
theorem pass_failed {env : Env} {pending : Entries PendingDefine} {e : Error}
    (h : (pass env pending).error = some e) : ∃ d ∈ (pass env pending).postponed,
      evaluate (pass env pending).env d.1 d.2.value = .error e ∧ mayResolve e = false := by
  induction pending generalizing env with
  | nil => cases h
  | cons entry rest ih =>
    obtain ⟨name, d⟩ := entry
    rw [pass] at h ⊢
    split at h
    · exact ih h
    · rename_i e' he'
      split at h
      · rename_i hmay
        rw [if_pos hmay]
        obtain ⟨d', hd', hfail⟩ := ih h
        exact ⟨d', List.mem_cons_of_mem _ hd', hfail⟩
      · rename_i hmay
        rw [if_neg hmay]
        cases h
        exact ⟨(name, d), List.mem_cons_self, he', Bool.eq_false_iff.mpr hmay⟩

/-- The define may still come right. -/
def PutOff (env : Env) (d : String × PendingDefine) : Prop :=
  ∃ e, evaluate env d.1 d.2.value = .error e ∧ mayResolve e

theorem pass_stuck {env : Env} {pending : Entries PendingDefine} (h : (pass env pending).error = none)
    (hnone : (pass env pending).resolved = []) :
    (pass env pending).env = env ∧ ∀ d ∈ pending, PutOff env d := by
  induction pending generalizing env with
  | nil => exact ⟨rfl, fun _ hd => by cases hd⟩
  | cons entry rest ih =>
    obtain ⟨name, d⟩ := entry
    rw [pass] at h hnone ⊢
    split at h
    · rename_i x hx
      rw [hx] at hnone
      cases hnone
    · rename_i e he
      rw [he] at hnone
      split at h
      · rename_i hmay
        simp only [if_pos hmay] at hnone ⊢
        obtain ⟨henv, hrest⟩ := ih h hnone
        exact ⟨henv, List.forall_mem_cons.mpr ⟨⟨e, he, hmay⟩, hrest⟩⟩
      · cases h

/-- What the passes have come to: `names` are listed, `pending` are the others. -/
structure Reached (table : Entries PendingDefine) (names : List String) (env : Env)
    (pending : Entries PendingDefine) : Prop where
  listing : Listing table [] names env
  entries : ∀ e ∈ pending, table.get? e.1 = some e.2
  split : (names ++ pending.keys).Perm table.keys

theorem Reached.pass {table : Entries PendingDefine} {names : List String} {env : Env}
    {pending : Entries PendingDefine} (h : Reached table names env pending) :
    Reached table (names ++ (pass env pending).resolved.keys) (pass env pending).env
      (pass env pending).postponed := by
  have splits := pass_splits env pending
  refine ⟨h.listing.append (pass_listing env h.entries), fun e he => ?_, ?_⟩
  · exact h.entries e (splits.mem_iff.mp (List.mem_append_right _ he))
  · have keys := splits.map Prod.fst
    rw [List.map_append] at keys
    rw [List.append_assoc]
    exact (keys.append_left names).trans h.split

/-- How passes end: with all defines listed, with some that are put off for ever, or with one whose error is final. -/
inductive Ending (table : Entries PendingDefine) (o : Outcome Table) : Prop
  | finished {names : List String} (h : Reached table names o.state.env []) (he : o.error = none)
  | stuck {names : List String} {pending : Entries PendingDefine}
      (h : Reached table names o.state.env pending) (hne : pending ≠ [])
      (hstuck : ∀ d ∈ pending, PutOff o.state.env d)
      (he : o.error = some (.unresolved (.defines pending.keys)))
  | failed {names : List String} {pending : Entries PendingDefine} {d : String × PendingDefine} {e : Error}
      (h : Reached table names o.state.env pending) (hd : d ∈ pending)
      (hfail : evaluate o.state.env d.1 d.2.value = .error e) (hfinal : mayResolve e = false)
      (he : o.error = some e)

theorem addAll_env (t : Table) (resolved : Entries PendingDefine) : (t.addAll resolved).env = t.env := by
  unfold Table.addAll
  induction resolved generalizing t with
  | nil => rfl
  | cons e rest ih =>
    rw [List.foldl_cons, ih]
    split <;> rfl

theorem passes_ending {table : Entries PendingDefine} {n : Nat} {t : Table} {names : List String}
    {pending : Entries PendingDefine} (h : Reached table names t.env pending) (hn : pending.length ≤ n) :
    Ending table (passes n t pending) := by
  induction n generalizing t names pending with
  | zero =>
    obtain rfl := List.eq_nil_of_length_eq_zero (Nat.le_zero.mp hn)
    exact .finished h rfl
  | succ n ih =>
    cases pending with
    | nil => exact .finished h rfl
    | cons entry rest =>
      have hpass := h.pass
      rw [passes.eq_def]
      dsimp only
      split
      · rename_i e he
        obtain ⟨d, hd, hfail, hfinal⟩ := pass_failed he
        exact .failed hpass hd hfail hfinal rfl
      · rename_i hnone
        split
        · rename_i hempty
          obtain ⟨henv, hstuck⟩ := pass_stuck hnone (List.isEmpty_iff.mp hempty)
          rw [henv]
          exact .stuck h (List.cons_ne_nil _ _) hstuck rfl
        · rename_i hresolved
          apply ih
          · rw [addAll_env]
            exact hpass
          · exact Nat.lt_succ_iff.mp (Nat.lt_of_lt_of_le (pass_fewer hresolved) hn)

theorem Reached.solved {table : Entries PendingDefine} {names : List String} {env : Env}
    {pending : Entries PendingDefine} (h : Reached table names env pending) : Solved table env :=
  h.listing.solved (solved_nil table)

theorem Reached.known {table : Entries PendingDefine} {names : List String} {env : Env}
    {pending : Entries PendingDefine} (h : Reached table names env pending) (name : String) :
    (env.get? name).isSome ↔ name ∈ names := by
  rw [h.listing.known]
  simp [Entries.get?]

/-- Where every pending define is put off, nothing more can be added. -/
theorem Reached.closed {table : Entries PendingDefine} {names : List String} {env : Env}
    {pending : Entries PendingDefine} (h : Reached table names env pending)
    (hstuck : ∀ d ∈ pending, PutOff env d) : Closed table env := by
  intro name d x hd hx
  rw [h.known]
  rcases List.mem_append.mp (h.split.mem_iff.mpr (Entries.mem_keys_of_get? hd)) with hin | hin
  · exact hin
  · obtain ⟨⟨_, d'⟩, hmem, rfl⟩ := List.mem_map.mp hin
    have hd' := h.entries _ hmem
    rw [hd] at hd'
    cases hd'
    obtain ⟨e, he, -⟩ := hstuck _ hmem
    rw [hx] at he
    cases he

theorem pendingAll_keys {es : Props} {pending : Entries PendingDefine} (h : pendingAll es = .ok pending) :
    pending.keys = es.keys := by
  induction es generalizing pending with
  | nil =>
    cases h
    rfl
  | cons e rest ih =>
    obtain ⟨name, v⟩ := e
    rw [pendingAll] at h
    split at h
    · cases h
    · obtain ⟨tail, ht, rfl⟩ := map_eq_ok.mp h
      exact congrArg (name :: ·) (ih ht)

theorem pendingAll_perm {es es' : Props} (h : es.Perm es') {pending : Entries PendingDefine}
    (hp : pendingAll es = .ok pending) : ∃ pending', pendingAll es' = .ok pending' ∧ pending.Perm pending' := by
  induction h generalizing pending with
  | nil => exact ⟨pending, hp, .refl _⟩
  | @cons e es es' _ ih =>
    obtain ⟨name, v⟩ := e
    rw [pendingAll] at hp ⊢
    split at hp
    · cases hp
    · obtain ⟨tail, ht, rfl⟩ := map_eq_ok.mp hp
      obtain ⟨tail', ht', hperm⟩ := ih ht
      exact ⟨_, map_eq_ok.mpr ⟨tail', ht', rfl⟩, hperm.cons _⟩
  | swap a b es =>
    obtain ⟨k, v⟩ := a
    obtain ⟨l, w⟩ := b
    simp only [pendingAll] at hp ⊢
    split at hp
    · cases hp
    · obtain ⟨_, hrest, rfl⟩ := map_eq_ok.mp hp
      split at hrest
      · cases hrest
      · obtain ⟨tail, ht, rfl⟩ := map_eq_ok.mp hrest
        simp only [ht, Except.map]
        exact ⟨_, rfl, .swap _ _ _⟩
  | trans _ _ ih ih' =>
    obtain ⟨_, hp', hperm⟩ := ih hp
    obtain ⟨_, hp'', hperm'⟩ := ih' hp'
    exact ⟨_, hp'', hperm.trans hperm'⟩

theorem resolve_perm (t : Table) {es es' : Props} (h : es.Perm es') (hkeys : es.keys.Nodup)
    {pending : Entries PendingDefine} (hp : pendingAll es = .ok pending) : resolve t es' = resolve t es := by
  obtain ⟨pending', hp', hperm⟩ := pendingAll_perm h hp
  have same := Entries.sortByKey_eq_of_perm hperm (by rwa [pendingAll_keys hp])
  rw [resolve, resolve, hp, hp']
  dsimp only
  rw [same, hperm.length_eq]

theorem reached_start {pending : Entries PendingDefine} (hkeys : pending.keys.Nodup) :
    Reached pending [] [] pending.sortByKey := by
  have perm := Entries.sortByKey_perm pending
  exact ⟨.nil [], fun e he => Entries.get?_of_mem hkeys (perm.mem_iff.mp he), perm.map Prod.fst⟩

/-- The run over a section is a run over its entries, whatever their order. -/
theorem resolve_ending {es : Props} {pending : Entries PendingDefine} (hkeys : es.keys.Nodup)
    (hp : pendingAll es = .ok pending) : Ending pending (resolve ⟨[], []⟩ es) := by
  rw [resolve, hp]
  have start := reached_start (show pending.keys.Nodup by rwa [pendingAll_keys hp])
  exact passes_ending start (Nat.le_of_eq (Entries.sortByKey_perm pending).length_eq)

/-- What a section of defines comes to, in terms of the listings of its entries alone. -/
structure Determined (es : Props) (pending : Entries PendingDefine) : Prop where
  /-- The section resolves exactly if its names can be listed. -/
  succeeds : (Resolution.start.addDefines es).error = none ↔
    ∃ order env, order.Perm es.keys ∧ Listing pending [] order env
  /-- Then its names are known, and no others, -/
  names : (Resolution.start.addDefines es).error = none →
    ∀ name, ((Resolution.start.addDefines es).state.env.get? name).isSome ↔ name ∈ es.keys
  /-- each with the value that its entry has when all of them are known. -/
  values : (Resolution.start.addDefines es).error = none → ∀ name d, (name, d) ∈ pending →
    ∃ x, (Resolution.start.addDefines es).state.env.get? name = some x ∧
      evaluate (Resolution.start.addDefines es).state.env name d.value = .ok x
  /-- The order of the entries does not count. -/
  order : ∀ es', es'.Perm es →
    (Resolution.start.addDefines es').error = (Resolution.start.addDefines es).error ∧
      (Resolution.start.addDefines es').state.env = (Resolution.start.addDefines es).state.env
  /-- The names that stay unresolved are those outside the largest listing. -/
  unresolved : ∀ names, (Resolution.start.addDefines es).error = some (.unresolved (.defines names)) →
    ∃ largest env, Listing pending [] largest env ∧
      (∀ other env', Listing pending [] other env' → other ⊆ largest) ∧
      ∀ name, name ∈ names ↔ name ∈ es.keys ∧ name ∉ largest

section Determined

variable {es : Props} {pending : Entries PendingDefine} {names : List String} {env : Env}
  {left : Entries PendingDefine}

theorem Reached.disjoint (h : Reached pending names env left) (hkeys : pending.keys.Nodup) {name : String}
    (hn : name ∈ left.keys) : name ∉ names := by
  have nodup := h.split.nodup_iff.mpr hkeys
  exact fun hin => (List.nodup_append.mp nodup).2.2 name hin name hn rfl

theorem Reached.largest (h : Reached pending names env left)
    (hstuck : ∀ d ∈ left, PutOff env d) {other : List String} {env' : Env}
    (hother : Listing pending [] other env') : other ⊆ names := by
  have grows := hother.extends_closed h.solved (h.closed hstuck) fun _ _ hx => by cases hx
  intro name hn
  rw [← h.known]
  obtain ⟨x, hx⟩ := Option.isSome_iff_exists.mp ((hother.known name).mpr (.inr hn))
  rw [grows name x hx]
  rfl

theorem Ending.succeeds {o : Outcome Table} (h : Ending pending o) (hkeys : pending.keys.Nodup)
    {order : List String} (hperm : order.Perm pending.keys) (hlist : Listing pending [] order env) :
    o.error = none := by
  cases h with
  | finished _ he => exact he
  | @stuck names left h hne hstuck he =>
    obtain ⟨d, rest, rfl⟩ := List.exists_cons_of_ne_nil hne
    have hd := Entries.mem_keys_of_get? (h.entries d List.mem_cons_self)
    have listed := h.largest hstuck hlist (hperm.mem_iff.mpr hd)
    exact absurd listed (h.disjoint hkeys List.mem_cons_self)
  | @failed names left d e h hd hfail hfinal he =>
    have hget := h.entries d hd
    -- In the complete listing everything is known, so it contains what this run knows.
    have all : Closed pending env := by
      intro name d x hd _
      exact (hlist.known name).mpr (.inr (hperm.mem_iff.mpr (Entries.mem_keys_of_get? hd)))
    have solved := hlist.solved (solved_nil pending)
    have grows := h.listing.extends_closed solved all fun _ _ hx => by cases hx
    obtain ⟨x, hx⟩ := Option.isSome_iff_exists.mp
      ((hlist.known d.1).mpr (.inr (hperm.mem_iff.mpr (Entries.mem_keys_of_get? hget))))
    obtain ⟨d', hd', hvalue⟩ := solved d.1 x hx
    rw [hget] at hd'
    cases hd'
    have known := @evaluate_known _ _ d.1 d.2.value grows
    rcases known with heq | ⟨e', he', hmay⟩
    · rw [← heq, hvalue] at hfail
      cases hfail
    · rw [hfail] at he'
      cases he'
      rw [hfinal] at hmay
      cases hmay

theorem Reached.complete (h : Reached pending names env []) : names.Perm pending.keys := by
  simpa only [Entries.keys, List.map_nil, List.append_nil] using h.split

theorem addDefines_determined (hkeys : es.keys.Nodup) (hp : pendingAll es = .ok pending) :
    Determined es pending := by
  have same := pendingAll_keys hp
  have hkeys' : pending.keys.Nodup := by rwa [same]
  have ending : Ending pending (resolve ⟨[], []⟩ es) := resolve_ending hkeys hp
  have finished : (Resolution.start.addDefines es).error = none → ∃ names,
      Reached pending names (Resolution.start.addDefines es).state.env [] := by
    intro h
    cases ending with
    | finished hr _ => exact ⟨_, hr⟩
    | stuck _ _ _ he => cases h.symm.trans he
    | failed _ _ _ _ he => cases h.symm.trans he
  refine ⟨⟨fun h => ?_, ?_⟩, fun h name => ?_, fun h name d hd => ?_, fun es' hperm => ?_, fun left h => ?_⟩
  · obtain ⟨names, hr⟩ := finished h
    exact ⟨names, _, same ▸ hr.complete, hr.listing⟩
  · rintro ⟨order, env, hperm, hlist⟩
    rw [← same] at hperm
    exact ending.succeeds hkeys' hperm hlist
  · obtain ⟨names, hr⟩ := finished h
    rw [hr.known, ← same, hr.complete.mem_iff]
  · obtain ⟨names, hr⟩ := finished h
    have hget := Entries.get?_of_mem hkeys' hd
    have hmem := hr.complete.mem_iff.mpr (Entries.mem_keys_of_get? hget)
    obtain ⟨x, hx⟩ := Option.isSome_iff_exists.mp ((hr.known name).mpr hmem)
    obtain ⟨d', hd', hvalue⟩ := hr.solved name x hx
    rw [hget] at hd'
    cases hd'
    exact ⟨x, hx, hvalue⟩
  · have heq := resolve_perm ⟨[], []⟩ hperm.symm hkeys hp
    have error := congrArg Outcome.error heq
    have env := congrArg (fun o => o.state.env) heq
    exact ⟨error, env⟩
  · cases ending with
    | finished _ he => cases h.symm.trans he
    | @stuck names pend hr _ hstuck he =>
      cases h.symm.trans he
      refine ⟨names, _, hr.listing, fun other env' hother => hr.largest hstuck hother, fun name => ?_⟩
      rw [← same, ← hr.split.mem_iff, List.mem_append]
      constructor
      · exact fun hn => ⟨.inr hn, hr.disjoint hkeys' hn⟩
      · rintro ⟨hn | hn, hout⟩
        · exact absurd hn hout
        · exact hn
    | @failed names pend d e hr hd hfail hfinal he =>
      cases h.symm.trans he
      exact absurd hfail evaluate_ne_unresolved

end Determined

/-- Defines that use each other against the order of their names. -/
def descending : Props :=
  [("a_last", .string "b_middle * 2"), ("b_middle", .string "c_first + 1"), ("c_first", .ofInt 3)]

theorem descending_determined : ∃ pending, descending.keys.Nodup ∧ pendingAll descending = .ok pending ∧
    Determined descending pending :=
  ⟨_, by decide, rfl, addDefines_determined (by decide) rfl⟩

end AddressMap.Define
