import AddressMap.Proofs.Entries.Layer
import AddressMap.Proofs.Outcome
import AddressMap.Reference
import Mathlib.Data.List.Forall2
import Mathlib.Data.List.Nodup
import Mathlib.Data.List.Perm.Subperm
import Mathlib.Tactic.SplitIfs

set_option autoImplicit false

/-!
The references from an entry lead to an end exactly if they never come back to an entry and all that they name is in
the table. Where the references from every entry lead to an end, each entry gets the members of its chain, and its
own last. Only the table as it is written is followed, so entries can be rewritten in any order and in place.
-/

namespace AddressMap.Reference

variable {μ η : Type} {table : Entries (Declared μ η)}

/-- The entries that a reference leads to, nearest first, the last one without a reference. -/
inductive Chain (table : Entries (Declared μ η)) : Option String → List (Declared μ η) → Prop
  | done : Chain table none []
  | next {target : String} {d : Declared μ η} {ds : List (Declared μ η)} :
    table.get? target = some d → Chain table d.reference ds → Chain table (some target) (d :: ds)

theorem mem_of_chain {next : Option String} {ds : List (Declared μ η)} (h : Chain table next ds) {d : Declared μ η}
    (hd : d ∈ ds) : ∃ e ∈ table, e.2 = d := by
  induction h with
  | done => cases hd
  | next hget _ ih =>
    rcases List.mem_cons.mp hd with rfl | hd
    · exact ⟨_, Entries.mem_of_get? hget, rfl⟩
    · exact ih hd

theorem chain_unique {next : Option String} {ds es : List (Declared μ η)} (h : Chain table next ds)
    (h' : Chain table next es) : ds = es := by
  induction h generalizing es with
  | done =>
    cases h'
    rfl
  | next hget _ ih =>
    obtain _ | ⟨hget', tail'⟩ := h'
    obtain rfl := Option.some.inj (hget.symm.trans hget')
    rw [ih tail']

inductive Follows (table : Entries (Declared μ η)) :
    List String → Option String → Except ReferenceFault (List (Declared μ η)) → Prop
  | done {visited : List String} : Follows table visited none (.ok [])
  | loop {visited : List String} {target : String} :
    target ∈ visited → Follows table visited (some target) (.error (.loop target))
  | missing {visited : List String} {target : String} : target ∉ visited → table.get? target = none →
    Follows table visited (some target) (.error (.missing target))
  | next {visited : List String} {target : String} {d : Declared μ η}
    {result : Except ReferenceFault (List (Declared μ η))} : target ∉ visited → table.get? target = some d →
    Follows table (target :: visited) d.reference result → Follows table visited (some target) (result.map (d :: ·))

theorem follows_unique {visited : List String} {next : Option String}
    {result result' : Except ReferenceFault (List (Declared μ η))} (h : Follows table visited next result)
    (h' : Follows table visited next result') : result = result' := by
  induction h generalizing result' with
  | done =>
    cases h'
    rfl
  | loop seen =>
    cases h' with
    | loop => rfl
    | missing fresh => exact absurd seen fresh
    | next fresh => exact absurd seen fresh
  | missing fresh hget =>
    cases h' with
    | loop seen => exact absurd seen fresh
    | missing => rfl
    | next _ hget' => cases hget.symm.trans hget'
  | next fresh hget _ ih =>
    cases h' with
    | loop seen => exact absurd seen fresh
    | missing _ hget' => cases hget.symm.trans hget'
    | next _ hget' tail' =>
      obtain rfl := Option.some.inj (hget.symm.trans hget')
      rw [ih tail']

/-- The steps suffice: the visited names are different, and all but the first are in the table. -/
theorem follows_chain {name : String} {steps : Nat} {visited : List String} (distinct : visited.Nodup)
    (known : visited ⊆ name :: table.keys) (enough : table.length + 1 < steps + visited.length)
    (next : Option String) : Follows table visited next (chain table steps visited next) := by
  induction steps generalizing visited next with
  | zero =>
    have bound := (distinct.subperm known).length_le
    rw [List.length_cons, Entries.keys, List.length_map] at bound
    omega
  | succ steps ih =>
    cases next with
    | none => exact .done
    | some target =>
      rw [chain]
      split_ifs with seen
      · exact .loop seen
      · cases hget : table.get? target with
        | none => exact .missing seen hget
        | some d =>
          refine .next seen hget (ih (distinct.cons seen) ?_ ?_ d.reference)
          · exact List.cons_subset.mpr ⟨List.mem_cons_of_mem _ (Entries.mem_keys_of_get? hget), known⟩
          · rw [List.length_cons]
            omega

theorem follows_iff (name : String) (next : Option String) {result : Except ReferenceFault (List (Declared μ η))} :
    Follows table [name] next result ↔ chain table (table.length + 1) [name] next = result := by
  have ends : Follows table [name] next (chain table (table.length + 1) [name] next) :=
    follows_chain (List.nodup_singleton name) (List.cons_subset.mpr ⟨List.mem_cons_self, List.nil_subset _⟩)
      (by simp) next
  constructor
  · exact fun h => follows_unique ends h
  · rintro rfl
    exact ends

theorem chain_of_follows {visited : List String} {next : Option String}
    {result : Except ReferenceFault (List (Declared μ η))} (h : Follows table visited next result)
    {ds : List (Declared μ η)} (ok : result = .ok ds) : Chain table next ds := by
  induction h generalizing ds with
  | done =>
    cases ok
    exact .done
  | loop => cases ok
  | missing => cases ok
  | next _ hget _ ih =>
    obtain ⟨tail, rfl, rfl⟩ := map_eq_ok.mp ok
    exact .next hget (ih rfl)

/-- Chains are unique and get shorter with each step, so one that ends comes back to nothing that was visited. -/
theorem follows_of_chain {visited : List String} {next : Option String} {ds : List (Declared μ η)}
    (h : Chain table next ds) (longer : ∀ v ∈ visited, ∀ es, Chain table (some v) es → ds.length < es.length) :
    Follows table visited next (.ok ds) := by
  induction h generalizing visited with
  | done => exact .done
  | @next target d ds hget tail ih =>
    have fresh : target ∉ visited := fun seen => Nat.lt_irrefl _ (longer target seen _ (.next hget tail))
    refine .next fresh hget (ih fun v hv es hes => ?_)
    rcases List.mem_cons.mp hv with rfl | hv
    · rw [chain_unique hes (.next hget tail)]
      exact Nat.lt_succ_self _
    · exact Nat.lt_of_succ_lt (longer v hv es hes)

/-- The entry with the members of its chain, from the last entry back to itself, and without reference. -/
def Expanded (table : Entries (Declared μ η)) (d d' : Declared μ η) : Prop :=
  ∃ ds, Chain table d.reference ds ∧ d' = ⟨(d :: ds).reverse.flatMap (·.members), none, d.head⟩

theorem members_reverse (d : Declared μ η) (ds : List (Declared μ η)) :
    (d :: ds).reverse.flatMap (·.members) = ds.reverse.flatMap (·.members) ++ d.members := by
  simp

theorem expanded_of_expandEntry {name : String} {d d' : Declared μ η} (h : expandEntry table name d = .ok d') :
    Expanded table d d' := by
  obtain ⟨ds, hds, rfl⟩ := map_eq_ok.mp h
  refine ⟨ds, chain_of_follows ((follows_iff name d.reference).mpr hds) rfl, ?_⟩
  rw [members_reverse]

theorem expandEntry_eq_ok (distinct : table.keys.Nodup) {name : String} {d d' : Declared μ η}
    (hd : (name, d) ∈ table) : expandEntry table name d = .ok d' ↔ Expanded table d d' := by
  refine ⟨expanded_of_expandEntry, ?_⟩
  rintro ⟨ds, hds, rfl⟩
  refine map_eq_ok.mpr ⟨ds, (follows_iff name d.reference).mp (follows_of_chain hds ?_), ?_⟩
  · simp only [List.mem_singleton, forall_eq]
    intro es hes
    rw [chain_unique hes (.next (Entries.get?_of_mem distinct hd) hds)]
    exact Nat.lt_succ_self _
  · rw [members_reverse]

theorem expandFrom_eq_ok {kind : Section} {es done : Entries (Declared μ η)} :
    expandFrom kind table es = .ok done ↔
      List.Forall₂ (fun e e' => e'.1 = e.1 ∧ expandEntry table e.1 e.2 = .ok e'.2) es done := by
  induction es generalizing done with
  | nil =>
    rw [expandFrom, List.forall₂_nil_left_iff, Except.ok.injEq, eq_comm]
  | cons e rest ih =>
    obtain ⟨name, d⟩ := e
    rw [List.forall₂_cons_left_iff]
    simp only [expandFrom]
    constructor
    · intro h
      split at h
      · cases h
      · rename_i d' hd'
        split at h
        · cases h
        · rename_i tail htail
          cases h
          exact ⟨(name, d'), tail, ⟨rfl, hd'⟩, ih.mp htail, rfl⟩
    · rintro ⟨⟨_, d'⟩, tail, ⟨rfl, hd'⟩, htail, rfl⟩
      rw [hd', ih.mpr htail]

theorem mem_expandFrom {kind : Section} {es done : Entries (Declared μ η)} (h : expandFrom kind table es = .ok done)
    {e' : String × Declared μ η} (he' : e' ∈ done) : ∃ e ∈ es, expandEntry table e.1 e.2 = .ok e'.2 := by
  have entries := expandFrom_eq_ok.mp h
  clear h
  induction entries with
  | nil => cases he'
  | @cons e _ rest _ first _ ih =>
    rcases List.mem_cons.mp he' with rfl | he'
    · exact ⟨e, List.mem_cons_self, first.2⟩
    · obtain ⟨e, he, hexp⟩ := ih he'
      exact ⟨e, List.mem_cons_of_mem _ he, hexp⟩

theorem forall₂_congr_of_mem {α β : Type} {R S : α → β → Prop} {xs : List α} {ys : List β}
    (h : ∀ x ∈ xs, ∀ y, R x y ↔ S x y) : List.Forall₂ R xs ys ↔ List.Forall₂ S xs ys := by
  induction xs generalizing ys with
  | nil => rw [List.forall₂_nil_left_iff, List.forall₂_nil_left_iff]
  | cons x rest ih =>
    have tail (zs : List β) : List.Forall₂ R rest zs ↔ List.Forall₂ S rest zs :=
      ih fun y hy => h y (List.mem_cons_of_mem x hy)
    simp only [List.forall₂_cons_left_iff, h x List.mem_cons_self, tail]

theorem exists_forall₂_iff {α β : Type} {R : α → β → Prop} {xs : List α} :
    (∃ ys, List.Forall₂ R xs ys) ↔ ∀ x ∈ xs, ∃ y, R x y := by
  induction xs with
  | nil => simp
  | cons x rest ih =>
    rw [List.forall_mem_cons, ← ih]
    constructor
    · rintro ⟨_, _ | ⟨first, tail⟩⟩
      exact ⟨⟨_, first⟩, _, tail⟩
    · rintro ⟨⟨y, first⟩, ys, tail⟩
      exact ⟨y :: ys, .cons first tail⟩

theorem expand_eq_ok {kind : Section} (distinct : table.keys.Nodup) {done : Entries (Declared μ η)} :
    expand kind table = .ok done ↔ List.Forall₂ (fun e e' => e'.1 = e.1 ∧ Expanded table e.2 e'.2) table done :=
  expandFrom_eq_ok.trans (forall₂_congr_of_mem fun _ he _ => and_congr_right fun _ => expandEntry_eq_ok distinct he)

theorem expand_of_cleared {kind : Section} (cleared : ∀ e ∈ table, e.2.reference = none) :
    expand kind table = .ok table := by
  refine expandFrom_eq_ok.mpr (List.forall₂_same.mpr fun e he => ⟨rfl, ?_⟩)
  obtain ⟨name, members, reference, head⟩ := e
  obtain rfl : reference = none := cleared _ he
  rfl

/-- Entries are rewritten in the order of `names` in a working table. What they refer to is read in the snapshot. -/
def rewrite (kind : Section) (snapshot : Entries (Declared μ η)) :
    (names : List String) → (work : Entries (Declared μ η)) → Except Error (Entries (Declared μ η))
  | [], work => .ok work
  | name :: rest, work =>
    match work.get? name with
    | none => rewrite kind snapshot rest work
    | some d =>
      match expandEntry snapshot name d with
      | .error fault => .error (.unresolved (.reference name kind fault))
      | .ok d => rewrite kind snapshot rest (work.set name d)

def Rewritten (snapshot : Entries (Declared μ η)) (names : List String) (e e' : String × Declared μ η) : Prop :=
  e'.1 = e.1 ∧ if e.1 ∈ names then expandEntry snapshot e.1 e.2 = .ok e'.2 else e'.2 = e.2

theorem rewrite_eq_ok {kind : Section} {snapshot work done : Entries (Declared μ η)} {names : List String}
    (once : names.Nodup) (distinct : work.keys.Nodup) (known : names ⊆ work.keys) :
    rewrite kind snapshot names work = .ok done ↔ List.Forall₂ (Rewritten snapshot names) work done := by
  induction names generalizing work with
  | nil =>
    have same : Rewritten snapshot [] = Eq := by
      funext e e'
      simp [Rewritten, Prod.ext_iff, eq_comm]
    rw [rewrite, same, List.forall₂_eq_eq_eq, Except.ok.injEq]
  | cons name rest ih =>
    obtain ⟨fresh, once⟩ := List.nodup_cons.mp once
    obtain ⟨here, known⟩ := List.cons_subset.mp known
    obtain ⟨d, hd⟩ := Option.isSome_iff_exists.mp (Entries.get?_isSome_iff.mpr here)
    rw [rewrite, hd]
    dsimp only
    cases hd' : expandEntry snapshot name d with
    | error fault =>
      refine iff_of_false nofun fun h => ?_
      obtain ⟨e', he'⟩ := exists_forall₂_iff.mp ⟨done, h⟩ _ (Entries.mem_of_get? hd)
      cases hd'.symm.trans ((if_pos List.mem_cons_self).mp he'.2)
    | ok d' =>
      dsimp only
      rw [ih once (Entries.nodup_keys_set distinct name d') (by rwa [Entries.keys_set_of_has _ _ here]),
        Entries.set_eq_map distinct here, List.forall₂_map_left_iff]
      refine forall₂_congr_of_mem fun e he e' => ?_
      obtain ⟨key, x⟩ := e
      by_cases hkey : key = name
      · subst hkey
        obtain rfl := Option.some.inj (hd.symm.trans (Entries.get?_of_mem distinct he))
        simp [Rewritten, fresh, hd', eq_comm]
      · simp [Rewritten, hkey]

/-- In whatever order the entries are rewritten, the table is the same. -/
theorem rewrite_iff_expand {kind : Section} (distinct : table.keys.Nodup) {names : List String}
    (order : names.Perm table.keys) {done : Entries (Declared μ η)} :
    rewrite kind table names table = .ok done ↔ expand kind table = .ok done := by
  rw [rewrite_eq_ok (order.nodup_iff.mpr distinct) distinct order.subset, expand, expandFrom_eq_ok]
  refine forall₂_congr_of_mem fun e he e' => and_congr_right fun _ => ?_
  rw [if_pos (order.mem_iff.mpr (List.mem_map.mpr ⟨e, he, rfl⟩))]

theorem exists_expand_iff {kind : Section} (distinct : table.keys.Nodup) :
    (∃ done, expand kind table = .ok done) ↔ ∀ name d, (name, d) ∈ table → ∃ ds, Chain table d.reference ds := by
  simp only [expand_eq_ok distinct, exists_forall₂_iff]
  constructor
  · intro h name d hd
    obtain ⟨-, -, ds, hds, -⟩ := h (name, d) hd
    exact ⟨ds, hds⟩
  · rintro h ⟨name, d⟩ hd
    obtain ⟨ds, hds⟩ := h name d hd
    exact ⟨(name, ⟨(d :: ds).reverse.flatMap (·.members), none, d.head⟩), rfl, ds, hds, rfl⟩

theorem expand_idempotent {kind : Section} {done : Entries (Declared μ η)} (h : expand kind table = .ok done) :
    expand kind done = .ok done := by
  refine expand_of_cleared fun e' he' => ?_
  obtain ⟨e, -, hexp⟩ := mem_expandFrom h he'
  obtain ⟨ds, -, heq⟩ := expanded_of_expandEntry hexp
  rw [heq]

/-- Following references ends from everywhere, after no more steps than the loop is given. Where all entries have their
chains, each gets what its chain says, in whatever order the entries are rewritten. -/
theorem expand_exact (kind : Section) (distinct : table.keys.Nodup) :
    (∀ name next result, Follows table [name] next result ↔ chain table (table.length + 1) [name] next = result) ∧
      ((∃ done, expand kind table = .ok done) ↔ ∀ name d, (name, d) ∈ table → ∃ ds, Chain table d.reference ds) ∧
      (∀ done, expand kind table = .ok done →
        List.Forall₂ (fun e e' => e'.1 = e.1 ∧ Expanded table e.2 e'.2) table done ∧ expand kind done = .ok done) ∧
      ∀ names : List String, names.Perm table.keys → ∀ done,
        rewrite kind table names table = .ok done ↔ expand kind table = .ok done := by
  refine ⟨fun name next _ => follows_iff name next, exists_expand_iff distinct, fun done h => ?_,
    fun names order _ => rewrite_iff_expand distinct order⟩
  exact ⟨(expand_eq_ok distinct).mp h, expand_idempotent h⟩

/-- Two entries that take over from each other and from one without reference. -/
def chained : Entries (Declared String Unit) :=
  [("a", ⟨["a_1"], some "b", ()⟩), ("b", ⟨["b_1"], some "c", ()⟩), ("c", ⟨["c_1", "c_2"], none, ()⟩)]

def whole : Entries (Declared String Unit) :=
  [("a", ⟨["c_1", "c_2", "b_1", "a_1"], none, ()⟩), ("b", ⟨["c_1", "c_2", "b_1"], none, ()⟩),
    ("c", ⟨["c_1", "c_2"], none, ()⟩)]

/-- An entry that leads into a loop without being part of it. -/
def looped : Entries (Declared String Unit) :=
  [("a", ⟨["a_1"], some "b", ()⟩), ("b", ⟨["b_1"], some "c", ()⟩), ("c", ⟨[], some "b", ()⟩)]

theorem expand_exact_chained : expand .enums chained = .ok whole ∧
    rewrite .enums chained ["c", "a", "b"] chained = .ok whole ∧ ¬∃ done, expand .enums looped = .ok done := by
  have expands : expand .enums chained = .ok whole := rfl
  refine ⟨expands, ((expand_exact .enums (by decide)).2.2.2 _ (by decide) whole).mpr expands, fun h => ?_⟩
  obtain ⟨ds, hds⟩ := (expand_exact .enums (by decide)).2.1.mp h "a" _ List.mem_cons_self
  have again := hds
  obtain _ | ⟨hb, tail⟩ := hds
  cases hb
  obtain _ | ⟨hc, tail⟩ := tail
  cases hc
  have longer := congrArg List.length (chain_unique again tail)
  rw [List.length_cons, List.length_cons] at longer
  omega

end AddressMap.Reference
