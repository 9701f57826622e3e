import AddressMap.Proofs.Record.LastOverride
import AddressMap.Proofs.Record.Tiling
import AddressMap.Proofs.Resolution.Tables

set_option autoImplicit false

namespace AddressMap

variable {patterns : PatternReader}

namespace Walk

variable {P : Record → Prop}

def Makes (P : Record → Prop) (step : Cursor → Step) : Prop :=
  ∀ c rs c', step c = .ok (rs, c') → ∀ r ∈ rs, P r

theorem sequence_makes {α : Type} {step : α → Cursor → Step} {xs : List α} (h : ∀ x ∈ xs, Makes P (step x)) :
    Makes P (sequence step xs) := by
  induction xs with
  | nil =>
    intro c rs c' hstep
    cases hstep
    simp
  | cons x rest ih =>
    intro c rs c' hstep
    simp only [sequence] at hstep
    split at hstep
    · cases hstep
    rename_i records next hx
    obtain ⟨⟨tail, last⟩, htail, heq⟩ := map_eq_ok.mp hstep
    cases heq
    obtain ⟨hfirst, hrest⟩ := List.forall_mem_cons.mp h
    exact List.forall_mem_append.mpr ⟨hfirst c records next hx, ih hrest next tail _ htail⟩

theorem eachItem_makes {body : Place → Cursor → Step} (h : ∀ q, Makes P (body q)) (p : Place) (e : Element) :
    Makes P (eachItem p e body) := by
  intro c rs c' hstep
  unfold eachItem at hstep
  split at hstep
  · exact h _ c rs c' hstep
  · exact sequence_makes (fun q _ => h q) _ rs c' hstep

theorem visit_makes (hleaf : ∀ e p, Makes P (leaf e p)) (hbits : ∀ b p, Makes P (bits b p)) (table : TypeTable)
    (depth : Nat) (p : Place) (e : Element) : Makes P (visit table depth p e) := by
  induction depth using Nat.strongRecOn generalizing p e with
  | _ depth ih =>
    intro c rs c' hstep
    rcases visit_eq_ok hstep with ⟨_, h⟩ | ⟨_, b, _, _, h⟩ | ⟨_, t, below, _, _, rfl, h⟩
    · exact eachItem_makes (hleaf e) p e c rs c' h
    · exact eachItem_makes (hbits b) _ e c rs c' h
    · refine eachItem_makes (fun q => ?_) _ e c rs c' h
      exact sequence_makes fun f _ => ih below (Nat.lt_succ_self below) q f

theorem flatten_unflagged {table : TypeTable} {root : Typedef} {uid next : Nat} {rs : List Record}
    (h : flatten table root uid = .ok (rs, next)) : ∀ r ∈ rs, r.defaultChanged = none := by
  obtain ⟨⟨records, c⟩, hwalk, heq⟩ := map_eq_ok.mp h
  cases heq
  refine sequence_makes (fun e _ => visit_makes (fun e p => ?_) (fun b p => ?_) table _ _ e) _ _ _ hwalk
  · intro c rs c' hstep
    cases hstep
    exact fun r hr => List.mem_singleton.mp hr ▸ rfl
  · intro c rs c' hstep
    cases hstep
    intro r hr
    obtain ⟨m, _, rfl⟩ := List.mem_map.mp hr
    rfl

end Walk

namespace Override

section Flag

variable (patterns) (defaultMap : Option String) (map : String)

def IsFor (record : String) (e : String × Value) : Prop :=
  match e.2 with
  | .object es => target? defaultMap es = some map ∧ selects patterns e.1 record
  | _ => False

/-- The default that a record has behind some overrides. -/
def defaultBehind (old : Record) (before : Props) : Option Value :=
  (lastGiven patterns defaultMap map old.name "default" before).or (old.props.get? "default")

def Replaces (old : Record) (before : Props) (e : String × Value) : Prop :=
  ∃ new, given patterns defaultMap map old.name "default" e = some new ∧
    ∀ was, defaultBehind patterns defaultMap map old before = some was → was.same new = false

/-- No other override for the record comes after this one. -/
structure IsLast (record : String) (es before : Props) (e : String × Value) : Prop where
  isFor : IsFor patterns defaultMap map record e
  others : ∃ after, es = before ++ e :: after ∧ ∀ f ∈ after, ¬IsFor patterns defaultMap map record f

/-- Some override of the section gives the record another default than it has at this point. -/
def Changes (old : Record) (es : Props) : Prop :=
  ∃ before e after, es = before ++ e :: after ∧ Replaces patterns defaultMap map old before e

/-- What a section of overrides makes of the flag of a record. -/
structure Flagged (es : Props) (old new : Record) : Prop where
  absent : new.defaultChanged = none ↔ ∀ e ∈ es, ¬IsFor patterns defaultMap map old.name e
  raised : new.defaultChanged = some true ↔
    ∃ before e, IsLast patterns defaultMap map old.name es before e ∧ Replaces patterns defaultMap map old before e
  lowered : new.defaultChanged = some false ↔
    ∃ before e, IsLast patterns defaultMap map old.name es before e ∧ ¬Replaces patterns defaultMap map old before e
  /-- The flag tells whether the default was changed exactly if no change comes before the last override. -/
  telling : (new.defaultChanged = some true ↔ Changes patterns defaultMap map old es) ↔
    (Changes patterns defaultMap map old es →
      ∃ before e, IsLast patterns defaultMap map old.name es before e ∧ Replaces patterns defaultMap map old before e)

end Flag

section Last

variable {defaultMap : Option String} {map record : String} {es before : Props} {e : String × Value}

theorem isFor_object {key : String} {fs : Props} :
    IsFor patterns defaultMap map record (key, .object fs) ↔ target? defaultMap fs = some map ∧
      selects patterns key record := .rfl

theorem exists_isLast (h : ∃ e ∈ es, IsFor patterns defaultMap map record e) :
    ∃ before e, IsLast patterns defaultMap map record es before e := by
  induction es with
  | nil =>
    obtain ⟨e, he, _⟩ := h
    cases he
  | cons first rest ih =>
    by_cases hrest : ∃ e ∈ rest, IsFor patterns defaultMap map record e
    · obtain ⟨before, e, hfor, after, rfl, others⟩ := ih hrest
      exact ⟨first :: before, e, hfor, after, rfl, others⟩
    · obtain ⟨e, he, hfor⟩ := h
      rcases List.mem_cons.mp he with rfl | he
      · exact ⟨[], e, hfor, rest, rfl, fun f hf hother => hrest ⟨f, hf, hother⟩⟩
      · exact absurd ⟨e, he, hfor⟩ hrest

theorem hits_iff_isFor {key : String} {fs : Props} {o : Entry}
    (h : read patterns defaultMap key (.object fs) = .ok o) :
    hits patterns defaultMap map record (key, .object fs) ↔ IsFor patterns defaultMap map record (key, .object fs) := by
  obtain ⟨_, heq, hname, _, _, hselector, _⟩ := read_eq_ok.mp h
  cases heq
  rw [isFor_object, mapName_eq_ok.mp hname, ← selects_of_ofKey hselector]
  simp [hits, h]

end Last

section Runs

variable {defaultMap : Option String} {maps : List FlatMap} {map : String} {es before : Props}

theorem touchAll_append (before after : Props) (r : Record) : touchAll patterns defaultMap map (before ++ after) r =
    touchAll patterns defaultMap map after (touchAll patterns defaultMap map before r) := List.foldl_append

/-- The last override for a record sets its flag. -/
theorem touch_flag (hd : Value.distinctEntries before) (hreach : ∀ e ∈ before, Reaches patterns defaultMap maps e)
    {key : String} {fs : Props} (hkeys : (Entries.keys fs).Nodup) {o : Entry}
    (hread : read patterns defaultMap key (.object fs) = .ok o) {old : Record}
    (hfor : IsFor patterns defaultMap map old.name (key, .object fs)) :
    ∃ changed, (touch patterns defaultMap map (touchAll patterns defaultMap map before old)
        (key, .object fs)).defaultChanged = some changed ∧
      (changed = true ↔ Replaces patterns defaultMap map old before (key, .object fs)) := by
  have revised := touchAll_revises hd hreach map old
  have name : (touchAll patterns defaultMap map before old).name = old.name := by rw [revised.frame]
  have own := revised.props "default" (by decide) (by decide)
  obtain ⟨_, heq, hname, hchanges, _, hselector, _⟩ := read_eq_ok.mp hread
  cases heq
  obtain ⟨htarget, hselects⟩ := isFor_object.mp hfor
  have hmap : o.mapName = map := Option.some.inj ((mapName_eq_ok.mp hname).symm.trans htarget)
  have hsel : o.selector.selects (touchAll patterns defaultMap map before old).name = true := by
    rw [name, selects_of_ofKey hselector, hselects]
  refine ⟨changesDefault (touchAll patterns defaultMap map before old) (Entries.swapErase fs "map"), ?_, ?_⟩
  · unfold touch Entry.patchRecord
    simp only [hread]
    rw [if_pos hmap, if_pos hsel, hchanges, patch_eq]
  · unfold changesDefault Replaces defaultBehind
    rw [own, given_of_target ⟨htarget, hselects⟩, Entries.get?_swapErase hkeys (by decide)]
    cases Entries.get? fs "default" with
    | none => simp
    | some new =>
      cases (lastGiven patterns defaultMap map old.name "default" before).or (old.props.get? "default") with
      | none => simp
      | some was => simp

theorem touchAll_of_not_isFor (hreach : ∀ e ∈ es, Reaches patterns defaultMap maps e) {r : Record}
    (h : ∀ e ∈ es, ¬IsFor patterns defaultMap map r.name e) : touchAll patterns defaultMap map es r = r := by
  have none : es.filter (hits patterns defaultMap map r.name) = [] := by
    refine List.filter_eq_nil_iff.mpr fun e he hit => h e he ?_
    obtain ⟨key, v⟩ := e
    obtain ⟨fs, rfl⟩ : ∃ fs, v = .object fs := (hreach _ he).mapping
    obtain ⟨o, hread, _⟩ := hits_iff.mp hit
    exact (hits_iff_isFor hread).mp hit
  rw [← touchAll_filter, none]
  rfl

/-- The flag behind a section is that of the last override for the record. -/
theorem touchAll_flag (hd : Value.distinctEntries es) (hreach : ∀ e ∈ es, Reaches patterns defaultMap maps e)
    {old : Record} {e : String × Value} (hlast : IsLast patterns defaultMap map old.name es before e) :
    ∃ changed, (touchAll patterns defaultMap map es old).defaultChanged = some changed ∧
      (changed = true ↔ Replaces patterns defaultMap map old before e) := by
  obtain ⟨hfor, after, rfl, others⟩ := hlast
  obtain ⟨key, v⟩ := e
  have here : (key, v) ∈ before ++ (key, v) :: after := List.mem_append_right _ List.mem_cons_self
  obtain ⟨fs, rfl⟩ : ∃ fs, v = .object fs := (hreach _ here).mapping
  obtain ⟨m, _, r, _, hit⟩ := hreach _ here
  obtain ⟨o, hread, _⟩ := hits_iff.mp hit
  have keys := (Value.distinct_object.mp (Value.distinct_of_mem hd here)).1
  have distinct : Value.distinctEntries before :=
    Value.distinctEntries_iff.mpr fun e he => Value.distinct_of_mem hd (List.mem_append_left _ he)
  have reach : ∀ e ∈ before, Reaches patterns defaultMap maps e := fun e he => hreach e (List.mem_append_left _ he)
  obtain ⟨changed, hflag, hiff⟩ := touch_flag distinct reach keys hread hfor
  refine ⟨changed, ?_, hiff⟩
  have name : (touch patterns defaultMap map (touchAll patterns defaultMap map before old) (key, .object fs)).name =
      old.name :=
    congrArg Placement.name ((touch_placement _ _ _ _ _).trans (touchAll_placement patterns defaultMap map before old))
  have later : ∀ f ∈ after, Reaches patterns defaultMap maps f := fun f hf =>
    hreach f (List.mem_append_right _ (List.mem_cons_of_mem _ hf))
  rw [touchAll_append]
  change (touchAll patterns defaultMap map after (touch patterns defaultMap map _ (key, .object fs))).defaultChanged = _
  rw [touchAll_of_not_isFor later (by rwa [name])]
  exact hflag

theorem touchAll_flagged (hd : Value.distinctEntries es) (hreach : ∀ e ∈ es, Reaches patterns defaultMap maps e)
    {old : Record} (fresh : old.defaultChanged = none) :
    Flagged patterns defaultMap map es old (touchAll patterns defaultMap map es old) := by
  have unhit : (∀ e ∈ es, ¬IsFor patterns defaultMap map old.name e) →
      (touchAll patterns defaultMap map es old).defaultChanged = none :=
    fun h => (touchAll_of_not_isFor hreach h).symm ▸ fresh
  -- Whoever is the last, the flag is the one that it sets.
  have set : ∀ {before e}, IsLast patterns defaultMap map old.name es before e → ∃ changed,
      (touchAll patterns defaultMap map es old).defaultChanged = some changed ∧
        (changed = true ↔ Replaces patterns defaultMap map old before e) := fun hlast => touchAll_flag hd hreach hlast
  have last : (touchAll patterns defaultMap map es old).defaultChanged ≠ none →
      ∃ before e, IsLast patterns defaultMap map old.name es before e := by
    intro h
    refine exists_isLast ?_
    by_contra hnone
    exact h (unhit fun e he hfor => hnone ⟨e, he, hfor⟩)
  have raised : (touchAll patterns defaultMap map es old).defaultChanged = some true ↔
      ∃ before e, IsLast patterns defaultMap map old.name es before e ∧
        Replaces patterns defaultMap map old before e := by
    constructor
    · intro h
      obtain ⟨before, e, hlast⟩ := last (by rw [h]; exact Option.some_ne_none _)
      obtain ⟨changed, hflag, hiff⟩ := set hlast
      exact ⟨before, e, hlast, hiff.mp (Option.some.inj (hflag.symm.trans h))⟩
    · rintro ⟨before, e, hlast, hreplaces⟩
      obtain ⟨changed, hflag, hiff⟩ := set hlast
      rw [hflag, hiff.mpr hreplaces]
  have changes : (∃ before e, IsLast patterns defaultMap map old.name es before e ∧
      Replaces patterns defaultMap map old before e) → Changes patterns defaultMap map old es := by
    rintro ⟨before, e, ⟨_, after, heq, _⟩, hreplaces⟩
    exact ⟨before, e, after, heq, hreplaces⟩
  refine ⟨⟨fun h e he hfor => ?_, unhit⟩, raised, ⟨fun h => ?_, ?_⟩, ?_⟩
  · obtain ⟨before, e, hlast⟩ := exists_isLast ⟨e, he, hfor⟩
    obtain ⟨changed, hflag, _⟩ := set hlast
    rw [hflag] at h
    cases h
  · obtain ⟨before, e, hlast⟩ := last (by rw [h]; exact Option.some_ne_none _)
    obtain ⟨changed, hflag, hiff⟩ := set hlast
    rw [h] at hflag
    cases hflag
    exact ⟨before, e, hlast, fun hreplaces => Bool.false_ne_true (hiff.mpr hreplaces)⟩
  · rintro ⟨before, e, hlast, hkept⟩
    obtain ⟨changed, hflag, hiff⟩ := set hlast
    rw [hflag, Bool.eq_false_iff.mpr fun htrue => hkept (hiff.mp htrue)]
  · rw [raised]
    exact ⟨Iff.mpr, fun h => ⟨changes, h⟩⟩

end Runs

end Override

namespace Resolution

theorem addMaps_unflagged {r₀ r : Resolution} {declared : Props} (hempty : r₀.maps = [])
    (h : r₀.addMaps declared = .done r) : r.maps.map FlatMap.name = declared.keys ∧
      ∀ m ∈ r.maps, ∀ record ∈ m.records, record.defaultChanged = none := by
  obtain ⟨entries, maps, name, hread, _, hflat, rfl⟩ := addMaps_eq_done h
  obtain ⟨names, flattened⟩ := flattenAll_eq_done hflat
  rw [hempty] at names flattened
  refine ⟨names.trans (readEntries_keys hread), fun m hm => ?_⟩
  obtain ⟨_, _, _, _, _, hwalk⟩ := (flattened m hm).resolve_left List.not_mem_nil
  exact Walk.flatten_unflagged hwalk

/-- A section of overrides leaves each record with the flag of the last override that is for it. -/
theorem overrides_flag_last {r₀ r s : Resolution} {declared es : Props} (hempty : r₀.maps = [])
    (hkeys : declared.keys.Nodup) (hflat : r₀.addMaps declared = .done r) (hd : (Value.object es).distinct)
    (hover : r.addOverrides es patterns = .done s) :
    List.Forall₂ (fun m m' => m'.name = m.name ∧
      List.Forall₂ (Override.Flagged patterns r.defaultMap m.name es) m.records m'.records) r.maps s.maps := by
  obtain ⟨names, unflagged⟩ := addMaps_unflagged hempty hflat
  have inside := (Value.distinct_object.mp hd).2
  obtain ⟨maps, happly, rfl⟩ := addOverrides_eq_done hover
  obtain ⟨hreach, rfl⟩ := (Override.applyAll_eq_done (names ▸ hkeys)).mp happly
  rw [List.forall₂_map_right_iff, List.forall₂_same]
  refine fun m hm => ⟨rfl, ?_⟩
  unfold Override.touched
  rw [List.forall₂_map_right_iff, List.forall₂_same]
  exact fun record hrecord => Override.touchAll_flagged inside hreach (unflagged m hm record hrecord)

def gaugeTable : Resolution :=
  { start with typedefs := [("root", {
    elements := [{
      name := "level", type := none, arraySize := none, description := none, reserved := false
      itemType := "uint8_t", itemSize := 1, offset := 0, count := none
      props := [("default", .ofNat 1)], kind := .primitive .u8 }]
    totalSize := none, size := 1, description := none, props := [] })] }

def gaugeMaps : Props := [("board", .object [("type", .string "root")])]

/-- The first override changes the default, and the second one only sets the unit. -/
def gaugeOverrides : Props := [
  ("level", .object [("default", .ofNat 2)]),
  ("r\"lev\"", .object [("unit", .string "mm")])]

open Override in
/-- The default is changed, and the flag says that it is not. -/
theorem overrides_flag_last_gauge : gaugeTable.maps = [] ∧ gaugeMaps.keys.Nodup ∧
    (Value.object gaugeOverrides).distinct ∧ ∃ r s old new, gaugeTable.addMaps gaugeMaps = .done r ∧
      r.addOverrides gaugeOverrides = .done s ∧ r.maps.map (·.records) = [[old]] ∧ s.maps.map (·.records) = [[new]] ∧
      Changes Pattern.read (some "board") "board" old gaugeOverrides ∧ new.defaultChanged = some false := by
  have hkeys : gaugeMaps.keys.Nodup := List.pairwise_singleton _ _
  have hd : (Value.object gaugeOverrides).distinct := by decide +kernel
  obtain ⟨r, m, old, hflat, hmaps, hname, hdefault, hrecords, hold, hwas⟩ : ∃ r m old,
      gaugeTable.addMaps gaugeMaps = .done r ∧ r.maps = [m] ∧ m.name = "board" ∧ r.defaultMap = some "board" ∧
        m.records = [old] ∧ old.name = "level" ∧ old.props.get? "default" = some (.ofNat 1) :=
    ⟨_, _, _, rfl, rfl, rfl, rfl, rfl, rfl, rfl⟩
  obtain ⟨s, hover⟩ : ∃ s, r.addOverrides gaugeOverrides = .done s := by
    obtain rfl := Outcome.mk.inj hflat |>.1
    exact ⟨_, rfl⟩
  have flags := overrides_flag_last rfl hkeys hflat hd hover
  rw [hmaps] at flags
  obtain ⟨m', _, ⟨_, rows⟩, hrest, hlist⟩ := List.forall₂_cons_left_iff.mp flags
  cases List.forall₂_nil_left_iff.mp hrest
  rw [hrecords, hname, hdefault] at rows
  obtain ⟨new, _, flagged, hmore, hrows⟩ := List.forall₂_cons_left_iff.mp rows
  cases List.forall₂_nil_left_iff.mp hmore
  refine ⟨rfl, hkeys, hd, r, s, old, new, hflat, hover, by rw [hmaps, List.map_singleton, hrecords],
    by rw [hlist, List.map_singleton, hrows], ?_, flagged.lowered.mpr ?_⟩
  · refine ⟨[], _, _, rfl, .ofNat 2, ?_, fun was hwas' => ?_⟩
    · rw [hold]
      rfl
    · rw [defaultBehind, lastGiven_nil, Option.none_or, hwas] at hwas'
      cases hwas'
      rfl
  · refine ⟨[gaugeOverrides[0]], gaugeOverrides[1], ⟨?_, [], rfl, by simp⟩, ?_⟩
    · rw [hold]
      exact ⟨rfl, rfl⟩
    · rintro ⟨value, hgiven, _⟩
      rw [hold] at hgiven
      cases hgiven

end Resolution

end AddressMap
