import AddressMap.Proofs.Entries.Layer
import AddressMap.Proofs.Record.Override
import AddressMap.Proofs.Value.Distinct

set_option autoImplicit false

namespace AddressMap

variable {patterns : PatternReader}

namespace Override

/-- The map that an override is for: the one that it names, else the default map. -/
def target? (defaultMap : Option String) (es : Props) : Option String :=
  match Entries.get? es "map" with
  | none => defaultMap
  | some (.string name) => some name
  | some _ => none

/-- Whether the key of an override selects a record, by its name or by a pattern that the name matches. -/
def selects (patterns : PatternReader) (key record : String) : Bool :=
  match patternText? key with
  | none => key == record
  | some text => (patterns text).any fun test => test record

def given (patterns : PatternReader) (defaultMap : Option String) (map record key : String) (e : String × Value) :
    Option Value :=
  match e.2 with
  | .object es => if target? defaultMap es = some map ∧ selects patterns e.1 record then Entries.get? es key else none
  | _ => none

/-- What the last override that has something to say about a key of a record says. -/
def lastGiven (patterns : PatternReader) (defaultMap : Option String) (map record key : String) (es : Props) :
    Option Value :=
  es.reverse.findSome? (given patterns defaultMap map record key)

/-- A proper override with a record to go to. -/
structure Applicable (patterns : PatternReader) (defaultMap : Option String) (maps : List FlatMap) (key : String)
    (es : Props) : Prop where
  mapText : ∀ v, Entries.get? es "map" = some v → v.isString
  free : ∀ k ∈ Entries.keys es, isComputed k = false
  selector : ∀ text, patternText? key = some text → (patterns text).isSome
  reaches : ∃ m ∈ maps, target? defaultMap es = some m.name ∧ ∃ r ∈ m.records, selects patterns key r.name

/-- What a section of overrides leaves of a record of a map. -/
structure Revises (patterns : PatternReader) (defaultMap : Option String) (map : String) (es : Props)
    (old new : Record) : Prop where
  frame : new = { old with
    props := new.props, description := new.description, defaultChanged := new.defaultChanged }
  props : ∀ key, key ≠ "map" → key ≠ "description" →
    new.props.get? key = (lastGiven patterns defaultMap map old.name key es).or (old.props.get? key)
  kept : ∀ key, key = "map" ∨ key = "description" → new.props.get? key = old.props.get? key
  description : new.description =
    (lastGiven patterns defaultMap map old.name "description" es).elim old.description descriptionOf

section Read

variable {defaultMap : Option String} {key : String} {es : Props}

theorem mapName_eq_ok {name : String} :
    mapName defaultMap key (Entries.get? es "map") = .ok name ↔ target? defaultMap es = some name := by
  unfold mapName target?
  cases Entries.get? es "map" with
  | none => cases defaultMap <;> simp [invalid]
  | some v => cases v <;> simp [invalid]

theorem selects_of_ofKey {s : Selector} (h : Selector.ofKey patterns key = .ok s) (record : String) :
    s.selects record = selects patterns key record := by
  unfold Selector.ofKey at h
  unfold selects
  cases htext : patternText? key with
  | none =>
    rw [htext] at h
    cases h
    rfl
  | some text =>
    rw [htext] at h
    dsimp only at h ⊢
    split at h
    · rename_i p hp
      cases h
      rw [hp]
      rfl
    · cases h

theorem exists_selector : (∃ s, Selector.ofKey patterns key = .ok s) ↔
    ∀ text, patternText? key = some text → (patterns text).isSome := by
  unfold Selector.ofKey
  cases patternText? key with
  | none => simp
  | some text => cases hp : patterns text <;> simp [hp]

theorem selector_of_selects {record : String} (h : selects patterns key record) :
    ∃ s, Selector.ofKey patterns key = .ok s := by
  refine exists_selector.mpr fun text htext => ?_
  rw [selects, htext] at h
  dsimp only at h
  cases hp : patterns text with
  | none =>
    rw [hp] at h
    cases h
  | some p => rfl

theorem free_swapErase (hd : (Entries.keys es).Nodup) :
    (∀ k ∈ (Entries.swapErase es "map").keys, isComputed k = false) ↔
      ∀ k ∈ Entries.keys es, isComputed k = false := by
  have keys : ∀ k, k ∈ (Entries.swapErase es "map").keys ↔ k ∈ Entries.keys es ∧ k ≠ "map" := by
    intro k
    rw [Entries.keys, ((Entries.swapErase_perm hd "map").map Prod.fst).mem_iff]
    simp [Entries.keys]
  simp only [keys]
  refine ⟨fun h k hk => ?_, fun h k hk => h k hk.1⟩
  by_cases hmap : k = "map"
  · subst hmap
    decide
  · exact h k ⟨hk, hmap⟩

/-- An override reads as an entry with the same target, changes and records exactly if it is proper. -/
theorem read_iff (hd : (Entries.keys es).Nodup) {map record : String} :
    (∃ o, read patterns defaultMap key (.object es) = .ok o ∧ o.mapName = map ∧ o.selector.selects record) ↔
      (∀ k ∈ Entries.keys es, isComputed k = false) ∧ target? defaultMap es = some map ∧
        selects patterns key record := by
  constructor
  · rintro ⟨o, hread, rfl, hselects⟩
    obtain ⟨_, heq, hname, hchanges, hfree, hselector, _⟩ := read_eq_ok.mp hread
    cases heq
    rw [hchanges] at hfree
    exact ⟨(free_swapErase hd).mp hfree, mapName_eq_ok.mp hname, selects_of_ofKey hselector record ▸ hselects⟩
  · rintro ⟨hfree, htarget, hselects⟩
    obtain ⟨s, hs⟩ := selector_of_selects hselects
    refine ⟨⟨key, map, Entries.swapErase es "map", s⟩, read_eq_ok.mpr ?_, rfl, ?_⟩
    · exact ⟨es, rfl, mapName_eq_ok.mpr htarget, rfl, (free_swapErase hd).mpr hfree, hs, rfl⟩
    · rwa [selects_of_ofKey hs]

theorem hits_iff {map record : String} {e : String × Value} : hits patterns defaultMap map record e ↔
    ∃ o, read patterns defaultMap e.1 e.2 = .ok o ∧ o.mapName = map ∧ o.selector.selects record := by
  unfold hits
  cases read patterns defaultMap e.1 e.2 with
  | error x => simp
  | ok o => simp

theorem reaches_iff_applicable {maps : List FlatMap} (hd : (Entries.keys es).Nodup) :
    Reaches patterns defaultMap maps (key, .object es) ↔ Applicable patterns defaultMap maps key es := by
  simp only [Reaches, hits_iff, read_iff hd]
  constructor
  · rintro ⟨m, hm, r, hr, hfree, htarget, hselects⟩
    refine ⟨fun v hv => ?_, hfree, exists_selector.mp (selector_of_selects hselects), m, hm, htarget, r, hr, hselects⟩
    cases v with
    | string name => rfl
    | _ => simp [target?, hv] at htarget
  · rintro ⟨_, hfree, _, m, hm, htarget, r, hr, hselects⟩
    exact ⟨m, hm, r, hr, hfree, htarget, hselects⟩

end Read

section Patch

variable {defaultMap : Option String} {map key : String} {es : Props}

theorem lastGiven_nil (record : String) : lastGiven patterns defaultMap map record key [] = none := rfl

theorem lastGiven_cons (record : String) (e : String × Value) (rest : Props) :
    lastGiven patterns defaultMap map record key (e :: rest) =
      (lastGiven patterns defaultMap map record key rest).or (given patterns defaultMap map record key e) := by
  simp [lastGiven, List.findSome?_append]

theorem given_of_target {selector record : String}
    (h : target? defaultMap es = some map ∧ selects patterns selector record) :
    given patterns defaultMap map record key (selector, .object es) = Entries.get? es key := if_pos h

theorem given_of_not_target {selector record : String}
    (h : ¬(target? defaultMap es = some map ∧ selects patterns selector record)) :
    given patterns defaultMap map record key (selector, .object es) = none := if_neg h

theorem Revises.refl (r : Record) : Revises patterns defaultMap map [] r r where
  frame := rfl
  props := fun _ _ _ => rfl
  kept := fun _ _ => rfl
  description := rfl

theorem Revises.cons {e : String × Value} {rest : Props} {r s t : Record} (h : Revises patterns defaultMap map [e] r s)
    (h' : Revises patterns defaultMap map rest s t) : Revises patterns defaultMap map (e :: rest) r t := by
  have name : s.name = r.name := by rw [h.frame]
  refine ⟨?_, fun k hmap hdesc => ?_, fun k hk => (h'.kept k hk).trans (h.kept k hk), ?_⟩
  · rw [h'.frame, h.frame]
  · rw [h'.props k hmap hdesc, h.props k hmap hdesc, name, lastGiven_cons r.name e rest, lastGiven_cons r.name e [],
      lastGiven_nil, Option.none_or, Option.or_assoc]
  · rw [h'.description, h.description, name, lastGiven_cons r.name e rest, lastGiven_cons r.name e [],
      lastGiven_nil, Option.none_or]
    cases lastGiven patterns defaultMap map r.name "description" rest <;> rfl

/-- One patch is the changes laid over the free keys. -/
theorem revises_patch (hd : (Entries.keys es).Nodup) {r : Record} {selector : String}
    (h : target? defaultMap es = some map ∧ selects patterns selector r.name) :
    Revises patterns defaultMap map [(selector, .object es)] r (patch r (Entries.swapErase es "map")) := by
  have nodup := Entries.keys_swapErase_nodup hd "map"
  have absent : (Entries.swapErase es "map").get? "map" = none := by
    rw [← Option.not_isSome_iff_eq_none, Entries.get?_isSome_iff, Entries.keys,
      ((Entries.swapErase_perm hd "map").map Prod.fst).mem_iff]
    simp
  have said : ∀ k, lastGiven patterns defaultMap map r.name k [(selector, .object es)] = Entries.get? es k := by
    intro k
    rw [lastGiven_cons, lastGiven_nil, Option.none_or, given_of_target h]
  have merged : ∀ k, (patch r (Entries.swapErase es "map")).props.get? k =
      (if k ≠ "description" then (Entries.swapErase es "map").get? k else none).or (r.props.get? k) := by
    intro k
    have kept : (Entries.only (Entries.swapErase es "map") fun k => k ≠ "description").keys.Nodup :=
      nodup.sublist (List.filter_sublist.map _)
    rw [patch_eq]
    simp only [Entries.get?_merge _ kept, Entries.get?_only, decide_eq_true_eq]
  refine ⟨?_, fun k hmap hdesc => ?_, fun k hk => ?_, ?_⟩
  · rw [patch_eq]
  · rw [merged, if_pos hdesc, Entries.get?_swapErase hd hmap, said]
  · rw [merged]
    rcases hk with rfl | rfl
    · rw [if_pos (by decide), absent, Option.none_or]
    · rw [if_neg (by decide), Option.none_or]
  · rw [patch_eq, said]
    exact (descriptionAfter_eq nodup r.description).trans (by rw [Entries.get?_swapErase hd (by decide)])

theorem revises_of_not_given {e : String × Value} {r : Record}
    (h : ∀ k, given patterns defaultMap map r.name k e = none) :
    Revises patterns defaultMap map [e] r r := by
  have said : ∀ k, lastGiven patterns defaultMap map r.name k [e] = none := by
    intro k
    rw [lastGiven_cons, lastGiven_nil, Option.none_or, h]
  refine ⟨rfl, fun k _ _ => ?_, fun _ _ => rfl, ?_⟩
  · rw [said, Option.none_or]
  · rw [said]
    rfl

theorem touch_revises (hd : (Entries.keys es).Nodup) {selector : String} {o : Entry}
    (h : read patterns defaultMap selector (.object es) = .ok o) (r : Record) :
    Revises patterns defaultMap map [(selector, .object es)] r
      (touch patterns defaultMap map r (selector, .object es)) := by
  obtain ⟨_, heq, hname, hchanges, _, hselector, _⟩ := read_eq_ok.mp h
  cases heq
  have target := mapName_eq_ok.mp hname
  unfold touch
  simp only [h]
  unfold Entry.patchRecord
  rw [selects_of_ofKey hselector, hchanges]
  by_cases hmap : o.mapName = map
  · rw [if_pos hmap]
    by_cases hsel : selects patterns selector r.name = true
    · rw [if_pos hsel]
      exact revises_patch hd ⟨hmap ▸ target, hsel⟩
    · rw [if_neg hsel]
      exact revises_of_not_given fun k => given_of_not_target fun hboth => hsel hboth.2
  · rw [if_neg hmap]
    refine revises_of_not_given fun k => given_of_not_target fun hboth => hmap ?_
    rw [target] at hboth
    exact Option.some.inj hboth.1

end Patch

section Runs

variable {defaultMap : Option String} {maps : List FlatMap} {es : Props}

theorem Reaches.mapping {e : String × Value} (h : Reaches patterns defaultMap maps e) : ∃ fs, e.2 = .object fs := by
  obtain ⟨m, _, r, _, hit⟩ := h
  obtain ⟨o, hread, _⟩ := hits_iff.mp hit
  obtain ⟨fs, heq, _⟩ := read_eq_ok.mp hread
  exact ⟨fs, heq⟩

theorem reaches_iff (hd : Value.distinctEntries es) {e : String × Value} (he : e ∈ es) :
    Reaches patterns defaultMap maps e ↔ ∃ fs, e.2 = .object fs ∧ Applicable patterns defaultMap maps e.1 fs := by
  have nodup : ∀ fs, e.2 = .object fs → (Entries.keys fs).Nodup := by
    intro fs hfs
    have inside := Value.distinct_of_mem hd he
    rw [hfs] at inside
    exact (Value.distinct_object.mp inside).1
  obtain ⟨key, v⟩ := e
  constructor
  · intro h
    obtain ⟨fs, rfl⟩ := h.mapping
    exact ⟨fs, rfl, (reaches_iff_applicable (nodup fs rfl)).mp h⟩
  · rintro ⟨fs, rfl, happ⟩
    exact (reaches_iff_applicable (nodup fs rfl)).mpr happ

/-- Induction over the section: each override revises what those before it have left. -/
theorem touchAll_revises (hd : Value.distinctEntries es) (hreach : ∀ e ∈ es, Reaches patterns defaultMap maps e)
    (map : String) (r : Record) : Revises patterns defaultMap map es r (touchAll patterns defaultMap map es r) := by
  induction es generalizing r with
  | nil => exact Revises.refl r
  | cons e rest ih =>
    obtain ⟨key, v⟩ := e
    rw [List.forall_mem_cons] at hreach
    obtain ⟨fs, rfl⟩ : ∃ fs, v = .object fs := hreach.1.mapping
    obtain ⟨m, _, s, _, hit⟩ := hreach.1
    obtain ⟨o, hread, _⟩ := hits_iff.mp hit
    rw [Value.distinctEntries, Bool.and_eq_true] at hd
    exact (touch_revises (Value.distinct_object.mp hd.1).1 hread r).cons (ih hd.2 hreach.2 _)

end Runs

end Override

namespace Resolution

/-- Overrides succeed exactly if all of them are proper and find a record, and then the last one wins. -/
theorem overrides_last_win {r : Resolution} {es : Props} (hn : (r.maps.map FlatMap.name).Nodup)
    (hd : (Value.object es).distinct) :
    ((r.addOverrides es patterns).error = none ↔
        ∀ e ∈ es, ∃ fs, e.2 = .object fs ∧ Override.Applicable patterns r.defaultMap r.maps e.1 fs) ∧
      ∀ s, r.addOverrides es patterns = .done s → s = { r with maps := s.maps } ∧
        List.Forall₂ (fun m m' => m' = { m with records := m'.records } ∧
          List.Forall₂ (Override.Revises patterns r.defaultMap m.name es) m.records m'.records) r.maps s.maps := by
  have inside := (Value.distinct_object.mp hd).2
  have applicable : (∀ e ∈ es, Override.Reaches patterns r.defaultMap r.maps e) ↔
      ∀ e ∈ es, ∃ fs, e.2 = .object fs ∧ Override.Applicable patterns r.defaultMap r.maps e.1 fs :=
    forall₂_congr fun e he => Override.reaches_iff inside he
  constructor
  · rw [← applicable]
    constructor
    · intro hnone
      obtain ⟨maps, happly, _⟩ := addOverrides_eq_done (Outcome.eq_done_of_error_eq_none hnone)
      exact ((Override.applyAll_eq_done hn).mp happly).1
    · intro hreach
      unfold addOverrides
      rw [(Override.applyAll_eq_done hn).mpr ⟨hreach, rfl⟩]
      rfl
  · intro s hs
    obtain ⟨maps, happly, rfl⟩ := addOverrides_eq_done hs
    obtain ⟨hreach, rfl⟩ := (Override.applyAll_eq_done hn).mp happly
    refine ⟨rfl, ?_⟩
    rw [List.forall₂_map_right_iff, List.forall₂_same]
    refine fun m _ => ⟨rfl, ?_⟩
    unfold Override.touched
    rw [List.forall₂_map_right_iff, List.forall₂_same]
    exact fun t _ => Override.touchAll_revises inside hreach m.name t

def oneByte : Resolution where
  env := []
  defines := []
  defineOrder := []
  metadata := none
  enums := []
  enumOrder := []
  bitfields := []
  bitfieldOrder := []
  typedefs := []
  typedefOrder := []
  maps := [{
    name := "board", type := "root", size := 1, folded := []
    records := [{
      name := "level", mapOffset := 0, shape := .bits ⟨none, 8, 0⟩, unitSize := 1, description := none
      reserved := false, arrays := []
      props := [("default", .ofNat 1), ("unit", .string "mm")] }] }]
  defaultMap := some "board"

/-- The byte is selected by its name, and then by a pattern. -/
def levelOverrides : Props := [
  ("level", .object [("default", .ofNat 2), ("description", .string "fill")]),
  ("r\"lev\"", .object [("map", .string "board"), ("default", .ofNat 3)])]

open Override in
theorem lastGiven_level :
    lastGiven Pattern.read (some "board") "board" "level" "default" levelOverrides = some (.ofNat 3) ∧
    lastGiven Pattern.read (some "board") "board" "level" "unit" levelOverrides = none ∧
    lastGiven Pattern.read (some "board") "board" "level" "description" levelOverrides = some (.string "fill") := by
  exact ⟨rfl, rfl, rfl⟩

/-- The pattern gives the default, the name the description, and the unit stays. -/
theorem overrides_last_win_level : (oneByte.maps.map FlatMap.name).Nodup ∧
    (Value.object levelOverrides).distinct ∧ ∃ s r, oneByte.addOverrides levelOverrides = .done s ∧
      s.maps.map (·.records) = [[r]] ∧ r.props.get? "default" = some (.ofNat 3) ∧
      r.props.get? "unit" = some (.string "mm") ∧ r.description = some "fill" := by
  have hn : (oneByte.maps.map FlatMap.name).Nodup := List.pairwise_singleton _ _
  have hd : (Value.object levelOverrides).distinct := by decide +kernel
  have hnone : (oneByte.addOverrides levelOverrides).error = none := rfl
  have hs := Outcome.eq_done_of_error_eq_none hnone
  obtain ⟨_, hmaps⟩ := (overrides_last_win hn hd).2 _ hs
  obtain ⟨hdefault, hunit, hdescription⟩ := lastGiven_level
  obtain ⟨m, _, ⟨_, hrecords⟩, hrest, hlist⟩ := List.forall₂_cons_left_iff.mp hmaps
  cases List.forall₂_nil_left_iff.mp hrest
  obtain ⟨r, _, revised, hmore, hrows⟩ := List.forall₂_cons_left_iff.mp hrecords
  cases List.forall₂_nil_left_iff.mp hmore
  refine ⟨hn, hd, _, r, hs, by rw [hlist, List.map_singleton, hrows], ?_, ?_, ?_⟩
  · rw [revised.props _ (by decide) (by decide)]
    exact congrArg (Option.or · _) hdefault
  · rw [revised.props _ (by decide) (by decide)]
    exact congrArg (Option.or · _) hunit
  · rw [revised.description]
    exact congrArg (Option.elim · _ _) hdescription

end Resolution

end AddressMap
