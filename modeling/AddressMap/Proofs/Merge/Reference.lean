import AddressMap.Proofs.Merge.Event
import Mathlib.Data.List.Induction

set_option autoImplicit false

/-!
The files are a list of writes, each of a value to a key of a section. A write to a key that has no value yet
counts, and so does a repeated write that is accepted; the latest write that counts gives the value.
-/

namespace AddressMap.Merge

variable {p : ConflictPolicy}

def answered {α : Type} (work : Dialogued α) (d : Dialogue) : Except Error α × Dialogue := work.run.run d

theorem answered_bind {α β : Type} (work : Dialogued α) (next : α → Dialogued β) (d : Dialogue) :
    answered (work >>= next) d = match answered work d with
      | (.ok a, d) => answered (next a) d
      | (.error e, d) => (.error e, d) := by
  change ran (work >>= next) d = match ran work d with
    | (.ok a, d) => ran (next a) d
    | (.error e, d) => (.error e, d)
  rw [ran_bind]
  obtain ⟨_ | _, _⟩ := ran work d <;> rfl

abbrev Write := (String × String) × Value

def write? (e : Event) : Option Write := e.2.map fun entry => ((e.1, entry.1), entry.2)

def writes (sections : List (String × Props)) : List Write :=
  sections.flatMap fun s => s.2.map fun e => ((s.1, e.1), e.2)

theorem filterMap_write? (sections : List (String × Props)) :
    (sections.flatMap sectionEvents).filterMap write? = writes sections := by
  induction sections with
  | nil => rfl
  | cons s rest ih =>
    have own : (sectionEvents s).filterMap write? = s.2.map fun e => ((s.1, e.1), e.2) := by
      change (s.2.map fun e => (s.1, some e)).filterMap write? = _
      rw [List.filterMap_map]
      exact congrFun (List.filterMap_eq_map (f := fun e : String × Value => ((s.1, e.1), e.2))) s.2
    rw [List.flatMap_cons, List.filterMap_append, ih, own]
    rfl

def latest (done : List Write) (pair : String × String) : Option Value := done.reverse.lookup pair

theorem latest_concat (done : List Write) (w : Write) (pair : String × String) :
    latest (done ++ [w]) pair = if pair = w.1 then some w.2 else latest done pair := by
  rw [latest, List.reverse_append, List.reverse_singleton, List.singleton_append, List.lookup_cons]
  by_cases h : pair = w.1
  · simp [h]
  · simp [beq_false_of_ne h, h, latest]

def label (pair : String × String) : String := s!"{pair.1}.{pair.2}"

/-- Goes through the writes in order and keeps those that count. -/
def settle (p : ConflictPolicy) : Dialogue → (done todo : List Write) → Except Error (List Write) × Dialogue
  | d, done, [] => (.ok done, d)
  | d, done, w :: todo =>
    match latest done w.1 with
    | none => settle p d (done ++ [w]) todo
    | some existing =>
      match answered (p.replaces (label w.1) existing w.2) d with
      | (.ok accepted, d) => settle p d (if accepted then done ++ [w] else done) todo
      | (.error e, d) => (.error e, d)

def value? (merged : Entries Props) (pair : String × String) : Option Value :=
  (merged.get? pair.1).bind fun known => Entries.get? known pair.2

theorem value?_eq (merged : Entries Props) (name key : String) :
    value? merged (name, key) = Entries.get? ((merged.get? name).getD []) key := by
  unfold value?
  cases merged.get? name <;> rfl

theorem value?_set (merged : Entries Props) (name : String) (known : Props) (pair : String × String) :
    value? (merged.set name known) pair =
      if pair.1 = name then Entries.get? known pair.2 else value? merged pair := by
  rw [value?, Entries.get?_set]
  split <;> rfl

theorem value?_begin (merged : Entries Props) (name : String) :
    value? (merged.set name ((merged.get? name).getD [])) = value? merged := by
  funext pair
  rw [value?_set]
  split
  · rename_i h
    rw [← h, ← value?_eq]
  · rfl

theorem value?_write (merged : Entries Props) (name key : String) (v : Value) (pair : String × String) :
    value? (merged.set name (Entries.set ((merged.get? name).getD []) key v)) pair =
      if pair = (name, key) then some v else value? merged pair := by
  obtain ⟨other, field⟩ := pair
  rw [value?_set, Entries.get?_set]
  by_cases h : other = name
  · by_cases hk : field = key
    · simp [h, hk]
    · simp [h, hk, value?_eq]
  · simp [h]

theorem answered_addEvent (merged : Entries Props) (name : String) (e : String × Value) (d : Dialogue) :
    answered (addEvent p merged (name, some e)) d =
      match value? merged (name, e.1) with
      | none => (.ok (merged.set name (Entries.set ((merged.get? name).getD []) e.1 e.2)), d)
      | some existing =>
        match answered (p.replaces (label (name, e.1)) existing e.2) d with
        | (.ok accepted, d) => (.ok (merged.set name (if accepted then
            Entries.set ((merged.get? name).getD []) e.1 e.2 else (merged.get? name).getD [])), d)
        | (.error e, d) => (.error e, d) := by
  rw [addEvent, value?_eq]
  dsimp only
  rw [answered_bind, addEntry]
  cases Entries.get? ((merged.get? name).getD []) e.1 with
  | none => rfl
  | some existing =>
    dsimp only [label]
    rw [answered_bind]
    obtain ⟨_ | accepted, d'⟩ := answered (p.replaces s!"{name}.{e.1}" existing e.2) d
    · rfl
    · cases accepted <;> rfl

theorem value?_write_eq {merged : Entries Props} {done : List Write} (h : value? merged = latest done)
    (name : String) (e : String × Value) :
    value? (merged.set name (Entries.set ((merged.get? name).getD []) e.1 e.2)) =
      latest (done ++ [((name, e.1), e.2)]) := by
  funext pair
  rw [value?_write, latest_concat, h]

/-- Merging runs as the reference does: it ends in the same way after the same dialogue, with the same values. -/
theorem addEvents_settle (evs : List Event) {merged : Entries Props} {done : List Write} (d : Dialogue)
    (h : value? merged = latest done) :
    (answered (evs.foldlM (addEvent p) merged) d).1.map value? =
        (settle p d done (evs.filterMap write?)).1.map latest ∧
      (answered (evs.foldlM (addEvent p) merged) d).2 = (settle p d done (evs.filterMap write?)).2 := by
  -- The table and the writes that count give every key the same value, event by event.
  induction evs generalizing merged done d with
  | nil => exact ⟨congrArg Except.ok h, rfl⟩
  | cons event rest ih =>
    obtain ⟨name, _ | e⟩ := event
    · exact ih d ((value?_begin merged name).trans h)
    · rw [List.foldlM_cons, answered_bind, answered_addEvent, h]
      change _ = (settle p d done (((name, e.1), e.2) :: rest.filterMap write?)).1.map latest ∧
        _ = (settle p d done (((name, e.1), e.2) :: rest.filterMap write?)).2
      rw [settle]
      dsimp only
      cases latest done (name, e.1) with
      | none => exact ih d (value?_write_eq h name e)
      | some existing =>
        dsimp only
        obtain ⟨_ | accepted, d'⟩ := answered (p.replaces (label (name, e.1)) existing e.2) d
        · exact ⟨rfl, rfl⟩
        · cases accepted with
          | false => exact ih d' ((value?_begin merged name).trans h)
          | true => exact ih d' (value?_write_eq h name e)

def note (names : List String) (name : String) : List String := if name ∈ names then names else names ++ [name]

theorem foldl_note (names : List String) : names.foldl note [] = names.eraseDups := by
  induction names using List.reverseRecOn with
  | nil => rfl
  | append_singleton names name ih =>
    rw [List.foldl_append, ih, List.foldl_cons, List.foldl_nil, List.eraseDups_append, note]
    by_cases h : name ∈ names
    · simp [h, List.removeAll]
    · simp [h, List.removeAll, List.eraseDups_cons]

def keysOf (merged : Entries Props) (name : String) : List String := Entries.keys ((merged.get? name).getD [])

theorem keys_set_note {α : Type} (es : Entries α) (key : String) (x : α) : (es.set key x).keys = note es.keys key :=
  Entries.keys_set es key x

theorem keysOf_set (merged : Entries Props) (name other : String) (known : Props) :
    keysOf (merged.set name known) other = if other = name then known.keys else keysOf merged other := by
  unfold keysOf
  rw [Entries.get?_set]
  split <;> rfl

theorem addEvent_eq_ok {merged merged' : Entries Props} {event : Event} {d : Dialogue}
    (h : (answered (addEvent p merged event) d).1 = .ok merged') : ∃ known, merged' = merged.set event.1 known ∧
      known.keys = (event.2.map (·.1)).toList.foldl note (keysOf merged event.1) := by
  obtain ⟨name, _ | e⟩ := event
  · cases h
    exact ⟨_, rfl, rfl⟩
  rw [answered_addEvent, value?_eq] at h
  dsimp only [Option.map_some, Option.toList_some, List.foldl_cons, List.foldl_nil]
  cases hget : Entries.get? ((merged.get? name).getD []) e.1 with
  | none =>
    rw [hget] at h
    cases h
    exact ⟨_, rfl, keys_set_note _ _ _⟩
  | some existing =>
    rw [hget] at h
    dsimp only at h
    have known : note (keysOf merged name) e.1 = keysOf merged name := if_pos (Entries.mem_keys_of_get? hget)
    obtain ⟨⟨_ | accepted, d'⟩, hrun⟩ : ∃ r, answered (p.replaces (label (name, e.1)) existing e.2) d = r := ⟨_, rfl⟩
    · rw [hrun] at h
      cases h
    · rw [hrun] at h
      cases accepted with
      | false =>
        cases h
        exact ⟨_, rfl, known.symm⟩
      | true =>
        cases h
        exact ⟨_, rfl, keys_set_note _ _ _⟩

def namedIn (name : String) (evs : List Event) : List String :=
  (evs.filter fun event => event.1 = name).filterMap fun event => event.2.map (·.1)

theorem namedIn_cons_self (event : Event) (evs : List Event) :
    namedIn event.1 (event :: evs) = (event.2.map (·.1)).toList ++ namedIn event.1 evs := by
  obtain ⟨name, _ | e⟩ := event
  · simp [namedIn]
  · simp [namedIn]

theorem namedIn_cons_of_ne {event : Event} (evs : List Event) {name : String} (h : name ≠ event.1) :
    namedIn name (event :: evs) = namedIn name evs := by
  simp [namedIn, Ne.symm h]

theorem addEvents_keys (evs : List Event) {merged merged' : Entries Props} {d : Dialogue}
    (h : (answered (evs.foldlM (addEvent p) merged) d).1 = .ok merged') :
    merged'.keys = (evs.map (·.1)).foldl note merged.keys ∧
      ∀ name, keysOf merged' name = (namedIn name evs).foldl note (keysOf merged name) := by
  induction evs generalizing merged d with
  | nil =>
    cases h
    exact ⟨rfl, fun _ => rfl⟩
  | cons event rest ih =>
    rw [List.foldlM_cons, answered_bind] at h
    obtain ⟨⟨_ | next, d'⟩, hrun⟩ : ∃ r, answered (addEvent p merged event) d = r := ⟨_, rfl⟩
    · rw [hrun] at h
      cases h
    · rw [hrun] at h
      obtain ⟨known, rfl, hknown⟩ := addEvent_eq_ok (congrArg Prod.fst hrun)
      obtain ⟨sections, keys⟩ := ih h
      refine ⟨by rw [sections, keys_set_note]; rfl, fun name => ?_⟩
      rw [keys name, keysOf_set]
      by_cases hname : name = event.1
      · subst hname
        rw [if_pos rfl, hknown, ← List.foldl_append]
        exact congrArg (List.foldl note _ ·) (namedIn_cons_self event rest).symm
      · rw [if_neg hname, namedIn_cons_of_ne rest hname]

end AddressMap.Merge
