import AddressMap.Proofs.Merge.Policy

set_option autoImplicit false

namespace AddressMap

namespace Description

def value? (d : Description) (pair : String × String) : Option Value :=
  match d.sections.get? pair.1 with
  | some (.object es) => Entries.get? es pair.2
  | _ => none

/-- Sections, and the keys in each of them, stand in the order in which these sections first name them. -/
structure FirstNamed (d : Description) (sections : List (String × Props)) : Prop where
  order : d.sections.keys = (sections.map (·.1)).eraseDups
  keys : ∀ name v, d.sections.get? name = some v → ∃ es, v = .object es ∧
    Entries.keys es = ((sections.filter fun s => s.1 = name).flatMap fun s => Entries.keys s.2).eraseDups

end Description

namespace Merge

variable {p : ConflictPolicy} {files : List (String × Option String)}

theorem value?_mapValues (merged : Entries Props) :
    (⟨merged.mapValues .object⟩ : Description).value? = value? merged := by
  funext pair
  rw [Description.value?, value?, Entries.get?_mapValues]
  cases merged.get? pair.1 <;> rfl

theorem namedIn_events (name : String) (sections : List (String × Props)) :
    namedIn name (sections.flatMap sectionEvents) =
      (sections.filter fun s => s.1 = name).flatMap fun s => Entries.keys s.2 := by
  induction sections with
  | nil => rfl
  | cons s rest ih =>
    have own : namedIn name (sectionEvents s) = if s.1 = name then Entries.keys s.2 else [] := by
      by_cases h : s.1 = name
      · simp [namedIn, sectionEvents, Entries.keys, h, List.filter_map, List.filterMap_map, Function.comp_def]
      · simp [namedIn, sectionEvents, h, List.filter_map, Function.comp_def]
    have split : namedIn name (sectionEvents s ++ rest.flatMap sectionEvents) =
        namedIn name (sectionEvents s) ++ namedIn name (rest.flatMap sectionEvents) := by
      simp [namedIn]
    rw [List.flatMap_cons, split, ih, own, List.filter_cons]
    by_cases h : s.1 = name
    · simp [h]
    · simp [h]

/-- The keys of a section name nothing new: the section has begun before them. -/
theorem names_sectionEvents (s : String × Props) (names : List String) :
    ((sectionEvents s).map (·.1)).foldl note names = note names s.1 := by
  have there : s.1 ∈ note names s.1 := by
    unfold note
    split
    · assumption
    · simp
  have stays : ∀ es : Props,
      ((es.map fun e => (s.1, some e)).map (·.1)).foldl note (note names s.1) = note names s.1 := by
    intro es
    induction es with
    | nil => rfl
    | cons e rest ih =>
      rw [List.map_cons, List.map_cons, List.foldl_cons]
      exact (congrArg (fun known => List.foldl note known _) (if_pos there)).trans ih
  exact stays s.2

theorem names_events (sections : List (String × Props)) (names : List String) :
    ((sections.flatMap sectionEvents).map (·.1)).foldl note names = (sections.map (·.1)).foldl note names := by
  induction sections generalizing names with
  | nil => rfl
  | cons s rest ih =>
    rw [List.flatMap_cons, List.map_append, List.foldl_append, names_sectionEvents, ih]
    rfl

theorem answered_importFiles (h : ∀ file ∈ files, Loads file) (d : Dialogue) :
    answered (importFiles p files) d =
      ((answered (((files.flatMap contents).flatMap sectionEvents).foldlM (addEvent p) []) d).1.map
        fun merged => ⟨merged.mapValues .object⟩,
       (answered (((files.flatMap contents).flatMap sectionEvents).foldlM (addEvent p) []) d).2) := by
  rw [importFiles, addFiles_eq h, answered_bind]
  obtain ⟨_ | _, _⟩ := answered (((files.flatMap contents).flatMap sectionEvents).foldlM (addEvent p) []) d <;> rfl

/-- Importing runs as the reference does on the writes of the files. -/
theorem importFiles_settle (h : ∀ file ∈ files, Loads file) (d : Dialogue) :
    (answered (importFiles p files) d).1.map Description.value? =
        (settle p d [] (writes (files.flatMap contents))).1.map latest ∧
      (answered (importFiles p files) d).2 = (settle p d [] (writes (files.flatMap contents))).2 := by
  have empty : value? [] = latest [] := rfl
  have run := addEvents_settle (p := p) ((files.flatMap contents).flatMap sectionEvents) d empty
  rw [filterMap_write?] at run
  rw [answered_importFiles h]
  refine ⟨?_, run.2⟩
  rw [← run.1]
  cases (answered (((files.flatMap contents).flatMap sectionEvents).foldlM (addEvent p) []) d).1 with
  | error e => rfl
  | ok merged => exact congrArg Except.ok (value?_mapValues merged)

theorem importFiles_firstNamed (h : ∀ file ∈ files, Loads file) {d : Dialogue} {desc : Description}
    (hrun : (answered (importFiles p files) d).1 = .ok desc) : desc.FirstNamed (files.flatMap contents) := by
  rw [answered_importFiles h, map_eq_ok] at hrun
  obtain ⟨merged, hmerged, rfl⟩ := hrun
  obtain ⟨sections, keys⟩ := addEvents_keys _ hmerged
  constructor
  · have same : Entries.keys (Entries.mapValues merged Value.object) = merged.keys := by
      simp [Entries.keys, Entries.mapValues]
    rw [same, sections, names_events]
    exact foldl_note _
  · intro name v hv
    rw [Entries.get?_mapValues, Option.map_eq_some_iff] at hv
    obtain ⟨es, hes, rfl⟩ := hv
    have own := keys name
    rw [keysOf, hes, namedIn_events] at own
    exact ⟨es, rfl, own.trans (foldl_note _)⟩

def pairs (file : String × Option String) : List (String × String) := (writes (contents file)).map (·.1)

def gives (file : String × Option String) (pair : String × String) : Option Value := value? (contents file) pair

theorem contents_distinct (file : String × Option String) :
    (contents file).keys.Nodup ∧ ∀ s ∈ contents file, s.2.keys.Nodup := by
  unfold contents
  cases hread : Description.readFile file.1 file.2 with
  | error e => exact ⟨List.nodup_nil, fun _ hs => absurd hs List.not_mem_nil⟩
  | ok sections => exact Description.readFile_distinct hread

theorem mem_writes {sections : List (String × Props)} {pair : String × String} {v : Value} :
    (pair, v) ∈ writes sections ↔ ∃ s ∈ sections, s.1 = pair.1 ∧ (pair.2, v) ∈ s.2 := by
  obtain ⟨name, key⟩ := pair
  simp only [writes, List.mem_flatMap, List.mem_map, Prod.mk.injEq]
  constructor
  · rintro ⟨s, hs, ⟨k, x⟩, he, ⟨rfl, rfl⟩, rfl⟩
    exact ⟨s, hs, rfl, he⟩
  · rintro ⟨s, hs, rfl, he⟩
    exact ⟨s, hs, (key, v), he, ⟨rfl, rfl⟩, rfl⟩

theorem gives_eq_some_iff {file : String × Option String} {pair : String × String} {v : Value} :
    gives file pair = some v ↔ (pair, v) ∈ writes (contents file) := by
  obtain ⟨distinct, inside⟩ := contents_distinct file
  rw [gives, value?, mem_writes, Option.bind_eq_some_iff]
  constructor
  · rintro ⟨known, hknown, hv⟩
    exact ⟨_, Entries.mem_of_get? hknown, rfl, Entries.mem_of_get? hv⟩
  · rintro ⟨⟨name, known⟩, hs, rfl, hv⟩
    exact ⟨known, Entries.get?_of_mem distinct hs, Entries.get?_of_mem (inside _ hs) hv⟩

theorem nodup_pairs (file : String × Option String) : (pairs file).Nodup := by
  obtain ⟨distinct, inside⟩ := contents_distinct file
  rw [pairs, writes, List.map_flatMap, List.nodup_flatMap]
  constructor
  · intro s hs
    rw [List.map_map]
    refine List.Nodup.of_map Prod.snd ?_
    rw [List.map_map]
    exact inside s hs
  · refine (List.pairwise_map.mp distinct).imp fun {s t} hne => ?_
    intro pair hs ht
    obtain ⟨_, hws, rfl⟩ := List.mem_map.mp hs
    obtain ⟨_, _, rfl⟩ := List.mem_map.mp hws
    obtain ⟨_, hwt, heq⟩ := List.mem_map.mp ht
    obtain ⟨_, _, rfl⟩ := List.mem_map.mp hwt
    exact hne (Prod.ext_iff.mp heq).1.symm

theorem latest_writes (file : String × Option String) : latest (writes (contents file)) = gives file := by
  funext pair
  refine Option.ext fun v => ?_
  rw [gives_eq_some_iff]
  exact latest_eq_some_iff (nodup_pairs file)

theorem writes_files (files : List (String × Option String)) :
    writes (files.flatMap contents) = files.flatMap fun file => writes (contents file) := by
  rw [writes, List.flatMap_assoc]
  rfl

theorem latest_files (files : List (String × Option String)) (pair : String × String) :
    latest (writes (files.flatMap contents)) pair = files.reverse.findSome? fun file => gives file pair := by
  rw [writes_files]
  induction files using List.reverseRecOn with
  | nil => rfl
  | append_singleton files file ih =>
    rw [List.flatMap_append, List.flatMap_singleton, latest_append, ih, latest_writes, List.reverse_append,
      List.reverse_singleton, List.singleton_append, List.findSome?_cons]
    cases gives file pair <;> rfl

/-- No key gets a second value exactly if no two files have a key in common. -/
theorem nodup_files (files : List (String × Option String)) :
    ((writes (files.flatMap contents)).map (·.1)).Nodup ↔
      files.Pairwise fun a b => List.Disjoint (pairs a) (pairs b) := by
  rw [writes_files, List.map_flatMap, List.nodup_flatMap]
  exact and_iff_right fun file _ => nodup_pairs file

theorem mem_files {files : List (String × Option String)} {pair : String × String} {v : Value} :
    (pair, v) ∈ writes (files.flatMap contents) ↔ ∃ file ∈ files, gives file pair = some v := by
  rw [writes_files, List.mem_flatMap]
  exact exists_congr fun file => and_congr_right fun _ => gives_eq_some_iff.symm

def scripted (p : ConflictPolicy) (files : List (String × Option String)) (answers : List String) :
    Except Error Description × Dialogue :=
  answered (importFiles p files) ⟨answers, false, []⟩

theorem scripted_of_settle_ok (h : ∀ file ∈ files, Loads file) {answers : List String} {kept : List Write}
    (hrun : (settle p ⟨answers, false, []⟩ [] (writes (files.flatMap contents))).1 = .ok kept) :
    ∃ desc, (scripted p files answers).1 = .ok desc ∧ desc.value? = latest kept := by
  have run := (importFiles_settle (p := p) h ⟨answers, false, []⟩).1
  rw [hrun] at run
  exact map_eq_ok.mp run

theorem scripted_of_settle_error (h : ∀ file ∈ files, Loads file) {answers : List String} {e : Error}
    (hrun : (settle p ⟨answers, false, []⟩ [] (writes (files.flatMap contents))).1 = .error e) :
    (scripted p files answers).1 = .error e := by
  have run := (importFiles_settle (p := p) h ⟨answers, false, []⟩).1
  rw [hrun] at run
  exact map_eq_error.mp run

theorem scripted_unasked (hp : p.prompt = false) (h : ∀ file ∈ files, Loads file) (answers : List String) :
    (scripted p files answers).2 = ⟨answers, false, []⟩ := by
  rw [scripted, (importFiles_settle h _).2]
  cases ho : p.overwrite with
  | true => rw [settle_overwrite hp ho]
  | false =>
    rcases settle_strict hp ho ⟨answers, false, []⟩ [] List.nodup_nil (writes (files.flatMap contents)) with
      ⟨_, hrun⟩ | ⟨_, _, _, _, _, _, _, hrun⟩
    · rw [hrun]
    · rw [hrun]

def Exclusive (files : List (String × Option String)) : Prop :=
  files.Pairwise fun a b => List.Disjoint (pairs a) (pairs b)

theorem Exclusive.perm {files' : List (String × Option String)} (h : Exclusive files) (hperm : files.Perm files') :
    Exclusive files' :=
  hperm.pairwise h fun hdisjoint => List.disjoint_symm hdisjoint

/-- Either all values of all files stand, or the first key that is given a second value is a conflict. -/
theorem scripted_strict (hp : p.prompt = false) (ho : p.overwrite = false) (h : ∀ file ∈ files, Loads file)
    (answers : List String) :
    (Exclusive files ∧ ∃ desc, (scripted p files answers).1 = .ok desc ∧
        ∀ pair v, desc.value? pair = some v ↔ ∃ file ∈ files, gives file pair = some v) ∨
      (¬Exclusive files ∧ ∃ before w after existing, writes (files.flatMap contents) = before ++ w :: after ∧
        (before.map (·.1)).Nodup ∧ (w.1, existing) ∈ before ∧
        (scripted p files answers).1 = .error (.conflict (label w.1) existing w.2)) := by
  have nodup := nodup_files files
  rcases settle_strict hp ho ⟨answers, false, []⟩ [] List.nodup_nil (writes (files.flatMap contents)) with
    ⟨hnodup, hrun⟩ | ⟨before, w, after, existing, hsplit, hbefore, hmem, hrun⟩
  · rw [List.nil_append] at hnodup hrun
    obtain ⟨desc, hok, hvalue⟩ := scripted_of_settle_ok h (congrArg Prod.fst hrun)
    refine .inl ⟨nodup.mp hnodup, desc, hok, fun pair v => ?_⟩
    -- No key is written twice, so the latest write is the only one.
    rw [hvalue, latest_eq_some_iff hnodup, mem_files]
  · rw [List.nil_append] at hbefore hmem
    refine .inr ⟨fun hexclusive => ?_, before, w, after, existing, hsplit, hbefore, hmem,
      scripted_of_settle_error h (congrArg Prod.fst hrun)⟩
    have once := nodup.mpr hexclusive
    rw [hsplit, List.map_append, List.map_cons] at once
    exact (List.nodup_append.mp once).2.2 w.1 (List.mem_map.mpr ⟨_, hmem, rfl⟩) w.1 List.mem_cons_self rfl

theorem scripted_strict_isOk (hp : p.prompt = false) (ho : p.overwrite = false) (h : ∀ file ∈ files, Loads file)
    (answers : List String) : (∃ desc, (scripted p files answers).1 = .ok desc) ↔ Exclusive files := by
  rcases scripted_strict hp ho h answers with ⟨hexclusive, desc, hok, _⟩ | ⟨hnot, _, _, _, _, _, _, _, herror⟩
  · exact iff_of_true ⟨desc, hok⟩ hexclusive
  · refine iff_of_false ?_ hnot
    rintro ⟨desc, hok⟩
    exact absurd (herror.symm.trans hok) nofun

theorem scripted_strict_value? (hp : p.prompt = false) (ho : p.overwrite = false) (h : ∀ file ∈ files, Loads file)
    {answers : List String} {desc : Description} (hrun : (scripted p files answers).1 = .ok desc)
    (pair : String × String) (v : Value) :
    desc.value? pair = some v ↔ ∃ file ∈ files, gives file pair = some v := by
  rcases scripted_strict hp ho h answers with ⟨_, found, hok, hvalue⟩ | ⟨_, _, _, _, _, _, _, _, herror⟩
  · cases hok.symm.trans hrun
    exact hvalue pair v
  · exact absurd (herror.symm.trans hrun) nofun

theorem scripted_strict_perm (hp : p.prompt = false) (ho : p.overwrite = false) (h : ∀ file ∈ files, Loads file)
    {files' : List (String × Option String)} (hperm : files.Perm files') (answers : List String) :
    ((∃ desc, (scripted p files answers).1 = .ok desc) ↔ ∃ desc, (scripted p files' answers).1 = .ok desc) ∧
      ∀ desc desc', (scripted p files answers).1 = .ok desc → (scripted p files' answers).1 = .ok desc' →
        desc.value? = desc'.value? := by
  have h' : ∀ file ∈ files', Loads file := fun file hfile => h file (hperm.mem_iff.mpr hfile)
  constructor
  · rw [scripted_strict_isOk hp ho h, scripted_strict_isOk hp ho h']
    exact ⟨fun hexclusive => hexclusive.perm hperm, fun hexclusive => hexclusive.perm hperm.symm⟩
  · intro desc desc' hrun hrun'
    funext pair
    refine Option.ext fun v => ?_
    rw [scripted_strict_value? hp ho h hrun, scripted_strict_value? hp ho h' hrun']
    exact exists_congr fun file => and_congr_left fun _ => hperm.mem_iff

theorem scripted_overwrite (hp : p.prompt = false) (ho : p.overwrite = true) (h : ∀ file ∈ files, Loads file)
    (answers : List String) : ∃ desc, (scripted p files answers).1 = .ok desc ∧
      ∀ pair, desc.value? pair = files.reverse.findSome? fun file => gives file pair := by
  obtain ⟨desc, hok, hvalue⟩ := scripted_of_settle_ok h (congrArg Prod.fst
    (settle_overwrite hp ho ⟨answers, false, []⟩ [] (writes (files.flatMap contents))))
  refine ⟨desc, hok, fun pair => ?_⟩
  rw [hvalue, List.nil_append, latest_files]

/-- The script is dealt out turn by turn, and the last write that counts gives the value. -/
theorem scripted_dealt (hp : p.prompt = true) (h : ∀ file ∈ files, Loads file) {answers : List String}
    {kept : List Write} {questions : List String}
    (hdeal : deal p (p.turns answers) [] (writes (files.flatMap contents)) = some (kept, questions)) :
    (∃ desc, (scripted p files answers).1 = .ok desc ∧ desc.value? = latest kept) ∧
      (scripted p files answers).2.questions = questions := by
  have run := settle_prompt hp answers [] [] (writes (files.flatMap contents))
  rw [hdeal] at run
  exact ⟨scripted_of_settle_ok h run.1, (congrArg Dialogue.questions (importFiles_settle h _).2).trans run.2⟩

theorem scripted_runsOut (hp : p.prompt = true) (h : ∀ file ∈ files, Loads file) {answers : List String}
    (hdeal : deal p (p.turns answers) [] (writes (files.flatMap contents)) = none) :
    (scripted p files answers).1 = .error .io := by
  have run := settle_prompt hp answers [] [] (writes (files.flatMap contents))
  rw [hdeal] at run
  exact scripted_of_settle_error h run

theorem scripted_prompt_isOk (hp : p.prompt = true) (h : ∀ file ∈ files, Loads file) (answers : List String) :
    (∃ desc, (scripted p files answers).1 = .ok desc) ↔
      (repeated [] (writes (files.flatMap contents))).length ≤ (answers.filterMap p.decide?).length := by
  have turns : (p.turns answers).length = (answers.filterMap p.decide?).length := by
    rw [← p.accepts_turnsFrom 0, List.length_map]
    rfl
  have enough : (deal p (p.turns answers) [] (writes (files.flatMap contents))).isSome ↔
      (repeated [] (writes (files.flatMap contents))).length ≤ (p.turns answers).length :=
    deal_isSome_iff (p.turns answers) (writes (files.flatMap contents)) fun _ => Iff.rfl
  rw [← turns, ← enough]
  cases hdeal : deal p (p.turns answers) [] (writes (files.flatMap contents)) with
  | none =>
    refine iff_of_false ?_ Bool.false_ne_true
    rintro ⟨desc, hok⟩
    exact absurd ((scripted_runsOut hp h hdeal).symm.trans hok) nofun
  | some r =>
    obtain ⟨⟨desc, hok, _⟩, _⟩ := scripted_dealt hp h hdeal
    exact iff_of_true ⟨desc, hok⟩ rfl

structure StrictOutcome (p : ConflictPolicy) (files : List (String × Option String)) (answers : List String) :
    Prop where
  isOk : (∃ desc, (scripted p files answers).1 = .ok desc) ↔ Exclusive files
  values : ∀ desc, (scripted p files answers).1 = .ok desc → ∀ pair v,
    desc.value? pair = some v ↔ ∃ file ∈ files, gives file pair = some v
  /-- The first key that is given a second value is the conflict. -/
  conflict : ¬Exclusive files → ∃ before w after existing, writes (files.flatMap contents) = before ++ w :: after ∧
    (before.map (·.1)).Nodup ∧ (w.1, existing) ∈ before ∧
    (scripted p files answers).1 = .error (.conflict (label w.1) existing w.2)
  reorder : ∀ files', files.Perm files' →
    ((∃ desc, (scripted p files answers).1 = .ok desc) ↔ ∃ desc, (scripted p files' answers).1 = .ok desc) ∧
    ∀ desc desc', (scripted p files answers).1 = .ok desc → (scripted p files' answers).1 = .ok desc' →
      desc.value? = desc'.value?

structure PromptOutcome (p : ConflictPolicy) (files : List (String × Option String)) (answers : List String) :
    Prop where
  /-- There is a deciding answer for every repeated write. -/
  isOk : (∃ desc, (scripted p files answers).1 = .ok desc) ↔
    (repeated [] (writes (files.flatMap contents))).length ≤ (answers.filterMap p.decide?).length
  dealt : ∀ kept questions, deal p (p.turns answers) [] (writes (files.flatMap contents)) = some (kept, questions) →
    (∃ desc, (scripted p files answers).1 = .ok desc ∧ desc.value? = latest kept) ∧
      (scripted p files answers).2.questions = questions
  runsOut : deal p (p.turns answers) [] (writes (files.flatMap contents)) = none →
    (scripted p files answers).1 = .error .io

/-- What merging files amounts to, under each policy, and which answers decide. -/
theorem importFiles_reference (p : ConflictPolicy) (files : List (String × Option String))
    (h : ∀ file ∈ files, Loads file) (answers : List String) :
    (∀ desc, (scripted p files answers).1 = .ok desc → desc.FirstNamed (files.flatMap contents)) ∧
    (p.prompt = false → (scripted p files answers).2 = ⟨answers, false, []⟩) ∧
    (p.prompt = false → p.overwrite = false → StrictOutcome p files answers) ∧
    (p.prompt = false → p.overwrite = true → ∃ desc, (scripted p files answers).1 = .ok desc ∧
      ∀ pair, desc.value? pair = files.reverse.findSome? fun file => gives file pair) ∧
    (p.prompt = true → PromptOutcome p files answers) ∧
    (p.turns answers).map Turn.accepts = answers.filterMap p.decide? ∧
    (∀ answer accepts, p.decide? answer = some accepts ↔
      (Text.trim answer).map Char.toUpper = "" ∧ accepts = p.overwrite ∨
        (Text.trim answer).map Char.toUpper = "Y" ∧ accepts = true ∨
        (Text.trim answer).map Char.toUpper = "N" ∧ accepts = false) := by
  have strict : p.prompt = false → p.overwrite = false → StrictOutcome p files answers := fun hp ho =>
    { isOk := scripted_strict_isOk hp ho h answers
      values := fun _ => scripted_strict_value? hp ho h
      conflict := fun hnot => (scripted_strict hp ho h answers).elim (fun r => absurd r.1 hnot) And.right
      reorder := fun _ hperm => scripted_strict_perm hp ho h hperm answers }
  exact ⟨fun desc => importFiles_firstNamed h, fun hp => scripted_unasked hp h answers, strict,
    fun hp ho => scripted_overwrite hp ho h answers,
    fun hp => ⟨scripted_prompt_isOk hp h answers, fun _ _ => scripted_dealt hp h, scripted_runsOut hp h⟩,
    p.accepts_turnsFrom 0 answers, p.decide?_eq_some_iff⟩

/-- Two files with a name for the same application. -/
def namedTwice : List (String × Option String) :=
  [("base.yaml", some "metadata:\n  app_name: first\n  version: one\n"),
    ("board.yaml", some "metadata:\n  app_name: second\n")]

theorem namedTwice_loads : ∀ file ∈ namedTwice, Loads file := by
  have read : ∀ file ∈ namedTwice, (Description.readFile file.1 file.2).toOption.isSome := by decide +kernel
  intro file hfile
  cases hread : Description.readFile file.1 file.2 with
  | ok sections => exact ⟨sections, hread⟩
  | error e => exact absurd (read file hfile) (by rw [hread]; exact Bool.false_ne_true)

/-- The second answer decides; the question about the name is asked twice. -/
theorem importFiles_reference_namedTwice : (∀ file ∈ namedTwice, Loads file) ∧
    (∃ desc, (scripted ⟨true, false⟩ namedTwice ["maybe", " y"]).1 = .ok desc ∧
      (desc.value? ("metadata", "app_name")).map Value.compact = some "\"second\"") ∧
    (scripted ⟨true, false⟩ namedTwice ["maybe", " y"]).2.questions =
      List.replicate 2 "Conflict detected for metadata.app_name: \"first\"\nOverwrite with \"second\" [y/N]? " := by
  obtain ⟨_, _, _, _, prompt, _⟩ := importFiles_reference ⟨true, false⟩ namedTwice namedTwice_loads ["maybe", " y"]
  have run : (deal ⟨true, false⟩ (ConflictPolicy.turns ⟨true, false⟩ ["maybe", " y"]) []
      (writes (namedTwice.flatMap contents))).map
        (fun r => ((latest r.1 ("metadata", "app_name")).map Value.compact, r.2)) =
      some (some "\"second\"",
        List.replicate 2 "Conflict detected for metadata.app_name: \"first\"\nOverwrite with \"second\" [y/N]? ") := by
    decide +kernel
  obtain ⟨r, hdeal, hr⟩ := Option.map_eq_some_iff.mp run
  obtain ⟨⟨desc, hok, hvalue⟩, hquestions⟩ := (prompt rfl).dealt r.1 r.2 hdeal
  refine ⟨namedTwice_loads, ⟨desc, hok, ?_⟩, hquestions.trans (Prod.ext_iff.mp hr).2⟩
  rw [hvalue]
  exact (Prod.ext_iff.mp hr).1

end Merge

end AddressMap
