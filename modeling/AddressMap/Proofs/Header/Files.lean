import AddressMap.Header
import AddressMap.Proofs.FileSet
import AddressMap.Proofs.Resolution.Stages

set_option autoImplicit false

namespace AddressMap

theorem nodup_flatten_of_stems {α β : Type} {stem : α → β} {families : List (β × List α)}
    (h : ∀ p ∈ families, ∀ a ∈ p.2, stem a = p.1) (hs : (families.map (·.1)).Nodup) :
    (families.map (·.2)).flatten.Nodup ↔ ∀ p ∈ families, p.2.Nodup := by
  induction families with
  | nil => simp
  | cons p rest ih =>
    rw [List.map_cons, List.nodup_cons] at hs
    have apart : p.2.Disjoint (rest.map (·.2)).flatten := by
      intro a ha hin
      obtain ⟨family, hfamily, ha'⟩ := List.mem_flatten.mp hin
      obtain ⟨q, hq, rfl⟩ := List.mem_map.mp hfamily
      apply hs.1
      rw [← h p List.mem_cons_self a ha, h q (List.mem_cons_of_mem _ hq) a ha']
      exact List.mem_map_of_mem hq
    rw [List.map_cons, List.flatten_cons, List.nodup_append', List.forall_mem_cons,
      ih (fun q hq => h q (List.mem_cons_of_mem _ hq)) hs.2]
    exact and_congr_right fun _ => and_iff_left apart

theorem nodup_flatMap_pair {α β : Type} {header source : α → β} (hh : header.Injective)
    (hs : source.Injective) (hne : ∀ a b, header a ≠ source b) (keys : List α) :
    (keys.flatMap fun k => [header k, source k]).Nodup ↔ keys.Nodup := by
  induction keys with
  | nil => simp
  | cons k ks ih =>
    have hmem : ∀ a, (header a ∈ ks.flatMap fun k => [header k, source k]) ↔ a ∈ ks := by
      intro a
      simp [hh.eq_iff, hne]
    have smem : ∀ a, (source a ∈ ks.flatMap fun k => [header k, source k]) ↔ a ∈ ks := by
      intro a
      simp [hs.eq_iff, (hne _ _).symm]
    rw [List.flatMap_cons, List.cons_append, List.cons_append, List.nil_append, List.nodup_cons,
      List.nodup_cons, List.mem_cons, List.nodup_cons, ih, hmem, smem]
    simp [hne]

namespace Header

def affixed (start stop name : String) : String := start ++ name ++ stop

theorem toList_affixed (start stop name : String) :
    (affixed start stop name).toList = start.toList ++ (name.toList ++ stop.toList) := by
  rw [affixed, String.toList_append, String.toList_append, List.append_assoc]

theorem affixed_injective (start stop : String) : (affixed start stop).Injective := by
  intro a b h
  have hlist := congrArg String.toList h
  rw [toList_affixed, toList_affixed] at hlist
  exact String.toList_inj.mp (List.append_cancel_right (List.append_cancel_left hlist))

theorem affixed_ne_of_last {start stop stop' a b : String} (h : stop.toList.getLast? ≠ stop'.toList.getLast?)
    (hs : stop.toList ≠ []) (hs' : stop'.toList ≠ []) : affixed start stop a ≠ affixed start stop' b := by
  intro heq
  have hlist := congrArg (fun s => s.toList.getLast?) heq
  simp only [toList_affixed, ← List.append_assoc, List.getLast?_append_of_ne_nil _ hs,
    List.getLast?_append_of_ne_nil _ hs'] at hlist
  exact h hlist

theorem take_affixed {start stop name : String} {n : Nat} (h : n ≤ start.toList.length) :
    (affixed start stop name).toList.take n = start.toList.take n := by
  rw [toList_affixed, List.take_append_of_le_length h]

def stem (name : String) : List Char := name.toList.take 7

def lowerName (f : FlatMap) : String := Text.lower f.name

def typeFiles (c : ResolvedMap) : List SourceFile :=
  typedefsFile c :: (c.typedefs.map (fun t => typedefFile c t.1 t.2) ++ c.maps.map (mapFile c))

def families (c : ResolvedMap) : List (List Char × List String) := [
  (stem "mm_access.h", (accessFiles c).map (·.name)),
  (stem "mm_bitfields.h", (unlessEmpty c.bitfields (bitfieldsFile c)).map (·.name)),
  (stem "mm_default.h", (defaultFiles c).map (·.name)),
  (stem "mm_defs.h", (unlessEmpty c.defines (definesFile c)).map (·.name)),
  (stem "mm_typedefs.h", (typeFiles c).map (·.name)),
  (stem "mm_cc.h", ["mm_cc.h"]),
  (stem "mm_meta.h", ["mm_meta.h"]),
  (stem "mm_enums.h", (unlessEmpty c.enums (enumsFile c)).map (·.name))]

theorem names_writes (c : ResolvedMap) (hide : Bool) :
    (writes c hide).map (·.1) = (sources c).map (·.name) := by
  rw [writes, List.map_map]
  rfl

theorem names_eq (c : ResolvedMap) (hide : Bool) :
    (writes c hide).map (·.1) = ((families c).map (·.2)).flatten := by
  rw [names_writes]
  simp [sources, families, typeFiles, compilerFile, metadataFile]

theorem names_accessFiles {c : ResolvedMap} (h : c.metadata.users ≠ []) :
    (accessFiles c).map (·.name) = affixed "mm_access_" ".h" "types" ::
      ((c.maps.map lowerName).flatMap fun name =>
        [affixed "mm_access_" ".h" name, affixed "mm_access_" ".c" name]) ++ ["mm_access.h"] := by
  rw [accessFiles, if_neg (by simpa using h)]
  simp only [List.map_append, List.map_cons, List.map_flatMap, List.flatMap_map, List.map_nil]
  rfl

theorem names_defaultFiles (c : ResolvedMap) : (defaultFiles c).map (·.name) =
    ((c.maps.filter fun f => !(defaultLines f).isEmpty).map lowerName).flatMap fun name =>
      [affixed "mm_default_" ".h" name, affixed "mm_default_" ".c" name] := by
  unfold defaultFiles
  induction c.maps with
  | nil => rfl
  | cons f rest ih =>
    rw [List.flatMap_cons, List.map_append, ih]
    by_cases hf : (defaultLines f).isEmpty
    · simp [hf]
    · simp only [hf, Bool.not_false, List.filter_cons_of_pos, List.map_cons, List.flatMap_cons]
      rfl

theorem names_typeFiles (c : ResolvedMap) : (typeFiles c).map (·.name) =
    "mm_typedefs.h" :: (c.typedefs.keys ++ c.maps.map (·.name)).map (affixed "mm_typedefs_" ".h") := by
  simp only [typeFiles, List.map_cons, List.map_append, List.map_map, Entries.keys]
  rfl

theorem mem_unlessEmpty {α : Type} {entries : List α} {file f : SourceFile}
    (h : f ∈ unlessEmpty entries file) : f = file := by
  unfold unlessEmpty at h
  split at h
  · cases h
  · exact List.mem_singleton.mp h

theorem nodup_unlessEmpty {α : Type} (entries : List α) (file : SourceFile) :
    ((unlessEmpty entries file).map (·.name)).Nodup := by
  unfold unlessEmpty
  split
  · exact .nil
  · exact List.nodup_singleton _

theorem stem_accessFiles {c : ResolvedMap} :
    ∀ n ∈ (accessFiles c).map (·.name), stem n = stem "mm_access.h" := by
  by_cases h : c.metadata.users = []
  · simp [accessFiles, h]
  · rw [names_accessFiles h]
    intro n hn
    simp only [List.mem_append, List.mem_cons, List.mem_flatMap, List.not_mem_nil, or_false] at hn
    rcases hn with (rfl | ⟨name, _, rfl | rfl⟩) | rfl
    · rfl
    · exact take_affixed (by decide)
    · exact take_affixed (by decide)
    · rfl

theorem stem_defaultFiles {c : ResolvedMap} :
    ∀ n ∈ (defaultFiles c).map (·.name), stem n = stem "mm_default.h" := by
  rw [names_defaultFiles]
  intro n hn
  simp only [List.mem_cons, List.mem_flatMap, List.not_mem_nil, or_false] at hn
  obtain ⟨name, _, rfl | rfl⟩ := hn
  · exact take_affixed (by decide)
  · exact take_affixed (by decide)

theorem stem_typeFiles {c : ResolvedMap} :
    ∀ n ∈ (typeFiles c).map (·.name), stem n = stem "mm_typedefs.h" := by
  rw [names_typeFiles]
  intro n hn
  rcases List.mem_cons.mp hn with rfl | hn
  · rfl
  · obtain ⟨name, _, rfl⟩ := List.mem_map.mp hn
    exact take_affixed (by decide)

theorem stem_unlessEmpty {α : Type} {entries : List α} {file : SourceFile} {name : String}
    (h : file.name = name) : ∀ n ∈ (unlessEmpty entries file).map (·.name), stem n = stem name := by
  intro n hn
  obtain ⟨f, hf, rfl⟩ := List.mem_map.mp hn
  rw [mem_unlessEmpty hf, h]

theorem stem_families {c : ResolvedMap} : ∀ p ∈ families c, ∀ n ∈ p.2, stem n = p.1 := by
  simp only [families, List.forall_mem_cons, List.not_mem_nil, false_implies, implies_true, and_true,
    true_and]
  exact ⟨stem_accessFiles, stem_unlessEmpty rfl, stem_defaultFiles, stem_unlessEmpty rfl,
    stem_typeFiles, stem_unlessEmpty rfl⟩

theorem nodup_names_iff (c : ResolvedMap) (hide : Bool) : ((writes c hide).map (·.1)).Nodup ↔
    ((accessFiles c).map (·.name)).Nodup ∧ ((defaultFiles c).map (·.name)).Nodup ∧
      ((typeFiles c).map (·.name)).Nodup := by
  have distinct : ((families c).map (·.1)).Nodup := by
    simp only [families, List.map_cons, List.map_nil]
    decide
  rw [names_eq, nodup_flatten_of_stems stem_families distinct]
  simp only [families, List.forall_mem_cons, List.not_mem_nil, false_implies, implies_true, and_true,
    nodup_unlessEmpty, List.nodup_singleton, true_and]

theorem nodup_accessFiles (c : ResolvedMap) : ((accessFiles c).map (·.name)).Nodup ↔
    (c.metadata.users ≠ [] → (c.maps.map lowerName).Nodup ∧ "types" ∉ c.maps.map lowerName) := by
  by_cases h : c.metadata.users = []
  · simp [accessFiles, h]
  · have apart : ∀ name stop, "mm_access.h" ≠ affixed "mm_access_" stop name := by
      intro name stop heq
      have hstart := congrArg (fun s => s.toList.take 10) heq
      rw [take_affixed (by decide)] at hstart
      exact absurd hstart (by decide)
    have sources : ∀ a b, affixed "mm_access_" ".h" a ≠ affixed "mm_access_" ".c" b :=
      fun _ _ => affixed_ne_of_last (by decide) (by decide) (by decide)
    rw [names_accessFiles h, List.nodup_append', List.nodup_cons,
      nodup_flatMap_pair (affixed_injective _ _) (affixed_injective _ _) sources]
    simp [h, apart, sources, (affixed_injective _ _).eq_iff, and_comm]

theorem nodup_defaultFiles (c : ResolvedMap) : ((defaultFiles c).map (·.name)).Nodup ↔
    ((c.maps.filter fun f => !(defaultLines f).isEmpty).map lowerName).Nodup := by
  rw [names_defaultFiles, nodup_flatMap_pair (affixed_injective _ _) (affixed_injective _ _)]
  exact fun _ _ => affixed_ne_of_last (by decide) (by decide) (by decide)

theorem typesHeader_ne_affixed (name : String) : "mm_typedefs.h" ≠ affixed "mm_typedefs_" ".h" name := by
  intro heq
  have hstart := congrArg (fun s => s.toList.take 12) heq
  rw [take_affixed (by decide)] at hstart
  exact absurd hstart (by decide)

theorem nodup_typeFiles (c : ResolvedMap) : ((typeFiles c).map (·.name)).Nodup ↔
    (c.typedefs.keys ++ c.maps.map (·.name)).Nodup := by
  have apart : "mm_typedefs.h" ∉
      (c.typedefs.keys ++ c.maps.map (·.name)).map (affixed "mm_typedefs_" ".h") := by
    intro hmem
    obtain ⟨name, _, heq⟩ := List.mem_map.mp hmem
    exact typesHeader_ne_affixed name heq.symm
  rw [names_typeFiles, List.nodup_cons, List.nodup_map_iff (affixed_injective _ _)]
  exact and_iff_right apart

/-- Typedefs and maps have different names, and where a map has files of its own they have different
    names as well. -/
structure Separate (c : ResolvedMap) : Prop where
  types : (c.typedefs.keys ++ c.maps.map (·.name)).Nodup
  access : c.metadata.users ≠ [] → (c.maps.map lowerName).Nodup ∧ "types" ∉ c.maps.map lowerName
  defaults : ((c.maps.filter fun f => !(defaultLines f).isEmpty).map lowerName).Nodup

theorem complete_iff (c : ResolvedMap) (hide : Bool) : FileSet.Complete (writes c hide) ↔ Separate c := by
  rw [FileSet.complete_iff_nodup, nodup_names_iff, nodup_accessFiles, nodup_defaultFiles, nodup_typeFiles]
  constructor
  · rintro ⟨haccess, hdefaults, htypes⟩
    exact ⟨htypes, haccess, hdefaults⟩
  · rintro ⟨htypes, haccess, hdefaults⟩
    exact ⟨haccess, hdefaults, htypes⟩

end Header

def Description.shadowed : Description where
  sections := [
    ("metadata", .object [("app_name", .string "board"), ("default_type", .string "uint8_t")]),
    ("typedefs", .object [("pair", .object [("elements", .array [
      .object [("name", .string "first")], .object [("name", .string "second")]])])]),
    ("generated_maps", .object [("pair", .object [("type", .string "pair")])])]

namespace Header

open Resolution

theorem finished_shadowed : (finished .shadowed).error.isNone ∧ (finished .shadowed).state.metadata.isSome ∧
    (inOrder (finished .shadowed).state.typedefOrder (finished .shadowed).state.typedefs).keys ++
      (finished .shadowed).state.maps.map (·.name) = ["pair", "pair"] := by
  decide +kernel

/-- The union of the typedef is lost. -/
theorem shadowed_incomplete : ∃ c, resolve .shadowed = .ok c ∧ ∀ hide, ¬ FileSet.Complete (writes c hide) := by
  obtain ⟨hnone, hmeta, hnames⟩ := finished_shadowed
  obtain ⟨c, _, hc, rfl⟩ := resolves_of_finished hnone hmeta
  refine ⟨_, hc, fun hide hcomplete => ?_⟩
  have types : ((inOrder (finished .shadowed).state.typedefOrder
        (finished .shadowed).state.typedefs).keys ++
      (finished .shadowed).state.maps.map (·.name)).Nodup :=
    ((complete_iff _ hide).mp hcomplete).types
  rw [hnames] at types
  exact absurd types (by decide)

end Header

end AddressMap
