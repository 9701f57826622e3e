import AddressMap.Proofs.Header.Includes

set_option autoImplicit false

namespace AddressMap

namespace Header

def guardChars (cs : List Char) : List Char :=
  (cs.flatMap Text.upperChar).map fun c => if c == '.' then '_' else c

theorem toList_guardName (name : String) : (guardName name).toList = guardChars name.toList := by
  rw [guardName, Text.upper, String.toList_ofList, String.toList_ofList, guardChars]

theorem guardChars_append (cs ds : List Char) : guardChars (cs ++ ds) = guardChars cs ++ guardChars ds := by
  rw [guardChars, List.flatMap_append, List.map_append]
  rfl

theorem guardName_eq_iff {a b : String} :
    guardName a = guardName b ↔ guardChars a.toList = guardChars b.toList := by
  rw [← String.toList_inj, toList_guardName, toList_guardName]

theorem guardName_affixed {start stop a b : String} :
    guardName (affixed start stop a) = guardName (affixed start stop b) ↔ guardName a = guardName b := by
  rw [guardName_eq_iff, guardName_eq_iff]
  simp only [toList_affixed, guardChars_append, List.append_cancel_left_eq, List.append_cancel_right_eq]

theorem guardChars_begins {name : String} {start : List Char} (h : start <+: name.toList) :
    guardChars start <+: (guardName name).toList := by
  obtain ⟨rest, heq⟩ := h
  rw [toList_guardName, ← heq, guardChars_append]
  exact List.prefix_append _ _

/-- A short guard is none of those that are made of more characters around a name. -/
theorem guardName_affixed_ne {start stop other : String}
    (h : (guardName other).toList.length < (guardChars start.toList).length + (guardChars stop.toList).length)
    (name : String) : guardName (affixed start stop name) ≠ guardName other := by
  intro heq
  rw [← heq, toList_guardName, toList_affixed, guardChars_append, guardChars_append, List.length_append,
    List.length_append] at h
  omega

theorem isHeader_iff {file : String} : isHeader file ↔ ".h".toList <:+ file.toList := by
  rw [isHeader, ← String.endsWith_toSlice, String.Slice.endsWith_string_iff]
  simp

theorem isHeader_affixed (start name : String) : isHeader (affixed start ".h" name) := by
  rw [isHeader_iff, toList_affixed, ← List.append_assoc]
  exact List.suffix_append _ _

theorem not_isHeader_affixed (start name : String) : ¬isHeader (affixed start ".c" name) := by
  rw [isHeader_iff, toList_affixed, ← List.append_assoc]
  rintro ⟨front, heq⟩
  have last := congrArg List.getLast? heq
  rw [List.getLast?_append_of_ne_nil _ (by decide), List.getLast?_append_of_ne_nil _ (by decide)] at last
  exact absurd last (by decide)

theorem filter_isHeader_pairs (start : String) (names : List String) :
    (names.flatMap fun name => [affixed start ".h" name, affixed start ".c" name]).filter isHeader =
      names.map (affixed start ".h") := by
  induction names with
  | nil => rfl
  | cons name rest ih =>
    rw [List.flatMap_cons, List.filter_append, ih,
      List.filter_cons_of_pos (isHeader_affixed start name),
      List.filter_cons_of_neg (not_isHeader_affixed start name)]
    rfl

theorem filter_isHeader_map (start : String) (names : List String) :
    (names.map (affixed start ".h")).filter isHeader = names.map (affixed start ".h") := by
  refine List.filter_eq_self.mpr fun name hname => ?_
  obtain ⟨key, _, rfl⟩ := List.mem_map.mp hname
  exact isHeader_affixed start key

def Apart (names : List String) : Prop := ∀ a ∈ names, ∀ b ∈ names, guardName a = guardName b → a = b

theorem Apart.subset {names others : List String} (h : Apart names) (hs : others ⊆ names) : Apart others :=
  fun a ha b hb => h a (hs ha) b (hs hb)

theorem apart_congr {names others : List String} (h : names.Perm others) : Apart names ↔ Apart others :=
  ⟨fun happart => happart.subset h.symm.subset, fun happart => happart.subset h.subset⟩

theorem apart_map_affixed (start stop : String) (names : List String) :
    Apart (names.map (affixed start stop)) ↔ Apart names := by
  simp only [Apart, List.forall_mem_map, guardName_affixed, (affixed_injective start stop).eq_iff]

theorem apart_singleton (name : String) : Apart [name] := by
  intro a ha b hb _
  rw [List.mem_singleton.mp ha, List.mem_singleton.mp hb]

theorem apart_cons {name : String} {names : List String}
    (h : ∀ other ∈ names, guardName other ≠ guardName name) : Apart (name :: names) ↔ Apart names := by
  refine ⟨fun happart => happart.subset (List.subset_cons_self _ _), fun happart => ?_⟩
  intro a ha b hb heq
  rcases List.mem_cons.mp ha with hfirst | ha <;> rcases List.mem_cons.mp hb with hsecond | hb
  · rw [hfirst, hsecond]
  · exact absurd (hfirst ▸ heq.symm) (h b hb)
  · exact absurd (hsecond ▸ heq) (h a ha)
  · exact happart a ha b hb heq

theorem apart_cons_affixed {name start stop : String}
    (h : (guardName name).toList.length < (guardChars start.toList).length + (guardChars stop.toList).length)
    (names : List String) : Apart (name :: names.map (affixed start stop)) ↔ Apart names := by
  rw [apart_cons, apart_map_affixed]
  intro other hother
  obtain ⟨key, _, rfl⟩ := List.mem_map.mp hother
  exact guardName_affixed_ne h key

section Run

variable (c : ResolvedMap) (hide : Bool)

def headers : List String := (files c hide).keys.filter isHeader

/-- The names that share a file, or that files are named by, have guards that are apart. -/
structure Unmerged : Prop where
  types : Apart (c.typedefs.keys ++ c.maps.map (·.name))
  access : c.metadata.users ≠ [] → Apart ("types" :: c.maps.map lowerName)
  defaults : Apart ((c.maps.filter fun f => !(defaultLines f).isEmpty).map lowerName)

end Run

variable {c : ResolvedMap} {hide : Bool}

theorem mem_headers {name : String} :
    name ∈ headers c hide ↔ ∃ p ∈ families c, name ∈ p.2.filter isHeader := by
  rw [headers, List.mem_filter, mem_keys_files, Named, ← names_writes c hide, names_eq]
  simp only [List.mem_flatten, List.mem_map, List.mem_filter]
  constructor
  · rintro ⟨⟨_, ⟨p, hp, rfl⟩, hname⟩, hheader⟩
    exact ⟨p, hp, hname, hheader⟩
  · rintro ⟨p, hp, hname, hheader⟩
    exact ⟨⟨_, ⟨p, hp, rfl⟩, hname⟩, hheader⟩

theorem stems_apart : (∀ p ∈ families c, (guardChars p.1).length = 7) ∧
    ((families c).map fun p => guardChars p.1).Nodup := by
  simp only [families, List.forall_mem_cons, List.map_cons, List.map_nil, List.not_mem_nil, false_implies,
    implies_true, and_true]
  decide

theorem family_of_guard {p q : List Char × List String} (hp : p ∈ families c) (hq : q ∈ families c)
    {a b : String} (ha : a ∈ p.2) (hb : b ∈ q.2) (h : guardName a = guardName b) : p = q := by
  obtain ⟨lengths, distinct⟩ := stems_apart (c := c)
  have starts : ∀ p ∈ families c, ∀ name ∈ p.2, (guardName name).toList.take 7 = guardChars p.1 := by
    intro p hp name hname
    have hstem : p.1 <+: name.toList := stem_families p hp name hname ▸ List.take_prefix _ _
    rw [← lengths p hp]
    exact (List.prefix_iff_eq_take.mp (guardChars_begins hstem)).symm
  refine List.inj_on_of_nodup_map distinct hp hq ?_
  rw [← starts p hp a ha, ← starts q hq b hb, h]

theorem apart_headers_iff :
    Apart (headers c hide) ↔ ∀ p ∈ families c, Apart (p.2.filter isHeader) := by
  constructor
  · intro h p hp
    exact h.subset fun name hname => mem_headers.mpr ⟨p, hp, hname⟩
  · intro h a ha b hb heq
    obtain ⟨p, hp, hap⟩ := mem_headers.mp ha
    obtain ⟨q, hq, hbq⟩ := mem_headers.mp hb
    obtain rfl := family_of_guard hp hq (List.mem_of_mem_filter hap) (List.mem_of_mem_filter hbq) heq
    exact h p hp a hap b hbq heq

theorem apart_unlessEmpty {α : Type} {entries : List α} {file : SourceFile} :
    Apart (((unlessEmpty entries file).map (·.name)).filter isHeader) := by
  refine (apart_singleton file.name).subset fun name hname => ?_
  obtain ⟨f, hf, rfl⟩ := List.mem_map.mp (List.mem_of_mem_filter hname)
  rw [mem_unlessEmpty hf]
  exact List.mem_singleton_self _

theorem apart_accessFiles : Apart (((accessFiles c).map (·.name)).filter isHeader) ↔
    (c.metadata.users ≠ [] → Apart ("types" :: c.maps.map lowerName)) := by
  by_cases h : c.metadata.users = []
  · simp [accessFiles, h, Apart]
  · have names : ((accessFiles c).map (·.name)).filter isHeader =
        ("types" :: c.maps.map lowerName).map (affixed "mm_access_" ".h") ++ ["mm_access.h"] := by
      have own : isHeader "mm_access.h" := isHeader_iff.mpr ⟨"mm_access".toList, by decide⟩
      rw [names_accessFiles h, List.filter_append, List.filter_cons_of_pos (isHeader_affixed _ _),
        filter_isHeader_pairs, List.filter_cons_of_pos own]
      rfl
    have order := List.perm_append_singleton "mm_access.h"
      (("types" :: c.maps.map lowerName).map (affixed "mm_access_" ".h"))
    rw [names, apart_congr order, apart_cons_affixed (by decide)]
    exact (imp_iff_right h).symm

theorem apart_defaultFiles : Apart (((defaultFiles c).map (·.name)).filter isHeader) ↔
    Apart ((c.maps.filter fun f => !(defaultLines f).isEmpty).map lowerName) := by
  rw [names_defaultFiles, filter_isHeader_pairs, apart_map_affixed]

theorem apart_typeFiles : Apart (((typeFiles c).map (·.name)).filter isHeader) ↔
    Apart (c.typedefs.keys ++ c.maps.map (·.name)) := by
  have own : isHeader "mm_typedefs.h" := isHeader_iff.mpr ⟨"mm_typedefs".toList, by decide⟩
  rw [names_typeFiles, List.filter_cons_of_pos own, filter_isHeader_map,
    apart_cons_affixed (by decide)]

theorem apart_iff_unmerged : Apart (headers c hide) ↔ Unmerged c := by
  have single : ∀ name : String, Apart ([name].filter isHeader) := fun name =>
    (apart_singleton name).subset (List.filter_subset_self _)
  rw [apart_headers_iff]
  simp only [families, List.forall_mem_cons, List.not_mem_nil, false_implies, implies_true, and_true,
    apart_unlessEmpty, apart_accessFiles, apart_defaultFiles, apart_typeFiles, single, true_and]
  constructor
  · rintro ⟨haccess, hdefaults, htypes⟩
    exact ⟨htypes, haccess, hdefaults⟩
  · rintro ⟨htypes, haccess, hdefaults⟩
    exact ⟨haccess, hdefaults, htypes⟩

/-- Behind its banner, a header is skipped if its guard is defined, and else defines it. All parts of the
    header stand in between. -/
def Guarded (b : Banner) (f : SourceFile) : Prop :=
  ∃ contents, f.lines b = b.lines f ++ s!"#ifndef {guardName f.name}" :: s!"#define {guardName f.name}" ::
      (contents ++ [s!"#endif /* {guardName f.name} */"]) ∧
    ∀ p ∈ f.parts, p.title :: p.lines <:+: contents

theorem guarded_of_isHeader (b : Banner) {f : SourceFile} (h : isHeader f.name) : Guarded b f := by
  refine ⟨(guardOpening (guardName f.name)).drop 2 ++ f.parts.flatMap (fun p => "" :: p.title :: p.lines) ++
    (guardClosing (guardName f.name)).dropLast, ?_, fun p hp => ?_⟩
  · simp [SourceFile.lines, h, guardOpening, guardClosing]
  · have own : p.title :: p.lines <:+: "" :: p.title :: p.lines := (List.suffix_cons _ _).isInfix
    have all : "" :: p.title :: p.lines <:+: f.parts.flatMap (fun p => "" :: p.title :: p.lines) :=
      List.infix_of_mem_flatten (List.mem_map_of_mem hp)
    exact (own.trans all).trans ⟨_, _, rfl⟩

/-- The headers whose contents are read, of those that are met in turn, with the guards that are defined
    already. -/
def admitted : List String → List String → List String
  | _, [] => []
  | guards, header :: rest =>
    if guardName header ∈ guards then admitted guards rest
    else header :: admitted (guardName header :: guards) rest

theorem admitted_subset (guards order : List String) : admitted guards order ⊆ order := by
  induction order generalizing guards with
  | nil => exact List.Subset.refl _
  | cons header rest ih =>
    rw [admitted]
    split
    · exact List.subset_cons_of_subset _ (ih _)
    · exact List.cons_subset_cons _ (ih _)

/-- Of a header that is met, the guard was defined before, or a header of this guard is read. -/
theorem guard_mem_admitted {header : String} {order : List String} (guards : List String) (h : header ∈ order) :
    guardName header ∈ guards ∨ ∃ other ∈ admitted guards order, guardName other = guardName header := by
  induction order generalizing guards with
  | nil => cases h
  | cons first rest ih =>
    rw [admitted]
    rcases List.mem_cons.mp h with rfl | hrest <;> split
    · rename_i hdefined
      exact .inl hdefined
    · exact .inr ⟨header, List.mem_cons_self, rfl⟩
    · exact ih guards hrest
    · rcases ih (guardName first :: guards) hrest with hguards | ⟨other, hother, heq⟩
      · rcases List.mem_cons.mp hguards with heq | hguards
        · exact .inr ⟨first, List.mem_cons_self, heq.symm⟩
        · exact .inl hguards
      · exact .inr ⟨other, List.mem_cons_of_mem _ hother, heq⟩

/-- In whatever order headers are met, all of them are read exactly if their guards are apart. -/
theorem admitted_all_iff_apart {names : List String} :
    (∀ order ⊆ names, ∀ header ∈ order, header ∈ admitted [] order) ↔ Apart names := by
  constructor
  · intro h a ha b hb heq
    have pair : [a, b] ⊆ names := by simp [ha, hb]
    have hadmitted := h [a, b] pair b (by simp)
    have skipped : admitted [] [a, b] = [a] := by simp [admitted, heq]
    rw [skipped] at hadmitted
    exact (List.mem_singleton.mp hadmitted).symm
  · intro h order horder header hheader
    rcases guard_mem_admitted [] hheader with hnil | ⟨other, hother, heq⟩
    · cases hnil
    · rwa [← h other (horder (admitted_subset _ _ hother)) header (horder hheader) heq]

end Header

/-- A map with the name of its typedef in upper case. -/
def Description.recased : Description where
  sections := [
    ("metadata", .object [("app_name", .string "board"), ("default_type", .string "uint8_t")]),
    ("typedefs", .object [("pair", .object [("elements", .array [
      .object [("name", .string "first")], .object [("name", .string "second")]])])]),
    ("generated_maps", .object [("PAIR", .object [("type", .string "pair")])])]

namespace Header

open Resolution

theorem finished_recased : (finished .recased).error.isNone ∧ (finished .recased).state.metadata.isSome ∧
    (inOrder (finished .recased).state.typedefOrder (finished .recased).state.typedefs).keys = ["pair"] ∧
    (finished .recased).state.maps.map (·.name) = ["PAIR"] := by
  decide +kernel

end Header

end AddressMap
