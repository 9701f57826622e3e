import AddressMap.Proofs.Header.Files
import AddressMap.Proofs.Record.Right
import AddressMap.Sheet

set_option autoImplicit false

namespace AddressMap

variable {patterns : PatternReader}

theorem append_cons_inj_of_last {α : Type} {a : α} {xs ys front back : List α} (hf : a ∉ front) (hb : a ∉ back) :
    xs ++ a :: front = ys ++ a :: back ↔ xs = ys ∧ front = back := by
  constructor
  · intro h
    rcases List.append_eq_append_iff.mp h with ⟨between, rfl, heq⟩ | ⟨between, rfl, heq⟩
    · cases between with
      | nil => exact ⟨(List.append_nil _).symm, (List.cons.inj heq).2⟩
      | cons b rest =>
        obtain ⟨-, rfl⟩ := List.cons.inj heq
        exact absurd (List.mem_append_right _ List.mem_cons_self) hf
    · cases between with
      | nil => exact ⟨List.append_nil _, (List.cons.inj heq).2.symm⟩
      | cons b rest =>
        obtain ⟨-, rfl⟩ := List.cons.inj heq
        exact absurd (List.mem_append_right _ List.mem_cons_self) hb
  · rintro ⟨rfl, rfl⟩
    rfl

theorem isAlphanum_of_mem_hexByte {b : UInt32} {c : Char} (h : c ∈ Digest.Blake3.hexByte b) : c.isAlphanum := by
  have digit : ∀ n < 16, (Nat.digitChar n).isAlphanum := by decide
  have high : b.toNat % 256 / 16 < 16 := by omega
  have low : b.toNat % 256 % 16 < 16 := by omega
  simp only [Digest.Blake3.hexByte, Nat.toDigits_of_lt_base high, Nat.toDigits_of_lt_base low, List.mem_append,
    List.mem_singleton] at h
  rcases h with rfl | rfl
  · exact digit _ high
  · exact digit _ low

theorem isAlphanum_of_mem_fingerprint {v : Value} {c : Char} (h : c ∈ (Fingerprint.ofValue v).toList) :
    c.isAlphanum := by
  rw [Fingerprint.ofValue, String.toList_ofList] at h
  have inside := List.mem_of_mem_take h
  rw [Digest.Blake3.hash, String.toList_ofList] at inside
  obtain ⟨w, -, hw⟩ := List.mem_flatMap.mp inside
  simp only [Digest.Blake3.hexWord, List.mem_append] at hw
  rcases hw with ((hb | hb) | hb) | hb <;> exact isAlphanum_of_mem_hexByte hb

namespace Metadata

theorem versionPart?_chars {part : List Char} {n : Nat} (h : versionPart? part = some n) :
    ∀ c ∈ part, c = '+' ∨ c.isDigit := by
  have digits : ∀ {ds : List Char} {x : Option Nat},
      (if ds.isEmpty || !ds.all Char.isDigit then none else x) = some n → ∀ c ∈ ds, c.isDigit := by
    intro ds x hx
    split at hx
    · cases hx
    · rename_i hds
      simp only [Bool.or_eq_true, Bool.not_eq_true', not_or, Bool.not_eq_false] at hds
      exact List.all_eq_true.mp hds.2
  unfold versionPart? at h
  dsimp only at h
  split at h
  · exact List.forall_mem_cons.mpr ⟨.inl rfl, fun c hc => .inr (digits h c hc)⟩
  · exact fun c hc => .inr (digits h c hc)

theorem resolve_version {es : Props} {m : Metadata} (h : resolve es = .ok m) : (version? m.version).isSome := by
  obtain ⟨d, _, parts, hparts, type, _, hchecked⟩ := resolve_eq_ok.mp h
  obtain ⟨_, _, _, _, rfl⟩ := MetadataDecl.checked_eq_ok.mp hchecked
  exact Option.isSome_of_eq_some hparts

theorem version?_parts {s : String} (h : (version? s).isSome) : ∃ major minor patch : List Char,
    s.toList = major ++ '.' :: (minor ++ '.' :: patch) ∧
      ∀ part ∈ [major, minor, patch], ∀ c ∈ part, c = '+' ∨ c.isDigit := by
  unfold version? at h
  split at h
  · rename_i major minor patch hparts
    rcases hs : s.toList.splitOn '.' with _ | ⟨a, _ | ⟨b, _ | ⟨p, _ | ⟨q, rest⟩⟩⟩⟩
    all_goals simp [hs, List.mapM_cons, Option.bind_eq_some_iff] at hparts
    obtain ⟨ha, hb, hp⟩ := hparts
    have joined : ['.'].intercalate [a, b, p] = s.toList := hs ▸ List.intercalate_splitOn '.'
    refine ⟨a, b, p, ?_, ?_⟩
    · rw [← joined]
      simp [List.intercalate, List.intersperse]
    · simp only [List.forall_mem_cons, List.not_mem_nil, false_implies, implies_true, and_true]
      exact ⟨versionPart?_chars ha, versionPart?_chars hb, versionPart?_chars hp⟩
  · cases h

theorem version?_last {s : String} (h : (version? s).isSome) :
    ∃ front last : String, s = s!"{front}.{last}" ∧ '.' ∉ last.toList ∧ '_' ∉ last.toList := by
  obtain ⟨major, minor, patch, hs, chars⟩ := version?_parts h
  have last := chars patch (by simp)
  refine ⟨.ofList (major ++ '.' :: minor), .ofList patch, String.toList_inj.mp ?_, ?_, ?_⟩
  · change s.toList = (String.ofList (major ++ '.' :: minor) ++ "." ++ String.ofList patch).toList
    rw [hs, String.toList_append, String.toList_append, String.toList_ofList, String.toList_ofList]
    simp
  · rw [String.toList_ofList]
    exact fun hmem => absurd (last '.' hmem) (by decide)
  · rw [String.toList_ofList]
    exact fun hmem => absurd (last '_' hmem) (by decide)

end Metadata

namespace Resolution

theorem resolve_read {d : Description} {c : ResolvedMap} (h : resolve d patterns = .ok c) :
    ∃ read, Metadata.resolve (d.entries .metadata) = .ok read ∧ c.metadata = { read with
      fullHash := Fingerprint.ofValue (recordTable (fun _ => true) c.maps)
      fwHash := Fingerprint.ofValue (recordTable isLayoutKey c.maps)
      swHash := Fingerprint.ofValue (recordTable isDocumentedKey c.maps) } := by
  obtain ⟨r₈, r₉, hdone, hprint, rfl⟩ := resolve_eq_ok.mp h
  obtain ⟨r₁, r₂, r₃, r₄, r₅, r₆, r₇, h₁, h₂, h₃, h₄, h₅, h₆, h₇, h₈⟩ := finished_eq_done hdone
  have kept := finished_metadata h₃ h₄ h₅ h₆ h₇ h₈
  obtain ⟨m, hm, rfl⟩ := addFingerprints_eq_done hprint
  have before : r₁.metadata = none := (addDefines_beside h₁).metadata
  rw [hm] at kept
  rcases addMetadata_eq_done h₂ with rfl | ⟨read, hread, rfl⟩
  · rw [before] at kept
    cases kept
  · cases kept
    refine ⟨m, hread, ?_⟩
    simp only [finish, Option.getD_some]

theorem resolve_metadata {d : Description} {c : ResolvedMap} (h : resolve d patterns = .ok c) :
    (Metadata.version? c.metadata.version).isSome ∧
      c.metadata.fullHash = Fingerprint.ofValue (recordTable (fun _ => true) c.maps) := by
  obtain ⟨read, hread, heq⟩ := resolve_read h
  simp only [heq, and_true]
  exact Metadata.resolve_version hread

end Resolution

namespace Sheet

/-- The name of a sheet: what it says of a map stands in the middle, and the hash or the version behind it. -/
def named (app base tail : String) : String := s!"mm_{app}_{base}_{tail}.csv"

theorem toList_named (app base tail : String) : (named app base tail).toList =
    ("mm_" ++ app ++ "_").toList ++ ((base.toList ++ '_' :: tail.toList) ++ ".csv".toList) := by
  change ("mm_" ++ app ++ "_" ++ base ++ "_" ++ tail ++ ".csv").toList = _
  simp

theorem named_inj {app base tail base' tail' : String} : named app base tail = named app base' tail' ↔
    base.toList ++ '_' :: tail.toList = base'.toList ++ '_' :: tail'.toList := by
  rw [← String.toList_inj, toList_named, toList_named, List.append_cancel_left_eq, List.append_cancel_right_eq]

theorem named_injective (app tail : String) : (named app · tail).Injective := by
  intro base base' h
  exact String.toList_inj.mp (List.append_cancel_right (named_inj.mp h))

theorem fileVersion_last {front last : String} (h : '.' ∉ last.toList) :
    (fileVersion s!"{front}.{last}").toList = (fileVersion front).toList ++ '_' :: last.toList := by
  have same : last.toList.map (fun c => if c == '.' then '_' else c) = last.toList := by
    refine (List.map_congr_left fun c hc => if_neg fun heq => h ?_).trans (List.map_id _)
    exact beq_iff_eq.mp heq ▸ hc
  change (fileVersion (front ++ "." ++ last)).toList = _
  simp only [fileVersion, String.toList_append, String.toList_ofList, List.map_append, same]
  rw [List.append_assoc]
  rfl

def names (c : ResolvedMap) : List String := c.maps.map (·.name)

def compressedNames (c : ResolvedMap) : List String := (names c).map fun name => s!"{name}_compressed"

def readers (c : ResolvedMap) (f : FlatMap) : Entries Nat :=
  (Metadata.userBits c.metadata.users).filter fun u => (f.folded.map Record.toProps).any (readableBy (16 * u.2))

def readNamesOf (c : ResolvedMap) (f : FlatMap) : List String := (readers c f).map fun u => s!"{f.name}_{u.1}"

def readNames (c : ResolvedMap) : List String :=
  c.maps.flatMap (readNamesOf c)

def hashed (c : ResolvedMap) (base : String) : String := named c.metadata.appName base c.metadata.fullHash

def versioned (c : ResolvedMap) (base : String) : String :=
  named c.metadata.appName base (fileVersion c.metadata.version)

theorem readable_isSome {objects foldedObjects : List Props} {bit : Nat} :
    (readable objects foldedObjects bit).isSome = foldedObjects.any (readableBy bit) := by
  unfold readable
  dsimp only
  rw [Bool.eq_iff_iff, List.any_eq_true]
  split
  · rename_i h
    simp only [List.isEmpty_iff, List.filter_eq_nil_iff] at h
    simpa using h
  · rename_i h
    simp only [List.isEmpty_iff, List.filter_eq_nil_iff] at h
    simpa using h

theorem toList_underscored (base ending : String) :
    (s!"{base}_{ending}" : String).toList = base.toList ++ '_' :: ending.toList := by
  change (base ++ "_" ++ ending).toList = _
  simp

def mapStart (app name : String) : String := s!"mm_{app}_{name}"

theorem named_of_map (app name ending tail : String) :
    s!"{mapStart app name}_{ending}_{tail}.csv" = named app s!"{name}_{ending}" tail := by
  apply String.toList_inj.mp
  rw [toList_named, toList_underscored]
  change ("mm_" ++ app ++ "_" ++ name ++ "_" ++ ending ++ "_" ++ tail ++ ".csv").toList = _
  simp

theorem named_compressed (app name tail : String) :
    s!"{mapStart app name}_compressed_{tail}.csv" = named app s!"{name}_compressed" tail := by
  apply String.toList_inj.mp
  rw [toList_named]
  change ("mm_" ++ app ++ "_" ++ name ++ "_compressed_" ++ tail ++ ".csv").toList =
    _ ++ (((name ++ "_compressed").toList ++ _) ++ _)
  simp

theorem hashed_injective (c : ResolvedMap) : (hashed c).Injective := named_injective _ _

theorem versioned_injective (c : ResolvedMap) : (versioned c).Injective := named_injective _ _

theorem names_readWrites (c : ResolvedMap) (f : FlatMap) (users : Entries Nat) :
    (users.filterMap fun u =>
      (readable (f.records.map Record.toProps) (f.folded.map Record.toProps) (16 * u.2)).map fun text =>
        (s!"{mapStart c.metadata.appName f.name}_{u.1}_{c.metadata.fullHash}.csv", text)).map (·.1) =
    ((users.filter fun u => (f.folded.map Record.toProps).any (readableBy (16 * u.2))).map fun u =>
      s!"{f.name}_{u.1}").map (hashed c) := by
  induction users with
  | nil => rfl
  | cons u rest ih =>
    rw [List.filter_cons, ← readable_isSome, List.filterMap_cons]
    cases readable (f.records.map Record.toProps) (f.folded.map Record.toProps) (16 * u.2) with
    | none => exact ih
    | some text => exact congrArg₂ List.cons (named_of_map c.metadata.appName f.name u.1 c.metadata.fullHash) ih

theorem names_mapWrites (c : ResolvedMap) (f : FlatMap) : ((mapWrites c.metadata f).map (·.1)).Perm
    ((hashed c f.name :: (readNamesOf c f).map (hashed c)) ++
      [versioned c f.name, versioned c s!"{f.name}_compressed"]) := by
  have read := names_readWrites c f (Metadata.userBits c.metadata.users)
  have compressed := named_compressed c.metadata.appName f.name (fileVersion c.metadata.version)
  have order : (mapWrites c.metadata f).map (·.1) = hashed c f.name ::
      ([versioned c f.name, versioned c s!"{f.name}_compressed"] ++ (readNamesOf c f).map (hashed c)) := by
    rw [versioned, versioned, ← compressed, mapWrites, List.map_append]
    exact congrArg _ read
  rw [order]
  exact (List.perm_append_comm).cons _

theorem names_writes (c : ResolvedMap) : ((writes c).map (·.1)).Perm
    ((names c ++ readNames c).map (hashed c) ++ (names c ++ compressedNames c).map (versioned c)) := by
  have hashes : (c.maps.flatMap fun f => hashed c f.name :: (readNamesOf c f).map (hashed c)).Perm
      ((names c ++ readNames c).map (hashed c)) := by
    have split := List.flatMap_append_perm c.maps (fun f => [hashed c f.name]) fun f => (readNamesOf c f).map (hashed c)
    rw [← List.map_eq_flatMap] at split
    rw [List.map_append, names, List.map_map, readNames, List.map_flatMap]
    exact split.symm
  have versions : (c.maps.flatMap fun f => [versioned c f.name, versioned c s!"{f.name}_compressed"]).Perm
      ((names c ++ compressedNames c).map (versioned c)) := by
    have split := List.flatMap_append_perm c.maps (fun f => [versioned c f.name]) fun f =>
      [versioned c s!"{f.name}_compressed"]
    rw [← List.map_eq_flatMap, ← List.map_eq_flatMap] at split
    rw [List.map_append, compressedNames, names, List.map_map, List.map_map, List.map_map]
    exact split.symm
  rw [writes, List.map_flatMap]
  exact ((List.Perm.flatMap_left _ fun f _ => names_mapWrites c f).trans
    (List.flatMap_append_perm _ _ _).symm).trans (hashes.append versions)

/-- Maps stay apart from each other, from the compressed maps and from the maps as users read them. Should
    the version end in the very hash, this holds with the rest of the version as well. -/
structure Separate (c : ResolvedMap) : Prop where
  compressed : (names c ++ compressedNames c).Nodup
  read : (names c ++ readNames c).Nodup
  version : ∀ front, c.metadata.version = s!"{front}.{c.metadata.fullHash}" → ∀ x ∈ names c ++ readNames c,
    ∀ y ∈ names c ++ compressedNames c, x ≠ s!"{y}_{fileVersion front}"

theorem hashed_eq_versioned_iff {c : ResolvedMap} {front : String}
    (hf : c.metadata.version = s!"{front}.{c.metadata.fullHash}") (hh : '.' ∉ c.metadata.fullHash.toList)
    {x y : String} : hashed c x = versioned c y ↔ x = s!"{y}_{fileVersion front}" := by
  rw [hashed, versioned, named_inj, hf, fileVersion_last hh, ← List.cons_append, ← List.append_assoc,
    List.append_cancel_right_eq, ← String.toList_inj, toList_underscored]

theorem version_of_hashed_eq {c : ResolvedMap} {x y : String} (hv : (Metadata.version? c.metadata.version).isSome)
    (hh : '_' ∉ c.metadata.fullHash.toList) (h : hashed c x = versioned c y) :
    ∃ front : String, c.metadata.version = s!"{front}.{c.metadata.fullHash}" := by
  obtain ⟨front, last, heq, dot, line⟩ := Metadata.version?_last hv
  rw [hashed, versioned, named_inj, heq, fileVersion_last dot, ← List.cons_append, ← List.append_assoc,
    append_cons_inj_of_last hh line] at h
  refine ⟨front, ?_⟩
  rw [String.toList_inj.mp h.2]
  exact heq

theorem complete_iff_separate {d : Description} {c : ResolvedMap} (h : resolve d patterns = .ok c) :
    FileSet.Complete (writes c) ↔ Separate c := by
  obtain ⟨hversion, hhash⟩ := Resolution.resolve_metadata h
  have plain : ∀ ch ∈ c.metadata.fullHash.toList, ch.isAlphanum := by
    intro ch hch
    rw [hhash] at hch
    exact isAlphanum_of_mem_fingerprint hch
  have noDot : '.' ∉ c.metadata.fullHash.toList := fun hmem => absurd (plain _ hmem) (by decide)
  have noLine : '_' ∉ c.metadata.fullHash.toList := fun hmem => absurd (plain _ hmem) (by decide)
  rw [FileSet.complete_iff_nodup, (names_writes c).nodup_iff, List.nodup_append',
    List.nodup_map_iff (hashed_injective c), List.nodup_map_iff (versioned_injective c)]
  constructor
  · rintro ⟨read, compressed, apart⟩
    refine ⟨compressed, read, fun front hf x hx y hy heq => ?_⟩
    have same := (hashed_eq_versioned_iff hf noDot).mpr heq
    exact apart (List.mem_map_of_mem hx) (same ▸ List.mem_map_of_mem hy)
  · rintro ⟨compressed, read, version⟩
    refine ⟨read, compressed, fun name hx hy => ?_⟩
    obtain ⟨x, hbase, rfl⟩ := List.mem_map.mp hx
    obtain ⟨y, hother, heq⟩ := List.mem_map.mp hy
    obtain ⟨front, hf⟩ := version_of_hashed_eq hversion noLine heq.symm
    exact version front hf x hbase y hother ((hashed_eq_versioned_iff hf noDot).mp heq.symm)

end Sheet

/-- Two maps, one of them with the name under which the other is compressed. -/
def Description.twinned : Description where
  sections := [
    ("metadata", .object [("app_name", .string "board"), ("default_type", .string "uint8_t")]),
    ("typedefs", .object [("root", .object [("elements", .array [.string "level"])])]),
    ("generated_maps", .object [("state", .object [("type", .string "root")]),
      ("state_compressed", .object [("type", .string "root")])])]

namespace Sheet

open Resolution

theorem finished_twinned : (finished .twinned).error.isNone ∧ (finished .twinned).state.metadata.isSome ∧
    (finished .twinned).state.maps.map (·.name) = ["state", "state_compressed"] := by
  decide +kernel

/-- The compressed sheet of the first map is lost. -/
theorem twinned_incomplete : ∃ c, resolve .twinned = .ok c ∧ ¬FileSet.Complete (writes c) := by
  obtain ⟨hnone, hmeta, hnames⟩ := finished_twinned
  obtain ⟨c, _, hc, heq⟩ := resolves_of_finished hnone hmeta
  refine ⟨c, hc, fun hcomplete => ?_⟩
  have apart := ((complete_iff_separate hc).mp hcomplete).compressed
  have both : names c = ["state", "state_compressed"] := by
    rw [heq]
    exact hnames
  rw [compressedNames, both] at apart
  exact absurd apart (by decide)

end Sheet

end AddressMap
