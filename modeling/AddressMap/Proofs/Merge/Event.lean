import AddressMap.Merge
import AddressMap.Proofs.Entries.Layer
import AddressMap.Proofs.Outcome
import Mathlib.Data.List.Forall2

set_option autoImplicit false

namespace AddressMap.Merge

variable {p : ConflictPolicy}

/-- A section begins, or a key of it gets a value. -/
abbrev Event := String × Option (String × Value)

def sectionEvents (s : String × Props) : List Event := (s.1, none) :: s.2.map fun e => (s.1, some e)

def addEvent (p : ConflictPolicy) (merged : Entries Props) (e : Event) : Dialogued (Entries Props) :=
  let known := (merged.get? e.1).getD []
  match e.2 with
  | none => return merged.set e.1 known
  | some entry => return merged.set e.1 (← addEntry p e.1 known entry)

theorem addEntries_eq (merged : Entries Props) (name : String) (known es : Props) :
    (do return merged.set name (← es.foldlM (addEntry p name) known) : Dialogued (Entries Props)) =
      (es.map fun e => (name, some e)).foldlM (addEvent p) (merged.set name known) := by
  induction es generalizing known with
  | nil => simp
  | cons e rest ih =>
    rw [List.map_cons, List.foldlM_cons, List.foldlM_cons, addEvent]
    simp only [Entries.get?_set_self, Option.getD_some, Entries.set_set, bind_assoc, pure_bind, ih]

theorem addSection_eq (merged : Entries Props) (s : String × Props) :
    addSection p merged s = (sectionEvents s).foldlM (addEvent p) merged := by
  rw [sectionEvents, List.foldlM_cons, addSection, addEntries_eq]
  simp only [addEvent, pure_bind]

theorem addSections_eq (merged : Entries Props) (sections : List (String × Props)) :
    sections.foldlM (addSection p) merged = (sections.flatMap sectionEvents).foldlM (addEvent p) merged := by
  induction sections generalizing merged with
  | nil => rfl
  | cons s rest ih =>
    rw [List.foldlM_cons, List.flatMap_cons, List.foldlM_append, addSection_eq]
    exact congrArg _ (funext ih)

def contents (file : String × Option String) : Entries Props :=
  (Description.readFile file.1 file.2).toOption.getD []

def Loads (file : String × Option String) : Prop := ∃ sections, Description.readFile file.1 file.2 = .ok sections

theorem addFile_eq {file : String × Option String} (h : Loads file) (merged : Entries Props) :
    addFile p merged file = (contents file).foldlM (addSection p) merged := by
  obtain ⟨sections, hread⟩ := h
  rw [addFile, contents, hread]
  rfl

theorem addFiles_eq {files : List (String × Option String)} (h : ∀ file ∈ files, Loads file)
    (merged : Entries Props) : files.foldlM (addFile p) merged =
      ((files.flatMap contents).flatMap sectionEvents).foldlM (addEvent p) merged := by
  rw [← addSections_eq]
  induction files generalizing merged with
  | nil => rfl
  | cons file rest ih =>
    rw [List.forall_mem_cons] at h
    rw [List.foldlM_cons, List.flatMap_cons, List.foldlM_append, addFile_eq h.1]
    exact congrArg _ (funext fun merged => ih h.2 merged)

end AddressMap.Merge
