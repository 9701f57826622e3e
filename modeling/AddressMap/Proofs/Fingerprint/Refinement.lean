import AddressMap.Proofs.Fingerprint.Independence
import AddressMap.Proofs.Fingerprint.KeyOrder

set_option autoImplicit false

/-!
The three fingerprints are taken over the same records, each with fewer keys than the one before. The text of
a table gives back the table up to the order of keys and the type of scalars, and leaving keys out goes on with
that: so the text of more keys fixes the text of fewer keys, without any look at the records themselves.
-/

namespace AddressMap

variable {patterns : PatternReader}

open Fingerprint (text plain text_eq_iff)

namespace Value

def keepIn (keep : String → Bool) : Value → Value
  | .object es => .object (Entries.only es keep)
  | v => v

def keepInItems (keep : String → Bool) : Value → Value
  | .array xs => .array (xs.map (keepIn keep))
  | v => v

def keepInTable (keep : String → Bool) : Value → Value
  | .object es => .object (Entries.mapValues es (keepInItems keep))
  | v => v

def told (v : Value) : Value := plain v.sortKeys

theorem told_object (es : Props) : (Value.object es).told = .object (es.mapValues told).sortByKey := by
  rw [told, sortKeys_object, plain, Fingerprint.plainEntries_eq, ← Entries.sortByKey_mapValues]
  simp only [Entries.mapValues, List.map_map]
  rfl

theorem told_array (xs : List Value) : (Value.array xs).told = .array (xs.map told) := by
  rw [told, sortKeys_array, plain, Fingerprint.plainItems_eq, List.map_map]
  rfl

end Value

namespace Resolution

variable {keep more : String → Bool}

theorem keepIn_row (h : ∀ key, keep key → more key) (r : Record) :
    (row more r).told.keepIn keep = (row keep r).told := by
  have both : (fun key => keep key && more key) = keep := by
    funext key
    cases hk : keep key with
    | false => rfl
    | true => exact h key hk
  have told : ∀ k, (row k r).told = .object ((r.toProps.only k).mapValues Value.told).sortByKey :=
    fun k => Value.told_object _
  rw [told, told, Value.keepIn, Entries.only_sortByKey, Entries.only_mapValues, Entries.only_only, both]

theorem keepInTable_recordTable (h : ∀ key, keep key → more key) (c : ResolvedMap) :
    (recordTable more c.maps).told.keepInTable keep = (recordTable keep c.maps).told := by
  have items : ∀ rs : List Record, (Value.array (rs.map (row more))).told.keepInItems keep =
      (Value.array (rs.map (row keep))).told := by
    intro rs
    rw [Value.told_array, Value.told_array, Value.keepInItems, List.map_map, List.map_map, List.map_map]
    exact congrArg Value.array (List.map_congr_left fun r _ => keepIn_row h r)
  rw [recordTable_eq, recordTable_eq, Value.told_object, Value.told_object, Value.keepInTable,
    ← Entries.sortByKey_mapValues]
  simp only [Entries.mapValues, List.map_map, Function.comp_def, items]

/-- The text of more keys fixes the text of fewer. -/
theorem texts_eq_of_more (h : ∀ key, keep key → more key) {c c' : ResolvedMap}
    (ht : text (recordTable more c.maps) = text (recordTable more c'.maps)) :
    text (recordTable keep c.maps) = text (recordTable keep c'.maps) := by
  have same : (recordTable more c.maps).told = (recordTable more c'.maps).told := text_eq_iff.mp ht
  have kept := congrArg (Value.keepInTable keep) same
  rw [keepInTable_recordTable h, keepInTable_recordTable h] at kept
  exact text_eq_iff.mpr kept

end Resolution

namespace ResolvedMap

def fullTable (c : ResolvedMap) : Value := Resolution.recordTable (fun _ => true) c.maps

def documentedTable (c : ResolvedMap) : Value := Resolution.recordTable Resolution.isDocumentedKey c.maps

def layoutTable (c : ResolvedMap) : Value := Resolution.recordTable Resolution.isLayoutKey c.maps

end ResolvedMap

/-- The digest tells the texts of these two apart, if they are different. -/
def Fingerprint.Apart (v w : Value) : Prop := ofValue v = ofValue w → text v = text w

theorem Fingerprint.ofValue_congr {v w : Value} (h : text v = text w) : ofValue v = ofValue w := by
  rw [ofValue, ofValue, h]

/-- What the fingerprints of two results say about each other. -/
structure ResolvedMap.Refined (c c' : ResolvedMap) : Prop where
  /-- The same records with all keys are the same with the documented ones, -/
  documented : text c.fullTable = text c'.fullTable → text c.documentedTable = text c'.documentedTable
  /-- and these are the same with the keys of the layout. -/
  layout : text c.documentedTable = text c'.documentedTable → text c.layoutTable = text c'.layoutTable
  /-- Another fingerprint of the layout comes with other texts of both kinds, -/
  texts : c.metadata.fwHash ≠ c'.metadata.fwHash →
    text c.documentedTable ≠ text c'.documentedTable ∧ text c.fullTable ≠ text c'.fullTable
  /-- and with other fingerprints, where the digest tells these texts apart. -/
  changed : Fingerprint.Apart c.documentedTable c'.documentedTable → Fingerprint.Apart c.fullTable c'.fullTable →
    c.metadata.fwHash ≠ c'.metadata.fwHash →
      c.metadata.swHash ≠ c'.metadata.swHash ∧ c.metadata.fullHash ≠ c'.metadata.fullHash

namespace Resolution

open Fingerprint (ofValue)

theorem resolve_tables {d : Description} {c : ResolvedMap} (h : resolve d patterns = .ok c) :
    c.fingerprints = ⟨ofValue c.fullTable, ofValue c.layoutTable, ofValue c.documentedTable⟩ := by
  obtain ⟨r, r', _, hprint, rfl⟩ := resolve_eq_ok.mp h
  obtain ⟨m, _, rfl⟩ := addFingerprints_eq_done hprint
  rfl

/-- The fingerprints of any two descriptions that resolve refine each other, and each of them is taken over
    its table. -/
theorem fingerprints_refine {d d' : Description} {c c' : ResolvedMap} (h : resolve d patterns = .ok c)
    (h' : resolve d' patterns = .ok c') : c.Refined c' ∧
      c.fingerprints = ⟨ofValue c.fullTable, ofValue c.layoutTable, ofValue c.documentedTable⟩ := by
  obtain ⟨full, fw, sw⟩ := Fingerprints.mk.inj (resolve_tables h)
  obtain ⟨full', fw', sw'⟩ := Fingerprints.mk.inj (resolve_tables h')
  have documented : text c.fullTable = text c'.fullTable → text c.documentedTable = text c'.documentedTable :=
    texts_eq_of_more fun _ _ => rfl
  have layout : text c.documentedTable = text c'.documentedTable → text c.layoutTable = text c'.layoutTable :=
    texts_eq_of_more fun key hkey => by rw [isDocumentedKey, hkey, Bool.true_or]
  have texts : c.metadata.fwHash ≠ c'.metadata.fwHash →
      text c.documentedTable ≠ text c'.documentedTable ∧ text c.fullTable ≠ text c'.fullTable := by
    intro hne
    have changed : text c.documentedTable ≠ text c'.documentedTable := by
      intro heq
      exact hne (fw.trans ((Fingerprint.ofValue_congr (layout heq)).trans fw'.symm))
    exact ⟨changed, fun heq => changed (documented heq)⟩
  refine ⟨⟨documented, layout, texts, fun apartSw apartFull hne => ?_⟩, resolve_tables h⟩
  constructor
  · exact fun heq => (texts hne).1 (apartSw (sw.symm.trans (heq.trans sw')))
  · exact fun heq => (texts hne).2 (apartFull (full.symm.trans (heq.trans full')))

theorem fingerprints_refine_annotated : ∃ c c', resolve .plain = .ok c ∧ resolve .annotated = .ok c' ∧
    c.Refined c' := by
  obtain ⟨hnone, hmeta⟩ := finished_plain
  obtain ⟨hnone', hmeta'⟩ := finished_annotated
  obtain ⟨c, _, hc, _⟩ := resolves_of_finished hnone hmeta
  obtain ⟨c', _, hc', _⟩ := resolves_of_finished hnone' hmeta'
  exact ⟨c, c', hc, hc', (fingerprints_refine hc hc').1⟩

end Resolution

end AddressMap
