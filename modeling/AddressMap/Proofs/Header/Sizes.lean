import AddressMap.Header
import AddressMap.Proofs.Bitfield.Exactness
import AddressMap.Proofs.Expr.Printing
import AddressMap.Proofs.Expr.Token
import AddressMap.Proofs.Record.Route
import AddressMap.Proofs.Resolution.Scope
import Mathlib.Data.List.TakeWhile

set_option autoImplicit false

namespace AddressMap

variable {patterns : PatternReader}

namespace Text

/-- Only blanks are trimmed off. -/
theorem trim_spec (s : String) : ∃ before after : List Char, s.toList = before ++ (trim s).toList ++ after ∧
    (∀ c ∈ before, isBlank c = true) ∧ ∀ c ∈ after, isBlank c = true := by
  let front := s.toList.dropWhile isBlank
  refine ⟨s.toList.takeWhile isBlank, (front.reverse.takeWhile isBlank).reverse, ?_, ?_, ?_⟩
  · rw [trim, String.toList_ofList, List.append_assoc, ← List.reverse_append, List.takeWhile_append_dropWhile,
      List.reverse_reverse, List.takeWhile_append_dropWhile]
  · exact fun c hc => List.mem_takeWhile_imp hc
  · exact fun c hc => List.mem_takeWhile_imp (List.mem_reverse.mp hc)

end Text

namespace Expr

/-- A text that is a name in expressions, and none with a value of its own. -/
def IsName (text : String) : Prop :=
  tokens text.toList = .ok [.name text] ∧ text ≠ "True" ∧ text ≠ "False"

theorem not_isName_toString (n : Nat) : ¬IsName (toString n) := by
  rintro ⟨h, -, -⟩
  rw [Nat.toString_eq_ofList_toDigits, String.toList_ofList, tokens_natural] at h
  split at h
  · cases h
  · cases h

theorem evaluate_name {source : String} (h : IsName (Text.trim source)) (env : Env) :
    evaluate source env = lookup env (Text.trim source) := by
  obtain ⟨name, notTrue, notFalse⟩ := h
  obtain ⟨before, after, hsource, hbefore, hafter⟩ := Text.trim_spec source
  have blank : tokens after = .ok [] := by
    have := tokens_blanks hafter []
    rw [List.append_nil] at this
    rw [this, tokens]
  have ts : tokens source.toList = .ok [.name (Text.trim source)] := by
    have parted : Parted after := fun c hc => hafter c (List.mem_of_mem_head? hc)
    rw [hsource, List.append_assoc, tokens_blanks hbefore, tokens_parted parted name, blank]
    rfl
  rw [evaluate_of_phrase ts ((Phrase.name _).mono (Nat.zero_le _)), eval, if_neg notTrue, if_neg notFalse]

end Expr

namespace Bitfield

variable {env : Env} {name : String}

theorem width_of_membersFrom {offset : Nat} {ds : List BitDecl} {ms : List BitfieldMember}
    (h : membersFrom env name offset ds = .ok ms) {m : BitfieldMember} (hm : m ∈ ms) {v : Value}
    (hv : m.bits = some v) : evaluateValue v env = .ok (.int m.width) := by
  induction ds generalizing offset ms with
  | nil =>
    cases h
    cases hm
  | cons d rest ih =>
    simp only [membersFrom] at h
    split at h
    · cases h
    rename_i width hwidth
    obtain ⟨tail, htail, rfl⟩ := map_eq_ok.mp h
    rcases List.mem_cons.mp hm with rfl | hm
    · obtain ⟨_, _, value⟩ := memberWidth_eq_ok.mp hwidth
      dsimp only at hv
      simp only [declaredWidth?, hv] at value
      split at value
      · rename_i i hi
        cases value
        exact hi
      · cases value
    · exact ih htail hm

theorem width_of_resolve {decl : BitfieldDecl} {b : Bitfield} (h : resolve env name decl = .ok b)
    {m : BitfieldMember} (hm : m ∈ b.members) {v : Value} (hv : m.bits = some v) :
    evaluateValue v env = .ok (.int m.width) := by
  obtain ⟨declared, base, hdeclared, _, _, _, _, rfl⟩ := resolve_eq_ok.mp h
  dsimp only [filled] at hm
  split at hm
  · rcases List.mem_append.mp hm with hm | hm
    · exact width_of_membersFrom hdeclared hm hv
    · cases List.mem_singleton.mp hm
      cases hv
  · exact width_of_membersFrom hdeclared hm hv

end Bitfield

theorem Typedef.count_of_layout {s : Scope} {name : String} {decl : TypedefDecl} {t : Typedef}
    (h : layout s name decl = .ok t) {e : Element} (he : e ∈ t.elements) {n : Nat} (hn : e.count = some n)
    {v : Value} (hv : e.arraySize = some v) : evaluateValue v s.env = .ok (.int n) := by
  rcases mem_layout h he with ⟨start, m, _, hm⟩ | ⟨_, _, _, rfl⟩
  · obtain ⟨count, item, hcount, _, _, rfl⟩ := element_eq_ok.mp hm
    dsimp only at hn hv
    rw [itemCount_eq_ok, hv, hn] at hcount
    obtain ⟨_, measures, heq⟩ := hcount
    cases heq
    exact measures.1
  · cases hv

namespace Header

/-- What a printed size stands for: a define is replaced by the value that it is printed with. -/
def expanded (c : ResolvedMap) (text : String) : String :=
  match c.defines.get? text with
  | some x => x.resolved.toText
  | none => text

def Stands (c : ResolvedMap) (text : String) (n : Nat) : Prop := expanded c text = toString n

/-- If there is a define of this text, the text is a name in expressions, or the define is that number by chance. -/
def Fits (c : ResolvedMap) (text : String) (n : Nat) : Prop :=
  ∀ x, c.defines.get? text = some x → Expr.IsName text ∨ x.resolved.toText = toString n

theorem sizeText_cases (c : ResolvedMap) (written : Option Value) (n : Nat) :
    (∃ s, written = some (.string s) ∧ (c.defines.get? (Text.trim s)).isSome ∧
      sizeText c written n = Text.trim s) ∨ sizeText c written n = toString n := by
  unfold sizeText
  split
  · rename_i s
    dsimp only
    split
    · rename_i hdefine
      exact .inl ⟨s, rfl, hdefine, rfl⟩
    · exact .inr rfl
  · exact .inr rfl

section Sizes

variable {c : ResolvedMap} {env : Env}
  (henv : ∀ name x, env.get? name = some x ↔ ∃ d, c.defines.get? name = some d ∧ d.resolved = x)
include henv

/-- A name that was evaluated to a number is the name of a define that is printed as that number. -/
theorem toText_of_evaluated {source : String} {n : Nat} (hname : Expr.IsName (Text.trim source))
    (h : evaluate source env = .ok (.int n)) {x : Define} (hx : c.defines.get? (Text.trim source) = some x) :
    x.resolved.toText = toString n := by
  rw [Expr.evaluate_name hname, Expr.lookup] at h
  split at h
  · rename_i value hvalue
    cases h
    obtain ⟨y, hy, hresolved⟩ := (henv _ _).mp hvalue
    cases hx.symm.trans hy
    rw [hresolved]
    rfl
  · cases h

theorem sizeText_stands {written : Option Value} {n : Nat}
    (h : ∀ v, written = some v → evaluateValue v env = .ok (.int n)) :
    Stands c (sizeText c written n) n ↔ Fits c (sizeText c written n) n := by
  unfold Stands Fits expanded
  have kinds := sizeText_cases c written n
  cases hx : c.defines.get? (sizeText c written n) with
  | none =>
    refine iff_of_true (kinds.resolve_left ?_) nofun
    rintro ⟨s, _, hdefine, htext⟩
    rw [htext] at hx
    rw [hx] at hdefine
    cases hdefine
  | some x =>
    constructor
    · intro hprinted y hy
      cases hy
      exact .inr hprinted
    · intro hfits
      rcases hfits x rfl with hname | hchance
      · rcases kinds with ⟨s, hwritten, _, htext⟩ | htext
        · rw [htext] at hname hx
          exact toText_of_evaluated henv hname (h _ hwritten) hx
        · exact absurd (htext ▸ hname) (Expr.not_isName_toString n)
      · exact hchance

end Sizes

variable {d : Description} {c : ResolvedMap}

/-- The printed size of every array, and of every member of a bitfield, stands for the size in the layout exactly
    if the printed text is no define, or one whose name is a name in expressions, or one that is the same number
    by chance. -/
theorem sizes_stand (h : resolve d patterns = .ok c) :
    (∀ name t, (name, t) ∈ c.typedefs → ∀ e ∈ t.elements, ∀ n, e.count = some n →
      elementLine c e = s!"        {e.itemType} {e.name}[{sizeText c e.arraySize n}];{docSuffix e.description}" ∧
      (Stands c (sizeText c e.arraySize n) n ↔ Fits c (sizeText c e.arraySize n) n)) ∧
    ∀ name b, (name, b) ∈ c.bitfields → ∀ m ∈ b.members,
      memberLine c b m = s!"        {b.base.name} {m.name} : {sizeText c m.bits m.width};{docSuffix m.description}" ∧
      (Stands c (sizeText c m.bits m.width) m.width ↔ Fits c (sizeText c m.bits m.width) m.width) := by
  have defines : ∀ name x, (name, x) ∈ c.defines ↔ c.defines.get? name = some x := fun name x =>
    ⟨(Resolution.resolve_found h).1 name x, Entries.mem_of_get?⟩
  constructor
  · intro name t ht e he n hn
    obtain ⟨s, table, published, _, _, laid, _⟩ := Resolution.resolve_laid h
    obtain ⟨decl, _, hlayout⟩ := laid name t ((published.typedefs name t).mpr ht)
    have henv := published.defines
    simp only [defines] at henv
    refine ⟨?_, sizeText_stands henv fun v hv => Typedef.count_of_layout hlayout he hn hv⟩
    simp [elementLine, hn, toString, String.append_assoc]
  · intro name b hb m hm
    obtain ⟨env, henv, resolved⟩ := Resolution.resolve_bitfields h
    obtain ⟨decl, hdecl⟩ := resolved name b hb
    simp only [defines] at henv
    exact ⟨rfl, sizeText_stands henv fun v hv => Bitfield.width_of_resolve hdecl hm hv⟩

end Header

/-- A define has a number for its name, which is another number for expressions. -/
def Description.numbered : Description where
  sections := [
    ("metadata", .object [("app_name", .string "board"), ("default_type", .string "uint8_t")]),
    ("defines", .object [("4", .ofNat 7)]),
    ("bitfields", .object [("flags", .object [
      ("elements", .array [.object [("name", .string "mode"), ("bits", .string " 3 ")]])])]),
    ("typedefs", .object [("root", .object [("elements", .array [
      .object [("name", .string "levels"), ("array_size", .string " 4 ")]])])]),
    ("generated_maps", .object [("board", .object [("type", .string "root")])])]

namespace Header

theorem finished_numbered : (Resolution.finished .numbered).error.isNone ∧
    (Resolution.finished .numbered).state.metadata.isSome ∧
    (Resolution.finished .numbered).state.finish.defines.map (fun x => (x.1, x.2.resolved.toText)) = [("4", "7")] ∧
    (Resolution.finished .numbered).state.finish.typedefs.map (fun t =>
      t.2.elements.map fun e => (e.count, e.arraySize)) = [[(some 4, some (.string " 4 "))]] ∧
    (Resolution.finished .numbered).state.finish.bitfields.map (fun b =>
      b.2.members.map fun m => (m.width, m.bits)) = [[(3, some (.string " 3 ")), (5, none)]] := by
  decide +kernel

theorem trim_numbered : Text.trim " 4 " = "4" ∧ Text.trim " 3 " = "3" := by decide +kernel

/-- Four levels are printed as the define of seven, and the three bits of the mode as what they are. -/
theorem sizes_stand_numbered : ∃ c, resolve .numbered = .ok c ∧
    (∃ name t, (name, t) ∈ c.typedefs ∧ ∃ e ∈ t.elements, e.count = some 4 ∧
      sizeText c e.arraySize 4 = "4" ∧ ¬Stands c "4" 4) ∧
    ∃ name b, (name, b) ∈ c.bitfields ∧ ∃ m ∈ b.members, m.width = 3 ∧
      sizeText c m.bits m.width = "3" ∧ Stands c "3" 3 := by
  obtain ⟨hnone, hmeta, hdefines, htypedefs, hbitfields⟩ := finished_numbered
  obtain ⟨⟨key, x⟩, hx, heq⟩ := List.map_eq_singleton_iff.mp hdefines
  obtain ⟨rfl, hseven⟩ := Prod.mk.inj heq
  obtain ⟨⟨owner, t⟩, ht, helements⟩ := List.map_eq_singleton_iff.mp htypedefs
  obtain ⟨e, he, hlevels⟩ := List.map_eq_singleton_iff.mp helements
  obtain ⟨hcount, hlevelsText⟩ := Prod.mk.inj hlevels
  obtain ⟨⟨flags, b⟩, hb, hmembers⟩ := List.map_eq_singleton_iff.mp hbitfields
  obtain ⟨m, pads, hm, hmode, _⟩ := List.map_eq_cons_iff.mp hmembers
  obtain ⟨hwidth, hmodeText⟩ := Prod.mk.inj hmode
  obtain ⟨c, _, hc, hfinish⟩ := Resolution.resolves_of_finished hnone hmeta
  have defines : c.defines = [("4", x)] := hfinish ▸ hx
  have four : c.defines.get? "4" = some x := defines ▸ rfl
  have three : c.defines.get? "3" = none := defines ▸ rfl
  have typedef : (owner, t) ∈ c.typedefs := hfinish ▸ List.mem_of_mem_head? (congrArg List.head? ht)
  have bitfield : (flags, b) ∈ c.bitfields := hfinish ▸ List.mem_of_mem_head? (congrArg List.head? hb)
  have element : e ∈ t.elements := List.mem_of_mem_head? (congrArg List.head? he)
  have member : m ∈ b.members := List.mem_of_mem_head? (congrArg List.head? hm)
  have levels : sizeText c e.arraySize 4 = "4" := by
    rw [hlevelsText, sizeText, trim_numbered.1]
    exact if_pos (Option.isSome_iff_exists.mpr ⟨x, four⟩)
  have mode : sizeText c m.bits m.width = "3" := by
    rw [hmodeText, hwidth, sizeText, trim_numbered.2]
    exact if_neg (by rw [ResolvedMap.hasDefine, Entries.has, three]; exact Bool.false_ne_true)
  obtain ⟨elements, members⟩ := sizes_stand hc
  refine ⟨c, hc, ⟨owner, t, typedef, e, element, hcount, levels, fun hstands => ?_⟩,
    flags, b, bitfield, m, member, hwidth, mode, ?_⟩
  · have exact := (elements owner t typedef e element 4 hcount).2
    rw [levels] at exact
    rcases exact.mp hstands x four with hname | hchance
    · exact Expr.not_isName_toString 4 hname
    · exact absurd (hseven.symm.trans hchance) (by decide)
  · have exact := (members flags b bitfield m member).2
    rw [mode, hwidth] at exact
    refine exact.mpr fun y hy => ?_
    cases three.symm.trans hy

end Header

end AddressMap
