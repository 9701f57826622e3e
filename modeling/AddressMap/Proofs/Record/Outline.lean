import AddressMap.Proofs.LoopNest.Name
import AddressMap.Proofs.Record.Tiling

set_option autoImplicit false

/-!
The names, offsets and arrays that a walk gives to its records do not depend on where it starts: they
follow an outline in which all types have been looked up. The same outline describes every item of an
array, with the place of the item in front.
-/

namespace AddressMap

open LoopNest Walk

structure Spot where
  name : String
  mapOffset : Nat
  arrays : List ArrayLevel

def Record.spot (r : Record) : Spot := ⟨r.name, r.mapOffset, r.arrays⟩

inductive Outline where
  | skip (bytes : Nat)
  /-- A record at the current offset, named by what is around it or by a name of its own in there. -/
  | row (name : Option String)
  | both (first second : Outline)
  | enter (name : String) (body : Outline)
  | loop (name : String) (size stride : Nat) (body : Outline)

namespace Outline

def bytes : Outline → Nat
  | .skip n => n
  | .row _ => 0
  | .both a b => a.bytes + b.bytes
  | .enter _ body => body.bytes
  | .loop _ size _ body => body.bytes * size

def uids : Outline → Nat
  | .skip _ => 0
  | .row _ => 0
  | .both a b => a.uids + b.uids
  | .enter _ body => body.uids
  | .loop _ size _ body => 1 + body.uids * size

def after (o : Outline) (c : Cursor) : Cursor := ⟨c.offset + o.bytes, c.uid + o.uids⟩

def qualify (path : Option Template) (name : String) : Template :=
  match path with
  | some t => t.extend ('.' :: name.toList)
  | none => ⟨[], name.toList⟩

def rowTemplate (path : Option Template) : Option String → Template
  | some name => qualify path name
  | none => path.getD ⟨[], []⟩

def indexTexts (arrays : List ArrayLevel) : List (List Char) := arrays.map fun a => Nat.toDigits 10 a.index

def item (body : Outline) (c : Cursor) (i : Nat) : Cursor :=
  ⟨c.offset + body.bytes * i, c.uid + 1 + body.uids * i⟩

def expand : Outline → Option Template → List ArrayLevel → Cursor → List Spot
  | .skip _, _, _, _ => []
  | .row name, path, arrays, c =>
    [⟨String.ofList ((rowTemplate path name).fill (indexTexts arrays)), c.offset, arrays⟩]
  | .both a b, path, arrays, c => a.expand path arrays c ++ b.expand path arrays (a.after c)
  | .enter name body, path, arrays, c => body.expand (some (qualify path name)) arrays c
  | .loop name size stride body, path, arrays, c =>
    (List.range size).flatMap fun i =>
      body.expand (some (qualify path name).indexed) (arrays ++ [⟨size, stride, c.uid, i⟩]) (body.item c i)

/-- Every loop moves by what its body takes. -/
def Strided : Outline → Prop
  | .skip _ => True
  | .row _ => True
  | .both a b => a.Strided ∧ b.Strided
  | .enter _ body => body.Strided
  | .loop _ _ stride body => stride = body.bytes ∧ body.Strided

def Plain : Outline → Prop
  | .skip _ => True
  | .row name => ∀ n ∈ name, '[' ∉ n.toList
  | .both a b => a.Plain ∧ b.Plain
  | .enter name body => '[' ∉ name.toList ∧ body.Plain
  | .loop name _ _ body => '[' ∉ name.toList ∧ body.Plain

end Outline

namespace Walk

open Outline

/-- The template describes the path of the place, with an index for every array. -/
structure Located (path : Option Template) (p : Place) : Prop where
  text : p.path = path.map fun t => String.ofList (t.fill (indexTexts p.arrays))
  depth : (path.map fun t => t.pieces.length).getD 0 = p.arrays.length

/-- Wherever the step succeeds, it makes the records of the outline. -/
def Follows (step : Place → Cursor → Step) (o : Outline) : Prop :=
  ∀ path p c rs c', Located path p → step p c = .ok (rs, c') →
    rs.map Record.spot = o.expand path p.arrays c ∧ c' = o.after c

theorem located_qualify {path : Option Template} {p : Place} (h : Located path p) (name : String) :
    p.qualify name = String.ofList ((qualify path name).fill (indexTexts p.arrays)) ∧
      (qualify path name).pieces.length = p.arrays.length := by
  obtain ⟨text, depth⟩ := h
  cases path with
  | none =>
    refine ⟨?_, depth⟩
    rw [Place.qualify, text, qualify, Template.fill_nil]
    exact String.ofList_toList.symm
  | some t =>
    refine ⟨?_, depth⟩
    rw [Place.qualify, text, qualify, Template.fill_extend, ← String.toList_inj]
    change (String.ofList _ ++ "." ++ name).toList = _
    simp [String.toList_append]

theorem qualify_append (p : Place) (name more : String) : p.qualify (name ++ more) = p.qualify name ++ more := by
  unfold Place.qualify
  cases p.path with
  | none => rfl
  | some path => exact String.append_assoc.symm

theorem located_enter {path : Option Template} {p : Place} (h : Located path p) (name : String) :
    Located (some (qualify path name)) (p.enter name) := by
  obtain ⟨text, depth⟩ := located_qualify h name
  exact ⟨congrArg some text, depth⟩

def itemPlace (p : Place) (e : Element) (level : ArrayLevel) : Place :=
  { p.enter s!"{e.name}[{level.index}]" with arrays := p.arrays ++ [level] }

theorem located_item {path : Option Template} {p : Place} (h : Located path p) (e : Element)
    (level : ArrayLevel) : Located (some (qualify path e.name).indexed) (itemPlace p e level) := by
  obtain ⟨text, depth⟩ := located_qualify h e.name
  have hlen : (qualify path e.name).pieces.length = (indexTexts p.arrays).length := by
    rw [depth, indexTexts, List.length_map]
  refine ⟨congrArg some ?_, by simp [itemPlace, Template.indexed, depth]⟩
  have indices : indexTexts (p.arrays ++ [level]) =
      indexTexts p.arrays ++ [Nat.toDigits 10 level.index] := by
    rw [indexTexts, List.map_append]
    rfl
  change p.qualify (e.name ++ "[" ++ toString level.index ++ "]") = _
  change _ = String.ofList ((qualify path e.name).indexed.fill (indexTexts (p.arrays ++ [level])))
  rw [String.append_assoc, String.append_assoc, qualify_append, text, indices, Template.fill_indexed hlen,
    ← String.toList_inj]
  simp

theorem follows_enter {body : Place → Cursor → Step} {o : Outline} (h : Follows body o) (name : String) :
    Follows (fun p => body (p.enter name)) (.enter name o) := by
  intro path p c rs c' hp hstep
  exact h _ (p.enter name) c rs c' (located_enter hp name) hstep

theorem follows_inherit {body : Place → Cursor → Step} {o : Outline} (h : Follows body o) (props : Props) :
    Follows (fun p => body (p.inherit props)) o := by
  intro path p c rs c' hp hstep
  exact h path (p.inherit props) c rs c' ⟨hp.text, hp.depth⟩ hstep

theorem follows_both {first second : Place → Cursor → Step} {a b : Outline} (ha : Follows first a)
    (hb : Follows second b) :
    Follows (fun p c => match first p c with
      | .error e => .error e
      | .ok (records, c) => (second p c).map fun r => (records ++ r.1, r.2)) (.both a b) := by
  intro path p c rs c' hp hstep
  dsimp only at hstep
  split at hstep
  · cases hstep
  rename_i records next hfirst
  obtain ⟨⟨tail, last⟩, hsecond, heq⟩ := map_eq_ok.mp hstep
  cases heq
  obtain ⟨hrecords, rfl⟩ := ha path p c records next hp hfirst
  obtain ⟨htail, rfl⟩ := hb path p _ tail _ hp hsecond
  refine ⟨by rw [List.map_append, hrecords, htail, expand], ?_⟩
  simp only [after, bytes, uids, Nat.add_assoc]

theorem follows_leaf (e : Element) : Follows (leaf e) (.both (.row none) (.skip e.itemSize)) := by
  intro path p c rs c' hp hstep
  cases hstep
  have name : p.path.getD "" = String.ofList ((rowTemplate path none).fill (indexTexts p.arrays)) := by
    rw [hp.text]
    cases path with
    | none => rfl
    | some t => rfl
  refine ⟨by simp [Record.spot, expand, name], ?_⟩
  simp [after, bytes, uids, Cursor.advance]

def rowsOutline : List String → Outline
  | [] => .skip 0
  | name :: names => .both (.row (some name)) (rowsOutline names)

theorem rowsOutline_size (names : List String) :
    (rowsOutline names).bytes = 0 ∧ (rowsOutline names).uids = 0 := by
  induction names with
  | nil => exact ⟨rfl, rfl⟩
  | cons name names ih => simp [rowsOutline, bytes, uids, ih]

theorem expand_rowsOutline (names : List String) (path : Option Template) (arrays : List ArrayLevel)
    (c : Cursor) : (rowsOutline names).expand path arrays c = names.map fun name =>
      ⟨String.ofList ((qualify path name).fill (indexTexts arrays)), c.offset, arrays⟩ := by
  induction names with
  | nil => rfl
  | cons name names ih =>
    have here : (Outline.row (some name)).after c = c := rfl
    rw [rowsOutline, expand, here, ih]
    rfl

theorem follows_bits (b : Bitfield) :
    Follows (bits b) (.both (rowsOutline (b.members.map (·.name))) (.skip b.base.size)) := by
  intro path p c rs c' hp hstep
  cases hstep
  have name : ∀ m : BitfieldMember, p.qualify m.name =
      String.ofList ((qualify path m.name).fill (indexTexts p.arrays)) := fun m =>
    (located_qualify hp m.name).1
  refine ⟨by simp [expand, expand_rowsOutline, Record.spot, name], ?_⟩
  simp [after, bytes, uids, Cursor.advance, rowsOutline_size]

theorem follows_items {body : Place → Cursor → Step} {o : Outline} (h : Follows body o)
    {path : Option Template} {p : Place} (hp : Located path p) (e : Element) (size : Nat) (c : Cursor)
    {index more : Nat} {rs : List Record} {c' : Cursor}
    (hstep : sequence body (itemsFrom p e size c.uid index more) (o.item c index) = .ok (rs, c')) :
    rs.map Record.spot = ((List.range' index more).flatMap fun i =>
        o.expand (some (qualify path e.name).indexed)
          (p.arrays ++ [⟨size, e.itemSize, c.uid, i⟩]) (o.item c i)) ∧
      c' = o.item c (index + more) := by
  induction more generalizing index rs with
  | zero =>
    cases hstep
    exact ⟨rfl, rfl⟩
  | succ more ih =>
    simp only [itemsFrom, sequence] at hstep
    split at hstep
    · cases hstep
    rename_i records next hitem
    obtain ⟨⟨tail, last⟩, htail, heq⟩ := map_eq_ok.mp hstep
    cases heq
    obtain ⟨hrecords, rfl⟩ := h _ _ _ records next (located_item hp e ⟨size, e.itemSize, c.uid, index⟩) hitem
    have moved : o.after (o.item c index) = o.item c (index + 1) := by
      simp only [after, item, Nat.mul_succ, Nat.add_assoc]
    rw [moved] at htail
    obtain ⟨hrest, rfl⟩ := ih htail
    rw [List.map_append, hrecords, hrest, List.range'_succ, List.flatMap_cons]
    refine ⟨rfl, ?_⟩
    rw [Nat.add_right_comm, Nat.add_assoc]

def eachOutline (e : Element) (body : Outline) : Outline :=
  match e.count with
  | none => .enter e.name body
  | some size => .loop e.name size e.itemSize body

theorem follows_eachItem {body : Place → Cursor → Step} {o : Outline} (h : Follows body o) (e : Element) :
    Follows (fun p => eachItem p e body) (eachOutline e o) := by
  intro path p c rs c' hp hstep
  simp only [eachItem] at hstep
  unfold eachOutline
  cases hcount : e.count with
  | none =>
    rw [hcount] at hstep
    exact follows_enter h e.name path p c rs c' hp hstep
  | some size =>
    rw [hcount] at hstep
    have first : o.item c 0 = { c with uid := c.uid + 1 } := by simp [item]
    rw [← first] at hstep
    obtain ⟨hrecords, hcursor⟩ := follows_items h hp e size c hstep
    rw [hrecords, hcursor, Nat.zero_add]
    refine ⟨by rw [expand, List.range_eq_range'], ?_⟩
    simp only [item, after, bytes, uids, Nat.add_assoc]

/-- The step follows an outline with sound strides and names that takes so many bytes. -/
def Outlined (step : Place → Cursor → Step) (bytes : Nat) : Prop :=
  ∃ o : Outline, Follows step o ∧ o.Strided ∧ o.Plain ∧ o.bytes = bytes

theorem rowsOutline_strided (names : List String) : (rowsOutline names).Strided := by
  induction names with
  | nil => trivial
  | cons name names ih => exact ⟨trivial, ih⟩

theorem rowsOutline_plain {names : List String} (h : ∀ n ∈ names, '[' ∉ n.toList) :
    (rowsOutline names).Plain := by
  induction names with
  | nil => trivial
  | cons name names ih =>
    refine ⟨?_, ih fun n hn => h n (List.mem_cons_of_mem _ hn)⟩
    rintro n ⟨⟩
    exact h _ List.mem_cons_self

theorem leaf_outlined (e : Element) : Outlined (leaf e) e.itemSize :=
  ⟨_, follows_leaf e, ⟨trivial, trivial⟩, ⟨by rintro n ⟨⟩, trivial⟩, Nat.zero_add _⟩

theorem bits_outlined {b : Bitfield} (h : ∀ m ∈ b.members, '[' ∉ m.name.toList) :
    Outlined (bits b) b.base.size := by
  refine ⟨_, follows_bits b, ⟨rowsOutline_strided _, trivial⟩, ⟨rowsOutline_plain ?_, trivial⟩, ?_⟩
  · simpa using h
  · rw [bytes, (rowsOutline_size _).1, bytes, Nat.zero_add]

theorem inherit_outlined {step : Place → Cursor → Step} {n : Nat} (h : Outlined step n) (props : Props) :
    Outlined (fun p => step (p.inherit props)) n := by
  obtain ⟨o, follows, rest⟩ := h
  exact ⟨o, follows_inherit follows props, rest⟩

theorem eachItem_outlined {e : Element} {body : Place → Cursor → Step} (h : Outlined body e.itemSize)
    (hname : '[' ∉ e.name.toList) : Outlined (fun p => eachItem p e body) e.size := by
  obtain ⟨o, follows, strided, plain, hbytes⟩ := h
  refine ⟨eachOutline e o, follows_eachItem follows e, ?_⟩
  unfold eachOutline Element.size
  cases e.count with
  | none => exact ⟨strided, ⟨hname, plain⟩, by rw [bytes, hbytes, Option.getD_none, Nat.mul_one]⟩
  | some n => exact ⟨⟨hbytes.symm, strided⟩, ⟨hname, plain⟩, by rw [bytes, hbytes, Option.getD_some]⟩

theorem sequence_outlined {α : Type} {step : Place → α → Cursor → Step} {size : α → Nat} {xs : List α}
    (h : ∀ x ∈ xs, Outlined (fun p => step p x) (size x)) :
    Outlined (fun p => sequence (step p) xs) (total size xs) := by
  induction xs with
  | nil =>
    refine ⟨.skip 0, ?_, trivial, trivial, rfl⟩
    intro path p c rs c' _ hstep
    cases hstep
    exact ⟨rfl, rfl⟩
  | cons x xs ih =>
    obtain ⟨a, ha, astrided, aplain, abytes⟩ := h x List.mem_cons_self
    obtain ⟨b, hb, bstrided, bplain, bbytes⟩ := ih fun y hy => h y (List.mem_cons_of_mem _ hy)
    refine ⟨.both a b, follows_both ha hb, ⟨astrided, bstrided⟩, ⟨aplain, bplain⟩, ?_⟩
    rw [bytes, abytes, bbytes, total]

end Walk

structure TypeTable.Plain (table : TypeTable) : Prop where
  elements : ∀ name t, table.typedefs.get? name = some t → ∀ e ∈ t.elements, '[' ∉ e.name.toList
  members : ∀ name b, table.bitfields.get? name = some b → ∀ m ∈ b.members, '[' ∉ m.name.toList

namespace Walk

section Visit

variable {table : TypeTable} {depth : Nat} {e : Element} {name : String}

theorem visit_leaf (hk : (∃ base, e.kind = .primitive base) ∨ ∃ name, e.kind = .enumeration name) :
    (fun p => visit table depth p e) = fun p => eachItem p e (leaf e) := by
  funext p c
  rcases hk with ⟨base, hk⟩ | ⟨name, hk⟩
  · rw [visit, hk]
  · rw [visit, hk]

theorem visit_bits {b : Bitfield} (hk : e.kind = .bitfield name)
    (hb : table.bitfields.get? name = some b) :
    (fun p => visit table depth p e) =
      fun p => eachItem ((p.inherit e.props).inherit b.props) e (bits b) := by
  funext p c
  rw [visit, hk]
  simp only [hb]

theorem visit_elements {t : Typedef} (hk : e.kind = .typedef name)
    (ht : table.typedefs.get? name = some t) :
    (fun p => visit table (depth + 1) p e) = fun p => eachItem ((p.inherit e.props).inherit t.props) e
      (fun p => sequence (visit table depth p) t.elements) := by
  funext p c
  rw [visit, hk]
  simp only [ht]

end Visit

theorem visit_outlined {table : TypeTable} (ht : table.Resolved) (hp : table.Plain) (depth : Nat)
    {e : Element} (he : e.Sized table.bitfields table.typedefs) (hname : '[' ∉ e.name.toList) :
    Outlined (fun p => visit table depth p e) e.size := by
  induction depth using Nat.strongRecOn generalizing e with
  | _ depth ih =>
    unfold Element.Sized at he
    cases hk : e.kind with
    | primitive base =>
      rw [visit_leaf (.inl ⟨base, hk⟩)]
      exact eachItem_outlined (leaf_outlined e) hname
    | enumeration name =>
      rw [visit_leaf (.inr ⟨name, hk⟩)]
      exact eachItem_outlined (leaf_outlined e) hname
    | bitfield name =>
      rw [hk] at he
      obtain ⟨b, hb, hsize⟩ := he
      have each := eachItem_outlined (hsize ▸ bits_outlined (hp.members name b hb)) hname
      rw [visit_bits hk hb]
      exact inherit_outlined (inherit_outlined each b.props) e.props
    | typedef name =>
      rw [hk] at he
      obtain ⟨t, hget, hsize⟩ := he
      cases depth with
      | zero =>
        -- No walk gets here, so any outline of the right size will do.
        refine ⟨.skip e.size, ?_, trivial, trivial, rfl⟩
        intro path p c rs c' _ hstep
        simp only [visit, hk, hget] at hstep
        cases hstep
      | succ depth =>
        have total : Walk.total Element.size t.elements = e.itemSize := by
          have h := total_chained (ht.chained name t hget)
          omega
        have elements := sequence_outlined fun f hf =>
          ih depth (Nat.lt_succ_self depth) (ht.sized name t hget f hf) (hp.elements name t hget f hf)
        rw [total] at elements
        rw [visit_elements hk hget]
        exact inherit_outlined (inherit_outlined (eachItem_outlined elements hname) t.props) e.props

/-- The records of a root typedef are those of an outline of its size. -/
theorem flatten_outlined {table : TypeTable} (ht : table.Resolved) (hp : table.Plain) {name : String}
    {root : Typedef} (hroot : table.typedefs.get? name = some root) {uid next : Nat} {rs : List Record}
    (h : flatten table root uid = .ok (rs, next)) :
    ∃ o : Outline, o.Strided ∧ o.Plain ∧ o.bytes = root.size ∧
      rs.map Record.spot = o.expand none [] ⟨0, uid⟩ := by
  obtain ⟨⟨records, c⟩, hwalk, heq⟩ := map_eq_ok.mp h
  cases heq
  obtain ⟨o, follows, strided, plain, hbytes⟩ := sequence_outlined fun e he =>
    visit_outlined ht hp table.typedefs.length (ht.sized name root hroot e he)
      (hp.elements name root hroot e he)
  refine ⟨o, strided, plain, ?_, ?_⟩
  · rw [hbytes, total_chained (ht.chained name root hroot), Nat.zero_add]
  · exact (follows none ⟨none, root.props, []⟩ ⟨0, uid⟩ records c ⟨rfl, rfl⟩ hwalk).1

end Walk

end AddressMap
