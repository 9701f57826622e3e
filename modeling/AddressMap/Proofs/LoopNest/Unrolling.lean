import AddressMap.Proofs.Entries
import AddressMap.Proofs.LoopNest.Nest
import AddressMap.Proofs.LoopNest.Offset
import AddressMap.Proofs.Record.Outline

set_option autoImplicit false

namespace AddressMap

variable {patterns : PatternReader}

open LoopNest Walk

namespace LoopNest

def Nest.run : Nest → Indices → Option (List (String × Scalar))
  | .done, _ => some []
  | .row r rest, indices => do
    let text ← r.loopOffset
    let offset ← (evaluate text (Entries.mapValues indices fun i => .int i)).toOption
    let more ← rest.run indices
    return (String.ofList (substitute indices none r.name.toList), offset) :: more
  | .loop l body rest, indices => do
    let items ← (List.range l.size).mapM fun i => body.run (indices ++ [(l.variableName, i)])
    let more ← rest.run indices
    return items.flatten ++ more

theorem Nest.run_append {n m : Nest} {indices : Indices} {xs ys : List (String × Scalar)}
    (hn : n.run indices = some xs) (hm : m.run indices = some ys) :
    (n.append m).run indices = some (xs ++ ys) := by
  induction n generalizing xs with
  | done =>
    cases hn
    exact hm
  | row r rest ih =>
    simp only [run, Option.bind_eq_bind, Option.bind_eq_some_iff, pure, Option.some.injEq] at hn
    obtain ⟨text, htext, offset, hoffset, more, hmore, rfl⟩ := hn
    simp only [append, run, htext, hoffset, ih hmore, Option.bind_eq_bind, Option.bind_some, pure]
    rfl
  | loop l body rest _ ih =>
    simp only [run, Option.bind_eq_bind, Option.bind_eq_some_iff, pure, Option.some.injEq] at hn
    obtain ⟨items, hitems, more, hmore, rfl⟩ := hn
    simp only [append, run, hitems, ih hmore, Option.bind_eq_bind, Option.bind_some, pure,
      List.append_assoc]

theorem loopLevels_concat (arrays : List ArrayLevel) (a : ArrayLevel) :
    loopLevels (arrays ++ [a]) = loopLevels arrays ++
      [⟨a.size, a.stride, a.uid, variableName arrays.length, false, false⟩] := by
  simp [loopLevels, List.zipIdx_append]

theorem length_loopLevels (arrays : List ArrayLevel) : (loopLevels arrays).length = arrays.length := by
  simp [loopLevels]

theorem variableName_of_mem_loopLevels {arrays : List ArrayLevel} :
    ∀ l ∈ loopLevels arrays, ∃ level, l.variableName = variableName level := by
  intro l hl
  obtain ⟨a, _, rfl⟩ := List.mem_map.mp hl
  exact ⟨a.2, rfl⟩

theorem nodup_variableNames (arrays : List ArrayLevel) :
    ((loopLevels arrays).map (·.variableName)).Nodup := by
  have names : (loopLevels arrays).map (·.variableName) =
      (List.range arrays.length).map variableName := by
    rw [List.range_eq_range', ← List.zipIdx_map_snd, loopLevels, List.map_map, List.map_map]
    rfl
  rw [names, List.Nodup, List.pairwise_map]
  exact List.nodup_range.imp fun hne heq => hne (variableName_injective heq)

theorem shift_concat {ls : List LoopLevel} {is : List Nat} (h : is.length = ls.length) (l : LoopLevel)
    (i : Nat) : shift (ls ++ [l]) (is ++ [i]) = shift ls is + l.stride * i := by
  induction ls generalizing is with
  | nil =>
    rw [List.eq_nil_of_length_eq_zero h]
    simp [shift]
  | cons k ls ih =>
    cases is with
    | nil => cases h
    | cons j is =>
      simp only [List.cons_append, shift, ih (Nat.succ.inj h), Nat.add_assoc]

def indicesOf (is : List Nat) : Indices := is.zipIdx.map fun i => (variableName i.2, i.1)

theorem indicesOf_concat (is : List Nat) (i : Nat) :
    indicesOf (is ++ [i]) = indicesOf is ++ [(variableName is.length, i)] := by
  simp [indicesOf, List.zipIdx_append]

theorem get?_zipIdx (is : List Nat) (level offset : Nat) :
    Entries.get? ((is.zipIdx level).map fun i => (variableName i.2, i.1)) (variableName (level + offset)) =
      is[offset]? := by
  induction is generalizing level offset with
  | nil => rfl
  | cons i is ih =>
    rw [List.zipIdx_cons, List.map_cons, Entries.get?]
    cases offset with
    | zero => exact if_pos rfl
    | succ offset =>
      have hne : variableName level ≠ variableName (level + (offset + 1)) := fun heq => by
        have := variableName_injective heq
        omega
      rw [if_neg hne, List.getElem?_cons_succ, ← ih (level + 1) offset, Nat.add_assoc,
        Nat.add_comm 1 offset]

theorem get?_indicesOf {arrays : List ArrayLevel} {is : List Nat} (h : is.length = arrays.length) :
    List.Forall₂ (fun (l : LoopLevel) (i : Nat) => Entries.get? (indicesOf is) l.variableName = some i)
      (loopLevels arrays) is := by
  have levels : ∀ (js : List Nat) (level : Nat), js.length = arrays.length →
      (∀ offset, Entries.get? (indicesOf is) (variableName (level + offset)) = js[offset]?) →
      List.Forall₂ (fun (l : LoopLevel) (i : Nat) => Entries.get? (indicesOf is) l.variableName = some i)
        ((arrays.zipIdx level).map fun a =>
          ⟨a.1.size, a.1.stride, a.1.uid, variableName a.2, false, false⟩) js := by
    clear h
    induction arrays with
    | nil =>
      intro js level hlen _
      rw [List.eq_nil_of_length_eq_zero hlen]
      exact .nil
    | cons a arrays ih =>
      intro js level hlen hget
      cases js with
      | nil => cases hlen
      | cons j js =>
        refine .cons (hget 0) (ih js (level + 1) (Nat.succ.inj hlen) fun offset => ?_)
        rw [Nat.add_assoc, Nat.add_comm 1 offset]
        exact hget (offset + 1)
  refine levels is 0 h fun offset => ?_
  exact get?_zipIdx is 0 offset

end LoopNest

namespace Spot

def isFirst (s : Spot) : Bool := s.arrays.all fun a => a.index == 0

def row (s : Spot) : Row :=
  ⟨loopName s.name (loopLevels s.arrays), some (loopOffset s.mapOffset (loopLevels s.arrays)),
    (loopLevels s.arrays).map LoopLevel.loop⟩

def result (s : Spot) : String × Scalar := (s.name, .int s.mapOffset)

end Spot

namespace LoopNest

def Nest.around (l : Loop) : Nest → Nest
  | .done => .done
  | body => .loop l body .done

theorem Nest.rows_around (l : Loop) (n : Nest) : (n.around l).rows = n.rows := by
  cases n with
  | done => rfl
  | row r rest => exact List.append_nil _
  | loop k body rest => exact List.append_nil _

theorem Nest.scoped_around {outer : List Loop} {l : Loop} {n : Nest} (h : n.Scoped (outer ++ [l])) :
    (n.around l).Scoped outer := by
  cases n with
  | done => trivial
  | row r rest => exact ⟨by simp, h, trivial⟩
  | loop k body rest => exact ⟨by simp, h, trivial⟩

theorem Nest.uids_around (l : Loop) (n : Nest) :
    (n.around l).uids = [] ∨ (n.around l).uids = l.uid :: n.uids := by
  cases n with
  | done => exact .inl rfl
  | row r rest => exact .inr (congrArg (l.uid :: ·) (List.append_nil _))
  | loop k body rest => exact .inr (congrArg (l.uid :: ·) (List.append_nil _))

theorem Nest.mem_uids_around {l : Loop} {n : Nest} {u : Nat} (h : u ∈ (n.around l).uids) :
    u = l.uid ∨ u ∈ n.uids := by
  rcases Nest.uids_around l n with heq | heq
  · rw [heq] at h
    cases h
  · rw [heq] at h
    exact List.mem_cons.mp h

theorem Nest.nodup_uids_around {l : Loop} {n : Nest} (hl : l.uid ∉ n.uids) (h : n.uids.Nodup) :
    (n.around l).uids.Nodup := by
  rcases Nest.uids_around l n with heq | heq
  · rw [heq]
    exact .nil
  · rw [heq]
    exact List.nodup_cons.mpr ⟨hl, h⟩

theorem mapM_eq_some_map {α β : Type} {g : α → Option β} {f : α → β} {xs : List α}
    (h : ∀ x ∈ xs, g x = some (f x)) : xs.mapM g = some (xs.map f) := by
  induction xs with
  | nil => rfl
  | cons x xs ih =>
    rw [List.mapM_cons, h x List.mem_cons_self, ih fun y hy => h y (List.mem_cons_of_mem _ hy)]
    rfl

theorem Nest.run_around {l : Loop} {n : Nest} {indices : Indices} {f : Nat → List (String × Scalar)}
    (h : ∀ i < l.size, n.run (indices ++ [(l.variableName, i)]) = some (f i)) :
    (n.around l).run indices = some ((List.range l.size).flatMap f) := by
  have items : (List.range l.size).mapM (fun i => n.run (indices ++ [(l.variableName, i)])) =
      some ((List.range l.size).map f) :=
    mapM_eq_some_map fun i hi => h i (List.mem_range.mp hi)
  by_cases hdone : n = .done
  · subst hdone
    have empty : (List.range l.size).flatMap f = [] := by
      rw [List.flatMap_eq_nil_iff]
      intro i hi
      exact (Option.some.inj (h i (List.mem_range.mp hi))).symm
    rw [empty]
    rfl
  · have loop : n.around l = .loop l n .done := by
      cases n with
      | done => exact absurd rfl hdone
      | row r rest => rfl
      | loop k body rest => rfl
    rw [loop, run, items]
    exact congrArg some (List.append_nil _)

end LoopNest

namespace Outline

def nest : Outline → Option Template → List ArrayLevel → Cursor → Nest
  | .skip _, _, _, _ => .done
  | .row name, path, arrays, c =>
    .row (Spot.row ⟨String.ofList ((rowTemplate path name).fill (indexTexts arrays)), c.offset, arrays⟩)
      .done
  | .both a b, path, arrays, c => (a.nest path arrays c).append (b.nest path arrays (a.after c))
  | .enter name body, path, arrays, c => body.nest (some (qualify path name)) arrays c
  | .loop name size stride body, path, arrays, c =>
    if size = 0 then .done
    else (body.nest (some (qualify path name).indexed) (arrays ++ [⟨size, stride, c.uid, 0⟩])
      (body.item c 0)).around ⟨c.uid, size, variableName arrays.length⟩

theorem arrays_of_mem_expand {o : Outline} {path : Option Template} {arrays : List ArrayLevel} {c : Cursor}
    {s : Spot} (h : s ∈ o.expand path arrays c) : ∃ more, s.arrays = arrays ++ more := by
  induction o generalizing path arrays c with
  | skip n => cases h
  | row name =>
    rw [List.mem_singleton.mp h]
    exact ⟨[], (List.append_nil arrays).symm⟩
  | both a b iha ihb =>
    rcases List.mem_append.mp h with h | h
    · exact iha h
    · exact ihb h
  | enter name body ih => exact ih h
  | loop name size stride body ih =>
    obtain ⟨i, _, h⟩ := List.mem_flatMap.mp h
    obtain ⟨more, heq⟩ := ih h
    exact ⟨_, heq.trans (List.append_assoc _ _ _)⟩

theorem nest_rows {o : Outline} {path : Option Template} {arrays : List ArrayLevel} {c : Cursor}
    (h : ∀ a ∈ arrays, a.index = 0) :
    (o.nest path arrays c).rows = ((o.expand path arrays c).filter Spot.isFirst).map Spot.row := by
  induction o generalizing path arrays c with
  | skip n => rfl
  | row name =>
    have first : Spot.isFirst ⟨String.ofList ((rowTemplate path name).fill (indexTexts arrays)), c.offset,
        arrays⟩ = true := by
      simpa [Spot.isFirst] using h
    rw [expand, List.filter_cons_of_pos first]
    rfl
  | both a b iha ihb => rw [nest, Nest.rows_append, iha h, ihb h, expand, List.filter_append, List.map_append]
  | enter name body ih => exact ih h
  | loop name size stride body ih =>
    cases size with
    | zero => rfl
    | succ size =>
      rw [nest, if_neg (Nat.succ_ne_zero size), Nest.rows_around, ih ?_, expand, List.range_succ_eq_map,
        List.flatMap_cons, List.filter_append, List.map_append]
      · -- The other items are no first ones.
        have others : ((List.range size).map Nat.succ |>.flatMap fun i =>
            body.expand (some (qualify path name).indexed) (arrays ++ [⟨size + 1, stride, c.uid, i⟩])
              (body.item c i)).filter Spot.isFirst = [] := by
          rw [List.filter_eq_nil_iff]
          intro s hs
          obtain ⟨i, hi, hs⟩ := List.mem_flatMap.mp hs
          obtain ⟨k, _, rfl⟩ := List.mem_map.mp hi
          obtain ⟨more, heq⟩ := arrays_of_mem_expand hs
          simp [Spot.isFirst, heq]
        rw [others, List.map_nil, List.append_nil]
      · intro a ha
        rcases List.mem_append.mp ha with ha | ha
        · exact h a ha
        · rw [List.mem_singleton.mp ha]

theorem nest_scoped (o : Outline) (path : Option Template) (arrays : List ArrayLevel) (c : Cursor) :
    (o.nest path arrays c).Scoped ((loopLevels arrays).map LoopLevel.loop) := by
  induction o generalizing path arrays c with
  | skip n => trivial
  | row name => exact ⟨rfl, trivial⟩
  | both a b iha ihb => exact Nest.scoped_append (iha path arrays c) (ihb path arrays (a.after c))
  | enter name body ih => exact ih _ arrays c
  | loop name size stride body ih =>
    rw [nest]
    split
    · trivial
    · refine Nest.scoped_around ?_
      have inner := ih (some (qualify path name).indexed) (arrays ++ [⟨size, stride, c.uid, 0⟩])
        (body.item c 0)
      rwa [loopLevels_concat, List.map_append] at inner

theorem nest_uids_bounds (o : Outline) (path : Option Template) (arrays : List ArrayLevel) (c : Cursor) :
    ∀ u ∈ (o.nest path arrays c).uids, c.uid ≤ u ∧ u < c.uid + o.uids := by
  induction o generalizing path arrays c with
  | skip n => simp [nest, Nest.uids]
  | row name => simp [nest, Nest.uids]
  | both a b iha ihb =>
    intro u hu
    rw [nest, Nest.uids_append] at hu
    rw [uids]
    rcases List.mem_append.mp hu with hu | hu
    · have h := iha path arrays c u hu
      omega
    · have h := ihb path arrays (a.after c) u hu
      simp only [after] at h
      omega
  | enter name body ih => exact ih _ arrays c
  | loop name size stride body ih =>
    rw [nest]
    split
    · simp [Nest.uids]
    · rename_i hsize
      have bounds := ih (some (qualify path name).indexed) (arrays ++ [⟨size, stride, c.uid, 0⟩])
        (body.item c 0)
      simp only [item, Nat.mul_zero, Nat.add_zero] at bounds
      have hitems : body.uids ≤ body.uids * size := Nat.le_mul_of_pos_right _ (Nat.pos_of_ne_zero hsize)
      intro u hu
      rw [uids]
      rcases Nest.mem_uids_around hu with rfl | hu
      · dsimp only
        omega
      · have h := bounds u hu
        omega

theorem nest_uids_nodup (o : Outline) (path : Option Template) (arrays : List ArrayLevel) (c : Cursor) :
    (o.nest path arrays c).uids.Nodup := by
  induction o generalizing path arrays c with
  | skip n => exact .nil
  | row name => exact .nil
  | both a b iha ihb =>
    rw [nest, Nest.uids_append]
    refine List.nodup_append.mpr ⟨iha path arrays c, ihb path arrays (a.after c), ?_⟩
    intro u hu v hv
    have h := nest_uids_bounds a path arrays c u hu
    have h' := nest_uids_bounds b path arrays (a.after c) v hv
    simp only [after] at h'
    omega
  | enter name body ih => exact ih _ arrays c
  | loop name size stride body ih =>
    rw [nest]
    split
    · exact .nil
    · refine Nest.nodup_uids_around ?_ (ih _ _ _)
      intro hu
      have h := nest_uids_bounds body _ _ _ _ hu
      simp only [item] at h
      omega

/-- The template of a place in the first items of nested arrays. -/
structure Placed (path : Option Template) (arrays : List ArrayLevel) : Prop where
  depth : (path.map fun t => t.pieces.length).getD 0 = arrays.length
  plain : ∀ t ∈ path, t.Plain
  first : ∀ a ∈ arrays, a.index = 0
  strided : ∀ a ∈ arrays, a.stride < Typedef.sizeLimit

theorem placed_qualify {path : Option Template} {arrays : List ArrayLevel} (h : Placed path arrays)
    {name : String} (hname : '[' ∉ name.toList) : Placed (some (qualify path name)) arrays := by
  obtain ⟨depth, plain, first, strided⟩ := h
  cases path with
  | none => exact ⟨depth, by rintro t ⟨⟩; exact Template.plain_nil hname, first, strided⟩
  | some t =>
    refine ⟨depth, ?_, first, strided⟩
    rintro _ ⟨⟩
    obtain ⟨hpieces, hlast⟩ := plain t rfl
    refine ⟨hpieces, ?_⟩
    simp only [qualify, Template.extend, List.mem_append, List.mem_cons, not_or]
    exact ⟨hlast, by decide, hname⟩

theorem placed_indexed {t : Template} {arrays : List ArrayLevel} (h : Placed (some t) arrays)
    {a : ArrayLevel} (hindex : a.index = 0) (hstride : a.stride < Typedef.sizeLimit) :
    Placed (some t.indexed) (arrays ++ [a]) := by
  obtain ⟨depth, plain, first, strided⟩ := h
  simp only [Option.map_some, Option.getD_some] at depth
  refine ⟨by simp [Template.indexed, depth], ?_,
    List.forall_mem_append.mpr ⟨first, List.forall_mem_singleton.mpr hindex⟩,
    List.forall_mem_append.mpr ⟨strided, List.forall_mem_singleton.mpr hstride⟩⟩
  rintro _ ⟨⟩
  obtain ⟨hpieces, hlast⟩ := plain t rfl
  refine ⟨?_, by simp [Template.indexed]⟩
  intro piece hmem
  rcases List.mem_append.mp hmem with hmem | hmem
  · exact hpieces piece hmem
  · exact List.mem_singleton.mp hmem ▸ hlast

theorem placed_row {path : Option Template} {arrays : List ArrayLevel} (h : Placed path arrays)
    {name : Option String} (hname : ∀ n ∈ name, '[' ∉ n.toList) :
    Placed (some (rowTemplate path name)) arrays := by
  cases name with
  | some name => exact placed_qualify h (hname name rfl)
  | none =>
    obtain ⟨depth, plain, first, strided⟩ := h
    cases path with
    | none => exact ⟨depth, by rintro t ⟨⟩; exact Template.plain_nil List.not_mem_nil, first, strided⟩
    | some t => exact ⟨depth, plain, first, strided⟩

section Rows

variable {t : Template} {arrays there : List ArrayLevel}

theorem indexText_variables (hthere : there.length = arrays.length) :
    ((loopLevels arrays).map fun l => l.variableName.toList).map
      (indexText (indicesOf (there.map (·.index)))) = indexTexts there := by
  have length : (there.map (·.index)).length = arrays.length := by rw [List.length_map, hthere]
  have pairs := get?_indicesOf length
  have texts : ∀ (ls : List LoopLevel) (is : List Nat),
      List.Forall₂ (fun (l : LoopLevel) (i : Nat) =>
        Entries.get? (indicesOf (there.map (·.index))) l.variableName = some i) ls is →
      (ls.map fun l => l.variableName.toList).map (indexText (indicesOf (there.map (·.index)))) =
        is.map (Nat.toDigits 10) := by
    intro ls is h
    induction h with
    | nil => rfl
    | cons hget _ ih =>
      rw [List.map_cons, List.map_cons, ih, List.map_cons, indexText, String.ofList_toList, hget]
      simp
  rw [texts _ _ pairs, indexTexts, List.map_map]
  rfl

theorem substitute_loopName (ht : Placed (some t) arrays) (hthere : there.length = arrays.length) :
    String.ofList (substitute (indicesOf (there.map (·.index))) none
      (loopName (String.ofList (t.fill (indexTexts arrays))) (loopLevels arrays)).toList) =
      String.ofList (t.fill (indexTexts there)) := by
  have zeros : indexTexts arrays = (loopLevels arrays).map fun _ => ['0'] := by
    rw [List.map_const', length_loopLevels, ← List.map_const']
    refine List.map_congr_left fun a ha => ?_
    rw [ht.first a ha]
    rfl
  have plain := ht.plain t rfl
  have depth : t.pieces.length = (loopLevels arrays).length := by
    rw [length_loopLevels]
    exact ht.depth
  rw [zeros, loopName_fill plain depth variableName_of_mem_loopLevels, String.toList_ofList,
    substitute_fill plain ?_, indexText_variables hthere]
  intro v hv
  obtain ⟨l, hl, rfl⟩ := List.mem_map.mp hv
  obtain ⟨level, hlevel⟩ := variableName_of_mem_loopLevels l hl
  exact hlevel ▸ plain_variableName level

theorem evaluate_loopOffset_indices {base : Nat} (hthere : there.length = arrays.length)
    (hstride : ∀ a ∈ arrays, a.stride < Typedef.sizeLimit)
    (hfit : base + shift (loopLevels arrays) (there.map (·.index)) < Typedef.sizeLimit) :
    evaluate (loopOffset base (loopLevels arrays))
      (Entries.mapValues (indicesOf (there.map (·.index))) fun i => .int i) =
      .ok (.int (base + shift (loopLevels arrays) (there.map (·.index)) : Nat)) := by
  refine evaluate_loopOffset variableName_of_mem_loopLevels ?_ ?_ hfit
  · refine (get?_indicesOf (by simpa using hthere)).imp fun l i h => ?_
    rw [Entries.get?_mapValues, h]
    rfl
  · intro l hl
    obtain ⟨a, ha, rfl⟩ := List.mem_map.mp hl
    exact hstride a.1 (List.fst_mem_of_mem_zipIdx ha)

end Rows

theorem nest_run {o : Outline} (hstrided : o.Strided) (hplain : o.Plain) {path : Option Template}
    {arrays there : List ArrayLevel} {c c' : Cursor} (hplaced : Placed path arrays)
    (hthere : there.length = arrays.length)
    (hoffset : c'.offset = c.offset + shift (loopLevels arrays) (there.map (·.index)))
    (hfit : c'.offset + o.bytes < Typedef.sizeLimit) :
    (o.nest path arrays c).run (indicesOf (there.map (·.index))) =
      some ((o.expand path there c').map Spot.result) := by
  induction o generalizing path arrays there c c' with
  | skip n => rfl
  | row name =>
    simp only [bytes, Nat.add_zero] at hfit
    have name := substitute_loopName (placed_row hplaced hplain) hthere
    have offset := evaluate_loopOffset_indices hthere hplaced.strided (hoffset ▸ hfit)
    rw [← hoffset] at offset
    simp only [nest, Nest.run, Spot.row, expand, name, offset, Except.toOption, Option.bind_eq_bind,
      Option.bind_some, pure]
    rfl
  | both a b iha ihb =>
    rw [nest, expand, List.map_append]
    simp only [bytes] at hfit
    refine Nest.run_append (iha hstrided.1 hplain.1 hplaced hthere hoffset (by omega))
      (ihb hstrided.2 hplain.2 hplaced hthere ?_ ?_)
    · simp only [after]
      omega
    · simp only [after]
      omega
  | enter name body ih => exact ih hstrided hplain.2 (placed_qualify hplaced hplain.1) hthere hoffset hfit
  | loop name size stride body ih =>
    rw [nest]
    split
    · rename_i hsize
      subst hsize
      rfl
    · obtain ⟨hbytes, hbody⟩ := hstrided
      rw [expand, List.map_flatMap]
      refine Nest.run_around fun i hi => ?_
      -- Item `i` lies `i` strides behind the first one and still ends within the array.
      have hitem : body.bytes * i + body.bytes ≤ body.bytes * size := by
        rw [← Nat.mul_succ]
        exact Nat.mul_le_mul_left _ hi
      simp only [bytes] at hfit
      have placed : Placed (some (qualify path name).indexed) (arrays ++ [⟨size, stride, c.uid, 0⟩]) :=
        placed_indexed (placed_qualify hplaced hplain.1) rfl (by dsimp only; omega)
      have length : (there ++ [(⟨size, stride, c'.uid, i⟩ : ArrayLevel)]).length =
          (arrays ++ [(⟨size, stride, c.uid, 0⟩ : ArrayLevel)]).length := by
        simp [hthere]
      have offset : (body.item c' i).offset = (body.item c 0).offset +
          shift (loopLevels (arrays ++ [⟨size, stride, c.uid, 0⟩]))
            ((there ++ [(⟨size, stride, c'.uid, i⟩ : ArrayLevel)]).map (·.index)) := by
        rw [loopLevels_concat, List.map_append, List.map_singleton, shift_concat (by
          rw [List.length_map, length_loopLevels, hthere])]
        simp only [item, Nat.mul_zero, Nat.add_zero, hbytes]
        omega
      have fit : (body.item c' i).offset + body.bytes < Typedef.sizeLimit := by
        simp only [item]
        omega
      have inner := ih hbody hplain.2 placed length offset fit
      rwa [List.map_append, List.map_singleton, indicesOf_concat, List.length_map, hthere] at inner

end Outline

namespace LoopNest

theorem map_row_markAll (before : Option Record) (rs : List Record) :
    (markAll before rs).map Record.row = rs.map Record.row := by
  induction rs generalizing before with
  | nil => rfl
  | cons r rest ih => rw [markAll, List.map_cons, List.map_cons, row_mark, ih]

theorem map_row_generic (rs : List Record) :
    ((rs.filter Record.isFirst).map generic).map Record.row =
      ((rs.map Record.spot).filter Spot.isFirst).map Spot.row := by
  rw [List.filter_map, List.map_map, List.map_map]
  rfl

end LoopNest

theorem FlatMap.WalkedIn.outlined {table : TypeTable} (hr : table.Resolved) (hp : table.Plain)
    {m : FlatMap} (h : m.WalkedIn table) : ∃ (o : Outline) (uid : Nat), o.Strided ∧ o.Plain ∧
      o.bytes = m.size ∧ m.records.map Record.spot = o.expand none [] ⟨0, uid⟩ := by
  obtain ⟨root, records, uid, next, hroot, hsize, hwalk, hplace⟩ := h
  obtain ⟨o, strided, plain, hbytes, hspots⟩ := Walk.flatten_outlined hr hp hroot hwalk
  have view := congrArg (List.map fun p : Placement => (⟨p.name, p.mapOffset, p.arrays⟩ : Spot)) hplace
  rw [List.map_map, List.map_map] at view
  exact ⟨o, uid, strided, plain, hbytes.trans hsize.symm, view.trans hspots⟩

namespace LoopNest

variable {o : Outline} {uid : Nat} {rs : List Record}

theorem rows_of_spots (h : rs.map Record.spot = o.expand none [] ⟨0, uid⟩) :
    ((rs.filter Record.isFirst).map generic).map Record.row = (o.nest none [] ⟨0, uid⟩).rows := by
  have nestRows : (o.nest none [] ⟨0, uid⟩).rows =
      ((o.expand none [] ⟨0, uid⟩).filter Spot.isFirst).map Spot.row :=
    Outline.nest_rows fun a ha => absurd ha List.not_mem_nil
  rw [map_row_generic, h, nestRows]

theorem read_fold (h : rs.map Record.spot = o.expand none [] ⟨0, uid⟩) :
    read (fold rs) = some (o.nest none [] ⟨0, uid⟩) :=
  read_markAll (Outline.nest_scoped o none [] ⟨0, uid⟩) (Outline.nest_uids_nodup o none [] ⟨0, uid⟩)
    (rows_of_spots h)

theorem rows_fold (h : rs.map Record.spot = o.expand none [] ⟨0, uid⟩) :
    (o.nest none [] ⟨0, uid⟩).rows = (fold rs).map Record.row := by
  rw [fold, map_row_markAll, rows_of_spots h]

theorem nodup_variables_fold {r : Record} (hr : r ∈ fold rs) : (r.loops.map (·.variableName)).Nodup := by
  have hrow : r.row ∈ ((rs.map Record.spot).filter Spot.isFirst).map Spot.row := by
    rw [← map_row_generic, ← map_row_markAll none]
    exact List.mem_map_of_mem hr
  obtain ⟨s, _, heq⟩ := List.mem_map.mp hrow
  have names := congrArg (fun r : Row => r.loops.map Loop.variableName) heq
  simp only [Spot.row, Record.row, List.map_map] at names
  have distinct := nodup_variableNames s.arrays
  exact names ▸ distinct

theorem run_nest (hstrided : o.Strided) (hplain : o.Plain) (hfit : o.bytes < Typedef.sizeLimit)
    (h : rs.map Record.spot = o.expand none [] ⟨0, uid⟩) :
    (o.nest none [] ⟨0, uid⟩).run [] = some (rs.map fun r => (r.name, .int r.mapOffset)) := by
  have start : Outline.Placed none [] :=
    ⟨rfl, by rintro t ⟨⟩, fun a ha => absurd ha List.not_mem_nil, fun a ha => absurd ha List.not_mem_nil⟩
  have fit : (⟨0, uid⟩ : Cursor).offset + o.bytes < Typedef.sizeLimit := by simpa using hfit
  have ran : (o.nest none [] ⟨0, uid⟩).run [] = some ((o.expand none [] ⟨0, uid⟩).map Spot.result) :=
    Outline.nest_run hstrided hplain start rfl rfl fit
  rw [ran, ← h, List.map_map]
  rfl

end LoopNest

/-- Read as a loop nest, the folded records of a map are properly bracketed, each array is one loop, the
    variables around a record are distinct, and running the nest gives the records of the map. -/
theorem Resolution.folded_runs_records {d : Description} {c : ResolvedMap} (h : resolve d patterns = .ok c)
    (helements : ∀ t ∈ c.typedefs, ∀ e ∈ t.2.elements, '[' ∉ e.name.toList)
    (hmembers : ∀ b ∈ c.bitfields, ∀ m ∈ b.2.members, '[' ∉ m.name.toList)
    {m : FlatMap} (hm : m ∈ c.maps) (hsize : m.size < Typedef.sizeLimit) :
    ∃ n, LoopNest.read m.folded = some n ∧ n.rows = m.folded.map Record.row ∧ n.Scoped [] ∧ n.uids.Nodup ∧
      (∀ r ∈ m.folded, (∀ l ∈ r.loops, l.uid ∈ n.uids) ∧ (r.loops.map (·.variableName)).Nodup) ∧
      n.run [] = some (m.records.map fun r => (r.name, .int r.mapOffset)) := by
  obtain ⟨table, walked⟩ := resolve_walkedFrom h
  have plain : table.Plain :=
    ⟨fun name t ht => helements (name, t) (walked.typedefs name t ht),
      fun name b hb => hmembers (name, b) (walked.bitfields name b hb)⟩
  obtain ⟨o, uid, strided, oplain, hbytes, spots⟩ := (walked.walked m hm).outlined walked.resolved plain
  have nestScoped := Outline.nest_scoped o none [] ⟨0, uid⟩
  have rows := LoopNest.rows_fold spots
  rw [walked.folded m hm]
  refine ⟨o.nest none [] ⟨0, uid⟩, LoopNest.read_fold spots, rows, nestScoped,
    Outline.nest_uids_nodup o none [] ⟨0, uid⟩, fun r hr => ⟨?_, LoopNest.nodup_variables_fold hr⟩,
    LoopNest.run_nest strided oplain (hbytes ▸ hsize) spots⟩
  intro l hl
  have hrow : r.row ∈ (o.nest none [] ⟨0, uid⟩).rows := rows ▸ List.mem_map_of_mem hr
  obtain ⟨us, hus, hmem⟩ := Nest.uids_of_mem_rows nestScoped hrow
  have huid : l.uid ∈ r.row.uids := List.mem_map_of_mem (List.mem_map_of_mem hl)
  rw [hus] at huid
  exact hmem l.uid huid

namespace Resolution

theorem plain_pairs :
    (finish (finished .pairs).state).typedefs.all
        (fun t => t.2.elements.all fun e => !e.name.toList.contains '[') = true ∧
      (finish (finished .pairs).state).bitfields.all
        (fun b => b.2.members.all fun m => !m.name.toList.contains '[') = true := by
  decide +kernel

theorem folded_runs_pairs : ∃ c, resolve .pairs = .ok c ∧ ∃ m ∈ c.maps, m.size = 6 ∧
    ∃ n, LoopNest.read m.folded = some n ∧ n.uids.Nodup ∧
      n.run [] = some (m.records.map fun r => (r.name, .int r.mapOffset)) := by
  obtain ⟨hnone, hmeta, hsizes⟩ := finished_pairs
  obtain ⟨c, metadata, hc, rfl⟩ := resolves_of_finished hnone hmeta
  obtain ⟨m, hm, hsize⟩ := List.map_eq_singleton_iff.mp hsizes
  have hmem : m ∈ (finished .pairs).state.maps := by simp [hm]
  obtain ⟨helements, hmembers⟩ := plain_pairs
  obtain ⟨n, hread, _, _, hnodup, _, hrun⟩ := folded_runs_records hc
    (fun t ht e he => by
      simpa using List.all_eq_true.mp (List.all_eq_true.mp helements t ht) e he)
    (fun b hb k hk => by
      simpa using List.all_eq_true.mp (List.all_eq_true.mp hmembers b hb) k hk)
    hmem (hsize ▸ by decide)
  exact ⟨_, hc, m, hmem, hsize, n, hread, hnodup, hrun⟩

end Resolution

end AddressMap
