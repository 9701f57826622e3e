import AddressMap.Record.LoopNest

set_option autoImplicit false

/-!
The folded records of a map are read as a program: a record opens the loops that are marked as opening
there, outermost first, stands in all its loops, and closes the loops that are marked as closing,
innermost first. The marks come from comparing neighbours only. Wherever the records stem from a nest
whose loops have different numbers, they give just this nest back.
-/

namespace AddressMap

namespace LoopNest

/-- A loop over the indices below `size`. The number tells it from the other loops. -/
structure Loop where
  uid : Nat
  size : Nat
  variableName : String

structure Row where
  name : String
  loopOffset : Option String
  loops : List Loop

def Row.uids (r : Row) : List Nat := r.loops.map Loop.uid

inductive Token where
  | opens (l : Loop)
  | row (r : Row)
  | closes (uid : Nat)

inductive Nest where
  | done
  | row (r : Row) (rest : Nest)
  | loop (l : Loop) (body rest : Nest)

end LoopNest

open LoopNest

def LoopLevel.loop (l : LoopLevel) : Loop := ⟨l.uid, l.size, l.variableName⟩

def Record.row (r : Record) : Row := ⟨r.name, r.loopOffset, r.loops.map LoopLevel.loop⟩

namespace LoopNest

def rowTokens (r : Record) : List Token :=
  (r.loops.filter (·.opens)).map (fun l => .opens l.loop) ++
    .row r.row :: (r.loops.filter (·.closes)).reverse.map fun l => .closes l.uid

def program (rows : List Record) : List Token := rows.flatMap rowTokens

/-- Reads tokens from the last one to the first: the nest read so far, and for every loop that is closed
    but not yet opened its number and what follows it. -/
def readFrom : List Token → Option (Nest × List (Nat × Nest))
  | [] => some (.done, [])
  | t :: ts =>
    match t, readFrom ts with
    | .row r, some (n, pending) => some (.row r n, pending)
    | .closes uid, some (n, pending) => some (.done, (uid, n) :: pending)
    | .opens l, some (n, (uid, rest) :: pending) =>
      if uid = l.uid then some (.loop l n rest, pending) else none
    | _, _ => none

def read (rows : List Record) : Option Nest :=
  match readFrom (program rows) with
  | some (n, []) => some n
  | _ => none

namespace Nest

def append : Nest → Nest → Nest
  | .done, m => m
  | .row r rest, m => .row r (rest.append m)
  | .loop l body rest, m => .loop l body (rest.append m)

def tokens : Nest → List Token
  | .done => []
  | .row r rest => .row r :: rest.tokens
  | .loop l body rest => .opens l :: (body.tokens ++ .closes l.uid :: rest.tokens)

def rows : Nest → List Row
  | .done => []
  | .row r rest => r :: rest.rows
  | .loop _ body rest => body.rows ++ rest.rows

def uids : Nest → List Nat
  | .done => []
  | .row _ rest => rest.uids
  | .loop l body rest => l.uid :: (body.uids ++ rest.uids)

/-- Every row lists the loops around it, outermost first, and no loop is without rows. -/
def Scoped (outer : List Loop) : Nest → Prop
  | .done => True
  | .row r rest => r.loops = outer ∧ rest.Scoped outer
  | .loop l body rest => body ≠ .done ∧ body.Scoped (outer ++ [l]) ∧ rest.Scoped outer

theorem append_done (n : Nest) : n.append .done = n := by
  induction n with
  | done => rfl
  | row r rest ih => rw [append, ih]
  | loop l body rest _ ih => rw [append, ih]

theorem rows_append (n m : Nest) : (n.append m).rows = n.rows ++ m.rows := by
  induction n with
  | done => rfl
  | row r rest ih => rw [append, rows, ih, rows, List.cons_append]
  | loop l body rest _ ih => rw [append, rows, ih, rows, List.append_assoc]

theorem uids_append (n m : Nest) : (n.append m).uids = n.uids ++ m.uids := by
  induction n with
  | done => rfl
  | row r rest ih => rw [append, uids, ih, uids]
  | loop l body rest _ ih => rw [append, uids, ih, uids, List.cons_append, List.append_assoc]

theorem scoped_append {outer : List Loop} {n m : Nest} (hn : n.Scoped outer) (hm : m.Scoped outer) :
    (n.append m).Scoped outer := by
  induction n with
  | done => exact hm
  | row r rest ih => exact ⟨hn.1, ih hn.2⟩
  | loop l body rest _ ih => exact ⟨hn.1, hn.2.1, ih hn.2.2⟩

theorem readFrom_tokens {n m : Nest} {ts : List Token} {pending : List (Nat × Nest)}
    (h : readFrom ts = some (m, pending)) : readFrom (n.tokens ++ ts) = some (n.append m, pending) := by
  induction n generalizing ts m pending with
  | done => exact h
  | row r rest ih => simp only [tokens, List.cons_append, readFrom, ih h, append]
  | loop l body rest ihbody ih =>
    have closed : readFrom (.closes l.uid :: (rest.tokens ++ ts)) =
        some (.done, (l.uid, rest.append m) :: pending) := by
      simp only [readFrom, ih h]
    have inner := ihbody closed
    rw [append_done] at inner
    simp only [tokens, List.cons_append, List.append_assoc, readFrom, inner, if_true, append]

theorem rows_ne_nil {outer : List Loop} {n : Nest} (h : n.Scoped outer) (hne : n ≠ .done) :
    n.rows ≠ [] := by
  induction n generalizing outer with
  | done => exact absurd rfl hne
  | row r rest _ => exact List.cons_ne_nil _ _
  | loop l body rest ihbody _ => exact List.append_ne_nil_of_left_ne_nil (ihbody h.2.1 h.1) _

theorem uids_of_mem_rows {outer : List Loop} {n : Nest} (h : n.Scoped outer) {r : Row} (hr : r ∈ n.rows) :
    ∃ us, r.uids = outer.map Loop.uid ++ us ∧ ∀ u ∈ us, u ∈ n.uids := by
  induction n generalizing outer with
  | done => cases hr
  | row s rest ih =>
    rcases List.mem_cons.mp hr with rfl | hr
    · exact ⟨[], by rw [Row.uids, h.1, List.append_nil], by simp⟩
    · exact ih h.2 hr
  | loop l body rest ihbody ih =>
    rcases List.mem_append.mp hr with hr | hr
    · obtain ⟨us, hus, hmem⟩ := ihbody h.2.1 hr
      refine ⟨l.uid :: us, by rw [hus, List.map_append, List.append_assoc]; rfl, ?_⟩
      intro u hu
      rcases List.mem_cons.mp hu with rfl | hu
      · exact List.mem_cons_self
      · exact List.mem_cons_of_mem _ (List.mem_append_left _ (hmem u hu))
    · obtain ⟨us, hus, hmem⟩ := ih h.2.2 hr
      exact ⟨us, hus, fun u hu => List.mem_cons_of_mem _ (List.mem_append_right _ (hmem u hu))⟩

end Nest

def changed : List Nat → List Loop → List Loop
  | _, [] => []
  | [], l :: ls => l :: changed [] ls
  | u :: us, l :: ls => if u = l.uid then changed us ls else l :: changed us ls

theorem changed_nil (ls : List Loop) : changed [] ls = ls := by
  induction ls with
  | nil => rfl
  | cons l ls ih => rw [changed, ih]

theorem changed_prefix (ls : List Loop) (us : List Nat) : changed (ls.map Loop.uid ++ us) ls = [] := by
  induction ls with
  | nil => cases us <;> rfl
  | cons l ls ih => simpa only [List.map_cons, List.cons_append, changed, if_true] using ih

theorem changed_concat {us : List Nat} {l : Loop} (h : l.uid ∉ us) (ls : List Loop) :
    changed us (ls ++ [l]) = changed us ls ++ [l] := by
  induction ls generalizing us with
  | nil =>
    cases us with
    | nil => rfl
    | cons u us =>
      have hne : u ≠ l.uid := fun heq => h (heq ▸ List.mem_cons_self)
      have htail : l.uid ∉ us := fun hmem => h (List.mem_cons_of_mem _ hmem)
      simp only [List.nil_append, changed, hne, if_false]
  | cons k ls ih =>
    cases us with
    | nil => simp only [List.cons_append, changed, changed_nil]
    | cons u us =>
      have tail := ih (fun hmem => h (List.mem_cons_of_mem _ hmem))
      simp only [List.cons_append, changed, tail]
      split
      · rfl
      · rfl

def next (after : List Nat) : List Row → List Nat
  | [] => after
  | r :: _ => r.uids

def last (before : List Nat) : List Row → List Nat
  | [] => before
  | r :: rest => last r.uids rest

/-- Rows with the loops that they open and close between their neighbours. -/
def bracket (before after : List Nat) : List Row → List Token
  | [] => []
  | r :: rest =>
    (changed before r.loops).map .opens ++
      .row r :: ((changed (next after rest) r.loops).reverse.map fun l => .closes l.uid) ++
      bracket r.uids after rest

theorem next_rows (after : List Nat) {outer : List Loop} {n : Nest} (h : n.Scoped outer) (hne : n ≠ .done) :
    ∃ us, next after n.rows = outer.map Loop.uid ++ us ∧ ∀ u ∈ us, u ∈ n.uids := by
  have hrows := Nest.rows_ne_nil h hne
  cases hn : n.rows with
  | nil => exact absurd hn hrows
  | cons r rest =>
    have hr : r ∈ n.rows := hn ▸ List.mem_cons_self
    exact Nest.uids_of_mem_rows h hr

theorem last_mem (before : List Nat) {rs : List Row} (h : rs ≠ []) : ∃ r ∈ rs, last before rs = r.uids := by
  induction rs generalizing before with
  | nil => exact absurd rfl h
  | cons r rest ih =>
    by_cases hrest : rest = []
    · subst hrest
      exact ⟨r, List.mem_cons_self, rfl⟩
    · obtain ⟨s, hs, heq⟩ := ih r.uids hrest
      exact ⟨s, List.mem_cons_of_mem _ hs, heq⟩

theorem last_rows (before : List Nat) {outer : List Loop} {n : Nest} (h : n.Scoped outer) (hne : n ≠ .done) :
    ∃ us, last before n.rows = outer.map Loop.uid ++ us ∧ ∀ u ∈ us, u ∈ n.uids := by
  obtain ⟨r, hr, heq⟩ := last_mem before (Nest.rows_ne_nil h hne)
  rw [heq]
  exact Nest.uids_of_mem_rows h hr

theorem bracket_append (before after : List Nat) (rs ss : List Row) :
    bracket before after (rs ++ ss) =
      bracket before (next after ss) rs ++ bracket (last before rs) after ss := by
  induction rs generalizing before with
  | nil => rfl
  | cons r rest ih =>
    have hnext : next after (rest ++ ss) = next (next after ss) rest := by
      cases rest with
      | nil => rfl
      | cons s tail => rfl
    rw [List.cons_append, bracket, bracket, ih, hnext, last]
    simp only [List.append_assoc, List.cons_append]

section Distinct

variable {outer : List Loop} {l : Loop} {body rest : Nest}

theorem nodup_body (h : (outer.map Loop.uid ++ (Nest.loop l body rest).uids).Nodup) :
    ((outer ++ [l]).map Loop.uid ++ body.uids).Nodup := by
  rw [List.map_append, List.append_assoc]
  refine h.sublist (List.Sublist.append_left ?_ _)
  exact List.Sublist.cons_cons _ (List.sublist_append_left _ _)

theorem nodup_rest (h : (outer.map Loop.uid ++ (Nest.loop l body rest).uids).Nodup) :
    (outer.map Loop.uid ++ rest.uids).Nodup := by
  refine h.sublist (List.Sublist.append_left ?_ _)
  exact (List.sublist_append_right _ _).cons _

theorem apart_of_nodup (h : (outer.map Loop.uid ++ (Nest.loop l body rest).uids).Nodup) {u : Nat}
    (hu : u = l.uid ∨ u ∈ body.uids) : u ∉ outer.map Loop.uid ∧ u ∉ rest.uids := by
  simp only [Nest.uids, List.nodup_append, List.nodup_cons, List.mem_cons, List.mem_append,
    not_or] at h
  obtain ⟨_, ⟨⟨_, hloop⟩, _, _, hcross⟩, houter⟩ := h
  refine ⟨fun hin => houter u hin u (hu.imp_right .inl) rfl, fun hin => ?_⟩
  rcases hu with rfl | hu
  · exact hloop hin
  · exact hcross u hu u hin rfl

/-- What follows a loop closes it, for its number does not occur there. -/
theorem not_mem_next (h : (outer.map Loop.uid ++ (Nest.loop l body rest).uids).Nodup)
    (hrest : rest.Scoped outer) {after : List Nat} {u : Nat} (hu : u = l.uid ∨ u ∈ body.uids)
    (ha : u ∉ after) : u ∉ next after rest.rows := by
  obtain ⟨houter, hfollowing⟩ := apart_of_nodup h hu
  by_cases hdone : rest = .done
  · subst hdone
    exact ha
  · obtain ⟨us, hnext, hmem⟩ := next_rows after hrest hdone
    rw [hnext, List.mem_append, not_or]
    exact ⟨houter, fun hin => hfollowing (hmem u hin)⟩

theorem not_mem_last (h : (outer.map Loop.uid ++ (Nest.loop l body rest).uids).Nodup)
    (hbody : body.Scoped (outer ++ [l])) (hne : body ≠ .done) (before : List Nat) {u : Nat}
    (hu : u ∈ rest.uids) : u ∉ last before body.rows := by
  obtain ⟨us, hlast, hmem⟩ := last_rows before hbody hne
  rw [hlast]
  intro hin
  rcases List.mem_append.mp hin with hin | hin
  · rw [List.map_append, List.mem_append, List.map_singleton, List.mem_singleton] at hin
    rcases hin with hin | rfl
    · exact (List.nodup_append.mp (nodup_rest h)).2.2 u hin u hu rfl
    · exact (apart_of_nodup h (.inl rfl)).2 hu
  · exact (apart_of_nodup h (.inr (hmem u hin))).2 hu

end Distinct

/-- The rows of a scoped nest with distinct numbers open and close its loops just where the nest does. The
    outer loops are opened and closed where they differ from the surroundings. -/
theorem bracket_rows {outer : List Loop} {n : Nest} (h : n.Scoped outer) (hne : n ≠ .done)
    (hnodup : (outer.map Loop.uid ++ n.uids).Nodup) {before after : List Nat}
    (hb : ∀ u ∈ n.uids, u ∉ before) (ha : ∀ u ∈ n.uids, u ∉ after) :
    bracket before after n.rows = (changed before outer).map .opens ++ n.tokens ++
      (changed after outer).reverse.map fun l => .closes l.uid := by
  induction n generalizing outer before after with
  | done => exact absurd rfl hne
  | row r rest ih =>
    obtain ⟨hloops, hrest⟩ := h
    rw [Nest.rows, bracket, hloops, Nest.tokens]
    by_cases hdone : rest = .done
    · subst hdone
      simp [Nest.rows, Nest.tokens, bracket, next]
    · -- The next row is in all outer loops as well, so none of them closes here.
      obtain ⟨us, hnext, _⟩ := next_rows after hrest hdone
      have huids : r.uids = outer.map Loop.uid := by rw [Row.uids, hloops]
      have hfresh : ∀ u ∈ rest.uids, u ∉ r.uids := by
        intro u hu hmem
        exact (List.nodup_append.mp hnodup).2.2 u (huids ▸ hmem) u hu rfl
      have hopen := changed_prefix outer []
      rw [List.append_nil, ← huids] at hopen
      rw [hnext, changed_prefix, ih hrest hdone hnodup hfresh ha, hopen]
      simp
  | loop l body rest ihbody ih =>
    obtain ⟨hbody, hscoped, hrest⟩ := h
    have hin : ∀ u, u = l.uid ∨ u ∈ body.uids → u ∈ (Nest.loop l body rest).uids := by
      intro u hu
      simp only [Nest.uids, List.mem_cons, List.mem_append]
      exact hu.imp_right .inl
    have hfollow : ∀ u, u = l.uid ∨ u ∈ body.uids → u ∉ next after rest.rows :=
      fun u hu => not_mem_next hnodup hrest hu (ha u (hin u hu))
    have inner := ihbody hscoped hbody (nodup_body hnodup) (fun u hu => hb u (hin u (.inr hu)))
      (fun u hu => hfollow u (.inr hu))
    rw [changed_concat (hb l.uid List.mem_cons_self), changed_concat (hfollow l.uid (.inl rfl))] at inner
    rw [Nest.rows, bracket_append, inner, Nest.tokens]
    by_cases hdone : rest = .done
    · subst hdone
      simp [Nest.rows, Nest.tokens, bracket, next]
    · -- Both neighbours of the gap are in all outer loops, so the loop alone closes there.
      obtain ⟨us, hnext, _⟩ := next_rows after hrest hdone
      obtain ⟨vs, hlast, _⟩ := last_rows before hscoped hbody
      have hfresh := fun u hu => not_mem_last hnodup hscoped hbody before (u := u) hu
      have tail := ih hrest hdone (nodup_rest hnodup) hfresh
        (fun u hu => ha u (List.mem_cons_of_mem _ (List.mem_append_right _ hu)))
      rw [List.map_append, List.append_assoc] at hlast
      rw [hlast, changed_prefix] at tail
      rw [hnext, changed_prefix, hlast, tail]
      simp

def uidsAround (r : Option Record) : List Nat := (r.map fun r => r.row.uids).getD []

theorem uidAt_eq (r : Option Record) (level : Nat) : uidAt r level = (uidsAround r)[level]? := by
  cases r with
  | none => rfl
  | some r =>
    simp only [uidAt, uidsAround, Record.row, Row.uids, Option.bind_some, Option.map_some,
      Option.getD_some, List.map_map, List.getElem?_map]
    rfl

/-- Marking one level after the other by the numbers found there picks the levels that have changed. -/
theorem filter_changed (us : List Nat) (ls : List LoopLevel) (level : Nat) :
    ((ls.zipIdx level).filter fun l => us[l.2]? != some l.1.uid).map (fun l => l.1.loop) =
      changed (us.drop level) (ls.map LoopLevel.loop) := by
  induction ls generalizing level with
  | nil => simp [changed]
  | cons l ls ih =>
    have tail := ih (level + 1)
    rw [List.zipIdx_cons, List.map_cons]
    cases hu : us[level]? with
    | none =>
      have hlen : us.length ≤ level := List.getElem?_eq_none_iff.mp hu
      rw [List.drop_eq_nil_of_le (Nat.le_succ_of_le hlen)] at tail
      rw [List.drop_eq_nil_of_le hlen, changed, ← tail]
      simp [hu]
    | some u =>
      obtain ⟨hlt, heq⟩ := List.getElem?_eq_some_iff.mp hu
      rw [List.drop_eq_getElem_cons hlt, heq, changed, ← tail]
      by_cases hl : u = l.uid
      · simp [hu, hl, LoopLevel.loop]
      · simp [hu, hl, LoopLevel.loop]

theorem row_mark (before after : Option Record) (r : Record) : (mark before after r).row = r.row := by
  have loops : (mark before after r).loops.map LoopLevel.loop = r.loops.map LoopLevel.loop := by
    rw [← List.zipIdx_map_fst 0 r.loops]
    simp only [mark, List.map_map]
    rfl
  simp only [Record.row, loops]
  rfl

theorem rowTokens_mark (before after : Option Record) (r : Record) :
    rowTokens (mark before after r) = (changed (uidsAround before) r.row.loops).map .opens ++
      .row r.row :: (changed (uidsAround after) r.row.loops).reverse.map fun l => .closes l.uid := by
  have opening := filter_changed (uidsAround before) r.loops 0
  have closing := filter_changed (uidsAround after) r.loops 0
  rw [List.drop_zero] at opening closing
  simp only [← uidAt_eq] at opening closing
  rw [rowTokens, row_mark]
  simp only [Record.row]
  rw [← opening, ← closing]
  simp only [mark, List.filter_map, List.map_map, ← List.map_reverse]
  rfl

theorem program_markAll (before : Option Record) (rs : List Record) :
    program (markAll before rs) = bracket (uidsAround before) [] (rs.map Record.row) := by
  induction rs generalizing before with
  | nil => rfl
  | cons r rest ih =>
    have hnext : uidsAround rest.head? = next [] (rest.map Record.row) := by
      cases rest with
      | nil => rfl
      | cons s tail => rfl
    have tail := ih (some r)
    simp only [program] at tail ⊢
    rw [markAll, List.flatMap_cons, tail, rowTokens_mark, hnext]
    rfl

/-- Marked records give back the nest that their rows come from. -/
theorem read_markAll {n : Nest} (h : n.Scoped []) (hnodup : n.uids.Nodup) {rs : List Record}
    (hrows : rs.map Record.row = n.rows) : read (markAll none rs) = some n := by
  have hprogram : program (markAll none rs) = n.tokens ++ [] := by
    rw [program_markAll, hrows, List.append_nil]
    by_cases hdone : n = .done
    · subst hdone
      rfl
    · have tokens := bracket_rows h hdone hnodup (fun u _ => List.not_mem_nil)
        (fun u _ => List.not_mem_nil)
      simp only [changed, List.map_nil, List.nil_append, List.reverse_nil, List.append_nil] at tokens
      exact tokens
  have all : readFrom (n.tokens ++ []) = some (n.append .done, []) := Nest.readFrom_tokens rfl
  rw [Nest.append_done, ← hprogram] at all
  rw [read, all]

end LoopNest

end AddressMap
