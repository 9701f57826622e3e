import AddressMap.Path
import Mathlib.Data.List.Basic

set_option autoImplicit false

namespace AddressMap.Path

theorem names_append_slash (dir rest : String) : names (dir ++ "/" ++ rest) = names dir ++ names rest := by
  unfold names
  rw [String.toList_append, String.toList_append, List.append_assoc, ← List.filter_append, ← List.map_append,
    ← List.splitOn_append_cons_self]
  rfl

theorem names_empty : names "" = [] := by decide

theorem names_of_slashless {name : String} (h : '/' ∉ name.toList) (hne : name ≠ "") : names name = [name] := by
  unfold names
  rw [List.splitOn_eq_singleton h, List.map_singleton, String.ofList_toList,
    List.filter_cons_of_pos (by simpa using hne)]
  rfl

theorem endsWith_slash {p : String} (h : p.endsWith "/") : ∃ front, p = front ++ "/" := by
  rw [← String.endsWith_toSlice, String.Slice.endsWith_string_iff] at h
  obtain ⟨front, heq⟩ := h
  refine ⟨.ofList front, String.toList_inj.mp ?_⟩
  rw [String.toList_append, String.toList_ofList]
  simpa using heq.symm

theorem join_cases (dir : String) {name : String} (h : '/' ∉ name.toList) :
    join dir name = dir ++ "/" ++ name ∨
      join dir name = dir ++ name ∧ (dir = "" ∨ ∃ front, dir = front ++ "/") := by
  have relative : isAbsolute name = false := by
    rw [isAbsolute, Bool.eq_false_iff]
    intro hstart
    obtain ⟨rest, heq⟩ := String.startsWith_string_iff.mp hstart
    exact h (heq ▸ List.mem_append_left _ List.mem_cons_self)
  unfold join
  rw [relative, if_neg Bool.false_ne_true]
  split
  · rename_i hdir
    refine .inr ⟨rfl, ?_⟩
    rcases Bool.or_eq_true_iff.mp hdir with hempty | hslash
    · exact .inl (String.isEmpty_iff.mp hempty)
    · exact .inr (endsWith_slash hslash)
  · exact .inl rfl

theorem names_join (dir : String) {name : String} (h : '/' ∉ name.toList) (hne : name ≠ "") :
    names (join dir name) = names dir ++ [name] := by
  have own := names_of_slashless h hne
  rcases join_cases dir h with heq | ⟨heq, rfl | ⟨front, rfl⟩⟩
  · rw [heq, names_append_slash, own]
  · rw [heq, String.empty_append, own, names_empty, List.nil_append]
  · have shorter := names_append_slash front ""
    rw [names_empty, List.append_nil, String.append_empty] at shorter
    rw [heq, names_append_slash, own, shorter]

theorem join_endsIn (dir : String) {name : String} (h : '/' ∉ name.toList) :
    name.toList <:+ (join dir name).toList := by
  rcases join_cases dir h with heq | ⟨heq, _⟩ <;> rw [heq, String.toList_append] <;> exact List.suffix_append _ _

theorem steps_join (dir : String) {name : String} (h : '/' ∉ name.toList) (hne : name ≠ "") :
    steps (join dir name) = names dir ++ [name] := by
  unfold steps
  rw [if_neg, names_join dir h hne]
  intro hslash
  obtain ⟨front, heq⟩ := endsWith_slash hslash
  have ends := join_endsIn dir h
  rw [heq, String.toList_append] at ends
  -- The last character would be a slash of the name.
  obtain ⟨c, rest, hc⟩ := List.exists_cons_of_ne_nil (l := name.toList.reverse) (by simpa using hne)
  have starts := List.reverse_prefix.mpr ends
  rw [hc, List.reverse_append] at starts
  have slash : c = '/' := (List.cons_prefix_cons.mp starts).1
  apply h
  rw [← List.mem_reverse, hc, slash]
  exact List.mem_cons_self

theorem join_ne_empty (dir : String) {name : String} (h : '/' ∉ name.toList) (hne : name ≠ "") :
    (join dir name).isEmpty = false := by
  rw [Bool.eq_false_iff]
  intro hempty
  have nothing := names_join dir h hne
  rw [String.isEmpty_iff.mp hempty, names_empty] at nothing
  exact List.append_ne_nil_of_right_ne_nil _ (List.cons_ne_nil _ _) nothing.symm

theorem extension?_append {stem extension : String} (hne : stem ≠ "") (h : '.' ∉ extension.toList) :
    extension? (stem ++ "." ++ extension) = some extension := by
  have reversed : (stem ++ "." ++ extension).toList.reverse =
      extension.toList.reverse ++ '.' :: stem.toList.reverse := by simp
  have pointless : ∀ c ∈ extension.toList.reverse, (c != '.') = true := by
    intro c hc
    exact bne_iff_ne.mpr fun heq => h (heq ▸ List.mem_reverse.mp hc)
  obtain ⟨c, rest, hstem⟩ := List.exists_cons_of_ne_nil (l := stem.toList.reverse) (by simpa using hne)
  unfold extension?
  dsimp only
  rw [reversed, List.dropWhile_append_of_pos pointless, List.takeWhile_append_of_pos pointless, hstem]
  simp

end AddressMap.Path
