import AddressMap.Proofs.Merge.Reference
import AddressMap.Proofs.Yaml.Distinct
import Mathlib.Data.List.Nodup

set_option autoImplicit false

namespace AddressMap

/-- The answers up to one that decides: how many they are, and what the last one says. -/
structure Turn where
  tries : Nat
  accepts : Bool

namespace ConflictPolicy

variable (p : ConflictPolicy)

def turnsFrom (tries : Nat) : List String → List Turn
  | [] => []
  | answer :: rest =>
    match p.decide? answer with
    | some accepts => ⟨tries + 1, accepts⟩ :: turnsFrom 0 rest
    | none => turnsFrom (tries + 1) rest

/-- The answers as turns. Answers at the end that decide nothing make none. -/
def turns (answers : List String) : List Turn := p.turnsFrom 0 answers

theorem accepts_turnsFrom (tries : Nat) (answers : List String) :
    (p.turnsFrom tries answers).map Turn.accepts = answers.filterMap p.decide? := by
  induction answers generalizing tries with
  | nil => rfl
  | cons answer rest ih =>
    rw [turnsFrom, List.filterMap_cons]
    cases p.decide? answer with
    | none => exact ih (tries + 1)
    | some accepts => exact congrArg (accepts :: ·) (ih 0)

theorem ask_eq (question : String) (asked : List String) (tries : Nat) (answers : List String) :
    match p.turnsFrom tries answers with
    | [] => ∃ d, p.ask question false (asked ++ List.replicate tries question) answers = (.error .io, d)
    | t :: more => ∃ rest, p.ask question false (asked ++ List.replicate tries question) answers =
        (.ok t.accepts, ⟨rest, false, asked ++ List.replicate t.tries question⟩) ∧ p.turns rest = more := by
  -- The question has been asked once for every try so far, which is why `tries` must vary.
  induction answers generalizing tries with
  | nil => exact ⟨_, rfl⟩
  | cons answer rest ih =>
    have again : asked ++ List.replicate tries question ++ [question] =
        asked ++ List.replicate (tries + 1) question := by
      rw [List.append_assoc, ← List.replicate_succ']
    rw [turnsFrom, ask, again]
    cases p.decide? answer with
    | none => exact ih (tries + 1)
    | some accepts => exact ⟨rest, rfl, rfl⟩

theorem decide?_eq_some_iff (answer : String) (accepts : Bool) : p.decide? answer = some accepts ↔
    (Text.trim answer).map Char.toUpper = "" ∧ accepts = p.overwrite ∨
      (Text.trim answer).map Char.toUpper = "Y" ∧ accepts = true ∨
      (Text.trim answer).map Char.toUpper = "N" ∧ accepts = false := by
  unfold decide?
  generalize (Text.trim answer).map Char.toUpper = text
  split
  · simpa using eq_comm
  · simp
  · simp
  · rename_i hempty hyes hno
    have unknown : ¬text = "" ∧ ¬text = "Y" ∧ ¬text = "N" := ⟨hempty, hyes, hno⟩
    simp [unknown]

end ConflictPolicy

namespace Merge

variable {p : ConflictPolicy}

theorem latest_append (first second : List Write) (pair : String × String) :
    latest (first ++ second) pair = (latest second pair).or (latest first pair) := by
  rw [latest, List.reverse_append, List.lookup_append]
  rfl

theorem latest_eq_none_iff {ws : List Write} {pair : String × String} :
    latest ws pair = none ↔ pair ∉ ws.map (·.1) := by
  induction ws using List.reverseRecOn with
  | nil => simp [latest]
  | append_singleton ws w ih =>
    rw [latest_concat]
    by_cases h : pair = w.1
    · simp [h]
    · simp [h, ih]

theorem mem_of_latest {ws : List Write} {pair : String × String} {v : Value} (h : latest ws pair = some v) :
    (pair, v) ∈ ws := by
  induction ws using List.reverseRecOn with
  | nil => cases h
  | append_singleton ws w ih =>
    rw [latest_concat] at h
    split at h
    · rename_i hpair
      cases h
      exact List.mem_append_right _ (hpair ▸ List.mem_singleton_self w)
    · exact List.mem_append_left _ (ih h)

theorem latest_eq_some_iff {ws : List Write} (hn : (ws.map (·.1)).Nodup) {pair : String × String} {v : Value} :
    latest ws pair = some v ↔ (pair, v) ∈ ws := by
  refine ⟨mem_of_latest, fun h => ?_⟩
  cases hv : latest ws pair with
  | none => exact absurd (List.mem_map_of_mem h) (latest_eq_none_iff.mp hv)
  | some other =>
    have same := List.inj_on_of_nodup_map hn (mem_of_latest hv) h rfl
    exact congrArg some (Prod.ext_iff.mp same).2

theorem settle_overwrite (hp : p.prompt = false) (ho : p.overwrite = true) (d : Dialogue) (done todo : List Write) :
    settle p d done todo = (.ok (done ++ todo), d) := by
  induction todo generalizing done with
  | nil => rw [settle, List.append_nil]
  | cons w rest ih =>
    have accepted : ∀ existing, answered (p.replaces (label w.1) existing w.2) d = (.ok true, d) := by
      intro existing
      rw [ConflictPolicy.replaces, if_neg (by simp [hp]), if_pos ho]
      rfl
    rw [settle]
    cases latest done w.1 with
    | none =>
      dsimp only
      rw [ih, List.append_assoc, List.singleton_append]
    | some existing =>
      dsimp only
      rw [accepted]
      dsimp only
      rw [if_pos rfl, ih, List.append_assoc, List.singleton_append]

/-- The first repeated write is a conflict; with none, all writes count. -/
theorem settle_strict (hp : p.prompt = false) (ho : p.overwrite = false) (d : Dialogue) (done : List Write)
    (hd : (done.map (·.1)).Nodup) (todo : List Write) :
    (((done ++ todo).map (·.1)).Nodup ∧ settle p d done todo = (.ok (done ++ todo), d)) ∨
      ∃ before w after existing, todo = before ++ w :: after ∧ ((done ++ before).map (·.1)).Nodup ∧
        (w.1, existing) ∈ done ++ before ∧
        settle p d done todo = (.error (.conflict (label w.1) existing w.2), d) := by
  induction todo generalizing done with
  | nil => exact .inl ⟨by rwa [List.append_nil], by rw [settle, List.append_nil]⟩
  | cons w rest ih =>
    rw [settle]
    cases hlatest : latest done w.1 with
    | none =>
      have fresh : ((done ++ [w]).map (·.1)).Nodup := by
        rw [List.map_append, List.map_singleton]
        exact List.concat_eq_append ▸ hd.concat (latest_eq_none_iff.mp hlatest)
      dsimp only
      rcases ih _ fresh with ⟨all, hrun⟩ | ⟨before, first, after, existing, rfl, hbefore, hmem, hrun⟩
      · rw [List.append_assoc, List.singleton_append] at all hrun
        exact .inl ⟨all, hrun⟩
      · rw [List.append_assoc, List.singleton_append] at hbefore hmem
        exact .inr ⟨w :: before, first, after, existing, rfl, hbefore, hmem, hrun⟩
    | some existing =>
      refine .inr ⟨[], w, rest, existing, rfl, by rwa [List.append_nil], ?_, ?_⟩
      · rw [List.append_nil]
        exact mem_of_latest hlatest
      · dsimp only
        rw [ConflictPolicy.replaces, if_neg (by simp [hp]), if_neg (by simp [ho])]
        rfl

/-- Deals out one turn to every repeated write, and lists the questions with their repetitions. -/
def deal (p : ConflictPolicy) : List Turn → (done todo : List Write) → Option (List Write × List String)
  | _, done, [] => some (done, [])
  | turns, done, w :: todo =>
    match latest done w.1 with
    | none => deal p turns (done ++ [w]) todo
    | some existing =>
      match turns with
      | [] => none
      | t :: turns => (deal p turns (if t.accepts then done ++ [w] else done) todo).map fun r =>
          (r.1, List.replicate t.tries (p.question (label w.1) existing w.2) ++ r.2)

theorem settle_prompt (hp : p.prompt = true) (answers asked : List String) (done todo : List Write) :
    match deal p (p.turns answers) done todo with
    | none => (settle p ⟨answers, false, asked⟩ done todo).1 = .error .io
    | some (kept, questions) => (settle p ⟨answers, false, asked⟩ done todo).1 = .ok kept ∧
        (settle p ⟨answers, false, asked⟩ done todo).2.questions = asked ++ questions := by
  -- Induction on the writes that are left: what an ask leaves of the answers makes the turns that are left.
  induction todo generalizing answers asked done with
  | nil => exact ⟨rfl, (List.append_nil asked).symm⟩
  | cons w rest ih =>
    have run : ∀ existing, answered (p.replaces (label w.1) existing w.2) ⟨answers, false, asked⟩ =
        p.ask (p.question (label w.1) existing w.2) false asked answers := by
      intro existing
      rw [ConflictPolicy.replaces, if_pos hp]
      rfl
    rw [settle, deal]
    cases latest done w.1 with
    | none => exact ih answers asked (done ++ [w])
    | some existing =>
      have ask := p.ask_eq (p.question (label w.1) existing w.2) asked 0 answers
      rw [List.replicate_zero, List.append_nil] at ask
      dsimp only
      rw [run, ConflictPolicy.turns]
      cases hturns : p.turnsFrom 0 answers with
      | nil =>
        rw [hturns] at ask
        obtain ⟨d, ask⟩ := ask
        rw [ask]
      | cons t more =>
        rw [hturns] at ask
        obtain ⟨left, ask, rfl⟩ := ask
        rw [ask]
        dsimp only
        have tail := ih left (asked ++ List.replicate t.tries (p.question (label w.1) existing w.2))
          (if t.accepts then done ++ [w] else done)
        cases hdeal : deal p (p.turns left) (if t.accepts then done ++ [w] else done) rest with
        | none =>
          rw [hdeal] at tail
          exact tail
        | some r =>
          rw [hdeal] at tail
          exact ⟨tail.1, tail.2.trans (List.append_assoc _ _ _)⟩

/-- The writes to a key that an earlier write has given a value. -/
def repeated : (seen : List (String × String)) → List Write → List Write
  | _, [] => []
  | seen, w :: rest => if w.1 ∈ seen then w :: repeated seen rest else repeated (w.1 :: seen) rest

theorem deal_isSome_iff (turns : List Turn) {seen : List (String × String)} {done : List Write} (todo : List Write)
    (h : ∀ pair, pair ∈ seen ↔ pair ∈ done.map (·.1)) :
    (deal p turns done todo).isSome ↔ (repeated seen todo).length ≤ turns.length := by
  -- A rejected write is not kept, yet its key has a value all the same: `seen` and `done` have the same keys.
  induction todo generalizing turns seen done with
  | nil => simp [deal, repeated]
  | cons w rest ih =>
    rw [deal, repeated]
    cases hlatest : latest done w.1 with
    | none =>
      have fresh : w.1 ∉ seen := fun hin => latest_eq_none_iff.mp hlatest ((h w.1).mp hin)
      rw [if_neg fresh]
      refine ih turns fun pair => ?_
      rw [List.mem_cons, h, List.map_append, List.mem_append, List.map_singleton, List.mem_singleton, or_comm]
    | some existing =>
      have known : w.1 ∈ done.map (·.1) := List.mem_map.mpr ⟨_, mem_of_latest hlatest, rfl⟩
      rw [if_pos ((h w.1).mpr known)]
      cases turns with
      | nil => simp
      | cons t turns =>
        dsimp only
        rw [Option.isSome_map, List.length_cons, List.length_cons, Nat.add_le_add_iff_right]
        refine ih turns fun pair => ?_
        rw [h]
        split
        · rw [List.map_append, List.mem_append, List.map_singleton, List.mem_singleton]
          exact ⟨.inl, fun hin => hin.elim id fun heq => heq ▸ known⟩
        · rfl

end Merge

end AddressMap
