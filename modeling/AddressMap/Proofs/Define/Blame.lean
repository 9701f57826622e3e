import AddressMap.Proofs.Define.Listing
import AddressMap.Proofs.Expr.Malformed

set_option autoImplicit false

/-!
A define is put off as long as its evaluation stops at an unknown name, or at operands that the operator does
not take. When nothing else is left, each of them is held up by a name that is no define, by one of the others,
or by its operands, which no define can change any more. Every other error ends the run at once, but an evaluation
that stops does not get to it: a malformed text that waits for a name keeps its fault to itself.
-/

namespace AddressMap.Define

/-- The text waits for a name that is no define, or for a define that is not resolved either. -/
def Waits (keys names : List String) (text missing : String) : Prop :=
  Expr.Mentions text missing ∧ (missing ∉ keys ∨ missing ∈ names)

/-- Why the evaluation of a text gets nowhere with what is known. -/
inductive Held (known : Env) (keys names : List String) (text : String) : Prop
  | waiting {tree : Expr} {missing : String} (hparse : Expr.parse text = .ok tree)
      (h : AddressMap.evaluate text known = .error (.unknownName missing)) (hwaits : Waits keys names text missing)
  | early {fault : Expr.Fault} {missing : String} (hparse : Expr.parse text = .error fault)
      (h : AddressMap.evaluate text known = .error (.unknownName missing)) (hwaits : Waits keys names text missing)
  | operands {symbol : String} {lhs rhs : Scalar.Kind}
      (h : ∀ more : Env, known.Extends more → AddressMap.evaluate text more = .error (.operands symbol lhs rhs))

/-- The define fails for good. -/
inductive Fails (known : Env) (name : String) (v : Value) : Error → Prop
  | text {text : String} {e : ExprError} (hv : v = .string text) (hquoted : isQuoted text = false)
      (h : AddressMap.evaluate text known = .error e) (hfinal : e.isRetryable = false) :
      Fails known name v (.evaluation s!"define {name}" e)
  | noScalar (hv : Scalar.ofValue? v = none) : Fails known name v (.invalidDefinition .define name .noScalar)

section Errors

variable {env : Env} {name : String} {v : Value} {e : Error}

theorem evaluate_text_error {text : String} (h : evaluate env name (.string text) = .error e) :
    isQuoted text = false ∧ ∃ source, AddressMap.evaluate text env = .error source ∧
      e = .evaluation s!"define {name}" source := by
  rw [evaluate] at h
  split at h
  · cases h
  · rename_i hquoted
    refine ⟨Bool.eq_false_iff.mpr hquoted, ?_⟩
    cases hs : AddressMap.evaluate text env with
    | ok x =>
      rw [hs] at h
      cases h
    | error source =>
      rw [hs] at h
      cases h
      exact ⟨source, rfl, rfl⟩

theorem evaluate_value_error (hv : ∀ text, v ≠ .string text) (h : evaluate env name v = .error e) :
    Scalar.ofValue? v = none ∧ e = .invalidDefinition .define name .noScalar := by
  rw [evaluate] at h
  · split at h
    · cases h
    · rename_i hnone
      cases h
      exact ⟨hnone, rfl⟩
  · exact hv

theorem fails_iff : Fails env name v e ↔ evaluate env name v = .error e ∧ mayResolve e = false := by
  constructor
  · intro h
    cases h with
    | text hv hquoted h hfinal =>
      subst hv
      refine ⟨?_, hfinal⟩
      rw [evaluate, hquoted, if_neg Bool.false_ne_true, h]
      rfl
    | noScalar hv =>
      refine ⟨?_, rfl⟩
      cases v with
      | string text => cases hv
      | _ => simp [evaluate, hv]
  · rintro ⟨h, hfinal⟩
    by_cases hv : ∃ text, v = .string text
    · obtain ⟨text, rfl⟩ := hv
      obtain ⟨hquoted, source, hsource, rfl⟩ := evaluate_text_error h
      exact .text rfl hquoted hsource hfinal
    · obtain ⟨hnone, rfl⟩ := evaluate_value_error (not_exists.mp hv) h
      exact .noScalar hnone

end Errors

/-- What is put off although everything is known that can be known is held up. -/
theorem held_of_retried {table : Entries PendingDefine} {listed : List String} {env : Env}
    {left : Entries PendingDefine} (h : Reached table listed env left) {name : String} {v : Value} {e : Error}
    (he : evaluate env name v = .error e) (hmay : mayResolve e) :
    ∃ text, v = .string text ∧ isQuoted text = false ∧ Held env table.keys left.keys text := by
  by_cases hv : ∃ text, v = .string text
  · obtain ⟨text, rfl⟩ := hv
    obtain ⟨hquoted, source, hsource, rfl⟩ := evaluate_text_error he
    refine ⟨text, rfl, hquoted, ?_⟩
    cases source with
    | unknownName missing =>
      obtain ⟨hmentions, hnone⟩ := Expr.evaluate_unknown hsource
      have hwaits : Waits table.keys left.keys text missing := by
        refine ⟨hmentions, ?_⟩
        by_cases hkey : missing ∈ table.keys
        · rcases List.mem_append.mp (h.split.mem_iff.mpr hkey) with hin | hin
          · rw [← h.known, hnone] at hin
            cases hin
          · exact .inr hin
        · exact .inl hkey
      cases hparse : Expr.parse text with
      | ok tree => exact .waiting hparse hsource hwaits
      | error fault => exact .early hparse hsource hwaits
    | operands symbol lhs rhs =>
      have kept : ∀ more : Env, env.Extends more →
          AddressMap.evaluate text more = .error (.operands symbol lhs rhs) := by
        intro more hmore
        rcases evaluate_extends hmore text with heq | ⟨_, hunknown, _⟩
        · rw [heq, hsource]
        · cases hsource.symm.trans hunknown
      exact .operands kept
    | _ => cases hmay
  · obtain ⟨_, rfl⟩ := evaluate_value_error (not_exists.mp hv) he
    cases hmay

/-- If all that is left is put off, no define of any listing fails for good. -/
theorem retried_of_listing {table : Entries PendingDefine} {listed order : List String} {env known : Env}
    {left : Entries PendingDefine} (h : Reached table listed env left)
    (hleft : ∀ d ∈ left, PutOff env d)
    (horder : Listing table [] order known) {name : String} {d : PendingDefine} (hd : table.get? name = some d)
    {e : Error} (he : evaluate known name d.value = .error e) : mayResolve e := by
  have grows := horder.extends_closed h.solved (h.closed hleft) fun _ _ hx => by cases hx
  rcases @evaluate_known _ _ name d.value grows with heq | ⟨e', he', hmay⟩
  · rw [he] at heq
    rcases List.mem_append.mp (h.split.mem_iff.mpr (Entries.mem_keys_of_get? hd)) with hin | hin
    · obtain ⟨x, hx⟩ := Option.isSome_iff_exists.mp ((h.known name).mpr hin)
      obtain ⟨d', hd', hx'⟩ := h.solved name x hx
      cases hd.symm.trans hd'
      cases heq.symm.trans hx'
    · obtain ⟨⟨_, d'⟩, hmem, rfl⟩ := List.mem_map.mp hin
      cases hd.symm.trans (h.entries _ hmem)
      obtain ⟨e', he', hmay⟩ := hleft _ hmem
      cases heq.symm.trans he'
      exact hmay
  · cases he.symm.trans he'
    exact hmay

theorem pendingAll_ne_unresolved {es : Props} {u : Unresolved} : pendingAll es ≠ .error (.unresolved u) := by
  induction es with
  | nil => exact fun h => by cases h
  | cons entry rest ih =>
    obtain ⟨name, v⟩ := entry
    rw [pendingAll]
    split
    · rename_i e he
      intro h
      cases h
      unfold pending at he
      split at he
      · split at he <;> cases he
      · cases he
    · exact fun h => ih (map_eq_error.mp h)

/-- A malformed define is never listed. -/
theorem Reached.left_of_malformed {table : Entries PendingDefine} {listed : List String} {env : Env}
    {left : Entries PendingDefine} (h : Reached table listed env left) {name text : String} {d : PendingDefine}
    {fault : Expr.Fault} (hd : table.get? name = some d) (hv : d.value = .string text)
    (hquoted : isQuoted text = false) (hparse : Expr.parse text = .error fault) : name ∈ left.keys := by
  rcases List.mem_append.mp (h.split.mem_iff.mpr (Entries.mem_keys_of_get? hd)) with hin | hin
  · obtain ⟨x, hx⟩ := Option.isSome_iff_exists.mp ((h.known name).mpr hin)
    obtain ⟨d', hd', hvalue⟩ := h.solved name x hx
    cases hd.symm.trans hd'
    obtain ⟨e, he, -⟩ := Expr.readText_malformed (Expr.value text env) hparse
    rw [hv, evaluate, hquoted, if_neg Bool.false_ne_true, AddressMap.evaluate, he] at hvalue
    cases hvalue
  · exact hin

/-- A malformed text that is put off has been stopped before its fault. -/
theorem stopped_of_putOff {env : Env} {name text : String} {d : PendingDefine} {fault : Expr.Fault}
    (h : PutOff env (name, d)) (hv : d.value = .string text) (hparse : Expr.parse text = .error fault) :
    ∃ e, AddressMap.evaluate text env = .error e ∧ (Expr.value text env).Stops e := by
  obtain ⟨e, he, hmay⟩ := h
  rw [hv] at he
  obtain ⟨_, source, hsource, rfl⟩ := evaluate_text_error he
  obtain ⟨source', hsource', hfault | hstops⟩ := Expr.readText_malformed (Expr.value text env) hparse
  · cases hsource.symm.trans hsource'
    rw [hfault] at hmay
    cases hmay
  · exact ⟨source', hsource', hstops⟩

/-- The section is reported with the final error of one of its defines. -/
def ReportsFailure (es : Props) (table : Entries PendingDefine) : Prop :=
  ∃ name d e, table.get? name = some d ∧ Fails (Resolution.start.addDefines es).state.env name d.value e ∧
    (Resolution.start.addDefines es).error = some e

/-- Defines that are reported as unresolved are texts that are held up. Once a define fails for good with values
    that were found in any order, the section is reported to fail for good. A malformed define is never resolved, and
    if the section does not fail for good, then a name or an operator before the fault has stopped it. -/
theorem addDefines_blame {es : Props} (hkeys : es.keys.Nodup) :
    (∀ names, (Resolution.start.addDefines es).error = some (.unresolved (.defines names)) → names ≠ [] ∧
      ∃ table, pendingAll es = .ok table ∧ ∀ name ∈ names, ∃ d text, table.get? name = some d ∧
        d.value = .string text ∧ isQuoted text = false ∧
        Held (Resolution.start.addDefines es).state.env es.keys names text) ∧
    (∀ table order known name d e, pendingAll es = .ok table → Listing table [] order known →
      table.get? name = some d → Fails known name d.value e → ReportsFailure es table) ∧
    ∀ table name d text fault, pendingAll es = .ok table → table.get? name = some d → d.value = .string text →
      isQuoted text = false → Expr.parse text = .error fault → ReportsFailure es table ∨
        ∃ names, (Resolution.start.addDefines es).error = some (.unresolved (.defines names)) ∧ name ∈ names ∧
          ∃ e, AddressMap.evaluate text (Resolution.start.addDefines es).state.env = .error e ∧
            (Expr.value text (Resolution.start.addDefines es).state.env).Stops e := by
  refine ⟨fun names h => ?_, fun table order known name d e hp horder hd hfails => ?_,
    fun table name d text fault hp hd hv hquoted hparse => ?_⟩
  · cases hp : pendingAll es with
    | error e =>
      change (resolve ⟨[], []⟩ es).error = _ at h
      rw [resolve, hp] at h
      cases h
      exact absurd hp pendingAll_ne_unresolved
    | ok table =>
      cases resolve_ending hkeys hp with
      | finished _ he => cases h.symm.trans he
      | failed _ _ hfail _ he =>
        cases h.symm.trans he
        exact absurd hfail evaluate_ne_unresolved
      | @stuck listed left hr hne hleft he =>
        cases h.symm.trans he
        refine ⟨fun hnil => hne (List.map_eq_nil_iff.mp hnil), table, rfl, fun name hname => ?_⟩
        obtain ⟨⟨_, d⟩, hd, rfl⟩ := List.mem_map.mp hname
        obtain ⟨e, he, hmay⟩ := hleft _ hd
        obtain ⟨text, hv, hquoted, hheld⟩ := held_of_retried hr he hmay
        exact ⟨d, text, hr.entries _ hd, hv, hquoted, pendingAll_keys hp ▸ hheld⟩
  · obtain ⟨he, hfinal⟩ := fails_iff.mp hfails
    have conflict : ¬mayResolve e := Bool.eq_false_iff.mp hfinal
    cases resolve_ending hkeys hp with
    | finished hr _ =>
      exact absurd (retried_of_listing hr (fun _ hd => absurd hd List.not_mem_nil) horder hd he) conflict
    | stuck hr _ hleft _ => exact absurd (retried_of_listing hr hleft horder hd he) conflict
    | @failed _ _ entry e' hr hentry hfail hfinal' herror =>
      exact ⟨entry.1, entry.2, e', hr.entries _ hentry, fails_iff.mpr ⟨hfail, hfinal'⟩, herror⟩
  · cases resolve_ending hkeys hp with
    | finished hr _ => exact absurd (hr.left_of_malformed hd hv hquoted hparse) List.not_mem_nil
    | @stuck _ left hr _ hleft he =>
      have hin := hr.left_of_malformed hd hv hquoted hparse
      obtain ⟨⟨_, d'⟩, hmem, rfl⟩ := List.mem_map.mp hin
      cases hd.symm.trans (hr.entries _ hmem)
      exact .inr ⟨left.keys, he, hin, stopped_of_putOff (hleft _ hmem) hv hparse⟩
    | @failed _ _ entry e hr hentry hfail hfinal herror =>
      exact .inl ⟨entry.1, entry.2, e, hr.entries _ hentry, fails_iff.mpr ⟨hfail, hfinal⟩, herror⟩

theorem resolve_single {name text : String} {source : ExprError} (hquoted : isQuoted text = false)
    (h : AddressMap.evaluate text [] = .error source) (hmay : source.isRetryable) :
    (Resolution.start.addDefines [(name, .string text)]).error = some (.unresolved (.defines [name])) := by
  have first : evaluate [] name (.string text) = .error (.evaluation s!"define {name}" source) := by
    rw [evaluate, hquoted, if_neg Bool.false_ne_true, h]
    rfl
  change (passes 1 ⟨[], []⟩ [(name, ⟨.string text, none, []⟩)]).error = _
  rw [passes.eq_def]
  simp only [pass, first, mayResolve, hmay, if_true]
  rfl

theorem evaluate_itself : AddressMap.evaluate "n1" [] = .error (.unknownName "n1") := by
  have name : Expr.tokens "n1".toList = .ok [.name "n1"] := Expr.tokens_lexeme rfl rfl
  rw [Expr.evaluate_of_phrase name ((Expr.Phrase.name "n1").mono (Nat.zero_le _))]
  rfl

theorem evaluate_empty : AddressMap.evaluate "" [] = .error (.malformed "" .unexpectedEnd) := by
  rw [AddressMap.evaluate, Expr.readText, String.toList_empty, Expr.tokens]
  rfl

theorem tokens_trailing : Expr.tokens "nope )".toList = .ok [.name "nope", .closing] := by
  have space : ∀ c ∈ [' '], Text.isBlank c = true := List.forall_mem_singleton.mpr rfl
  have name : Expr.tokens ['n', 'o', 'p', 'e'] = .ok [.name "nope"] := Expr.tokens_lexeme rfl rfl
  have closing : Expr.tokens [')'] = .ok [.closing] := Expr.tokens_lexeme rfl rfl
  exact Expr.Spelled.tokens_eq (.more name (List.cons_ne_nil _ _) space (.last closing))

theorem parse_trailing : Expr.parse "nope )" = .error .trailing := by
  rw [Expr.parse, Expr.readText, tokens_trailing]
  rfl

theorem evaluate_trailing : AddressMap.evaluate "nope )" [] = .error (.unknownName "nope") := by
  rw [AddressMap.evaluate, Expr.readText, tokens_trailing]
  rfl

/-- A define that stands for itself is held up, an empty text fails for good, and a text that goes on after its end
    is not resolved. -/
theorem addDefines_blame_circle :
    (∃ table, pendingAll [("n1", .string "n1")] = .ok table ∧ ∃ d text, table.get? "n1" = some d ∧
      d.value = .string text ∧
      Held (Resolution.start.addDefines [("n1", .string "n1")]).state.env ["n1"] ["n1"] text) ∧
    ReportsFailure [("n1", .string "")] [("n1", ⟨.string "", none, []⟩)] ∧
    (Resolution.start.addDefines [("rate", .string "nope )")]).error ≠ none := by
  refine ⟨?_, ?_, ?_⟩
  · have stuck : (Resolution.start.addDefines [("n1", .string "n1")]).error =
        some (.unresolved (.defines ["n1"])) := resolve_single (by decide) evaluate_itself rfl
    obtain ⟨_, table, htable, hheld⟩ :=
      (addDefines_blame (show (Entries.keys [("n1", Value.string "n1")]).Nodup by decide)).1 ["n1"] stuck
    obtain ⟨d, text, hd, hv, _, held⟩ := hheld "n1" List.mem_cons_self
    exact ⟨table, htable, d, text, hd, hv, held⟩
  · have fails : Fails [] "n1" (.string "") (.evaluation "define n1" (.malformed "" .unexpectedEnd)) :=
      .text rfl (by decide) evaluate_empty rfl
    exact (addDefines_blame (show (Entries.keys [("n1", Value.string "")]).Nodup by decide)).2.1
      [("n1", ⟨.string "", none, []⟩)] [] [] "n1" _ _ rfl (.nil []) rfl fails
  · have blamed := (addDefines_blame (show (Entries.keys [("rate", Value.string "nope )")]).Nodup by decide)).2.2
      [("rate", ⟨.string "nope )", none, []⟩)] "rate" _ _ _ rfl rfl rfl (by decide) parse_trailing
    rcases blamed with ⟨_, _, e, _, _, he⟩ | ⟨_, he, _⟩
    · exact he ▸ nofun
    · exact he ▸ nofun

/-- The text that goes on is malformed, and yet it is reported to wait for what is missing. -/
theorem trailing_waits : Expr.parse "nope )" = .error .trailing ∧
    (Resolution.start.addDefines [("rate", .string "nope )")]).error = some (.unresolved (.defines ["rate"])) :=
  ⟨parse_trailing, resolve_single (by decide) evaluate_trailing rfl⟩

def mixedSum : Props := [("rate", .string "'a' + 1")]

theorem tokens_mixedSum : Expr.tokens "'a' + 1".toList = .ok [.text "a", .op .add, .int 1] := by
  have space : ∀ c ∈ [' '], Text.isBlank c = true := List.forall_mem_singleton.mpr rfl
  have text : Expr.tokens ['\'', 'a', '\''] = .ok [.text "a"] := Expr.tokens_lexeme rfl rfl
  have plus : Expr.tokens ['+'] = .ok [.op .add] := Expr.tokens_lexeme rfl rfl
  have one : Expr.tokens ['1'] = .ok [.int 1] := Expr.tokens_lexeme rfl rfl
  have gap : ∀ {c : Char} {cs : List Char}, c :: cs ≠ [] := List.cons_ne_nil _ _
  exact Expr.Spelled.tokens_eq (.more text gap space (.more plus gap space (.last one)))

theorem evaluate_mixedSum : AddressMap.evaluate "'a' + 1" [] = .error (.operands "+" .text .int) := by
  have phrase : Expr.Phrase 0 (.binary .add (.text "a") (.int 1)) [.text "a", .op .add, .int 1] :=
    (Expr.Phrase.binary rfl ((Expr.Phrase.text "a").mono (by decide)) ((Expr.Phrase.int 1).mono (by decide))).mono
      (Nat.zero_le 4)
  rw [Expr.evaluate_of_phrase tokens_mixedSum phrase]
  rfl

/-- The sum is reported as unresolved, and mentions no name at all. -/
theorem mixedSum_waits_for_nothing :
    (Resolution.start.addDefines mixedSum).error = some (.unresolved (.defines ["rate"])) ∧
      mixedSum.get? "rate" = some (.string "'a' + 1") ∧
      ∀ missing, ¬Waits mixedSum.keys ["rate"] "'a' + 1" missing := by
  refine ⟨resolve_single (by decide) evaluate_mixedSum rfl, rfl, ?_⟩
  rintro missing ⟨⟨ts, hts, hname, _⟩, _⟩
  cases hts.symm.trans tokens_mixedSum
  simp at hname

end AddressMap.Define
