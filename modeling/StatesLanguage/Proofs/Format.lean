import Mathlib.Data.List.Nodup
import StatesLanguage.Proofs.Canonical
import StatesLanguage.Proofs.Reordering
import StatesLanguage.Proofs.Shape
import StatesLanguage.Proofs.StateObjects

/-!
# Documents of the format

The format of documents lists the keys of each object. A state may have the keys of its kind and
a few that are common to all kinds, `InputPath`, `OutputPath`, `ResultPath` and `Result`; a model
however has a place for the latter only where its kind declares them, and what is not declared is
not read. An array without retry policies or error handlers is read, but not told from an absent
one. Apart from these, a document of the format is written as it was read.

`Format.IsMachine` is the format as a predicate on JSON values, and `Format.trim` takes the keys
that are lost out of a document. That a trimmed document is in canonical form, up to the order of
keys, is a matter of JSON values alone (`Format.IsMachine.reorders`). It is shown object by
object: picking the members of an object key by key lists them in another order
(`Members.reorders_pick`), and the canonical form of an object is such a list.

The main result is `Format.IsMachine.toDocument_reorders_trim`.
-/

namespace StatesLanguage

open Json (Members)

/-! ### Picking members by their keys -/

/-- All keys are among some. -/
def Members.KeysIn (keys : List String) (ms : Members) : Prop :=
  ∀ m ∈ ms, m.1 ∈ keys

/-- The members of some keys in the order of the keys, each with its value changed. -/
def Members.pick (g : String → Json → Json) (keys : List String) (ms : Members) : Members :=
  keys.flatMap fun key => optionalMember key (g key) (ms.lookup key)

namespace Members

variable {keys : List String} {ms : Members}

theorem pick_eq_map (g : String → Json → Json) :
    pick g keys ms = (pick (fun _ => id) keys ms).map fun m => (m.1, g m.1 m.2) := by
  rw [pick, pick, List.map_flatMap]
  refine List.flatMap_congr fun key _ => ?_
  cases ms.lookup key <;> rfl

/-- **Picking all members lists them in another order.** -/
theorem perm_pick (hms : (ms.map Prod.fst).Nodup) (hkeys : keys.Nodup) (h : KeysIn keys ms) :
    ms.Perm (pick (fun _ => id) keys ms) := by
  have hnodup : (pick (fun _ => id) keys ms).Nodup := by
    refine List.nodup_flatMap.mpr ⟨fun key _ => ?_, hkeys.imp fun {key other} hne m hm hm' => ?_⟩
    · cases ms.lookup key <;> simp [optionalMember]
    · obtain ⟨_, -, rfl⟩ := mem_optionalMember.mp hm
      obtain ⟨_, -, heq⟩ := mem_optionalMember.mp hm'
      exact hne (congrArg Prod.fst heq)
  rw [List.perm_ext_iff_of_nodup hms.of_map hnodup]
  rintro ⟨key, v⟩
  rw [pick, List.mem_flatMap]
  constructor
  · intro hm
    exact ⟨key, h _ hm, mem_optionalMember.mpr ⟨v, lookup_of_mem hms hm, rfl⟩⟩
  · rintro ⟨other, -, hm⟩
    obtain ⟨w, hw, heq⟩ := mem_optionalMember.mp hm
    obtain ⟨rfl, rfl⟩ := Prod.mk.inj heq
    exact mem_of_lookup hw

/-- **An object equals what is picked from it**, up to the order of keys, if its values equal
those that are picked. -/
theorem reorders_pick {f g : String → Json → Json} (hms : (ms.map Prod.fst).Nodup)
    (hkeys : keys.Nodup) (h : KeysIn keys ms)
    (hvalues : ∀ m ∈ ms, (f m.1 m.2).Reorders (g m.1 m.2)) :
    (Json.object (ms.map fun m => (m.1, f m.1 m.2))).Reorders (.object (pick g keys ms)) := by
  have hperm := perm_pick hms hkeys h
  rw [pick_eq_map]
  refine .object (hperm.map _) ?_
  rw [List.forall₂_map_left_iff, List.forall₂_map_right_iff]
  exact List.forall₂_same.mpr fun m hm => .intro (hvalues m (hperm.mem_iff.mpr hm))

theorem reorders_pick_self (hms : (ms.map Prod.fst).Nodup) (hkeys : keys.Nodup)
    (h : KeysIn keys ms) : (Json.object ms).Reorders (.object (pick (fun _ => id) keys ms)) := by
  have hpick := reorders_pick (f := fun _ v => v) (g := fun _ => id) hms hkeys h
    fun m _ => .refl m.2
  rwa [List.map_id'] at hpick

theorem KeysIn.lookup_eq_none (h : KeysIn keys ms) {key : String} (hkey : key ∉ keys) :
    ms.lookup key = none := by
  rcases hv : ms.lookup key with _ | v
  · rfl
  · exact absurd (h _ (mem_of_lookup hv)) hkey

theorem lookup_filter (hms : (ms.map Prod.fst).Nodup) (p : String × Json → Bool) (key : String) :
    List.lookup key (ms.filter p) = (ms.lookup key).filter fun v => p (key, v) := by
  have hfilter : ((ms.filter p).map Prod.fst).Nodup := hms.sublist (List.filter_sublist.map _)
  refine Option.ext fun v => ?_
  rw [Option.filter_eq_some_iff]
  constructor
  · intro h
    obtain ⟨hmem, hp⟩ := List.mem_filter.mp (mem_of_lookup h)
    exact ⟨lookup_of_mem hms hmem, hp⟩
  · rintro ⟨h, hp⟩
    exact lookup_of_mem hfilter (List.mem_filter.mpr ⟨mem_of_lookup h, hp⟩)

end Members

open Members (KeysIn pick)

/-! ### The format -/

namespace Format

/-- Either a target or the end. -/
def HasTransition (ms : Members) : Prop :=
  (∃ v, ms.lookup "Next" = some v) ∧ ms.lookup "End" = none ∨
    ms.lookup "Next" = none ∧ ms.lookup "End" = some (.bool true)

/-- A retry policy. -/
inductive IsRetrier : Json → Prop
  /-- An object with the keys of a policy. -/
  | object {ms : Members}
    (keys : KeysIn ["ErrorEquals", "IntervalSeconds", "BackoffRate", "MaxAttempts"] ms) :
    IsRetrier (.object ms)

/-- An error handler. -/
inductive IsCatcher : Json → Prop
  /-- An object with the keys of a handler. -/
  | object {ms : Members} (keys : KeysIn ["ErrorEquals", "Next", "End", "ResultPath"] ms)
    (transition : HasTransition ms) : IsCatcher (.object ms)

/-- A rule, with the keyword of one operator. -/
inductive IsRule : Json → Prop
  /-- Some rules, or every one of some. -/
  | junction {ms : Members} {op : LogicOp} {items : List Json} (several : op ≠ .not)
    (keys : KeysIn [op.keyword, "Next"] ms) (operand : ms.lookup op.keyword = some (.array items))
    (inside : ∀ v ∈ items, IsRule v) : IsRule (.object ms)
  /-- The opposite of a rule. -/
  | negation {ms : Members} {v : Json} (keys : KeysIn ["Not", "Next"] ms)
    (operand : ms.lookup "Not" = some v) (inside : IsRule v) : IsRule (.object ms)
  /-- A comparison. -/
  | comparison {ms : Members} {op : Comparator} {v : Json}
    (keys : KeysIn ["Variable", op.keyword, "Next"] ms)
    (literal : ms.lookup op.keyword = some v) : IsRule (.object ms)

/-- The keys of the flow of data, which are common to all kinds of states. -/
def flowKeys : List String :=
  ["InputPath", "OutputPath", "ResultPath", "Result"]

/-- The keys of a kind of states. -/
def kindKeys : StateKind → List String
  | .task => ["Resource", "TimeoutSeconds", "HeartbeatSeconds", "Retry", "Catch"]
  | .wait => ["Seconds"]
  | .fail => ["Error", "Cause"]
  | .choice => ["Choices", "Default"]
  | .parallel => ["Branches"]
  | .pass | .succeed => []

/-- The keys of the transition of a state. -/
def transitionKeys : StateKind → List String
  | .pass | .task | .wait | .parallel => ["Next", "End"]
  | .succeed | .fail | .choice => []

mutual

/-- A state. -/
inductive IsState : Json → Prop
  /-- An object with the common keys and those of its kind. -/
  | object {ms : Members} {kind : StateKind} (type : ms.lookup "Type" = some (.string kind.name))
    (keys : KeysIn (["Type", "Comment"] ++ flowKeys ++ kindKeys kind ++ transitionKeys kind) ms)
    (transition : transitionKeys kind ≠ [] → HasTransition ms)
    (retriers : Allows "Retry" (Json.IsArrayOf IsRetrier) ms)
    (catchers : Allows "Catch" (Json.IsArrayOf IsCatcher) ms)
    (rules : Allows "Choices" (Json.IsArrayOf IsRule) ms)
    (branches : Allows "Branches" Json.IsArray ms)
    (inside : ∀ items, ms.lookup "Branches" = some (.array items) → ∀ v ∈ items, IsBranch v) :
    IsState (.object ms)

/-- A branch. -/
inductive IsBranch : Json → Prop
  /-- An object with a start and states. -/
  | object {ms : Members} (keys : KeysIn ["StartAt", "States"] ms)
    (start : (ms.lookup "StartAt").isSome = true) (states : Requires "States" Json.IsObject ms)
    (inside : ∀ members, ms.lookup "States" = some (.object members) →
      ∀ m ∈ members, IsState m.2) : IsBranch (.object ms)

end

/-- A machine. -/
inductive IsMachine : Json → Prop
  /-- An object with a start, states and what is known of the machine. -/
  | object {ms : Members}
    (keys : KeysIn ["StartAt", "States", "Comment", "TimeoutSeconds", "Version"] ms)
    (start : (ms.lookup "StartAt").isSome = true) (states : Requires "States" Json.IsObject ms)
    (inside : ∀ members, ms.lookup "States" = some (.object members) →
      ∀ m ∈ members, IsState m.2) : IsMachine (.object ms)

/-! ### Trimming -/

/-- The common keys that a kind of states does not declare. -/
def undeclared : StateKind → List String
  | .pass | .task => []
  | .parallel => ["Result"]
  | .wait | .succeed | .fail | .choice => flowKeys

/-- Whether a value is an array without items. -/
def isEmptyArray : Json → Bool
  | .array [] => true
  | _ => false

/-- Whether a member of a state of a kind is lost: under a key that the kind does not declare, or
an array without policies or handlers. -/
def loses (kind : StateKind) (m : String × Json) : Bool :=
  (undeclared kind).contains m.1 || ((m.1 == "Retry" || m.1 == "Catch") && isEmptyArray m.2)

/-- The members of a state, without those that are lost. -/
def trimMembers (ms : Members) : Members :=
  match Canonical.kind? ms with
  | some kind => ms.filter fun m => !loses kind m
  | none => ms

/-- A state, trimmed at all depths. Only parallel states have branches in the format. -/
def trimState : Json → Json :=
  Json.editState (fun _ => true) trimMembers

/-- A machine or a branch with all its states trimmed. -/
def trim : Json → Json :=
  Json.editCollection (fun _ => true) trimMembers

/-! ### Objects in canonical form -/

theorem next_eq_keep {ms : Members} (h : ms.lookup "End" = none) :
    Canonical.next ms = Canonical.keep "Next" ms :=
  Canonical.next_of_not_end (h ▸ (Option.some_ne_none _).symm)

theorem next_eq_pick {ms : Members} (h : HasTransition ms) :
    Canonical.next ms = Canonical.keep "Next" ms ++ Canonical.keep "End" ms := by
  rcases h with ⟨⟨v, hv⟩, hend⟩ | ⟨hnext, hend⟩
  · rw [next_eq_keep hend, Canonical.keep_of_some hv, Canonical.keep, hend]
    rfl
  · rw [Canonical.next, hend, Canonical.keep, Canonical.keep, hnext, hend]
    rfl

theorem IsRetrier.reorders {v : Json} (h : IsRetrier v) (hv : v.HasDistinctKeys) :
    v.Reorders (Canonical.retrier v) := by
  cases h with
  | @object ms keys =>
    have hpick := Members.reorders_pick_self hv.nodup (by decide) keys
    rw [Canonical.retrier]
    simpa [pick, Canonical.keep] using hpick

theorem IsCatcher.reorders {v : Json} (h : IsCatcher v) (hv : v.HasDistinctKeys) :
    v.Reorders (Canonical.catcher v) := by
  cases h with
  | @object ms keys transition =>
    have hpick := Members.reorders_pick_self hv.nodup (by decide) keys
    rw [Canonical.catcher, next_eq_pick transition]
    simpa [pick, Canonical.keep] using hpick

theorem reorders_array {f g : Json → Json} {items : List Json}
    (h : ∀ v ∈ items, (f v).Reorders (g v)) :
    (Json.array (items.map f)).Reorders (.array (items.map g)) := by
  refine .array ?_
  rw [List.forall₂_map_left_iff, List.forall₂_map_right_iff]
  exact List.forall₂_same.mpr h

theorem reorders_array_self {g : Json → Json} {items : List Json}
    (h : ∀ v ∈ items, v.Reorders (g v)) :
    (Json.array items).Reorders (.array (items.map g)) := by
  have harray := reorders_array (f := id) h
  rwa [List.map_id] at harray

/-- A rule of the format has the keyword of one operator only. -/
theorem find?_eq_some {ms : Members} (op : Operator) {v : Json}
    (keys : KeysIn ["Variable", op.keyword, "Next"] ms) (h : ms.lookup op.keyword = some v) :
    Operator.find? ms = some op := by
  refine Operator.find?_eq_some_of_only (by rw [h]; rfl) fun other hne => ?_
  have hother := other.keyword_ne
  refine keys.lookup_eq_none ?_
  simp only [List.mem_cons, List.not_mem_nil, or_false, not_or]
  exact ⟨hother.2.2, fun heq => hne (Operator.keyword_injective heq), hother.1⟩

theorem keep_values {key : String} {f : Json → Json} {ms ns : Members}
    (h : ns.lookup key = (ms.lookup key).map f) :
    Canonical.keep key ns = optionalMember key f (ms.lookup key) := by
  rw [Canonical.keep, h]
  cases ms.lookup key <;> rfl

/-- A rule below a logic operator is in canonical form, up to the order of keys, if the operand
is. -/
theorem reorders_logic {ms : Members} (op : LogicOp) {v : Json}
    (hms : (Json.object ms).HasDistinctKeys) (keys : KeysIn [op.keyword, "Next"] ms)
    (operand : ms.lookup op.keyword = some v) (hv : v.Reorders (Canonical.rule v)) :
    (Json.object ms).Reorders (Canonical.rule (.object ms)) := by
  have hkeyword := (Operator.logic op).keyword_ne
  have hne : "Next" ≠ op.keyword := Ne.symm hkeyword.1
  have hend : ms.lookup "End" = none := keys.lookup_eq_none (by cases op <;> decide)
  have hfind := find?_eq_some (.logic op)
    (fun m hm => List.mem_cons_of_mem _ (keys m hm)) operand
  have hpick : Canonical.ruleMembers ms (Canonical.ruleValues ms) =
      pick (fun key => if key = op.keyword then Canonical.rule else id) [op.keyword, "Next"]
        ms := by
    rw [Canonical.ruleMembers, hfind]
    dsimp only
    rw [next_eq_keep hend, keep_values (Canonical.lookup_ruleValues op.keyword ms)]
    simp [pick, hne, Canonical.keep]
  rw [Canonical.rule, hpick]
  have hdistinct : [op.keyword, "Next"].Nodup := by simpa using hne.symm
  have hreorders := Members.reorders_pick (f := fun _ v => v)
    (g := fun key => if key = op.keyword then Canonical.rule else id) hms.nodup hdistinct keys
    fun m hm => ?_
  · rwa [List.map_id'] at hreorders
  · split
    · next hkey =>
      have hfound := lookup_of_mem hms.nodup hm
      rw [hkey, operand] at hfound
      exact Option.some.inj hfound ▸ hv
    · exact .refl m.2

/-- **A rule of the format is in canonical form**, up to the order of keys: by induction on the
rule. -/
theorem IsRule.reorders {v : Json} (h : IsRule v) (hv : v.HasDistinctKeys) :
    v.Reorders (Canonical.rule v) := by
  induction h with
  | @junction ms op items several keys operand inside ih =>
    have hitems := (hv.lookup operand).items
    refine reorders_logic op hv keys operand ?_
    rw [Canonical.rule, Canonical.ruleItems_eq_map]
    exact reorders_array_self fun w hw => ih w hw (hitems w hw)
  | negation keys operand inside ih =>
    exact reorders_logic .not hv keys operand (ih (hv.lookup operand))
  | @comparison ms op v keys literal =>
    have hkeyword := (Operator.compare op).keyword_ne
    have hend : ms.lookup "End" = none := keys.lookup_eq_none (by
      simpa using Ne.symm (show op.keyword ≠ "End" from hkeyword.2.1))
    have hdistinct : ["Variable", op.keyword, "Next"].Nodup := by
      simpa using And.intro (Ne.symm (show op.keyword ≠ "Variable" from hkeyword.2.2))
        (show op.keyword ≠ "Next" from hkeyword.1)
    have hpick := Members.reorders_pick_self hv.nodup hdistinct keys
    rw [Canonical.rule, Canonical.ruleMembers, find?_eq_some (.compare op) keys literal]
    dsimp only
    rw [next_eq_keep hend]
    simpa [pick, Canonical.keep] using hpick

/-! ### States -/

/-- An array with its items changed. -/
def mapItems (f : Json → Json) : Json → Json
  | .array items => .array (items.map f)
  | v => v

/-- The value under a key of a state in canonical form. -/
def canonicalValue (key : String) (v : Json) : Json :=
  if key = "Retry" then mapItems Canonical.retrier v
  else if key = "Catch" then mapItems Canonical.catcher v
  else if key = "Choices" then Canonical.rule v
  else if key = "Branches" then Canonical.branches v
  else v

/-- The keys that a kind of states declares, in the order of writing. -/
def stateKeys : StateKind → List String
  | .pass =>
    ["Type", "Comment", "InputPath", "OutputPath", "ResultPath", "Result", "Next", "End"]
  | .task =>
    ["Type", "Comment", "Resource", "TimeoutSeconds", "HeartbeatSeconds", "InputPath",
      "OutputPath", "ResultPath", "Result", "Next", "End", "Retry", "Catch"]
  | .wait => ["Type", "Comment", "Seconds", "Next", "End"]
  | .succeed => ["Type", "Comment"]
  | .fail => ["Type", "Comment", "Error", "Cause"]
  | .choice => ["Type", "Comment", "Choices", "Default"]
  | .parallel =>
    ["Type", "Comment", "Branches", "Next", "End", "InputPath", "OutputPath", "ResultPath"]

theorem nodup_stateKeys (kind : StateKind) : (stateKeys kind).Nodup := by
  cases kind <;> decide

/-- A key of the format that a kind does not lose is one that it declares. -/
theorem mem_stateKeys {kind : StateKind} {key : String}
    (h : key ∈ ["Type", "Comment"] ++ flowKeys ++ kindKeys kind ++ transitionKeys kind)
    (hkey : key ∉ undeclared kind) : key ∈ stateKeys kind := by
  have hall : ∀ key ∈ ["Type", "Comment"] ++ flowKeys ++ kindKeys kind ++ transitionKeys kind,
      key ∉ undeclared kind → key ∈ stateKeys kind := by
    cases kind <;> decide
  exact hall key h hkey

section Trimmed

variable {kind : StateKind} {ms : Members} {key : String}

theorem lookup_trimmed (hms : (ms.map Prod.fst).Nodup) (h : ∀ v, loses kind (key, v) = false) :
    List.lookup key (ms.filter fun m => !loses kind m) = ms.lookup key := by
  rw [Members.lookup_filter hms]
  cases ms.lookup key <;> simp [h]

/-- A key that is declared and holds neither policies nor handlers is not lost. -/
theorem loses_eq_false (h : key ∉ "Retry" :: "Catch" :: undeclared kind) (v : Json) :
    loses kind (key, v) = false := by
  simp only [List.mem_cons, not_or] at h
  simp [loses, h]

/-- A key with a plain value is kept with the value. -/
theorem keep_eq_pick (hms : (ms.map Prod.fst).Nodup)
    (h : key ∉ "Retry" :: "Catch" :: undeclared kind) (hne : key ≠ "Choices" ∧ key ≠ "Branches") :
    Canonical.keep key ms = optionalMember key (canonicalValue key)
      (List.lookup key (ms.filter fun m => !loses kind m)) := by
  have hvalue : canonicalValue key = id := by
    simp only [List.mem_cons, not_or] at h
    funext v
    simp [canonicalValue, h, hne]
  rw [lookup_trimmed hms (loses_eq_false h), hvalue, Canonical.keep]

/-- Policies and handlers are kept, if there are some. -/
theorem keepItems_eq_pick {item : Json → Json} {P : Json → Prop} (hms : (ms.map Prod.fst).Nodup)
    (hkey : key = "Retry" ∨ key = "Catch") (hdeclared : key ∉ undeclared kind)
    (hvalue : canonicalValue key = mapItems item) (h : Allows key (Json.IsArrayOf P) ms) :
    Canonical.keepItems key item ms = optionalMember key (canonicalValue key)
      (List.lookup key (ms.filter fun m => !loses kind m)) := by
  have hloses (v : Json) : loses kind (key, v) = isEmptyArray v := by
    rcases hkey with rfl | rfl <;> simp [loses, hdeclared]
  rw [Members.lookup_filter hms, hvalue, Canonical.keepItems]
  simp only [hloses]
  rcases hv : ms.lookup key with _ | v
  · rfl
  · obtain ⟨items, rfl, -⟩ := h v hv
    cases items <;> rfl

/-- **A state of the format has the members in canonical form that are picked from it**, once it
is trimmed. -/
theorem stateMembers_eq_pick (hms : (ms.map Prod.fst).Nodup)
    (type : ms.lookup "Type" = some (.string kind.name))
    (transition : transitionKeys kind ≠ [] → HasTransition ms)
    (retriers : Allows "Retry" (Json.IsArrayOf IsRetrier) ms)
    (catchers : Allows "Catch" (Json.IsArrayOf IsCatcher) ms) :
    Canonical.stateMembers ms (Canonical.branchValues ms) =
      pick canonicalValue (stateKeys kind) (ms.filter fun m => !loses kind m) := by
  have hkeep (key : String) := @keep_eq_pick kind ms key hms
  have hnested {f : Json → Json} {ns : Members} (key : String)
      (h : ns.lookup key = (ms.lookup key).map f)
      (hkey : key ∉ "Retry" :: "Catch" :: undeclared kind) (hvalue : canonicalValue key = f) :
      Canonical.keep key ns = optionalMember key (canonicalValue key)
        (List.lookup key (ms.filter fun m => !loses kind m)) := by
    rw [keep_values h, lookup_trimmed hms (loses_eq_false hkey), hvalue]
  have hnext : transitionKeys kind ≠ [] →
      Canonical.next ms = Canonical.keep "Next" ms ++ Canonical.keep "End" ms :=
    fun h => next_eq_pick (transition h)
  rw [Canonical.stateMembers, Canonical.kind?_eq type]
  cases kind with
  | pass | wait =>
    simp (disch := decide) only [Canonical.settings, hnext, hkeep]
    simp [pick, stateKeys]
  | succeed | fail =>
    simp (disch := decide) only [Canonical.settings, hkeep]
    simp [pick, stateKeys]
  | task =>
    have hretriers : Canonical.keepItems "Retry" Canonical.retrier ms = optionalMember "Retry"
        (canonicalValue "Retry") (List.lookup "Retry" (ms.filter fun m => !loses .task m)) :=
      keepItems_eq_pick hms (Or.inl rfl) (by decide) rfl retriers
    have hcatchers : Canonical.keepItems "Catch" Canonical.catcher ms = optionalMember "Catch"
        (canonicalValue "Catch") (List.lookup "Catch" (ms.filter fun m => !loses .task m)) :=
      keepItems_eq_pick hms (Or.inr rfl) (by decide) rfl catchers
    simp (disch := decide) only [Canonical.settings, hnext, hkeep, hretriers, hcatchers]
    simp [pick, stateKeys]
  | choice =>
    have hchoices := hnested _ (Canonical.lookup_ruleValues "Choices" ms) (by decide) rfl
    simp (disch := decide) only [Canonical.settings, hkeep, hchoices]
    simp [pick, stateKeys]
  | parallel =>
    have hbranches := hnested _ (Canonical.lookup_branchValues "Branches" ms) (by decide) rfl
    simp (disch := decide) only [Canonical.settings, hnext, hkeep, hbranches]
    simp [pick, stateKeys]

/-- A trimmed state keeps what is not lost. -/
theorem editedMembers_eq (type : ms.lookup "Type" = some (.string kind.name)) :
    Json.editedMembers (fun _ => true) trimMembers ms =
      (ms.filter fun m => !loses kind m).map fun m =>
        (m.1, if m.1 = "Branches" then Json.editBranches (fun _ => true) trimMembers m.2
          else m.2) := by
  have hkind : Canonical.kind? (Json.editBranchesIn (fun _ => true) trimMembers ms) = some kind :=
    Canonical.kind?_eq ((Json.lookup_editBranchesIn_of_ne (by decide) ms).trans type)
  rw [Json.editedMembers, if_pos rfl, trimMembers, hkind]
  dsimp only
  rw [Json.editBranchesIn_eq_map, List.filter_map]
  -- what is lost is not told from its branches
  refine congrArg _ (List.filter_congr fun m _ => ?_)
  by_cases hkey : m.1 = "Branches"
  · simp [loses, hkey]
  · simp [hkey]

/-- The values of a state of the format are in canonical form, up to the order of keys, once its
branches are. -/
theorem reorders_canonicalValue (hms : (Json.object ms).HasDistinctKeys)
    (retriers : Allows "Retry" (Json.IsArrayOf IsRetrier) ms)
    (catchers : Allows "Catch" (Json.IsArrayOf IsCatcher) ms)
    (rules : Allows "Choices" (Json.IsArrayOf IsRule) ms)
    (branches : Allows "Branches" (Json.IsArrayOf fun v => (trim v).Reorders (Canonical.branch v))
      ms) {m : String × Json} (hm : m ∈ ms) :
    (if m.1 = "Branches" then Json.editBranches (fun _ => true) trimMembers m.2
      else m.2).Reorders (canonicalValue m.1 m.2) := by
  have hfound := lookup_of_mem hms.nodup hm
  obtain ⟨key, v⟩ := m
  dsimp only at hfound ⊢
  have hv := hms.lookup hfound
  by_cases hretry : key = "Retry"
  · subst hretry
    obtain ⟨items, rfl, hitems⟩ := retriers v hfound
    exact reorders_array_self fun w hw => (hitems w hw).reorders (hv.items w hw)
  by_cases hcatch : key = "Catch"
  · subst hcatch
    obtain ⟨items, rfl, hitems⟩ := catchers v hfound
    exact reorders_array_self fun w hw => (hitems w hw).reorders (hv.items w hw)
  by_cases hchoices : key = "Choices"
  · subst hchoices
    obtain ⟨items, rfl, hitems⟩ := rules v hfound
    have harray := reorders_array_self fun w hw => (hitems w hw).reorders (hv.items w hw)
    rwa [← Canonical.ruleItems_eq_map, ← Canonical.rule] at harray
  by_cases hbranches : key = "Branches"
  · subst hbranches
    obtain ⟨items, rfl, hitems⟩ := branches v hfound
    have harray := reorders_array hitems
    rwa [trim, ← Json.editItems_eq_map, ← Json.editBranches, ← Canonical.branchItems_eq_map,
      ← Canonical.branches] at harray
  · rw [canonicalValue, if_neg hretry, if_neg hcatch, if_neg hchoices, if_neg hbranches,
      if_neg hbranches]
    exact .refl v

end Trimmed

/-! ### Collections -/

/-- The value under a key of a collection in canonical form. -/
def collectionValue (key : String) (v : Json) : Json :=
  if key = "States" then Canonical.states v else v

theorem collectionValue_of_ne {key : String} (h : key ≠ "States") : collectionValue key = id :=
  funext fun _ => if_neg h

theorem collectionValue_states : collectionValue "States" = Canonical.states :=
  funext fun _ => if_pos rfl

section Collections

variable {keys : List String} {ms : Members}

theorem start_eq_keep (h : (ms.lookup "StartAt").isSome = true) :
    Canonical.start ms = Canonical.keep "StartAt" ms := by
  obtain ⟨v, hv⟩ := Option.isSome_iff_exists.mp h
  rw [Canonical.start, hv, Canonical.keep_of_some hv]

theorem reorders_states {members : Members}
    (h : ∀ m ∈ members, (trimState m.2).Reorders (Canonical.state m.2)) :
    (Json.editStates (fun _ => true) trimMembers (.object members)).Reorders
      (Canonical.states (.object members)) := by
  rw [Json.editStates, Json.editNamed_eq_map, Canonical.states, Canonical.stateValues_eq_map]
  refine .object (.refl _) ?_
  rw [List.forall₂_map_left_iff, List.forall₂_map_right_iff]
  exact List.forall₂_same.mpr fun m hm => .intro (h m hm)

/-- A collection is in canonical form, up to the order of keys, once its states are. -/
theorem reorders_collection (hms : (Json.object ms).HasDistinctKeys) (hkeys : keys.Nodup)
    (among : KeysIn keys ms) (states : Requires "States" Json.IsObject ms)
    (inside : ∀ members, ms.lookup "States" = some (.object members) →
      ∀ m ∈ members, (trimState m.2).Reorders (Canonical.state m.2)) :
    (trim (.object ms)).Reorders (.object (pick collectionValue keys ms)) := by
  rw [trim, Json.editCollection, Json.editStatesIn_eq_map]
  refine Members.reorders_pick
    (f := fun key v => if key = "States" then Json.editStates (fun _ => true) trimMembers v else v)
    hms.nodup hkeys among fun m hm => ?_
  have hfound := lookup_of_mem hms.nodup hm
  by_cases hkey : m.1 = "States"
  · obtain ⟨_, hv, members, rfl⟩ := states
    have hm : m.2 = .object members := Option.some.inj (hfound.symm.trans (hkey ▸ hv))
    rw [collectionValue, if_pos hkey, if_pos hkey, hm]
    exact reorders_states (inside members hv)
  · rw [collectionValue, if_neg hkey, if_neg hkey]
    exact .refl m.2

end Collections

/-- A branch of the format is in canonical form once it is trimmed, given that for the smaller
states. -/
theorem IsBranch.reorders_of_lt {v : Json} (h : IsBranch v) (hv : v.HasDistinctKeys)
    (hstates : ∀ w, sizeOf w < sizeOf v → IsState w → w.HasDistinctKeys →
      (trimState w).Reorders (Canonical.state w)) : (trim v).Reorders (Canonical.branch v) := by
  cases h with
  | @object ms keys start states inside =>
    have hcollection := reorders_collection hv (by decide) keys states fun members hmembers m hm =>
      hstates m.2 ?_ (inside members hmembers m hm) ((hv.lookup hmembers).members m hm)
    · have hpick : Canonical.start ms ++ Canonical.keep "States" (Canonical.statesValues ms) =
          pick collectionValue ["StartAt", "States"] ms := by
        rw [start_eq_keep start, keep_values (Canonical.lookup_statesValues "States" ms)]
        simp [pick, Canonical.keep, collectionValue_of_ne, collectionValue_states]
      rwa [← hpick, ← Canonical.branch] at hcollection
    · exact Nat.lt_trans (sizeOf_lt_of_mem_members hm) (sizeOf_lt_of_lookup hmembers)

/-- **A state of the format is in canonical form**, up to the order of keys, once it is trimmed:
by induction on its size. -/
theorem IsState.reorders {v : Json} (h : IsState v) (hv : v.HasDistinctKeys) :
    (trimState v).Reorders (Canonical.state v) := by
  induction v using Json.sizeInduction with
  | step v ih =>
  cases h with
  | @object ms kind type keys transition retriers catchers rules branches inside =>
    rw [trimState, Json.editState_object, editedMembers_eq type, Canonical.state,
      stateMembers_eq_pick hv.nodup type transition retriers catchers]
    have hbranches : Allows "Branches"
        (Json.IsArrayOf fun v => (trim v).Reorders (Canonical.branch v)) ms := by
      intro w hw
      obtain ⟨items, rfl⟩ := branches w hw
      refine ⟨items, rfl, fun b hb => ?_⟩
      exact (inside items hw b hb).reorders_of_lt ((hv.lookup hw).items b hb)
        fun t ht => ih t (Nat.lt_trans ht
          (Nat.lt_trans (sizeOf_lt_of_mem_items hb) (sizeOf_lt_of_lookup hw)))
    refine Members.reorders_pick
      (f := fun key v => if key = "Branches" then
        Json.editBranches (fun _ => true) trimMembers v else v)
      (hv.nodup.sublist (List.filter_sublist.map _)) (nodup_stateKeys kind) (fun m hm => ?_)
      fun m hm => reorders_canonicalValue hv retriers catchers rules hbranches
        (List.mem_of_mem_filter hm)
    obtain ⟨hm, hkept⟩ := List.mem_filter.mp hm
    refine mem_stateKeys (keys m hm) fun hlost => ?_
    simp [loses, hlost] at hkept

/-- **A machine of the format is in canonical form**, up to the order of keys, once it is
trimmed. -/
theorem IsMachine.reorders {v : Json} (h : IsMachine v) (hv : v.HasDistinctKeys) :
    (trim v).Reorders (Canonical.machine v) := by
  cases h with
  | @object ms keys start states inside =>
    have hpick : Canonical.start ms ++ Canonical.keep "States" (Canonical.statesValues ms) ++
        Canonical.keep "Comment" ms ++ Canonical.keep "TimeoutSeconds" ms ++
        Canonical.keep "Version" ms =
        pick collectionValue ["StartAt", "States", "Comment", "TimeoutSeconds", "Version"] ms := by
      rw [start_eq_keep start, keep_values (Canonical.lookup_statesValues "States" ms)]
      simp [pick, Canonical.keep, collectionValue_of_ne, collectionValue_states]
    rw [Canonical.machine, hpick]
    exact reorders_collection hv (by decide) keys states fun members hmembers m hm =>
      (inside members hmembers m hm).reorders ((hv.lookup hmembers).members m hm)

/-! ### Writing back -/

/-- A state without settings may still have the keys that are common to all kinds. -/
theorem isState_succeed {ms : Members} (keys : KeysIn (["Type", "Comment"] ++ flowKeys) ms)
    (type : ms.lookup "Type" = some (.string "Succeed")) : IsState (.object ms) := by
  have habsent {key : String} (h : key ∉ ["Type", "Comment"] ++ flowKeys) :
      ms.lookup key = none := keys.lookup_eq_none h
  refine @IsState.object _ .succeed type (by simpa [kindKeys, transitionKeys] using keys)
    (fun h => absurd rfl h) (.of_none (habsent (by decide))) (.of_none (habsent (by decide)))
    (.of_none (habsent (by decide))) (.of_none (habsent (by decide))) fun items h => ?_
  rw [habsent (by decide)] at h
  nomatch h

/-- **A document of the format is written as it was read, but for what is lost.** If it is read as
a machine without problems, then the machine is written as the trimmed document, up to the order
of keys. -/
theorem IsMachine.toDocument_reorders_trim {document : Json} (h : IsMachine document)
    (hdistinct : document.HasDistinctKeys) {m : Machine}
    (hread : (Machine.ofDocument .standard document).outcome = .ok m)
    (hproblems : m.problems = []) :
    ∃ written, m.toDocument.outcome = .ok written ∧ (trim document).Reorders written := by
  refine ⟨m.document, Machine.toDocument_eq_ok.mpr ⟨hproblems, rfl⟩, ?_⟩
  rw [Canonical.document_eq_machine hread hproblems]
  exact h.reorders hdistinct

/-- A document with a key that its state does not declare, another one in a branch, and an array
without policies. -/
def wordy : Json :=
  .object [("States", .object [
      ("Both", .object [("Result", .null), ("Type", .string "Parallel"), ("Branches", .array [
        .object [("StartAt", .string "Done"), ("States", .object [
          ("Done", .object [("OutputPath", .string "$.x"), ("Type", .string "Succeed")])])]]),
        ("Next", .string "Work")]),
      ("Work", .object [("Retry", .array []), ("Type", .string "Task"), ("Resource", .string "R"),
        ("Catch", .array [
          .object [("End", .bool true), ("ErrorEquals", .array [.string "Lost"])]]),
        ("End", .bool true)])]),
    ("StartAt", .string "Both")]

theorem isMachine_wordy : IsMachine wordy := by
  refine .object (by simp [KeysIn]) rfl ⟨_, rfl, _, rfl⟩ ?_
  rintro _ ⟨rfl⟩ m hm
  rw [List.mem_cons, List.mem_singleton] at hm
  rcases hm with rfl | rfl
  · refine @IsState.object _ .parallel rfl (by simp [KeysIn, flowKeys, kindKeys, transitionKeys])
      (fun _ => .inl ⟨⟨_, rfl⟩, rfl⟩) (.of_none rfl) (.of_none rfl) (.of_none rfl)
      (.of_some rfl ⟨_, rfl⟩) ?_
    rintro _ ⟨rfl⟩ v hv
    rw [List.mem_singleton.mp hv]
    refine .object (by simp [KeysIn]) rfl ⟨_, rfl, _, rfl⟩ ?_
    rintro _ ⟨rfl⟩ n hn
    rw [List.mem_singleton.mp hn]
    exact isState_succeed (by simp [KeysIn, flowKeys]) rfl
  · refine @IsState.object _ .task rfl (by simp [KeysIn, flowKeys, kindKeys, transitionKeys])
      (fun _ => .inr ⟨rfl, rfl⟩) (.of_some rfl ⟨_, rfl, nofun⟩) (.of_some rfl ⟨_, rfl, ?_⟩)
      (.of_none rfl) (.of_none rfl) nofun
    intro v hv
    rw [List.mem_singleton.mp hv]
    exact .object (by simp [KeysIn]) (.inr ⟨rfl, rfl⟩)

theorem IsMachine.toDocument_wordy : IsMachine wordy ∧ wordy.HasDistinctKeys ∧
    ∃ m, (Machine.ofDocument .standard wordy).outcome = .ok m ∧ m.problems = [] ∧
      ∃ written, m.toDocument.outcome = .ok written ∧
        (Json.object [("States", .object [
            ("Both", .object [("Type", .string "Parallel"), ("Branches", .array [
              .object [("StartAt", .string "Done"), ("States", .object [
                ("Done", .object [("Type", .string "Succeed")])])]]),
              ("Next", .string "Work")]),
            ("Work", .object [("Type", .string "Task"), ("Resource", .string "R"),
              ("Catch", .array [
                .object [("End", .bool true), ("ErrorEquals", .array [.string "Lost"])]]),
              ("End", .bool true)])]),
          ("StartAt", .string "Both")]).Reorders written := by
  have hdistinct : wordy.HasDistinctKeys := (Json.distinctKeys_iff _).mp (by decide)
  have hread : (Machine.ofDocument .standard wordy).outcome = .ok _ := rfl
  exact ⟨isMachine_wordy, hdistinct, _, hread, rfl,
    isMachine_wordy.toDocument_reorders_trim hdistinct hread rfl⟩

/-- A document with a key that its state does not declare. -/
def idle : Json :=
  .object [("StartAt", .string "A"), ("States", .object [
    ("A", .object [("Type", .string "Succeed"), ("InputPath", .string "$.x")])])]

theorem isMachine_idle : IsMachine idle := by
  refine .object (by simp [KeysIn]) rfl ⟨_, rfl, _, rfl⟩ ?_
  rintro _ ⟨rfl⟩ m hm
  rw [List.mem_singleton.mp hm]
  exact isState_succeed (by simp [KeysIn, flowKeys]) rfl

/-- **A document of the format need not be written as it was read.** -/
theorem not_reorders_idle : IsMachine idle ∧ idle.HasDistinctKeys ∧
    ∃ m written, (Machine.ofDocument .standard idle).outcome = .ok m ∧ m.problems = [] ∧
      m.toDocument.outcome = .ok written ∧ ¬idle.Reorders written := by
  have hdistinct : idle.HasDistinctKeys := (Json.distinctKeys_iff _).mp (by decide)
  refine ⟨isMachine_idle, hdistinct, _, _, rfl, rfl, rfl, fun h => ?_⟩
  exact absurd (h.equiv hdistinct) (by decide)

end Format

end StatesLanguage
