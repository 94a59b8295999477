import StatesLanguage.Proofs.Built
import StatesLanguage.Proofs.Writing

/-!
# Trees of rules

The rules of a choice stand in trees, and only the root of a tree says where control goes.
Nothing in the type of a rule says so: each node has a transition field, and the mode of the
field, which is chosen when the node is made, decides what may be set there. `Rule.RootOnly`
is what comes of it. Every node of the tree below the root is locked and has no transition,
the root has a target or nothing, no call ends the execution at any node, and in the document
of the tree no rule but the root has a `Next`, and none an `End`.

All of this follows from one invariant, `Rule.Placed`, which edits and the reader keep. Here
it is carried from the root to the nodes at all addresses (`Rule.Placed.of_node?`), and over
sequences of edits (`State.HasTrees.after`), of which some may fail.
-/

namespace StatesLanguage

/-! ### Values inside of values -/

/-- A value is another one, or stands somewhere inside it. -/
inductive Json.Within (w : Json) : Json → Prop where
  /-- The value itself. -/
  | refl : Within w w
  /-- A value inside an item of an array. -/
  | item {items : List Json} {v : Json} (hv : v ∈ items) (h : Within w v) : Within w (.array items)
  /-- A value inside a member of an object. -/
  | member {ms : Json.Members} {key : String} {v : Json} (hv : (key, v) ∈ ms) (h : Within w v) :
    Within w (.object ms)

/-- What is neither an array nor an object has nothing inside. -/
theorem Json.not_within_of_isScalar {v : Json} (h : v.isScalar = true) {ms : Json.Members} :
    ¬ Json.Within (.object ms) v := by
  intro hw
  cases hw with
  | refl | item _ _ | member _ _ => nomatch h

namespace Rule

/-! ### Nodes -/

/-- The node at an address. -/
def node? : List Nat → Rule → Option Rule
  | [], r => some r
  | i :: address, r => r.children[i]?.bind (node? address)

variable {mode : TransitionMode} {root node : Rule}

theorem Placed.child {r child : Rule} (h : r.Placed mode) (hchild : child ∈ r.children) :
    child.Placed .locked := by
  cases h with
  | logic _ inside => exact inside child hchild
  | compare _ => nomatch hchild

/-- **Below the root of a tree every node is locked**: by induction on the address. -/
theorem Placed.of_node? {address : List Nat} (h : root.Placed mode)
    (hnode : root.node? address = some node) :
    node.Placed (if address = [] then mode else .locked) := by
  induction address generalizing mode root with
  | nil =>
    obtain rfl := Option.some.inj hnode
    rw [if_pos rfl]
    exact h
  | cons i address ih =>
    obtain ⟨child, hi, hnode⟩ := Option.bind_eq_some_iff.mp hnode
    have hchild := ih (h.child (List.mem_of_getElem? hi)) hnode
    -- the child is locked, so that it does not matter whether the node is the child
    rw [ite_self] at hchild
    rw [if_neg (List.cons_ne_nil i address)]
    exact hchild

/-- An edit of a node fails if the node does not take it: by induction on the address. -/
theorem apply_eq_error {e : RuleEdit} {error : Error} {address : List Nat}
    (hnode : root.node? address = some node) (herror : node.applyHere e = .error error) :
    root.apply e address = .error error := by
  induction address generalizing root with
  | nil =>
    obtain rfl := Option.some.inj hnode
    rw [apply, herror]
  | cons i address ih =>
    -- a comparison has no children, so that no address leads on from it
    cases root with
    | compare c next => nomatch hnode
    | logic op children next =>
      obtain ⟨child, hi, hnode⟩ := Option.bind_eq_some_iff.mp hnode
      have hi : children[i]? = some child := hi
      have hedit : editAt (apply e address) i children = .error error := by
        rw [editAt_of_getElem? (apply e address) hi, ih hnode]
        rfl
      rw [apply, hedit]
      rfl

/-- The execution ends at no node of a tree. -/
theorem Placed.apply_setTerminal {address : List Nat} (h : root.Placed .withoutEnd)
    (hnode : root.node? address = some node) :
    ∃ field, root.apply .setTerminal address = .error (.lockedField field) := by
  have hfits := (h.of_node? hnode).next
  -- the root refuses the end, and the other nodes refuse every transition
  have herror : ∃ field, node.next.setTerminal = .error (.lockedField field) := by
    split at hfits <;> rw [TransitionField.setTerminal, hfits.mode_eq]
    · exact ⟨"End", rfl⟩
    · exact ⟨"Next", rfl⟩
  obtain ⟨field, hfield⟩ := herror
  refine ⟨field, apply_eq_error hnode ?_⟩
  rw [Rule.applyHere, hfield]
  rfl

/-- **Only the root of a tree takes a target.** -/
theorem Placed.apply_setTarget {address : List Nat} (h : root.Placed .withoutEnd)
    (hnode : root.node? address = some node) (target : String) :
    (∃ error, root.apply (.setTarget target) address = .error error) ↔ address ≠ [] := by
  have hfits := (h.of_node? hnode).next
  constructor
  · rintro ⟨error, herror⟩ rfl
    obtain rfl := Option.some.inj hnode
    rw [if_pos rfl] at hfits
    rw [Rule.apply, Rule.applyHere, TransitionField.setTarget, hfits.mode_eq] at herror
    cases herror
  · intro hne
    rw [if_neg hne] at hfits
    refine ⟨.lockedField "Next", apply_eq_error hnode ?_⟩
    rw [Rule.applyHere, TransitionField.setTarget, hfits.mode_eq]
    rfl

/-! ### Documents -/

/-- Nothing that is written for a transition holds an object. -/
theorem not_within_of_mem_members {f : TransitionField} {key : String} {v : Json}
    {ms : Json.Members} (hv : (key, v) ∈ f.members) : ¬ Json.Within (.object ms) v := by
  refine Json.not_within_of_isScalar ?_
  rw [TransitionField.members] at hv
  split at hv
  · exact absurd hv List.not_mem_nil
  · obtain ⟨-, rfl⟩ := Prod.mk.inj (List.mem_singleton.mp hv)
    rfl
  · obtain ⟨-, rfl⟩ := Prod.mk.inj (List.mem_singleton.mp hv)
    rfl
  · exact absurd hv List.not_mem_nil

/-- An object in an operand is in one of the items. -/
theorem exists_within_of_operand {op : LogicOp} {items : List Json} {ms : Json.Members}
    (hw : Json.Within (.object ms) (op.operand items)) :
    ∃ v ∈ items, Json.Within (.object ms) v := by
  cases op with
  | and | or =>
    cases hw with
    | item hv hw => exact ⟨_, hv, hw⟩
  | not =>
    cases items with
    | nil => nomatch hw
    | cons v items => exact ⟨v, List.mem_cons_self, hw⟩

/-- **The objects inside of the document of a rule are in those of its children**: neither a
transition nor a comparison holds any. -/
theorem within_child_of_mem {r : Rule} {key : String} {v : Json} {ms : Json.Members}
    (hv : (key, v) ∈ r.documentMembers) (hw : Json.Within (.object ms) v) :
    ∃ child ∈ r.children, Json.Within (.object ms) child.toJson := by
  cases r with
  | logic op children next =>
    rcases List.mem_append.mp hv with hv | hv
    · obtain ⟨-, rfl⟩ := Prod.mk.inj (List.mem_singleton.mp hv)
      obtain ⟨w, hw, hwithin⟩ := exists_within_of_operand hw
      obtain ⟨child, hchild, rfl⟩ := List.mem_map.mp hw
      exact ⟨child, hchild, hwithin⟩
    · exact absurd hw (not_within_of_mem_members hv)
  | compare c next =>
    exfalso
    rcases List.mem_append.mp hv with hv | hv
    · rcases List.mem_append.mp hv with hv | hv
      · obtain ⟨path, -, hpath⟩ := mem_optionalMember.mp hv
        obtain ⟨-, rfl⟩ := Prod.mk.inj hpath
        exact Json.not_within_of_isScalar rfl hw
      · obtain ⟨w, hliteral, hw'⟩ := mem_optionalMember.mp hv
        obtain ⟨-, rfl⟩ := Prod.mk.inj hw'
        have hscalar := Operand.isScalar_of_accepts (c.accepted _ hliteral)
        exact Json.not_within_of_isScalar hscalar hw
    · exact not_within_of_mem_members hv hw

/-- A rule that has no end does not tell of one. -/
theorem Placed.lookup_next {r : Rule} (h : r.Placed mode) (hmode : mode ≠ .ordinary) :
    r.documentMembers.lookup "Next" = r.next.target?.map .string ∧
      r.documentMembers.lookup "End" = none := by
  rw [lookup_transition (Or.inl rfl), lookup_transition (Or.inr rfl)]
  obtain ⟨hmode_eq, hterminal, hlocked⟩ := h.next
  generalize r.next = f at hmode_eq hterminal hlocked ⊢
  obtain ⟨m, t⟩ := f
  obtain rfl : m = mode := hmode_eq
  cases m with
  | ordinary => exact absurd rfl hmode
  | locked =>
    obtain rfl : t = none := hlocked rfl
    exact ⟨rfl, rfl⟩
  | withoutEnd =>
    cases t with
    | none => exact ⟨rfl, rfl⟩
    | some t =>
      cases t with
      | next target => exact ⟨rfl, rfl⟩
      | terminal => exact absurd (hterminal rfl) hmode

theorem Placed.lookup_of_children {r : Rule} (h : r.Placed .locked) {ms : Json.Members}
    (hchildren : ∀ child ∈ r.children, Json.Within (.object ms) child.toJson →
      ms.lookup "Next" = none ∧ ms.lookup "End" = none)
    (hw : Json.Within (.object ms) r.toJson) :
    ms.lookup "Next" = none ∧ ms.lookup "End" = none := by
  rw [toJson_eq] at hw
  -- the object is the document of the rule itself, or stands in that of a child
  cases hw with
  | refl =>
    obtain ⟨hnext, hend⟩ := h.lookup_next nofun
    rw [TransitionField.target?, h.next.locked rfl] at hnext
    exact ⟨hnext, hend⟩
  | member hv hw =>
    obtain ⟨child, hchild, hw⟩ := within_child_of_mem hv hw
    exact hchildren child hchild hw

/-- **Locked rules tell of no transition**, nor do those inside them: by induction on the
rule. -/
theorem Placed.lookup_of_within {r : Rule} (h : r.Placed .locked) {ms : Json.Members}
    (hw : Json.Within (.object ms) r.toJson) :
    ms.lookup "Next" = none ∧ ms.lookup "End" = none := by
  induction r with
  | logic op children next ih =>
    exact h.lookup_of_children (fun child hchild => ih child hchild (h.child hchild)) hw
  | compare c next => exact h.lookup_of_children nofun hw

/-! ### Trees as a whole -/

/-- A tree of rules transitions at its root only. -/
structure RootOnly (root : Rule) : Prop where
  /-- The root takes a target, but not the end. -/
  mode : root.next.mode = .withoutEnd
  /-- It has none yet, or it has a target. -/
  transition : root.next.transition = none ∨ ∃ target, root.next.transition = some (.next target)
  /-- Every node below the root is locked and has no transition. -/
  below : ∀ address node, address ≠ [] → root.node? address = some node →
    node.next = .unset .locked
  /-- Every comparator accepts the literal that is set. -/
  literal : ∀ address c next v, root.node? address = some (.compare c next) →
    c.literal = some v → c.op.operand.accepts v = true
  /-- Every variable that is set is a path expression. -/
  input : ∀ address c next path, root.node? address = some (.compare c next) →
    c.input = some path → isPath path.text = true
  /-- The execution ends at no node. -/
  ends : ∀ address node, root.node? address = some node →
    ∃ field, root.apply .setTerminal address = .error (.lockedField field)
  /-- All nodes but the root refuse a target. -/
  targets : ∀ address node target, root.node? address = some node →
    ((∃ e, root.apply (.setTarget target) address = .error e) ↔ address ≠ [])
  /-- The document tells of the target of the root, and nowhere of another transition. -/
  document : ∃ ms, root.toJson = .object ms ∧ ms.lookup "Next" = root.next.target?.map .string ∧
    ms.lookup "End" = none ∧ ∀ key v inner, (key, v) ∈ ms → Json.Within (.object inner) v →
      inner.lookup "Next" = none ∧ inner.lookup "End" = none

theorem Placed.rootOnly (h : root.Placed .withoutEnd) : root.RootOnly where
  mode := h.next.mode_eq
  transition := by
    rcases htransition : root.next.transition with _ | target | _
    · exact Or.inl rfl
    · exact Or.inr ⟨target, rfl⟩
    · nomatch h.next.terminal htransition
  below address node hne hnode := by
    have hfits := (h.of_node? hnode).next
    rw [if_neg hne] at hfits
    generalize node.next = f at hfits ⊢
    obtain ⟨mode, transition⟩ := f
    obtain rfl : mode = .locked := hfits.mode_eq
    obtain rfl : transition = none := hfits.locked rfl
    rfl
  literal _ c _ v _ hv := c.accepted v hv
  input _ _ _ path _ _ := path.valid
  ends _ _ hnode := h.apply_setTerminal hnode
  targets _ _ target hnode := h.apply_setTarget hnode target
  document := by
    obtain ⟨hnext, hend⟩ := h.lookup_next nofun
    refine ⟨root.documentMembers, toJson_eq root, hnext, hend, fun key v inner hv hw => ?_⟩
    obtain ⟨child, hchild, hw⟩ := within_child_of_mem hv hw
    exact (h.child hchild).lookup_of_within hw

end Rule

/-! ### Choices -/

namespace State

/-- A choice, each of whose trees has every transition in its place. -/
def HasTrees (s : State) : Prop :=
  ∃ b : Choice, s.body = .choice b ∧ ∀ r ∈ b.rules, r.Placed .withoutEnd

/-- What an edit does to a choice: it leaves the rules alone, or appends a new tree, or edits
a node of one. -/
theorem apply_choice {s t : State} {b : Choice} {e : StateEdit} (hs : s.body = .choice b)
    (ht : State.apply e s = .ok t) :
    ∃ d : Choice, t.body = .choice d ∧
      (d.rules = b.rules ∨ (∃ op, d.rules = b.rules ++ [.new .withoutEnd op]) ∨
        ∃ root address f, editAt (Rule.apply f address) root b.rules = .ok d.rules) := by
  obtain ⟨name, comment, body⟩ := s
  obtain rfl : body = .choice b := hs
  cases e with
  | addRule op =>
    obtain rfl := Except.ok.inj ht
    exact ⟨_, rfl, Or.inr (Or.inl ⟨op, rfl⟩)⟩
  | editRule root address f =>
    obtain ⟨body, hbody, rfl⟩ := map_eq_ok.mp ht
    obtain ⟨d, hd, rfl⟩ := map_eq_ok.mp hbody
    obtain ⟨rules, hrules, rfl⟩ := map_eq_ok.mp hd
    exact ⟨_, rfl, Or.inr (Or.inr ⟨root, address, f, hrules⟩)⟩
  | placeResult text =>
    obtain ⟨body, hbody, rfl⟩ := map_eq_ok.mp ht
    obtain ⟨path, -, rfl⟩ := map_eq_ok.mp hbody
    exact ⟨b, rfl, Or.inl rfl⟩
  | _ =>
    -- the other edits do not touch the rules
    obtain rfl := Except.ok.inj ht
    exact ⟨_, rfl, Or.inl rfl⟩

theorem HasTrees.apply {s t : State} {e : StateEdit} (h : s.HasTrees)
    (ht : State.apply e s = .ok t) : t.HasTrees := by
  obtain ⟨b, hs, hplaced⟩ := h
  obtain ⟨d, hd, hrules | ⟨op, hrules⟩ | ⟨root, address, f, hrules⟩⟩ := apply_choice hs ht
  · exact ⟨d, hd, hrules ▸ hplaced⟩
  · refine ⟨d, hd, ?_⟩
    rw [hrules]
    exact forall_mem_snoc hplaced (Rule.placed_new .withoutEnd op)
  · exact ⟨d, hd, forall_mem_editAt (fun _ _ hr ht => hr.apply ht) hplaced hrules⟩

/-- The state after edits, where one that fails leaves the state as it is. -/
def afterEdits : List StateEdit → State → State
  | [], s => s
  | e :: es, s =>
    match State.apply e s with
    | .ok t => afterEdits es t
    | .error _ => afterEdits es s

/-- **Edits keep every transition in its place**: by induction on the edits. -/
theorem HasTrees.afterEdits {s : State} (h : s.HasTrees) (es : List StateEdit) :
    (afterEdits es s).HasTrees := by
  induction es generalizing s with
  | nil => exact h
  | cons e es ih =>
    rw [State.afterEdits]
    split
    · rename_i t ht
      exact ih (h.apply ht)
    · exact ih h

/-- Where a choice comes from before it is edited. -/
inductive GivenChoice : State → Prop
  /-- It is new. -/
  | new (name : String) : GivenChoice (.new .choice name)
  /-- It is somewhere in a state that is read. -/
  | state {r : Registry} {name : String} {v : Json} {s t : State} (hv : v.HasDistinctKeys)
    (h : (State.ofJson r name v).outcome = .ok s) (ht : t ∈ s.preorder)
    (hkind : t.kind = .choice) : GivenChoice t
  /-- It is somewhere in a machine that is read. -/
  | machine {r : Registry} {document : Json} {m : Machine} {t : State}
    (hd : document.HasDistinctKeys) (h : (Machine.ofDocument r document).outcome = .ok m)
    (ht : t ∈ m.states.preorder) (hkind : t.kind = .choice) : GivenChoice t

theorem Sound.hasTrees {s : State} (h : s.Sound) (hkind : s.kind = .choice) : s.HasTrees := by
  obtain ⟨name, comment, body⟩ := s
  cases body with
  | choice b => exact ⟨b, rfl, h.body.rules⟩
  | _ => nomatch hkind

theorem GivenChoice.hasTrees {s : State} (h : s.GivenChoice) : s.HasTrees := by
  have hinside : ∀ t : State, t.Sound → ∀ c ∈ t.branches, ∀ u ∈ c.states, u.Sound :=
    fun t ht c hc => (ht.branches c hc).inside
  cases h with
  | new name => exact (State.sound_new .choice name).hasTrees rfl
  | state hv h ht hkind =>
    have hsound := State.forall_mem_preorder hinside (State.sound_of_ofJson hv h)
    exact (hsound _ ht).hasTrees hkind
  | machine hd h ht hkind =>
    have hsound := Collection.forall_mem_preorder hinside (Machine.Built.read hd h).sound.inside
    exact (hsound _ ht).hasTrees hkind

/-- An edit of a node of a choice is the edit in its tree. -/
theorem apply_editRule {s : State} {b : Choice} (hs : s.body = .choice b) {i : Nat} {root : Rule}
    (hroot : b.rules[i]? = some root) (address : List Nat) (e : RuleEdit) :
    State.apply (.editRule i address e) s = (root.apply e address).map fun r =>
      { s with body := .choice { b with rules := b.rules.set i r } } := by
  have hedit : editAt (Rule.apply e address) i b.rules =
      (root.apply e address).map fun r => b.rules.set i r := editAt_of_getElem? _ hroot
  rw [State.apply, State.editChoice, State.editBody, hs]
  dsimp only
  rw [hedit]
  cases root.apply e address <;> rfl

/-- **Only the roots of trees transition**, in every choice that is new or read, however it has
been edited since. An edit of a node fails exactly if it fails in the tree of the node. -/
theorem rootOnly_afterEdits {s : State} (h : s.GivenChoice) (es : List StateEdit) :
    (afterEdits es s).kind = .choice ∧
      ∀ i root, (afterEdits es s).body.rules[i]? = some root →
        root.RootOnly ∧ ∀ address e error,
          State.apply (.editRule i address e) (afterEdits es s) = .error error ↔
            root.apply e address = .error error := by
  obtain ⟨b, hbody, hplaced⟩ := h.hasTrees.afterEdits es
  refine ⟨?_, fun i root hroot => ?_⟩
  · rw [State.kind, hbody]
    rfl
  · rw [hbody] at hroot
    refine ⟨(hplaced root (List.mem_of_getElem? hroot)).rootOnly, fun address e error => ?_⟩
    rw [apply_editRule hbody hroot]
    cases root.apply e address with
    | ok r => exact iff_of_false (fun h => by cases h) fun h => by cases h
    | error e =>
      exact ⟨fun h => congrArg _ (Except.error.inj h), fun h => congrArg _ (Except.error.inj h)⟩

/-- The document of a choice with a negated comparison. -/
def negated : Json :=
  .object [("Type", .string "Choice"), ("Choices", .array [.object [("Next", .string "Idle"),
    ("Not", .object [("BooleanEquals", .bool true), ("Variable", .string "$.done")])]])]

theorem rootOnly_negated : ∃ s : State, s.GivenChoice ∧ ∃ root : Rule,
    (afterEdits [.editRule 0 [0] .setTerminal, .editRule 0 [] (.setTarget "Busy")] s).body.rules[0]?
      = some root ∧
    root.RootOnly ∧ root.next.transition = some (.next "Busy") ∧ root.children ≠ [] := by
  have hread : (State.ofJson .standard "Pick" negated).outcome = .ok _ := rfl
  have hgiven := GivenChoice.state (by decide) hread (State.mem_preorder_self _) rfl
  obtain ⟨-, htrees⟩ := rootOnly_afterEdits hgiven
    [.editRule 0 [0] .setTerminal, .editRule 0 [] (.setTarget "Busy")]
  obtain ⟨hroot, -⟩ := htrees 0 _ rfl
  exact ⟨_, hgiven, _, rfl, hroot, rfl, nofun⟩

end State

end StatesLanguage
