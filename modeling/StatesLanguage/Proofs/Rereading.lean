import StatesLanguage.Proofs.Bodies
import StatesLanguage.Proofs.Shuffled

/-!
# Reading values in another order of members

A reader asks objects for what stands under a key, and takes arrays item by item. So it reads
the same from a value in another order of members: a transition, a policy, a handler, a rule
or the settings of a state. Each of the lemmas here takes what one list of members shows to
another one that looks alike (`Json.Members.LookAlike`), and the one on rules
(`Rule.ofJson_of_reorders`) is an induction on the rule, as the operator of a rule is the first
one in a fixed order of operators, and not in the order of the members.

Only a fixed result is taken as it stands, and so keeps its order (`Body.Alike`).
-/

namespace StatesLanguage

open Json (Members)

variable {ms ns : Members}

/-! ### Transitions, projections, placements -/

theorem TransitionField.Shown.of_lookAlike {mode : TransitionMode} {f : TransitionField}
    (hf : f.Shown mode ms) (h : ms.LookAlike ns) : f.Shown mode ns := by
  obtain ⟨m, t⟩ := f
  rcases t with _ | target | _
  · obtain ⟨hmode, hend, hnext⟩ := hf
    exact ⟨hmode, h.ne_of_isScalar rfl hend, h.eq_of_isScalar nofun hnext⟩
  · obtain ⟨hmode, hlocked, hend, hnext⟩ := hf
    exact ⟨hmode, hlocked, h.ne_of_isScalar rfl hend,
      h.eq_of_isScalar (fun v hv => Option.some.inj hv ▸ rfl) hnext⟩
  · obtain ⟨hmode, hordinary, hend⟩ := hf
    exact ⟨hmode, hordinary, h.eq_of_isScalar (fun v hv => Option.some.inj hv ▸ rfl) hend⟩

theorem DataPaths.Shown.of_lookAlike {p : DataPaths} (hp : p.Shown ms) (h : ms.LookAlike ns) :
    p.Shown ns :=
  ⟨h.eq_map (fun _ => rfl) hp.input, h.eq_map (fun _ => rfl) hp.output⟩

theorem ResultPath.lookup_of_lookAlike {p : ResultPath}
    (hp : ms.lookup "ResultPath" = p.toJson?) (h : ms.LookAlike ns) :
    ns.lookup "ResultPath" = p.toJson? := by
  refine h.eq_of_isScalar (fun v hv => ?_) hp
  cases p with
  | unset => nomatch hv
  | discarded | placed path => exact Option.some.inj hv ▸ rfl

/-! ### Policies and handlers -/

theorem Retrier.ofJson_of_reorders {v w : Json} {r : Retrier} (hv : v.HasDistinctKeys)
    (h : v.Reorders w) (hr : Retrier.ofJson v = .ok r) : Retrier.ofJson w = .ok r := by
  obtain ⟨ms, rfl, hshown⟩ := Retrier.ofJson_eq_ok.mp hr
  obtain ⟨ns, rfl, hlike⟩ := h.exists_object hv
  exact Retrier.ofJson_eq_ok.mpr ⟨ns, rfl, hlike.strings hshown.errors,
    hlike.eq_map (fun _ => rfl) hshown.interval, hlike.eq_map (fun _ => rfl) hshown.backoff,
    hlike.eq_map (fun _ => rfl) hshown.attempts⟩

theorem Catcher.ofJson_of_reorders {v w : Json} {c : Catcher} (hv : v.HasDistinctKeys)
    (h : v.Reorders w) (hc : Catcher.ofJson v = .ok c) : Catcher.ofJson w = .ok c := by
  obtain ⟨ms, rfl, hshown⟩ := Catcher.ofJson_eq_ok.mp hc
  obtain ⟨ns, rfl, hlike⟩ := h.exists_object hv
  exact Catcher.ofJson_eq_ok.mpr ⟨ns, rfl, hlike.strings hshown.errors, hshown.readable,
    hshown.next.of_lookAlike hlike, ResultPath.lookup_of_lookAlike hshown.resultPath hlike⟩

/-- What is read item by item from an array is read again. -/
theorem Json.Members.LookAlike.items (h : ms.LookAlike ns)
    (hms : (Json.object ms).HasDistinctKeys) {α : Type} {read : Json → Except Error α}
    (hread : ∀ v w a, v.HasDistinctKeys → v.Reorders w → read v = .ok a → read w = .ok a)
    {key : String} {as : List α} (has : ∃ items,
      (ms.lookup key).getD (.array []) = .array items ∧
        List.Forall₂ (fun v a => read v = .ok a) items as) :
    ∃ items, (ns.lookup key).getD (.array []) = .array items ∧
      List.Forall₂ (fun v a => read v = .ok a) items as := by
  obtain ⟨vs, hvs, hitems⟩ := has
  obtain ⟨ws, hws, hreorders⟩ := h.array hvs
  have hdistinct := (hms.getD hvs (.array nofun)).items
  exact ⟨ws, hws, forall₂_of_zip hitems hreorders fun v hv a _ w hva hvw =>
    hread v w a (hdistinct v hv) hvw hva⟩

/-! ### Rules -/

/-- The operator is found by its keyword, wherever that stands. -/
theorem Operator.find?_of_lookAlike (h : ms.LookAlike ns) :
    Operator.find? ns = Operator.find? ms := by
  simp only [Operator.find?, h.isSome_eq]

theorem LogicOp.operands_of_reorders {op : LogicOp} {v w : Json} {vs : List Json}
    (hv : v.HasDistinctKeys) (h : v.Reorders w) (hvs : op.operands v = some vs) :
    (∀ x ∈ vs, x.HasDistinctKeys) ∧
      ∃ ws, op.operands w = some ws ∧ List.Forall₂ Json.Reorders vs ws := by
  -- a negation has one operand, which is not in an array
  by_cases hop : op = .not
  · subst hop
    obtain ⟨hobject, rfl⟩ := LogicOp.operands_not_eq_some.mp hvs
    obtain ⟨ms, rfl⟩ := Json.isObject_iff.mp hobject
    obtain ⟨ns, rfl, -⟩ := h.exists_object hv
    exact ⟨List.forall_mem_singleton.mpr hv, [.object ns],
      LogicOp.operands_not_eq_some.mpr ⟨rfl, rfl⟩, .cons h .nil⟩
  · obtain rfl := (LogicOp.operands_eq_some hop).mp hvs
    cases h with
    | array items => exact ⟨hv.items, _, (LogicOp.operands_eq_some hop).mpr rfl, items⟩

/-- **A rule is read in any order of members**: by induction on the rule. -/
theorem Rule.ofJson_of_reorders {mode : TransitionMode} {v w : Json} {r : Rule}
    (hv : v.HasDistinctKeys) (h : v.Reorders w) (hr : Rule.ofJson mode v = .ok r) :
    Rule.ofJson mode w = .ok r := by
  induction r generalizing mode v w with
  | logic op children next ih =>
    obtain ⟨ms, rfl, hfind, ⟨x, vs, hx, hvs, hread⟩, hnext⟩ := Rule.ofJson_eq_ok.mp hr
    obtain ⟨ns, rfl, hlike⟩ := h.exists_object hv
    obtain ⟨y, hy, hxy⟩ := hlike.exists_of_eq_some hx
    obtain ⟨hdistinct, ws, hws, hreorders⟩ :=
      LogicOp.operands_of_reorders (hv.lookup hx) hxy hvs
    have hchildren := forall₂_of_zip hread hreorders fun v hv r hr w hvr hvw =>
      ih r hr (hdistinct v hv) hvw hvr
    exact Rule.ofJson_eq_ok.mpr ⟨ns, rfl, (Operator.find?_of_lookAlike hlike).trans hfind,
      ⟨y, ws, hy, hws, hchildren⟩, hnext.of_lookAlike hlike⟩
  | compare c next =>
    obtain ⟨ms, rfl, hfind, hinput, hliteral, hnext⟩ := Rule.ofJson_eq_ok.mp hr
    obtain ⟨ns, rfl, hlike⟩ := h.exists_object hv
    -- a literal is accepted by the comparator, hence neither an array nor an object
    have hliteral' := hlike.eq_of_isScalar
      (fun v hv => Operand.isScalar_of_accepts (c.accepted v hv)) hliteral
    exact Rule.ofJson_eq_ok.mpr ⟨ns, rfl, (Operator.find?_of_lookAlike hlike).trans hfind,
      hlike.eq_map (fun _ => rfl) hinput, hliteral', hnext.of_lookAlike hlike⟩

/-! ### Bodies -/

/-- **The settings of a state are read in any order of members**, whatever branches are read
besides. -/
theorem Body.Shown.exists_of_lookAlike {b : Body State} (hb : b.Shown ms)
    (hms : (Json.object ms).HasDistinctKeys) (h : ms.LookAlike ns)
    {branches : List (Collection State)} (hbranches : b.kind ≠ .parallel → branches = []) :
    ∃ c : Body State, c.Shown ns ∧ b.Alike c ∧ c.branches = branches := by
  cases b with
  | pass b =>
    obtain rfl := hbranches nofun
    have hresult : Option.Rel Json.Reorders b.result (ns.lookup "Result") := by
      rw [← hb.result]
      exact h "Result"
    exact ⟨.pass { b with result := ns.lookup "Result" },
      ⟨hb.paths.of_lookAlike h, ResultPath.lookup_of_lookAlike hb.resultPath h, rfl,
        hb.next.of_lookAlike h⟩, .pass hresult, rfl⟩
  | task b =>
    obtain rfl := hbranches nofun
    have hresult : Option.Rel Json.Reorders b.result (ns.lookup "Result") := by
      rw [← hb.result]
      exact h "Result"
    exact ⟨.task { b with result := ns.lookup "Result" },
      ⟨h.eq_map (fun _ => rfl) hb.resource, h.eq_map (fun _ => rfl) hb.timeout,
        h.eq_map (fun _ => rfl) hb.heartbeat, hb.paths.of_lookAlike h,
        ResultPath.lookup_of_lookAlike hb.resultPath h, rfl, hb.next.of_lookAlike h,
        h.items hms (fun _ _ _ => Retrier.ofJson_of_reorders) hb.retriers,
        h.items hms (fun _ _ _ => Catcher.ofJson_of_reorders) hb.catchers⟩, .task hresult, rfl⟩
  | wait b =>
    obtain rfl := hbranches nofun
    exact ⟨.wait b, ⟨h.eq_map (fun _ => rfl) hb.seconds, hb.next.of_lookAlike h⟩, .wait b, rfl⟩
  | succeed =>
    obtain rfl := hbranches nofun
    exact ⟨.succeed, trivial, .succeed, rfl⟩
  | fail b =>
    obtain rfl := hbranches nofun
    exact ⟨.fail b, ⟨h.eq_map (fun _ => rfl) hb.error, h.eq_map (fun _ => rfl) hb.cause⟩, .fail b,
      rfl⟩
  | choice b =>
    obtain rfl := hbranches nofun
    exact ⟨.choice b, ⟨h.items hms (fun _ _ _ => Rule.ofJson_of_reorders) hb.rules,
      h.eq_map (fun _ => rfl) hb.fallback⟩, .choice b, rfl⟩
  | parallel b =>
    exact ⟨.parallel { b with branches }, ⟨hb.next.of_lookAlike h, hb.paths.of_lookAlike h,
      ResultPath.lookup_of_lookAlike hb.resultPath h⟩, .parallel, rfl⟩

end StatesLanguage
