import StatesLanguage.Proofs.Canonical
import StatesLanguage.Proofs.RoundTrip

/-!
# What has been read is read again as itself

The document of a machine is read as an equal machine (`Machine.Built.roundTrip`), and equality
of machines leaves open whether states are chained when they are added. A collection that has
been read does not chain, nor does one that is read again. So a machine that has been read is
read from its own document as the very same machine (`Machine.ofDocument_document`), and what is
written for it is its own canonical form (`Canonical.machine_machine`).
-/

namespace StatesLanguage

open Json (Members)

/-- A collection that does not chain is shown by members that show what is written for it,
given that for its states. -/
theorem Collection.shown_of_document {c : Collection State} {ms : Members} (hsound : c.Sound)
    (hindex : c.index = (c.states.map State.name).zipIdx) (hproblems : c.problems = [])
    (hlink : c.autolink = false)
    (hstart : ms.lookup "StartAt" = c.documentMembers.lookup "StartAt")
    (hstates : ms.lookup "States" = c.documentMembers.lookup "States")
    (hread : ∀ s ∈ c.states, (State.ofJson .standard s.name s.document).outcome = .ok s) :
    c.Shown .standard ms where
  states := by
    rw [hstates, Collection.lookup_states hsound.indexed.distinct]
    refine ⟨_, rfl, ?_⟩
    rw [List.forall₂_map_left_iff, List.forall₂_same]
    exact hread
  index := hindex
  distinct := hsound.indexed.distinct
  startAt := by
    obtain ⟨name, -, hname⟩ := Collection.exists_start_of_problems_eq_nil hproblems
    exact ⟨c.startAt, hstart.trans c.lookup_startAt, by rw [hname]; rfl⟩
  autolink := hlink

/-- **A state that has been read is read from its own document as the same state**, if it has
no problems: by induction on its branches. -/
theorem State.ofJson_document {r : Registry} {s : State} {name : String} {v : Json}
    (h : (State.ofJson r name v).outcome = .ok s) (hsound : s.Sound) (hproblems : s.problems = []) :
    (State.ofJson .standard s.name s.document).outcome = .ok s := by
  induction s using State.branchInduction generalizing name v with
  | step s ih =>
  have hnames := State.namesShown_of_ofJson h
  obtain ⟨_, -, hshown⟩ := State.ofJson_eq_ok.mp h
  rw [State.catchers_eq] at hnames
  have hbody := Body.shown_documentMembers hsound.body
    (Body.problems_of_mem_rules (State.ownProblems_eq_nil hproblems))
    fun c hc => hnames c (List.mem_append_left _ hc)
  have hbranch : ∀ c ∈ s.branches, Collection.Reads .standard (.object c.documentMembers) c := by
    intro c hc
    obtain ⟨_, _, -, -, hcshown⟩ := hshown.exists_branch hc
    have hcproblems := State.problems_of_mem hproblems c hc
    refine ⟨_, rfl, Collection.ofMembers_eq_ok.mpr ?_⟩
    refine Collection.shown_of_document (hsound.branches c hc) hcshown.index hcproblems
      hcshown.autolink rfl rfl fun t ht => ?_
    obtain ⟨_, _, _, -, -, hread⟩ := hcshown.exists_state ht
    exact ih c hc t ht hread ((hsound.branches c hc).inside t ht)
      (Collection.problems_of_mem hcproblems t ht)
  refine State.ofJson_eq_ok.mpr ⟨_, s.document_eq, rfl,
    ⟨_, s.lookup_type, (Registry.resolve_standard s.kind.name s.kind).mpr rfl⟩, s.lookup_comment,
    hbody, fun _ => ⟨_, s.lookup_branches, ?_⟩⟩
  rw [List.forall₂_map_left_iff, List.forall₂_same]
  exact hbranch

/-- **A machine that has been read is read from its own document as the same machine**, if it
has no problems. -/
theorem Machine.ofDocument_document {r : Registry} {document : Json} {m : Machine}
    (hkeys : document.HasDistinctKeys) (h : (Machine.ofDocument r document).outcome = .ok m)
    (hproblems : m.problems = []) : (Machine.ofDocument .standard m.document).outcome = .ok m := by
  have hsound := (Machine.Built.read hkeys h).sound
  obtain ⟨_, -, hshown⟩ := Machine.ofDocument_eq_ok.mp h
  refine Machine.ofDocument_eq_ok.mpr
    ⟨_, rfl, ?_, m.lookup_comment, m.lookup_timeout, m.lookup_version⟩
  refine Collection.shown_of_document hsound hshown.states.index hproblems hshown.states.autolink
    m.lookup_startAt m.lookup_states fun s hs => ?_
  obtain ⟨_, _, _, -, -, hread⟩ := hshown.states.exists_state hs
  exact State.ofJson_document hread (hsound.inside s hs) (Collection.problems_of_mem hproblems s hs)

/-- A document in canonical form stays as it is. -/
theorem Canonical.machine_machine {document : Json} {m : Machine}
    (hkeys : document.HasDistinctKeys)
    (h : (Machine.ofDocument .standard document).outcome = .ok m) (hproblems : m.problems = []) :
    Canonical.machine (Canonical.machine document) = Canonical.machine document := by
  have hagain := Machine.ofDocument_document hkeys h hproblems
  rw [← Canonical.document_eq_machine h hproblems,
    ← Canonical.document_eq_machine hagain hproblems]

end StatesLanguage
