import Wazir.Goals.RevisionChain

/-! Whose graph an import touches. An import works on the graph that the slugs of its project
and of its definition's name lead to. Two imports for different pairs meet in one graph when
their slugs agree; where no two do, every graph belongs to one pair. -/

namespace Wazir.Goals

open Wazir.Async GoalGraphStore

/-- A graph name within a project. -/
structure GraphName where
  projectId : ProjectId
  name : String
  deriving DecidableEq

def GraphName.graphId (g : GraphName) : GraphId := deriveGraphId g.projectId g.name

/-- What an import of a valid definition is for. -/
def GraphRequest.importOf (c : GraphRequest) : Option GraphName :=
  match c.call with
  | .importYaml projectId _ (some definition) _ => some ⟨projectId, definition.name⟩
  | _ => none

/-- Whom a graph was first created for. -/
def GraphShared.firstOf (s : GraphShared) (graphId : GraphId) : Option GraphName :=
  (s.revisions.lookup (graphId, 1)).map fun first => ⟨first.projectId, first.canonicalDefinition.name⟩

/-- No import adds a revision to, or returns a record of, a graph first created for another. -/
structure ImportsApart (cfg : GraphConfig) : Prop where
  adds : ∀ e ∈ cfg.hist.entries, ∀ stored, claimed e = some stored →
    ∀ g, e.call.importOf = some g → cfg.hist.shared.firstOf stored.graphId = some g
  returns : ∀ (i : ℕ) c result record, cfg.threads[i]? = some ⟨c, some (.ret (.imported result))⟩ →
    result.record = some record →
    ∀ g, c.importOf = some g → cfg.hist.shared.firstOf record.graphId = some g

/-- Any two imports of the run for different pairs still differ as slugs. -/
def SlugsApart (cfg : GraphConfig) : Prop :=
  ∀ t ∈ cfg.threads, ∀ t' ∈ cfg.threads, ∀ g g', t.call.importOf = some g →
    t'.call.importOf = some g' → g ≠ g' →
    slug g.projectId ≠ slug g'.projectId ∨ slug g.name ≠ slug g'.name

/-- Only imports claim a first revision, each for the pair it is for. -/
def claimsAs (c : GraphRequest) : GraphOp → Prop
  | .claimRevision stored => match c.importOf with
    | some g => stored.graphId = g.graphId ∧
        (⟨stored.projectId, stored.canonicalDefinition.name⟩ : GraphName) = g
    | none => stored.revision ≠ 1
  | _ => True

section Static

variable {graphDigest : GoalGraphDefinition → String} {φ : GraphOp → Prop}

theorem readStored_only {graphId : GraphId} {n : ℕ} (hφ : ∀ g r, φ (.getRevision g r)) :
    (readStored graphId n).Only φ :=
  ⟨hφ _ _, fun _ => Prog.only_resume⟩

theorem rollForward_only {graphId : GraphId} {rounds n : ℕ} (hφ : ∀ g r, φ (.getRevision g r)) :
    (rollForward graphId rounds n).Only φ := by
  induction rounds generalizing n with
  | zero => trivial
  | succ rounds ih =>
    refine (readStored_only hφ).bind fun found => ?_
    cases found with
    | none => trivial
    | some stored => exact ih

theorem writeRevision_only {graphId : GraphId} {projectId : ProjectId}
    {definition : GoalGraphDefinition} {actor : String} {n : ℕ} {parent : Option ℕ}
    (hclaim : ∀ stored : StoredRevision, stored.graphId = graphId → stored.revision = n →
      stored.projectId = projectId → stored.canonicalDefinition = definition →
      φ (.claimRevision stored))
    (hrest : ∀ op : GraphOp, (∀ stored, op ≠ .claimRevision stored) → φ op) :
    (writeRevision graphDigest graphId projectId definition actor n parent).Only φ := by
  refine ⟨hrest _ (by rintro _ ⟨⟩), fun now => ?_⟩
  refine Prog.only_resume.bind fun createdAt => ?_
  refine ⟨hclaim _ rfl rfl rfl rfl, fun claim => Prog.only_resume.bind fun _ => ?_⟩
  refine ⟨hrest _ (by rintro _ ⟨⟩), fun advance => Prog.only_resume.bind fun _ => ?_⟩
  exact Prog.only_resume.bind fun record => ⟨hrest _ (by rintro _ ⟨⟩), fun _ => trivial⟩

theorem getRevision_only {graphId : GraphId} {rounds : ℕ} {revision : Option ℤ}
    (hφ : ∀ op : GraphOp, (∀ stored, op ≠ .claimRevision stored) → φ op) :
    (getRevision graphDigest rounds graphId revision).Only φ := by
  have hread : ∀ g r, φ (.getRevision g r) := fun _ _ => hφ _ (by rintro _ ⟨⟩)
  have hrev : (revisionOr rounds graphId revision).Only φ := by
    cases revision with
    | some revision => trivial
    | none =>
      refine Prog.Only.bind ⟨hφ _ (by rintro _ ⟨⟩), fun _ => Prog.only_resume⟩ fun head => ?_
      exact (rollForward_only hread).bind fun _ => trivial
  refine Prog.only_resume.bind fun _ => hrev.bind fun rev => ?_
  split_ifs
  · trivial
  · exact Prog.only_resume
  · refine (readStored_only hread).bind fun found => ?_
    cases found with
    | none => trivial
    | some stored => exact Prog.only_resume.bind fun _ => trivial

theorem claimsAs_quiet {c : GraphRequest} {op : GraphOp}
    (h : ∀ stored, op ≠ .claimRevision stored) : claimsAs c op := by
  cases op with
  | claimRevision stored => exact absurd rfl (h stored)
  | _ => trivial

theorem body_claimsAs (c : GraphRequest) : (c.body graphDigest).Only (claimsAs c) := by
  have hread : ∀ g r, claimsAs c (.getRevision g r) := fun _ _ => trivial
  have hhead : ∀ {g : GraphId}, (getHead g).Only (claimsAs c) :=
    ⟨trivial, fun _ => Prog.only_resume⟩
  obtain ⟨process, rounds, call⟩ := c
  cases call with
  | importYaml projectId yaml parsed actor =>
    refine Prog.Only.bind ?_ fun _ => trivial
    unfold importYaml
    split_ifs
    · exact Prog.only_resume
    · exact Prog.only_resume.bind fun _ => Prog.only_resume
    refine Prog.only_resume.bind fun _ => ?_
    cases parsed with
    | none => trivial
    | some definition =>
      obtain ⟨graphId, hgraph⟩ : ∃ g, g = deriveGraphId projectId definition.name := ⟨_, rfl⟩
      simp only [← hgraph]
      have hwrite : ∀ n parent, (writeRevision graphDigest graphId projectId definition actor n
          parent).Only
            (claimsAs ⟨process, rounds, .importYaml projectId yaml (some definition) actor⟩) := by
        refine fun n parent => writeRevision_only ?_ fun _ => claimsAs_quiet
        rintro stored hg - hp hd
        exact ⟨hg.trans hgraph, by rw [hp, hd]⟩
      refine hhead.bind fun head => (rollForward_only hread).bind fun latest => ?_
      split_ifs
      · refine (getRevision_only fun _ => claimsAs_quiet).bind fun current => ?_
        cases current.filter fun record => record.digest = graphDigest definition with
        | some same => trivial
        | none => exact (hwrite _ _).bind fun _ => trivial
      · exact (hwrite _ _).bind fun _ => trivial
  | createRevision graphId definition issue actor parent =>
    refine Prog.Only.bind ?_ fun _ => trivial
    unfold createRevision
    refine Prog.only_resume.bind fun _ => Prog.only_resume.bind fun _ => ?_
    split_ifs
    · exact Prog.only_resume
    cases issue with
    | some message => exact Prog.only_resume
    | none =>
      refine hhead.bind fun head => (rollForward_only hread).bind fun latest => ?_
      split_ifs with hzero
      · exact Prog.only_resume
      · exact Prog.only_resume
      · refine (readStored_only hread).bind fun parent => ?_
        cases (head.map GoalGraphHead.projectId).or (parent.map StoredRevision.projectId) with
        | none => trivial
        | some projectId =>
          refine writeRevision_only ?_ fun _ => claimsAs_quiet
          rintro stored - hrev - -
          change stored.revision ≠ 1
          omega
  | getRevision graphId revision =>
    exact (getRevision_only fun _ => claimsAs_quiet).bind fun _ => trivial

end Static

theorem claimed_op {e : GraphEntry} {stored : StoredRevision} (h : claimed e = some stored) :
    e.op = .claimRevision stored := by
  obtain ⟨i, c, op, inp, res, before, after⟩ := e
  cases op with
  | claimRevision stored' =>
    cases res with
    | error x => cases h
    | ok u =>
      cases h
      rfl
  | _ => cases h

/-- The first revision of a graph that has one was claimed for whom it says. -/
theorem first_import {graphDigest : GoalGraphDefinition → String} {cfg : GraphConfig}
    (hr : Reach (graphSystem graphDigest) emptyGraphs cfg) {graphId : GraphId} {n : ℕ}
    (hn : Has graphId (n + 1) cfg.hist) : ∃ g, cfg.hist.shared.firstOf graphId = some g ∧
      g.graphId = graphId ∧ ∃ t ∈ cfg.threads, t.call.importOf = some g := by
  have inv := ((graphUpheld graphDigest).run (graphInv_start graphDigest) hr trivial).1
  obtain ⟨m, hm⟩ := inv.contiguous graphId
  have hlast := (hm (n + 1)).mp (hn.resolve_left (Nat.succ_ne_zero n))
  obtain ⟨first, hfirst⟩ := Option.isSome_iff_exists.mp ((hm 1).mpr ⟨le_rfl, by omega⟩)
  obtain ⟨hmem, hkey⟩ := (inv.claims _ _).mp hfirst
  obtain ⟨e, he, hclaim⟩ := List.mem_filterMap.mp hmem
  have hstatic := hr.only body_claimsAs e he
  rw [claimed_op hclaim] at hstatic
  have hrev : first.revision = 1 := congrArg Prod.snd hkey
  have hgraph : first.graphId = graphId := congrArg Prod.fst hkey
  cases hg : e.call.importOf with
  | none =>
    simp only [claimsAs, hg] at hstatic
    exact absurd hrev hstatic
  | some g =>
    simp only [claimsAs, hg] at hstatic
    obtain ⟨t, ht, hcall⟩ := hr.caller he
    exact ⟨g, by simp [GraphShared.firstOf, hfirst, hstatic.2], by rw [← hstatic.1, hgraph],
      t, ht, by rw [hcall, hg]⟩

/-- Where no two pairs share their slugs, no import touches a graph of another pair. -/
theorem imports_apart {graphDigest : GoalGraphDefinition → String} {cfg : GraphConfig}
    (hr : Reach (graphSystem graphDigest) emptyGraphs cfg) (apart : SlugsApart cfg) :
    ImportsApart cfg := by
  have U := graphUpheld graphDigest
  have inv := (U.run (graphInv_start graphDigest) hr trivial).1
  -- the pair an import is for is the one the graph it works on was created for
  have same : ∀ {g : GraphName} {t : Thread GraphOp GraphRes Thrown GraphReply GraphRequest} {n : ℕ},
      t ∈ cfg.threads → t.call.importOf = some g → Has g.graphId (n + 1) cfg.hist →
      cfg.hist.shared.firstOf g.graphId = some g := by
    intro g t n ht hg hn
    obtain ⟨g', hfirst, hid, t', ht', hg'⟩ := first_import hr hn
    by_cases heq : g = g'
    · rw [hfirst, heq]
    · obtain ⟨hp, hname⟩ := deriveGraphId_inj.mp hid
      rcases apart t ht t' ht' g g' hg hg' heq with h | h
      · exact absurd hp.symm h
      · exact absurd hname.symm h
  constructor
  · intro e he stored hclaim g hg
    have hstatic := hr.only body_claimsAs e he
    rw [claimed_op hclaim] at hstatic
    simp only [claimsAs, hg] at hstatic
    obtain ⟨t, ht, hcall⟩ := hr.caller he
    have hstored := (inv.claims _ _).mpr ⟨List.mem_filterMap.mpr ⟨e, he, hclaim⟩, rfl⟩
    obtain ⟨m, hm⟩ := inv.contiguous stored.graphId
    have hpos := ((hm stored.revision).mp (Option.isSome_iff_exists.mpr ⟨stored, hstored⟩)).1
    rw [hstatic.1]
    refine same (n := stored.revision - 1) ht (by rw [hcall, hg]) (.inr ?_)
    rw [Nat.sub_add_cancel hpos, ← hstatic.1]
    exact Option.isSome_iff_exists.mpr ⟨stored, hstored⟩
  · intro i c result record ht hrecord g hg
    obtain ⟨h₀, hrely, hdone⟩ := U.finished (graphInv_start graphDigest) hr trivial
      (o := .ok (.imported result)) ht
    obtain ⟨process, rounds, call⟩ := c
    cases call with
    | importYaml projectId yaml parsed actor =>
      obtain ⟨definition, rfl, hid, n, hn⟩ := hdone record hrecord
      have hgraph : record.graphId = g.graphId := by
        cases hg
        exact hid
      rw [hgraph] at hn ⊢
      exact same (List.mem_of_getElem? ht) hg (Has.stable _ _ hrely hn)
    | _ => cases hg

/-! Two imports of one definition, for two projects. -/

def twoImports (p q : ProjectId) (n : ℕ) : List (Action GraphRequest ℕ GraphInput) :=
  [.begin ⟨0, 4, .importYaml p "name: Small graph" (some smallGraph) "me"⟩] ++ graphSteps 0 6 ++
    [.begin ⟨0, 4, .importYaml q "name: Small graph" (some smallGraph) "me"⟩] ++ graphSteps 1 n

/-- The second import got a record of the graph of another project, as its own re-import. -/
def reimports (p q : ProjectId) (cfg : GraphConfig) : Bool :=
  match cfg.returned 1 with
  | some (c, .imported ⟨some record, some false⟩) =>
    c.importOf = some ⟨q, "Small graph"⟩ ∧
      cfg.hist.shared.firstOf record.graphId = some ⟨p, "Small graph"⟩
  | _ => false

theorem imports_meet : validProjectId "A" = true ∧ validProjectId "a" = true ∧ ∃ cfg,
    Reach (graphSystem smallDigest) emptyGraphs cfg ∧ ¬ ImportsApart cfg := by
  have h : (schedule (graphSystem smallDigest) (twoImports "A" "a" 3)
      (.start emptyGraphs)).any (reimports "A" "a") = true := by decide
  obtain ⟨cfg, hr, hcheck⟩ := Reach.of_check h
  refine ⟨by decide, by decide, cfg, hr, fun apart => ?_⟩
  unfold reimports at hcheck
  split at hcheck
  · rename_i c record ht
    obtain ⟨hfor, hfirst⟩ := of_decide_eq_true hcheck
    have := apart.returns 1 c _ record (Config.returned_eq_some ht) rfl _ hfor
    rw [hfirst] at this
    exact absurd (congrArg GraphName.projectId (Option.some.inj this)) (by decide)
  · cases hcheck

/-- Every import of the run is for one of the two pairs. -/
def importsOnly (g g' : GraphName) (cfg : GraphConfig) : Bool :=
  cfg.threads.all fun t => t.call.importOf = some g ∨ t.call.importOf = some g'

theorem imports_apart_two : ∃ cfg, Reach (graphSystem smallDigest) emptyGraphs cfg ∧
    SlugsApart cfg ∧ ImportsApart cfg := by
  have h : (schedule (graphSystem smallDigest) (twoImports "a" "b" 6)
      (.start emptyGraphs)).any (importsOnly ⟨"a", "Small graph"⟩ ⟨"b", "Small graph"⟩) = true := by
    decide
  obtain ⟨cfg, hr, hcheck⟩ := Reach.of_check h
  have hslug : slug "a" ≠ slug "b" := by decide
  have apart : SlugsApart cfg := by
    intro t ht t' ht' g g' hg hg' hne
    have hfor := of_decide_eq_true (List.all_eq_true.mp hcheck t ht)
    have hfor' := of_decide_eq_true (List.all_eq_true.mp hcheck t' ht')
    rw [hg] at hfor
    rw [hg'] at hfor'
    rcases hfor with h | h <;> rcases hfor' with h' | h' <;> cases h <;> cases h'
    · exact absurd rfl hne
    · exact .inl hslug
    · exact .inl hslug.symm
    · exact absurd rfl hne
  exact ⟨cfg, hr, apart, imports_apart hr apart⟩

end Wazir.Goals
