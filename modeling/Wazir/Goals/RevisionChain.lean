import Wazir.Async.Local
import Wazir.Goals.GraphStore
import Wazir.Shared.KeyedLists

/-! The revision chain. A revision is only claimed by a client that has seen the one before it,
and a claim only lands on an absent key, so whatever the clients do, and wherever they crash,
the revisions stored for a graph are the first so many numbers, each written by one claim. -/

namespace Wazir.Goals

open Wazir.Async GoalGraphStore

/-- The revisions of `graphId` are the numbers from 1 to `n`. -/
def RevisionsTo (graphId : GraphId) (n : ℕ) (s : GraphShared) : Prop :=
  ∀ r, (s.revisions.lookup (graphId, r)).isSome ↔ 1 ≤ r ∧ r ≤ n

def StoredRevision.key (stored : StoredRevision) : GraphId × ℕ := (stored.graphId, stored.revision)

/-- The claim that went through, if the command was one. -/
def claimed : GraphEntry → Option StoredRevision
  | ⟨_, _, .claimRevision stored, _, .ok _, _, _⟩ => some stored
  | _ => none

variable {s : GraphShared} {n : ℕ}

theorem RevisionsTo.unique {graphId : GraphId} (h : ∃ m, RevisionsTo graphId m s)
    (hn : n = 0 ∨ (s.revisions.lookup (graphId, n)).isSome)
    (hnext : s.revisions.lookup (graphId, n + 1) = none) : RevisionsTo graphId n s := by
  obtain ⟨m, hm⟩ := h
  have hle : n ≤ m := by
    rcases hn with rfl | hn
    · exact Nat.zero_le m
    · exact ((hm n).mp hn).2
  have hlt : ¬ n + 1 ≤ m := fun h => by
    simpa [hnext] using (hm (n + 1)).mpr ⟨by omega, h⟩
  rwa [show n = m by omega]

theorem advancedHead_latest (stored : StoredRevision) (name : String)
    (head : Option GoalGraphHead) :
    (advancedHead stored name head).latestRevision = stored.revision ∨
      ∃ old, head = some old ∧
        (advancedHead stored name head).latestRevision = old.latestRevision := by
  cases head with
  | none => exact .inl rfl
  | some old =>
    simp only [advancedHead]
    split_ifs
    · exact .inr ⟨old, rfl, rfl⟩
    · exact .inl rfl

variable {definition : GoalGraphDefinition} {inp : GraphInput} {projectId : ProjectId}
  {A : GraphHist → Prop} {op : GraphOp} {rounds : ℕ}

section Chain

variable (graphDigest : GoalGraphDefinition → String)

/-- A revision record under its key. -/
structure Linked (k : GraphId × ℕ) (stored : StoredRevision) : Prop where
  format : stored.format = 1
  key : stored.key = k
  digest : graphDigest stored.canonicalDefinition = stored.digest
  parent : stored.parentRevision = if k.2 = 1 then none else some (k.2 - 1)

structure GraphInv (h : GraphHist) : Prop where
  contiguous : ∀ graphId, ∃ n, RevisionsTo graphId n h.shared
  linked : ∀ key stored, h.shared.revisions.lookup key = some stored →
    Linked graphDigest key stored
  heads : ∀ graphId head, h.shared.heads.lookup graphId = some head →
    (h.shared.revisions.lookup (graphId, head.latestRevision)).isSome
  claims : ∀ key stored, h.shared.revisions.lookup key = some stored ↔
    stored ∈ h.entries.filterMap claimed ∧ stored.key = key
  once : ((h.entries.filterMap claimed).map StoredRevision.key).Nodup

/-- What a client must know before a command that writes. -/
def Founded (op : GraphOp) (s : GraphShared) : Prop :=
  match op with
  | .claimRevision stored => Linked graphDigest stored.key stored ∧ ∃ n, stored.revision = n + 1 ∧
      (n = 0 ∨ (s.revisions.lookup (stored.graphId, n)).isSome)
  | .advanceHead stored _ => (s.revisions.lookup stored.key).isSome
  | _ => True

/-- The others only add revisions. -/
def graphContract : Contract GraphOp GraphRes GraphRequest ℕ GraphInput GraphShared where
  Ok _ := True
  Inv := GraphInv graphDigest
  Rely _ _ h h' := (∀ key stored, h.shared.revisions.lookup key = some stored →
    h'.shared.revisions.lookup key = some stored) ∧ h.events <+: h'.events

variable {graphDigest} {i : ℕ} {c : GraphRequest} {h h' : GraphHist}

theorem graphInv_quiet {e : GraphEntry} (inv : GraphInv graphDigest h)
    (hrev : s.revisions = h.shared.revisions) (hclaim : claimed e = none)
    (hheads : ∀ graphId head, s.heads.lookup graphId = some head →
      (h.shared.revisions.lookup (graphId, head.latestRevision)).isSome) :
    GraphInv graphDigest (h.push (.ran e) s) := by
  have hentries : (h.push (.ran e) s).entries.filterMap claimed = h.entries.filterMap claimed := by
    simp [hclaim]
  constructor
  · intro graphId
    obtain ⟨n, hn⟩ := inv.contiguous graphId
    exact ⟨n, fun r => by rw [Hist.push_shared, hrev, hn r]⟩
  · rw [Hist.push_shared, hrev]
    exact inv.linked
  · rw [Hist.push_shared, hrev]
    exact hheads
  · rw [Hist.push_shared, hrev, hentries]
    exact inv.claims
  · rw [hentries]
    exact inv.once

/-- A claim on an absent key, one above the last. -/
theorem graphInv_claimed {stored : StoredRevision} (inv : GraphInv graphDigest h)
    (hf : Founded graphDigest (.claimRevision stored) h.shared)
    (habsent : h.shared.revisions.lookup stored.key = none) :
    GraphInv graphDigest (h.ran i c (.claimRevision stored) inp (.ok ())
      { h.shared with revisions := h.shared.revisions.insert stored.key stored }) := by
  obtain ⟨hlinked, n, hrev, hprev⟩ := hf
  have hkey : stored.key = (stored.graphId, n + 1) := by rw [StoredRevision.key, hrev]
  have hentries : (h.ran i c (.claimRevision stored) inp (.ok ())
      { h.shared with revisions := h.shared.revisions.insert stored.key stored }).entries.filterMap
        claimed = h.entries.filterMap claimed ++ [stored] := by
    simp [Hist.ran, claimed]
  constructor
  · intro graphId
    by_cases hg : graphId = stored.graphId
    · subst hg
      have hn := RevisionsTo.unique (inv.contiguous stored.graphId) hprev (hkey ▸ habsent)
      refine ⟨n + 1, fun r => ?_⟩
      by_cases hr : r = n + 1
      · subst hr
        simp [Hist.ran, hkey]
      · rw [Hist.ran, Hist.push_shared, AList.lookup_insert_ne (by simp [hkey, hr]), hn r]
        omega
    · obtain ⟨m, hm⟩ := inv.contiguous graphId
      refine ⟨m, fun r => ?_⟩
      rw [Hist.ran, Hist.push_shared,
        AList.lookup_insert_ne (by simp [StoredRevision.key, hg]), hm r]
  · intro key stored' hlookup
    rw [Hist.ran, Hist.push_shared] at hlookup
    by_cases hk : key = stored.key
    · subst hk
      rw [AList.lookup_insert] at hlookup
      cases hlookup
      exact hlinked
    · rw [AList.lookup_insert_ne hk] at hlookup
      exact inv.linked key stored' hlookup
  · intro graphId head hhead
    have hhad := inv.heads graphId head hhead
    rw [Hist.ran, Hist.push_shared]
    by_cases hk : (graphId, head.latestRevision) = stored.key
    · rw [hk, AList.lookup_insert]
      rfl
    · rwa [AList.lookup_insert_ne hk]
  · intro key stored'
    rw [hentries, Hist.ran, Hist.push_shared, List.mem_append, List.mem_singleton]
    by_cases hk : key = stored.key
    · subst hk
      rw [AList.lookup_insert]
      constructor
      · rintro ⟨⟩
        exact ⟨.inr rfl, rfl⟩
      · rintro ⟨hmem | rfl, hkey'⟩
        · have := (inv.claims stored.key stored').mpr ⟨hmem, hkey'⟩
          rw [habsent] at this
          cases this
        · rfl
    · rw [AList.lookup_insert_ne hk, inv.claims]
      constructor
      · rintro ⟨hmem, rfl⟩
        exact ⟨.inl hmem, rfl⟩
      · rintro ⟨hmem | rfl, rfl⟩
        · exact ⟨hmem, rfl⟩
        · exact absurd rfl hk
  · rw [hentries, List.map_append]
    refine List.nodup_append.mpr ⟨inv.once, by simp, ?_⟩
    rintro _ hold _ hnew rfl
    obtain ⟨stored', hmem, hkey'⟩ := List.mem_map.mp hold
    rw [List.map_singleton, List.mem_singleton] at hnew
    have := (inv.claims stored.key stored').mpr ⟨hmem, hkey'.trans hnew⟩
    rw [habsent] at this
    cases this

/-- What a command of a client that knows enough does. -/
theorem graphInv_ran {r : GraphRes op} (inv : GraphInv graphDigest h)
    (hf : Founded graphDigest op h.shared) (hx : graphExec op inp h.shared = some (r, s)) :
    GraphInv graphDigest (h.ran i c op inp r s) ∧
      (graphContract graphDigest).Rely i c h (h.ran i c op inp r s) := by
  have grown : ∀ {ev : Event GraphOp GraphRes GraphRequest ℕ GraphInput GraphShared},
      h.events <+: h.events ++ [ev] := List.prefix_append _ _
  have quiet : ∀ {e : GraphEntry} {heads : Table GraphId GoalGraphHead}, claimed e = none →
      (∀ graphId head, heads.lookup graphId = some head →
        (h.shared.revisions.lookup (graphId, head.latestRevision)).isSome) →
      GraphInv graphDigest (h.push (.ran e) ⟨heads, h.shared.revisions⟩) ∧
        (graphContract graphDigest).Rely i c h (h.push (.ran e) ⟨heads, h.shared.revisions⟩) :=
    fun hq hheads => ⟨graphInv_quiet inv rfl hq hheads, fun _ _ h => h, grown⟩
  cases op with
  | claimRevision stored =>
    simp only [graphExec] at hx
    split at hx
    · cases hx
      exact quiet rfl inv.heads
    · split at hx
      · cases hx
        exact quiet rfl inv.heads
      rename_i value hclosure
      cases hlookup : h.shared.revisions.lookup (stored.graphId, stored.revision) with
      | some old => rw [hlookup, claimedRevision, fail_eq_ok] at hclosure; exact hclosure.elim
      | none =>
        rw [hlookup, claimedRevision] at hclosure
        cases hclosure
        cases hx
        refine ⟨graphInv_claimed inv hf hlookup, fun key old hold => ?_, grown⟩
        have hk : key ≠ (stored.graphId, stored.revision) := by
          rintro rfl
          rw [hlookup] at hold
          cases hold
        exact (AList.lookup_insert_ne hk).trans hold
  | advanceHead stored name =>
    simp only [graphExec] at hx
    split at hx
    · cases hx
      exact quiet rfl inv.heads
    · cases hx
      refine quiet rfl fun graphId head hhead => ?_
      by_cases hg : graphId = stored.graphId
      · subst hg
        rw [AList.lookup_insert] at hhead
        cases hhead
        rcases advancedHead_latest stored name (h.shared.heads.lookup stored.graphId) with
          heq | ⟨old, hold, heq⟩
        · rw [heq]
          exact hf
        · rw [heq]
          exact inv.heads _ _ hold
      · rw [AList.lookup_insert_ne hg] at hhead
        exact inv.heads graphId head hhead
  | clock | getHead _ | getRevision _ _ | onRevision _ =>
    cases hx
    exact quiet rfl inv.heads

/-! What a client knows, which the others cannot undo. -/

/-- Revision `n` is stored; every graph has a revision 0. -/
def Has (graphId : GraphId) (n : ℕ) (h : GraphHist) : Prop :=
  n = 0 ∨ (h.shared.revisions.lookup (graphId, n)).isSome

/-- Thread `i` executed a command at which `P` held. -/
def Did (i : ℕ) (P : GraphEntry → Prop) (h : GraphHist) : Prop :=
  ∃ e ∈ h.entries, e.thread = i ∧ P e

def Failed (x : Thrown) (e : GraphEntry) : Prop := e.input.fault = some x

variable (graphDigest i c) in
abbrev GraphStable (A : GraphHist → Prop) : Prop := Stable (graphContract graphDigest) i c A

theorem Has.stable {graphId : GraphId} : GraphStable graphDigest i c (Has graphId n) := by
  rintro h h' hr (rfl | hn)
  · exact .inl rfl
  · obtain ⟨stored, hs⟩ := Option.isSome_iff_exists.mp hn
    exact .inr (by rw [hr.1 _ _ hs]; rfl)

theorem stored_stable {key : GraphId × ℕ} {stored : StoredRevision} :
    GraphStable graphDigest i c fun h => h.shared.revisions.lookup key = some stored :=
  fun _ _ hr hs => hr.1 _ _ hs

theorem Did.stable {j : ℕ} {P : GraphEntry → Prop} : GraphStable graphDigest i c (Did j P) := by
  rintro h h' hr ⟨e, he, hj, hP⟩
  obtain ⟨rest, hrest⟩ := hr.2
  refine ⟨e, ?_, hj, hP⟩
  rw [Hist.entries, ← hrest, List.filterMap_append]
  exact List.mem_append_left _ he

theorem did_ran {r : GraphRes op} {P : GraphEntry → Prop} (hP : P ⟨i, c, op, inp, r, h.shared, s⟩) :
    Did i P (h.ran i c op inp r s) :=
  ⟨_, by simp [Hist.ran], rfl, hP⟩

variable (graphDigest i c) in
abbrev GraphSafe {α : Type} (Q : Except Thrown α → GraphHist → Prop) (p : GraphProg α)
    (h : GraphHist) : Prop :=
  Safe (graphSystem graphDigest) (graphContract graphDigest) i c Q p h

/-- One command: it is founded on what the client knows, and the rest goes on from there. -/
theorem graph_call {α : Type} {next : GraphRes op → GraphProg α}
    {Q : Except Thrown α → GraphHist → Prop} (stable : GraphStable graphDigest i c A)
    (founded : ∀ h, A h → Founded graphDigest op h.shared)
    (rest : ∀ h inp r s, A h → GraphInv graphDigest h → graphExec op inp h.shared = some (r, s) →
      A (h.ran i c op inp r s) → GraphSafe graphDigest i c Q (next r) (h.ran i c op inp r s))
    (ha : A h) : GraphSafe graphDigest i c Q (.call op next) h := by
  intro h' inp r s hrely hinv hx _
  have ha' := stable h h' hrely ha
  obtain ⟨hinv', hgrow⟩ := graphInv_ran hinv (founded h' ha') hx
  exact ⟨hinv', fun j d _ => hgrow, rest h' inp r s ha' hinv hx (stable h' _ hgrow ha')⟩

/-- A post-condition on the result; an exception comes from the store. -/
def Outcome {α : Type} (i : ℕ) (P : α → GraphHist → Prop) : Except Thrown α → GraphHist → Prop
  | .ok a, h => P a h
  | .error x, h => Did i (Failed x) h

theorem guarded_outcome {α : Type} {a : α} {r : GraphRes op} {P : α → GraphHist → Prop}
    {out : Except Thrown α} (hr : out = guarded inp.fault a)
    (hP : out = .ok a → P a (h.ran i c op inp r s)) :
    Outcome i P out (h.ran i c op inp r s) := by
  subst hr
  cases hf : inp.fault with
  | none => exact hP (by rw [hf]; rfl)
  | some x => exact did_ran hf

/-- What a read of the next revision tells. -/
def SawNext (i : ℕ) (graphId : GraphId) (n : ℕ) : Option StoredRevision → GraphHist → Prop
  | some stored, h => h.shared.revisions.lookup (graphId, n + 1) = some stored
  | none, h => Did i (fun e => RevisionsTo graphId n e.before) h

/-- The latest revision, as found by a probe of the client's own. -/
def Latest (i : ℕ) (graphId : GraphId) (n : ℕ) (h : GraphHist) : Prop :=
  Has graphId n h ∧ Did i (fun e => RevisionsTo graphId n e.before) h

theorem Latest.stable {j : ℕ} {graphId : GraphId} :
    GraphStable graphDigest i c (Latest j graphId n) :=
  Has.stable.and Did.stable

theorem readNext_safe {graphId : GraphId} (hn : Has graphId n h) :
    GraphSafe graphDigest i c (Outcome i fun found h => SawNext i graphId n found h ∧ Has graphId n h)
      (readStored graphId (n + 1)) h := by
  refine graph_call Has.stable (fun _ _ => trivial) (fun h₁ inp r s hhas hinv hx hhas' => ?_) hn
  simp only [graphExec, Option.some.injEq, Prod.mk.injEq] at hx
  obtain ⟨hr, rfl⟩ := hx
  have hout : Outcome i (fun found h => SawNext i graphId n found h ∧ Has graphId n h) r
      (h₁.ran i c (.getRevision graphId (n + 1)) inp r h₁.shared) := by
    refine guarded_outcome hr.symm fun _ => ⟨?_, hhas'⟩
    cases hs : h₁.shared.revisions.lookup (graphId, n + 1) with
    | some stored => exact hs
    | none => exact did_ran (RevisionsTo.unique (hinv.contiguous graphId) hhas hs)
  cases r <;> exact hout

/-- The store failed, or there are as many revisions as the loop has rounds. -/
def Stalled (i rounds : ℕ) (graphId : GraphId) (x : Thrown) (h : GraphHist) : Prop :=
  Did i (Failed x) h ∨ x = outOfRounds ∧ ∃ n, rounds ≤ n ∧ Has graphId n h

/-- Induction on the rounds left: each probe that finds a revision is one step up the chain. -/
theorem rollForward_safe {graphId : GraphId} {rounds n : ℕ} (left : ℕ) (hn : Has graphId n h)
    (hleft : rounds ≤ n + left) : GraphSafe graphDigest i c
      (fun out h => match out with
        | .ok n => Latest i graphId n h
        | .error x => Stalled i rounds graphId x h)
      (rollForward graphId left n) h := by
  induction left generalizing n h with
  | zero => exact .inr ⟨rfl, n, hleft, hn⟩
  | succ left ih =>
    refine (readNext_safe hn).bind (fun found h₁ hfound => ?_) fun _ _ hx => .inl hx
    cases found with
    | some stored => exact ih (.inr (by rw [hfound.1]; rfl)) (by omega)
    | none => exact ⟨hfound.2, hfound.1⟩

theorem getHead_safe {graphId : GraphId} (h : GraphHist) :
    GraphSafe graphDigest i c (Outcome i fun head h =>
      Has graphId ((head.map GoalGraphHead.latestRevision).getD 0) h) (getHead graphId) h := by
  refine graph_call (A := fun _ => True) (fun _ _ _ h => h) (fun _ _ => trivial)
    (fun h₁ inp r s _ hinv hx _ => ?_) trivial
  simp only [graphExec, Option.some.injEq, Prod.mk.injEq] at hx
  obtain ⟨hr, rfl⟩ := hx
  have hout : Outcome i (fun head h => Has graphId ((head.map GoalGraphHead.latestRevision).getD 0) h)
      r (h₁.ran i c (.getHead graphId) inp r h₁.shared) := by
    refine guarded_outcome hr.symm fun _ => ?_
    cases hh : h₁.shared.heads.lookup graphId with
    | none => exact .inl rfl
    | some head => exact .inr (hinv.heads graphId head hh)
  cases r <;> exact hout

/-- The client knows the revision it is about to write below, and its record checks out. -/
theorem toRecord_linked {key : GraphId × ℕ} {stored : StoredRevision}
    (hl : Linked graphDigest key stored) : ∃ record,
    toRecord graphDigest stored (graphRevisionKey key.1 key.2) = .ok record ∧
      record.graphId = key.1 ∧ record.revision = key.2 := by
  obtain ⟨hformat, rfl, hdigest, -⟩ := hl
  have hok : toRecord graphDigest stored (graphRevisionKey stored.key.1 stored.key.2) = .ok _ :=
    if_neg (by simp [hformat, hdigest, StoredRevision.key])
  exact ⟨_, hok, rfl, rfl⟩

/-- The client's own claim of a revision went through. -/
def Claimed (i : ℕ) (graphId : GraphId) (revision : ℕ) (record : GoalGraphRevisionRecord)
    (h : GraphHist) : Prop :=
  Did i (fun e => ∃ stored, claimed e = some stored ∧ stored.key = (graphId, revision)) h ∧
    record.graphId = graphId ∧ record.revision = revision ∧ Has graphId revision h

variable (i) in
/-- What is promised of a call that returns; nothing of one that throws. -/
def Returns {α : Type} (P : α → GraphHist → Prop) : Except Thrown α → GraphHist → Prop
  | .ok a, h => P a h
  | .error _, _ => True

theorem writeRevision_safe {graphId : GraphId} {actor : String} {parent : Option ℕ}
    (hn : Has graphId n h) (hparent : parent = if n = 0 then none else some n) :
    GraphSafe graphDigest i c (Returns (Claimed i graphId (n + 1)))
      (writeRevision graphDigest graphId projectId definition actor (n + 1) parent) h := by
  unfold writeRevision
  refine graph_call Has.stable (fun _ _ => trivial) (fun h₁ inp now s _ _ _ hn₁ => ?_) hn
  dsimp only [Prog.bind_def, Prog.bind_ret]
  cases now with
  | none => trivial
  | some createdAt =>
    simp only [JsDate.toISOString, Prog.resume_ok, Prog.bind_ret, Prog.bind_call]
    set stored : StoredRevision :=
      { format := 1, graphId := graphId, projectId := projectId, revision := n + 1
        digest := graphDigest definition, createdAt := createdAt, createdBy := actor
        parentRevision := parent, canonicalDefinition := definition } with hstored
    have hlinked : Linked graphDigest stored.key stored :=
      ⟨rfl, rfl, rfl, by simp [hstored, StoredRevision.key, hparent]⟩
    refine graph_call Has.stable (fun _ hn => ⟨hlinked, n, rfl, hn⟩)
      (fun h₂ inp₂ claim s₂ _ _ hx _ => ?_) hn₁
    cases claim with
    | error x => trivial
    | ok _ =>
      have hinserted : (h₂.ran i c (.claimRevision stored) inp₂ (.ok ()) s₂).shared.revisions.lookup
          stored.key = some stored := by
        simp only [graphExec] at hx
        split at hx
        · cases hx
        split at hx
        · cases hx
        rename_i value hclosure
        cases hl : h₂.shared.revisions.lookup (stored.graphId, stored.revision) with
        | some old => rw [hl, claimedRevision, fail_eq_ok] at hclosure; exact hclosure.elim
        | none =>
          rw [hl, claimedRevision] at hclosure
          cases hclosure
          cases hx
          exact AList.lookup_insert _
      have hdid : Did i (fun e => ∃ stored, claimed e = some stored ∧
          stored.key = (graphId, n + 1)) (h₂.ran i c (.claimRevision stored) inp₂ (.ok ()) s₂) :=
        did_ran ⟨stored, rfl, rfl⟩
      refine graph_call (stored_stable.and Did.stable) (fun h hs => ?_)
        (fun h₃ inp₃ advance s₃ _ _ _ hknown => ?_) ⟨hinserted, hdid⟩
      · simp only [Founded, hs.1, Option.isSome_some]
      cases advance with
      | error x => trivial
      | ok _ =>
        obtain ⟨record, hrecord, hg, hr⟩ := toRecord_linked hlinked
        simp only [Prog.resume_ok, Prog.bind_ret]
        rw [show graphRevisionKey graphId (n + 1) = graphRevisionKey stored.key.1 stored.key.2 from
          rfl, hrecord]
        simp only [Prog.resume_ok, Prog.bind_ret]
        exact graph_call (stored_stable.and Did.stable) (fun _ _ => trivial)
          (fun _ _ _ _ _ _ _ hend =>
            ⟨hend.2, hg, hr, .inr (Option.isSome_iff_exists.mpr ⟨stored, hend.1⟩)⟩) hknown

/-- A read of one revision, whatever else the client knows. -/
theorem readStored_safe {graphId : GraphId} (stable : GraphStable graphDigest i c A) (ha : A h) :
    GraphSafe graphDigest i c (Outcome i fun found h => A h ∧
      (Has graphId n h → n ≠ 0 → found.isSome) ∧ ∀ stored, found = some stored →
        h.shared.revisions.lookup (graphId, n) = some stored ∧
          Linked graphDigest (graphId, n) stored)
      (readStored graphId n) h := by
  refine graph_call stable (fun _ _ => trivial) (fun h₁ inp r s _ hinv hx ha' => ?_) ha
  simp only [graphExec, Option.some.injEq, Prod.mk.injEq] at hx
  obtain ⟨hr, rfl⟩ := hx
  have hout : Outcome i (fun found h => A h ∧ (Has graphId n h → n ≠ 0 → found.isSome) ∧
      ∀ stored, found = some stored → h.shared.revisions.lookup (graphId, n) = some stored ∧
        Linked graphDigest (graphId, n) stored) r
      (h₁.ran i c (.getRevision graphId n) inp r h₁.shared) := by
    refine guarded_outcome hr.symm fun _ => ⟨ha', fun hhas hne => ?_, fun stored hs => ?_⟩
    · exact hhas.resolve_left hne
    · exact ⟨hs, hinv.linked _ _ hs⟩
  cases r <;> exact hout

/-- The record of a stored revision. -/
def RecordOf (graphDigest : GoalGraphDefinition → String) (graphId : GraphId)
    (record : GoalGraphRevisionRecord) (h : GraphHist) : Prop :=
  record.graphId = graphId ∧ ∃ stored,
    h.shared.revisions.lookup (graphId, record.revision) = some stored ∧
      toRecord graphDigest stored (graphRevisionKey graphId record.revision) = .ok record

def maxSafeInteger : ℤ := 9007199254740991

/-- A read of the latest revision: the number found by the client's own last probe, and its
record. -/
def FoundLatest (graphDigest : GoalGraphDefinition → String) (i : ℕ) (graphId : GraphId)
    (found : Option GoalGraphRevisionRecord) (h : GraphHist) : Prop :=
  match found with
  | none => Did i (fun e => RevisionsTo graphId 0 e.before) h
  | some record => RecordOf graphDigest graphId record h ∧
      Did i (fun e => RevisionsTo graphId record.revision e.before) h

/-- The read of the latest revision only fails when the store does, short of rounds, or past
the safe integers. -/
def LatestFailed (i rounds : ℕ) (graphId : GraphId) (x : Thrown) (h : GraphHist) : Prop :=
  Stalled i rounds graphId x h ∨
    ∃ n : ℕ, maxSafeInteger < n ∧ Did i (fun e => RevisionsTo graphId n e.before) h

theorem getLatest_safe {graphId : GraphId} (hvalid : validGraphId graphId = true) (h : GraphHist) :
    GraphSafe graphDigest i c
      (fun out h => match out with
        | .ok found => FoundLatest graphDigest i graphId found h
        | .error x => LatestFailed i rounds graphId x h)
      (getRevision graphDigest rounds graphId none) h := by
  unfold getRevision
  dsimp only [Prog.bind_def]
  rw [checkGraphId, if_pos hvalid]
  have latest : GraphSafe graphDigest i c
      (fun out h => match out with
        | .ok (rev : ℤ) => ∃ n : ℕ, rev = n ∧ Latest i graphId n h
        | .error x => Stalled i rounds graphId x h)
      (revisionOr rounds graphId none) h := by
    unfold revisionOr
    refine (getHead_safe h).bind (fun head h₁ hhas => ?_) fun _ _ hx => .inl hx
    exact (rollForward_safe rounds hhas (Nat.le_add_left ..)).bind (fun n h₂ hl => ⟨n, rfl, hl⟩)
      fun _ _ hx => hx
  refine latest.bind (fun rev h₁ hrev => ?_) fun _ _ hx => .inl hx
  obtain ⟨n, rfl, hlatest⟩ := hrev
  simp only [true_and]
  by_cases hzero : (n : ℤ) = 0
  · rw [if_pos hzero]
    obtain rfl : n = 0 := by exact_mod_cast hzero
    exact hlatest.2
  rw [if_neg hzero]
  by_cases hbig : 9007199254740991 < (n : ℤ) ∨ (n : ℤ) < 1
  · rw [if_pos hbig]
    exact .inr ⟨n, hbig.resolve_right (by omega), hlatest.2⟩
  rw [if_neg hbig, Int.toNat_natCast]
  refine (readStored_safe Latest.stable hlatest).bind (fun found h₂ hfound => ?_)
    fun _ _ hx => .inl (.inl hx)
  obtain ⟨hlatest₂, hsome, hlinked⟩ := hfound
  cases found with
  | none => exact absurd (hsome hlatest₂.1 (by rintro rfl; exact hzero rfl)) (by simp)
  | some stored =>
    obtain ⟨hstored, hl⟩ := hlinked stored rfl
    obtain ⟨record, hrecord, hg, hr⟩ := toRecord_linked hl
    simp only [] at hg hr
    simp only [hrecord, Prog.resume_ok, Prog.bind_ret]
    exact ⟨⟨hg, stored, by rwa [hr], by rw [hr]; exact hrecord⟩, by rw [hr]; exact hlatest₂.2⟩

theorem RecordOf.stable {graphId : GraphId} {record : GoalGraphRevisionRecord} :
    GraphStable graphDigest i c (RecordOf graphDigest graphId record) := by
  rintro h h' hr ⟨hg, stored, hs, hrecord⟩
  exact ⟨hg, stored, hr.1 _ _ hs, hrecord⟩

/-- A read by number returns a record of that graph. -/
theorem getRevision_safe {graphId : GraphId} {revision : ℤ} (stable : GraphStable graphDigest i c A)
    (ha : A h) : GraphSafe graphDigest i c
      (Returns fun found h => A h ∧ ∀ record, found = some record → record.graphId = graphId)
      (getRevision graphDigest rounds graphId (some revision)) h := by
  unfold getRevision
  dsimp only [Prog.bind_def]
  cases checkGraphId graphId with
  | error x => trivial
  | ok _ =>
    simp only [Prog.resume_ok, Prog.bind_ret, revisionOr, Prog.pure_def, reduceCtorEq, false_and,
      if_false]
    split_ifs
    · trivial
    refine (readStored_safe stable ha).bind (fun found h₁ hfound => ?_) fun _ _ _ => trivial
    cases found with
    | none =>
      refine ⟨hfound.1, ?_⟩
      rintro _ ⟨⟩
    | some stored =>
      obtain ⟨record, hrecord, hg, -⟩ := toRecord_linked (hfound.2.2 stored rfl).2
      simp only [hrecord, Prog.resume_ok, Prog.bind_ret]
      refine ⟨hfound.1, ?_⟩
      rintro _ ⟨⟩
      exact hg

/-- What an import returns is a record of the graph its definition is named for. -/
def Imported (projectId : ProjectId) (parsed : Option GoalGraphDefinition)
    (result : GoalGraphImportResult) (h : GraphHist) : Prop :=
  ∀ record, result.record = some record → ∃ definition, parsed = some definition ∧
    record.graphId = deriveGraphId projectId definition.name ∧ ∃ n, Has record.graphId (n + 1) h

theorem imported_some {record : GoalGraphRevisionRecord} {created : Option Bool}
    (hg : record.graphId = deriveGraphId projectId definition.name)
    (hn : Has record.graphId (n + 1) h) :
    Imported projectId (some definition) ⟨some record, created⟩ h := by
  intro other hother
  cases Option.some.inj hother
  exact ⟨definition, rfl, hg, n, hn⟩

theorem importYaml_safe {yaml actor : String} {parsed : Option GoalGraphDefinition} (h : GraphHist) :
    GraphSafe graphDigest i c (Returns (Imported projectId parsed))
      (importYaml graphDigest rounds projectId yaml parsed actor) h := by
  unfold importYaml
  dsimp only [Prog.bind_def]
  by_cases hproject : (!validProjectId projectId) = true
  · rw [if_pos hproject]
    trivial
  rw [if_neg hproject]
  cases checkActor actor with
  | error x => trivial
  | ok _ =>
    simp only [Prog.resume_ok, Prog.bind_ret]
    by_cases hempty : trim yaml = ""
    · rw [if_pos hempty]
      trivial
    rw [if_neg hempty]
    cases parsed with
    | none => exact fun record hr => nomatch hr
    | some definition =>
      dsimp only [Prog.bind_def]
      obtain ⟨graphId, hgraph⟩ : ∃ g, g = deriveGraphId projectId definition.name := ⟨_, rfl⟩
      rw [← hgraph]
      refine (getHead_safe h).bind (fun head h₁ hhas => ?_) fun _ _ _ => trivial
      refine (rollForward_safe rounds hhas (Nat.le_add_left ..)).bind (fun n h₂ hlatest => ?_)
        fun _ _ _ => trivial
      have written : ∀ (m : ℕ) (parent : Option ℕ) (h : GraphHist), Has graphId m h →
          parent = (if m = 0 then none else some m) → GraphSafe graphDigest i c
            (Returns (Imported projectId (some definition)))
            ((writeRevision graphDigest graphId projectId definition actor (m + 1) parent).bind
              fun record => .ret ⟨some record, some true⟩) h := by
        intro m parent h hm hparent
        refine (writeRevision_safe hm hparent).bind (fun record h' hc => ?_) fun _ _ _ => trivial
        exact imported_some (hc.2.1.trans hgraph) (hc.2.1 ▸ hc.2.2.2)
      by_cases hpos : 0 < n
      · rw [if_pos hpos]
        refine (getRevision_safe Has.stable hlatest.1).bind (fun current h₃ hcur => ?_)
          fun _ _ _ => trivial
        cases hsame : current.filter fun record => record.digest = graphDigest definition with
        | some same =>
          have hg := hcur.2 _ (Option.filter_eq_some_iff.mp hsame).1
          refine imported_some (n := n - 1) (hg.trans hgraph) ?_
          rw [hg, Nat.sub_add_cancel hpos]
          exact hcur.1
        | none => exact written n (some n) h₃ hcur.1 (by rw [if_neg hpos.ne'])
      · rw [if_neg hpos]
        exact written 0 none h₂ (.inl rfl) rfl

/-- A creation that returns has claimed the revision after the parent it names. -/
theorem createRevision_safe {graphId : GraphId} {issue : Option String} {actor : String}
    {parentRevision : ℤ} (h : GraphHist) :
    GraphSafe graphDigest i c (Returns fun record h =>
        ∃ n : ℕ, parentRevision = n ∧ Claimed i graphId (n + 1) record h)
      (createRevision graphDigest rounds graphId definition issue actor parentRevision) h := by
  unfold createRevision
  dsimp only [Prog.bind_def]
  cases checkGraphId graphId with
  | error x => trivial
  | ok _ =>
    cases checkActor actor with
    | error x => trivial
    | ok _ =>
      simp only [Prog.resume_ok, Prog.bind_ret]
      split_ifs
      · trivial
      cases issue with
      | some message => trivial
      | none =>
        refine (getHead_safe h).bind (fun head h₁ hhas => ?_) fun _ _ _ => trivial
        refine (rollForward_safe rounds hhas (Nat.le_add_left ..)).bind (fun n h₂ hlatest => ?_)
          fun _ _ _ => trivial
        by_cases hzero : n = 0
        · rw [if_pos hzero]
          trivial
        rw [if_neg hzero]
        by_cases hstale : parentRevision ≠ n
        · rw [if_pos hstale]
          trivial
        rw [if_neg hstale]
        refine (readStored_safe Has.stable hlatest.1).bind (fun parent h₃ hparent => ?_)
          fun _ _ _ => trivial
        cases (head.map GoalGraphHead.projectId).or (parent.map StoredRevision.projectId) with
        | none => trivial
        | some projectId =>
          refine (writeRevision_safe hparent.1 (by rw [if_neg hzero])).mono fun out h₄ hc => ?_
          cases out with
          | error x => trivial
          | ok record => exact ⟨n, not_not.mp hstale, hc⟩

/-- What each call has done when it ends. -/
def GraphRequest.Done (graphDigest : GoalGraphDefinition → String) (i : ℕ) (c : GraphRequest) :
    Except Thrown GraphReply → GraphHist → Prop :=
  fun out h => match c.call, out with
  | .importYaml projectId _ parsed _, .ok (.imported result) => Imported projectId parsed result h
  | .createRevision graphId _ _ _ parentRevision, .ok (.created record) =>
    ∃ n : ℕ, parentRevision = n ∧ Claimed i graphId (n + 1) record h
  | .getRevision graphId none, .ok (.found found) => validGraphId graphId = true →
    FoundLatest graphDigest i graphId found h
  | .getRevision graphId none, .error x => validGraphId graphId = true →
    LatestFailed i c.rounds graphId x h
  | _, _ => True

theorem graphBody_safe (h : GraphHist) :
    GraphSafe graphDigest i c (c.Done graphDigest i) (c.body graphDigest) h := by
  obtain ⟨process, rounds, call⟩ := c
  cases call with
  | importYaml projectId yaml parsed actor =>
    exact (importYaml_safe h).bind (fun result h₁ hq => hq) fun x h₁ _ => trivial
  | createRevision graphId definition issue actor parentRevision =>
    exact (createRevision_safe h).bind (fun record h₁ hq => hq) fun x h₁ _ => trivial
  | getRevision graphId revision =>
    cases revision with
    | some revision =>
      exact (getRevision_safe (A := fun _ => True) (fun _ _ _ h => h) trivial).bind
        (fun found h₁ _ => trivial) fun x h₁ _ => trivial
    | none =>
      by_cases hvalid : validGraphId graphId = true
      · exact (getLatest_safe hvalid h).bind (fun found h₁ hq _ => hq) fun x h₁ hq _ => hq
      · change GraphSafe graphDigest i _ _ ((getRevision graphDigest rounds graphId none).bind _) h
        unfold getRevision
        dsimp only [Prog.bind_def]
        rw [checkGraphId, if_neg hvalid]
        exact fun h => absurd h hvalid

theorem graphUpheld (graphDigest : GoalGraphDefinition → String) :
    (graphContract graphDigest).Upheld (graphSystem graphDigest)
      (fun i c => c.Done graphDigest i) where
  okPrefix _ _ _ _ := trivial
  refl _ _ h := ⟨fun _ _ hs => hs, List.prefix_refl _⟩
  trans _ _ _ _ _ h₁ h₂ := ⟨fun key stored hs => h₂.1 _ _ (h₁.1 _ _ hs), h₁.2.trans h₂.2⟩
  began h i c s inv _ _ hadm _ := by
    cases hadm
    refine ⟨⟨inv.contiguous, inv.linked, inv.heads, ?_, ?_⟩,
      fun j d _ => ⟨fun _ _ hs => hs, List.prefix_append _ _⟩, graphBody_safe _⟩
    · rw [Hist.entries_push_began]
      exact inv.claims
    · rw [Hist.entries_push_began]
      exact inv.once
  crashed h p inv _ := by
    refine ⟨⟨inv.contiguous, inv.linked, inv.heads, ?_, ?_⟩,
      fun j d _ => ⟨fun _ _ hs => hs, List.prefix_append _ _⟩⟩
    · rw [Hist.entries_push_crashed]
      exact inv.claims
    · rw [Hist.entries_push_crashed]
      exact inv.once

theorem graphInv_start (graphDigest : GoalGraphDefinition → String) :
    GraphInv graphDigest ⟨[], emptyGraphs⟩ where
  contiguous _ := ⟨0, fun r => by simp [emptyGraphs]; omega⟩
  linked _ _ h := by simp [emptyGraphs] at h
  heads _ _ h := by simp [emptyGraphs] at h
  claims _ _ := by simp [emptyGraphs, Hist.entries]
  once := by simp [Hist.entries]

theorem FoundLatest.stable {j : ℕ} {graphId : GraphId} {found : Option GoalGraphRevisionRecord} :
    GraphStable graphDigest i c (FoundLatest graphDigest j graphId found) := by
  cases found with
  | none => exact Did.stable
  | some record => exact RecordOf.stable.and Did.stable

theorem LatestFailed.stable {j rounds : ℕ} {graphId : GraphId} {x : Thrown} :
    GraphStable graphDigest i c (LatestFailed j rounds graphId x) := by
  rintro h h' hr ((hf | ⟨hx, n, hle, hn⟩) | ⟨n, hn, hd⟩)
  · exact .inl (.inl (Did.stable _ _ hr hf))
  · exact .inl (.inr ⟨hx, n, hle, Has.stable _ _ hr hn⟩)
  · exact .inr ⟨n, hn, Did.stable _ _ hr hd⟩

/-- Of two claims of one key only one goes through. -/
theorem claims_once (inv : GraphInv graphDigest h) {key : GraphId × ℕ} {stored : StoredRevision}
    (hs : h.shared.revisions.lookup key = some stored) :
    (h.entries.filterMap claimed).filter (fun other => other.key = key) = [stored] := by
  obtain ⟨hmem, rfl⟩ := (inv.claims key stored).mp hs
  exact filter_key_eq inv.once hmem

/-- Two clients whose claims of one key both went through are one. -/
theorem claimed_entry (inv : GraphInv graphDigest h) {e e' : GraphEntry} (he : e ∈ h.entries)
    (he' : e' ∈ h.entries) {stored stored' : StoredRevision} (hc : claimed e = some stored)
    (hc' : claimed e' = some stored') (hkey : stored.key = stored'.key) : e = e' := by
  have pairs : ∀ {l : List GraphEntry}, ((l.filterMap claimed).map StoredRevision.key).Nodup →
      e ∈ l → e' ∈ l → e = e' := by
    intro l hl hmem hmem'
    induction l with
    | nil => cases hmem
    | cons x rest ih =>
      have kept : ∀ {y : GraphEntry} {v : StoredRevision}, y ∈ rest → claimed y = some v →
          v ∈ rest.filterMap claimed := fun hy hv => List.mem_filterMap.mpr ⟨_, hy, hv⟩
      have htail : ((rest.filterMap claimed).map StoredRevision.key).Nodup := by
        rw [List.filterMap_cons] at hl
        split at hl
        · exact hl
        · exact (List.nodup_cons.mp hl).2
      rcases List.mem_cons.mp hmem with hx | hin
      · rcases List.mem_cons.mp hmem' with hx' | hin'
        · rw [hx, hx']
        · rw [List.filterMap_cons_some (hx ▸ hc), List.map_cons, List.nodup_cons] at hl
          exact absurd (List.mem_map.mpr ⟨_, kept hin' hc', hkey.symm⟩) hl.1
      · rcases List.mem_cons.mp hmem' with hx' | hin'
        · rw [List.filterMap_cons_some (hx' ▸ hc'), List.map_cons, List.nodup_cons] at hl
          exact absurd (List.mem_map.mpr ⟨_, kept hin hc, hkey⟩) hl.1
        · exact ih htail hin hin'
  exact pairs inv.once he he'

end Chain

/-- What the revision records of a run amount to. A latest revision is the latest at a moment
of the call that reads it. -/
structure RevisionChained (graphDigest : GoalGraphDefinition → String) (cfg : GraphConfig) :
    Prop where
  contiguous : ∀ graphId, ∃ n, RevisionsTo graphId n cfg.hist.shared
  parents : ∀ graphId r stored, cfg.hist.shared.revisions.lookup (graphId, r) = some stored →
    stored.revision = r ∧ stored.parentRevision = if r = 1 then none else some (r - 1)
  writtenOnce : ∀ key stored, cfg.hist.shared.revisions.lookup key = some stored →
    (cfg.hist.entries.filterMap claimed).filter (fun other => other.key = key) = [stored]
  unchanged : ∀ cfg', Relation.ReflTransGen (Step (graphSystem graphDigest)) cfg cfg' →
    ∀ key stored, cfg.hist.shared.revisions.lookup key = some stored →
      cfg'.hist.shared.revisions.lookup key = some stored
  latest : ∀ (i process rounds : ℕ) graphId found,
    HasReturned (graphSystem graphDigest) emptyGraphs cfg i
      ⟨process, rounds, .getRevision graphId none⟩ (.found found) →
    FoundLatest graphDigest i graphId found cfg.hist
  latestFails : ∀ (i process rounds : ℕ) graphId x, validGraphId graphId = true →
    HasEnded (graphSystem graphDigest) emptyGraphs cfg i
      ⟨process, rounds, .getRevision graphId none⟩ (.error x) →
    LatestFailed i rounds graphId x cfg.hist
  oneChild : ∀ (i j : ℕ) c c' record record' graphId definition definition' issue issue' actor
      actor' parent, HasReturned (graphSystem graphDigest) emptyGraphs cfg i c (.created record) →
    HasReturned (graphSystem graphDigest) emptyGraphs cfg j c' (.created record') →
    c.call = .createRevision graphId definition issue actor parent →
    c'.call = .createRevision graphId definition' issue' actor' parent → i = j

theorem validGraphId_of_found {graphDigest : GoalGraphDefinition → String} {graphId : GraphId}
    {cfg : GraphConfig} (hr : Reach (graphSystem graphDigest) emptyGraphs cfg)
    {i process rounds : ℕ} {found : Option GoalGraphRevisionRecord}
    (ht : cfg.threads[i]? =
      some ⟨⟨process, rounds, .getRevision graphId none⟩, some (.ret (.found found))⟩) :
    validGraphId graphId = true := by
  by_contra hvalid
  have hends := hr.ends (o := .ok (.found found)) ht
  change Ends ((getRevision graphDigest rounds graphId none).bind _) _ _ at hends
  unfold getRevision at hends
  dsimp only [Prog.bind_def] at hends
  rw [checkGraphId, if_neg hvalid] at hends
  exact absurd (Ends.raise_iff.mp hends).2 (by simp)

theorem revisions_kept {graphDigest : GoalGraphDefinition → String} {cfg cfg' : GraphConfig}
    (hr : Reach (graphSystem graphDigest) emptyGraphs cfg)
    (hlater : Relation.ReflTransGen (Step (graphSystem graphDigest)) cfg cfg') {key : GraphId × ℕ}
    {stored : StoredRevision} (hs : cfg.hist.shared.revisions.lookup key = some stored) :
    cfg'.hist.shared.revisions.lookup key = some stored := by
  let R : GraphHist → GraphHist → Prop := (graphContract graphDigest).Rely 0 ⟨0, 0, .getRevision "" none⟩
  have U := graphUpheld graphDigest
  have step : ∀ a b, Reach (graphSystem graphDigest) emptyGraphs a →
      Step (graphSystem graphDigest) a b → R a.hist b.hist := by
    intro a b ha hab
    obtain ⟨p, hp⟩ := Infinite.exists_notMem_finset b.hist.dead.toFinset
    exact U.bystander (graphInv_start graphDigest) ha hab trivial
      (d := ⟨p, 0, .getRevision "" none⟩) le_rfl (by simpa [graphSystem] using hp)
  exact (Reach.later (R := R) (fun h => U.refl _ _ h) (fun _ _ _ => U.trans _ _ _ _ _) step hr
    hlater).1.1 key stored hs

/-- Every run of the clients keeps the revisions chained. -/
theorem revisions_chained {graphDigest : GoalGraphDefinition → String} {cfg : GraphConfig}
    (hr : Reach (graphSystem graphDigest) emptyGraphs cfg) : RevisionChained graphDigest cfg := by
  have U := graphUpheld graphDigest
  have inv := (U.run (graphInv_start graphDigest) hr trivial).1
  have done : ∀ {i : ℕ} {c : GraphRequest} {o : Except Thrown GraphReply},
      HasEnded (graphSystem graphDigest) emptyGraphs cfg i c o → ∃ h₀,
        (graphContract graphDigest).Rely i c h₀ cfg.hist ∧ c.Done graphDigest i o h₀ :=
    fun hended => U.ended (graphInv_start graphDigest)
      (fun _ _ _ _ _ _ => ⟨fun _ _ hs => hs, List.prefix_append _ _⟩) trivial hended
  constructor
  · exact inv.contiguous
  · intro graphId r stored hs
    have hl := inv.linked _ _ hs
    exact ⟨congrArg Prod.snd hl.key, hl.parent⟩
  · exact fun key stored hs => claims_once inv hs
  · exact fun cfg' hlater key stored hs => revisions_kept hr hlater hs
  · intro i process rounds graphId found hret
    obtain ⟨h₀, hrely, hdone⟩ := done hret.ended
    obtain ⟨cfg₀, hr₀, -, ht⟩ := hret
    exact FoundLatest.stable _ _ hrely
      (hdone (validGraphId_of_found hr₀ (Config.returned_eq_some ht)))
  · intro i process rounds graphId x hvalid hended
    obtain ⟨h₀, hrely, hdone⟩ := done hended
    exact LatestFailed.stable _ _ hrely (hdone hvalid)
  · intro i j c c' record record' graphId definition definition' issue issue' actor actor' parent
      hret hret' hc hc'
    obtain ⟨h₀, hrely, hdone⟩ := done hret.ended
    obtain ⟨h₀', hrely', hdone'⟩ := done hret'.ended
    simp only [GraphRequest.Done, hc] at hdone
    simp only [GraphRequest.Done, hc'] at hdone'
    obtain ⟨n, hn, hclaim, -⟩ := hdone
    obtain ⟨n', hn', hclaim', -⟩ := hdone'
    obtain ⟨e, he, hi, stored, hstored, hkey⟩ := Did.stable _ _ hrely hclaim
    obtain ⟨e', he', hj, stored', hstored', hkey'⟩ := Did.stable _ _ hrely' hclaim'
    have hnn : n = n' := by omega
    rw [← hi, ← hj, claimed_entry inv he he' hstored hstored' (by rw [hkey, hkey', hnn])]

/-! An import, and a second revision on top of it. -/

def smallGraph : GoalGraphDefinition :=
  ⟨"Small graph", ⟨10, 1, 1, 60, 0, true, none⟩, [⟨"t", [], 0, "shell", [], ["done"], false, false⟩]⟩

/-- The digest of the one definition that the runs below use. -/
def smallDigest (_ : GoalGraphDefinition) : String :=
  "16026b695aaa88e1746770100e265c433ab0774c130f7106f99f147262f1aaa7"

/-- So many commands of thread `i`. -/
def graphSteps (i n : ℕ) : List (Action GraphRequest ℕ GraphInput) :=
  List.replicate n (.run i ⟨JsDate.ofMs 0, none⟩)

def importThenCreate : List (Action GraphRequest ℕ GraphInput) :=
  [.begin ⟨0, 4, .importYaml "wazir" "name: Small graph" (some smallGraph) "me"⟩] ++
    graphSteps 0 6 ++
    [.begin ⟨1, 4, .createRevision "wazir--small-graph" smallGraph none "me" 1⟩] ++ graphSteps 1 7

/-- The graph's second revision is there and no third. -/
def twoRevisions (cfg : GraphConfig) : Bool :=
  (cfg.hist.shared.revisions.lookup ("wazir--small-graph", 2)).isSome &&
    (cfg.hist.shared.revisions.lookup ("wazir--small-graph", 3)).isNone

theorem revisions_chained_created : ∃ cfg,
    Reach (graphSystem smallDigest) emptyGraphs cfg ∧
      RevisionsTo "wazir--small-graph" 2 cfg.hist.shared ∧
      RevisionChained smallDigest cfg := by
  have h : (schedule (graphSystem smallDigest) importThenCreate
      (.start emptyGraphs)).any twoRevisions = true := by decide
  obtain ⟨cfg, hr, hcheck⟩ := Reach.of_check h
  have hchain := revisions_chained hr
  obtain ⟨htwo, hthree⟩ := Bool.and_eq_true_iff.mp hcheck
  exact ⟨cfg, hr, RevisionsTo.unique (hchain.contiguous _) (.inr htwo)
    (Option.isNone_iff_eq_none.mp hthree), hchain⟩

end Wazir.Goals
