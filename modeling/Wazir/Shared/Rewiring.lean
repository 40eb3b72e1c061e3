import Mathlib.Data.Set.Card
import Mathlib.Logic.Relation
import Mathlib.Order.WellFoundedSet

/-! Tasks that need others, where some are replaced: what depended on one depends on the last of the
fresh ones instead. -/

namespace Wazir.Rewiring

open Relation

variable {α : Type*}

def Acyclic (r : α → α → Prop) : Prop := ∀ a, ¬ TransGen r a a

theorem Acyclic.mono {r s : α → α → Prop} (h : Acyclic s) (hrs : ∀ a b, r a b → s a b) : Acyclic r :=
  fun a hcycle => h a (TransGen.mono hrs a a hcycle)

/-- What is accessible is on no cycle. -/
theorem acyclic_of_acc {r : α → α → Prop} (h : ∀ a, Acc (fun b a => r a b) a) : Acyclic r := by
  intro a
  induction (h a).transGen with
  | intro a _ ih => exact fun hcycle => ih a (transGen_swap.2 hcycle) hcycle

/-- `kept` is what the old tasks still need of each other, `added` what the fresh ones need. -/
structure Rewired (α : Type*) where
  old : Set α
  fresh : Set α
  kept : α → α → Prop
  dependents : Set α
  added : α → α → Prop
  last : α
  kept_old : ∀ a b, kept a b → a ∈ old ∧ b ∈ old
  dependents_old : dependents ⊆ old
  added_fresh : ∀ a b, added a b → a ∈ fresh
  last_fresh : dependents.Nonempty → last ∈ fresh
  disjoint : ∀ a ∈ old, a ∉ fresh

namespace Rewired

variable (w : Rewired α)

def needs (a b : α) : Prop := w.added a b ∨ w.kept a b ∨ a ∈ w.dependents ∧ b = w.last

variable {w} {a b v x y : α}

theorem last_needed (h : y ∈ w.dependents) : w.needs y w.last := .inr (.inr ⟨h, rfl⟩)

theorem reach_kept (h : ReflTransGen w.kept a b) : ReflTransGen w.needs a b :=
  ReflTransGen.mono (fun _ _ hk => .inr (.inl hk)) a b h

theorem reach_added (h : ReflTransGen w.added a b) : ReflTransGen w.needs a b :=
  ReflTransGen.mono (fun _ _ hr => .inl hr) a b h

/-- From an old task one stays with the old ones, or goes over the last fresh one. -/
theorem from_old (h : TransGen w.needs a b) (ha : a ∈ w.old) :
    TransGen w.kept a b ∨
      ∃ y ∈ w.dependents, ReflTransGen w.kept a y ∧ ReflTransGen w.needs w.last b := by
  induction h using TransGen.head_induction_on with
  | single hab =>
    obtain hr | hk | ⟨hx, rfl⟩ := hab
    · exact absurd (w.added_fresh _ _ hr) (w.disjoint _ ha)
    · exact .inl (.single hk)
    · exact .inr ⟨_, hx, .refl, .refl⟩
  | head hac hcb ih =>
    obtain hr | hk | ⟨hx, rfl⟩ := hac
    · exact absurd (w.added_fresh _ _ hr) (w.disjoint _ ha)
    · obtain h | ⟨y, hy, hcy, hlast⟩ := ih (w.kept_old _ _ hk).2
      · exact .inl (.head hk h)
      · exact .inr ⟨y, hy, .head hk hcy, hlast⟩
    · exact .inr ⟨_, hx, .refl, hcb.to_reflTransGen⟩

/-- One stays with what the fresh tasks need, or comes to an old one. -/
theorem from_any (h : ReflTransGen w.needs v b) :
    ReflTransGen w.added v b ∨
      ∃ x ∈ w.old, ReflTransGen w.added v x ∧ ReflTransGen w.needs x b := by
  induction h using ReflTransGen.head_induction_on with
  | refl => exact .inl .refl
  | head hvc hcb ih =>
    obtain hr | hk | ⟨hx, rfl⟩ := hvc
    · obtain h | ⟨x, hx, hcx, hxb⟩ := ih
      · exact .inl (.head hr h)
      · exact .inr ⟨x, hx, .head hr hcx, hxb⟩
    · exact .inr ⟨_, (w.kept_old _ _ hk).1, .refl, .head (.inr (.inl hk)) hcb⟩
    · exact .inr ⟨_, w.dependents_old hx, .refl, .head (last_needed hx) hcb⟩

variable (w) in
/-- The last fresh task does not lead back to what waits for it. -/
def Forward : Prop :=
  ∀ x y, ReflTransGen w.added w.last x → ReflTransGen w.kept x y → y ∉ w.dependents

theorem not_from_last (h : w.Forward) (hx : x ∈ w.old) (hlx : ReflTransGen w.added w.last x)
    (hb : b ∉ w.old) : ¬ ReflTransGen w.needs x b := by
  intro hxb
  obtain rfl | hxb := reflTransGen_iff_eq_or_transGen.1 hxb
  · exact hb hx
  · obtain hk | ⟨y, hy, hxy, -⟩ := from_old hxb hx
    · obtain ⟨c, -, hcb⟩ := TransGen.tail'_iff.1 hk
      exact hb (w.kept_old _ _ hcb).2
    · exact h x y hlx hxy hy

theorem no_cycle_last (h : w.Forward) (hadded : Acyclic w.added) (hl : w.last ∉ w.old) :
    ¬ TransGen w.needs w.last w.last := by
  intro hcycle
  obtain ⟨c, hlc, hcl⟩ := TransGen.head'_iff.1 hcycle
  have hr : w.added w.last c := by
    obtain hr | hk | ⟨hx, -⟩ := hlc
    · exact hr
    · exact absurd (w.kept_old _ _ hk).1 hl
    · exact absurd (w.dependents_old hx) hl
  obtain hcl | ⟨x, hx, hcx, hxl⟩ := from_any hcl
  · exact hadded _ (TransGen.head' hr hcl)
  · exact not_from_last h hx (.head hr hcx) hl hxl

/-- The new dependencies have a cycle exactly if the fresh ones have, or the last fresh task leads
back. -/
theorem acyclic_iff (hkept : Acyclic w.kept) :
    Acyclic w.needs ↔ Acyclic w.added ∧ w.Forward := by
  constructor
  · intro h
    refine ⟨h.mono fun _ _ => .inl, fun x y hlx hxy hy => h w.last ?_⟩
    exact TransGen.tail' ((reach_added hlx).trans (reach_kept hxy)) (last_needed hy)
  · rintro ⟨hadded, hforward⟩
    have hold : ∀ a ∈ w.old, ¬ TransGen w.needs a a := by
      intro a ha hcycle
      obtain hk | ⟨y, hy, hay, hla⟩ := from_old hcycle ha
      · exact hkept a hk
      · have hl : w.last ∉ w.old := fun hl => w.disjoint _ hl (w.last_fresh ⟨y, hy⟩)
        exact no_cycle_last hforward hadded hl
          (TransGen.tail' (hla.trans (reach_kept hay)) (last_needed hy))
    intro a hcycle
    by_cases ha : a ∈ w.old
    · exact hold a ha hcycle
    · obtain ⟨c, hac, hca⟩ := TransGen.head'_iff.1 hcycle
      have hr : w.added a c := by
        obtain hr | hk | ⟨hx, -⟩ := hac
        · exact hr
        · exact absurd (w.kept_old _ _ hk).1 ha
        · exact absurd (w.dependents_old hx) ha
      obtain hca | ⟨x, hx, hcx, hxa⟩ := from_any hca
      · exact hadded a (TransGen.head' hr hca)
      · have hxa' : TransGen w.needs x a := by
          obtain rfl | h := reflTransGen_iff_eq_or_transGen.1 hxa
          · exact absurd hx ha
          · exact h
        exact hold x hx (hxa'.trans_left (.head (.inl hr) (reach_added hcx)))

end Rewired

/-! Runs: a task is done once all it needs is done. -/

section Runs

variable (needs : α → α → Prop) (tasks : Set α)

/-- Needs without a task hold nothing up. -/
def Ready (done : Set α) (a : α) : Prop := ∀ b ∈ tasks, needs a b → b ∈ done

def Advance (done done' : Set α) : Prop :=
  done ⊆ done' ∧ ∀ a ∈ done', a ∉ done → a ∈ tasks ∧ Ready needs tasks done a

variable {needs tasks} {done done' : Set α}

theorem Ready.mono {a : α} (h : Ready needs tasks done a) (hsub : done ⊆ done') :
    Ready needs tasks done' a :=
  fun b hb hab => hsub (h b hb hab)

/-- A task that is done had what it needs. -/
theorem ready_of_done {fresh : Set α} (hrun : ReflTransGen (Advance needs tasks) done done')
    (h : ∀ a ∈ fresh, a ∉ done) : ∀ a ∈ fresh, a ∈ done' → Ready needs tasks done' a := by
  induction hrun with
  | refl => exact fun a ha hdone => absurd hdone (h a ha)
  | @tail before _ _ hstep ih =>
    intro a ha hdone
    by_cases hbefore : a ∈ before
    · exact (ih a ha hbefore).mono hstep.1
    · exact (hstep.2 a hdone hbefore).2.mono hstep.1

/-- Of tasks without a cycle, all that need only each other can get done. -/
theorem run_all (hacyclic : Acyclic needs) {goal : Set α} (hfinite : goal.Finite)
    (htasks : goal ⊆ tasks) (hclosed : ∀ a ∈ goal, ∀ b ∈ tasks, needs a b → b ∈ goal) :
    ReflTransGen (Advance needs tasks) done (done ∪ goal) := by
  suffices h : ∀ n, ∀ done : Set α, (goal \ done).ncard = n →
      ReflTransGen (Advance needs tasks) done (done ∪ goal) from h _ done rfl
  intro n
  induction n with
  | zero =>
    intro done hn
    have hsub : goal ⊆ done := by
      rw [Set.ncard_eq_zero (hfinite.subset Set.sdiff_subset)] at hn
      exact Set.sdiff_eq_empty.1 hn
    rw [Set.union_eq_self_of_subset_right hsub]
  | succ n ih =>
    intro done hn
    have hne : (goal \ done).Nonempty := by
      rw [← Set.ncard_pos (hfinite.subset Set.sdiff_subset)]
      omega
    have : IsStrictOrder α fun b a => TransGen needs a b :=
      { irrefl := hacyclic, trans := fun a b c hab hbc => hbc.trans hab }
    have hwf := Set.wellFoundedOn_iff.1 (hfinite.wellFoundedOn (r := fun b a => TransGen needs a b))
    -- one that waits for no other of those that are left
    obtain ⟨a, ⟨ha, hnot⟩, hmin⟩ := hwf.has_min (goal \ done) hne
    have hstep : Advance needs tasks done (insert a done) := by
      refine ⟨Set.subset_insert a done, fun c hc hcnot => ?_⟩
      obtain rfl : c = a := (Set.mem_insert_iff.1 hc).resolve_right hcnot
      refine ⟨htasks ha, fun b hb hab => ?_⟩
      by_contra hbnot
      have hbgoal : b ∈ goal := hclosed c ha b hb hab
      exact hmin b ⟨hbgoal, hbnot⟩ ⟨.single hab, hbgoal, ha⟩
    have hcard : (goal \ insert a done).ncard = n := by
      have hdiff : goal \ insert a done = (goal \ done) \ {a} := by
        rw [Set.sdiff_sdiff, Set.union_singleton]
      have hmem : a ∈ goal \ done := ⟨ha, hnot⟩
      rw [hdiff, Set.ncard_sdiff_singleton_of_mem hmem, hn]
      omega
    have hunion : insert a done ∪ goal = done ∪ goal := by
      rw [Set.insert_union, Set.insert_eq_of_mem (.inr ha)]
    exact hunion ▸ (ih (insert a done) hcard).head hstep

/-- What waited for the replaced task waits for all the fresh ones exactly if the last of them leads
to each. -/
theorem Rewired.gated_iff {w : Rewired α} (hkept : Acyclic w.kept) (hacyclic : Acyclic w.needs)
    (hfinite : (w.old ∪ w.fresh).Finite) (hfresh : ∀ a ∈ w.fresh, a ∉ done) :
    (∀ done', ReflTransGen (Advance w.needs (w.old ∪ w.fresh)) done done' →
        ∀ d ∈ w.dependents, Ready w.needs (w.old ∪ w.fresh) done' d → w.fresh ⊆ done') ↔
      (w.dependents.Nonempty → ∀ v ∈ w.fresh, ReflTransGen w.added w.last v) := by
  constructor
  · rintro h ⟨d, hd⟩ v hv
    by_contra hnot
    have hforward : w.Forward := ((acyclic_iff hkept).1 hacyclic).2
    have hvold : v ∉ w.old := fun hvold => w.disjoint v hvold hv
    have hlast : ¬ ReflTransGen w.needs w.last v := by
      intro hlv
      obtain hlv | ⟨x, hx, hlx, hxv⟩ := from_any hlv
      · exact hnot hlv
      · exact not_from_last hforward hx hlx hvold hxv
    -- all that does not wait for `v` gets done
    let goal : Set α := {a | a ∈ w.old ∪ w.fresh ∧ ¬ ReflTransGen w.needs a v}
    have hrun : ReflTransGen (Advance w.needs (w.old ∪ w.fresh)) done (done ∪ goal) := by
      apply run_all hacyclic (hfinite.subset fun a ha => ha.1) fun a ha => ha.1
      exact fun a ha b hb hab => ⟨hb, fun hbv => ha.2 (.head hab hbv)⟩
    have hready : Ready w.needs (w.old ∪ w.fresh) (done ∪ goal) d := by
      intro b hb hdb
      refine .inr ⟨hb, fun hbv => hlast ?_⟩
      have hdv : TransGen w.needs d v := .head' hdb hbv
      obtain hk | ⟨y, -, -, hlv⟩ := from_old hdv (w.dependents_old hd)
      · obtain ⟨c, -, hcv⟩ := TransGen.tail'_iff.1 hk
        exact absurd (w.kept_old _ _ hcv).2 hvold
      · exact hlv
    obtain hdone | hgoal := h _ hrun d hd hready hv
    · exact hfresh v hv hdone
    · exact hgoal.2 .refl
  · intro h done' hrun d hd hready v hv
    have hclosed := ready_of_done hrun hfresh
    have hlast : w.last ∈ w.fresh := w.last_fresh ⟨d, hd⟩
    have hreach : ∀ b, ReflTransGen w.added w.last b → b ∈ w.fresh → b ∈ done' := by
      intro b hlb
      induction hlb with
      | refl => exact fun _ => hready _ (.inr hlast) (last_needed hd)
      | tail _ hxb ih =>
        intro hb
        have hx := w.added_fresh _ _ hxb
        exact hclosed _ hx (ih hx) _ (.inr hb) (.inl hxb)
    exact hreach v (h ⟨d, hd⟩ v hv) hv

end Runs

end Wazir.Rewiring
