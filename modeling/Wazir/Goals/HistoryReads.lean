import Wazir.Async.Local
import Wazir.Goals.Fencing
import Wazir.Goals.History

/-! Reading the history back. `transitions` lists the materialised keys first and reads the
envelope's batch later. With no commit in between it returns the whole history; with
commits in between it returns a prefix exactly when the keys it listed reach the batch. -/

namespace Wazir.Goals

open Wazir.Async

/-! What the two reads amount to. -/

theorem collected_lookup {listed : List StoredTransition} {batch : Option TransitionBatch}
    {H : List TargetTransition} (hlisted : ∀ st ∈ listed, H[st.seq - 1]? = some st.transition)
    (hbatch : ∀ b, batch = some b → 1 ≤ b.firstSeq ∧ b.transitions = H.drop (b.firstSeq - 1))
    (n : ℕ) (t : TargetTransition) :
    (GoalLedgerStore.collected listed batch).lookup n = some t ↔
      (n ∈ listed.map StoredTransition.seq ∨
        ∃ b, batch = some b ∧ b.firstSeq ≤ n ∧ n < b.firstSeq + b.transitions.length) ∧
      H[n - 1]? = some t := by
  have hkeys := lookup_foldl_insert (f := fun n => H[n - 1]?) (k := StoredTransition.seq)
    (v := StoredTransition.transition) hlisted ∅ n
  cases batch with
  | none =>
    simp only [GoalLedgerStore.collected, hkeys]
    split_ifs with hn <;> simp_all
  | some b =>
    obtain ⟨hpos, hdrop⟩ := hbatch b rfl
    have hzip : ∀ p ∈ b.transitions.zipIdx b.firstSeq, H[p.2 - 1]? = some p.1 := by
      intro p hp
      obtain ⟨hle, hget⟩ := List.mk_mem_zipIdx_iff_le_and_getElem?_sub.mp hp
      rw [hdrop, List.getElem?_drop] at hget
      rwa [show p.2 - 1 = b.firstSeq - 1 + (p.2 - b.firstSeq) by omega]
    have hnums : (b.transitions.zipIdx b.firstSeq).map (fun p => p.2) =
        List.range' b.firstSeq b.transitions.length := by
      simp
    simp only [GoalLedgerStore.collected, lookup_foldl_insert (f := fun n => H[n - 1]?) hzip, hkeys,
      hnums, List.mem_range'_1]
    split_ifs with hb hn <;> simp_all

variable {runId : GoalRunId}

theorem mem_listTransitions {s : LedgerShared} {st : StoredTransition} :
    st ∈ s.listTransitions runId ↔ ∃ seq, storedKeys s runId seq = some st := by
  simp only [LedgerShared.listTransitions, List.mem_map, List.mem_filter, decide_eq_true_eq]
  constructor
  · rintro ⟨⟨⟨id, seq⟩, st'⟩, ⟨hmem, rfl⟩, rfl⟩
    exact ⟨seq, AList.mem_lookup_iff.mpr hmem⟩
  · rintro ⟨seq, hst⟩
    exact ⟨⟨(runId, seq), st⟩, ⟨AList.mem_lookup_iff.mp hst, rfl⟩, rfl⟩

/-- A call that lists the keys in `s₁` and reads the envelope in `s₂`. -/
def readBetween (runId : GoalRunId) (s₁ s₂ : LedgerShared) : List (ℕ × TargetTransition) :=
  GoalLedgerStore.readHistory (s₁.listTransitions runId) (s₂.runs.lookup runId)

/-- The sequence numbers such a call finds. -/
def Found (runId : GoalRunId) (h₁ h₂ : LedgerHist) (n : ℕ) : Prop :=
  (storedKeys h₁.shared runId n).isSome ∨
  ∃ e b, h₂.shared.runs.lookup runId = some e ∧ e.lastBatch = some b ∧ b.firstSeq ≤ n ∧
    n ≤ (history runId h₂).length

section Reads

variable {runId : GoalRunId} {h₁ h₂ : LedgerHist}

theorem Found.pos {n : ℕ} (inv₁ : RunInv runId h₁) (inv₂ : RunInv runId h₂)
    (hn : Found runId h₁ h₂ n) : 1 ≤ n := by
  rcases hn with hs | ⟨e, b, he, hb, hle, -⟩
  · obtain ⟨st, hst⟩ := Option.isSome_iff_exists.mp hs
    exact (inv₁.stored n st hst).2.1
  · exact (inv₂.batch e b he hb).1.trans hle

theorem Found.le {n : ℕ} (inv₁ : RunInv runId h₁)
    (hH : history runId h₁ <+: history runId h₂) (hn : Found runId h₁ h₂ n) :
    n ≤ (history runId h₂).length := by
  rcases hn with hs | ⟨e, b, he, hb, -, hle⟩
  · obtain ⟨st, hst⟩ := Option.isSome_iff_exists.mp hs
    obtain ⟨-, hpos, hget⟩ := inv₁.stored n st hst
    have hlt := (List.getElem?_eq_some_iff.mp hget).1
    have := hH.length_le
    omega
  · exact hle

theorem mem_readBetween (inv₁ : RunInv runId h₁) (inv₂ : RunInv runId h₂)
    (hH : history runId h₁ <+: history runId h₂) (n : ℕ) (t : TargetTransition) :
    (n, t) ∈ readBetween runId h₁.shared h₂.shared ↔
      Found runId h₁ h₂ n ∧ (history runId h₂)[n - 1]? = some t := by
  have hlisted : ∀ st ∈ h₁.shared.listTransitions runId,
      (history runId h₂)[st.seq - 1]? = some st.transition := by
    intro st hst
    obtain ⟨seq, hseq⟩ := mem_listTransitions.mp hst
    obtain ⟨rfl, -, hget⟩ := inv₁.stored seq st hseq
    obtain ⟨rest, hrest⟩ := hH
    rw [← hrest, List.getElem?_append_left (List.getElem?_eq_some_iff.mp hget).1]
    exact hget
  have hbatch : ∀ b, (h₂.shared.runs.lookup runId).bind RunEnvelope.lastBatch = some b →
      1 ≤ b.firstSeq ∧ b.transitions = (history runId h₂).drop (b.firstSeq - 1) := by
    intro b hb
    obtain ⟨e, he, hb⟩ := Option.bind_eq_some_iff.mp hb
    obtain ⟨hpos, -, hdrop, -⟩ := inv₂.batch e b he hb
    exact ⟨hpos, hdrop⟩
  have hnum : (n ∈ (h₁.shared.listTransitions runId).map StoredTransition.seq ∨
      ∃ b, (h₂.shared.runs.lookup runId).bind RunEnvelope.lastBatch = some b ∧ b.firstSeq ≤ n ∧
        n < b.firstSeq + b.transitions.length) ↔ Found runId h₁ h₂ n := by
    refine or_congr ?_ ?_
    · rw [List.mem_map, Option.isSome_iff_exists]
      constructor
      · rintro ⟨st, hst, rfl⟩
        obtain ⟨seq, hseq⟩ := mem_listTransitions.mp hst
        obtain ⟨rfl, -⟩ := inv₁.stored seq st hseq
        exact ⟨st, hseq⟩
      · rintro ⟨st, hst⟩
        exact ⟨st, mem_listTransitions.mpr ⟨n, hst⟩, (inv₁.stored n st hst).1⟩
    · constructor
      · rintro ⟨b, hb, hle, hlt⟩
        obtain ⟨e, he, hb⟩ := Option.bind_eq_some_iff.mp hb
        obtain ⟨hpos, hfirst, hdrop, -⟩ := inv₂.batch e b he hb
        rw [hdrop, List.length_drop] at hlt
        exact ⟨e, b, he, hb, hle, by omega⟩
      · rintro ⟨e, b, he, hb, hle, hlt⟩
        obtain ⟨hpos, hfirst, hdrop, -⟩ := inv₂.batch e b he hb
        refine ⟨b, by simp [he, hb], hle, ?_⟩
        rw [hdrop, List.length_drop]
        omega
  have hlook := collected_lookup hlisted hbatch n t
  rw [hnum] at hlook
  simp only [readBetween, GoalLedgerStore.readHistory, List.mem_insertionSort, List.mem_filter,
    List.mem_map, decide_eq_true_eq]
  constructor
  · rintro ⟨⟨⟨k, t'⟩, hmem, hkv⟩, -⟩
    cases hkv
    exact hlook.mp (AList.mem_lookup_iff.mpr hmem)
  · intro hn
    refine ⟨⟨⟨n, t⟩, AList.mem_lookup_iff.mp (hlook.mpr hn), rfl⟩, ?_⟩
    cases he : h₂.shared.runs.lookup runId with
    | none =>
      have hnil := (inv₂.absent he).1
      simp [hnil] at hn
    | some e =>
      simp only [Option.map_some, Option.getD_some, inv₂.length e he]
      exact hn.1.le inv₁ hH

theorem readBetween_sorted (runId : GoalRunId) (s₁ s₂ : LedgerShared) :
    (readBetween runId s₁ s₂).Pairwise fun a b => a.1 < b.1 := by
  have hsorted : (readBetween runId s₁ s₂).Pairwise fun a b => a.1 ≤ b.1 := by
    have : Std.Total fun a b : ℕ × TargetTransition => a.1 ≤ b.1 := ⟨fun a b => le_total a.1 b.1⟩
    have : IsTrans (ℕ × TargetTransition) fun a b => a.1 ≤ b.1 := ⟨fun a b c => le_trans⟩
    exact List.pairwise_insertionSort _ _
  have hnodup : (readBetween runId s₁ s₂).Pairwise fun a b => a.1 ≠ b.1 := by
    refine ((List.perm_insertionSort _ _).pairwise_iff fun h => Ne.symm h).mpr ?_
    refine List.Pairwise.filter _ (List.pairwise_map.mpr ?_)
    exact List.nodupKeys_iff_pairwise.mp (AList.nodupKeys _)
  exact (hsorted.and hnodup).imp fun h => lt_of_le_of_ne h.1 h.2

theorem HistoryInv.keys_down {env : Option RunEnvelope} {keys : ℕ → Option StoredTransition}
    {H : List TargetTransition} {created : Option GoalRunLedger}
    (inv : HistoryInv env keys H created) {k n : ℕ} (hk : 1 ≤ k) (hkn : k ≤ n)
    (hn : (keys n).isSome) : (keys k).isSome := by
  induction n, hkn using Nat.le_induction with
  | base => exact hn
  | succ n hle ih => exact ih (inv.closed n (hk.trans hle) hn)

/-- A list of sequence numbers without a hole. -/
def GapFree (seqs : List ℕ) : Prop := ∀ n ∈ seqs, ∀ k, 1 ≤ k → k ≤ n → k ∈ seqs

/-- When the keys were listed, they reached the batch found later. -/
def Joined (runId : GoalRunId) (s₁ s₂ : LedgerShared) : Prop :=
  ∀ e b, s₂.runs.lookup runId = some e → e.lastBatch = some b →
    b.transitions = [] ∨ b.firstSeq = 1 ∨ (storedKeys s₁ runId (b.firstSeq - 1)).isSome

theorem mem_seqs (inv₁ : RunInv runId h₁) (inv₂ : RunInv runId h₂)
    (hH : history runId h₁ <+: history runId h₂) (n : ℕ) :
    n ∈ (readBetween runId h₁.shared h₂.shared).map Prod.fst ↔ Found runId h₁ h₂ n := by
  simp only [List.mem_map, Prod.exists, exists_and_right, exists_eq_right]
  constructor
  · rintro ⟨t, ht⟩
    exact ((mem_readBetween inv₁ inv₂ hH n t).mp ht).1
  · intro hn
    have hlt : n - 1 < (history runId h₂).length := by
      have := hn.pos inv₁ inv₂
      have := hn.le inv₁ hH
      omega
    exact ⟨_, (mem_readBetween inv₁ inv₂ hH n _).mpr ⟨hn, List.getElem?_eq_getElem hlt⟩⟩

theorem gapFree_iff_joined (inv₁ : RunInv runId h₁) (inv₂ : RunInv runId h₂)
    (hH : history runId h₁ <+: history runId h₂) :
    GapFree ((readBetween runId h₁.shared h₂.shared).map Prod.fst) ↔ Joined runId h₁.shared h₂.shared := by
  simp only [GapFree, mem_seqs inv₁ inv₂ hH]
  constructor
  · intro gap e b he hb
    obtain ⟨hpos, hfirst, hdrop, -⟩ := inv₂.batch e b he hb
    by_contra hno
    simp only [not_or] at hno
    obtain ⟨hne, hone, hkey⟩ := hno
    have hle : b.firstSeq ≤ (history runId h₂).length := by
      have := List.length_pos_iff.mpr hne
      rw [hdrop, List.length_drop] at this
      omega
    rcases gap _ (.inr ⟨e, b, he, hb, hle, le_rfl⟩) (b.firstSeq - 1) (by omega) (by omega) with
      hs | ⟨e', b', he', hb', hle', -⟩
    · exact hkey hs
    · rw [he] at he'
      cases he'
      rw [hb] at hb'
      cases hb'
      omega
  · intro joined n hn k hk hkn
    rcases hn with hs | ⟨e, b, he, hb, hle, hlen⟩
    · exact .inl (inv₁.keys_down hk hkn hs)
    by_cases hkb : b.firstSeq ≤ k
    · exact .inr ⟨e, b, he, hb, hkb, hkn.trans hlen⟩
    rcases joined e b he hb with hnil | hone | hkey
    · obtain ⟨hpos, hfirst, hdrop, -⟩ := inv₂.batch e b he hb
      rw [hnil] at hdrop
      have := List.drop_eq_nil_iff.mp hdrop.symm
      omega
    · omega
    · exact .inl (inv₁.keys_down hk (by omega) hkey)

/-- Without a hole, the read is the beginning of the history. -/
theorem readBetween_take (inv₁ : RunInv runId h₁) (inv₂ : RunInv runId h₂)
    (hH : history runId h₁ <+: history runId h₂)
    (gap : GapFree ((readBetween runId h₁.shared h₂.shared).map Prod.fst)) :
    ∃ m, (∀ n, Found runId h₁ h₂ n → n ≤ m) ∧
      (readBetween runId h₁.shared h₂.shared).map Prod.snd = (history runId h₂).take m := by
  classical
  simp only [GapFree, mem_seqs inv₁ inv₂ hH] at gap
  set m := Nat.findGreatest (Found runId h₁ h₂) (history runId h₂).length with hm
  have hmax : ∀ n, Found runId h₁ h₂ n → n ≤ m := fun n hn =>
    Nat.le_findGreatest (hn.le inv₁ hH) hn
  refine ⟨m, hmax, ?_⟩
  have hfound : ∀ n, 1 ≤ n → n ≤ m → Found runId h₁ h₂ n := fun n hpos hle =>
    gap m (Nat.findGreatest_of_ne_zero hm.symm (by omega)) n hpos hle
  have heq : readBetween runId h₁.shared h₂.shared =
      (((history runId h₂).take m).zipIdx 1).map fun p => (p.2, p.1) := by
    have : Std.Antisymm fun a b : ℕ × TargetTransition => a.1 < b.1 :=
      ⟨fun a b h h' => absurd h' h.asymm⟩
    have : Std.Irrefl fun a b : ℕ × TargetTransition => a.1 < b.1 := ⟨fun a => lt_irrefl a.1⟩
    refine List.Pairwise.eq_of_mem_iff (readBetween_sorted runId h₁.shared h₂.shared) ?_ ?_
    · have hrange : ((((history runId h₂).take m).zipIdx 1).map Prod.snd).Pairwise (· < ·) := by
        rw [List.zipIdx_map_snd]
        exact List.pairwise_lt_range'
      exact List.pairwise_map.mpr (List.pairwise_map.mp hrange)
    · rintro ⟨n, t⟩
      rw [mem_readBetween inv₁ inv₂ hH]
      simp only [List.mem_map, Prod.mk.injEq, Prod.exists,
        List.mk_mem_zipIdx_iff_le_and_getElem?_sub, List.getElem?_take]
      constructor
      · rintro ⟨hn, ht⟩
        have := hn.pos inv₁ inv₂
        have := hmax n hn
        exact ⟨t, n, ⟨by omega, by rwa [if_pos (by omega)]⟩, rfl, rfl⟩
      · rintro ⟨t', n', ⟨hpos, ht⟩, rfl, rfl⟩
        split_ifs at ht
        exact ⟨hfound _ hpos (by omega), ht⟩
  rw [heq, List.map_map]
  exact List.zipIdx_map_fst 1 _

end Reads

/-! The two reads of a finished call. -/

variable {es : List LedgerEntry}

theorem readEnvelope_ends {env : Option RunEnvelope}
    (h : Ends (GoalLedgerStore.readEnvelope runId) es (.ok env)) :
    ∃ i c inp before after, es = [⟨i, c, .getRun runId, inp, .ok env, before, after⟩] := by
  obtain ⟨i, c, inp, r, before, after, rest, rfl, hrest⟩ := Ends.call_iff.mp h
  refine ⟨i, c, inp, before, after, ?_⟩
  cases r with
  | error x => cases hrest
  | ok env' =>
    cases env' with
    | none =>
      obtain ⟨rfl, heq⟩ := Ends.ret_iff.mp hrest
      cases heq
      rfl
    | some e =>
      simp only [Prog.resume_ok, Prog.bind_ret] at hrest
      split_ifs at hrest
      · cases (Ends.resume_iff.mp hrest).2
      · obtain ⟨rfl, heq⟩ := Ends.ret_iff.mp hrest
        cases heq
        rfl

variable {ts : List TargetTransition}

theorem transitions_ends (h : Ends (GoalLedgerStore.transitions runId none) es (.ok ts)) :
    ∃ e₁ e₂ listed env, es = [e₁, e₂] ∧
      (∃ i c inp before after, e₁ = ⟨i, c, .listTransitions runId, inp, .ok listed, before, after⟩) ∧
      (∃ i c inp before after, e₂ = ⟨i, c, .getRun runId, inp, .ok env, before, after⟩) ∧
      ts = (GoalLedgerStore.readHistory listed env).map Prod.snd := by
  obtain ⟨i, c, inp, r, before, after, rest, rfl, hrest⟩ := Ends.call_iff.mp h
  cases r with
  | error x => cases hrest
  | ok listed =>
    simp only [Prog.resume_ok, Prog.bind_ret, Prog.bind_def] at hrest
    rcases Ends.bind_iff.mp hrest with ⟨x, hx, -⟩ | ⟨es₁, es₂, env, rfl, henv, hret⟩
    · cases hx
    obtain ⟨rfl, heq⟩ := Ends.ret_iff.mp hret
    obtain ⟨i', c', inp', before', after', rfl⟩ := readEnvelope_ends henv
    cases heq
    exact ⟨_, _, listed, env, rfl, ⟨i, c, inp, before, after, rfl⟩,
      ⟨i', c', inp', before', after', rfl⟩, by simp⟩

variable {cfg : LedgerConfig}

/-- A finished call lists the keys in one history the run came through and reads the envelope
in a later one. -/
theorem transitions_reads (hr : Reach ledgerSystem emptyStore cfg) {i process : ℕ}
    (ht : cfg.threads[i]? = some ⟨⟨process, .transitions runId none⟩, some (.ret (.history ts))⟩) :
    ∃ e₁ e₂ pre mid post cfg₁ cfg₂, cfg.hist.entriesOf i = [e₁, e₂] ∧
      cfg.hist.events = pre ++ .ran e₁ :: (mid ++ .ran e₂ :: post) ∧ e₁.thread = i ∧
      commitsTo runId e₁ = false ∧ Reach ledgerSystem emptyStore cfg₁ ∧ cfg₁.hist = ⟨pre, e₁.before⟩ ∧
      Relation.ReflTransGen (Step ledgerSystem) cfg₁ cfg₂ ∧
      cfg₂.hist = ⟨pre ++ .ran e₁ :: mid, e₂.before⟩ ∧
      ts = (readBetween runId e₁.before e₂.before).map Prod.snd := by
  obtain ⟨r, hr', hends⟩ := Ends.map_iff.mp (hr.ends (o := .ok (.history ts)) ht)
  cases r with
  | error x => cases hr'
  | ok ts' =>
    cases hr'
    obtain ⟨e₁, e₂, listed, env, hes, ⟨i₁, c₁, inp₁, b₁, a₁, rfl⟩, ⟨i₂, c₂, inp₂, b₂, a₂, rfl⟩, rfl⟩ :=
      transitions_ends hends
    obtain ⟨pre, rest, hev₁, hthread, hes₂⟩ := Hist.split_entriesOf hes
    obtain ⟨mid, post, hev₂, -, -⟩ := Hist.split_entriesOf hes₂
    simp only at hev₂
    subst hev₂
    have hev₂ : cfg.hist.events = (pre ++ .ran ⟨i₁, c₁, .listTransitions runId, inp₁, .ok listed, b₁, a₁⟩
        :: mid) ++ .ran ⟨i₂, c₂, .getRun runId, inp₂, .ok env, b₂, a₂⟩ :: post := by
      rw [hev₁, List.append_assoc, List.cons_append]
    obtain ⟨cfg₂, hr₂, hh₂, hx₂, -⟩ := hr.ran hev₂
    obtain ⟨cfg₁, hr₁, hh₁, hx₁, hsteps⟩ := hr₂.ran (congrArg Hist.events hh₂)
    refine ⟨_, _, pre, mid, post, cfg₁, cfg₂, hes, hev₁, hthread, rfl, hr₁, hh₁, hsteps, hh₂,
      ?_⟩
    simp only [ledgerSystem, Option.some.injEq] at hx₁ hx₂
    have hlisted : b₁.listTransitions runId = listed := guarded_ok (congrArg Prod.fst hx₁)
    have henv : b₂.runs.lookup runId = env := guarded_ok (congrArg Prod.fst hx₂)
    rw [readBetween, hlisted, henv]

variable {cfg cfg' : LedgerConfig}

theorem grows_later (runId : GoalRunId) (hr : Reach ledgerSystem emptyStore cfg)
    (h : Relation.ReflTransGen (Step ledgerSystem) cfg cfg') :
    Grows runId cfg.hist cfg'.hist ∧ Reach ledgerSystem emptyStore cfg' := by
  refine hr.later (Grows.refl runId) (fun _ _ _ => Grows.trans) (fun c c' _ hs => ?_) h
  cases hs with
  | begin d s _ admitted =>
    cases admitted
    exact ⟨by simp [history], fun _ hs => hs, fun e he => ⟨e, he, .inr ⟨rfl, rfl⟩⟩⟩
  | run j d op next inp r s _ hx => exact grows_ran (by simpa [ledgerSystem] using hx) runId
  | crash p => exact ⟨by simp [history], fun _ hs => hs, fun e he => ⟨e, he, .inr ⟨rfl, rfl⟩⟩⟩

theorem history_append {h : LedgerHist} {pre post : List _} (he : h.events = pre ++ post)
    (s : LedgerShared) :
    history runId h = history runId ⟨pre, s⟩ ++ history runId ⟨post, s⟩ := by
  simp [history, Hist.entries, he]

/-- A `transitions` call returns the sequence numbers it found without a hole exactly when the
keys it listed reach the batch it read, and then its result is a prefix of the history. -/
theorem transitions_gapFree_iff {cfg : LedgerConfig} (hr : Reach ledgerSystem emptyStore cfg)
    {i process : ℕ} {runId : GoalRunId} {ts : List TargetTransition}
    (ht : cfg.threads[i]? = some ⟨⟨process, .transitions runId none⟩, some (.ret (.history ts))⟩) :
    ∃ e₁ e₂, cfg.hist.entriesOf i = [e₁, e₂] ∧
      ts = (readBetween runId e₁.before e₂.before).map Prod.snd ∧
      (GapFree ((readBetween runId e₁.before e₂.before).map Prod.fst) ↔
        Joined runId e₁.before e₂.before) ∧
      (Joined runId e₁.before e₂.before → ts <+: history runId cfg.hist) := by
  obtain ⟨e₁, e₂, pre, mid, post, cfg₁, cfg₂, hes, hev, -, -, hr₁, hh₁, hsteps, hh₂, rfl⟩ :=
    transitions_reads hr ht
  obtain ⟨hg, hr₂⟩ := grows_later runId hr₁ hsteps
  have inv₁ := runInv_reach hr₁ runId
  have inv₂ := runInv_reach hr₂ runId
  have hgap := gapFree_iff_joined inv₁ inv₂ hg.history
  have htake := readBetween_take inv₁ inv₂ hg.history
  rw [hh₁, hh₂] at hgap htake
  refine ⟨e₁, e₂, hes, rfl, hgap, fun joined => ?_⟩
  obtain ⟨m, -, hm⟩ := htake (hgap.mpr joined)
  rw [hm]
  refine (List.take_prefix m _).trans ?_
  have hev' : cfg.hist.events = (pre ++ .ran e₁ :: mid) ++ .ran e₂ :: post := by
    rw [hev, List.append_assoc, List.cons_append]
  rw [history_append hev' e₂.before]
  exact List.prefix_append ..

/-! With no commit in between. -/

theorem committedBatch_of_not_commit {e : LedgerEntry} (h : commitsTo runId e = false) :
    committedBatch runId e = [] := by
  obtain ⟨i, c, op, inp, r, before, after⟩ := e
  cases op with
  | updateRun id u =>
    cases r with
    | error x => rfl
    | ok out =>
      by_cases hid : id = runId
      · cases u <;> simp_all [commitsTo, committedBatch, batchOf, RunUpdate.isCommit]
      · simp [committedBatch, hid]
  | _ => rfl

/-- From `h` to `h'`, as long as nobody commits, the latest batch stays. -/
def BatchKept (runId : GoalRunId) (h h' : LedgerHist) : Prop :=
  ∃ post, h'.events = h.events ++ post ∧
    ((∀ e, .ran e ∈ post → commitsTo runId e = false) → ∀ e, h.shared.runs.lookup runId = some e →
      ∃ e', h'.shared.runs.lookup runId = some e' ∧ e'.lastBatch = e.lastBatch)

theorem batchKept_later (runId : GoalRunId) (hr : Reach ledgerSystem emptyStore cfg)
    (h : Relation.ReflTransGen (Step ledgerSystem) cfg cfg') :
    BatchKept runId cfg.hist cfg'.hist := by
  refine (hr.later (R := BatchKept runId) ?_ ?_ ?_ h).1
  · exact fun h => ⟨[], by simp, fun _ e he => ⟨e, he, rfl⟩⟩
  · rintro h₁ h₂ h₃ ⟨p, hp, hk⟩ ⟨p', hp', hk'⟩
    refine ⟨p ++ p', by rw [hp', hp, List.append_assoc], fun hquiet e he => ?_⟩
    obtain ⟨e₂, he₂, hb₂⟩ := hk (fun x hx => hquiet x (List.mem_append_left _ hx)) e he
    obtain ⟨e₃, he₃, hb₃⟩ := hk' (fun x hx => hquiet x (List.mem_append_right _ hx)) e₂ he₂
    exact ⟨e₃, he₃, hb₃.trans hb₂⟩
  · intro c c' _ hs
    cases hs with
    | begin d s _ admitted =>
      cases admitted
      exact ⟨_, rfl, fun _ e he => ⟨e, he, rfl⟩⟩
    | run j d op next inp r s _ hx =>
      have hx' : ledgerExec op inp c.hist.shared = (r, s) := by simpa [ledgerSystem] using hx
      refine ⟨_, rfl, fun hquiet e he => ?_⟩
      have hnot := hquiet _ (List.mem_singleton.mpr rfl)
      obtain ⟨new, hnew, hrev⟩ := revision_entry (e := ⟨j, d, op, inp, r, c.hist.shared, s⟩) hx' he
      obtain ⟨e', he', hlater | ⟨-, hb⟩⟩ := (grows_ran (i := j) (c := d) hx' runId).envelope e he
      · rw [hnot] at hrev
        cases hnew.symm.trans he'
        simp at hrev
        omega
      · exact ⟨e', he', hb⟩
    | crash p => exact ⟨_, rfl, fun _ e he => ⟨e, he, rfl⟩⟩

theorem history_quiet {h : LedgerHist} {pre post : List _} (he : h.events = pre ++ post)
    (hquiet : ∀ e, .ran e ∈ post → commitsTo runId e = false) (s : LedgerShared) :
    history runId h = history runId ⟨pre, s⟩ := by
  have hnil : history runId ⟨post, s⟩ = [] := by
    refine List.flatMap_eq_nil_iff.mpr fun e hmem => committedBatch_of_not_commit (hquiet e ?_)
    obtain ⟨p, q, hpq⟩ := Hist.mem_entries hmem
    simp only at hpq
    simp [hpq]
  rw [history_append he s, hnil, List.append_nil]

/-- A batch that was there when the keys were listed leaves no gap to them. -/
theorem found_last {h₁ h₂ : LedgerHist} (inv₁ : RunInv runId h₁) (inv₂ : RunInv runId h₂)
    (hH : history runId h₂ = history runId h₁) (kept : ∀ e, h₁.shared.runs.lookup runId = some e →
      ∃ e', h₂.shared.runs.lookup runId = some e' ∧ e'.lastBatch = e.lastBatch) :
    Joined runId h₁.shared h₂.shared ∧ (history runId h₂ = [] ∨
      Found runId h₁ h₂ (history runId h₂).length) := by
  have hfull : ∀ e b, h₂.shared.runs.lookup runId = some e → e.lastBatch = some b →
      b.firstSeq = 1 ∨ (storedKeys h₁.shared runId (b.firstSeq - 1)).isSome := by
    intro e b he hb
    obtain ⟨hpos, hfirst, -, -⟩ := inv₂.batch e b he hb
    cases he₁ : h₁.shared.runs.lookup runId with
    | none =>
      rw [hH, (inv₁.absent he₁).1, List.length_nil] at hfirst
      exact .inl (by omega)
    | some e₁ =>
      obtain ⟨e', he', hb'⟩ := kept e₁ he₁
      cases he.symm.trans he'
      obtain ⟨-, -, -, hkeys⟩ := inv₁.batch e₁ b he₁ (hb' ▸ hb)
      by_cases hone : b.firstSeq = 1
      · exact .inl hone
      · exact .inr (hkeys _ (by omega) (by omega))
  refine ⟨fun e b he hb => .inr (hfull e b he hb), ?_⟩
  by_cases hnil : history runId h₂ = []
  · exact .inl hnil
  refine .inr ?_
  have hlen := List.length_pos_iff.mpr hnil
  cases he : h₂.shared.runs.lookup runId with
  | none => exact absurd (inv₂.absent he).1 hnil
  | some e =>
    cases hb : e.lastBatch with
    | none => exact absurd (inv₂.noBatch e he hb) hnil
    | some b =>
      obtain ⟨-, hfirst, -, -⟩ := inv₂.batch e b he hb
      by_cases hle : b.firstSeq ≤ (history runId h₂).length
      · exact .inr ⟨e, b, he, hb, hle, le_rfl⟩
      · rcases hfull e b he hb with hone | hkey
        · omega
        · rw [show b.firstSeq - 1 = (history runId h₂).length by omega] at hkey
          exact .inl hkey

theorem transitions_returned (hr : Reach ledgerSystem emptyStore cfg) {i process : ℕ}
    (ht : cfg.threads[i]? = some ⟨⟨process, .transitions runId none⟩, some (.ret (.history ts))⟩)
    (quiet : ∀ e ∈ cfg.hist.since i, commitsTo runId e = false) :
    ts = history runId cfg.hist ∧ ∀ env, cfg.hist.shared.runs.lookup runId = some env →
      ts.length = env.transitionSeq ∧ ∃ ledger, created runId cfg.hist = some ledger ∧
        replay ledger.statusOf ts = some env.ledger.statusOf := by
  obtain ⟨e₁, e₂, pre, mid, post, cfg₁, cfg₂, hes, hev, hthread, hread, hr₁, hh₁, hsteps, hh₂, hts⟩ :=
    transitions_reads hr ht
  obtain ⟨hg, hr₂⟩ := grows_later runId hr₁ hsteps
  have inv₁ := runInv_reach hr₁ runId
  have inv₂ := runInv_reach hr₂ runId
  have inv := runInv_reach hr runId
  have hlater : ∀ e, .ran e ∈ mid ++ .ran e₂ :: post → commitsTo runId e = false :=
    fun e he => quiet e (Hist.mem_since hev hthread he)
  have hmid : ∀ e, .ran e ∈ Event.ran e₁ :: mid → commitsTo runId e = false := fun e he => by
    rcases List.mem_cons.mp he with heq | he
    · cases heq
      exact hread
    · exact hlater e (List.mem_append_left _ he)
  have hev₂ : cfg.hist.events = (pre ++ .ran e₁ :: mid) ++ .ran e₂ :: post := by
    rw [hev, List.append_assoc, List.cons_append]
  have hH : history runId cfg.hist = history runId cfg₂.hist := by
    rw [hh₂]
    exact history_quiet hev₂ (fun e he => hlater e (List.mem_append_right _ he)) _
  have hH₂ : history runId cfg₂.hist = history runId cfg₁.hist := by
    rw [hh₁]
    exact history_quiet (congrArg Hist.events hh₂) hmid _
  obtain ⟨p, hp, kept⟩ := batchKept_later runId hr₁ hsteps
  have hpost : p = .ran e₁ :: mid := by
    rw [hh₁, hh₂] at hp
    exact (List.append_cancel_left hp).symm
  obtain ⟨joined, hlast⟩ := found_last inv₁ inv₂ hH₂ (kept (hpost ▸ hmid))
  obtain ⟨m, hmax, htake⟩ := readBetween_take inv₁ inv₂ hg.history
    ((gapFree_iff_joined inv₁ inv₂ hg.history).mpr joined)
  have hall : ts = history runId cfg.hist := by
    rw [hts, hH, ← show cfg₁.hist.shared = e₁.before by rw [hh₁],
      ← show cfg₂.hist.shared = e₂.before by rw [hh₂], htake]
    rcases hlast with hnil | hfound
    · simp [hnil]
    · exact List.take_of_length_le (hmax _ hfound)
  refine ⟨hall, fun env henv => ?_⟩
  rw [hall]
  exact ⟨(inv.length env henv).symm, inv.replays env henv⟩

theorem RunUpdate.apply_version {u : RunUpdate} {now : JsDate} {current : Option RunEnvelope}
    {out : Option RunEnvelope × Option StoredLease}
    (hv : ∀ e, current = some e → e.v = ledgerEnvelopeVersion)
    (h : u.apply runId now current = .ok out) :
    ∀ e, out.1 = some e → e.v = ledgerEnvelopeVersion := by
  cases u with
  | create ledger =>
    obtain ⟨e, he, rfl⟩ := except_map_eq_ok.mp h
    obtain ⟨-, rfl⟩ := createUpdate_ok he
    rintro _ ⟨⟩
    rfl
  | commit expectedRevision lease mutate transitions =>
    obtain ⟨e, he, rfl⟩ := except_map_eq_ok.mp h
    obtain ⟨old, draft, stampedAt, rfl, -, -, -, -, -, -, rfl⟩ := commitUpdate_ok he
    rintro _ ⟨⟩
    exact hv old rfl
  | acquire holderId ttlMs =>
    obtain ⟨e, he, rfl⟩ := except_map_eq_ok.mp h
    obtain ⟨old, rfl, rfl | ⟨lease, -, -, -, rfl⟩⟩ := acquireUpdate_ok he <;>
      · rintro _ ⟨⟩
        exact hv old rfl
  | renew lease ttlMs =>
    obtain ⟨e, he, rfl⟩ := except_map_eq_ok.mp h
    obtain ⟨old, held, expiresAt, rfl, -, -, -, -, rfl⟩ := renewUpdate_ok he
    rintro _ ⟨⟩
    exact hv old rfl
  | release lease =>
    obtain ⟨e, he, rfl⟩ := except_map_eq_ok.mp h
    obtain rfl | ⟨old, held, expiresAt, rfl, -, -, -, -, rfl⟩ := releaseUpdate_ok he
    · exact hv
    · rintro _ ⟨⟩
      exact hv old rfl

theorem version_reach (hr : Reach ledgerSystem emptyStore cfg) :
    ∀ runId env, cfg.hist.shared.runs.lookup runId = some env → env.v = ledgerEnvelopeVersion := by
  refine Reach.invariant (I := fun h => ∀ runId env, h.shared.runs.lookup runId = some env →
    env.v = ledgerEnvelopeVersion) ?_ ?_ ?_ ?_ hr
  · simp [emptyStore]
  · rintro h i c s hi ⟨⟩
    exact hi
  · intro h i c op inp r s hi hx runId env henv
    have hx' : ledgerExec op inp h.shared = (r, s) := by simpa [ledgerSystem] using hx
    rcases ledgerEntry_cases (e := ⟨i, c, op, inp, r, h.shared, s⟩) hx' with
      ⟨-, hruns⟩ | ⟨j, d, id, u, inp', out, before, heq, hu, hl⟩
    · exact hi runId env (hruns ▸ henv)
    cases heq
    by_cases hid : runId = id
    · subst hid
      exact RunUpdate.apply_version (hi runId) hu env (hl.symm.trans henv)
    · exact hi runId env (by simpa [LedgerShared.setRun_other _ _ hid] using henv)
  · exact fun h p hi => hi

theorem readEnvelope_raises {x : Thrown}
    (h : Ends (GoalLedgerStore.readEnvelope runId) es (.error x)) :
    ∃ i c inp r before after, es = [⟨i, c, .getRun runId, inp, r, before, after⟩] ∧
      (r = .error x ∨ ∃ env, r = .ok (some env) ∧ env.v ≠ ledgerEnvelopeVersion) := by
  obtain ⟨i, c, inp, r, before, after, rest, rfl, hrest⟩ := Ends.call_iff.mp h
  cases r with
  | error y =>
    obtain ⟨rfl, hx⟩ := Ends.raise_iff.mp hrest
    cases hx
    exact ⟨i, c, inp, _, before, after, rfl, .inl rfl⟩
  | ok env =>
    cases env with
    | none => cases (Ends.ret_iff.mp hrest).2
    | some e =>
      simp only [Prog.resume_ok, Prog.bind_ret] at hrest
      split_ifs at hrest with hv
      · obtain ⟨rfl, -⟩ := Ends.resume_iff.mp hrest
        exact ⟨i, c, inp, _, before, after, rfl, .inr ⟨e, rfl, hv⟩⟩
      · cases (Ends.ret_iff.mp hrest).2

/-- `transitions` fails only where the store does. -/
theorem transitions_raised (hr : Reach ledgerSystem emptyStore cfg) {i process : ℕ} {x : Thrown}
    (ht : cfg.threads[i]? = some ⟨⟨process, .transitions runId none⟩, some (.raise x)⟩) :
    ∃ e ∈ cfg.hist.entriesOf i, e.input.fault = some x := by
  obtain ⟨r, hr', hends⟩ := Ends.map_iff.mp (hr.ends (o := .error x) ht)
  have hx : ∀ e ∈ cfg.hist.entriesOf i, ledgerExec e.op e.input e.before = (e.res, e.after) :=
    fun e he => ledger_executed hr (List.mem_of_mem_filter he)
  cases r with
  | ok ts => cases hr'
  | error y =>
    cases hr'
    obtain ⟨j, c, inp, r, before, after, rest, hes, hrest⟩ := Ends.call_iff.mp hends
    rw [hes] at hx ⊢
    cases r with
    | error y =>
      obtain ⟨rfl, hy⟩ := Ends.raise_iff.mp hrest
      cases hy
      exact ⟨_, List.mem_cons_self .., guarded_error (congrArg Prod.fst (hx _ (List.mem_cons_self ..)))⟩
    | ok listed =>
      simp only [Prog.resume_ok, Prog.bind_ret, Prog.bind_def] at hrest
      rcases Ends.bind_iff.mp hrest with ⟨y, hy, henv⟩ | ⟨_, _, _, -, -, hret⟩
      · cases hy
        obtain ⟨j', c', inp', r', before', after', rfl, hr'⟩ := readEnvelope_raises henv
        have hread := congrArg Prod.fst (hx _ (List.mem_cons_of_mem _ (List.mem_cons_self ..)))
        rcases hr' with rfl | ⟨env, rfl, hv⟩
        · exact ⟨_, List.mem_cons_of_mem _ (List.mem_cons_self ..), guarded_error hread⟩
        · have hmem : (⟨j', c', .getRun runId, inp', .ok (some env), before', after'⟩ : LedgerEntry) ∈
              cfg.hist.entries := List.mem_of_mem_filter (p := fun e => e.thread = i) (by
            rw [show List.filter _ cfg.hist.entries = _ from hes]
            simp)
          obtain ⟨pre, post, hsplit⟩ := Hist.mem_entries hmem
          obtain ⟨cfg₁, hr₁, hh₁, -, -⟩ := hr.ran hsplit
          have hver := version_reach hr₁ runId env
          rw [hh₁] at hver
          exact absurd (hver (guarded_ok hread)) hv
      · cases (Ends.ret_iff.mp hret).2

/-- When no commit goes through after the call began, `transitions` returns the whole
history: one transition for each sequence number, leading from the statuses `createRun`
assigned to those of the ledger. It throws only what the store throws. -/
theorem transitions_complete {cfg : LedgerConfig} (hr : Reach ledgerSystem emptyStore cfg)
    {i process : ℕ} {runId : GoalRunId} {o : Except Thrown LedgerReply}
    (ht : cfg.threads[i]? = some ⟨⟨process, .transitions runId none⟩, some (.resume o)⟩)
    (quiet : ∀ e ∈ cfg.hist.since i, commitsTo runId e = false) :
    (∃ e ∈ cfg.hist.entriesOf i, ∃ x, e.input.fault = some x ∧ o = .error x) ∨
    ∃ ts, o = .ok (.history ts) ∧ ts = history runId cfg.hist ∧
      ∀ env, cfg.hist.shared.runs.lookup runId = some env →
        ts.length = env.transitionSeq ∧ ∃ ledger, created runId cfg.hist = some ledger ∧
          replay ledger.statusOf ts = some env.ledger.statusOf := by
  cases o with
  | error x =>
    obtain ⟨e, he, hfault⟩ := transitions_raised hr ht
    exact .inl ⟨e, he, x, hfault, rfl⟩
  | ok reply =>
    obtain ⟨r, hr', -⟩ := Ends.map_iff.mp (hr.ends ht)
    cases r with
    | error x => cases hr'
    | ok ts =>
      cases hr'
      exact .inr ⟨ts, rfl, transitions_returned hr ht quiet⟩

/-! Two runs of one target: the first commit's process crashes before its batch is
materialised, and two commits between the two reads of one call. -/

def startTarget : TargetTransition :=
  ⟨"run-1", "t", .eligible, .active, "start", "controller", none, none, none⟩

def failTarget : TargetTransition :=
  ⟨"run-1", "t", .active, .failed, "exit 1", "controller", none, none, none⟩

def moveTarget (status : TargetStatus) (l : GoalRunLedger) : Except Thrown GoalRunLedger :=
  match l.targets.lookup "t" with
  | some entry => .ok { l with targets := l.targets.insert "t" { entry with status := status } }
  | none => .ok l

def crashedCommit : List (Action LedgerRequest ℕ LedgerInput) :=
  acquired ++
    [.begin ⟨0, .commit "run-1" 1 leaseOne (moveTarget .active) [startTarget]⟩,
      stepAt 2 6, stepAt 2 6, stepAt 2 7, .crash 0,
      .begin ⟨1, .transitions "run-1" none⟩, stepAt 3 8, stepAt 3 9]

theorem transitions_complete_crash : ∃ cfg ts, Reach ledgerSystem emptyStore cfg ∧
    (∃ e ∈ cfg.hist.entries, commitsTo "run-1" e = true) ∧
    cfg.threads[3]? = some ⟨⟨1, .transitions "run-1" none⟩, some (.ret (.history ts))⟩ ∧
    ts = history "run-1" cfg.hist := by
  have h : ∃ cfg ts, schedule ledgerSystem crashedCommit (.start emptyStore) = some cfg ∧
      cfg.threads[3]? = some ⟨⟨1, .transitions "run-1" none⟩, some (.ret (.history ts))⟩ ∧
      (∃ e ∈ cfg.hist.entries, commitsTo "run-1" e = true) ∧
      ∀ e ∈ cfg.hist.since 3, commitsTo "run-1" e = false := ⟨_, _, rfl, rfl, by decide, by decide⟩
  obtain ⟨cfg, ts, hrun, ht, hcommit, quiet⟩ := h
  have hr := schedule_reach .start hrun
  refine ⟨cfg, ts, hr, hcommit, ht, ?_⟩
  rcases transitions_complete (o := .ok (.history ts)) hr ht quiet with ⟨e, -, x, -, hx⟩ | ⟨ts', hts, h, -⟩
  · cases hx
  · cases hts
    exact h

theorem transitions_gapFree_crash : ∃ cfg ts e₁ e₂, Reach ledgerSystem emptyStore cfg ∧
    cfg.threads[3]? = some ⟨⟨1, .transitions "run-1" none⟩, some (.ret (.history ts))⟩ ∧
    cfg.hist.entriesOf 3 = [e₁, e₂] ∧ Joined "run-1" e₁.before e₂.before ∧
    GapFree ((readBetween "run-1" e₁.before e₂.before).map Prod.fst) ∧
    ts <+: history "run-1" cfg.hist := by
  have h : ∃ cfg ts e₁ e₂, schedule ledgerSystem crashedCommit (.start emptyStore) = some cfg ∧
      cfg.threads[3]? = some ⟨⟨1, .transitions "run-1" none⟩, some (.ret (.history ts))⟩ ∧
      cfg.hist.entriesOf 3 = [e₁, e₂] ∧ ((e₂.before.runs.lookup "run-1").bind
        RunEnvelope.lastBatch).map TransitionBatch.firstSeq = some 1 :=
    ⟨_, _, _, _, rfl, rfl, rfl, by decide⟩
  obtain ⟨cfg, ts, e₁, e₂, hrun, ht, hes, hfirst⟩ := h
  have hr := schedule_reach .start hrun
  have joined : Joined "run-1" e₁.before e₂.before := fun e b he hb => by
    rw [he, Option.bind_some, hb] at hfirst
    exact .inr (.inl (Option.some.inj hfirst))
  obtain ⟨_, _, hes', -, hiff, hbefore⟩ := transitions_gapFree_iff hr ht
  cases hes.symm.trans hes'
  exact ⟨cfg, ts, e₁, e₂, hr, ht, hes, joined, hiff.mpr joined, hbefore joined⟩

/-- The keys are listed before the first commit, the envelope is read after the second. -/
def overtakenRead : List (Action LedgerRequest ℕ LedgerInput) :=
  acquired ++
    [.begin ⟨1, .transitions "run-1" none⟩, stepAt 2 6,
      .begin ⟨0, .commit "run-1" 1 leaseOne (moveTarget .active) [startTarget]⟩,
      stepAt 3 7, stepAt 3 7, stepAt 3 7, stepAt 3 7, stepAt 3 7,
      .begin ⟨0, .commit "run-1" 2 leaseOne (moveTarget .failed) [failTarget]⟩,
      stepAt 4 8, stepAt 4 8, stepAt 4 8, stepAt 4 8, stepAt 4 8, stepAt 4 8, stepAt 2 9]

theorem transitions_skips : ∃ cfg ts, Reach ledgerSystem emptyStore cfg ∧
    cfg.threads[2]? = some ⟨⟨1, .transitions "run-1" none⟩, some (.ret (.history ts))⟩ ∧
    ts.map TargetTransition.toState = [.failed] ∧
    (history "run-1" cfg.hist).map TargetTransition.toState = [.active, .failed] ∧
    ¬ ts <+: history "run-1" cfg.hist := by
  have h : ∃ cfg ts, schedule ledgerSystem overtakenRead (.start emptyStore) = some cfg ∧
      cfg.threads[2]? = some ⟨⟨1, .transitions "run-1" none⟩, some (.ret (.history ts))⟩ ∧
      ts.map TargetTransition.toState = [.failed] ∧
      (history "run-1" cfg.hist).map TargetTransition.toState = [.active, .failed] :=
    ⟨_, _, rfl, rfl, by decide, by decide⟩
  obtain ⟨cfg, ts, hrun, ht, hts, hH⟩ := h
  refine ⟨cfg, ts, schedule_reach .start hrun, ht, hts, hH, fun hpre => ?_⟩
  have := hpre.map TargetTransition.toState
  rw [hts, hH] at this
  revert this
  decide

/-- What is stored of a history, at any one time, is all of it. -/
theorem readBetween_self {h : LedgerHist} (inv : RunInv runId h) :
    (readBetween runId h.shared h.shared).map Prod.snd = history runId h := by
  obtain ⟨joined, hlast⟩ := found_last inv inv rfl fun e he => ⟨e, he, rfl⟩
  obtain ⟨m, hmax, htake⟩ := readBetween_take inv inv List.prefix_rfl
    ((gapFree_iff_joined inv inv List.prefix_rfl).mpr joined)
  rw [htake]
  rcases hlast with hnil | hfound
  · simp [hnil]
  · exact List.take_of_length_le (hmax _ hfound)

/-- Whatever is called or crashes, what is stored of a run is only added to, and its ledger moves from the
statuses it has to those that the added transitions give. -/
theorem history_grows (hr : Reach ledgerSystem emptyStore cfg)
    (hlater : Relation.ReflTransGen (Step ledgerSystem) cfg cfg') (runId : GoalRunId) :
    ∃ added, (readBetween runId cfg'.hist.shared cfg'.hist.shared).map Prod.snd =
        (readBetween runId cfg.hist.shared cfg.hist.shared).map Prod.snd ++ added ∧
      ∀ e, cfg.hist.shared.runs.lookup runId = some e →
        ∃ e', cfg'.hist.shared.runs.lookup runId = some e' ∧
          e.ledger.ledgerRevision ≤ e'.ledger.ledgerRevision ∧
          replay e.ledger.statusOf added = some e'.ledger.statusOf := by
  obtain ⟨hg, hr'⟩ := grows_later runId hr hlater
  have inv := runInv_reach hr runId
  have inv' := runInv_reach hr' runId
  obtain ⟨added, hadded⟩ := hg.history
  rw [readBetween_self inv, readBetween_self inv']
  refine ⟨added, hadded.symm, fun e he => ?_⟩
  obtain ⟨e', he', hrev⟩ := hg.envelope e he
  obtain ⟨ledger, hledger, hreplay⟩ := inv.replays e he
  obtain ⟨ledger', hledger', hreplay'⟩ := inv'.replays e' he'
  obtain ⟨rest, hrest⟩ := Step.entries_prefix hlater
  have hsame : ledger' = ledger := by
    rw [created, ← hrest, List.findSome?_append, show List.findSome? _ _ = some ledger from hledger] at hledger'
    exact (Option.some.inj hledger').symm
  rw [hsame, ← hadded, replay_append, hreplay] at hreplay'
  exact ⟨e', he', by omega, hreplay'⟩

/-- The process that made a transition is gone, and what it made is still there. -/
theorem history_grows_crash : ∃ (cfg cfg' : LedgerConfig) (added : List TargetTransition),
    (history "run-1" cfg.hist).length = 1 ∧ cfg'.hist.dead = [0] ∧
    (readBetween "run-1" cfg'.hist.shared cfg'.hist.shared).map Prod.snd =
      (readBetween "run-1" cfg.hist.shared cfg.hist.shared).map Prod.snd ++ added := by
  have h : ∃ cfg cfg', schedule ledgerSystem (crashedCommit.take 10) (.start emptyStore) = some cfg ∧
      schedule ledgerSystem (crashedCommit.drop 10) cfg = some cfg' ∧
      (history "run-1" cfg.hist).length = 1 ∧ cfg'.hist.dead = [0] := ⟨_, _, rfl, rfl, by decide, by decide⟩
  obtain ⟨cfg, cfg', hrun, hrest, hone, hdead⟩ := h
  obtain ⟨added, hread, -⟩ :=
    history_grows (schedule_reach .start hrun) (schedule_steps hrest) "run-1"
  exact ⟨cfg, cfg', added, hone, hdead, hread⟩

end Wazir.Goals
