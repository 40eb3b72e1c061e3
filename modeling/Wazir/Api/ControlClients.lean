import Wazir.Api.ControlWalk
import Wazir.Async.Local

/-! Clients of the API's event log: what they are given is the stored events in order, without a
gap, and no event that was appended before they came is missing. -/

namespace Wazir.Api

open Wazir.Async Wazir.Goals

section Pages

variable {runId : GoalRunId} {h : LogHist}

/-- The stored events of a run, as so many first numbers. -/
def Upto (runId : GoalRunId) (s : LogStore) (m : ℕ) : Prop :=
  ∀ k, (s.slot runId k).isSome = true ↔ 1 ≤ k ∧ k ≤ m

theorem list_nodup (inv : RunInv runId h) :
    ((h.shared.list (eventPrefix runId)).map Logged.seq).Nodup := by
  let own := h.shared.values.entries.filter fun kv =>
    (eventPrefix runId).toList.isPrefixOf kv.1.toList
  have hkeys : (own.map Sigma.fst).Nodup :=
    (h.shared.values.nodupKeys.sublist List.filter_sublist : (own : List _).NodupKeys)
  have hsame : own.map Sigma.fst =
      ((h.shared.list (eventPrefix runId)).map Logged.seq).map (eventKey runId) := by
    rw [LogStore.list, List.map_map, List.map_map]
    refine List.map_congr_left fun kv hkv => ?_
    obtain ⟨hmem, hpre⟩ := List.mem_filter.mp hkv
    have hlookup : h.shared.values.lookup kv.1 = some kv.2 := AList.mem_lookup_iff.mpr hmem
    obtain ⟨k, hk⟩ := inv.listed kv.1 (AList.lookup_isSome.mp (by rw [hlookup]; rfl))
      (List.isPrefixOf_iff_prefix.mp hpre)
    obtain ⟨event, hv, hseq⟩ := inv.events k kv.2 (by rw [LogStore.slot, ← hk]; exact hlookup)
    simp [hv, Logged.seq, hseq, hk]
  rw [hsame] at hkeys
  exact hkeys.of_map _

theorem take_range' (start n cap : ℕ) :
    (List.range' start n).take cap = List.range' start (min cap n) := by
  rcases le_total n cap with hle | hle
  · rw [List.take_range'_of_length_le hle, Nat.min_eq_right hle]
  · rw [List.take_range'_of_length_ge hle, Nat.min_eq_left hle]

/-- A list that is sorted by distinct numbers is told by the numbers. -/
theorem sorted_seqs {l : List Logged} (hnodup : (l.map Logged.seq).Nodup) {after m : ℕ}
    (hmem : ∀ k, k ∈ l.map Logged.seq ↔ after < k ∧ k ≤ m) :
    (sortBy (fun a b => compare a.seq b.seq) l).map Logged.seq =
      List.range' (after + 1) (m - after) := by
  have hperm : (sortBy (fun a b => compare a.seq b.seq) l).Perm l := List.perm_insertionSort _ l
  have hsorted : ((sortBy (fun a b => compare a.seq b.seq) l).map Logged.seq).Pairwise (· ≤ ·) := by
    have hpairs : (sortBy (fun a b => compare a.seq b.seq) l).Pairwise fun a b =>
        (compare a.seq b.seq).isLE := sortBy_pairwise Logged.seq l
    rw [List.pairwise_map]
    exact hpairs.imp fun hab => Nat.isLE_compare.mp hab
  refine List.Perm.eq_of_pairwise (fun a b _ _ hab hba => le_antisymm hab hba) hsorted
    (List.pairwise_le_range' ..) ((hperm.map _).trans ?_)
  refine (List.perm_ext_iff_of_nodup hnodup List.nodup_range').mpr fun k => ?_
  rw [hmem, List.mem_range'_1]
  omega

theorem mem_page {listed : List Logged} {after cap : ℕ} {v : Logged}
    (h : v ∈ StoreGoalEventLog.page listed after cap) : v ∈ listed ∧ after < v.seq := by
  have := mem_sortBy.mp (List.mem_of_mem_take h)
  simpa using List.mem_filter.mp this

/-- A page: the events after a number, as many as there are and fit. -/
theorem page_seqs (inv : RunInv runId h) {m : ℕ} (hm : Upto runId h.shared m) (after cap : ℕ) :
    (StoreGoalEventLog.page (h.shared.list (eventPrefix runId)) after cap).map Logged.seq =
      List.range' (after + 1) (min cap (m - after)) := by
  rw [StoreGoalEventLog.page, List.map_take, sorted_seqs (m := m), take_range']
  · exact (list_nodup inv).sublist (List.filter_sublist.map _)
  · intro k
    simp only [List.mem_map, List.mem_filter, decide_eq_true_eq]
    constructor
    · rintro ⟨v, ⟨hv, hafter⟩, rfl⟩
      obtain ⟨k, hk⟩ := (mem_list inv).mp hv
      obtain ⟨event, rfl, rfl⟩ := inv.events k v hk
      exact ⟨hafter, ((hm event.seq).mp (by rw [hk]; rfl)).2⟩
    · rintro ⟨hafter, hle⟩
      obtain ⟨v, hv⟩ := Option.isSome_iff_exists.mp ((hm k).mpr ⟨by omega, hle⟩)
      obtain ⟨event, rfl, rfl⟩ := inv.events k v hv
      exact ⟨_, ⟨(mem_list inv).mpr ⟨_, hv⟩, hafter⟩, rfl⟩

/-- What is on a page is stored. -/
theorem page_stored (inv : RunInv runId h) {after cap : ℕ} {v : Logged}
    (hv : v ∈ StoreGoalEventLog.page (h.shared.list (eventPrefix runId)) after cap) :
    ∃ event, v = .event event ∧ h.shared.slot runId event.seq = some v := by
  obtain ⟨k, hk⟩ := (mem_list inv).mp (mem_page hv).1
  obtain ⟨event, rfl, rfl⟩ := inv.events k v hk
  exact ⟨event, rfl, hk⟩

theorem mem_page_of_seq (inv : RunInv runId h) {m : ℕ} (hm : Upto runId h.shared m)
    {after cap : ℕ} {event : GoalStudioEvent}
    (hslot : h.shared.slot runId event.seq = some (.event event)) (hafter : after < event.seq)
    (hle : event.seq ≤ after +
      (StoreGoalEventLog.page (h.shared.list (eventPrefix runId)) after cap).length) :
    .event event ∈ StoreGoalEventLog.page (h.shared.list (eventPrefix runId)) after cap := by
  have hseqs := page_seqs inv hm after cap
  have hlength := congrArg List.length hseqs
  rw [List.length_map, List.length_range'] at hlength
  have hmem : event.seq ∈
      (StoreGoalEventLog.page (h.shared.list (eventPrefix runId)) after cap).map Logged.seq := by
    rw [hseqs, List.mem_range'_1]
    omega
  obtain ⟨v, hv, hseq⟩ := List.mem_map.mp hmem
  obtain ⟨other, rfl, hother⟩ := page_stored inv hv
  rw [show other.seq = event.seq from hseq, hslot] at hother
  rwa [Option.some.inj hother]

end Pages

section Clients

variable {atomic : Bool} {maxRead : ℕ} {runId : GoalRunId} {h : LogHist} {i : ℕ} {c : LogRequest}

/-- What had happened when thread `i` took its first step. -/
def earlier (h : LogHist) (i : ℕ) : List LogEntry := h.entries.takeWhile fun e => e.thread ≠ i

theorem earlier_subset {h : LogHist} {es : List LogEntry} {e : LogEntry}
    (he : es ++ [e] <+: h.entries) (hi : e.thread = i) : earlier h i ⊆ es := by
  obtain ⟨rest, hrest⟩ := he
  rw [earlier, ← hrest, List.append_assoc]
  intro x hx
  rw [List.takeWhile_append] at hx
  split_ifs at hx
  · rcases List.mem_append.mp hx with hx | hx
    · exact hx
    · simp [hi] at hx
  · exact (List.takeWhile_sublist _).subset hx

/-- A procedure of thread `i` that began in `h` has brought it to `h'`. -/
structure Since (runId : GoalRunId) (h h' : LogHist) : Prop where
  grows : h.entries <+: h'.entries
  kept : ∀ k v, h.shared.slot runId k = some v → h'.shared.slot runId k = some v

theorem Since.trans {h₁ h₂ h₃ : LogHist} (h₁₂ : Since runId h₁ h₂) (h₂₃ : Since runId h₂ h₃) :
    Since runId h₁ h₃ :=
  ⟨h₁₂.grows.trans h₂₃.grows, fun k v hk => h₂₃.kept k v (h₁₂.kept k v hk)⟩

/-- What a read has done: listed the events, last of all. -/
structure ReadDone (runId : GoalRunId) (i after cap : ℕ) (h : LogHist)
    (out : Except Thrown (List Logged)) (h' : LogHist) : Prop where
  since : Since runId h h'
  inv : RunInv runId h'
  last : ∃ es e, h'.entries = es ++ [e] ∧ e.thread = i ∧ ∀ e ∈ es, ∀ event,
    storing e = some (runId, event) → h'.shared.slot runId event.seq = some (.event event)
  page : ∀ page, out = .ok page →
    page = StoreGoalEventLog.page (h'.shared.list (eventPrefix runId)) after cap

theorem read_safe {after : ℕ} {limit : Option ℕ} : LogSafe atomic maxRead runId i c
    (ReadDone runId i after (StoreGoalEventLog.readCap maxRead limit) h)
    (StoreGoalEventLog.read maxRead runId after limit) h := by
  intro h₁ inp r s₁ hkept hinv hx hok
  obtain ⟨hinv', hothers⟩ := log_up hinv hx hok (quiet_of_writesFor nofun)
  refine ⟨hinv', hothers, ?_⟩
  have hvalues : s₁ = h₁.shared := by
    cases hx
    rfl
  have hsince : Since runId h (h₁.ran i c (.list runId) inp r s₁) := by
    obtain ⟨new, he, -⟩ := hkept.grows
    refine ⟨?_, fun k v hk => ?_⟩
    · rw [logEntries_ran, he, List.append_assoc]
      exact List.prefix_append _ _
    · show s₁.slot runId k = some v
      rw [hvalues]
      exact hkept.kept k v hk
  have hlast : ∃ es e, (h₁.ran i c (.list runId) inp r s₁).entries = es ++ [e] ∧ e.thread = i ∧
      ∀ e ∈ es, ∀ event, storing e = some (runId, event) →
        (h₁.ran i c (.list runId) inp r s₁).shared.slot runId event.seq = some (.event event) := by
    refine ⟨_, _, logEntries_ran, rfl, fun e he event hstore => ?_⟩
    exact hinv'.puts e (by rw [logEntries_ran]; exact List.mem_append_left _ he) event hstore
  cases r with
  | error x => exact ⟨hsince, hinv', hlast, nofun⟩
  | ok listed =>
    refine ⟨hsince, hinv', hlast, ?_⟩
    rintro page ⟨⟩
    simp only [logExec, Option.some.injEq, Prod.mk.injEq] at hx
    rw [← guarded_ok hx.1]
    show _ = StoreGoalEventLog.page (s₁.list _) _ _
    rw [hvalues]

/-- What a client was given: the numbers follow one another, the events are the stored ones, and
each page brought it at least one further of those that had been stored before it came. -/
structure Given (runId : GoalRunId) (i after : ℕ) (pages : List (List Logged)) (h : LogHist) :
    Prop where
  seqs : pages.flatten.map Logged.seq = List.range' (after + 1) pages.flatten.length
  stored : ∀ v ∈ pages.flatten, ∃ event, v = .event event ∧
    h.shared.slot runId event.seq = some v
  complete : ∀ e ∈ earlier h i, ∀ event, storing e = some (runId, event) → after < event.seq →
    event.seq ≤ after + pages.length → .event event ∈ pages.flatten
  begun : pages ≠ [] → ∃ e ∈ h.entries, e.thread = i

theorem given_nil (after : ℕ) : Given runId i after [] h :=
  ⟨rfl, nofun, fun _ _ event _ hafter hle => absurd hle (by simpa using hafter),
    fun h => absurd rfl h⟩

theorem Given.cons {after cap : ℕ} {page : List Logged} {pages : List (List Logged)}
    {h₀ h₁ : LogHist} (hread : ReadDone runId i after cap h₀ (.ok page) h₁) (hcap : 1 ≤ cap)
    (hsince : Since runId h₁ h) (hgiven : Given runId i (after + page.length) pages h) :
    Given runId i after (page :: pages) h := by
  obtain ⟨es, e, hes, hthread, hputs⟩ := hread.last
  obtain ⟨m, -, hm⟩ := hread.inv.stored
  have hpage := hread.page page rfl
  have hseqs : page.map Logged.seq = List.range' (after + 1) (min cap (m - after)) := by
    rw [hpage]
    exact page_seqs hread.inv hm after cap
  have hlength : page.length = min cap (m - after) := by
    simpa using congrArg List.length hseqs
  refine ⟨?_, fun v hv => ?_, fun x hx event hstore hafter hle => ?_,
    fun _ => ⟨e, hsince.grows.subset (by rw [hes]; simp), hthread⟩⟩
  · rw [List.flatten_cons, List.map_append, hseqs, hgiven.seqs, List.length_append, hlength,
      Nat.add_right_comm after, List.range'_append_1]
  · rw [List.flatten_cons] at hv
    rcases List.mem_append.mp hv with hv | hv
    · rw [hpage] at hv
      obtain ⟨event, hevent, hslot⟩ := page_stored hread.inv hv
      exact ⟨event, hevent, hsince.kept _ _ hslot⟩
    · exact hgiven.stored v hv
  · rw [List.flatten_cons]
    have hslot := hputs x (earlier_subset (hes ▸ hsince.grows) hthread hx) event hstore
    have hupto := ((hm event.seq).mp (by rw [LogStore.slot] at hslot ⊢; rw [hslot]; rfl)).2
    rcases Nat.lt_or_ge (after + page.length) event.seq with hlater | hnow
    · refine List.mem_append_right _ (hgiven.complete x hx event hstore hlater ?_)
      -- the page was not empty
      rw [List.length_cons] at hle
      omega
    · refine List.mem_append_left _ ?_
      rw [hpage] at hnow ⊢
      exact mem_page_of_seq hread.inv hm hslot hafter hnow

theorem lastSeq_page {after cap : ℕ} {page : List Logged} {h₀ h₁ : LogHist}
    (hread : ReadDone runId i after cap h₀ (.ok page) h₁) :
    (page.getLast?.map Logged.seq).getD after = after + page.length := by
  obtain ⟨m, -, hm⟩ := hread.inv.stored
  have hseqs : page.map Logged.seq = List.range' (after + 1) (min cap (m - after)) := by
    rw [hread.page page rfl]
    exact page_seqs hread.inv hm after cap
  have hlength : page.length = min cap (m - after) := by
    simpa using congrArg List.length hseqs
  rw [← List.getLast?_map, hseqs, ← hlength, List.getLast?_range']
  split_ifs with hzero
  · simp [hzero]
  · simp only [Option.getD_some]
    omega

theorem Since.refl (h : LogHist) : Since runId h h := ⟨List.prefix_rfl, fun _ _ hk => hk⟩

/-- A client that reads on from what it has seen is given everything in order. -/
theorem follow_safe {limits : List (Option ℕ)} {after : ℕ} : LogSafe atomic maxRead runId i c
    (fun out h' => Since runId h h' ∧ ∀ pages, out = .ok pages → Given runId i after pages h')
    (follow maxRead runId after limits) h := by
  induction limits generalizing after h with
  | nil =>
    refine ⟨.refl h, ?_⟩
    rintro pages ⟨⟩
    exact given_nil after
  | cons limit limits ih =>
    refine read_safe.settle fun out h₁ hread => ?_
    cases out with
    | error x =>
      exact ih.mono fun out h₂ ⟨hsince, hgiven⟩ => ⟨hread.since.trans hsince, hgiven⟩
    | ok page =>
      dsimp only
      rw [lastSeq_page hread]
      refine ih.bind (fun pages h₂ ⟨hsince, hgiven⟩ => ⟨hread.since.trans hsince, ?_⟩)
        fun x h₂ ⟨hsince, _⟩ => ⟨hread.since.trans hsince, nofun⟩
      rintro _ ⟨⟩
      exact .cons hread (le_max_left _ _) hsince (hgiven pages rfl)

theorem earlier_grow {h' : LogHist} {new : List LogEntry} (he : h'.entries = h.entries ++ new)
    (hbegun : ∃ e ∈ h.entries, e.thread = i) : earlier h' i = earlier h i := by
  obtain ⟨e, hmem, hi⟩ := hbegun
  have hshort : ¬ (h.entries.takeWhile fun e => decide (e.thread ≠ i)).length =
      h.entries.length := by
    intro hlength
    have hall := List.takeWhile_eq_self_iff.mp
      ((List.takeWhile_prefix _).eq_of_length hlength) e hmem
    simp [hi] at hall
  rw [earlier, earlier, he, List.takeWhile_append, if_neg hshort]

theorem Given.rely {after : ℕ} {pages : List (List Logged)} {h' : LogHist}
    (hg : Given runId i after pages h) (hk : RunKept runId i h h') :
    Given runId i after pages h' := by
  obtain ⟨new, he, -⟩ := hk.grows
  have hbegun : pages ≠ [] → ∃ e ∈ h'.entries, e.thread = i := fun hne => by
    obtain ⟨e, hmem, hi⟩ := hg.begun hne
    exact ⟨e, by rw [he]; exact List.mem_append_left _ hmem, hi⟩
  refine ⟨hg.seqs, fun v hv => ?_, fun e hmem event hstore hafter hle => ?_, hbegun⟩
  · obtain ⟨event, hevent, hslot⟩ := hg.stored v hv
    exact ⟨event, hevent, hk.kept _ _ hslot⟩
  · have hne : pages ≠ [] := by
      rintro rfl
      simp only [List.length_nil] at hle
      omega
    rw [earlier_grow he (hg.begun hne)] at hmem
    exact hg.complete e hmem event hstore hafter hle

/-- What each call has done when it returns. -/
def LogRequest.Done (runId : GoalRunId) (i : ℕ) (c : LogRequest) (out : Except Thrown LogReply)
    (h : LogHist) : Prop :=
  match c.call, out with
  | .append input, .ok (.appended event) => input.runId = some runId → Stored runId i event h
  | .read r after _, .ok (.events page) => r = runId →
    page.map Logged.seq = List.range' (after + 1) page.length ∧
      ∀ v ∈ page, ∃ event, v = .event event ∧ h.shared.slot runId event.seq = some v
  | .follow r after _, .ok (.pages pages) => r = runId → Given runId i after pages h
  | _, _ => True

theorem body_safe (c : LogRequest) :
    LogSafe atomic maxRead runId i c (c.Done runId i) (c.body atomic maxRead) h := by
  obtain ⟨log, call⟩ := c
  cases call with
  | append input =>
    by_cases hrun : input.runId = some runId
    · exact (append_safe hrun).bind (fun event h₁ hevent _ => hevent event rfl)
        fun _ _ _ => trivial
    · refine (others_safe (append_only hrun) h).bind (fun event h₁ _ => ?_) fun _ _ _ => trivial
      exact fun heq => absurd heq hrun
  | read r after limit =>
    by_cases hrun : r = runId
    · subst hrun
      refine read_safe.bind (fun page h₁ hread _ => ?_) fun _ _ _ => trivial
      obtain ⟨m, -, hm⟩ := hread.inv.stored
      have hpage := hread.page page rfl
      refine ⟨?_, fun v hv => page_stored hread.inv (hpage ▸ hv)⟩
      have hseqs := page_seqs hread.inv hm after (StoreGoalEventLog.readCap maxRead limit)
      rw [← hpage] at hseqs
      have hlength := congrArg List.length hseqs
      rw [List.length_map, List.length_range'] at hlength
      rw [hseqs, hlength]
    · exact (others_safe (p := StoreGoalEventLog.read maxRead r after limit)
        ⟨nofun, fun _ => Prog.only_resume.bind fun _ => trivial⟩ h).bind
          (fun page h₁ _ heq => absurd heq hrun) fun _ _ _ => trivial
  | follow r after limits =>
    by_cases hrun : r = runId
    · subst hrun
      exact follow_safe.bind (fun pages h₁ hgiven _ => hgiven.2 pages rfl) fun _ _ _ => trivial
    · refine (others_safe (p := follow maxRead r after limits) ?_ h).bind
        (fun pages h₁ _ heq => absurd heq hrun) fun _ _ _ => trivial
      clear hrun
      induction limits generalizing after with
      | nil => trivial
      | cons limit limits ih =>
        refine Prog.Only.settle ⟨nofun, fun _ => Prog.only_resume.bind fun _ => trivial⟩ fun out => ?_
        cases out with
        | ok page => exact (ih _).bind fun _ => trivial
        | error x => exact ih _

theorem crash_kept (i : ℕ) (h : LogHist) (p : ℕ) :
    RunKept runId i h (h.push (.crashed p) ((logSystem atomic maxRead).crash p h.shared)) :=
  ⟨⟨[], by rw [Hist.entries_push_crashed, List.append_nil], by simp⟩, fun _ _ hk => hk,
    fun _ _ hk => hk⟩

theorem log_upheld : (logContract runId).Upheld (logSystem atomic maxRead)
    fun i c => c.Done runId i where
  okPrefix _ _ _ hok := hok.past
  refl i _ h := runKept_refl i h
  trans _ _ _ _ _ h₁₂ h₂₃ := h₁₂.trans h₂₃
  began h i c s inv _ _ hadm _ := by
    cases hadm
    have he : (h.push (.began i c) h.shared).entries = h.entries := Hist.entries_push_began ..
    have hnumbers : numbers runId (h.push (.began i c) h.shared) = numbers runId h := by
      rw [numbers, he, ← numbers]
    exact ⟨inv.same (fun _ _ => rfl) hnumbers fun e hmem event hs => ⟨e, he ▸ hmem, hs⟩,
      fun j d _ => ⟨⟨[], by rw [he, List.append_nil], by simp⟩, fun _ _ hk => hk, fun _ _ hk => hk⟩,
      body_safe c⟩
  crashed h p inv _ := by
    have he : (h.push (.crashed p) ((logSystem atomic maxRead).crash p h.shared)).entries =
        h.entries := Hist.entries_push_crashed ..
    have hnumbers : numbers runId
        (h.push (.crashed p) ((logSystem atomic maxRead).crash p h.shared)) = numbers runId h := by
      rw [numbers, he, ← numbers]
    exact ⟨inv.same (fun _ _ => rfl) hnumbers fun e hmem event hs => ⟨e, he ▸ hmem, hs⟩,
      fun j _ _ => crash_kept j h p⟩

theorem runInv_start : RunInv runId ⟨[], LogStore.empty⟩ where
  numbered := rfl
  absent _ := rfl
  head k hk := by cases hk
  stored := ⟨0, le_rfl, fun k => by
    constructor
    · intro hk
      cases hk
    · omega⟩
  events k v hk := by cases hk
  listed key hkey := absurd hkey (AList.notMem_empty _)
  puts e he := absurd he List.not_mem_nil

end Clients

/-- The call has returned, whatever became of its process since. -/
abbrev LogReturned (atomic : Bool) (maxRead : ℕ) (cfg : LogConfig) (i : ℕ) (c : LogRequest)
    (out : LogReply) : Prop :=
  HasReturned (logSystem atomic maxRead) LogStore.empty cfg i c out

/-- What a run of the log amounts to: the numbers are one, two, three; each event that was appended
keeps its own; and who reads on from what he has seen is given the stored events in order, without
a gap, and so all that had been appended before he came. -/
structure Replays (atomic : Bool) (maxRead : ℕ) (runId : GoalRunId) (cfg : LogConfig) : Prop where
  numbers : (numbers runId cfg.hist).map Prod.snd =
    List.range' 1 (Api.numbers runId cfg.hist).length
  appended : ∀ i log input event,
    LogReturned atomic maxRead cfg i ⟨log, .append input⟩ (.appended event) →
    input.runId = some runId →
      (i, event.seq) ∈ Api.numbers runId cfg.hist ∧
        cfg.hist.shared.slot runId event.seq = some (.event event)
  distinct : ∀ i j log log' input input' event event',
    LogReturned atomic maxRead cfg i ⟨log, .append input⟩ (.appended event) →
    input.runId = some runId →
    LogReturned atomic maxRead cfg j ⟨log', .append input'⟩ (.appended event') →
    input'.runId = some runId →
    event.seq = event'.seq → i = j
  read : ∀ i log after limit page,
    LogReturned atomic maxRead cfg i ⟨log, .read runId after limit⟩ (.events page) →
      page.map Logged.seq = List.range' (after + 1) page.length ∧
        ∀ v ∈ page, ∃ event, v = .event event ∧
          cfg.hist.shared.slot runId event.seq = some (.event event)
  given : ∀ i log after limits pages,
    LogReturned atomic maxRead cfg i ⟨log, .follow runId after limits⟩ (.pages pages) →
      pages.flatten.map Logged.seq = List.range' (after + 1) pages.flatten.length ∧
        ∀ v ∈ pages.flatten, ∃ event, v = .event event ∧
          cfg.hist.shared.slot runId event.seq = some (.event event)
  complete : ∀ i j log log' after limits pages input event,
    LogReturned atomic maxRead cfg i ⟨log, .follow runId after limits⟩ (.pages pages) →
    LogReturned atomic maxRead cfg j ⟨log', .append input⟩ (.appended event) →
    input.runId = some runId →
    (∀ e ∈ cfg.hist.entries, e.thread = j → e ∈ earlier cfg.hist i) →
    after < event.seq → event.seq ≤ after + pages.length → .event event ∈ pages.flatten

/-- Every run whose steps are in order replays. -/
theorem log_replays {atomic : Bool} {maxRead : ℕ} {runId : GoalRunId} {cfg : LogConfig}
    (hr : Reach (logSystem atomic maxRead) LogStore.empty cfg)
    (hok : cfg.hist.Always (InOrder runId)) : Replays atomic maxRead runId cfg := by
  have upheld : (logContract runId).Upheld (logSystem atomic maxRead) fun i c => c.Done runId i :=
    log_upheld
  have inv := (upheld.run runInv_start hr hok).1
  have ended : ∀ {i c out}, LogReturned atomic maxRead cfg i c out →
      ∃ h₀, (logContract runId).Rely i c h₀ cfg.hist ∧ c.Done runId i (.ok out) h₀ :=
    fun hret => upheld.ended runInv_start (fun h p j _ _ _ => crash_kept j h p) hok hret.ended
  have appended : ∀ {i log input event},
      LogReturned atomic maxRead cfg i ⟨log, .append input⟩ (.appended event) →
      input.runId = some runId → Stored runId i event cfg.hist := by
    intro i log input event hret hrun
    obtain ⟨h₀, hrely, hdone⟩ := ended hret
    exact Stored.rely (hdone hrun) hrely
  have given : ∀ {i log after limits pages},
      LogReturned atomic maxRead cfg i ⟨log, .follow runId after limits⟩ (.pages pages) →
        Given runId i after pages cfg.hist := by
    intro i log after limits pages hret
    obtain ⟨h₀, hrely, hdone⟩ := ended hret
    exact Given.rely (hdone rfl) hrely
  have event_slot : ∀ {h : LogHist} {v : Logged}, (∃ event, v = .event event ∧
      h.shared.slot runId event.seq = some v) → ∃ event, v = .event event ∧
      h.shared.slot runId event.seq = some (.event event) := by
    rintro h v ⟨event, rfl, hslot⟩
    exact ⟨event, rfl, hslot⟩
  constructor
  · exact inv.numbered
  · exact fun i log input event hret hrun =>
      ⟨(appended hret hrun).mem, (appended hret hrun).slot⟩
  · intro i j log log' input input' event event' hret hrun hret' hrun' hseq
    exact inv.owner (appended hret hrun).mem (hseq ▸ (appended hret' hrun').mem)
  · intro i log after limit page hret
    obtain ⟨h₀, hrely, hdone⟩ := ended hret
    obtain ⟨hseqs, hstored⟩ := hdone rfl
    refine ⟨hseqs, fun v hv => ?_⟩
    obtain ⟨event, rfl, hslot⟩ := hstored v hv
    exact ⟨event, rfl, hrely.kept _ _ hslot⟩
  · exact fun i log after limits pages hret =>
      ⟨(given hret).seqs, fun v hv => event_slot ((given hret).stored v hv)⟩
  · intro i j log log' after limits pages input event hret hret' hrun hbefore hafter hle
    obtain ⟨e, hmem, hthread, hstore⟩ := (appended hret' hrun).entry
    exact (given hret).complete e (hbefore e hmem hthread) event hstore hafter hle

/-! Runs. -/

def logStarted : GoalEventInput :=
  ⟨"run.status", some "run-1", none, none, none, some "2026-03-01T09:00:00.000Z", none⟩

def quietly : EventInput := ⟨none, none, false⟩

def appendOn (log : ℕ) : Action LogRequest ℕ EventInput := .begin ⟨log, .append logStarted⟩

def followRun : Action LogRequest ℕ EventInput :=
  .begin ⟨0, .follow "run-1" 0 [some 1, some 1]⟩

def steps (thread count : ℕ) : List (Action LogRequest ℕ EventInput) :=
  List.replicate count (.run thread quietly)

/-- A check of `InOrder`. -/
def inOrder (runId : GoalRunId) (h : LogHist) (e : LogEntry) : Bool :=
  ((storing e).all fun w => w.1 ≠ runId || w.2.seq ≤ 1 ||
    (h.shared.values.lookup (eventKey runId (w.2.seq - 1))).isSome) &&
  (match e.op with
  | .putHead _ _ => lastHead h e.thread = some (runId, h.shared.head runId)
  | _ => true) &&
  (writes e).all fun w => w.1 = runId ||
    !(w.2 = headKey runId || (eventPrefix runId).toList.isPrefixOf w.2.toList)

theorem inOrder_sound {runId : GoalRunId} (h : LogHist) (e : LogEntry)
    (hcheck : inOrder runId h e = true) : InOrder runId h e := by
  simp only [inOrder, Bool.and_eq_true, Option.all_eq_true] at hcheck
  obtain ⟨⟨hstored, hhead⟩, hapart⟩ := hcheck
  constructor
  · intro event hs
    simpa using hstored _ hs
  · intro seq hop _
    simpa [hop] using hhead
  · intro other key hw hne
    have := hapart _ hw
    simp only [hne, decide_false, Bool.false_or, Bool.not_eq_true', Bool.or_eq_false_iff,
      decide_eq_false_iff_not] at this
    rintro (heq | hpre)
    · exact this.1 heq
    · rw [List.isPrefixOf_iff_prefix.mpr hpre] at this
      cases this.2

/-- Two logs append, one after the other; the second one crashes, and a client follows. -/
def appendInTurn : List (Action LogRequest ℕ EventInput) :=
  appendOn 0 :: steps 0 7 ++ appendOn 1 :: steps 1 6 ++ .crash 1 :: followRun :: steps 2 2

/-- The numbers of what the client of thread 2 was given from the start. -/
def givenFromStart (cfg : LogConfig) : Option (List ℕ) :=
  match cfg.returned 2 with
  | some (⟨_, .follow "run-1" 0 _⟩, .pages pages) => some (pages.flatten.map Logged.seq)
  | _ => none

/-- A check of the run: the client sees both events, and the steps are in order. -/
def inTurn (cfg : LogConfig) : Bool :=
  givenFromStart cfg = some [1, 2] && cfg.hist.dead = [1] &&
    Hist.checkFrom (inOrder "run-1") [] cfg.hist.events

theorem inTurn_sound {cfg : LogConfig} (h : inTurn cfg = true) :
    (givenFromStart cfg = some [1, 2] ∧ cfg.hist.dead = [1]) ∧
      cfg.hist.Always (InOrder "run-1") := by
  simp only [inTurn, Bool.and_eq_true, decide_eq_true_eq] at h
  exact ⟨h.1, Hist.always_of_check inOrder_sound h.2⟩

theorem log_replays_two :
    (∃ cfg, Reach (logSystem true 1000) LogStore.empty cfg ∧
      (givenFromStart cfg = some [1, 2] ∧ cfg.hist.dead = [1]) ∧ Replays true 1000 "run-1" cfg) ∧
    ∃ cfg, Reach (logSystem false 1000) LogStore.empty cfg ∧
      (givenFromStart cfg = some [1, 2] ∧ cfg.hist.dead = [1]) ∧ Replays false 1000 "run-1" cfg := by
  constructor
  · have h : (schedule (logSystem true 1000) appendInTurn (.start LogStore.empty)).any inTurn =
        true := by
      decide
    obtain ⟨cfg, hr, hcheck⟩ := Reach.of_check h
    exact ⟨cfg, hr, (inTurn_sound hcheck).1, log_replays hr (inTurn_sound hcheck).2⟩
  · have h : (schedule (logSystem false 1000) appendInTurn (.start LogStore.empty)).any inTurn =
        true := by
      decide
    obtain ⟨cfg, hr, hcheck⟩ := Reach.of_check h
    exact ⟨cfg, hr, (inTurn_sound hcheck).1, log_replays hr (inTurn_sound hcheck).2⟩

/-- The first log takes the first number and is slow; the second appends meanwhile, and the client
reads before the first event is stored. -/
def slowWriter : List (Action LogRequest ℕ EventInput) :=
  appendOn 0 :: steps 0 5 ++ appendOn 1 :: steps 1 6 ++ followRun :: steps 2 1 ++ steps 0 2 ++
    steps 2 1

theorem event_missed : ∃ cfg, Reach (logSystem true 1000) LogStore.empty cfg ∧
    (cfg.returned 0).isSome = true ∧ ¬ Replays true 1000 "run-1" cfg := by
  have h : (schedule (logSystem true 1000) slowWriter (.start LogStore.empty)).any (fun cfg =>
      (cfg.returned 0).isSome && givenFromStart cfg = some [2]) = true := by
    decide
  obtain ⟨cfg, hr, hcheck⟩ := Reach.of_check h
  obtain ⟨hreturned, hgiven⟩ := Bool.and_eq_true_iff.mp hcheck
  refine ⟨cfg, hr, hreturned, fun hreplays => ?_⟩
  have hgiven := of_decide_eq_true hgiven
  unfold givenFromStart at hgiven
  split at hgiven
  · rename_i log limits pages hret
    have hseqs := (hreplays.given _ _ _ _ _ ⟨cfg, hr, .refl, hret⟩).1
    have hlength := congrArg List.length (Option.some.inj hgiven)
    rw [List.length_map] at hlength
    rw [Option.some.inj hgiven, hlength] at hseqs
    cases hseqs
  · cases hgiven

end Wazir.Api
