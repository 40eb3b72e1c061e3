import Wazir.Api.ControlEventLog
import Wazir.Shared.KeyedLists

/-! The API's event log replays everything while each event is stored after the one before it. -/

namespace Wazir.Api

open Wazir.Async Wazir.Goals

/-- The number that a step gives out: for which run, and to which thread. -/
def numbering : LogEntry → Option (GoalRunId × ℕ)
  | ⟨_, _, .updateHead runId floor, inp, _, before, _⟩ =>
    if inp.lands then some (runId, nextHead (before.head runId) floor) else none
  | ⟨_, _, .putHead runId seq, inp, _, _, _⟩ => if inp.lands then some (runId, seq) else none
  | _ => none

/-- The numbers of a run with the threads they went to, in the order they were given out. -/
def numbers (runId : GoalRunId) (h : LogHist) : List (ℕ × ℕ) :=
  h.entries.filterMap fun e =>
    ((numbering e).filter fun n => n.1 = runId).map fun n => (e.thread, n.2)

/-- The event that a step stores. -/
def storing : LogEntry → Option (GoalRunId × GoalStudioEvent)
  | ⟨_, _, .putEvent runId event, inp, _, _, _⟩ => if inp.lands then some (runId, event) else none
  | _ => none

/-- The key that a step writes under. -/
def writes : LogEntry → Option (GoalRunId × String)
  | ⟨_, _, .updateHead runId _, inp, _, _, _⟩ =>
    if inp.lands then some (runId, headKey runId) else none
  | ⟨_, _, .putHead runId _, inp, _, _, _⟩ =>
    if inp.lands then some (runId, headKey runId) else none
  | ⟨_, _, .putEvent runId event, inp, _, _, _⟩ =>
    if inp.lands then some (runId, eventKey runId event.seq) else none
  | _ => none

/-- The head that a step reads. -/
def headRead : LogEntry → Option (GoalRunId × Option ℕ)
  | ⟨_, _, .getHead runId, _, .ok head, _, _⟩ => some (runId, head)
  | _ => none

/-- The head that thread `i` has read last. -/
def lastHead (h : LogHist) (i : ℕ) : Option (GoalRunId × Option ℕ) :=
  ((h.entriesOf i).filterMap headRead).getLast?

/-- What belongs to a run: its head, and what is listed for it. -/
def Belongs (runId : GoalRunId) (key : String) : Prop :=
  key = headKey runId ∨ (eventPrefix runId).toList <+: key.toList

/-- The steps of a run are in order: an event is stored after the one before it, a head that is
simply put is still as the append read it, and other runs write nothing that belongs to the run. -/
structure InOrder (runId : GoalRunId) (h : LogHist) (e : LogEntry) : Prop where
  stored : ∀ event, storing e = some (runId, event) → event.seq ≤ 1 ∨
    (h.shared.values.lookup (eventKey runId (event.seq - 1))).isSome = true
  unchanged : ∀ seq, e.op = .putHead runId seq → e.input.lands = true →
    lastHead h e.thread = some (runId, h.shared.head runId)
  apart : ∀ other key, writes e = some (other, key) → other ≠ runId → ¬ Belongs runId key

/-! Keys. -/

section Keys

variable {runId : GoalRunId} {m n : ℕ}

theorem eventKey_inj (h : eventKey runId m = eventKey runId n) : m = n :=
  padded_inj (String.append_right_inj (eventPrefix runId) |>.mp h)

theorem eventPrefix_eventKey : (eventPrefix runId).toList <+: (eventKey runId n).toList := by
  rw [eventKey, String.toList_append]
  exact List.prefix_append _ _

theorem not_eventPrefix_headKey : ¬ (eventPrefix runId).toList <+: (headKey runId).toList := by
  intro h
  have := h.length_le
  simp [eventPrefix, headKey, String.toList_append] at this

theorem headKey_ne_eventKey : headKey runId ≠ eventKey runId n := fun h =>
  not_eventPrefix_headKey (h ▸ eventPrefix_eventKey)

end Keys

/-! Steps. -/

section Steps

variable {runId : GoalRunId} {h : LogHist} {i : ℕ} {c : LogRequest} {op : LogOp} {inp : EventInput}
  {r : LogRes op} {s s' : LogStore}

/-- What a step does to the values: nothing, or it gives out a number, or it stores an event. -/
inductive Wrote (e : LogEntry) : Prop
  | nothing (hn : numbering e = none) (hs : storing e = none)
      (hv : e.after.values = e.before.values)
  | number (other : GoalRunId) (seq : ℕ) (hn : numbering e = some (other, seq))
      (hs : storing e = none) (hw : writes e = some (other, headKey other))
      (hv : e.after.values = e.before.values.insert (headKey other) (.head seq))
  | store (other : GoalRunId) (event : GoalStudioEvent) (hn : numbering e = none)
      (hs : storing e = some (other, event)) (hw : writes e = some (other, eventKey other event.seq))
      (hv : e.after.values = e.before.values.insert (eventKey other event.seq) (.event event))

theorem logExec_wrote (hx : logExec op inp s = some (r, s')) : Wrote ⟨i, c, op, inp, r, s, s'⟩ := by
  cases op with
  | turn ticket =>
    simp only [logExec] at hx
    split_ifs at hx
    cases hx
    exact .nothing rfl rfl rfl
  | join | leave | clock | getHead | list =>
    cases hx
    exact .nothing rfl rfl rfl
  | updateHead other floor =>
    cases hx
    cases hl : inp.lands with
    | true =>
      simp only [if_true]
      exact .number other (nextHead (s.head other) floor) (by simp [numbering, hl]) rfl
        (by simp [writes, hl]) rfl
    | false =>
      simp only [Bool.false_eq_true, if_false]
      exact .nothing (by simp [numbering, hl]) rfl rfl
  | putHead other seq =>
    cases hx
    cases hl : inp.lands with
    | true =>
      simp only [if_true]
      exact .number other seq (by simp [numbering, hl]) rfl (by simp [writes, hl]) rfl
    | false =>
      simp only [Bool.false_eq_true, if_false]
      exact .nothing (by simp [numbering, hl]) rfl rfl
  | putEvent other event =>
    cases hx
    cases hl : inp.lands with
    | true =>
      simp only [if_true]
      exact .store other event rfl (by simp [storing, hl]) (by simp [writes, hl]) rfl
    | false =>
      simp only [Bool.false_eq_true, if_false]
      exact .nothing rfl (by simp [storing, hl]) rfl

theorem numbers_ran : numbers runId (h.ran i c op inp r s') = numbers runId h ++
    (((numbering ⟨i, c, op, inp, r, h.shared, s'⟩).filter fun n => n.1 = runId).map
      fun n => (i, n.2)).toList := by
  rw [numbers, Hist.ran, Hist.entries_push_ran, List.filterMap_append, ← numbers,
    List.filterMap_cons, List.filterMap_nil]
  cases ((numbering ⟨i, c, op, inp, r, h.shared, s'⟩).filter fun n => n.1 = runId).map
    fun n => (i, n.2) <;> rfl

theorem logEntries_ran : (h.ran i c op inp r s').entries =
    h.entries ++ [⟨i, c, op, inp, r, h.shared, s'⟩] := Hist.entries_push_ran ..

end Steps

/-- The value stored under a number of the run. -/
def LogStore.slot (s : LogStore) (runId : GoalRunId) (k : ℕ) : Option Logged :=
  s.values.lookup (eventKey runId k)

/-- One run: its head is the last number given out, and its stored events are those of the numbers
from one on, without a gap. -/
structure RunInv (runId : GoalRunId) (h : LogHist) : Prop where
  numbered : (numbers runId h).map Prod.snd = List.range' 1 (numbers runId h).length
  absent : h.shared.head runId = none → numbers runId h = []
  head : ∀ k, h.shared.head runId = some k → k = (numbers runId h).length
  stored : ∃ m ≤ (numbers runId h).length, ∀ k,
    (h.shared.slot runId k).isSome = true ↔ 1 ≤ k ∧ k ≤ m
  events : ∀ k v, h.shared.slot runId k = some v → ∃ event, v = .event event ∧ event.seq = k
  listed : ∀ key ∈ h.shared.values, (eventPrefix runId).toList <+: key.toList →
    ∃ k, key = eventKey runId k
  puts : ∀ e ∈ h.entries, ∀ event, storing e = some (runId, event) →
    h.shared.slot runId event.seq = some (.event event)

/-- What a thread counts on: stored events stay, and nobody stores under a number it was given. -/
structure RunKept (runId : GoalRunId) (i : ℕ) (h h' : LogHist) : Prop where
  grows : ∃ new, h'.entries = h.entries ++ new ∧ ∀ e ∈ new, e.thread ≠ i
  kept : ∀ k v, h.shared.slot runId k = some v → h'.shared.slot runId k = some v
  vacant : ∀ k, (i, k) ∈ numbers runId h → h.shared.slot runId k = none →
    h'.shared.slot runId k = none

/-- What a step must know: it stores only under a number of its own that is still vacant, and gives
out only the next number. -/
structure Allowed (runId : GoalRunId) (h : LogHist) (e : LogEntry) : Prop where
  stores : ∀ event, storing e = some (runId, event) →
    (e.thread, event.seq) ∈ numbers runId h ∧ h.shared.slot runId event.seq = none
  next : ∀ k, numbering e = some (runId, k) → k = (numbers runId h).length + 1

section Invariant

variable {runId : GoalRunId} {h : LogHist} {i : ℕ} {c : LogRequest} {op : LogOp} {inp : EventInput}
  {r : LogRes op} {s' : LogStore}

theorem RunInv.number_le (inv : RunInv runId h) {j k : ℕ} (hk : (j, k) ∈ numbers runId h) :
    1 ≤ k ∧ k ≤ (numbers runId h).length := by
  have hmem : k ∈ (numbers runId h).map Prod.snd := List.mem_map_of_mem hk
  rw [inv.numbered, List.mem_range'_1] at hmem
  omega

/-- A number went to one thread. -/
theorem RunInv.owner (inv : RunInv runId h) {j j' k : ℕ} (hj : (j, k) ∈ numbers runId h)
    (hj' : (j', k) ∈ numbers runId h) : j = j' := by
  have hnodup : ((numbers runId h).map Prod.snd).Nodup := by
    rw [inv.numbered]
    exact List.nodup_range'
  exact (Prod.mk.inj (List.inj_on_of_nodup_map hnodup hj hj' rfl)).1

/-- What belongs to the run is as it was. -/
theorem RunInv.same {h' : LogHist} (inv : RunInv runId h)
    (hbelongs : ∀ key, Belongs runId key →
      h'.shared.values.lookup key = h.shared.values.lookup key)
    (hnumbers : numbers runId h' = numbers runId h)
    (hputs : ∀ e ∈ h'.entries, ∀ event, storing e = some (runId, event) →
      ∃ e' ∈ h.entries, storing e' = some (runId, event)) : RunInv runId h' := by
  have hhead : h'.shared.head runId = h.shared.head runId := by
    rw [LogStore.head, LogStore.head, hbelongs _ (.inl rfl)]
  have hat : ∀ k, h'.shared.slot runId k = h.shared.slot runId k := fun k =>
    hbelongs _ (.inr eventPrefix_eventKey)
  refine ⟨?_, ?_, ?_, ?_, ?_, ?_, ?_⟩
  · rw [hnumbers]
    exact inv.numbered
  · rw [hnumbers, hhead]
    exact inv.absent
  · rw [hnumbers, hhead]
    exact inv.head
  · simp only [hnumbers, hat]
    exact inv.stored
  · simp only [hat]
    exact inv.events
  · intro key hkey hpre
    refine inv.listed key ?_ hpre
    rwa [← AList.lookup_isSome, ← hbelongs key (.inr hpre), AList.lookup_isSome]
  · intro e he event hs
    obtain ⟨e', he', hs'⟩ := hputs e he event hs
    rw [hat]
    exact inv.puts e' he' event hs'

/-- A step that neither gives out a number of the run nor stores an event of it. -/
theorem RunInv.aside (inv : RunInv runId h)
    (hn : ∀ k, numbering ⟨i, c, op, inp, r, h.shared, s'⟩ ≠ some (runId, k))
    (hs : ∀ event, storing ⟨i, c, op, inp, r, h.shared, s'⟩ ≠ some (runId, event))
    (hv : ∀ key, Belongs runId key → s'.values.lookup key = h.shared.values.lookup key) :
    RunInv runId (h.ran i c op inp r s') := by
  refine inv.same hv ?_ fun e he event hstore => ?_
  · rw [numbers_ran]
    cases hnum : numbering ⟨i, c, op, inp, r, h.shared, s'⟩ with
    | none => simp
    | some n =>
      obtain ⟨other, k⟩ := n
      have hne : other ≠ runId := fun heq => hn k (heq ▸ hnum)
      simp [Option.filter, hne]
  · rw [logEntries_ran] at he
    rcases List.mem_append.mp he with he | he
    · exact ⟨e, he, hstore⟩
    · cases List.mem_singleton.mp he
      exact absurd hstore (hs event)

/-- The next number is given out. -/
theorem RunInv.number (inv : RunInv runId h) {seq : ℕ}
    (hn : numbering ⟨i, c, op, inp, r, h.shared, s'⟩ = some (runId, seq))
    (hs : storing ⟨i, c, op, inp, r, h.shared, s'⟩ = none)
    (hv : s'.values = h.shared.values.insert (headKey runId) (.head seq))
    (hnext : seq = (numbers runId h).length + 1) : RunInv runId (h.ran i c op inp r s') := by
  have hnumbers : numbers runId (h.ran i c op inp r s') = numbers runId h ++ [(i, seq)] := by
    rw [numbers_ran, hn]
    simp [Option.filter]
  have hlength : (numbers runId (h.ran i c op inp r s')).length = seq := by
    rw [hnumbers, List.length_append, List.length_singleton, hnext]
  have hslot : ∀ k, (h.ran i c op inp r s').shared.slot runId k = h.shared.slot runId k := by
    intro k
    show s'.values.lookup _ = _
    rw [hv]
    exact AList.lookup_insert_ne headKey_ne_eventKey.symm
  have hhead : (h.ran i c op inp r s').shared.head runId = some seq := by
    show (s'.values.lookup _).map _ = _
    rw [hv, AList.lookup_insert]
    rfl
  refine ⟨?_, ?_, ?_, ?_, ?_, ?_, ?_⟩
  · rw [hlength, hnumbers, List.map_append, inv.numbered, hnext, List.range'_1_concat,
      List.map_singleton, Nat.add_comm 1]
  · rw [hhead]
    exact nofun
  · intro k hk
    rw [hhead] at hk
    rw [hlength]
    exact (Option.some.inj hk).symm
  · obtain ⟨m, hm, hstored⟩ := inv.stored
    exact ⟨m, by omega, fun k => by rw [hslot]; exact hstored k⟩
  · intro k v hkv
    rw [hslot] at hkv
    exact inv.events k v hkv
  · intro key hkey hpre
    have hkey : key ∈ h.shared.values.insert (headKey runId) (.head seq) := hv ▸ hkey
    rcases (AList.mem_insert _).mp hkey with rfl | hkey
    · exact absurd hpre not_eventPrefix_headKey
    · exact inv.listed key hkey hpre
  · intro e he event hstore
    rw [hslot]
    rw [logEntries_ran] at he
    rcases List.mem_append.mp he with he | he
    · exact inv.puts e he event hstore
    · cases List.mem_singleton.mp he
      rw [hs] at hstore
      cases hstore

/-- The event after the last stored one is stored. -/
theorem RunInv.store (inv : RunInv runId h) {event : GoalStudioEvent}
    (hn : numbering ⟨i, c, op, inp, r, h.shared, s'⟩ = none)
    (hs : storing ⟨i, c, op, inp, r, h.shared, s'⟩ = some (runId, event))
    (hv : s'.values = h.shared.values.insert (eventKey runId event.seq) (.event event))
    (hown : (i, event.seq) ∈ numbers runId h) (hvacant : h.shared.slot runId event.seq = none)
    (hbefore : event.seq ≤ 1 ∨ (h.shared.slot runId (event.seq - 1)).isSome = true) :
    RunInv runId (h.ran i c op inp r s') := by
  have hnumbers : numbers runId (h.ran i c op inp r s') = numbers runId h := by
    rw [numbers_ran, hn]
    exact List.append_nil _
  have hnew : (h.ran i c op inp r s').shared.slot runId event.seq = some (.event event) := by
    show s'.values.lookup _ = _
    rw [hv]
    exact AList.lookup_insert _
  have hold : ∀ k, k ≠ event.seq →
      (h.ran i c op inp r s').shared.slot runId k = h.shared.slot runId k := by
    intro k hk
    show s'.values.lookup _ = _
    rw [hv]
    exact AList.lookup_insert_ne fun heq => hk (eventKey_inj heq)
  have hhead : (h.ran i c op inp r s').shared.head runId = h.shared.head runId := by
    show (s'.values.lookup _).map _ = _
    rw [hv, AList.lookup_insert_ne headKey_ne_eventKey]
    rfl
  have hbounds := inv.number_le hown
  refine ⟨?_, ?_, ?_, ?_, ?_, ?_, ?_⟩
  · rw [hnumbers]
    exact inv.numbered
  · rw [hnumbers, hhead]
    exact inv.absent
  · rw [hnumbers, hhead]
    exact inv.head
  · obtain ⟨m, hm, hstored⟩ := inv.stored
    -- it is the one after the last
    have hlast : event.seq = m + 1 := by
      have hfree : ¬ (1 ≤ event.seq ∧ event.seq ≤ m) := by
        rw [← hstored, hvacant]
        exact nofun
      rcases hbefore with hone | hbefore
      · omega
      · have := (hstored _).mp hbefore
        omega
    rw [hnumbers]
    refine ⟨m + 1, by omega, fun k => ?_⟩
    by_cases hk : k = event.seq
    · rw [hk, hnew]
      simp only [Option.isSome_some, true_iff]
      omega
    · rw [hold k hk, hstored k]
      omega
  · intro k v hkv
    by_cases hk : k = event.seq
    · rw [hk, hnew] at hkv
      exact ⟨event, (Option.some.inj hkv).symm, hk.symm⟩
    · rw [hold k hk] at hkv
      exact inv.events k v hkv
  · intro key hkey hpre
    have hkey : key ∈ h.shared.values.insert (eventKey runId event.seq) (.event event) := hv ▸ hkey
    rcases (AList.mem_insert _).mp hkey with rfl | hkey
    · exact ⟨event.seq, rfl⟩
    · exact inv.listed key hkey hpre
  · intro e he other hstore
    rw [logEntries_ran] at he
    rcases List.mem_append.mp he with he | he
    · have hkept := inv.puts e he other hstore
      rw [hold _ fun heq => by rw [heq, hvacant] at hkept; cases hkept]
      exact hkept
    · cases List.mem_singleton.mp he
      rw [hs] at hstore
      cases hstore
      exact hnew

theorem RunInv.ran (inv : RunInv runId h) (hx : logExec op inp h.shared = some (r, s'))
    (hok : InOrder runId h ⟨i, c, op, inp, r, h.shared, s'⟩)
    (hallowed : Allowed runId h ⟨i, c, op, inp, r, h.shared, s'⟩) :
    RunInv runId (h.ran i c op inp r s') ∧
      (∀ k v, h.shared.slot runId k = some v → s'.slot runId k = some v) ∧
      ∀ k, h.shared.slot runId k = none → (i, k) ∉ numbers runId h →
        s'.slot runId k = none := by
  have apart : ∀ {other key value}, writes ⟨i, c, op, inp, r, h.shared, s'⟩ = some (other, key) →
      other ≠ runId → s'.values = h.shared.values.insert key value →
      ∀ key, Belongs runId key → s'.values.lookup key = h.shared.values.lookup key := by
    intro other key value hw hne hv key' hbelongs
    rw [hv]
    exact AList.lookup_insert_ne fun heq => hok.apart other key hw hne (heq ▸ hbelongs)
  have aside : (∀ k, numbering ⟨i, c, op, inp, r, h.shared, s'⟩ ≠ some (runId, k)) →
      (∀ event, storing ⟨i, c, op, inp, r, h.shared, s'⟩ ≠ some (runId, event)) →
      (∀ key, Belongs runId key → s'.values.lookup key = h.shared.values.lookup key) →
      RunInv runId (h.ran i c op inp r s') ∧
        (∀ k v, h.shared.slot runId k = some v → s'.slot runId k = some v) ∧
        ∀ k, h.shared.slot runId k = none → (i, k) ∉ numbers runId h →
          s'.slot runId k = none := by
    intro hn hs hv
    have hslot : ∀ k, s'.slot runId k = h.shared.slot runId k := fun k =>
      hv _ (.inr eventPrefix_eventKey)
    exact ⟨inv.aside hn hs hv, fun k v => by rw [hslot]; exact id,
      fun k hk _ => by rw [hslot]; exact hk⟩
  have hwrote : Wrote ⟨i, c, op, inp, r, h.shared, s'⟩ := logExec_wrote hx
  cases hwrote with
  | nothing hn hs hv =>
    exact aside (by simp [hn]) (by simp [hs]) fun key _ => by rw [show s'.values = _ from hv]
  | number other seq hn hs hw hv =>
    by_cases hne : other = runId
    · subst hne
      have hslot : ∀ k, s'.slot other k = h.shared.slot other k := by
        intro k
        show s'.values.lookup _ = _
        rw [show s'.values = _ from hv]
        exact AList.lookup_insert_ne headKey_ne_eventKey.symm
      exact ⟨inv.number hn hs hv (hallowed.next seq hn), fun k v => by rw [hslot]; exact id,
        fun k hk _ => by rw [hslot]; exact hk⟩
    · exact aside (by simp [hn, hne]) (by simp [hs]) (apart hw hne hv)
  | store other event hn hs hw hv =>
    by_cases hne : other = runId
    · subst hne
      obtain ⟨hown, hvacant⟩ := hallowed.stores event hs
      have hold : ∀ k, k ≠ event.seq → s'.slot other k = h.shared.slot other k := by
        intro k hk
        show s'.values.lookup _ = _
        rw [show s'.values = _ from hv]
        exact AList.lookup_insert_ne fun heq => hk (eventKey_inj heq)
      refine ⟨inv.store hn hs hv hown hvacant (hok.stored event hs), fun k v hk => ?_,
        fun k hk hnot => ?_⟩
      · rw [hold k fun heq => by rw [heq, hvacant] at hk; cases hk]
        exact hk
      · rw [hold k fun heq => hnot (heq ▸ hown)]
        exact hk
    · exact aside (by simp [hn]) (by simp [hs, hne]) (apart hw hne hv)

end Invariant

end Wazir.Api
