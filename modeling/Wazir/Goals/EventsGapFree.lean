import Wazir.Async.Local
import Wazir.Goals.EventLog

/-! The event log loses nothing while no event falls out of its head's window before it has a key
of its own. -/

namespace Wazir.Goals

open Wazir.Async JsValue

/-- The event that a head update numbers. -/
def allocation (e : EventEntry) : Option (GoalRunId × GoalStudioEvent) :=
  match e.op with
  | .updateHead stream base =>
    if e.input.lands then some (stream, (allocate stream base (e.before.heads.lookup stream)).1)
    else none
  | _ => none

/-- The events of a stream, in the order they got their numbers. -/
def allocated (stream : GoalRunId) (h : EventHist) : List GoalStudioEvent :=
  h.entries.filterMap fun e => ((allocation e).filter fun a => a.1 = stream).map Prod.snd

/-- The head that a command read: its stream and its number. -/
def headRead : EventEntry → Option (GoalRunId × ℕ)
  | ⟨_, _, .getHead stream, _, .ok head, _, _⟩ => some (stream, (head.map EventHead.seq).getD 0)
  | _ => none

/-- What falls out of a head's window when it is updated. -/
def EventHead.oldest (head : EventHead) : List GoalStudioEvent :=
  head.recent.take (head.recent.length + 1 - recentLimit)

/-- A head update finds what it pushes out of the window under a key of its own. -/
def PushesStored (_ : EventHist) (e : EventEntry) : Prop :=
  ∀ stream event, allocation e = some (stream, event) →
    ∀ head, e.before.heads.lookup stream = some head →
      ∀ old ∈ head.oldest, (e.before.events.lookup (stream, old.seq)).isSome = true

/-! The window. -/

theorem recentSlice_append (events : List GoalStudioEvent) (event : GoalStudioEvent) :
    recentSlice (recentSlice events ++ [event]) = recentSlice (events ++ [event]) := by
  have hpos : 0 < recentLimit := by decide
  unfold recentSlice
  generalize recentLimit = limit at hpos ⊢
  by_cases h : events.length ≤ limit
  · rw [Nat.sub_eq_zero_of_le h, List.drop_zero]
  · rw [List.drop_append_of_le_length (by simp; omega),
      List.drop_append_of_le_length (by simp; omega), List.drop_drop]
    congr 2
    simp only [List.length_append, List.length_drop, List.length_singleton]
    omega

/-- An event of the window stays in it or is one of the oldest. -/
theorem mem_recentSlice_or_oldest {head : EventHead} {event old : GoalStudioEvent}
    (h : old ∈ head.recent) :
    old ∈ recentSlice (head.recent ++ [event]) ∨ old ∈ head.oldest := by
  unfold recentSlice EventHead.oldest
  rw [List.length_append, List.length_singleton]
  rw [← List.take_append_drop (head.recent.length + 1 - recentLimit) head.recent,
    List.mem_append] at h
  rcases h with h | h
  · exact .inr h
  · left
    have hpos : 0 < recentLimit := by decide
    rw [List.drop_append_of_le_length (by omega)]
    exact List.mem_append_left _ h

theorem mem_recentSlice_last (events : List GoalStudioEvent) (event : GoalStudioEvent) :
    event ∈ recentSlice (events ++ [event]) := by
  have hpos : 0 < recentLimit := by decide
  rw [recentSlice, List.length_append, List.length_singleton,
    List.drop_append_of_le_length (by omega)]
  exact List.mem_append_right _ (List.mem_singleton_self _)

variable {event : GoalStudioEvent}

theorem recentSlice_subset {events : List GoalStudioEvent} (h : event ∈ recentSlice events) :
    event ∈ events := List.mem_of_mem_drop h

/-! The streams. -/

/-- One stream: its head counts the numbered events and holds the latest, and every numbered event
is under its key or in the head. -/
structure StreamInv (stream : GoalRunId) (h : EventHist) : Prop where
  absent : h.shared.heads.lookup stream = none → allocated stream h = []
  head : ∀ head, h.shared.heads.lookup stream = some head →
    head.seq = (allocated stream h).length ∧ head.recent = recentSlice (allocated stream h)
  numbered : (allocated stream h).map GoalStudioEvent.seq =
    List.range' 1 (allocated stream h).length
  stored : ∀ n event, h.shared.events.lookup (stream, n) = some event →
    event ∈ allocated stream h ∧ event.seq = n
  covered : ∀ event ∈ allocated stream h,
    h.shared.events.lookup (stream, event.seq) = some event ∨
      event ∈ recentSlice (allocated stream h)

variable {s : EventShared} {op : EventOp} {inp : EventInput}

section Streams

variable {stream : GoalRunId} {h : EventHist} {i : ℕ} {c : EventRequest}

/-- A number belongs to one event. -/
theorem StreamInv.unique (inv : StreamInv stream h) {event other : GoalStudioEvent}
    (he : event ∈ allocated stream h) (ho : other ∈ allocated stream h)
    (hseq : event.seq = other.seq) : event = other := by
  have hnodup : ((allocated stream h).map GoalStudioEvent.seq).Nodup := by
    rw [inv.numbered]
    exact List.nodup_range'
  exact List.inj_on_of_nodup_map hnodup he ho hseq

theorem StreamInv.mem_le (inv : StreamInv stream h) (he : event ∈ allocated stream h) :
    1 ≤ event.seq ∧ event.seq ≤ (allocated stream h).length := by
  have hmem : event.seq ∈ (allocated stream h).map GoalStudioEvent.seq :=
    List.mem_map_of_mem he
  rw [inv.numbered, List.mem_range'_1] at hmem
  omega

theorem allocated_ran {r : EventRes op} :
    allocated stream (h.ran i c op inp r s) = allocated stream h ++
      (((allocation ⟨i, c, op, inp, r, h.shared, s⟩).filter fun a => a.1 = stream).map
        Prod.snd).toList := by
  rw [allocated, Hist.ran, Hist.entries_push_ran, List.filterMap_append, ← allocated,
    List.filterMap_cons, List.filterMap_nil]
  cases ((allocation ⟨i, c, op, inp, r, h.shared, s⟩).filter fun a => a.1 = stream).map Prod.snd <;>
    rfl

theorem StreamInv.same {h' : EventHist} (inv : StreamInv stream h)
    (hheads : h'.shared.heads.lookup stream = h.shared.heads.lookup stream)
    (hevents : ∀ n, h'.shared.events.lookup (stream, n) = h.shared.events.lookup (stream, n))
    (hall : allocated stream h' = allocated stream h) : StreamInv stream h' where
  absent := by rw [hheads, hall]; exact inv.absent
  head := by rw [hheads, hall]; exact inv.head
  numbered := by rw [hall]; exact inv.numbered
  stored n event := by rw [hevents, hall]; exact inv.stored n event
  covered event := by rw [hevents, hall]; exact inv.covered event

/-- An event that has its number gets its key. -/
theorem StreamInv.put {h' : EventHist} (inv : StreamInv stream h) (he : event ∈ allocated stream h)
    (hshared : h'.shared = h.shared.putEvent stream event)
    (hall : allocated stream h' = allocated stream h) : StreamInv stream h' := by
  have hheads : h'.shared.heads = h.shared.heads := by rw [hshared]; rfl
  have hown : h'.shared.events.lookup (stream, event.seq) = some event := by
    rw [hshared]
    exact AList.lookup_insert _
  have hother : ∀ n, n ≠ event.seq →
      h'.shared.events.lookup (stream, n) = h.shared.events.lookup (stream, n) := by
    intro n hn
    rw [hshared]
    exact AList.lookup_insert_ne fun heq => hn (congrArg Prod.snd heq)
  constructor
  · rw [hheads, hall]
    exact inv.absent
  · rw [hheads, hall]
    exact inv.head
  · rw [hall]
    exact inv.numbered
  · intro n other hlookup
    rw [hall]
    by_cases hn : n = event.seq
    · rw [hn, hown] at hlookup
      cases hlookup
      exact ⟨he, hn.symm⟩
    · rw [hother n hn] at hlookup
      exact inv.stored n other hlookup
  · intro other ho
    rw [hall] at ho ⊢
    by_cases hn : other.seq = event.seq
    · left
      rw [hn, hown, inv.unique ho he hn]
    · rw [hother _ hn]
      exact inv.covered other ho

/-- The next number is given out. What the window loses is stored. -/
theorem StreamInv.allocate {h' : EventHist} {base : EventBody} (inv : StreamInv stream h)
    (hshared : h'.shared = h.shared.allocate stream base)
    (hall : allocated stream h' = allocated stream h ++
      [(Goals.allocate stream base (h.shared.heads.lookup stream)).1])
    (hold : ∀ head, h.shared.heads.lookup stream = some head → ∀ old ∈ head.oldest,
      (h.shared.events.lookup (stream, old.seq)).isSome = true) : StreamInv stream h' := by
  have hlookup : h'.shared.heads.lookup stream =
      some (Goals.allocate stream base (h.shared.heads.lookup stream)).2 := by
    rw [hshared]
    exact AList.lookup_insert _
  have hevents : h'.shared.events = h.shared.events := by rw [hshared]; rfl
  -- the head before, whether there was one or not
  obtain ⟨head, hget, hseq, hrecent, hold⟩ : ∃ head : EventHead,
      (h.shared.heads.lookup stream).getD ⟨1, stream, 0, []⟩ = head ∧
        head.seq = (allocated stream h).length ∧ head.recent = recentSlice (allocated stream h) ∧
          ∀ old ∈ head.oldest, (h.shared.events.lookup (stream, old.seq)).isSome = true := by
    cases hbefore : h.shared.heads.lookup stream with
    | none => exact ⟨_, rfl, by simp [inv.absent hbefore, recentSlice, EventHead.oldest]⟩
    | some head =>
      obtain ⟨hseq, hrecent⟩ := inv.head head hbefore
      exact ⟨_, rfl, hseq, hrecent, hold head hbefore⟩
  rw [Goals.allocate, hget] at hlookup hall
  simp only at hlookup hall
  rw [hseq, hrecent, recentSlice_append] at hlookup
  rw [hseq] at hall
  generalize hevent : (⟨base, (allocated stream h).length + 1⟩ : GoalStudioEvent) = event at hlookup hall
  have hnumber : event.seq = (allocated stream h).length + 1 := by rw [← hevent]
  constructor
  · intro hnone
    rw [hlookup] at hnone
    cases hnone
  · intro head' hhead'
    rw [hlookup] at hhead'
    cases hhead'
    rw [hall, List.length_append, List.length_singleton]
    exact ⟨rfl, rfl⟩
  · rw [hall, List.map_append, inv.numbered, List.length_append, List.length_singleton,
      List.range'_1_concat, List.map_singleton, hnumber, Nat.add_comm 1]
  · intro n other hother
    rw [hevents] at hother
    rw [hall]
    exact (inv.stored n other hother).imp_left (List.mem_append_left _)
  · intro other hother
    rw [hall] at hother ⊢
    rw [hevents]
    rcases List.mem_append.mp hother with hother | hother
    · rcases inv.covered other hother with hkept | hwindow
      · exact .inl hkept
      · rw [← hrecent] at hwindow
        rcases @mem_recentSlice_or_oldest _ event _ hwindow with hin | hout
        · right
          rwa [hrecent, recentSlice_append] at hin
        · left
          obtain ⟨kept, hkept⟩ := Option.isSome_iff_exists.mp (hold other hout)
          obtain ⟨hmem, hsame⟩ := inv.stored _ _ hkept
          rwa [inv.unique hmem hother hsame] at hkept
    · rw [List.mem_singleton.mp hother]
      exact .inr (mem_recentSlice_last _ _)

end Streams

/-! Reading. -/

/-- Events numbered from one on. -/
def Numbered (events : List GoalStudioEvent) : Prop :=
  events.map GoalStudioEvent.seq = List.range' 1 events.length

section Reading

variable {all listed recent : List GoalStudioEvent}

theorem Numbered.getElem? (h : Numbered all) {k : ℕ} :
    all[k]? = some event ↔ event ∈ all ∧ event.seq = k + 1 := by
  have hseq : ∀ {k event}, all[k]? = some event → event.seq = k + 1 := by
    intro k event hget
    have hlt := (List.getElem?_eq_some_iff.mp hget).1
    have hnth := congrArg (fun l => l[k]?) h
    simp only [List.getElem?_map, hget, Option.map_some, List.getElem?_range' hlt] at hnth
    have := Option.some.inj hnth
    omega
  constructor
  · exact fun hget => ⟨List.mem_of_getElem? hget, hseq hget⟩
  · rintro ⟨hmem, hk⟩
    obtain ⟨j, hj⟩ := List.mem_iff_getElem?.mp hmem
    have := hseq hj
    rwa [show k = j by omega]

theorem Numbered.mem_slice (h : Numbered all) {n after : ℕ} :
    event ∈ (all.take n).drop after ↔ event ∈ all ∧ after < event.seq ∧ event.seq ≤ n := by
  rw [List.mem_iff_getElem?]
  constructor
  · rintro ⟨k, hk⟩
    rw [List.getElem?_drop, List.getElem?_take] at hk
    split_ifs at hk with hlt
    obtain ⟨hmem, hseq⟩ := h.getElem?.mp hk
    exact ⟨hmem, by omega, by omega⟩
  · rintro ⟨hmem, hafter, hn⟩
    refine ⟨event.seq - 1 - after, ?_⟩
    rw [List.getElem?_drop, List.getElem?_take, if_pos (by omega), h.getElem?]
    exact ⟨hmem, by omega⟩

theorem Numbered.slice_sorted (h : Numbered all) (n after : ℕ) :
    ((all.take n).drop after).Pairwise fun a b => a.seq < b.seq := by
  have hall : all.Pairwise fun a b => a.seq < b.seq := by
    rw [← List.pairwise_map (f := GoalStudioEvent.seq) (R := (· < ·)), h]
    exact List.pairwise_lt_range'
  exact hall.sublist ((List.drop_sublist _ _).trans (List.take_sublist _ _))

/-- Keys of a table that is filled up where it has none. -/
theorem lookup_fill {f : ℕ → Option GoalStudioEvent} {l : List GoalStudioEvent}
    (hf : ∀ e ∈ l, f e.seq = some e) {m : Table ℕ GoalStudioEvent}
    (hm : ∀ n e, m.lookup n = some e → f n = some e) (n : ℕ) (e : GoalStudioEvent) :
    (l.foldl (fun m e => if e.seq ∈ m then m else m.insert e.seq e) m).lookup n = some e ↔
      f n = some e ∧ (n ∈ m ∨ n ∈ l.map GoalStudioEvent.seq) := by
  induction l generalizing m with
  | nil =>
    rw [List.foldl_nil, List.map_nil]
    constructor
    · exact fun hn => ⟨hm n e hn, .inl (AList.lookup_isSome.mp (by rw [hn]; rfl))⟩
    · rintro ⟨hn, hmem | hmem⟩
      · obtain ⟨e', he'⟩ := Option.isSome_iff_exists.mp (AList.lookup_isSome.mpr hmem)
        rw [hm n e' he'] at hn
        rwa [hn] at he'
      · cases hmem
  | cons first rest ih =>
    rw [List.forall_mem_cons] at hf
    rw [List.foldl_cons, List.map_cons, List.mem_cons]
    split_ifs with hfirst
    · rw [ih hf.2 hm]
      refine and_congr_right fun _ => ?_
      constructor
      · exact Or.imp_right .inr
      · rintro (hn | rfl | hn)
        · exact .inl hn
        · exact .inl hfirst
        · exact .inr hn
    · rw [ih hf.2]
      · rw [AList.mem_insert]
        refine and_congr_right fun _ => ?_
        rw [or_assoc, or_left_comm]
      · intro k e' hk
        by_cases hkey : k = first.seq
        · subst hkey
          rw [AList.lookup_insert] at hk
          cases hk
          exact hf.1
        · rw [AList.lookup_insert_ne hkey] at hk
          exact hm k e' hk

/-- The number of an event is its place. -/
theorem Numbered.place (h : Numbered all) (he : event ∈ all) :
    all[event.seq - 1]? = some event := by
  have hseq : event.seq ∈ all.map GoalStudioEvent.seq := List.mem_map_of_mem he
  rw [h, List.mem_range'_1] at hseq
  rw [h.getElem?]
  exact ⟨he, by omega⟩

theorem mem_collected (hall : Numbered all) (hlisted : ∀ e ∈ listed, e ∈ all)
    (hrecent : ∀ e ∈ recent, e ∈ all) (n : ℕ) (e : GoalStudioEvent) :
    (GoalEventLog.collected listed recent).lookup n = some e ↔
      (e ∈ listed ∨ e ∈ recent) ∧ e.seq = n := by
  have hfirst := lookup_foldl_insert (f := fun n => all[n - 1]?) (k := GoalStudioEvent.seq)
    (v := fun e => e) (fun e he => hall.place (hlisted e he)) ∅
  have hkeys : ∀ k, k ∈ listed.foldl (fun m e => m.insert e.seq e) (∅ : Table ℕ GoalStudioEvent) ↔
      k ∈ listed.map GoalStudioEvent.seq := by
    intro k
    rw [← AList.lookup_isSome, hfirst]
    split_ifs with hk
    · obtain ⟨e', he', rfl⟩ := List.mem_map.mp hk
      simp only [hall.place (hlisted e' he'), Option.isSome_some, hk]
    · simp [hk]
  have hsame : ∀ {e'}, e' ∈ all → e'.seq = n → all[n - 1]? = some e → e' = e := by
    rintro e' he' rfl hplace
    rw [hall.place he'] at hplace
    exact Option.some.inj hplace
  rw [GoalEventLog.collected, lookup_fill (f := fun n => all[n - 1]?)
    (fun e he => hall.place (hrecent e he)) (fun k e' hk => ?_), hkeys]
  · constructor
    · rintro ⟨hplace, hk | hk⟩
      · obtain ⟨e', he', hseq⟩ := List.mem_map.mp hk
        obtain rfl := hsame (hlisted e' he') hseq hplace
        exact ⟨.inl he', hseq⟩
      · obtain ⟨e', he', hseq⟩ := List.mem_map.mp hk
        obtain rfl := hsame (hrecent e' he') hseq hplace
        exact ⟨.inr he', hseq⟩
    · rintro ⟨he | he, rfl⟩
      · exact ⟨hall.place (hlisted e he), .inl (List.mem_map_of_mem he)⟩
      · exact ⟨hall.place (hrecent e he), .inr (List.mem_map_of_mem he)⟩
  · rw [hfirst] at hk
    split_ifs at hk
    · exact hk
    · cases hk

/-- A read that finds every event up to its head finds them in order. -/
theorem readEvents_eq (hall : Numbered all) {head : EventHead} (hlisted : ∀ e ∈ listed, e ∈ all)
    (hrecent : ∀ e ∈ head.recent, e ∈ all)
    (hcover : ∀ e ∈ all, e.seq ≤ head.seq → e ∈ listed ∨ e ∈ head.recent) (after max : ℕ) :
    GoalEventLog.readEvents head listed after max =
      ((all.take head.seq).drop after).take max := by
  rw [GoalEventLog.readEvents]
  congr 1
  generalize hfound : (((GoalEventLog.collected listed head.recent).entries.map fun kv => kv.2).filter
    fun e => after < e.seq && e.seq ≤ head.seq) = found
  have hmem : ∀ e, e ∈ found ↔ e ∈ (all.take head.seq).drop after := by
    intro e
    rw [← hfound, List.mem_filter, List.mem_map, hall.mem_slice]
    simp only [Bool.and_eq_true, decide_eq_true_eq]
    constructor
    · rintro ⟨⟨kv, hkv, rfl⟩, hrange⟩
      have hlookup := AList.mem_lookup_iff.mpr hkv
      obtain ⟨hmem, -⟩ := (mem_collected hall hlisted hrecent kv.1 kv.2).mp hlookup
      exact ⟨hmem.elim (hlisted _) (hrecent _), hrange⟩
    · rintro ⟨he, hrange⟩
      have hlookup := (mem_collected hall hlisted hrecent e.seq e).mpr ⟨hcover e he hrange.2, rfl⟩
      exact ⟨⟨⟨e.seq, e⟩, AList.mem_lookup_iff.mp hlookup, rfl⟩, hrange⟩
  have hapart : found.Pairwise fun a b => a.seq ≠ b.seq := by
    have hkey : ∀ kv ∈ (GoalEventLog.collected listed head.recent).entries, kv.2.seq = kv.1 :=
      fun kv hkv =>
        ((mem_collected hall hlisted hrecent kv.1 kv.2).mp (AList.mem_lookup_iff.mpr hkv)).2
    rw [← hfound]
    refine List.Pairwise.filter _ (List.pairwise_map.mpr ?_)
    refine (List.nodupKeys_iff_pairwise.mp (AList.nodupKeys _)).imp_of_mem fun ha hb hne => ?_
    rwa [hkey _ ha, hkey _ hb]
  have hsorted : (sortBy (fun a b => compare a.seq b.seq) found).Pairwise
      fun a b => a.seq ≤ b.seq := by
    have hle : ∀ a b : GoalStudioEvent, compare a.seq b.seq ≠ .gt ↔ a.seq ≤ b.seq :=
      fun a b => Nat.compare_ne_gt
    have : Std.Total fun a b : GoalStudioEvent => compare a.seq b.seq ≠ .gt :=
      ⟨fun a b => by rw [hle, hle]; exact le_total _ _⟩
    have : IsTrans GoalStudioEvent fun a b => compare a.seq b.seq ≠ .gt :=
      ⟨fun a b c => by rw [hle, hle, hle]; exact le_trans⟩
    exact (List.pairwise_insertionSort _ found).imp fun h => (hle _ _).mp h
  have hslice := hall.slice_sorted head.seq after
  refine List.Perm.eq_of_pairwise (fun a b ha hb hab hba => ?_)
    hsorted (hslice.imp fun h => h.le) ?_
  · have ha' := hall.place (hall.mem_slice.mp ((hmem a).mp (mem_sortBy.mp ha))).1
    rw [le_antisymm hab hba, hall.place (hall.mem_slice.mp hb).1] at ha'
    exact (Option.some.inj ha').symm
  · refine (List.perm_insertionSort _ _).trans ((List.perm_ext_iff_of_nodup ?_ ?_).mpr hmem)
    · exact hapart.imp fun hne heq => hne (congrArg _ heq)
    · exact hslice.imp fun hlt heq => hlt.ne (congrArg _ heq)

end Reading

/-- The contract: the streams keep their invariant, and nothing that is stored changes. -/
def eventContract : Contract EventOp EventRes EventRequest ℕ EventInput EventShared where
  Ok h := h.Always PushesStored
  Inv h := ∀ stream, StreamInv stream h
  Rely _ _ h h' := h.events <+: h'.events ∧
    ∀ key event, h.shared.events.lookup key = some event →
      h'.shared.events.lookup key = some event

abbrev EventSafe {α : Type} (i : ℕ) (c : EventRequest) (Q : Except Thrown α → EventHist → Prop)
    (p : EventProg α) (h : EventHist) : Prop :=
  Safe eventSystem eventContract i c Q p h

section Safety

variable {stream : GoalRunId} {h h' : EventHist} {i : ℕ} {c : EventRequest} {α : Type}
  {Q : Except Thrown α → EventHist → Prop}

/-- Numbers that were given out stay. -/
theorem allocated_mono (hp : h.events <+: h'.events) :
    allocated stream h <+: allocated stream h' :=
  (hp.filterMap _).filterMap _

theorem Hist.prefix_ran {r : EventRes op} :
    h.events <+: (h.ran i c op inp r s).events := List.prefix_append _ _

theorem mem_allocated_ran (he : event ∈ allocated stream h) (hp : h.events <+: h'.events)
    {r : EventRes op} : event ∈ allocated stream (h'.ran i c op inp r s) :=
  (allocated_mono (hp.trans Hist.prefix_ran)).subset he

/-- Reading changes nothing. -/
theorem eventQuiet_safe {next : EventRes op → EventProg α}
    (hupdate : ∀ stream base, op ≠ .updateHead stream base)
    (hput : ∀ stream event, op ≠ .putEvent stream event)
    (hnext : ∀ (h' : EventHist) inp, eventContract.Rely i c h h' → eventContract.Inv h' →
      EventSafe i c Q (next (eventExec op inp h'.shared).1)
        (h'.ran i c op inp (eventExec op inp h'.shared).1 h'.shared)) :
    EventSafe i c Q (.call op next) h := by
  intro h' inp r s hrely hinv hx _
  obtain ⟨rfl, rfl⟩ : (eventExec op inp h'.shared).1 = r ∧ h'.shared = s := by
    have hs : (eventExec op inp h'.shared).2 = h'.shared := by
      cases op with
      | updateHead stream base => exact absurd rfl (hupdate stream base)
      | putEvent stream event => exact absurd rfl (hput stream event)
      | _ => rfl
    have hboth := Option.some.inj hx
    exact ⟨congrArg Prod.fst hboth, hs.symm.trans (congrArg Prod.snd hboth)⟩
  refine ⟨fun stream => ?_, fun j d _ => ⟨Hist.prefix_ran, fun _ _ h => h⟩, hnext h' inp hrely hinv⟩
  refine (hinv stream).same rfl (fun _ => rfl) ?_
  rw [allocated_ran]
  cases op with
  | updateHead stream base => exact absurd rfl (hupdate stream base)
  | _ => exact List.append_nil _

/-- An event that has its number is put under it. -/
theorem putEvent_safe {next : EventRes (.putEvent stream event) → EventProg α}
    (he : event ∈ allocated stream h)
    (hnext : ∀ (h' : EventHist) inp s, eventContract.Rely i c h h' →
      EventSafe i c Q (next (guarded inp.fault ()))
        (h'.ran i c (.putEvent stream event) inp (guarded inp.fault ()) s)) :
    EventSafe i c Q (.call (.putEvent stream event) next) h := by
  intro h' inp r s hrely hinv hx _
  have hall : ∀ other, allocated other (h'.ran i c (.putEvent stream event) inp r s) =
      allocated other h' := by
    intro other
    rw [allocated_ran]
    exact List.append_nil _
  have hmem := (allocated_mono hrely.1).subset he
  have hboth := Option.some.inj hx
  simp only [eventExec, Prod.mk.injEq] at hboth
  obtain ⟨rfl, hs⟩ := hboth
  by_cases hlands : inp.lands = true
  · rw [if_pos hlands] at hs
    subst hs
    refine ⟨fun other => ?_, fun j d _ => ⟨Hist.prefix_ran, fun key old hold => ?_⟩,
      hnext h' inp _ hrely⟩
    · by_cases ho : other = stream
      · subst ho
        exact (hinv other).put hmem rfl (hall other)
      · refine (hinv other).same rfl (fun n => ?_) (hall other)
        exact AList.lookup_insert_ne fun heq => ho (congrArg Prod.fst heq)
    · by_cases hkey : key = (stream, event.seq)
      · subst hkey
        obtain ⟨hold', hseq⟩ := (hinv stream).stored _ _ hold
        rw [(hinv stream).unique hold' hmem hseq]
        exact AList.lookup_insert _
      · exact (AList.lookup_insert_ne hkey).trans hold
  · rw [if_neg hlands] at hs
    subst hs
    exact ⟨fun other => (hinv other).same rfl (fun _ => rfl) (hall other),
      fun j d _ => ⟨Hist.prefix_ran, fun _ _ h => h⟩, hnext h' inp _ hrely⟩

/-- A head update numbers its event; the condition keeps what the window loses. -/
theorem updateHead_safe {base : EventBody} {next : EventRes (.updateHead stream base) → EventProg α}
    (hnext : ∀ (h' : EventHist) inp r s,
      (∀ event, r = .ok event → event ∈ allocated stream (h'.ran i c (.updateHead stream base) inp r s)) →
      EventSafe i c Q (next r) (h'.ran i c (.updateHead stream base) inp r s)) :
    EventSafe i c Q (.call (.updateHead stream base) next) h := by
  intro h' inp r s _ hinv hx hok
  have hboth := Option.some.inj hx
  simp only [eventExec, Prod.mk.injEq] at hboth
  obtain ⟨hr, hs⟩ := hboth
  by_cases hlands : inp.lands = true
  · rw [if_pos hlands] at hs
    have hallocation : allocation ⟨i, c, .updateHead stream base, inp, r, h'.shared, s⟩ =
        some (stream, (Goals.allocate stream base (h'.shared.heads.lookup stream)).1) :=
      if_pos hlands
    have hall : allocated stream (h'.ran i c (.updateHead stream base) inp r s) =
        allocated stream h' ++
          [(Goals.allocate stream base (h'.shared.heads.lookup stream)).1] := by
      rw [allocated_ran, hallocation]
      simp
    have hstored := Hist.Always.last hok rfl _ _ hallocation
    refine ⟨fun other => ?_, fun j d _ => ⟨Hist.prefix_ran, fun key old hold => ?_⟩,
      hnext h' inp r s fun event hevent => ?_⟩
    · by_cases ho : other = stream
      · subst ho
        exact (hinv other).allocate hs.symm hall hstored
      · refine (hinv other).same ?_ (fun n => ?_) ?_
        · change s.heads.lookup other = _
          rw [← hs]
          exact AList.lookup_insert_ne ho
        · change s.events.lookup _ = _
          rw [← hs]
          rfl
        · rw [allocated_ran, hallocation]
          simp [Ne.symm ho]
    · change s.events.lookup key = _
      rw [← hs]
      exact hold
    · subst hr
      rw [hall, ← guarded_ok hevent]
      exact List.mem_append_right _ (List.mem_singleton_self _)
  · rw [if_neg hlands] at hs
    subst hs
    have hnone : allocation ⟨i, c, .updateHead stream base, inp, r, h'.shared, h'.shared⟩ = none :=
      if_neg hlands
    have hall : ∀ other, allocated other (h'.ran i c (.updateHead stream base) inp r h'.shared) =
        allocated other h' := by
      intro other
      rw [allocated_ran, hnone]
      exact List.append_nil _
    refine ⟨fun other => (hinv other).same rfl (fun _ => rfl) (hall other),
      fun j d _ => ⟨Hist.prefix_ran, fun _ _ h => h⟩, hnext h' inp r _ fun event hevent => ?_⟩
    -- the update failed, so there is no event
    rw [← hr] at hevent
    cases hfault : inp.fault with
    | none => simp [EventInput.lands, hfault] at hlands
    | some x =>
      rw [hfault] at hevent
      cases hevent

theorem eventMaterialise_safe {events : List GoalStudioEvent}
    (hall : ∀ event ∈ events, event ∈ allocated stream h) :
    EventSafe i c (fun _ _ => True) (GoalEventLog.materialise stream events) h := by
  induction events generalizing h with
  | nil => trivial
  | cons event rest ih =>
    rw [List.forall_mem_cons] at hall
    refine eventQuiet_safe (fun _ _ hop => by cases hop) (fun _ _ hop => by cases hop)
      fun h₁ inp hrely _ => ?_
    cases hpresent : (eventExec (.getEvent stream event.seq) inp h₁.shared).1 with
    | error x => trivial
    | ok present =>
      cases present with
      | some old => exact ih fun other ho => mem_allocated_ran (hall.2 other ho) hrely.1
      | none =>
        refine putEvent_safe (mem_allocated_ran hall.1 hrely.1) fun h₂ inp₂ s₂ hrely₂ => ?_
        cases guarded inp₂.fault () with
        | error x => trivial
        | ok _ =>
          exact ih fun other ho => mem_allocated_ran (mem_allocated_ran (hall.2 other ho) hrely.1)
            hrely₂.1

theorem timestampOr_safe {timestamp : Option String} :
    EventSafe i c (fun _ _ => True) (GoalEventLog.timestampOr timestamp) h := by
  cases timestamp with
  | some t => trivial
  | none =>
    refine eventQuiet_safe (fun _ _ hop => by cases hop) (fun _ _ hop => by cases hop)
      fun h₁ inp _ _ => ?_
    cases hnow : inp.now with
    | none =>
      simp only [eventExec, hnow]
      trivial
    | some t =>
      simp only [eventExec, hnow]
      trivial

/-- The stream that an event goes to. -/
def streamOf (runId : Option GoalRunId) : GoalRunId := runId.getD GoalEventLog.globalEventStream

theorem eventAppend_safe {input : GoalEventInput} :
    EventSafe i c (fun out h => ∀ event, out = .ok event → event ∈ allocated (streamOf input.runId) h)
      (GoalEventLog.append input) h := by
  unfold GoalEventLog.append
  by_cases htype : input.type = ""
  · rw [if_pos htype]
    rintro _ ⟨⟩
  rw [if_neg htype]
  by_cases hvalid : (!GoalLedgerStore.validRunId (input.runId.getD GoalEventLog.globalEventStream)) =
      true
  · dsimp only
    rw [if_pos hvalid]
    rintro _ ⟨⟩
  dsimp only
  rw [if_neg hvalid]
  refine timestampOr_safe.bind (fun timestamp h₁ _ => ?_) fun x h₁ _ => by rintro _ ⟨⟩
  refine eventQuiet_safe (fun _ _ hop => by cases hop) (fun _ _ hop => by cases hop)
    fun h₂ inp hrely hinv => ?_
  cases hhead : (eventExec (.getHead (input.runId.getD GoalEventLog.globalEventStream)) inp
      h₂.shared).1 with
  | error x => rintro _ ⟨⟩
  | ok before =>
    have hbefore : h₂.shared.heads.lookup (streamOf input.runId) = before := guarded_ok hhead
    have hrecent : ∀ event ∈ (before.map EventHead.recent).getD [],
        event ∈ allocated (streamOf input.runId) h₂ := by
      intro event hevent
      cases before with
      | none => cases hevent
      | some head =>
        have hwindow := ((hinv _).head head hbefore).2
        rw [Option.map_some, Option.getD_some, hwindow] at hevent
        exact recentSlice_subset hevent
    refine (eventMaterialise_safe fun event he =>
      mem_allocated_ran (hrecent event he) (List.prefix_refl _)).bind (fun _ h₃ _ => ?_)
      fun x h₃ _ => by rintro _ ⟨⟩
    refine updateHead_safe fun h₄ inp₄ r s₄ hnumbered => ?_
    cases r with
    | error x => rintro _ ⟨⟩
    | ok event =>
      refine putEvent_safe (hnumbered event rfl) fun h₅ inp₅ s₅ hrely₅ => ?_
      rintro _ ⟨⟩
      exact mem_allocated_ran (hnumbered event rfl) hrely₅.1

/-- The thread has read the head of the stream, when that head counted so many events. -/
def HeadRead (i : ℕ) (stream : GoalRunId) (n : ℕ) (h : EventHist) : Prop :=
  ∃ pre e post, h.events = pre ++ .ran e :: post ∧ e.thread = i ∧
    headRead e = some (stream, n) ∧ (allocated stream ⟨pre, e.before⟩).length = n

/-- What a read returns: of the events its head counts, those after a number, up to a limit. -/
def ReadDone (i : ℕ) (stream : GoalRunId) (after max : ℕ) (events : List GoalStudioEvent)
    (h : EventHist) : Prop :=
  ∃ n, HeadRead i stream n h ∧ events = (((allocated stream h).take n).drop after).take max

theorem HeadRead.later {n : ℕ} (hread : HeadRead i stream n h) (hp : h.events <+: h'.events) :
    HeadRead i stream n h' := by
  obtain ⟨pre, e, post, he, hrest⟩ := hread
  obtain ⟨more, hmore⟩ := hp
  exact ⟨pre, e, post ++ more, by rw [← hmore, he]; simp, hrest⟩

theorem mem_listEvents :
    event ∈ s.listEvents stream ↔ ∃ n, s.events.lookup (stream, n) = some event := by
  simp only [EventShared.listEvents, List.mem_map, List.mem_filter, decide_eq_true_eq]
  constructor
  · rintro ⟨⟨⟨_, n⟩, event⟩, ⟨hmem, rfl⟩, rfl⟩
    exact ⟨n, AList.mem_lookup_iff.mpr hmem⟩
  · rintro ⟨n, hn⟩
    exact ⟨⟨(stream, n), event⟩, ⟨AList.mem_lookup_iff.mp hn, rfl⟩, rfl⟩

theorem eventRead_safe {runId : Option GoalRunId} {afterSeq limit : JsNumber} :
    EventSafe i c (fun out h => ∀ events, out = .ok events →
      ReadDone i (streamOf runId) (GoalEventLog.readAfter afterSeq) (GoalEventLog.readMax limit)
        events h)
      (GoalEventLog.read runId afterSeq limit) h := by
  refine eventQuiet_safe (fun _ _ hop => by cases hop) (fun _ _ hop => by cases hop)
    fun h₁ inp _ hinv₁ => ?_
  have inv₁ := hinv₁ (streamOf runId)
  cases hhead : (eventExec (.getHead (runId.getD GoalEventLog.globalEventStream)) inp
      h₁.shared).1 with
  | error x => rintro _ ⟨⟩
  | ok head =>
    have hlookup : h₁.shared.heads.lookup (streamOf runId) = head := guarded_ok hhead
    have hread : HeadRead i (streamOf runId) ((head.map EventHead.seq).getD 0)
        (h₁.ran i c (.getHead (streamOf runId)) inp (.ok head) h₁.shared) := by
      refine ⟨h₁.events, _, [], rfl, rfl, rfl, ?_⟩
      cases head with
      | none => exact congrArg List.length (inv₁.absent hlookup)
      | some head => exact (inv₁.head head hlookup).1.symm
    cases head with
    | none =>
      rintro _ ⟨⟩
      exact ⟨0, hread, by simp⟩
    | some head =>
      obtain ⟨hseq, hrecent⟩ := inv₁.head head hlookup
      refine eventQuiet_safe (fun _ _ hop => by cases hop) (fun _ _ hop => by cases hop)
        fun h₂ inp₂ hrely₂ hinv₂ => ?_
      have inv₂ := hinv₂ (streamOf runId)
      cases hlist : (eventExec (.listEvents (runId.getD GoalEventLog.globalEventStream)) inp₂
          h₂.shared).1 with
      | error x => rintro _ ⟨⟩
      | ok listed =>
        obtain rfl : h₂.shared.listEvents (streamOf runId) = listed := guarded_ok hlist
        rintro _ ⟨⟩
        have hsame : allocated (streamOf runId) (h₂.ran i c
            (.listEvents (runId.getD GoalEventLog.globalEventStream)) inp₂
            (.ok (h₂.shared.listEvents (streamOf runId))) h₂.shared) =
              allocated (streamOf runId) h₂ := by
          rw [allocated_ran]
          exact List.append_nil _
        have hbefore : allocated (streamOf runId) h₁ <+: allocated (streamOf runId) h₂ :=
          allocated_mono (Hist.prefix_ran.trans hrely₂.1)
        refine ⟨head.seq, (hread.later hrely₂.1).later Hist.prefix_ran, ?_⟩
        rw [hsame]
        refine readEvents_eq inv₂.numbered (fun e he => ?_) (fun e he => ?_)
          (fun e he hle => ?_) _ _
        · obtain ⟨n, hn⟩ := mem_listEvents.mp he
          exact (inv₂.stored n e hn).1
        · rw [hrecent] at he
          exact hbefore.subset (recentSlice_subset he)
        · have hold : e ∈ allocated (streamOf runId) h₁ := by
            have hpos := inv₂.mem_le he
            have hplace := Numbered.place inv₂.numbered he
            obtain ⟨rest, hrest⟩ := hbefore
            rw [← hrest, List.getElem?_append_left (by omega)] at hplace
            exact List.mem_of_getElem? hplace
          rcases inv₁.covered e hold with hkept | hwindow
          · exact .inl (mem_listEvents.mpr ⟨e.seq, hrely₂.2 _ _ hkept⟩)
          · exact .inr (hrecent ▸ hwindow)

/-- What each call has done when it returns. -/
def EventRequest.Done (i : ℕ) (c : EventRequest) (out : Except Thrown EventReply)
    (h : EventHist) : Prop :=
  match c.call, out with
  | .append input, .ok (.appended event) => event ∈ allocated (streamOf input.runId) h
  | .read runId afterSeq limit, .ok (.events events) =>
    ReadDone i (streamOf runId) (GoalEventLog.readAfter afterSeq) (GoalEventLog.readMax limit)
      events h
  | _, _ => True

theorem eventBody_safe : EventSafe i c (c.Done i) c.body h := by
  obtain ⟨process, call⟩ := c
  cases call with
  | append input =>
    exact eventAppend_safe.bind (fun event h₁ hevent => hevent event rfl) fun _ _ _ => trivial
  | read runId afterSeq limit =>
    exact eventRead_safe.bind (fun events h₁ hevents => hevents events rfl) fun _ _ _ => trivial

theorem eventUpheld : eventContract.Upheld eventSystem fun i c => c.Done i where
  okPrefix _ _ _ hok := hok.past
  refl _ _ _ := ⟨List.prefix_refl _, fun _ _ h => h⟩
  trans _ _ _ _ _ h₁ h₂ := ⟨h₁.1.trans h₂.1, fun key event h => h₂.2 _ _ (h₁.2 _ _ h)⟩
  began h i c s inv _ _ hadm _ := by
    cases hadm
    refine ⟨fun stream => (inv stream).same rfl (fun _ => rfl) ?_,
      fun _ _ _ => ⟨List.prefix_append _ _, fun _ _ h => h⟩, eventBody_safe⟩
    rw [allocated, Hist.entries_push_began]
    rfl
  crashed h p inv _ := by
    refine ⟨fun stream => (inv stream).same rfl (fun _ => rfl) ?_,
      fun _ _ _ => ⟨List.prefix_append _ _, fun _ _ h => h⟩⟩
    rw [allocated, Hist.entries_push_crashed]
    rfl

theorem eventInv_start : eventContract.Inv ⟨[], emptyEvents⟩ := by
  intro stream
  constructor
  · exact fun _ => rfl
  · intro head hhead
    cases hhead
  · rfl
  · intro n event hevent
    cases hevent
  · intro event hevent
    cases hevent

end Safety

/-- What the streams of a run amount to: each is numbered from one, and every read returns the
events that its head counts, from where it starts, without a gap. -/
structure EventsGapFree (cfg : EventConfig) : Prop where
  numbered : ∀ stream, Numbered (allocated stream cfg.hist)
  appended : ∀ i process input event,
    HasReturned eventSystem emptyEvents cfg i ⟨process, .append input⟩ (.appended event) →
      event ∈ allocated (streamOf input.runId) cfg.hist
  read : ∀ i process runId afterSeq limit events,
    HasReturned eventSystem emptyEvents cfg i ⟨process, .read runId afterSeq limit⟩
      (.events events) →
      ∃ n, HeadRead i (streamOf runId) n cfg.hist ∧
        events = (((allocated (streamOf runId) cfg.hist).take n).drop
          (GoalEventLog.readAfter afterSeq)).take (GoalEventLog.readMax limit) ∧
        events.map GoalStudioEvent.seq = List.range' (GoalEventLog.readAfter afterSeq + 1)
          (min (GoalEventLog.readMax limit) (n - GoalEventLog.readAfter afterSeq))

theorem Numbered.slice_seqs {all : List GoalStudioEvent} (hall : Numbered all) {n : ℕ}
    (hn : n ≤ all.length) (after max : ℕ) :
    (((all.take n).drop after).take max).map GoalStudioEvent.seq =
      List.range' (after + 1) (min max (n - after)) := by
  have htake : ∀ s m k, (List.range' s m).take k = List.range' s (min k m) := by
    intro s m k
    rcases le_total m k with hle | hle
    · rw [List.take_range'_of_length_le hle, Nat.min_eq_right hle]
    · rw [List.take_range'_of_length_ge hle, Nat.min_eq_left hle]
  rw [List.map_take, List.map_drop, List.map_take, hall, htake, List.drop_range', htake,
    Nat.min_eq_left hn, Nat.mul_one, Nat.add_comm 1]

/-- No run that keeps what its windows lose has a gap. -/
theorem events_gapFree {cfg : EventConfig} (hr : Reach eventSystem emptyEvents cfg)
    (hok : cfg.hist.Always PushesStored) : EventsGapFree cfg := by
  have inv := (eventUpheld.run eventInv_start hr hok).1
  have ended : ∀ {i c reply}, HasReturned eventSystem emptyEvents cfg i c reply →
      ∃ h₀, eventContract.Rely i c h₀ cfg.hist ∧ c.Done i (.ok reply) h₀ :=
    fun hret => eventUpheld.ended eventInv_start
      (fun _ _ _ _ _ _ => ⟨List.prefix_append _ _, fun _ _ h => h⟩) hok hret.ended
  constructor
  · exact fun stream => (inv stream).numbered
  · intro i process input event hret
    obtain ⟨h₀, hrely, hdone⟩ := ended hret
    exact (allocated_mono hrely.1).subset hdone
  · intro i process runId afterSeq limit events hret
    obtain ⟨h₀, hrely, n, hread, hevents⟩ := ended hret
    have hbefore : allocated (streamOf runId) h₀ <+: allocated (streamOf runId) cfg.hist :=
      allocated_mono hrely.1
    have hn : n ≤ (allocated (streamOf runId) h₀).length := by
      obtain ⟨pre, e, post, he, -, -, hlength⟩ := hread
      rw [← hlength]
      exact (allocated_mono ⟨_, he.symm⟩).length_le
    have hsame : (allocated (streamOf runId) h₀).take n =
        (allocated (streamOf runId) cfg.hist).take n := by
      obtain ⟨rest, hrest⟩ := hbefore
      rw [← hrest, List.take_append_of_le_length hn]
    rw [hsame] at hevents
    exact ⟨n, hread.later hrely.1, hevents,
      hevents ▸ Numbered.slice_seqs (inv _).numbered (hn.trans hbefore.length_le) _ _⟩

/-! Sixty-five appends that overlap. -/

def runStarted : GoalEventInput :=
  ⟨"run.status", some "run-1", none, none, none, some "2026-03-01T09:00:00.000Z", none⟩

def fromStart : EventRequest := ⟨0, .read (some "run-1") (.finite 0) (.finite 1000)⟩

def noFault : EventInput := ⟨none, none, false⟩

/-- The first event is put as `first` says; the others had read the head before it was written. -/
def overlappingAppends (first : EventInput) : List (Action EventRequest ℕ EventInput) :=
  List.replicate 65 (.begin ⟨0, .append runStarted⟩) ++
    (List.range 65).map (fun i => .run i noFault) ++
    [.run 0 noFault, .run 0 first] ++
    (List.range' 1 64).flatMap (fun i => [.run i noFault, .run i noFault]) ++
    [.begin fromStart, .run 65 noFault, .run 65 noFault]

/-- A read from the start begins with the second event. -/
def startsLate (cfg : EventConfig) : Bool :=
  match cfg.returned 65 with
  | some (⟨_, .read _ afterSeq _⟩, .events events) =>
    GoalEventLog.readAfter afterSeq = 0 && events.head?.map GoalStudioEvent.seq = some 2
  | _ => false

theorem overlapping_lost : ∃ cfg, Reach eventSystem emptyEvents cfg ∧ ¬ EventsGapFree cfg := by
  have h : (schedule eventSystem (overlappingAppends ⟨none, some (.error "write failed"), false⟩)
      (.start emptyEvents)).any startsLate = true := by
    decide +kernel
  obtain ⟨cfg, hr, hlate⟩ := Reach.of_check h
  refine ⟨cfg, hr, fun hfree => ?_⟩
  unfold startsLate at hlate
  split at hlate
  · rename_i process runId afterSeq limit events hret
    simp only [Bool.and_eq_true, decide_eq_true_eq] at hlate
    obtain ⟨hafter, hfirst⟩ := hlate
    obtain ⟨n, -, -, hseqs⟩ := hfree.read _ _ _ _ _ _ ⟨cfg, hr, .refl, hret⟩
    rw [← List.head?_map, hseqs, hafter, List.head?_range'] at hfirst
    split_ifs at hfirst
    exact absurd (Option.some.inj hfirst) (by decide)
  · cases hlate

def pushesStored (_ : EventHist) (e : EventEntry) : Bool :=
  (allocation e).all fun a => (e.before.heads.lookup a.1).all fun head =>
    head.oldest.all fun old => (e.before.events.lookup (a.1, old.seq)).isSome

theorem pushesStored_sound (h : EventHist) (e : EventEntry) (hcheck : pushesStored h e = true) :
    PushesStored h e := by
  intro stream event hallocation head hhead old hold
  simp only [pushesStored, hallocation, Option.all_some, hhead, List.all_eq_true] at hcheck
  exact hcheck old hold

/-- A head update that pushes an event out of a full window. -/
def pushesOut (e : EventEntry) : Bool :=
  (allocation e).any fun a => (e.before.heads.lookup a.1).any fun head => !head.oldest.isEmpty

/-- The put of the first event goes through, so it is under its key when the window pushes it out. -/
theorem events_gapFree_overlapping : ∃ cfg, Reach eventSystem emptyEvents cfg ∧
    (allocated "run-1" cfg.hist).length = 65 ∧ cfg.hist.entries.any pushesOut = true ∧
    EventsGapFree cfg := by
  have h : (schedule eventSystem (overlappingAppends noFault) (.start emptyEvents)).any (fun cfg =>
      (allocated "run-1" cfg.hist).length = 65 && cfg.hist.entries.any pushesOut &&
        Hist.checkFrom pushesStored [] cfg.hist.events) = true := by
    decide +kernel
  obtain ⟨cfg, hr, hcheck⟩ := Reach.of_check h
  simp only [Bool.and_eq_true, decide_eq_true_eq] at hcheck
  exact ⟨cfg, hr, hcheck.1.1, hcheck.1.2,
    events_gapFree hr (Hist.always_of_check pushesStored_sound hcheck.2)⟩

end Wazir.Goals
