import Wazir.Goals.EventsGapFree

/-! Subscriptions to the event log (`subscribeFrom`, `notify` and `drain` of `ledger/eventLog.ts`). A
drain reads what is stored after the last event and hands it on; it is started by appends and by a timer,
and by a listener in the middle of a drain. -/

namespace Wazir.Goals

/-- A drain awaits a read, or hands on what was read. -/
inductive Drain where
  | reading (after : ℕ)
  | handing (events : List GoalStudioEvent)

/-- A subscription, its drains, and what its listener was called with. -/
structure Subscription where
  lastSeq : WithTop ℕ
  draining : Bool
  again : Bool
  closed : Bool
  drains : List Drain
  delivered : List GoalStudioEvent

inductive Signal where
  | notify (seq : ℕ)
  | poll
  | answered (j after : ℕ) (events : List GoalStudioEvent)
  | failed (j : ℕ)
  | handOn (j : ℕ)
  | close

/-- `Math.max(0, Math.floor(afterSeq || 0))` -/
def startSeq : JsNumber → WithTop ℕ
  | .finite q => (⌊q⌋.toNat : ℕ)
  | .infinite false => ⊤
  | _ => 0

namespace Subscription

variable (s : Subscription)

/-- Where a read starts; it takes a number that is not finite for none. -/
def readFrom : ℕ := s.lastSeq.untopD 0

def drain : Subscription :=
  if s.closed then s
  else if s.draining then { s with again := true }
  else { s with draining := true, again := false, drains := s.drains ++ [.reading s.readFrom] }

/-- `finally` -/
def leave (j : ℕ) : Subscription := { s with draining := false, drains := s.drains.eraseIdx j }

/-- A turn of the loop over what was read; what a listener throws is caught. -/
def handOn (j : ℕ) : List GoalStudioEvent → Subscription
  | [] =>
    if s.again && !s.closed then
      { s with again := false, drains := s.drains.set j (.reading s.readFrom) }
    else s.leave j
  | event :: rest =>
    if s.closed then s.leave j
    else if (event.seq : WithTop ℕ) ≤ s.lastSeq then { s with drains := s.drains.set j (.handing rest) }
    else { s with
      lastSeq := event.seq
      delivered := s.delivered ++ [event]
      drains := s.drains.set j (.handing rest) }

def step : Signal → Option Subscription
  | .notify seq => some (if s.lastSeq < seq then s.drain else s)
  | .poll => some s.drain
  | .answered j after events =>
    match s.drains[j]? with
    | some (.reading asked) =>
      if asked = after then some { s with drains := s.drains.set j (.handing events) } else none
    | _ => none
  | .failed j =>
    match s.drains[j]? with
    | some (.reading _) => some (s.leave j)
    | _ => none
  | .handOn j =>
    match s.drains[j]? with
    | some (.handing events) => some (s.handOn j events)
    | _ => none
  | .close => some { s with closed := true }

end Subscription

def subscribeFrom (afterSeq : JsNumber) : Subscription :=
  Subscription.drain ⟨startSeq afterSeq, false, false, false, [], []⟩

/-- Events numbered on from a number, without a gap. -/
def GapFreeAfter (after : ℕ) (events : List GoalStudioEvent) : Prop :=
  ∃ n, events.map GoalStudioEvent.seq = List.range' (after + 1) n

variable {events : List GoalStudioEvent}

/-- The events are numbered one by one after the start. -/
def InOrder (start : WithTop ℕ) (events : List GoalStudioEvent) : Prop :=
  ∀ k (h : k < events.length), (events[k].seq : WithTop ℕ) = start + (k + 1 : ℕ)

/-- What a drain has in hand goes on from the last event, unless every number counts as delivered. -/
def Drain.Due (last : WithTop ℕ) : Drain → Prop
  | .reading after => after = last.untopD 0
  | .handing events => last = ⊤ ∨ GapFreeAfter (last.untopD 0) events

/-- One drain at most is at work, and nobody else moves the last number. -/
structure SubscriptionInv (start : WithTop ℕ) (s : Subscription) : Prop where
  inOrder : InOrder start s.delivered
  last : s.lastSeq = start + s.delivered.length
  idle : s.draining = false → s.drains = []
  single : s.drains.length ≤ 1
  due : ∀ d ∈ s.drains, d.Due s.lastSeq

theorem GapFreeAfter.cons {after : ℕ} {event : GoalStudioEvent} {rest : List GoalStudioEvent}
    (h : GapFreeAfter after (event :: rest)) : event.seq = after + 1 ∧ GapFreeAfter (after + 1) rest := by
  obtain ⟨n, hseqs⟩ := h
  cases n with
  | zero => cases hseqs
  | succ n =>
    obtain ⟨hevent, hrest⟩ := List.cons.inj hseqs
    exact ⟨hevent, n, hrest⟩

section Steps

variable {start : WithTop ℕ} {s s' : Subscription} {j : ℕ} {d : Drain}

theorem SubscriptionInv.only (inv : SubscriptionInv start s) (h : s.drains[j]? = some d) :
    s.drains = [d] ∧ j = 0 := by
  have hsingle := inv.single
  obtain ⟨hj, hd⟩ := List.getElem?_eq_some_iff.mp h
  obtain rfl : j = 0 := by omega
  obtain ⟨d', hdrains⟩ := List.length_eq_one_iff.mp (by omega : s.drains.length = 1)
  simp only [hdrains, List.getElem_singleton] at hd
  exact ⟨hd ▸ hdrains, rfl⟩

theorem SubscriptionInv.drain (inv : SubscriptionInv start s) : SubscriptionInv start s.drain := by
  unfold Subscription.drain
  split_ifs with hclosed hdraining
  · exact inv
  · exact { inv with }
  · have hnone := inv.idle (by simpa using hdraining)
    refine { inv with idle := nofun, single := by simp [hnone], due := ?_ }
    intro d hd
    rw [hnone, List.nil_append, List.mem_singleton] at hd
    subst hd
    rfl

/-- A drain that is at work goes over to something else that is due, or ends. -/
theorem SubscriptionInv.turn (inv : SubscriptionInv start s) (h : s.drains[j]? = some d) {d' : Drain}
    (again : Bool) (hdue : d'.Due s.lastSeq) :
    SubscriptionInv start { s with again, drains := s.drains.set j d' } := by
  obtain ⟨hdrains, rfl⟩ := inv.only h
  refine { inv with idle := fun hidle => ?_, single := by simp [hdrains], due := fun e he => ?_ }
  · rw [inv.idle hidle] at hdrains
    cases hdrains
  · simp only [hdrains, List.set_cons_zero, List.mem_singleton] at he
    exact he ▸ hdue

theorem SubscriptionInv.leave (inv : SubscriptionInv start s) (h : s.drains[j]? = some d) :
    SubscriptionInv start (s.leave j) := by
  obtain ⟨hdrains, rfl⟩ := inv.only h
  have hnone : s.drains.eraseIdx 0 = [] := by rw [hdrains]; rfl
  exact { inv with
    idle := fun _ => hnone
    single := by simp [Subscription.leave, hnone]
    due := by simp [Subscription.leave, hnone] }

theorem InOrder.concat {event : GoalStudioEvent} (h : InOrder start events)
    (hevent : (event.seq : WithTop ℕ) = start + (events.length + 1 : ℕ)) :
    InOrder start (events ++ [event]) := by
  intro k hk
  rw [List.getElem_append]
  split_ifs with hbefore
  · exact h k hbefore
  · obtain rfl : k = events.length := by
      rw [List.length_append, List.length_singleton] at hk
      omega
    simpa using hevent

theorem SubscriptionInv.handOn (inv : SubscriptionInv start s)
    (h : s.drains[j]? = some (.handing events)) : SubscriptionInv start (s.handOn j events) := by
  cases events with
  | nil =>
    rw [Subscription.handOn]
    split_ifs
    · exact inv.turn h false rfl
    · exact inv.leave h
  | cons event rest =>
    have hdue := inv.due _ (List.mem_of_getElem? h)
    rw [Subscription.handOn]
    split_ifs with hclosed hold
    · exact inv.leave h
    · refine inv.turn h s.again (Or.inl ?_)
      rcases hdue with htop | hgap
      · exact htop
      · by_contra hne
        obtain ⟨n, hn⟩ := WithTop.ne_top_iff_exists.mp hne
        rw [← hn, WithTop.untopD_coe] at hgap
        rw [← hn, hgap.cons.1] at hold
        have hle : n + 1 ≤ n := WithTop.coe_le_coe.mp hold
        omega
    · have hne : s.lastSeq ≠ ⊤ := fun htop => hold (htop ▸ le_top)
      obtain ⟨n, hn⟩ := WithTop.ne_top_iff_exists.mp hne
      have hgap := hdue.resolve_left hne
      rw [← hn, WithTop.untopD_coe] at hgap
      obtain ⟨hseq, hrest⟩ := hgap.cons
      have hlast : (event.seq : WithTop ℕ) = start + (s.delivered.length + 1 : ℕ) := by
        rw [hseq, Nat.cast_succ, Nat.cast_succ, ← add_assoc, ← inv.last, ← hn]
        rfl
      obtain ⟨hdrains, rfl⟩ := inv.only h
      refine ⟨inv.inOrder.concat hlast, ?_, fun hidle => ?_, by simp [hdrains], fun e he => ?_⟩
      · simpa using hlast
      · rw [inv.idle hidle] at hdrains
        cases hdrains
      · simp only [hdrains, List.set_cons_zero, List.mem_singleton] at he
        subst he
        refine Or.inr ?_
        change GapFreeAfter event.seq rest
        rwa [hseq]

theorem SubscriptionInv.step {signal : Signal} (inv : SubscriptionInv start s)
    (hstep : s.step signal = some s')
    (hlog : ∀ j after events, signal = .answered j after events → GapFreeAfter after events) :
    SubscriptionInv start s' := by
  cases signal with
  | notify seq =>
    cases hstep
    split_ifs
    · exact inv.drain
    · exact inv
  | poll =>
    cases hstep
    exact inv.drain
  | answered j after events =>
    simp only [Subscription.step] at hstep
    split at hstep
    · rename_i asked hasked
      split_ifs at hstep with hafter
      cases hstep
      have hdue : asked = s.lastSeq.untopD 0 := inv.due _ (List.mem_of_getElem? hasked)
      exact inv.turn hasked s.again (Or.inr (hdue ▸ hafter ▸ hlog _ _ _ rfl))
    · cases hstep
  | failed j =>
    simp only [Subscription.step] at hstep
    split at hstep
    · rename_i hasked
      cases hstep
      exact inv.leave hasked
    · cases hstep
  | handOn j =>
    simp only [Subscription.step] at hstep
    split at hstep
    · rename_i events hevents
      cases hstep
      exact inv.handOn hevents
    · cases hstep
  | close =>
    cases hstep
    exact { inv with }

theorem SubscriptionInv.run {signals : List Signal} (inv : SubscriptionInv start s)
    (hrun : signals.foldlM Subscription.step s = some s')
    (hlog : ∀ j after events, .answered j after events ∈ signals → GapFreeAfter after events) :
    SubscriptionInv start s' := by
  induction signals generalizing s with
  | nil =>
    cases hrun
    exact inv
  | cons signal rest ih =>
    obtain ⟨s₁, hfirst, hrest⟩ := Option.bind_eq_some_iff.mp hrun
    have inv₁ : SubscriptionInv start s₁ := inv.step hfirst fun j after events heq =>
      hlog j after events (heq ▸ List.mem_cons_self)
    exact ih inv₁ hrest fun j after events hmem =>
      hlog j after events (List.mem_cons_of_mem _ hmem)

end Steps

/-- Whatever appends, polls, reads and drains come between, a listener gets the events after the start
one by one, as long as the log answers without a gap. -/
theorem delivered_inOrder (afterSeq : JsNumber) (signals : List Signal) (s : Subscription)
    (hrun : signals.foldlM Subscription.step (subscribeFrom afterSeq) = some s)
    (hlog : ∀ j after events, .answered j after events ∈ signals → GapFreeAfter after events) :
    InOrder (startSeq afterSeq) s.delivered := by
  have hstart : SubscriptionInv (startSeq afterSeq)
      ⟨startSeq afterSeq, false, false, false, [], []⟩ :=
    ⟨fun k hk => absurd hk (Nat.not_lt_zero k), by simp, fun _ => rfl, by simp, by simp⟩
  exact (hstart.drain.run hrun hlog).inOrder

def eventAt (seq : ℕ) : GoalStudioEvent :=
  ⟨⟨"run.status", some "run-1", none, none, none, "2026-03-01T09:00:00.000Z", .obj []⟩, seq⟩

/-- An append in the middle of a drain has it read once more. -/
theorem delivered_inOrder_three : InOrder (startSeq (.finite 0)) [eventAt 1, eventAt 2, eventAt 3] := by
  refine delivered_inOrder (.finite 0)
    [.answered 0 0 [eventAt 1, eventAt 2], .handOn 0, .notify 3, .handOn 0, .handOn 0,
      .answered 0 2 [eventAt 3], .handOn 0, .handOn 0]
    ⟨((3 : ℕ) : WithTop ℕ), false, false, false, [], [eventAt 1, eventAt 2, eventAt 3]⟩ ?_ ?_
  · rfl
  · intro j after events h
    simp only [List.mem_cons, Signal.answered.injEq, reduceCtorEq, false_or, or_false,
      List.not_mem_nil] at h
    rcases h with ⟨-, rfl, rfl⟩ | ⟨-, rfl, rfl⟩
    · exact ⟨2, rfl⟩
    · exact ⟨1, rfl⟩

end Wazir.Goals
