import Wazir.Async.RelyGuarantee

/-! What one finished procedure did, apart from everybody else: the list of its own commands
with their results. Any property of a call's own commands needs no invariant, only the
procedure's text. -/

namespace Wazir.Async

variable {Op : Type} {Res : Op → Type} {Err Out Call Proc Input Shared α β : Type}

/-- The procedure came to `out` by the commands `es`. -/
inductive Ends {α : Type} : Prog Op Res Err α → List (Entry Op Res Call Input Shared) →
    Except Err α → Prop
  | ret (a : α) : Ends (.ret a) [] (.ok a)
  | raise (e : Err) : Ends (.raise e) [] (.error e)
  | call {op : Op} {next : Res op → Prog Op Res Err α} {out : Except Err α}
      {es : List (Entry Op Res Call Input Shared)} (i : ℕ) (c : Call) (inp : Input) (r : Res op)
      (before after : Shared) :
      Ends (next r) es out → Ends (.call op next) (⟨i, c, op, inp, r, before, after⟩ :: es) out

namespace Ends

variable {es : List (Entry Op Res Call Input Shared)} {out : Except Err α}

@[simp] theorem ret_iff {a : α} : Ends (.ret a : Prog Op Res Err α) es out ↔
    es = [] ∧ out = .ok a := by
  constructor
  · rintro ⟨⟩
    exact ⟨rfl, rfl⟩
  · rintro ⟨rfl, rfl⟩
    exact .ret a

@[simp] theorem raise_iff {e : Err} : Ends (.raise e : Prog Op Res Err α) es out ↔
    es = [] ∧ out = .error e := by
  constructor
  · rintro ⟨⟩
    exact ⟨rfl, rfl⟩
  · rintro ⟨rfl, rfl⟩
    exact .raise e

@[simp] theorem resume_iff {r : Except Err α} : Ends (Prog.resume r : Prog Op Res Err α) es out ↔
    es = [] ∧ out = r := by
  cases r <;> simp [Prog.resume]

theorem call_iff {op : Op} {next : Res op → Prog Op Res Err α} : Ends (.call op next) es out ↔
    ∃ i c inp r before after es', es = ⟨i, c, op, inp, r, before, after⟩ :: es' ∧
      Ends (next r) es' out := by
  constructor
  · rintro ⟨⟩
    exact ⟨_, _, _, _, _, _, _, rfl, ‹_›⟩
  · rintro ⟨i, c, inp, r, before, after, es', rfl, h⟩
    exact .call i c inp r before after h

theorem settle_iff {f : Except Err α → Prog Op Res Err β} {p : Prog Op Res Err α}
    {out : Except Err β} : Ends (p.settle f) es out ↔
    ∃ es₁ es₂ mid, es = es₁ ++ es₂ ∧ Ends p es₁ mid ∧ Ends (f mid) es₂ out := by
  induction p generalizing es with
  | ret a => simp [Prog.settle]
  | raise e => simp [Prog.settle]
  | call op next ih =>
    simp only [Prog.settle, call_iff, ih]
    constructor
    · rintro ⟨i, c, inp, r, b, a, es', rfl, es₁, es₂, mid, rfl, h₁, h₂⟩
      exact ⟨_, es₂, mid, (List.cons_append ..).symm, ⟨i, c, inp, r, b, a, es₁, rfl, h₁⟩, h₂⟩
    · rintro ⟨es₁, es₂, mid, rfl, ⟨i, c, inp, r, b, a, es', rfl, h₁⟩, h₂⟩
      exact ⟨i, c, inp, r, b, a, _, rfl, es', es₂, mid, rfl, h₁, h₂⟩

theorem bind_iff {f : α → Prog Op Res Err β} {p : Prog Op Res Err α} {out : Except Err β} :
    Ends (p.bind f) es out ↔ (∃ e, out = .error e ∧ Ends p es (.error e)) ∨
      ∃ es₁ es₂ a, es = es₁ ++ es₂ ∧ Ends p es₁ (.ok a) ∧ Ends (f a) es₂ out := by
  rw [Prog.bind_eq_settle, settle_iff]
  constructor
  · rintro ⟨es₁, es₂, mid, rfl, h₁, h₂⟩
    cases mid with
    | ok a => exact .inr ⟨es₁, es₂, a, rfl, h₁, h₂⟩
    | error e =>
      obtain ⟨rfl, rfl⟩ := raise_iff.mp h₂
      exact .inl ⟨e, rfl, by simpa using h₁⟩
  · rintro (⟨e, rfl, h⟩ | ⟨es₁, es₂, a, rfl, h₁, h₂⟩)
    · exact ⟨es, [], .error e, by simp, h, .raise e⟩
    · exact ⟨es₁, es₂, .ok a, rfl, h₁, h₂⟩

theorem map_iff {f : α → β} {p : Prog Op Res Err α} {out : Except Err β} :
    Ends (f <$> p) es out ↔ ∃ r, out = r.map f ∧ Ends p es r := by
  rw [Prog.map_def, bind_iff]
  constructor
  · rintro (⟨e, rfl, h⟩ | ⟨es₁, es₂, a, rfl, h₁, h₂⟩)
    · exact ⟨.error e, rfl, h⟩
    · obtain ⟨rfl, rfl⟩ := ret_iff.mp h₂
      exact ⟨.ok a, rfl, by simpa using h₁⟩
  · rintro ⟨r, rfl, h⟩
    cases r with
    | error e => exact .inl ⟨e, rfl, h⟩
    | ok a => exact .inr ⟨es, [], a, by simp, h, .ret _⟩

/-- A procedure whose errors are swallowed returns. -/
theorem handle_ret {g : Err → α} {p : Prog Op Res Err α}
    (h : Ends (p.handle fun e => .ret (g e)) es out) : ∃ a, out = .ok a := by
  obtain ⟨es₁, es₂, mid, rfl, h₁, h₂⟩ := settle_iff.mp h
  cases mid with
  | ok a => exact ⟨a, (ret_iff.mp h₂).2⟩
  | error e => exact ⟨g e, (ret_iff.mp h₂).2⟩

end Ends

theorem Prog.Only.mem {P : Op → Prop} {p : Prog Op Res Err α} (hp : p.Only P)
    {es : List (Entry Op Res Call Input Shared)} {out : Except Err α} (h : Ends p es out) :
    ∀ e ∈ es, P e.op := by
  induction h with
  | ret a => simp
  | raise e => simp
  | call i c inp r b a _ ih =>
    simp only [List.mem_cons, forall_eq_or_imp]
    exact ⟨hp.1, ih (hp.2 r)⟩

variable {cfg : Config Op Res Err Out Call Proc Input Shared} {e : Entry Op Res Call Input Shared}
  {h : Hist Op Res Call Proc Input Shared} {i : ℕ}

section Runs

variable [DecidableEq Proc] {S : System Op Res Err Out Call Proc Input Shared} {s₀ : Shared}

/-- However the rest of a thread may end, its call ends that way after what it did so far. -/
theorem Reach.ends_later (hr : Reach S s₀ cfg) {c : Call} {p : Prog Op Res Err Out}
    (ht : cfg.threads[i]? = some ⟨c, some p⟩) {l : List (Entry Op Res Call Input Shared)}
    {o : Except Err Out} (h : Ends p l o) :
    Ends (S.body c) (cfg.hist.entriesOf i ++ l) o := by
  induction hr generalizing i c p l with
  | start => simp [Config.start] at ht
  | @step cfg _ hreach hs ih =>
    cases hs with
    | begin d s _ _ =>
      rw [Hist.entriesOf_push_began]
      rcases Nat.lt_or_ge i cfg.threads.length with hi | hi
      · rw [List.getElem?_append_left hi] at ht
        exact ih ht h
      · rw [List.getElem?_append_right hi] at ht
        obtain ⟨hlt, hd⟩ := List.getElem?_eq_some_iff.mp ht
        simp only [List.getElem_singleton, Thread.mk.injEq, Option.some.injEq] at hd
        obtain ⟨rfl, rfl⟩ := hd
        rw [entriesOf_fresh hreach hi]
        exact h
    | run j d op next inp r s hw hx =>
      rw [Hist.entriesOf_push_ran]
      by_cases hij : j = i
      · subst hij
        rw [List.getElem?_set_self (List.getElem?_eq_some_iff.mp hw).1] at ht
        cases ht
        simpa using ih hw (.call j c inp r cfg.hist.shared s h)
      · rw [List.getElem?_set_ne hij] at ht
        simpa [hij] using ih ht h
    | crash q =>
      rw [Hist.entriesOf_push_crashed]
      rw [List.getElem?_map] at ht
      obtain ⟨t, ht', hk⟩ := Option.map_eq_some_iff.mp ht
      unfold Thread.kill at hk
      split_ifs at hk
      · cases hk
      · subst hk
        exact ih ht' h

theorem Reach.ends (hr : Reach S s₀ cfg) {c : Call} {o : Except Err Out}
    (ht : cfg.threads[i]? = some ⟨c, some (Prog.resume o)⟩) :
    Ends (S.body c) (cfg.hist.entriesOf i) o := by
  have h := hr.ends_later ht (l := []) (o := o) (by simp)
  rwa [List.append_nil] at h

omit [DecidableEq Proc] in
theorem Hist.mem_entries (he : e ∈ h.entries) :
    ∃ pre post, h.events = pre ++ .ran e :: post := by
  obtain ⟨ev, hev, hent⟩ := List.mem_filterMap.mp he
  cases ev with
  | ran e' =>
    cases hent
    exact List.append_of_mem hev
  | began i c => cases hent
  | crashed p => cases hent

/-- The commands of a thread come after its beginning. -/
theorem Reach.ran_later (hr : Reach S s₀ cfg) {c : Call}
    {pre post : List (Event Op Res Call Proc Input Shared)}
    (he : cfg.hist.events = pre ++ .began i c :: post) (hmem : e ∈ cfg.hist.entriesOf i) :
    .ran e ∈ post := by
  obtain ⟨cfg₁, cfg₂, hr₁, hs, -, hpre, hev⟩ := hr.at_event he
  have hnone : cfg₁.hist.entriesOf i = [] := by
    cases hs with
    | begin c' s _ _ =>
      rw [Hist.push_events, hpre, List.append_cancel_left_eq] at hev
      cases hev
      exact entriesOf_fresh hr₁ le_rfl
    | run i' c' op next inp' r s _ _ =>
      rw [Hist.push_events, hpre, List.append_cancel_left_eq] at hev
      cases hev
    | crash q =>
      rw [Hist.push_events, hpre, List.append_cancel_left_eq] at hev
      cases hev
  obtain ⟨hin, hthread⟩ := List.mem_filter.mp hmem
  obtain ⟨ev, hevent, hentry⟩ := List.mem_filterMap.mp hin
  cases ev with
  | ran x =>
    cases hentry
    rw [he, List.mem_append, List.mem_cons] at hevent
    rcases hevent with hbefore | hbegan | hafter
    · have : e ∈ cfg₁.hist.entriesOf i :=
        List.mem_filter.mpr ⟨List.mem_filterMap.mpr ⟨.ran e, hpre ▸ hbefore, rfl⟩, hthread⟩
      simp [hnone] at this
    · cases hbegan
    · exact hafter
  | began k c' => cases hentry
  | crashed q => cases hentry

/-- Every recorded command had the effect it is recorded with. -/
theorem Reach.executed (hr : Reach S s₀ cfg) (he : e ∈ cfg.hist.entries) :
    S.exec e.op e.input e.before = some (e.res, e.after) := by
  obtain ⟨pre, post, hsplit⟩ := Hist.mem_entries he
  obtain ⟨_, _, _, hx, _⟩ := hr.ran hsplit
  exact hx

/-- Every recorded command is one that its call's procedure may execute. -/
theorem Reach.only {P : Call → Op → Prop} (hP : ∀ c, (S.body c).Only (P c)) (hr : Reach S s₀ cfg) :
    ∀ e ∈ cfg.hist.entries, P e.call e.op := by
  have both : (∀ e ∈ cfg.hist.entries, P e.call e.op) ∧
      ∀ t ∈ cfg.threads, ∀ p, t.rest = some p → p.Only (P t.call) := by
    induction hr with
    | start => simp [Config.start, Hist.entries]
    | step _ hs ih =>
      obtain ⟨hold, hrest⟩ := ih
      cases hs with
      | begin c s _ _ =>
        refine ⟨by simpa using hold, fun t ht p hp => ?_⟩
        rcases List.mem_append.mp ht with ht | ht
        · exact hrest t ht p hp
        · cases List.mem_singleton.mp ht
          cases hp
          exact hP c
      | run i c op next inp r s hw hx =>
        have now := hrest _ (List.mem_of_getElem? hw) _ rfl
        refine ⟨fun e he => ?_, fun t ht p hp => ?_⟩
        · simp only [Hist.entries_push_ran, List.mem_append, List.mem_singleton] at he
          rcases he with he | rfl
          · exact hold e he
          · exact now.1
        · rcases List.mem_or_eq_of_mem_set ht with ht | rfl
          · exact hrest t ht p hp
          · cases hp
            exact now.2 r
      | crash q =>
        refine ⟨by simpa using hold, fun t ht p hp => ?_⟩
        obtain ⟨t₀, ht₀, rfl⟩ := List.mem_map.mp ht
        unfold Thread.kill at hp ⊢
        split_ifs at hp ⊢
        exact hrest t₀ ht₀ p hp
  exact both.1

/-- Every recorded command is a command of one of the calls. -/
theorem Reach.caller (hr : Reach S s₀ cfg) (he : e ∈ cfg.hist.entries) :
    ∃ t ∈ cfg.threads, t.call = e.call := by
  induction hr with
  | start => simp [Config.start, Hist.entries] at he
  | step _ hs ih =>
    cases hs with
    | begin c s _ _ =>
      obtain ⟨t, ht, hc⟩ := ih (by simpa using he)
      exact ⟨t, List.mem_append_left _ ht, hc⟩
    | run i c op next inp r s hw hx =>
      have hi := (List.getElem?_eq_some_iff.mp hw).1
      rw [Hist.entries_push_ran, List.mem_append, List.mem_singleton] at he
      rcases he with he | rfl
      · obtain ⟨t, ht, hc⟩ := ih he
        obtain ⟨j, hj⟩ := List.mem_iff_getElem?.mp ht
        by_cases hij : i = j
        · subst hij
          rw [hw] at hj
          cases hj
          exact ⟨_, List.mem_set hi _, hc⟩
        · exact ⟨t, List.mem_of_getElem? (by rw [List.getElem?_set_ne hij, hj]), hc⟩
      · exact ⟨_, List.mem_set hi _, rfl⟩
    | crash q =>
      obtain ⟨t, ht, hc⟩ := ih (by simpa using he)
      refine ⟨_, List.mem_map_of_mem ht, ?_⟩
      unfold Thread.kill
      split_ifs <;> exact hc

/-- A recorded command is one of its thread's call. -/
theorem Reach.call_of (hr : Reach S s₀ cfg) (he : e ∈ cfg.hist.entries) :
    ∃ rest, cfg.threads[e.thread]? = some ⟨e.call, rest⟩ := by
  induction hr with
  | start => simp [Config.start, Hist.entries] at he
  | step _ hs ih =>
    cases hs with
    | begin c s _ _ =>
      obtain ⟨rest, ht⟩ := ih (by simpa using he)
      exact ⟨rest, by rw [List.getElem?_append_left (List.getElem?_eq_some_iff.mp ht).1, ht]⟩
    | run i c op next inp r s hw hx =>
      rw [Hist.entries_push_ran, List.mem_append, List.mem_singleton] at he
      rcases he with he | rfl
      · obtain ⟨rest, ht⟩ := ih he
        by_cases hi : i = e.thread
        · subst hi
          rw [hw] at ht
          cases ht
          exact ⟨_, List.getElem?_set_self (List.getElem?_eq_some_iff.mp hw).1⟩
        · exact ⟨rest, by rw [List.getElem?_set_ne hi, ht]⟩
      · exact ⟨_, List.getElem?_set_self (List.getElem?_eq_some_iff.mp hw).1⟩
    | crash q =>
      obtain ⟨rest, ht⟩ := ih (by simpa using he)
      rw [List.getElem?_map, ht]
      unfold Thread.kill
      simp only [Option.map_some]
      split_ifs
      · exact ⟨none, rfl⟩
      · exact ⟨rest, rfl⟩

/-- The commands executed since thread `i` began. -/
def Hist.since (h : Hist Op Res Call Proc Input Shared) (i : ℕ) :
    List (Entry Op Res Call Input Shared) :=
  (h.events.dropWhile fun ev => ev.thread ≠ some i).filterMap Event.entry

omit [DecidableEq Proc] in
theorem Hist.mem_since {e e' : Entry Op Res Call Input Shared}
    {pre post : List (Event Op Res Call Proc Input Shared)} (he : h.events = pre ++ .ran e :: post)
    (hi : e.thread = i) (hmem : .ran e' ∈ post) :
    e' ∈ h.since i := by
  refine List.mem_filterMap.mpr ⟨.ran e', ?_, rfl⟩
  rw [he]
  clear he
  induction pre with
  | nil => simp [Event.thread, hi, hmem]
  | cons ev pre ih =>
    rw [List.cons_append, List.dropWhile_cons]
    split_ifs
    · exact ih
    · simp [hmem]

omit [DecidableEq Proc] in
theorem Hist.since_ran {e e' : Entry Op Res Call Input Shared} {s : Shared}
    (he : e' ∈ (h.push (.ran e) s).since i) : e' ∈ h.since i ∨ e' = e := by
  simp only [since, push_events, List.dropWhile_append] at he
  split_ifs at he with hnil
  · obtain ⟨ev, hev, hent⟩ := List.mem_filterMap.mp he
    rw [List.mem_singleton.mp ((List.dropWhile_sublist _).subset hev)] at hent
    exact .inr (Option.some.inj hent).symm
  · rw [List.filterMap_append, List.mem_append] at he
    exact he.imp_right fun hlast => by simpa [Event.entry] using hlast

omit [DecidableEq Proc] in
theorem Hist.since_began {i j : ℕ} {c : Call} {s : Shared}
    (he : e ∈ (h.push (.began j c) s).since i) : e ∈ h.since i := by
  simp only [since, push_events, List.dropWhile_append] at he
  split_ifs at he with hnil
  · obtain ⟨ev, hev, hent⟩ := List.mem_filterMap.mp he
    rw [List.mem_singleton.mp ((List.dropWhile_sublist _).subset hev)] at hent
    cases hent
  · rw [List.filterMap_append, List.mem_append] at he
    exact he.resolve_right (by simp [Event.entry])

omit [DecidableEq Proc] in
/-- The commands of a thread in the order of the events. -/
theorem Hist.split_entriesOf_append {es₁ es₂ : List (Entry Op Res Call Input Shared)}
    (hes : h.entriesOf i = es₁ ++ e :: es₂) : ∃ pre post, h.events = pre ++ .ran e :: post ∧
      e.thread = i ∧ (⟨pre, h.shared⟩ : Hist Op Res Call Proc Input Shared).entriesOf i = es₁ ∧
      (⟨post, h.shared⟩ : Hist Op Res Call Proc Input Shared).entriesOf i = es₂ := by
  obtain ⟨l₀, l, hl₀, hes₁, hes'⟩ := List.filter_eq_append_iff.mp hes
  obtain ⟨l₁, l₂, hl, hnot, hthread, hes₂⟩ := List.filter_eq_cons_iff.mp hes'
  obtain ⟨pre₀, rest₀, hev₀, hpre₀, hrest₀⟩ := List.filterMap_eq_append_iff.mp (hl₀.trans (by rw [hl]))
  obtain ⟨pre₁, rest, hev, hpre₁, hrest⟩ := List.filterMap_eq_append_iff.mp hrest₀
  obtain ⟨pre₂, ev, post, hev₂, hnone, hent, hpost⟩ := List.filterMap_eq_cons_iff.mp hrest
  refine ⟨pre₀ ++ (pre₁ ++ pre₂), post, ?_, by simpa using hthread, ?_, ?_⟩
  · cases ev with
    | ran e' =>
      cases hent
      rw [hev₀, hev, hev₂]
      simp
    | began j c => cases hent
    | crashed p => cases hent
  · have hnil : pre₂.filterMap Event.entry = [] := List.filterMap_eq_nil_iff.mpr hnone
    simp only [entriesOf, entries, List.filterMap_append, hpre₀, hpre₁, hnil, List.append_nil,
      List.filter_append, hes₁]
    rw [List.filter_eq_nil_iff.mpr hnot, List.append_nil]
  · rw [← hes₂, ← hpost]
    rfl

omit [DecidableEq Proc] in
theorem Hist.split_entriesOf {es : List (Entry Op Res Call Input Shared)}
    (hes : h.entriesOf i = e :: es) : ∃ pre post, h.events = pre ++ .ran e :: post ∧ e.thread = i ∧
      (⟨post, h.shared⟩ : Hist Op Res Call Proc Input Shared).entriesOf i = es := by
  obtain ⟨pre, post, hev, hthread, -, hpost⟩ := split_entriesOf_append (hes.trans (List.nil_append _).symm)
  exact ⟨pre, post, hev, hthread, hpost⟩

theorem Reach.trans {cfg cfg' : Config Op Res Err Out Call Proc Input Shared}
    (hr : Reach S s₀ cfg) (h : Relation.ReflTransGen (Step S) cfg cfg') : Reach S s₀ cfg' := by
  induction h with
  | refl => exact hr
  | tail _ hs ih => exact ih.step hs

theorem Reach.steps (hr : Reach S s₀ cfg) :
    Relation.ReflTransGen (Step S) (.start s₀) cfg := by
  induction hr with
  | start => exact .refl
  | step _ hs ih => exact ih.tail hs

/-- A command of a run that was not there before ran in between. -/
theorem Step.entry_later {cfg cfg' : Config Op Res Err Out Call Proc Input Shared}
    (h : Relation.ReflTransGen (Step S) cfg cfg') (he : e ∈ cfg'.hist.entries) : e ∈ cfg.hist.entries ∨
      ∃ mid, Relation.ReflTransGen (Step S) cfg mid ∧ Relation.ReflTransGen (Step S) mid cfg' ∧
        mid.hist.shared = e.before := by
  induction h with
  | refl => exact .inl he
  | @tail last _ hlater hs ih =>
    have hback : e ∈ last.hist.entries ∨ last.hist.shared = e.before := by
      cases hs with
      | begin c s _ _ => exact .inl (by simpa using he)
      | crash p => exact .inl (by simpa using he)
      | run i c op next inp r s _ _ =>
        rw [Hist.entries_push_ran, List.mem_append, List.mem_singleton] at he
        rcases he with he | rfl
        · exact .inl he
        · exact .inr rfl
    rcases hback with hold | hnow
    · rcases ih hold with hfirst | ⟨mid, h₁, h₂, hmid⟩
      · exact .inl hfirst
      · exact .inr ⟨mid, h₁, h₂.tail hs, hmid⟩
    · exact .inr ⟨last, hlater, .single hs, hnow⟩

end Runs

end Wazir.Async
