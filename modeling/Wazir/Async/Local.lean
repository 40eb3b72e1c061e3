import Mathlib.Data.List.TakeWhile
import Wazir.Async.Trace

/-! Procedures judged by their own commands. `Does` follows a procedure through whatever others do
in between and says what the thread knows when a command runs: its own commands so far, and an
invariant of the history. -/

namespace Wazir.Async

variable {Op : Type} {Res : Op → Type} {Err Out Call Proc Input Shared α β : Type}

section Does

variable (S : System Op Res Err Out Call Proc Input Shared)
  (I : Hist Op Res Call Proc Input Shared → Prop)
  (P : Hist Op Res Call Proc Input Shared → Entry Op Res Call Input Shared → Prop) (i : ℕ) (c : Call)

/-- After its own commands `es` the thread executes only commands that satisfy `P`, and ends
in `Q`. -/
def Does (Q : Except Err α → List (Entry Op Res Call Input Shared) → Prop) :
    Prog Op Res Err α → List (Entry Op Res Call Input Shared) → Prop
  | .ret a, es => Q (.ok a) es
  | .raise e, es => Q (.error e) es
  | .call op next, es => ∀ h inp r s, I h → h.entriesOf i = es →
      S.exec op inp h.shared = some (r, s) → P h ⟨i, c, op, inp, r, h.shared, s⟩ ∧
      Does Q (next r) (es ++ [⟨i, c, op, inp, r, h.shared, s⟩])

variable {S I P i c}

section Rules

variable {es : List (Entry Op Res Call Input Shared)}
  {Q R : Except Err α → List (Entry Op Res Call Input Shared) → Prop}
  {T : Except Err β → List (Entry Op Res Call Input Shared) → Prop}

theorem Does.mono {p : Prog Op Res Err α} (hp : Does S I P i c R p es)
    (hRQ : ∀ out es', R out es' → Q out es') : Does S I P i c Q p es := by
  induction p generalizing es with
  | ret a => exact hRQ _ _ hp
  | raise e => exact hRQ _ _ hp
  | call op next ih =>
    intro h inp r s hI hes hx
    obtain ⟨hP, hn⟩ := hp h inp r s hI hes hx
    exact ⟨hP, ih r hn⟩

/-- The thread's commands are only added to. -/
theorem Does.grows {p : Prog Op Res Err α} (hp : Does S I P i c Q p es) :
    Does S I P i c (fun out es' => Q out es' ∧ es <+: es') p es := by
  have from_prefix : ∀ es₀, es₀ <+: es →
      Does S I P i c (fun out es' => Q out es' ∧ es₀ <+: es') p es := by
    intro es₀ hpre
    induction p generalizing es with
    | ret a => exact ⟨hp, hpre⟩
    | raise e => exact ⟨hp, hpre⟩
    | call op next ih =>
      intro h inp r s hI hes hx
      obtain ⟨hP, hn⟩ := hp h inp r s hI hes hx
      exact ⟨hP, ih r hn (hpre.trans (List.prefix_append _ _))⟩
  exact from_prefix es List.prefix_rfl

theorem Does.settle {p : Prog Op Res Err α} {f : Except Err α → Prog Op Res Err β}
    (hp : Does S I P i c R p es)
    (hf : ∀ out es', es <+: es' → R out es' → Does S I P i c T (f out) es') :
    Does S I P i c T (p.settle f) es := by
  have sequel : ∀ es, Does S I P i c (fun out es' => Does S I P i c T (f out) es') p es →
      Does S I P i c T (p.settle f) es := by
    clear hp hf
    induction p with
    | ret a => exact fun es hp => hp
    | raise e => exact fun es hp => hp
    | call op next ih =>
      intro es hp h inp r s hI hes hx
      obtain ⟨hP, hn⟩ := hp h inp r s hI hes hx
      exact ⟨hP, ih r _ hn⟩
  exact sequel es (hp.grows.mono fun out es' hR => hf out es' hR.2 hR.1)

theorem Does.bind {p : Prog Op Res Err α} {f : α → Prog Op Res Err β}
    (hp : Does S I P i c R p es)
    (hok : ∀ a es', es <+: es' → R (.ok a) es' → Does S I P i c T (f a) es')
    (herr : ∀ e es', es <+: es' → R (.error e) es' → T (.error e) es') :
    Does S I P i c T (p.bind f) es := by
  rw [Prog.bind_eq_settle]
  refine hp.settle fun out es' hpre hR => ?_
  cases out with
  | ok a => exact hok a es' hpre hR
  | error e => exact herr e es' hpre hR

end Rules

end Does

variable {h : Hist Op Res Call Proc Input Shared}

/-- Where a command stands among the events. -/
theorem Hist.entries_split {A B : List (Entry Op Res Call Input Shared)}
    {e : Entry Op Res Call Input Shared} (he : h.entries = A ++ e :: B) :
    ∃ pre post, h.events = pre ++ .ran e :: post ∧
      ∀ s, Hist.entries (⟨pre, s⟩ : Hist Op Res Call Proc Input Shared) = A := by
  obtain ⟨pre, rest, hevents, hA, hrest⟩ := List.filterMap_eq_append_iff.mp he
  obtain ⟨mid, ev, post, rfl, hmid, hev, -⟩ := List.filterMap_eq_cons_iff.mp hrest
  have hran : ev = .ran e := by
    cases ev with
    | ran e' => exact congrArg _ (Option.some.inj hev)
    | began | crashed => cases hev
  refine ⟨pre ++ mid, post, by rw [hevents, hran, List.append_assoc], fun _ => ?_⟩
  have hnone : mid.filterMap Event.entry = [] := List.filterMap_eq_nil_iff.mpr hmid
  simp only [entries, List.filterMap_append, hA, hnone, List.append_nil]

/-- What the others have done since thread `i` took its first step. -/
def Hist.sinceStart (h : Hist Op Res Call Proc Input Shared) (i : ℕ) :
    List (Entry Op Res Call Input Shared) :=
  (h.entries.dropWhile fun e => e.thread ≠ i).filter fun e => e.thread ≠ i

theorem Hist.sinceStart_append {h h' : Hist Op Res Call Proc Input Shared} {i : ℕ}
    {new : List (Entry Op Res Call Input Shared)} (he : h'.entries = h.entries ++ new)
    (hbegun : ∃ x ∈ h.entries, x.thread = i) :
    h'.sinceStart i = h.sinceStart i ++ new.filter fun e => e.thread ≠ i := by
  obtain ⟨x, hx, hi⟩ := hbegun
  have hne : (h.entries.dropWhile fun e => e.thread ≠ i).isEmpty ≠ true := fun hempty => by
    have := List.dropWhile_eq_nil_iff.mp (List.isEmpty_iff.mp hempty) x hx
    simp [hi] at this
  rw [sinceStart, he, List.dropWhile_append, if_neg hne, List.filter_append, ← sinceStart]

theorem Hist.sinceStart_own {h h' : Hist Op Res Call Proc Input Shared} {i : ℕ}
    {e : Entry Op Res Call Input Shared} (he : h'.entries = h.entries ++ [e]) (hi : e.thread = i) :
    h'.sinceStart i = h.sinceStart i := by
  rw [sinceStart, sinceStart, he, List.dropWhile_append]
  split_ifs with hempty
  · rw [List.isEmpty_iff.mp hempty]
    simp [hi]
  · simp [hi]

section Runs

variable [DecidableEq Proc] {S : System Op Res Err Out Call Proc Input Shared} {s₀ : Shared}
  {I : Hist Op Res Call Proc Input Shared → Prop}
  {P : Hist Op Res Call Proc Input Shared → Entry Op Res Call Input Shared → Prop}
  {Q : ℕ → Call → Except Err Out → List (Entry Op Res Call Input Shared) → Prop}

omit [DecidableEq Proc] in
theorem Hist.Always.push {ev : Event Op Res Call Proc Input Shared} {s : Shared} (ha : h.Always P)
    (hev : ∀ e, ev = .ran e → P ⟨h.events, e.before⟩ e) : (h.push ev s).Always P := by
  intro pre e post he
  rcases Hist.split_push he with ⟨post', he'⟩ | ⟨rfl, rfl⟩
  · exact ha pre e post' he'
  · exact hev e rfl

/-- The run rule: every command satisfies `P`, the invariant holds throughout, and what is left
of each call does as it should. -/
theorem Reach.does (start : I ⟨[], s₀⟩)
    (began : ∀ h i c s, I h → S.admits c h.shared = some s → I (h.push (.began i c) s))
    (crashed : ∀ h p, I h → I (h.push (.crashed p) (S.crash p h.shared)))
    (ran : ∀ h i c op inp r s, I h → S.exec op inp h.shared = some (r, s) →
      P h ⟨i, c, op, inp, r, h.shared, s⟩ → I (h.push (.ran ⟨i, c, op, inp, r, h.shared, s⟩) s))
    (bodies : ∀ i c, Does S I P i c (Q i c) (S.body c) [])
    {cfg : Config Op Res Err Out Call Proc Input Shared} (hr : Reach S s₀ cfg) :
    I cfg.hist ∧ cfg.hist.Always P ∧ ∀ i c p, cfg.threads[i]? = some ⟨c, some p⟩ →
      Does S I P i c (Q i c) p (cfg.hist.entriesOf i) := by
  induction hr with
  | start => exact ⟨start, fun pre e post he => by simp [Config.start] at he,
      fun i c p ht => by simp [Config.start] at ht⟩
  | @step cfg _ hreach hs ih =>
    obtain ⟨hI, hP, hthreads⟩ := ih
    cases hs with
    | begin c s alive admitted =>
      refine ⟨began _ _ _ _ hI admitted, hP.push (by rintro _ ⟨⟩), fun i d p ht => ?_⟩
      rw [Hist.entriesOf_push_began]
      rcases Nat.lt_or_ge i cfg.threads.length with hi | hi
      · rw [List.getElem?_append_left hi] at ht
        exact hthreads i d p ht
      · rw [List.getElem?_append_right hi] at ht
        obtain ⟨hlt, hd⟩ := List.getElem?_eq_some_iff.mp ht
        simp only [List.getElem_singleton, Thread.mk.injEq, Option.some.injEq] at hd
        obtain ⟨rfl, rfl⟩ := hd
        rw [entriesOf_fresh hreach hi]
        exact bodies i c
    | run j d op next inp r s hw hx =>
      obtain ⟨hnow, hnext⟩ := hthreads j d _ hw cfg.hist inp r s hI rfl hx
      refine ⟨ran _ _ _ _ _ _ _ hI hx hnow, hP.push fun e he => ?_, fun i c p ht => ?_⟩
      · cases he
        exact hnow
      · rw [Hist.entriesOf_push_ran]
        by_cases hij : j = i
        · subst hij
          rw [List.getElem?_set_self (List.getElem?_eq_some_iff.mp hw).1] at ht
          cases ht
          simpa using hnext
        · rw [List.getElem?_set_ne hij] at ht
          simpa [hij] using hthreads i c p ht
    | crash q =>
      refine ⟨crashed _ _ hI, hP.push (by rintro _ ⟨⟩), fun i c p ht => ?_⟩
      rw [Hist.entriesOf_push_crashed]
      rw [List.getElem?_map] at ht
      obtain ⟨t, ht', hk⟩ := Option.map_eq_some_iff.mp ht
      unfold Thread.kill at hk
      split_ifs at hk
      · cases hk
      · subst hk
        exact hthreads i c p ht'

/-- Nothing that happened is taken back. -/
theorem Step.events_prefix
    {cfg cfg' : Config Op Res Err Out Call Proc Input Shared}
    (h : Relation.ReflTransGen (Step S) cfg cfg') : cfg.hist.events <+: cfg'.hist.events := by
  induction h with
  | refl => exact List.prefix_rfl
  | tail _ hs ih =>
    refine ih.trans ?_
    cases hs <;> exact List.prefix_append _ _

theorem Step.entries_prefix {cfg cfg' : Config Op Res Err Out Call Proc Input Shared}
    (h : Relation.ReflTransGen (Step S) cfg cfg') : cfg.hist.entries <+: cfg'.hist.entries :=
  (Step.events_prefix h).filterMap _

/-- On the way to `cfg` thread `i` has returned `out`. -/
def HasReturned (S : System Op Res Err Out Call Proc Input Shared) (s₀ : Shared)
    (cfg : Config Op Res Err Out Call Proc Input Shared) (i : ℕ) (c : Call) (out : Out) : Prop :=
  ∃ cfg₀, Reach S s₀ cfg₀ ∧ Relation.ReflTransGen (Step S) cfg₀ cfg ∧
    cfg₀.returned i = some (c, out)

omit [DecidableEq Proc] in
/-- What happens only if it has not happened before happens at most once. -/
theorem Hist.Always.once {p : Entry Op Res Call Input Shared → Bool}
    (ha : h.Always fun h e => p e = true → ∀ x ∈ h.entries, p x = false) :
    (h.entries.filter p).length ≤ 1 := by
  obtain ⟨events, s⟩ := h
  induction events using List.reverseRecOn with
  | nil => exact Nat.zero_le _
  | append_singleton events ev ih =>
    have hbefore : (Hist.entries ⟨events, s⟩ |>.filter p).length ≤ 1 :=
      ih fun pre e post he => ha pre e (post ++ [ev]) (by
        simp only [show events = pre ++ .ran e :: post from he, List.append_assoc, List.cons_append])
    change ((Hist.push ⟨events, s⟩ ev s).entries.filter p).length ≤ 1
    cases ev with
    | began i c => rwa [Hist.entries_push_began]
    | crashed q => rwa [Hist.entries_push_crashed]
    | ran e =>
      rw [Hist.entries_push_ran, List.filter_append]
      cases hp : p e with
      | false => simpa [hp] using hbefore
      | true =>
        have hnone := ha events e [] rfl hp
        have : (Hist.entries (⟨events, s⟩ : Hist Op Res Call Proc Input Shared)).filter p = [] :=
          List.filter_eq_nil_iff.mpr fun x hx => by simpa using hnone x hx
        simp [this, hp]

omit [DecidableEq Proc] in
theorem Hist.Always.same {p : Entry Op Res Call Input Shared → Bool}
    (ha : h.Always fun h e => p e = true → ∀ x ∈ h.entries, p x = false)
    {e e' : Entry Op Res Call Input Shared} (he : e ∈ h.entries) (he' : e' ∈ h.entries)
    (hp : p e = true) (hp' : p e' = true) : e = e' := by
  have hmem : e ∈ h.entries.filter p := List.mem_filter.mpr ⟨he, hp⟩
  have hmem' : e' ∈ h.entries.filter p := List.mem_filter.mpr ⟨he', hp'⟩
  match hl : h.entries.filter p, ha.once with
  | [], _ => rw [hl] at hmem; cases hmem
  | [x], _ =>
    rw [hl] at hmem hmem'
    rw [List.mem_singleton.mp hmem, List.mem_singleton.mp hmem']
  | x :: y :: rest, hlen => simp at hlen

/-- A thread lives only as long as its process is the present one. -/
theorem Reach.alive (current : Shared → Proc)
    (admits : ∀ c s s', S.admits c s = some s' → S.proc c = current s ∧ current s' = current s)
    (exec : ∀ op inp s r s', S.exec op inp s = some (r, s') → current s' = current s)
    (crash : ∀ p s, current s ≠ p → current (S.crash p s) = current s)
    {cfg : Config Op Res Err Out Call Proc Input Shared} (hr : Reach S s₀ cfg) :
    (∀ (i : ℕ) (c : Call) (p : Prog Op Res Err Out), cfg.threads[i]? = some ⟨c, some p⟩ →
      S.proc c = current cfg.hist.shared) ∧ cfg.hist.Always fun _ e => S.proc e.call = current e.before := by
  induction hr with
  | start => exact ⟨fun i c p ht => by simp [Config.start] at ht,
      fun pre e post he => by simp [Config.start] at he⟩
  | @step cfg _ hreach hs ih =>
    obtain ⟨hthreads, hpast⟩ := ih
    cases hs with
    | begin c s alive admitted =>
      obtain ⟨hc, hsame⟩ := admits c _ s admitted
      refine ⟨fun i d p ht => ?_, hpast.push (by rintro _ ⟨⟩)⟩
      rw [Hist.push_shared, hsame]
      rcases Nat.lt_or_ge i cfg.threads.length with hi | hi
      · rw [List.getElem?_append_left hi] at ht
        exact hthreads i d p ht
      · rw [List.getElem?_append_right hi] at ht
        obtain ⟨_, hd⟩ := List.getElem?_eq_some_iff.mp ht
        simp only [List.getElem_singleton, Thread.mk.injEq, Option.some.injEq] at hd
        exact hd.1 ▸ hc
    | run j d op next inp r s hw hx =>
      refine ⟨fun i c p ht => ?_, hpast.push fun e he => ?_⟩
      · rw [Hist.push_shared, exec op inp _ r s hx]
        by_cases hij : j = i
        · subst hij
          rw [List.getElem?_set_self (List.getElem?_eq_some_iff.mp hw).1] at ht
          cases ht
          exact hthreads _ _ _ hw
        · rw [List.getElem?_set_ne hij] at ht
          exact hthreads i c p ht
      · cases he
        exact hthreads _ _ _ hw
    | crash q =>
      refine ⟨fun i c p ht => ?_, hpast.push (by rintro _ ⟨⟩)⟩
      rw [List.getElem?_map] at ht
      obtain ⟨t, ht', hk⟩ := Option.map_eq_some_iff.mp ht
      unfold Thread.kill at hk
      split_ifs at hk with hq
      · cases hk
      · subst hk
        have hc := hthreads i c p ht'
        rw [Hist.push_shared, crash q _ fun h => hq (hc.trans h)]
        exact hc

/-! Calls that have ended. -/

section Ended

variable {C : Contract Op Res Call Proc Input Shared}
  {Q : ℕ → Call → Except Err Out → Hist Op Res Call Proc Input Shared → Prop}
  {cfg cfg' : Config Op Res Err Out Call Proc Input Shared} {i : ℕ} {c : Call} {o : Except Err Out}

/-- Thread `i` has ended with `o`, or did and its process crashed since. -/
def EndedThread (cfg : Config Op Res Err Out Call Proc Input Shared) (i : ℕ) (c : Call)
    (o : Except Err Out) : Prop :=
  ∃ rest, cfg.threads[i]? = some ⟨c, rest⟩ ∧ (rest = none ∨ rest = some (Prog.resume o))

/-- On the way to `cfg` thread `i` has ended with `o`. -/
def HasEnded (S : System Op Res Err Out Call Proc Input Shared) (s₀ : Shared)
    (cfg : Config Op Res Err Out Call Proc Input Shared) (i : ℕ) (c : Call) (o : Except Err Out) :
    Prop :=
  ∃ cfg₀, Reach S s₀ cfg₀ ∧ Relation.ReflTransGen (Step S) cfg₀ cfg ∧
    cfg₀.threads[i]? = some ⟨c, some (Prog.resume o)⟩

theorem HasReturned.ended {out : Out} (h : HasReturned S s₀ cfg i c out) :
    HasEnded S s₀ cfg i c (.ok out) := by
  obtain ⟨cfg₀, hr, hlater, hret⟩ := h
  exact ⟨cfg₀, hr, hlater, Config.returned_eq_some hret⟩

omit [DecidableEq Proc] in
/-- A thread with a command to run has not ended. -/
theorem EndedThread.other (h : EndedThread cfg i c o) {j : ℕ} {d : Call} {op : Op}
    {next : Res op → Prog Op Res Err Out} (hw : cfg.threads[j]? = some ⟨d, some (.call op next)⟩) :
    j ≠ i := by
  rintro rfl
  obtain ⟨rest, ht, hrest⟩ := h
  rw [ht, Option.some.injEq, Thread.mk.injEq] at hw
  obtain ⟨-, rfl⟩ := hw
  rcases hrest with hrest | hrest
  · cases hrest
  · cases o <;> cases hrest

/-- A thread that has ended makes no more commands. -/
theorem EndedThread.step (h : EndedThread cfg i c o) (hs : Step S cfg cfg') :
    EndedThread cfg' i c o := by
  obtain ⟨rest, ht, hrest⟩ := id h
  have hlt := (List.getElem?_eq_some_iff.mp ht).1
  cases hs with
  | begin d s _ _ => exact ⟨rest, by rw [List.getElem?_append_left hlt]; exact ht, hrest⟩
  | run j d op next inp r s hw hx =>
    exact ⟨rest, by rw [List.getElem?_set_ne (h.other hw)]; exact ht, hrest⟩
  | crash p =>
    rw [EndedThread, List.getElem?_map, ht, Option.map_some, Thread.kill]
    split_ifs
    · exact ⟨none, rfl, .inl rfl⟩
    · exact ⟨rest, rfl, hrest⟩

/-- Where no crash hurts a rely, a thread that has ended relies on every step. -/
theorem Contract.Upheld.relied (U : C.Upheld S Q) (hstart : C.Inv ⟨[], s₀⟩)
    (crashes : ∀ h p j d, C.Inv h → C.Ok (h.push (.crashed p) (S.crash p h.shared)) →
      C.Rely j d h (h.push (.crashed p) (S.crash p h.shared)))
    (hr : Reach S s₀ cfg) (hs : Step S cfg cfg') (hok : C.Ok cfg'.hist) (h : EndedThread cfg i c o) :
    C.Rely i c cfg.hist cfg'.hist := by
  obtain ⟨hinv, hsafe⟩ := U.run hstart hr (U.okBefore hs hok)
  obtain ⟨rest, ht, -⟩ := id h
  have hlt := (List.getElem?_eq_some_iff.mp ht).1
  cases hs with
  | begin d s alive adm =>
    exact (U.began cfg.hist _ d s hinv (entriesOf_fresh hr le_rfl) alive adm hok).2.1 i c hlt.ne
  | run j d op next inp r s hw hx =>
    obtain ⟨h₀, hr₀, hp⟩ := hsafe j _ hw _ rfl
    exact (hp cfg.hist inp r s hr₀ hinv hx hok).2.1 i c (h.other hw).symm
  | crash p => exact crashes cfg.hist p i c hinv hok

/-- What a call that has ended leaves behind, also after a crash of its process. -/
theorem Contract.Upheld.ended (U : C.Upheld S Q) (hstart : C.Inv ⟨[], s₀⟩)
    (crashes : ∀ h p j d, C.Inv h → C.Ok (h.push (.crashed p) (S.crash p h.shared)) →
      C.Rely j d h (h.push (.crashed p) (S.crash p h.shared)))
    (hok : C.Ok cfg.hist) (h : HasEnded S s₀ cfg i c o) :
    ∃ h₀, C.Rely i c h₀ cfg.hist ∧ Q i c o h₀ := by
  obtain ⟨cfg₀, hr₀, hlater, ht⟩ := h
  have run : Reach S s₀ cfg ∧ EndedThread cfg i c o ∧
      (C.Ok cfg.hist → ∃ h₀, C.Rely i c h₀ cfg.hist ∧ Q i c o h₀) := by
    clear hok
    induction hlater with
    | refl => exact ⟨hr₀, ⟨_, ht, .inr rfl⟩, fun hok => U.finished hstart hr₀ hok ht⟩
    | tail _ hs ih =>
      obtain ⟨hr, hended, hdone⟩ := ih
      refine ⟨hr.step hs, hended.step hs, fun hok => ?_⟩
      obtain ⟨h₀, hrely, hq⟩ := hdone (U.okBefore hs hok)
      exact ⟨h₀, U.trans _ _ _ _ _ hrely (U.relied hstart crashes hr hs hok hended), hq⟩
  exact run.2.2 hok

end Ended

end Runs

end Wazir.Async
